import Mathlib.Data.Finset.Dedup
import SphereFx.Base.Numbering
import SphereFx.Extractor.Levels

/-!
# The level numbers of the targets

An indexed target has the level that `Atoi` reads, zero and overflow included. A list price takes the
next number that is not in use. Both are 64-bit keys and become 32-bit levels in the result, so the
levels are in order as long as the keys stay positive and apart when they are narrowed.
-/

namespace SphereFx.Extractor

open SphereFx.Numbering

/-! ### Narrowing to 32 bits -/

theorem toInt32_range (n : Int) : -2 ^ 31 ≤ toInt32 n ∧ toInt32 n < 2 ^ 31 := by
  unfold toInt32
  omega

theorem toInt32_eq_self {n : Int} (hlow : -2 ^ 31 ≤ n) (hhigh : n < 2 ^ 31) : toInt32 n = n := by
  unfold toInt32
  omega

/-- The numbers of the indexed targets narrow to positive levels, each to its own, and as many of the
numbers above their count as there are list prices can be used without meeting one of these levels or
the end of the range. -/
structure LevelsFit (numbers : Finset ℤ) (prices : ℕ) : Prop where
  positive : ∀ n ∈ numbers, 1 ≤ toInt32 n
  distinct : ∀ n ∈ numbers, ∀ m ∈ numbers, toInt32 n = toInt32 m → n = m
  apart : ∀ n ∈ numbers, toInt32 n ≠ n → toInt32 n ≤ numbers.card ∨
    prices ≤ free numbers numbers.card (toInt32 n)
  room : prices ≤ free numbers numbers.card (2 ^ 31)

/-- The numbers that end up as keys. -/
def IsKey (numbers : Finset ℤ) (prices : ℕ) (n : ℤ) : Prop :=
  n ∈ numbers ∨ Taken numbers numbers.card prices n

section Narrowing

variable {numbers : Finset ℤ} {prices : ℕ}

private theorem card_lt_of_narrow (hpositive : ∀ n ∈ numbers, 1 ≤ toInt32 n)
    (hdistinct : ∀ n ∈ numbers, ∀ m ∈ numbers, toInt32 n = toInt32 m → n = m) :
    (numbers.card : ℤ) < 2 ^ 31 := by
  have hsub : numbers.image toInt32 ⊆ Finset.Ico 1 (2 ^ 31) := by
    intro level hlevel
    obtain ⟨n, hn, rfl⟩ := Finset.mem_image.mp hlevel
    exact Finset.mem_Ico.mpr ⟨hpositive n hn, (toInt32_range n).2⟩
  have hcard := Finset.card_le_card hsub
  rw [Finset.card_image_of_injOn fun n hn m hm => hdistinct n hn m hm, Int.card_Ico] at hcard
  omega

theorem LevelsFit.lt_of_taken (h : LevelsFit numbers prices) {n : ℤ}
    (hn : Taken numbers numbers.card prices n) : 1 ≤ n ∧ n < 2 ^ 31 := by
  obtain ⟨hlow, -, hfew⟩ := hn
  refine ⟨by omega, ?_⟩
  by_contra hlarge
  have hroom := h.room
  have hmono : free numbers numbers.card (2 ^ 31) ≤ free numbers numbers.card n :=
    free_mono (not_lt.mp hlarge)
  omega

theorem LevelsFit.ne_of_taken (h : LevelsFit numbers prices) {n m : ℤ} (hn : n ∈ numbers)
    (hm : Taken numbers numbers.card prices m) : toInt32 n ≠ m := by
  rintro rfl
  obtain ⟨hlow, hunused, hfew⟩ := hm
  by_cases hself : toInt32 n = n
  · rw [hself] at hunused
    exact hunused hn
  · rcases h.apart n hn hself with hsmall | hmany
    · exact absurd hlow (not_lt.mpr hsmall)
    · exact absurd hfew (not_lt.mpr hmany)

private theorem levelsFit_iff : LevelsFit numbers prices ↔
    (∀ n, IsKey numbers prices n → 1 ≤ toInt32 n) ∧
      ∀ n m, IsKey numbers prices n → IsKey numbers prices m → toInt32 n = toInt32 m → n = m := by
  constructor
  · intro h
    have hself : ∀ n, Taken numbers numbers.card prices n → toInt32 n = n := fun n hn =>
      toInt32_eq_self (by have := (h.lt_of_taken hn).1; omega) (h.lt_of_taken hn).2
    constructor
    · rintro n (hn | hn)
      · exact h.positive n hn
      · rw [hself n hn]
        exact (h.lt_of_taken hn).1
    · rintro n m (hn | hn) (hm | hm) heq
      · exact h.distinct n hn m hm heq
      · rw [hself m hm] at heq
        exact absurd heq (h.ne_of_taken hn hm)
      · rw [hself n hn] at heq
        exact absurd heq.symm (h.ne_of_taken hm hn)
      · rwa [hself n hn, hself m hm] at heq
  · rintro ⟨hpositive, hdistinct⟩
    have hpositiveNumbers : ∀ n ∈ numbers, 1 ≤ toInt32 n := fun n hn => hpositive n (Or.inl hn)
    have hdistinctNumbers : ∀ n ∈ numbers, ∀ m ∈ numbers, toInt32 n = toInt32 m → n = m :=
      fun n hn m hm => hdistinct n m (Or.inl hn) (Or.inl hm)
    refine ⟨hpositiveNumbers, hdistinctNumbers, ?_, ?_⟩
    · intro n hn hother
      by_contra hmeets
      rw [not_or, not_le, not_le] at hmeets
      obtain ⟨hlow, hhigh⟩ := toInt32_range n
      have hkey : IsKey numbers prices (toInt32 n) := by
        by_cases hused : toInt32 n ∈ numbers
        · exact Or.inl hused
        · exact Or.inr ⟨hmeets.1, hused, hmeets.2⟩
      exact hother (hdistinct _ _ hkey (Or.inl hn) (toInt32_eq_self hlow hhigh))
    · by_contra hfull
      -- The first number that is too large is then in use or taken, and it narrows to a negative one.
      have hkey : IsKey numbers prices (2 ^ 31) := by
        by_cases hused : (2 : ℤ) ^ 31 ∈ numbers
        · exact Or.inl hused
        · exact Or.inr ⟨card_lt_of_narrow hpositiveNumbers hdistinctNumbers, hused, not_le.mp hfull⟩
      have hnegative : ¬ 1 ≤ toInt32 (2 ^ 31) := by decide
      exact hnegative (hpositive _ hkey)

end Narrowing

namespace Parser

/-! ### The keys of the map -/

/-- Every key has one entry, which holds the narrowed key and a price the symbol allows. -/
structure LevelMap.Sound (p : Parser) (symbol : String) (levels : LevelMap) : Prop where
  nodup : (levels.map Prod.fst).Nodup
  entries : ∀ found ∈ levels,
    found.2.level = toInt32 found.1 ∧ p.validatePrice found.2.price symbol = true

theorem LevelMap.has_iff {levels : LevelMap} {level : Int} :
    levels.has level = true ↔ level ∈ levels.map Prod.fst := by
  rw [LevelMap.has, List.any_eq_true, List.mem_map]
  exact exists_congr fun found => and_congr_right fun _ => decide_eq_true_iff

variable {p : Parser} {symbol : String}

theorem LevelMap.sound_nil : LevelMap.Sound p symbol [] :=
  ⟨List.nodup_nil, List.forall_mem_nil _⟩

theorem LevelMap.Sound.set {levels : LevelMap} (h : levels.Sound p symbol) {price : F64}
    (hprice : p.validatePrice price symbol = true) (level : Int) :
    (levels.set level ⟨toInt32 level, price⟩).Sound p symbol := by
  constructor
  · rw [LevelMap.set, List.map_append, List.map_singleton, List.nodup_append]
    refine ⟨h.nodup.sublist (List.filter_sublist.map Prod.fst), List.nodup_singleton _, ?_⟩
    intro n hn m hm
    obtain ⟨found, hfound, rfl⟩ := List.mem_map.mp hn
    rw [List.mem_singleton.mp hm]
    exact of_decide_eq_true (List.mem_filter.mp hfound).2
  · intro found hfound
    rcases LevelMap.mem_set.mp hfound with ⟨hold, -⟩ | rfl
    · exact h.entries found hold
    · exact ⟨rfl, hprice⟩

theorem LevelMap.has_set {levels : LevelMap} {level n : Int} {entry : TakeProfitLevel} :
    (levels.set level entry).has n = true ↔ levels.has n = true ∨ n = level := by
  simp only [LevelMap.has_iff, List.mem_map, LevelMap.mem_set]
  constructor
  · rintro ⟨found, ⟨hold, -⟩ | rfl, rfl⟩
    · exact Or.inl ⟨found, hold, rfl⟩
    · exact Or.inr rfl
  · rintro (⟨found, hold, rfl⟩ | rfl)
    · by_cases hlevel : found.1 = level
      · exact ⟨(level, entry), Or.inr rfl, hlevel.symm⟩
      · exact ⟨found, Or.inl ⟨hold, hlevel⟩, rfl⟩
    · exact ⟨(_, entry), Or.inr rfl, rfl⟩

/-- The search passes over numbers in use only. -/
theorem has_below_unusedFrom (levels : LevelMap) (fuel : Nat) (level : Int) :
    level ≤ unusedFrom levels fuel level ∧
      ∀ n, level ≤ n → n < unusedFrom levels fuel level → levels.has n = true := by
  induction fuel generalizing level with
  | zero => exact ⟨le_rfl, fun n hlow hhigh => absurd hhigh (not_lt.mpr hlow)⟩
  | succ fuel ih =>
      rw [unusedFrom]
      by_cases hlevel : levels.has level = true
      · rw [if_pos hlevel]
        obtain ⟨hstart, hused⟩ := ih (level + 1)
        refine ⟨by omega, fun n hlow hhigh => ?_⟩
        by_cases heq : n = level
        · rwa [heq]
        · exact hused n (by omega) hhigh
      · rw [if_neg hlevel]
        exact ⟨le_rfl, fun n hlow hhigh => absurd hhigh (not_lt.mpr hlow)⟩

/-! ### The indexed targets -/

variable (p) in
/-- Whether a token spells a price that the symbol allows. -/
def takesToken (symbol : String) (token : List Char) : Bool :=
  (parseFloat token).any fun price => p.validatePrice price symbol

theorem takesToken_iff {token : List Char} :
    p.takesToken symbol token = true ↔ ∃ price, p.Takes symbol token price := by
  rw [takesToken, Option.any_eq_true]
  rfl

variable (p) in
/-- The price of a match of the indexed pattern is taken. -/
def takesIndexed (symbol : String) (m : Hit) : Bool :=
  p.takesToken symbol (p.cleanNumericString (m.submatch 3) symbol)

/-- The matches of `with_index`. -/
def indexedHits (cfg : PatternConfig) (text : List Char) : List Hit :=
  match cfg.withIndex with
  | none => []
  | some re => if 3 ≤ re.groups then re.findAll text else []

variable (p) in
/-- The levels of the indexed targets whose prices are taken. -/
def indexedNumbers (cfg : PatternConfig) (text : List Char) (symbol : String) : Finset ℤ :=
  (((indexedHits cfg text).filter (p.takesIndexed symbol)).map fun m => atoi (m.submatch 2)).toFinset

theorem indexedLevels_eq (cfg : PatternConfig) (text : List Char) : p.indexedLevels cfg text symbol =
    (indexedHits cfg text).foldl (p.addIndexed symbol) [] := by
  unfold indexedLevels indexedHits
  cases cfg.withIndex with
  | none => rfl
  | some re =>
      simp only
      split <;> rfl

private theorem sound_addIndexed {levels : LevelMap} (h : levels.Sound p symbol) (m : Hit) :
    (p.addIndexed symbol levels m).Sound p symbol := by
  unfold addIndexed
  cases parseFloat (p.cleanNumericString (m.submatch 3) symbol) with
  | none => exact h
  | some price =>
      simp only
      split
      · rename_i hprice
        exact h.set hprice _
      · exact h

private theorem has_addIndexed {levels : LevelMap} {m : Hit} {n : Int} :
    (p.addIndexed symbol levels m).has n = true ↔
      levels.has n = true ∨ p.takesIndexed symbol m = true ∧ n = atoi (m.submatch 2) := by
  unfold addIndexed takesIndexed takesToken
  cases parseFloat (p.cleanNumericString (m.submatch 3) symbol) with
  | none => simp
  | some price =>
      simp only [Option.any_some]
      split
      · rename_i hprice
        rw [LevelMap.has_set]
        simp [hprice]
      · rename_i hprice
        simp [hprice]

private theorem has_indexedLevels {cfg : PatternConfig} {text : List Char} :
    (p.indexedLevels cfg text symbol).Sound p symbol ∧
      ∀ n, (p.indexedLevels cfg text symbol).has n = true ↔ n ∈ p.indexedNumbers cfg text symbol := by
  have hfold : ∀ (hits : List Hit) (levels : LevelMap), levels.Sound p symbol →
      (hits.foldl (p.addIndexed symbol) levels).Sound p symbol ∧
        ∀ n, (hits.foldl (p.addIndexed symbol) levels).has n = true ↔ levels.has n = true ∨
          ∃ m ∈ hits, p.takesIndexed symbol m = true ∧ n = atoi (m.submatch 2) := by
    intro hits
    induction hits with
    | nil => exact fun levels h => ⟨h, fun n => by simp⟩
    | cons m rest ih =>
        intro levels h
        obtain ⟨hsound, hhas⟩ := ih _ (sound_addIndexed h m)
        refine ⟨hsound, fun n => ?_⟩
        rw [List.foldl_cons, hhas, has_addIndexed, List.exists_mem_cons_iff, or_assoc]
  rw [indexedLevels_eq]
  obtain ⟨hsound, hhas⟩ := hfold (indexedHits cfg text) [] LevelMap.sound_nil
  refine ⟨hsound, fun n => ?_⟩
  rw [hhas, indexedNumbers, List.mem_toFinset, List.mem_map]
  have hnone : LevelMap.has [] n = false := rfl
  simp only [hnone, Bool.false_eq_true, false_or, List.mem_filter, and_assoc, eq_comm]

/-! ### The list prices -/

variable (p) in
/-- The number of list prices that are taken. -/
def listedPrices (cfg : PatternConfig) (text : List Char) (symbol : String) : ℕ :=
  (p.listTokens cfg text symbol).countP (p.takesToken symbol)

/-- The map after the indexed targets and `n` list prices. -/
structure LevelMap.Counted (p : Parser) (symbol : String) (numbers : Finset ℤ) (n : ℕ)
    (levels : LevelMap) : Prop where
  sound : levels.Sound p symbol
  keys : ∀ x, levels.has x = true ↔ IsKey numbers n x
  length : levels.length = numbers.card + n

/-- The search for the next level has passed over used levels only. -/
def Searched (numbers : Finset ℤ) (state : LevelMap × Int) : Prop :=
  numbers.card < state.2 ∧ ∀ x : ℤ, numbers.card < x → x < state.2 → state.1.has x = true

section ListPass

variable {numbers : Finset ℤ} {n : ℕ}

/-- A token that is taken gets the next number. -/
private theorem counted_addToken {state : LevelMap × Int} {token : List Char}
    (hcounted : state.1.Counted p symbol numbers n) (hsearched : Searched numbers state)
    (htakes : p.takesToken symbol token = true) :
    (p.addToken symbol state token).1.Counted p symbol numbers (n + 1) ∧
      Searched numbers (p.addToken symbol state token) := by
  obtain ⟨price, hparse, hprice⟩ := takesToken_iff.mp htakes
  obtain ⟨hstart, hpassed⟩ := has_below_unusedFrom state.1 (state.1.length + 1) state.2
  have hunused := has_unusedFrom state.1 state.2
  rw [addToken, hparse]
  simp only [if_pos hprice]
  generalize unusedFrom state.1 (state.1.length + 1) state.2 = level at hstart hpassed hunused
  have hlow : (numbers.card : ℤ) < level := hsearched.1.trans_le hstart
  have hbelow : ∀ x : ℤ, numbers.card < x → x < level → state.1.has x = true := by
    intro x hx hlevel
    by_cases hnext : x < state.2
    · exact hsearched.2 x hx hnext
    · exact hpassed x (not_lt.mp hnext) hlevel
  have hfree : ¬ IsKey numbers n level := by
    rw [← hcounted.keys, hunused]
    exact Bool.false_ne_true
  obtain ⟨hnumber, htaken⟩ := not_or.mp hfree
  refine ⟨⟨hcounted.sound.set hprice level, fun x => ?_, ?_⟩, by omega, fun x hx hlevel => ?_⟩
  · rw [LevelMap.has_set, hcounted.keys, IsKey, IsKey,
      taken_succ_iff hlow hnumber htaken fun y hy hlevel => (hcounted.keys y).mp (hbelow y hy hlevel),
      or_assoc]
  · rw [LevelMap.set_of_unused hunused, List.length_append, List.length_singleton, hcounted.length]
    rfl
  · rw [LevelMap.has_set]
    rcases (Int.lt_add_one_iff.mp hlevel).lt_or_eq with hless | heq
    · exact Or.inl (hbelow x hx hless)
    · exact Or.inr heq

private theorem counted_foldl_addToken {tokens : List (List Char)} {state : LevelMap × Int}
    (hcounted : state.1.Counted p symbol numbers n) (hsearched : Searched numbers state) :
    (tokens.foldl (p.addToken symbol) state).1.Counted p symbol numbers
      (n + tokens.countP (p.takesToken symbol)) := by
  induction tokens generalizing state n with
  | nil => exact hcounted
  | cons token rest ih =>
      rw [List.foldl_cons, List.countP_cons]
      by_cases htakes : p.takesToken symbol token = true
      · obtain ⟨hnext, hsearch⟩ := counted_addToken hcounted hsearched htakes
        have hsum : n + (rest.countP (p.takesToken symbol) + 1) =
            n + 1 + rest.countP (p.takesToken symbol) := by omega
        rw [if_pos htakes, hsum]
        exact ih hnext hsearch
      · rw [if_neg htakes, addToken_of_not_takes fun price h => htakes (takesToken_iff.mpr ⟨price, h⟩)]
        exact ih hcounted hsearched

private theorem counted_addSection {levels : LevelMap} (hcounted : levels.Counted p symbol numbers n) (m : Hit) :
    (p.addSection symbol levels m).Counted p symbol numbers
      (n + (p.parseNumberList (m.submatch 3) symbol).countP (p.takesToken symbol)) := by
  have hlength := hcounted.length
  apply counted_foldl_addToken hcounted
  refine ⟨?_, fun x hx hnext => ?_⟩
  · show (numbers.card : ℤ) < (levels.length : ℤ) + 1
    omega
  · have hnext : x < (levels.length : ℤ) + 1 := hnext
    exact (hcounted.keys x).mpr (used_or_taken hx (by omega))

private theorem counted_addSections {hits : List Hit} {levels : LevelMap}
    (hcounted : levels.Counted p symbol numbers n) :
    (hits.foldl (p.addSection symbol) levels).Counted p symbol numbers
      (n + (hits.flatMap fun m => p.parseNumberList (m.submatch 3) symbol).countP
        (p.takesToken symbol)) := by
  induction hits generalizing levels n with
  | nil => exact hcounted
  | cons m rest ih =>
      rw [List.foldl_cons, List.flatMap_cons, List.countP_append, ← Nat.add_assoc]
      exact ih (counted_addSection hcounted m)

end ListPass

private theorem counted_indexedLevels (cfg : PatternConfig) (text : List Char) :
    (p.indexedLevels cfg text symbol).Counted p symbol (p.indexedNumbers cfg text symbol) 0 := by
  obtain ⟨hsound, hhas⟩ := @has_indexedLevels p symbol cfg text
  refine ⟨hsound, fun x => ?_, ?_⟩
  · rw [hhas, IsKey, or_iff_left not_taken_zero]
  · have hnumbers : ((p.indexedLevels cfg text symbol).map Prod.fst).toFinset =
        p.indexedNumbers cfg text symbol := by
      ext x
      rw [List.mem_toFinset, ← LevelMap.has_iff, hhas]
    rw [← hnumbers, List.toFinset_card_of_nodup hsound.nodup, List.length_map, Nat.add_zero]

private theorem counted_levelMap (cfg : PatternConfig) (text : List Char) :
    (p.levelMap cfg text symbol).Counted p symbol (p.indexedNumbers cfg text symbol)
      (p.listedPrices cfg text symbol) := by
  have hindexed := @counted_indexedLevels p symbol cfg text
  rw [levelMap_eq, listedPrices, listTokens]
  split
  · have hsections := @counted_addSections p symbol _ 0 ((listPattern cfg).findAll text) _ hindexed
    rwa [Nat.zero_add] at hsections
  · exact hindexed

/-! ### The result -/

variable (p) in
/-- Strictly increasing positive levels, with prices that the symbol allows. -/
structure WellFormed (symbol : String) (targets : List TakeProfitLevel) : Prop where
  increasing : targets.Pairwise fun a b => a.level < b.level
  positive : ∀ target ∈ targets, 1 ≤ target.level
  allowed : ∀ target ∈ targets, p.validatePrice target.price symbol = true

variable {rangeOrder : LevelMap → LevelMap} {cfg : PatternConfig} {text : List Char}

/-- The result is well formed exactly when the numbers of the targets fit 32 bits. -/
theorem wellFormed_iff (p : Parser) (rangeOrder : LevelMap → LevelMap)
    (hrange : ∀ levels, (rangeOrder levels).Perm levels) (cfg : PatternConfig) (text : List Char)
    (symbol : String) :
    p.WellFormed symbol (p.extractTakeProfit rangeOrder cfg text symbol) ↔
      LevelsFit (p.indexedNumbers cfg text symbol) (p.listedPrices cfg text symbol) := by
  obtain ⟨⟨hnodup, hentries⟩, hkeys, -⟩ := @counted_levelMap p symbol cfg text
  have hmem : ∀ {target}, target ∈ p.extractTakeProfit rangeOrder cfg text symbol ↔
      ∃ found ∈ p.levelMap cfg text symbol, found.2 = target := by
    intro target
    rw [(perm_extractTakeProfit hrange).mem_iff, List.mem_map]
  have hlevels : ((p.levelMap cfg text symbol).map fun found => found.2.level) =
      ((p.levelMap cfg text symbol).map Prod.fst).map toInt32 := by
    rw [List.map_map]
    exact List.map_congr_left fun found hfound => (hentries found hfound).1
  have hincreasing : (p.extractTakeProfit rangeOrder cfg text symbol).Pairwise
        (fun a b => a.level < b.level) ↔
      ∀ n m, IsKey (p.indexedNumbers cfg text symbol) (p.listedPrices cfg text symbol) n →
        IsKey (p.indexedNumbers cfg text symbol) (p.listedPrices cfg text symbol) m →
          toInt32 n = toInt32 m → n = m := by
    rw [increasing_extractTakeProfit_iff hrange, hlevels, List.nodup_map_iff_inj_on hnodup]
    simp only [← hkeys, LevelMap.has_iff]
    exact ⟨fun h n m hn hm => h n hn m hm, fun h n hn m hm => h n m hn hm⟩
  rw [levelsFit_iff, ← hincreasing]
  constructor
  · intro h
    refine ⟨fun n hn => ?_, h.increasing⟩
    obtain ⟨found, hfound, rfl⟩ := List.mem_map.mp (LevelMap.has_iff.mp ((hkeys n).mpr hn))
    rw [← (hentries found hfound).1]
    exact h.positive _ (hmem.mpr ⟨found, hfound, rfl⟩)
  · rintro ⟨hpositive, hstrict⟩
    refine ⟨hstrict, fun target htarget => ?_, fun target htarget => ?_⟩
    · obtain ⟨found, hfound, rfl⟩ := hmem.mp htarget
      rw [(hentries found hfound).1]
      exact hpositive _ ((hkeys _).mp (LevelMap.has_iff.mpr (List.mem_map_of_mem hfound)))
    · obtain ⟨found, hfound, rfl⟩ := hmem.mp htarget
      exact (hentries found hfound).2

end Parser

/-- Two targets that fit. -/
theorem wellFormed_iff_firstTarget : shippedParser.WellFormed "EURUSD"
    (shippedParser.extractTakeProfit id takeProfitConfig "EURUSD TP3 1.0905 TP1 1.0855".toList
      "EURUSD") := by
  have hnumbers : shippedParser.indexedNumbers takeProfitConfig "EURUSD TP3 1.0905 TP1 1.0855".toList
      "EURUSD" = {1, 3} := by decide +kernel
  have hprices : shippedParser.listedPrices takeProfitConfig "EURUSD TP3 1.0905 TP1 1.0855".toList
      "EURUSD" = 0 := by decide +kernel
  apply (Parser.wellFormed_iff shippedParser id (fun _ => List.Perm.refl _) takeProfitConfig _ _).mpr
  rw [hnumbers, hprices]
  refine ⟨?_, ?_, fun _ _ _ => Or.inr (Nat.zero_le _), Nat.zero_le _⟩
  · decide
  · decide

/-- The second of two levels is the first after narrowing, and zero is no level. -/
theorem levels_out_of_order :
    shippedParser.extractTakeProfit id takeProfitConfig
      "EURUSD TP0 1.0855 TP1 1.0905 TP4294967297 1.0955".toList "EURUSD" =
        [⟨0, .fin (2171 / 2000)⟩, ⟨1, .fin (2181 / 2000)⟩, ⟨1, .fin (2191 / 2000)⟩] ∧
    ¬ shippedParser.WellFormed "EURUSD" (shippedParser.extractTakeProfit id takeProfitConfig
      "EURUSD TP0 1.0855 TP1 1.0905 TP4294967297 1.0955".toList "EURUSD") := by
  have htargets : shippedParser.extractTakeProfit id takeProfitConfig
      "EURUSD TP0 1.0855 TP1 1.0905 TP4294967297 1.0955".toList "EURUSD" =
        [⟨0, .fin (2171 / 2000)⟩, ⟨1, .fin (2181 / 2000)⟩, ⟨1, .fin (2191 / 2000)⟩] := by
    decide +kernel
  refine ⟨htargets, fun h => ?_⟩
  have hpositive := h.positive ⟨0, .fin (2171 / 2000)⟩ (htargets ▸ List.mem_cons_self)
  exact absurd hpositive (by decide)

end SphereFx.Extractor
