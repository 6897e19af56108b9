import Mathlib.Data.List.Perm.Subperm
import SphereFx.Base.Run
import SphereFx.Extractor.Parser

/-!
# What the two passes put in the level map

A match of the indexed pattern replaces an entry with its level. A token of a list takes a level that
is not in use, so the second pass only adds entries: every token that parses to a price the symbol
allows ends up in the result.
-/

namespace SphereFx.Extractor

namespace Parser

/-! ### The map -/

theorem LevelMap.mem_set {levels : LevelMap} {level : Int} {entry : TakeProfitLevel}
    {found : Int × TakeProfitLevel} :
    found ∈ levels.set level entry ↔ found ∈ levels ∧ found.1 ≠ level ∨ found = (level, entry) := by
  rw [LevelMap.set, List.mem_append, List.mem_filter, List.mem_singleton, decide_eq_true_eq]

theorem LevelMap.has_eq_false {levels : LevelMap} {level : Int} :
    levels.has level = false ↔ ∀ found ∈ levels, found.1 ≠ level := by
  simp only [LevelMap.has, List.any_eq_false, decide_eq_true_eq, ne_eq]

theorem LevelMap.mem_set_of_unused {levels : LevelMap} {level : Int} {entry : TakeProfitLevel}
    {found : Int × TakeProfitLevel} (h : levels.has level = false) :
    found ∈ levels.set level entry ↔ found ∈ levels ∨ found = (level, entry) := by
  rw [LevelMap.mem_set]
  constructor
  · rintro (⟨hfound, -⟩ | heq)
    · exact Or.inl hfound
    · exact Or.inr heq
  · rintro (hfound | heq)
    · exact Or.inl ⟨hfound, LevelMap.has_eq_false.mp h found hfound⟩
    · exact Or.inr heq

theorem LevelMap.set_of_unused {levels : LevelMap} {level : Int} {entry : TakeProfitLevel}
    (h : levels.has level = false) : levels.set level entry = levels ++ [(level, entry)] := by
  rw [LevelMap.set, List.filter_eq_self.mpr]
  exact fun found hfound => decide_eq_true (LevelMap.has_eq_false.mp h found hfound)

/-! ### The search for an unused level -/

private theorem has_of_unusedFrom {levels : LevelMap} {fuel : Nat} {level : Int}
    (h : levels.has (unusedFrom levels fuel level) = true) (k : Nat) (hk : k < fuel) :
    levels.has (level + k) = true := by
  induction fuel generalizing level k with
  | zero => exact absurd hk (Nat.not_lt_zero k)
  | succ fuel ih =>
      rw [unusedFrom] at h
      by_cases hlevel : levels.has level = true
      · rw [if_pos hlevel] at h
        cases k with
        | zero => simpa using hlevel
        | succ k =>
            have hnext := ih h k (Nat.lt_of_succ_lt_succ hk)
            have hsum : level + 1 + (k : Int) = level + ((k + 1 : Nat) : Int) := by omega
            rwa [hsum] at hnext
      · rw [if_neg hlevel] at h
        exact absurd h hlevel

/-- There are fewer entries than steps, so the search does not give up. -/
theorem has_unusedFrom (levels : LevelMap) (level : Int) :
    levels.has (unusedFrom levels (levels.length + 1) level) = false := by
  by_contra hused
  rw [Bool.not_eq_false] at hused
  have hsubset : ((List.range (levels.length + 1)).map fun k : Nat => level + (k : Int)) ⊆
      levels.map Prod.fst := by
    intro tried htried
    obtain ⟨k, hk, rfl⟩ := List.mem_map.mp htried
    have hhas := has_of_unusedFrom hused k (List.mem_range.mp hk)
    obtain ⟨found, hfound, hlevel⟩ := List.any_eq_true.mp hhas
    exact List.mem_map.mpr ⟨found, hfound, of_decide_eq_true hlevel⟩
  have hnodup : ((List.range (levels.length + 1)).map fun k : Nat => level + (k : Int)).Nodup := by
    apply List.nodup_range.map
    intro a b hab
    have hsame : level + (a : Int) = level + (b : Int) := hab
    omega
  have hlength := (List.subperm_of_subset hnodup hsubset).length_le
  rw [List.length_map, List.length_range, List.length_map] at hlength
  exact absurd hlength (Nat.not_succ_le_self levels.length)

/-! ### Prices -/

variable (p : Parser)

/-- A spelling of a price that the symbol allows. -/
def Takes (symbol : String) (token : List Char) (price : F64) : Prop :=
  parseFloat token = some price ∧ p.validatePrice price symbol = true

/-- The prices among the tokens that the symbol allows. -/
def pricesOf (symbol : String) (tokens : List (List Char)) : List F64 :=
  tokens.filterMap fun token => (parseFloat token).filter fun price => p.validatePrice price symbol

def LevelMap.HasPrice (levels : LevelMap) (price : F64) : Prop :=
  ∃ found ∈ levels, found.2.price = price

/-- What the first pass leaves. -/
def indexedLevels (cfg : PatternConfig) (text : List Char) (symbol : String) : LevelMap :=
  match cfg.withIndex with
  | none => []
  | some re => if 3 ≤ re.groups then (re.findAll text).foldl (p.addIndexed symbol) [] else []

theorem levelMap_eq (cfg : PatternConfig) (text : List Char) (symbol : String) :
    p.levelMap cfg text symbol =
      if cfg.noIndexList then
        ((listPattern cfg).findAll text).foldl (p.addSection symbol) (p.indexedLevels cfg text symbol)
      else p.indexedLevels cfg text symbol := rfl

/-- The tokens of all captured list sections. -/
def listTokens (cfg : PatternConfig) (text : List Char) (symbol : String) : List (List Char) :=
  if cfg.noIndexList then
    ((listPattern cfg).findAll text).flatMap fun m => p.parseNumberList (m.submatch 3) symbol
  else []

variable {p} {symbol : String} {price : F64}

private theorem hasPrice_addIndexed {levels : LevelMap} {m : Hit}
    (h : (p.addIndexed symbol levels m).HasPrice price) :
    levels.HasPrice price ∨ p.Takes symbol (p.cleanNumericString (m.submatch 3) symbol) price := by
  unfold addIndexed at h
  cases hparse : parseFloat (p.cleanNumericString (m.submatch 3) symbol) with
  | none =>
      rw [hparse] at h
      exact Or.inl h
  | some parsed =>
      rw [hparse] at h
      by_cases hvalid : p.validatePrice parsed symbol = true
      · simp only [if_pos hvalid] at h
        obtain ⟨found, hfound, rfl⟩ := h
        rcases LevelMap.mem_set.mp hfound with ⟨hold, -⟩ | rfl
        · exact Or.inl ⟨found, hold, rfl⟩
        · exact Or.inr ⟨hparse, hvalid⟩
      · simp only [if_neg hvalid] at h
        exact Or.inl h

private theorem hasPrice_addToken {state : LevelMap × Int} {token : List Char} :
    (p.addToken symbol state token).1.HasPrice price ↔
      state.1.HasPrice price ∨ p.Takes symbol token price := by
  unfold addToken Takes
  cases hparse : parseFloat token with
  | none =>
      constructor
      · exact Or.inl
      · rintro (h | ⟨h, -⟩)
        · exact h
        · cases h
  | some parsed =>
      simp only
      by_cases hvalid : p.validatePrice parsed symbol = true
      · rw [if_pos hvalid]
        constructor
        · rintro ⟨found, hfound, rfl⟩
          rcases (LevelMap.mem_set_of_unused (has_unusedFrom state.1 state.2)).mp hfound with
            hold | rfl
          · exact Or.inl ⟨found, hold, rfl⟩
          · exact Or.inr ⟨rfl, hvalid⟩
        · rintro (⟨found, hfound, rfl⟩ | ⟨hparsed, -⟩)
          · exact ⟨found, (LevelMap.mem_set_of_unused (has_unusedFrom state.1 state.2)).mpr
              (Or.inl hfound), rfl⟩
          · exact ⟨_, (LevelMap.mem_set_of_unused (has_unusedFrom state.1 state.2)).mpr
              (Or.inr rfl), Option.some.inj hparsed⟩
      · rw [if_neg hvalid]
        constructor
        · exact Or.inl
        · rintro (h | ⟨hparsed, hother⟩)
          · exact h
          · rw [Option.some.inj hparsed] at hvalid
            exact absurd hother hvalid

private theorem hasPrice_addSection {levels : LevelMap} {m : Hit} :
    (p.addSection symbol levels m).HasPrice price ↔ levels.HasPrice price ∨
      ∃ token ∈ p.parseNumberList (m.submatch 3) symbol, p.Takes symbol token price := by
  have hfold : ∀ (tokens : List (List Char)) (state : LevelMap × Int),
      (tokens.foldl (p.addToken symbol) state).1.HasPrice price ↔
        state.1.HasPrice price ∨ ∃ token ∈ tokens, p.Takes symbol token price := by
    intro tokens
    induction tokens with
    | nil => simp
    | cons token rest ih =>
        intro state
        rw [List.foldl_cons, ih, hasPrice_addToken, List.exists_mem_cons_iff, or_assoc]
  exact hfold _ _

theorem hasPrice_addSections {hits : List Hit} {levels : LevelMap} :
    (hits.foldl (p.addSection symbol) levels).HasPrice price ↔ levels.HasPrice price ∨
      ∃ token ∈ hits.flatMap fun m => p.parseNumberList (m.submatch 3) symbol,
        p.Takes symbol token price := by
  induction hits generalizing levels with
  | nil => simp
  | cons m rest ih =>
      rw [List.foldl_cons, ih, hasPrice_addSection, List.flatMap_cons, or_assoc]
      simp only [List.mem_append, or_and_right, exists_or]

private theorem hasPrice_addIndexedHits {hits : List Hit} {levels : LevelMap}
    (h : (hits.foldl (p.addIndexed symbol) levels).HasPrice price) :
    levels.HasPrice price ∨
      ∃ m ∈ hits, p.Takes symbol (p.cleanNumericString (m.submatch 3) symbol) price := by
  induction hits generalizing levels with
  | nil => exact Or.inl h
  | cons m rest ih =>
      rcases ih h with hmid | ⟨later, hlater, htakes⟩
      · exact (hasPrice_addIndexed hmid).imp_right fun htakes => ⟨m, List.mem_cons_self, htakes⟩
      · exact Or.inr ⟨later, List.mem_cons_of_mem _ hlater, htakes⟩

theorem match_of_indexedLevels {cfg : PatternConfig} {text : List Char}
    (h : (p.indexedLevels cfg text symbol).HasPrice price) :
    ∃ re, cfg.withIndex = some re ∧ ∃ m ∈ re.findAll text,
      p.Takes symbol (p.cleanNumericString (m.submatch 3) symbol) price := by
  have hnil : ¬ LevelMap.HasPrice [] price := fun ⟨found, hfound, _⟩ => List.not_mem_nil hfound
  unfold indexedLevels at h
  split at h
  · exact absurd h hnil
  · next re hre =>
    split at h
    · exact ⟨re, hre, (hasPrice_addIndexedHits h).resolve_left hnil⟩
    · exact absurd h hnil

theorem hasPrice_indexedLevels {cfg : PatternConfig} {text : List Char}
    (h : (p.indexedLevels cfg text symbol).HasPrice price) :
    ∃ raw, p.Takes symbol (p.cleanNumericString raw symbol) price := by
  obtain ⟨_, -, m, -, htakes⟩ := match_of_indexedLevels h
  exact ⟨m.submatch 3, htakes⟩

theorem hasPrice_levelMap {cfg : PatternConfig} {text : List Char}
    (h : (p.levelMap cfg text symbol).HasPrice price) :
    (∃ raw, p.Takes symbol (p.cleanNumericString raw symbol) price) ∨
      ∃ token ∈ p.listTokens cfg text symbol, p.Takes symbol token price := by
  rw [levelMap_eq] at h
  unfold listTokens
  by_cases hlist : cfg.noIndexList = true
  · rw [if_pos hlist] at h ⊢
    exact (hasPrice_addSections.mp h).imp_left hasPrice_indexedLevels
  · rw [if_neg hlist] at h
    exact Or.inl (hasPrice_indexedLevels h)

theorem hasPrice_of_listTokens {cfg : PatternConfig} {text token : List Char}
    (htoken : token ∈ p.listTokens cfg text symbol) (h : p.Takes symbol token price) :
    (p.levelMap cfg text symbol).HasPrice price := by
  unfold listTokens at htoken
  rw [levelMap_eq]
  split at htoken
  · rename_i hlist
    rw [if_pos hlist]
    exact hasPrice_addSections.mpr (Or.inr ⟨token, htoken, h⟩)
  · cases htoken

/-! ### The size of the map -/

private theorem length_addToken (p : Parser) (symbol : String) (state : LevelMap × Int) (token : List Char) :
    (p.addToken symbol state token).1.length = state.1.length ∨
      (p.addToken symbol state token).1.length = state.1.length + 1 := by
  unfold addToken
  cases parseFloat token with
  | none => exact Or.inl rfl
  | some price =>
      simp only
      split
      · right
        rw [LevelMap.set_of_unused (has_unusedFrom state.1 state.2), List.length_append,
          List.length_singleton]
      · exact Or.inl rfl

private theorem length_addToken_of_takes {token : List Char} (h : p.Takes symbol token price)
    (state : LevelMap × Int) :
    (p.addToken symbol state token).1.length = state.1.length + 1 := by
  rw [addToken, h.1]
  simp only [if_pos h.2]
  rw [LevelMap.set_of_unused (has_unusedFrom state.1 state.2), List.length_append,
    List.length_singleton]

theorem addToken_of_not_takes {token : List Char} (h : ∀ price, ¬ p.Takes symbol token price)
    (state : LevelMap × Int) : p.addToken symbol state token = state := by
  unfold addToken
  cases hparse : parseFloat token with
  | none => rfl
  | some price => exact if_neg fun hvalid => h price ⟨hparse, hvalid⟩

private theorem addSection_of_not_takes {levels : LevelMap} {m : Hit}
    (h : ∀ token ∈ p.parseNumberList (m.submatch 3) symbol, ∀ price, ¬ p.Takes symbol token price) :
    p.addSection symbol levels m = levels := by
  have hfold : ∀ (tokens : List (List Char)) (state : LevelMap × Int),
      (∀ token ∈ tokens, ∀ price, ¬ p.Takes symbol token price) →
        tokens.foldl (p.addToken symbol) state = state := by
    intro tokens
    induction tokens with
    | nil => exact fun _ _ => rfl
    | cons token rest ih =>
        intro state hnone
        obtain ⟨htoken, hrest⟩ := List.forall_mem_cons.mp hnone
        rw [List.foldl_cons, addToken_of_not_takes htoken, ih state hrest]
  rw [addSection, hfold _ _ h]

theorem addSections_of_not_takes {hits : List Hit}
    (h : ∀ m ∈ hits, ∀ token ∈ p.parseNumberList (m.submatch 3) symbol, ∀ price,
      ¬ p.Takes symbol token price) (levels : LevelMap) :
    hits.foldl (p.addSection symbol) levels = levels := by
  induction hits with
  | nil => rfl
  | cons m rest ih =>
      obtain ⟨hm, hrest⟩ := List.forall_mem_cons.mp h
      rw [List.foldl_cons, addSection_of_not_takes hm, ih hrest]

/-- A price of a list section that the symbol allows gets a level of its own. -/
theorem length_lt_addSections {hits : List Hit} {m : Hit} (hm : m ∈ hits) {token : List Char}
    (htoken : token ∈ p.parseNumberList (m.submatch 3) symbol) (h : p.Takes symbol token price)
    (levels : LevelMap) : levels.length < (hits.foldl (p.addSection symbol) levels).length := by
  have hstep : ∀ (state : LevelMap × Int) token,
      state.1.length ≤ (p.addToken symbol state token).1.length := by
    intro state token
    rcases length_addToken p symbol state token with hsame | hmore
    · exact hsame.ge
    · omega
  have hraises : ∀ state : LevelMap × Int,
      state.1.length < (p.addToken symbol state token).1.length := by
    intro state
    rw [length_addToken_of_takes h state]
    exact Nat.lt_succ_self _
  apply measure_lt_foldl List.length _ _ hm
  · exact fun levels m => measure_le_foldl (fun state => state.1.length) hstep (levels, _) _
  · exact fun levels => measure_lt_foldl (fun state => state.1.length) hstep hraises htoken (levels, _)

/-! ### The result -/

section Result

variable {rangeOrder : LevelMap → LevelMap} {cfg : PatternConfig} {text : List Char}

/-- The result holds the entries of the map, in whatever order the map is ranged over. -/
theorem perm_extractTakeProfit (hrange : ∀ levels, (rangeOrder levels).Perm levels) :
    (p.extractTakeProfit rangeOrder cfg text symbol).Perm
      ((p.levelMap cfg text symbol).map Prod.snd) :=
  (List.perm_insertionSort _ _).trans ((hrange _).map Prod.snd)

theorem sorted_extractTakeProfit (rangeOrder : LevelMap → LevelMap) (cfg : PatternConfig)
    (text : List Char) (symbol : String) :
    (p.extractTakeProfit rangeOrder cfg text symbol).Pairwise fun a b => a.level ≤ b.level := by
  have : Std.Total fun a b : TakeProfitLevel => a.level ≤ b.level := ⟨fun _ _ => le_total _ _⟩
  have : IsTrans TakeProfitLevel fun a b => a.level ≤ b.level := ⟨fun _ _ _ => le_trans⟩
  exact List.pairwise_insertionSort _ _

/-- Sorted levels increase strictly exactly when no two entries of the map share one. -/
theorem increasing_extractTakeProfit_iff (hrange : ∀ levels, (rangeOrder levels).Perm levels) :
    (p.extractTakeProfit rangeOrder cfg text symbol).Pairwise (fun a b => a.level < b.level) ↔
      ((p.levelMap cfg text symbol).map fun found => found.2.level).Nodup := by
  have hperm := (@perm_extractTakeProfit p symbol _ cfg text hrange).map TakeProfitLevel.level
  rw [List.map_map] at hperm
  have hnodup : ((p.levelMap cfg text symbol).map fun found => found.2.level).Nodup ↔
      (p.extractTakeProfit rangeOrder cfg text symbol).Pairwise fun a b => a.level ≠ b.level := by
    rw [← List.pairwise_map]
    exact hperm.nodup_iff.symm
  rw [hnodup]
  constructor
  · exact fun h => h.imp ne_of_lt
  · intro h
    exact ((sorted_extractTakeProfit rangeOrder cfg text symbol).and h).imp fun h =>
      lt_of_le_of_ne h.1 h.2

theorem length_extractTakeProfit (hrange : ∀ levels, (rangeOrder levels).Perm levels) :
    (p.extractTakeProfit rangeOrder cfg text symbol).length =
      (p.levelMap cfg text symbol).length := by
  rw [(perm_extractTakeProfit hrange).length_eq, List.length_map]

theorem mem_extractTakeProfit (hrange : ∀ levels, (rangeOrder levels).Perm levels) :
    (∃ target ∈ p.extractTakeProfit rangeOrder cfg text symbol, target.price = price) ↔
      (p.levelMap cfg text symbol).HasPrice price := by
  simp only [(perm_extractTakeProfit hrange).mem_iff, LevelMap.HasPrice, List.mem_map]
  constructor
  · rintro ⟨_, ⟨found, hfound, rfl⟩, hprice⟩
    exact ⟨found, hfound, hprice⟩
  · rintro ⟨found, hfound, hprice⟩
    exact ⟨found.2, ⟨found, hfound, rfl⟩, hprice⟩

end Result

end Parser

end SphereFx.Extractor
