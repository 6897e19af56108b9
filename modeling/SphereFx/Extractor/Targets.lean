import SphereFx.Extractor.Levels
import SphereFx.Extractor.Numeral
import SphereFx.Extractor.Prices
import SphereFx.Extractor.Sections

/-!
# Indexed take-profit targets

`TP1 1.0850 TP2 1.0800` is read twice. The indexed pattern takes every target with its level. The list
pattern then takes the keyword again and reads what follows up to the first point as a list of prices:
the level and the whole part of the price. For a symbol whose prices may have no decimals the whole part
is such a price and gets a level of its own.
-/

namespace SphereFx.Extractor

open Text

attribute [local instance] decidableBAllChar

/-! ### The texts -/

/-- A plain numeral that is a price the symbol allows. -/
structure TargetPrice (symbol : String) where
  whole : List Char
  frac : Option (List Char)
  digits : ∀ c ∈ whole ++ frac.getD [], Re.isDigit c = true
  price : F64
  reads : parseFloat (numeralText whole frac) = some price
  allowed : shippedParser.validatePrice price symbol = true

structure IndexedTarget (symbol : String) where
  level : Nat
  positive : 1 ≤ level
  small : level ≤ 2147483647
  price : TargetPrice symbol

namespace TargetPrice

variable {symbol : String} (price : TargetPrice symbol)

def text : List Char := numeralText price.whole price.frac

theorem mem_text : ∀ c ∈ price.text, c ∈ ".0123456789".toList := mem_numeralText price.digits

theorem digits_ne_nil : price.whole ++ price.frac.getD [] ≠ [] := by
  intro h
  obtain ⟨hwhole, hfrac⟩ := List.append_eq_nil_iff.mp h
  have hreads := price.reads
  rw [hwhole, numeralText] at hreads
  cases hpoint : price.frac with
  | none =>
      rw [hpoint] at hreads
      cases hreads
  | some digits =>
      rw [hpoint, Option.getD_some] at hfrac
      rw [hpoint, hfrac] at hreads
      have hpointOnly : parseFloat ['.'] = none := by decide
      exact absurd (hpointOnly.symm.trans hreads) (by simp)

theorem text_ne_nil : price.text ≠ [] := by
  intro h
  obtain ⟨hwhole, hrest⟩ := List.append_eq_nil_iff.mp h
  cases hpoint : price.frac with
  | none =>
      apply price.digits_ne_nil
      rw [hwhole, hpoint]
      rfl
  | some digits =>
      rw [hpoint] at hrest
      cases hrest

end TargetPrice

namespace IndexedTarget

variable {symbol : String} (target : IndexedTarget symbol)

def levelText : List Char := (toString target.level).toList

/-- `TPl p`. -/
def text : List Char := "TP".toList ++ (target.levelText ++ ' ' :: target.price.text)

def entry : TakeProfitLevel := ⟨target.level, target.price.price⟩

theorem levelText_ne_nil : target.levelText ≠ [] := by
  have hdigits : target.levelText = Nat.toDigits 10 target.level := Nat.toList_repr
  rw [hdigits]
  exact Nat.toDigits_ne_nil

theorem mem_levelText : ∀ c ∈ target.levelText, c ∈ "0123456789".toList :=
  fun _ hc => toString_digits hc

end IndexedTarget

/-- `s TPl1 p1 ... TPln pn`. -/
def targetsText (symbol : String) (targets : List (IndexedTarget symbol)) : List Char :=
  symbol.toList ++ targets.flatMap fun target => ' ' :: target.text

/-- Exactly the targets of the text, in increasing order of their levels. -/
structure ReadsTargets (rangeOrder : Parser.LevelMap → Parser.LevelMap) (symbol : String)
    (targets : List (IndexedTarget symbol)) : Prop where
  exact : (shippedParser.extractTakeProfit rangeOrder takeProfitConfig (targetsText symbol targets)
    symbol).Perm (targets.map IndexedTarget.entry)
  increasing : (shippedParser.extractTakeProfit rangeOrder takeProfitConfig
    (targetsText symbol targets) symbol).Pairwise fun a b => a.level < b.level

/-! ### The rules of the symbols -/

theorem rule_of_lookup {symbol : String} {rule : SymbolRule}
    (h : shippedRules.lookup symbol = some rule) : shippedParser.rule? symbol = some rule := by
  have hne : symbol ≠ "" := fun hempty =>
    (wordOver_symbol _ (mem_of_lookup h)).1 (congrArg String.toList hempty)
  rw [Parser.rule?, if_neg hne]
  exact h

theorem decimalSeparator_of_lookup {symbol : String} {rule : SymbolRule}
    (h : shippedRules.lookup symbol = some rule) : shippedParser.decimalSeparator symbol = "." := by
  have hall : ∀ entry ∈ shippedRules, entry.2.decimalSeparator = "." := by decide
  rw [Parser.decimalSeparator, rule_of_lookup h]
  exact hall _ (mem_of_lookup h)

/-! ### A scan over the targets -/

section Scan

variable {symbol : String} {r : Re} {leftover : IndexedTarget symbol → List Char}
  {Spec : IndexedTarget symbol → Hit → Prop}

/-- No match starts in the gap or in the space after it. -/
def SkipsGap (r : Re) (before : Option Char) (gap : List Char) : Prop :=
  ∀ a b, gap ++ [' '] = a ++ b → b ≠ [] → ∀ back, r.run (Re.lastOr before a) (b ++ back) = []

theorem SkipsGap.search {before : Option Char} {gap back : List Char} {h : Hit}
    (hskips : SkipsGap r before gap) (hrun : (r.run (some ' ') back).head? = some h) :
    r.search before (gap ++ ' ' :: back) = some (gap ++ [' '], h) := by
  have hlast : Re.lastOr before (gap ++ [' ']) = some ' ' := by
    rw [Re.lastOr, List.getLast?_concat, Option.some_or]
  rw [List.append_cons]
  exact Re.search_skip (fun a b hsplit hne => hskips a b hsplit hne back) (by rwa [hlast])

private theorem skipsGap_of_run {before : Option Char} {gap : List Char}
    (h : ∀ c ∈ gap ++ [' '], ∀ before rest, r.run before (c :: rest) = []) :
    SkipsGap r before gap := by
  intro a b hsplit hne back
  obtain ⟨c, rest, rfl⟩ := List.exists_cons_of_ne_nil hne
  exact h c (hsplit ▸ List.mem_append_right a List.mem_cons_self) _ _

theorem search_gap_eq_none {before : Option Char} {gap : List Char}
    (h : ∀ c ∈ gap, ∀ before rest, r.run before (c :: rest) = [])
    (hend : ∀ before, r.run before [] = []) : r.search before gap = none := by
  apply Re.search_eq_none
  intro a b hsplit
  cases b with
  | nil => exact hend _
  | cons c rest => exact h c (hsplit ▸ List.mem_append_right a List.mem_cons_self) _ _

/-- The targets a scan still has to read are separated from the last match by a gap only. -/
private theorem scans_targets {targets : List (IndexedTarget symbol)} {before : Option Char}
    {gap : List Char}
    (hhit : ∀ target ∈ targets, ∀ back : List Char, (∀ c ∈ back.head?, c = ' ') →
      ∃ h, (r.run (some ' ') (target.text ++ back)).head? = some h ∧ h.taken ≠ [] ∧
        h.rest = leftover target ++ back ∧ Spec target h)
    (hgap : ∀ target ∈ targets, ∀ before, SkipsGap r before (leftover target))
    (hend : ∀ target ∈ targets, ∀ before, r.search before (leftover target) = none)
    (hskips : SkipsGap r before gap) (hlast : targets = [] → r.search before gap = none) :
    ∃ pieces, r.Scans before (gap ++ targets.flatMap fun target => ' ' :: target.text) pieces ∧
      List.Forall₂ Spec targets (pieces.1.map Prod.snd) := by
  induction targets generalizing before gap with
  | nil =>
      rw [List.flatMap_nil, List.append_nil]
      exact ⟨_, .done (hlast rfl), .nil⟩
  | cons target rest ih =>
      have hback : ∀ c ∈ (rest.flatMap fun target => ' ' :: target.text).head?, c = ' ' := by
        intro c hc
        cases rest with
        | nil => cases hc
        | cons next others => exact (Option.some.inj hc).symm
      obtain ⟨h, hrun, hne, hrest, hspec⟩ := hhit target List.mem_cons_self _ hback
      obtain ⟨pieces, hscans, hall⟩ := @ih h.taken.getLast? (leftover target)
        (fun t ht => hhit t (List.mem_cons_of_mem _ ht))
        (fun t ht => hgap t (List.mem_cons_of_mem _ ht))
        (fun t ht => hend t (List.mem_cons_of_mem _ ht))
        (hgap target List.mem_cons_self _) (fun _ => hend target List.mem_cons_self _)
      rw [← hrest] at hscans
      rw [List.flatMap_cons, List.cons_append]
      exact ⟨_, .next (hskips.search hrun) hne hscans, .cons hspec hall⟩

theorem exists_target {targets : List (IndexedTarget symbol)} {hits : List Hit}
    (h : List.Forall₂ Spec targets hits) {m : Hit} (hm : m ∈ hits) : ∃ target, Spec target m := by
  induction h with
  | nil => cases hm
  | cons hspec _ ih =>
      rcases List.mem_cons.mp hm with rfl | hm
      · exact ⟨_, hspec⟩
      · exact ih hm

variable (leftover) in
/-- The matches of the pattern are those on the targets. -/
theorem findAll_targets {targets : List (IndexedTarget symbol)} (hne : targets ≠ [])
    (hhit : ∀ target ∈ targets, ∀ back : List Char, (∀ c ∈ back.head?, c = ' ') →
      ∃ h, (r.run (some ' ') (target.text ++ back)).head? = some h ∧ h.taken ≠ [] ∧
        h.rest = leftover target ++ back ∧ Spec target h)
    (hrun : ∀ target ∈ targets, ∀ c ∈ leftover target ++ [' '], ∀ before rest,
      r.run before (c :: rest) = [])
    (hend : ∀ before, r.run before [] = []) (hsymbol : SkipsGap r none symbol.toList) :
    List.Forall₂ Spec targets (r.findAll (targetsText symbol targets)) := by
  obtain ⟨pieces, hscans, hall⟩ := scans_targets hhit
    (fun target ht _ => skipsGap_of_run (hrun target ht))
    (fun target ht _ => search_gap_eq_none
      (fun c hc => hrun target ht c (List.mem_append_left _ hc)) hend)
    hsymbol (fun h => absurd h hne)
  rw [Re.findAll, targetsText, hscans.scan_eq]
  exact hall

end Scan

/-! ### The first pass -/

/-- No indexed target starts with this text, whatever follows it. -/
def noTargetStart (text : List Char) : Bool :=
  Re.clash sameFold "tp".toList text && Re.clash sameFold "take".toList text &&
    match text with
    | c :: d :: _ => !sameFold 't' c || (!Re.isSpace d && !sameFold 'p' d)
    | [c] => !sameFold 't' c
    | [] => false

/-- `t\s*p` needs its second letter or a space after the first. -/
private theorem run_spacedTp_eq_nil {c d : Char} {rest : List Char} (before : Option Char)
    (hspace : Re.isSpace d = false) (hletter : sameFold 'p' d = false) :
    (Re.seqs [word "t", .many Re.isSpace true, word "p"]).run before (c :: d :: rest) = [] := by
  cases hc : sameFold 't' c with
  | false =>
      apply Re.run_seq_eq_nil
      apply Re.run_literal_eq_nil
      show (sameFold 't' c && Re.startsWith sameFold [] (d :: rest)) = false
      rw [hc, Bool.false_and]
  | true =>
      have hfirst : (word "t").run before (c :: d :: rest) = [⟨[c], d :: rest, []⟩] :=
        Re.run_literal (List.Forall₂.cons hc .nil) before (d :: rest)
      have hspaces : Re.runMany Re.isSpace true (d :: rest) = [⟨[], d :: rest, []⟩] := by
        rw [Re.runMany, hspace]
        rfl
      have hsecond : ∀ before, (word "p").run before (d :: rest) = [] := by
        intro before
        apply Re.run_literal_eq_nil
        show (sameFold 'p' d && Re.startsWith sameFold [] rest) = false
        rw [hletter, Bool.false_and]
      show (Re.seq (word "t") (Re.seq (.many Re.isSpace true) (word "p"))).run _ _ = []
      rw [Re.run, hfirst, List.flatMap_singleton, Re.run, Re.run, hspaces, List.flatMap_singleton,
        hsecond]
      rfl

theorem run_indexedTarget_eq_nil {text : List Char} (h : noTargetStart text = true)
    (before : Option Char) (back : List Char) : indexedTarget.run before (text ++ back) = [] := by
  unfold noTargetStart at h
  rw [Bool.and_eq_true, Bool.and_eq_true] at h
  obtain ⟨⟨htp, htake⟩, hletters⟩ := h
  have hfirst : ∀ {c : Char} {rest : List Char}, sameFold 't' c = false →
      (Re.seqs [word "t", .many Re.isSpace true, word "p"]).run before (c :: rest) = [] := by
    intro c rest hc
    apply Re.run_seq_eq_nil
    apply Re.run_literal_eq_nil
    show (sameFold 't' c && Re.startsWith sameFold [] rest) = false
    rw [hc, Bool.false_and]
  apply Re.run_seq_eq_nil
  apply Re.run_group_eq_nil
  apply Re.run_alts_eq_nil (List.cons_ne_nil _ _)
  refine List.forall_mem_cons.mpr ⟨?_, List.forall_mem_cons.mpr ⟨?_, List.forall_mem_singleton.mpr ?_⟩⟩
  · exact Re.run_literal_eq_nil (Re.startsWith_of_clash htp back)
  · exact Re.run_seq_eq_nil (Re.run_literal_eq_nil (Re.startsWith_of_clash htake back))
  · split at hletters
    · rw [Bool.or_eq_true, Bool.and_eq_true, Bool.not_eq_true', Bool.not_eq_true',
        Bool.not_eq_true'] at hletters
      rcases hletters with hc | ⟨hspace, hletter⟩
      · exact hfirst hc
      · exact run_spacedTp_eq_nil before hspace hletter
    · exact hfirst (Bool.not_eq_true' _ ▸ hletters)
    · cases hletters

theorem noTargetStart_in_symbol : ∀ entry ∈ shippedRules,
    ∀ i ∈ List.range (entry.1.toList.length + 1),
      noTargetStart ((entry.1.toList ++ [' ']).drop i) = true := by
  decide +kernel

/-- The hit on `TPl p`, of which the second and third group are `l` and `p`. -/
private theorem head_run_indexedTarget {level price back : List Char} (hlevel : level ≠ [])
    (hdigits : ∀ c ∈ level, c ∈ "0123456789".toList) (hprice : price ≠ [])
    (hchars : ∀ c ∈ price, c ∈ ".0123456789".toList) (hback : ∀ c ∈ back.head?, c = ' ')
    (before : Option Char) :
    ∃ h, (indexedTarget.run before ("TP".toList ++ (level ++ ' ' :: price) ++ back)).head? = some h ∧
      h.taken ≠ [] ∧ h.rest = back ∧ h.submatch 2 = level ∧ h.submatch 3 = price := by
  have hkeyword : ∀ before text, ((Re.group 1 (Re.alts [word "tp", Re.seqs [word "take",
      .many Re.isSpace true, word "profit"], Re.seqs [word "t", .many Re.isSpace true,
        word "p"]])).run before ("TP".toList ++ text)).head? =
          some ⟨"TP".toList, text, [(1, "TP".toList)]⟩ := by
    intro before text
    have hletters : List.Forall₂ (fun c d => sameFold c d = true) "tp".toList "TP".toList := by
      decide
    apply Re.head_run_group
    apply Re.head_run_alts
    rw [show word "tp" = Re.literal sameFold "tp".toList from rfl, Re.run_literal hletters,
      List.head?_cons]
  have hnoSpace : ∀ before, ((Re.many Re.isSpace true).run before
      (level ++ (' ' :: price ++ back))).head? = some ⟨[], level ++ (' ' :: price ++ back), []⟩ := by
    intro before
    apply Re.head_runMany (List.forall_mem_nil _)
    intro c (hc : c ∈ (level ++ (' ' :: price ++ back)).head?)
    rw [List.head?_append_of_ne_nil _ hlevel] at hc
    exact (show ∀ c ∈ "0123456789".toList, Re.isSpace c = false by decide) c
      (hdigits c (List.mem_of_mem_head? hc))
  have hindex : ∀ before, ((Re.group 2 (Re.many1 Re.isDigit)).run before
      (level ++ (' ' :: price ++ back))).head? =
        some ⟨level, ' ' :: price ++ back, [(2, level)]⟩ := by
    intro before
    apply Re.head_run_group
    apply Re.head_run_many1 hlevel
    · exact fun c hc => (show ∀ c ∈ "0123456789".toList, Re.isDigit c = true by decide) c (hdigits c hc)
    · intro c hc
      rw [← Option.some.inj hc]
      rfl
  have hgap : ∀ before, ((Re.many (fun c => Re.isSpace c || c == ':' || c == '=' || c == '-')
      true).run before ([' '] ++ (price ++ back))).head? = some ⟨[' '], price ++ back, []⟩ := by
    intro before
    apply Re.head_runMany (List.forall_mem_singleton.mpr rfl)
    intro c hc
    rw [List.head?_append_of_ne_nil _ hprice] at hc
    exact (show ∀ c ∈ ".0123456789".toList,
      (Re.isSpace c || c == ':' || c == '=' || c == '-') = false by decide) c
        (hchars c (List.mem_of_mem_head? hc))
  have hvalue : ∀ before, ((Re.group 3 (Re.many1 fun c => Re.isDigit c || c == '.' ||
      c == ',')).run before (price ++ back)).head? = some ⟨price, back, [(3, price)]⟩ := by
    intro before
    apply Re.head_run_group
    apply Re.head_run_many1 hprice
    · exact fun c hc => (show ∀ c ∈ ".0123456789".toList,
        (Re.isDigit c || c == '.' || c == ',') = true by decide) c (hchars c hc)
    · intro c hc
      rw [hback c hc]
      rfl
  have hrun := Re.head_run_seq (hkeyword before (level ++ (' ' :: price ++ back)))
    (Re.head_run_seq (hnoSpace _) (Re.head_run_seq (hindex _) (Re.head_run_seq (hgap _) (hvalue _))))
  have htext : "TP".toList ++ (level ++ ' ' :: price) ++ back =
      "TP".toList ++ (level ++ (' ' :: price ++ back)) := by
    rw [List.append_assoc, List.append_assoc]
  rw [htext]
  exact ⟨_, hrun, List.cons_ne_nil _ _, rfl, rfl, rfl⟩

section FirstPass

variable {symbol : String} {rule : SymbolRule} {targets : List (IndexedTarget symbol)}

private theorem findAll_indexedTarget (hrule : shippedRules.lookup symbol = some rule) (hne : targets ≠ []) :
    List.Forall₂ (fun target h => h.submatch 2 = target.levelText ∧ h.submatch 3 = target.price.text)
      targets (indexedTarget.findAll (targetsText symbol targets)) := by
  apply findAll_targets (fun _ => []) hne
  · intro target _ back hback
    obtain ⟨h, hrun, htaken, hrest, hspec⟩ := head_run_indexedTarget target.levelText_ne_nil
      target.mem_levelText target.price.text_ne_nil target.price.mem_text hback (some ' ')
    exact ⟨h, hrun, htaken, hrest, hspec⟩
  · intro target _ c hc before rest
    have hspace : noTargetStart [' '] = true := by decide
    rw [List.mem_singleton.mp hc]
    exact run_indexedTarget_eq_nil hspace before rest
  · intro before
    rfl
  · apply forall_splits (P := fun a b =>
      ∀ back, indexedTarget.run (Re.lastOr none a) (b ++ back) = [])
    intro i hi _ back
    exact run_indexedTarget_eq_nil (noTargetStart_in_symbol _ (mem_of_lookup hrule) i hi) _ back

private theorem cleanNumericString_eq {text : List Char} (hpoint : shippedParser.decimalSeparator symbol = ".")
    (h : ∀ c ∈ text, c ∈ ".0123456789".toList) : shippedParser.cleanNumericString text symbol = text := by
  have hspace : ' ' ∉ text := fun hc => absurd (h _ hc) (by decide)
  have hcomma : ',' ∉ text := fun hc => absurd (h _ hc) (by decide)
  have hseparator : ¬ shippedParser.decimalSeparator symbol = "," := by
    rw [hpoint]
    decide
  have hkept : ∀ c ∈ ".0123456789".toList, (Re.isDigit c || c == '.' || c == '-') = true := by decide
  rw [Parser.cleanNumericString]
  simp only [if_neg hseparator, replace_eq_self hspace, replace_eq_self hcomma]
  exact List.filter_eq_self.mpr fun c hc => hkept c (h c hc)

private theorem addIndexed_of_hit (hpoint : shippedParser.decimalSeparator symbol = ".")
    {target : IndexedTarget symbol} {h : Hit} (hlevel : h.submatch 2 = target.levelText)
    (hprice : h.submatch 3 = target.price.text) (levels : Parser.LevelMap) :
    shippedParser.addIndexed symbol levels h = levels.set target.level target.entry := by
  have hparse : parseFloat (shippedParser.cleanNumericString (h.submatch 3) symbol) =
      some target.price.price := by
    rw [hprice, cleanNumericString_eq hpoint target.price.mem_text]
    exact target.price.reads
  have hsmall := target.small
  have hatoi : atoi (h.submatch 2) = target.level := by
    have hdigit : ∀ c ∈ "0123456789".toList, Re.isDigit c = true := by decide
    rw [hlevel, atoi_digits target.levelText_ne_nil fun c hc => hdigit c (target.mem_levelText c hc),
      IndexedTarget.levelText, digitsValue_toString]
    omega
  have hint32 : toInt32 target.level = target.level := by
    rw [toInt32]
    omega
  rw [Parser.addIndexed, hparse]
  simp only [target.price.allowed, if_true, hatoi, hint32]
  rfl

private theorem foldl_addIndexed (hpoint : shippedParser.decimalSeparator symbol = ".") {hits : List Hit}
    (hhits : List.Forall₂ (fun target h => h.submatch 2 = target.levelText ∧
      h.submatch 3 = target.price.text) targets hits)
    (hnodup : (targets.map IndexedTarget.level).Nodup) (levels : Parser.LevelMap)
    (hnew : ∀ target ∈ targets, levels.has target.level = false) :
    hits.foldl (shippedParser.addIndexed symbol) levels =
      levels ++ targets.map fun target => ((target.level : Int), target.entry) := by
  induction hhits generalizing levels with
  | nil => exact (List.append_nil levels).symm
  | @cons target h rest hits hspec hhits ih =>
      obtain ⟨hfirst, hrest⟩ := List.forall_mem_cons.mp hnew
      obtain ⟨hother, hnodup⟩ := List.nodup_cons.mp hnodup
      rw [List.foldl_cons, addIndexed_of_hit hpoint hspec.1 hspec.2,
        Parser.LevelMap.set_of_unused hfirst, ih hnodup _, List.append_assoc]
      · rfl
      intro next hnext
      apply Parser.LevelMap.has_eq_false.mpr
      intro found hfound
      rcases List.mem_append.mp hfound with hold | hadded
      · exact Parser.LevelMap.has_eq_false.mp (hrest next hnext) found hold
      · rw [List.mem_singleton.mp hadded]
        intro hsame
        exact hother (List.mem_map.mpr ⟨next, hnext, (Int.ofNat_inj.mp hsame).symm⟩)

theorem indexedLevels_targets (hrule : shippedRules.lookup symbol = some rule) (hne : targets ≠ [])
    (hnodup : (targets.map IndexedTarget.level).Nodup) :
    shippedParser.indexedLevels takeProfitConfig (targetsText symbol targets) symbol =
      targets.map fun target => ((target.level : Int), target.entry) := by
  have hfold := foldl_addIndexed (decimalSeparator_of_lookup hrule) (findAll_indexedTarget hrule hne)
    hnodup [] fun _ _ => rfl
  rw [List.nil_append] at hfold
  exact hfold

end FirstPass

/-! ### The second pass -/

section SecondPass

variable {symbol : String} {rule : SymbolRule} {targets : List (IndexedTarget symbol)}

theorem not_takes_digits (hrule : shippedRules.lookup symbol = some rule)
    (hdecimals : 0 ∉ rule.decimalPlaces) {token : List Char} (hne : token ≠ [])
    (hdigits : ∀ c ∈ token, Re.isDigit c = true) (price : F64) :
    ¬ shippedParser.Takes symbol token price := by
  intro ⟨hparse, hvalid⟩
  have hallows := (Parser.validatePrice_iff.mp hvalid) rule (rule_of_lookup hrule)
  have hplaces := hallows.2.2.resolve_right (shippedRules_places hrule)
  rw [countDecimalPlaces_of_digits hdigits hne hparse] at hplaces
  exact hdecimals hplaces

private theorem frac_of_price (hrule : shippedRules.lookup symbol = some rule)
    (hdecimals : 0 ∉ rule.decimalPlaces) (price : TargetPrice symbol) :
    ∃ digits, price.frac = some digits := by
  cases hfrac : price.frac with
  | some digits => exact ⟨digits, rfl⟩
  | none =>
      have hdigits := price.digits
      have hne := price.digits_ne_nil
      have hreads := price.reads
      rw [hfrac, Option.getD_none, List.append_nil] at hdigits hne
      rw [hfrac, show numeralText price.whole none = price.whole from List.append_nil _] at hreads
      exact absurd ⟨hreads, price.allowed⟩ (not_takes_digits hrule hdecimals hne hdigits price.price)

theorem skipsGap_targetList (hrule : shippedRules.lookup symbol = some rule) :
    SkipsGap targetList none symbol.toList := fun a b hsplit hne back =>
  run_targetList_in_symbol (mem_of_lookup hrule) back a b hsplit hne

theorem mem_targetSection (target : IndexedTarget symbol) :
    ∀ c ∈ target.levelText ++ ' ' :: target.price.whole, c ∈ " 0123456789".toList := by
  have hsub : ∀ c ∈ "0123456789".toList, c ∈ " 0123456789".toList := by decide
  intro c hc
  rcases List.mem_append.mp hc with hc | hc
  · exact hsub c (target.mem_levelText c hc)
  rcases List.mem_cons.mp hc with rfl | hc
  · decide
  · exact hsub c (isDigit_mem (target.price.digits c (List.mem_append_left _ hc)))

/-- A match of the list pattern takes the level and the whole part of a price. -/
private theorem findAll_targetList (hrule : shippedRules.lookup symbol = some rule)
    (hdecimals : 0 ∉ rule.decimalPlaces) (hne : targets ≠ []) :
    List.Forall₂ (fun target h => h.submatch 3 = target.levelText ++ ' ' :: target.price.whole)
      targets (targetList.findAll (targetsText symbol targets)) := by
  apply findAll_targets (fun target => '.' :: target.price.frac.getD []) hne
  · intro target _ back _
    obtain ⟨digits, hfrac⟩ := frac_of_price hrule hdecimals target.price
    obtain ⟨first, more, hlevel⟩ := List.exists_cons_of_ne_nil target.levelText_ne_nil
    have hplain : ∀ c ∈ " 0123456789".toList, inSection c = true := by decide
    have hsection := mem_targetSection target
    have hlevelChars := target.mem_levelText
    rw [hlevel] at hsection hlevelChars
    have hmore : ∀ c ∈ more ++ ' ' :: target.price.whole, inSection c = true := fun c hc =>
      hplain c (hsection c (List.mem_cons_of_mem first hc))
    have hafter : ∀ c ∈ ('.' :: digits ++ back).head?, inSection c = false := by
      intro c hc
      rw [← Option.some.inj hc]
      rfl
    obtain ⟨h, hrun, htaken, hrest, hspec⟩ :=
      head_run_targetList (hlevelChars first List.mem_cons_self) hmore hafter
    have htext : target.text ++ back =
        "TP".toList ++ (first :: (more ++ ' ' :: target.price.whole) ++ ('.' :: digits ++ back)) := by
      rw [IndexedTarget.text, hlevel, TargetPrice.text, hfrac, numeralText]
      simp only [Option.map_some, Option.getD_some, List.cons_append, List.append_assoc]
    rw [htext, hfrac, hlevel]
    exact ⟨h, hrun, htaken, hrest, hspec⟩
  · intro target _ c hc before rest
    apply run_targetList_eq_nil
    have hsub : ∀ c ∈ "0123456789".toList, c ∈ listChars := by decide
    rcases List.mem_append.mp hc with hc | hc
    · rcases List.mem_cons.mp hc with rfl | hc
      · decide
      · exact hsub c (isDigit_mem (target.price.digits c (List.mem_append_right _ hc)))
    · rw [List.mem_singleton.mp hc]
      decide
  · intro before
    have hempty : ∀ term ∈ takeProfitConfig.terms, Re.startsWith sameFold term.toList [] = false := by
      decide
    exact run_keywordPattern_eq_nil fun _ => hempty
  · exact skipsGap_targetList hrule

private theorem digits_of_token (hpoint : shippedParser.decimalSeparator symbol = ".") {text token : List Char}
    (hchars : ∀ c ∈ text, c ∈ " 0123456789".toList)
    (htoken : token ∈ shippedParser.parseNumberList text symbol) :
    token ≠ [] ∧ ∀ c ∈ token, Re.isDigit c = true := by
  have hplain : ∀ c ∈ " 0123456789".toList, c ≠ ',' ∧ (isWhite c = true → isDelimiter c = true) ∧
      (isDelimiter c = false → Re.isDigit c = true) := by decide
  rw [parseNumberList_eq hpoint (fun hc => (hplain _ (hchars _ hc)).1 rfl)
    fun c hc => (hplain c (hchars c hc)).2.1] at htoken
  obtain ⟨hne, hall⟩ := Re.mem_parts htoken
  exact ⟨hne, fun c hc => (hplain c (hchars c (hall c hc).1)).2.2 (hall c hc).2⟩

private theorem levelMap_targets (hrule : shippedRules.lookup symbol = some rule)
    (hdecimals : 0 ∉ rule.decimalPlaces) (hne : targets ≠ [])
    (hnodup : (targets.map IndexedTarget.level).Nodup) :
    shippedParser.levelMap takeProfitConfig (targetsText symbol targets) symbol =
      targets.map fun target => ((target.level : Int), target.entry) := by
  have hnone : ∀ m ∈ targetList.findAll (targetsText symbol targets),
      ∀ token ∈ shippedParser.parseNumberList (m.submatch 3) symbol, ∀ price,
        ¬ shippedParser.Takes symbol token price := by
    intro m hm token htoken
    obtain ⟨target, hspec⟩ := exists_target (findAll_targetList hrule hdecimals hne) hm
    rw [hspec] at htoken
    obtain ⟨htokenNe, hdigits⟩ :=
      digits_of_token (decimalSeparator_of_lookup hrule) (mem_targetSection target) htoken
    exact not_takes_digits hrule hdecimals htokenNe hdigits
  rw [Parser.levelMap_eq, if_pos (show takeProfitConfig.noIndexList = true from rfl),
    Parser.addSections_of_not_takes hnone, indexedLevels_targets hrule hne hnodup]

end SecondPass

/-! ### A price without decimals -/

section WholePart

variable {symbol : String} {rule : SymbolRule}

private theorem wholeRange : ∀ entry ∈ shippedRules, 0 ∈ entry.2.decimalPlaces →
    1 ≤ entry.2.minValue.num.toNat ∧ entry.2.minValue = (entry.2.minValue.num.toNat : ℚ) := by
  decide

theorem TargetPrice.price_eq (hrule : shippedRules.lookup symbol = some rule)
    (price : TargetPrice symbol) : price.price = .fin (literalValue price.whole (price.frac.getD [])) ∧
      0 < literalValue price.whole (price.frac.getD []) := by
  have hpositive : ∀ entry ∈ shippedRules, 0 < entry.2.minValue := by decide +kernel
  have hmin : 0 < rule.minValue := hpositive _ (mem_of_lookup hrule)
  have hreads := price.reads
  rw [parseFloat_numeral price.digits price.digits_ne_nil] at hreads
  obtain ⟨hlow, -⟩ := (Parser.validatePrice_iff.mp price.allowed) rule (rule_of_lookup hrule)
  rcases (toFloat_eq_some hreads).2 with hzero | hvalue
  · rw [hzero, F64.fin_lt_fin] at hlow
    exact absurd hmin hlow
  · rw [hvalue, F64.fin_lt_fin, not_lt] at hlow
    exact ⟨hvalue, hmin.trans_le hlow⟩

/-- The whole part of a price is then a price too. -/
theorem takes_whole (hrule : shippedRules.lookup symbol = some rule)
    (hdecimals : 0 ∈ rule.decimalPlaces) (price : TargetPrice symbol) :
    price.whole ≠ [] ∧ ∃ x, shippedParser.Takes symbol price.whole x := by
  obtain ⟨hone, hmin⟩ := wholeRange _ (mem_of_lookup hrule) hdecimals
  have hmin : rule.minValue = (rule.minValue.num.toNat : ℚ) := hmin
  generalize rule.minValue.num.toNat = m at hone hmin
  obtain ⟨hvalue, -⟩ := price.price_eq hrule
  have hreads := price.reads
  rw [parseFloat_numeral price.digits price.digits_ne_nil] at hreads
  have hrange := (toFloat_eq_some hreads).1
  obtain ⟨hlow, hhigh, -⟩ := (Parser.validatePrice_iff.mp price.allowed) rule (rule_of_lookup hrule)
  obtain ⟨hwhole, hless⟩ := whole_le_literalValue price.whole (price.frac.getD []) fun c hc =>
    price.digits c (List.mem_append_right _ hc)
  generalize literalValue price.whole (price.frac.getD []) = q at hrange hvalue hwhole hless
  rw [hvalue, F64.fin_lt_fin, not_lt] at hlow hhigh
  have hm : m ≤ digitsValue 10 price.whole := by
    have hm : (m : ℚ) < (digitsValue 10 price.whole + 1 : Nat) := by
      push_cast
      linarith
    exact Nat.lt_succ_iff.mp (by exact_mod_cast hm)
  have hne : price.whole ≠ [] := by
    intro hempty
    rw [hempty, digitsValue, List.foldl_nil] at hm
    omega
  have hdigits : ∀ c ∈ price.whole, Re.isDigit c = true := fun c hc =>
    price.digits c (List.mem_append_left _ hc)
  have hlarge : underflow < (digitsValue 10 price.whole : ℚ) := by
    have hsmall : underflow < (1 : ℚ) := by
      rw [underflow, one_div]
      exact inv_lt_one_of_one_lt₀ (one_lt_pow₀ one_lt_two (by decide))
    have hpositive : (1 : ℚ) ≤ (digitsValue 10 price.whole : ℚ) := by exact_mod_cast hone.trans hm
    exact hsmall.trans_le hpositive
  have hparse : parseFloat price.whole = some (.fin (digitsValue 10 price.whole : ℚ)) := by
    rw [parseFloat_digits hdigits hne, toFloat_of_mem hlarge (hwhole.trans_lt hrange)]
  refine ⟨hne, _, hparse, Parser.validatePrice_iff.mpr fun other hother => ?_⟩
  obtain rfl := Option.some.inj ((rule_of_lookup hrule).symm.trans hother)
  refine ⟨?_, ?_, Or.inl ?_⟩
  · rw [hmin, F64.fin_lt_fin, not_lt]
    exact_mod_cast hm
  · rw [F64.fin_lt_fin, not_lt]
    exact hwhole.trans hhigh
  · rw [countDecimalPlaces_of_digits hdigits hne hparse]
    exact hdecimals

/-- The characters of the targets. -/
def targetChars : List Char := " .0123456789PT".toList

private theorem digits_targetChars : ∀ c ∈ "0123456789".toList, c ∈ targetChars := by decide

theorem mem_target_text (target : IndexedTarget symbol) : ∀ c ∈ target.text, c ∈ targetChars := by
  intro c hc
  rcases List.mem_append.mp hc with hc | hc
  · exact (show ∀ c ∈ "TP".toList, c ∈ targetChars by decide) c hc
  rcases List.mem_append.mp hc with hc | hc
  · exact digits_targetChars c (target.mem_levelText c hc)
  rcases List.mem_cons.mp hc with rfl | hc
  · decide
  · exact (show ∀ c ∈ ".0123456789".toList, c ∈ targetChars by decide) c (target.price.mem_text c hc)

private theorem mem_parseNumberList (hpoint : shippedParser.decimalSeparator symbol = ".")
    {front w back : List Char} (hchars : ∀ c ∈ front ++ ' ' :: (w ++ back), c ∈ targetChars)
    (hne : w ≠ []) (hw : ∀ c ∈ w, Re.isDigit c = true) (hback : ∀ c ∈ back.head?, c = ' ') :
    w ∈ shippedParser.parseNumberList (front ++ ' ' :: (w ++ back)) symbol := by
  have hplain : ∀ c ∈ targetChars, c ≠ ',' ∧ (isWhite c = true → isDelimiter c = true) := by decide
  have hword : ∀ c ∈ w, isDelimiter c = false := fun c hc =>
    (show ∀ c ∈ "0123456789".toList, isDelimiter c = false by decide) c (isDigit_mem (hw c hc))
  have hspace : isDelimiter ' ' = true := rfl
  rw [parseNumberList_eq hpoint (fun hc => (hplain _ (hchars _ hc)).1 rfl)
    fun c hc => (hplain c (hchars c hc)).2, Re.parts_append_cons hspace]
  apply List.mem_append_right
  cases back with
  | nil =>
      rw [List.append_nil, Re.parts_word hne hword]
      exact List.mem_singleton_self w
  | cons c rest =>
      rw [hback c rfl, Re.parts_append_cons hspace, Re.parts_word hne hword]
      exact List.mem_append_left _ (List.mem_singleton_self w)

/-- What a section takes after the whole part of a price. -/
private theorem exists_sectionEnd (target : IndexedTarget symbol) (others : List (IndexedTarget symbol)) :
    ∃ w after, (target.price.frac.map fun digits => '.' :: digits).getD [] ++
        (others.flatMap fun target => ' ' :: target.text) = w ++ after ∧
      (∀ c ∈ w, c ∈ targetChars ∧ inSection c = true) ∧ (∀ c ∈ w.head?, c = ' ') ∧
        ∀ c ∈ after.head?, inSection c = false := by
  obtain ⟨w, after, htail, hw, hafter⟩ := exists_stretch inSection true
    ((target.price.frac.map fun digits => '.' :: digits).getD [] ++
      (others.flatMap fun target => ' ' :: target.text))
  refine ⟨w, after, htail, fun c hc => ⟨?_, hw c hc⟩, fun c hc => ?_, hafter⟩
  · have hin : c ∈ w ++ after := List.mem_append_left _ hc
    rw [← htail] at hin
    rcases List.mem_append.mp hin with hfrac | hothers
    · apply mem_target_text target
      refine List.mem_append_right _ (List.mem_append_right _ (List.mem_cons_of_mem _ ?_))
      exact List.mem_append_right _ hfrac
    · obtain ⟨other, -, hc⟩ := List.mem_flatMap.mp hothers
      rcases List.mem_cons.mp hc with rfl | hc
      · decide
      · exact mem_target_text other c hc
  · have hplain := hw c (List.mem_of_mem_head? hc)
    have hin : c ∈ (w ++ after).head? := by
      rw [List.head?_append, Option.mem_def.mp hc, Option.some_or, Option.mem_def]
    rw [← htail] at hin
    cases hfrac : target.price.frac with
    | some digits =>
        rw [hfrac] at hin
        rw [← Option.some.inj hin] at hplain
        cases hplain
    | none =>
        rw [hfrac] at hin
        cases others with
        | nil => cases hin
        | cons next rest => exact (Option.some.inj hin).symm

/-- The first match of the list pattern takes the whole part of the first price as a token. -/
private theorem exists_wholeToken (hrule : shippedRules.lookup symbol = some rule)
    (hdecimals : 0 ∈ rule.decimalPlaces) (target : IndexedTarget symbol)
    (others : List (IndexedTarget symbol)) :
    ∃ m ∈ targetList.findAll (targetsText symbol (target :: others)),
      target.price.whole ∈ shippedParser.parseNumberList (m.submatch 3) symbol := by
  obtain ⟨first, more, hlevel⟩ := List.exists_cons_of_ne_nil target.levelText_ne_nil
  obtain ⟨w, after, htail, hw, hback, hafter⟩ := exists_sectionEnd target others
  have htext : targetsText symbol (target :: others) = symbol.toList ++ ' ' :: ("TP".toList ++
      (first :: (more ++ ' ' :: (target.price.whole ++ w)) ++ after)) := by
    rw [targetsText, List.flatMap_cons, IndexedTarget.text, hlevel, TargetPrice.text, numeralText]
    simp only [List.cons_append, List.append_assoc, htail]
  have hwhole : ∀ c ∈ target.price.whole, Re.isDigit c = true := fun c hc =>
    target.price.digits c (List.mem_append_left _ hc)
  have hlevelChars := target.mem_levelText
  rw [hlevel] at hlevelChars
  have hdigit : ∀ c ∈ "0123456789".toList, c ∈ targetChars ∧ inSection c = true := by decide
  have hsection : ∀ c ∈ first :: more ++ ' ' :: (target.price.whole ++ w),
      c ∈ targetChars ∧ inSection c = true := by
    intro c hc
    rcases List.mem_append.mp hc with hc | hc
    · exact hdigit c (hlevelChars c hc)
    rcases List.mem_cons.mp hc with rfl | hc
    · decide
    rcases List.mem_append.mp hc with hc | hc
    · exact hdigit c (isDigit_mem (hwhole c hc))
    · exact hw c hc
  have hmore : ∀ c ∈ more ++ ' ' :: (target.price.whole ++ w), inSection c = true := fun c hc =>
    (hsection c (List.mem_cons_of_mem first hc)).2
  obtain ⟨h, hrun, htaken, -, hspec⟩ :=
    head_run_targetList (hlevelChars first List.mem_cons_self) hmore hafter
  obtain ⟨hits, hfound⟩ := Re.findAll_cons ((skipsGap_targetList hrule).search hrun) htaken
  rw [htext, hfound]
  refine ⟨h, List.mem_cons_self, ?_⟩
  rw [hspec, ← List.cons_append]
  exact mem_parseNumberList (decimalSeparator_of_lookup hrule) (fun c hc => (hsection c hc).1)
    (takes_whole hrule hdecimals target.price).1 hwhole hback

end WholePart

/-! ### The result -/

section Result

variable {rangeOrder : Parser.LevelMap → Parser.LevelMap} {symbol : String} {rule : SymbolRule}
  {targets : List (IndexedTarget symbol)}

private theorem readsTargets_of_levelMap (hrange : ∀ levels, (rangeOrder levels).Perm levels)
    (hnodup : (targets.map IndexedTarget.level).Nodup)
    (h : shippedParser.levelMap takeProfitConfig (targetsText symbol targets) symbol =
      targets.map fun target => ((target.level : Int), target.entry)) :
    ReadsTargets rangeOrder symbol targets := by
  have hexact := @Parser.perm_extractTakeProfit shippedParser symbol _ takeProfitConfig
    (targetsText symbol targets) hrange
  rw [h, List.map_map] at hexact
  refine ⟨hexact, (Parser.increasing_extractTakeProfit_iff hrange).mpr ?_⟩
  have hlevels : (targets.map fun target => ((target.level : Int), target.entry)).map
      (fun found => found.2.level) = (targets.map IndexedTarget.level).map Int.ofNat := by
    rw [List.map_map, List.map_map]
    rfl
  rw [h, hlevels]
  exact hnodup.map fun _ _ => Int.ofNat_inj.mp

/-- Targets are read back exactly when the symbol has no prices without decimals. -/
theorem reads_targets_iff (hrange : ∀ levels, (rangeOrder levels).Perm levels)
    (hrule : shippedRules.lookup symbol = some rule) (hne : targets ≠ [])
    (hnodup : (targets.map IndexedTarget.level).Nodup) :
    ReadsTargets rangeOrder symbol targets ↔ 0 ∉ rule.decimalPlaces := by
  constructor
  · intro hreads hdecimals
    obtain ⟨target, others, rfl⟩ := List.exists_cons_of_ne_nil hne
    obtain ⟨m, hm, htoken⟩ := exists_wholeToken hrule hdecimals target others
    obtain ⟨-, x, htakes⟩ := takes_whole hrule hdecimals target.price
    have hmore := Parser.length_lt_addSections hm htoken htakes
      (shippedParser.indexedLevels takeProfitConfig (targetsText symbol (target :: others)) symbol)
    have hlength := hreads.exact.length_eq
    rw [Parser.length_extractTakeProfit hrange, Parser.levelMap_eq,
      if_pos (show takeProfitConfig.noIndexList = true from rfl), List.length_map] at hlength
    rw [indexedLevels_targets hrule hne hnodup] at hmore hlength
    rw [List.length_map] at hmore
    exact absurd hlength hmore.ne'
  · intro hdecimals
    exact readsTargets_of_levelMap hrange hnodup (levelMap_targets hrule hdecimals hne hnodup)

end Result

/-- `TP1 1.0905`. -/
def euroTarget : IndexedTarget "EURUSD" where
  level := 1
  positive := le_rfl
  small := by decide
  price :=
    { whole := "1".toList
      frac := some "0905".toList
      digits := by decide
      price := .fin (2181 / 2000)
      reads := by decide +kernel
      allowed := by decide +kernel }

/-- `TP1 50000.5`. -/
def bitcoinTarget : IndexedTarget "BTCUSD" where
  level := 1
  positive := le_rfl
  small := by decide
  price :=
    { whole := "50000".toList
      frac := some "5".toList
      digits := by decide
      price := .fin (100001 / 2)
      reads := by decide +kernel
      allowed := by decide +kernel }

/-- `TP3 1.08955`. -/
def laterTarget : IndexedTarget "EURUSD" where
  level := 3
  positive := by decide
  small := by decide
  price :=
    { whole := "1".toList
      frac := some "08955".toList
      digits := by decide
      price := .fin (21791 / 20000)
      reads := by decide +kernel
      allowed := by decide +kernel }

theorem reads_targets_iff_euroTarget : ReadsTargets id "EURUSD" [laterTarget, euroTarget] ∧
    0 ∉ (rule [4, 5] (1 / 2) (5 / 2) "").decimalPlaces :=
  have hrule : shippedRules.lookup "EURUSD" = some (rule [4, 5] (1 / 2) (5 / 2) "") := by rfl
  have hdecimals : 0 ∉ (rule [4, 5] (1 / 2) (5 / 2) "").decimalPlaces := by decide
  have hnodup : ([laterTarget, euroTarget].map IndexedTarget.level).Nodup := by decide
  ⟨(reads_targets_iff (fun _ => List.Perm.refl _) hrule (List.cons_ne_nil _ _) hnodup).mpr hdecimals,
    hdecimals⟩

/-- The whole part of the price gets a level of its own. -/
theorem whole_part_added : targetsText "BTCUSD" [bitcoinTarget] = "BTCUSD TP1 50000.5".toList ∧
    shippedParser.extractTakeProfit id takeProfitConfig (targetsText "BTCUSD" [bitcoinTarget])
      "BTCUSD" = [⟨1, .fin (100001 / 2)⟩, ⟨2, .fin 50000⟩] ∧
    ¬ ReadsTargets id "BTCUSD" [bitcoinTarget] := by
  have htargets : shippedParser.extractTakeProfit id takeProfitConfig
      (targetsText "BTCUSD" [bitcoinTarget]) "BTCUSD" =
        [⟨1, .fin (100001 / 2)⟩, ⟨2, .fin 50000⟩] := by decide +kernel
  refine ⟨by decide, htargets, fun hreads => ?_⟩
  have hlength := hreads.exact.length_eq
  rw [htargets] at hlength
  cases hlength

end SphereFx.Extractor
