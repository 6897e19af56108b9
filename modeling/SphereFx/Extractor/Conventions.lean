import SphereFx.Extractor.NumberLists
import SphereFx.Extractor.Numeral

/-!
# Decimal and thousands separators

Three readers take the separators out of a number: `extractNumeric`, `cleanNumericString` and
`parseNumberList`. With decimal points all three read the number that is written. With decimal commas
`cleanNumericString` deletes the points after it has made one of the comma, and `parseNumberList` leaves
the points of the thousands.
-/

namespace SphereFx.Extractor

open Text

attribute [local instance] decidableBAllChar

/-! ### The spellings -/

/-- A number with decimals, its whole part in one piece or in groups of three digits. -/
structure Spelling where
  lead : List Char
  groups : List (List Char)
  frac : List Char
  lead_digits : ∀ c ∈ lead, Re.isDigit c = true
  groups_digits : ∀ g ∈ groups, ∀ c ∈ g, Re.isDigit c = true
  frac_digits : ∀ c ∈ frac, Re.isDigit c = true
  grouped : groups ≠ [] → 1 ≤ lead.length ∧ lead.length ≤ 3
  three : ∀ g ∈ groups, g.length = 3
  frac_ne : frac ≠ []

namespace Spelling

variable (w : Spelling)

def whole : List Char := w.lead ++ w.groups.flatten

def text (point thousands : Char) : List Char :=
  w.lead ++ (w.groups.flatMap (thousands :: ·) ++ point :: w.frac)

def value : ℚ := literalValue w.whole w.frac

theorem whole_digits : ∀ c ∈ w.whole, Re.isDigit c = true := by
  intro c hc
  rcases List.mem_append.mp hc with hc | hc
  · exact w.lead_digits c hc
  · obtain ⟨g, hg, hc⟩ := List.mem_flatten.mp hc
    exact w.groups_digits g hg c hc

theorem value_nonneg : 0 ≤ w.value := by
  rw [value, literalValue]
  positivity

theorem mem_text {point thousands c : Char} (h : c ∈ w.text point thousands) :
    c = point ∨ c = thousands ∨ Re.isDigit c = true := by
  rcases List.mem_append.mp h with h | h
  · exact Or.inr (Or.inr (w.lead_digits c h))
  rcases List.mem_append.mp h with h | h
  · obtain ⟨g, hg, hc⟩ := List.mem_flatMap.mp h
    rcases List.mem_cons.mp hc with rfl | hc
    · exact Or.inr (Or.inl rfl)
    · exact Or.inr (Or.inr (w.groups_digits g hg c hc))
  · rcases List.mem_cons.mp h with rfl | h
    · exact Or.inl rfl
    · exact Or.inr (Or.inr (w.frac_digits c h))

/-- Without the thousands separators the whole part is in one piece. -/
theorem filter_text (point : Char) {thousands : Char} (hthousands : Re.isDigit thousands = false) :
    (w.text point thousands).filter (· ≠ thousands) =
      w.whole ++ ([point].filter (· ≠ thousands) ++ w.frac) := by
  have hself : ∀ {digits : List Char}, (∀ c ∈ digits, Re.isDigit c = true) →
      digits.filter (· ≠ thousands) = digits := by
    intro digits hdigits
    apply List.filter_eq_self.mpr
    intro c hc
    apply decide_eq_true
    rintro rfl
    rw [hdigits c hc] at hthousands
    cases hthousands
  have hgroups : (w.groups.flatMap (thousands :: ·)).filter (· ≠ thousands) = w.groups.flatten := by
    rw [List.filter_flatMap, ← List.flatMap_id]
    apply List.flatMap_congr
    intro g hg
    rw [List.filter_cons_of_neg (by simp), hself (w.groups_digits g hg)]
    rfl
  rw [text, List.filter_append, List.filter_append, ← List.singleton_append, List.filter_append,
    hself w.lead_digits, hself w.frac_digits, hgroups, whole, List.append_assoc]

end Spelling

theorem replace_singleton (old new : Char) (text : List Char) :
    replace old [new] text = text.map fun c => if c = old then new else c := by
  rw [replace, List.map_eq_flatMap]
  apply List.flatMap_congr
  intro c _
  split <;> rfl

/-! ### What is read -/

/-- The rule has the point and the comma for its separators, in one order or the other. -/
structure HasSeparators (rule : SymbolRule) (point thousands : Char) : Prop where
  decimal : rule.decimalSeparator = String.singleton point
  grouping : rule.thousandsSeparator = String.singleton thousands
  chars : point = '.' ∧ thousands = ',' ∨ point = ',' ∧ thousands = '.'

/-- Each of the three readers gets a spelling of the number. -/
structure FollowsConvention (p : Parser) (cfg : PatternConfig) (symbol : String) (text : List Char)
    (x : ℚ) : Prop where
  numeric : parseFloat (p.numericText cfg text symbol) = some (.fin x)
  clean : parseFloat (p.cleanNumericString text symbol) = some (.fin x)
  list : ∃ token, p.parseNumberList text symbol = [token] ∧ parseFloat token = some (.fin x)

/-- Zero, or neither underflow nor overflow. -/
def InRange (x : ℚ) : Prop := x = 0 ∨ underflow < x ∧ x < overflow

section Readers

variable {p : Parser} {cfg : PatternConfig} {symbol : String} (w : Spelling)

theorem parseFloat_spelling :
    parseFloat (w.whole ++ '.' :: w.frac) = some (.fin w.value) ↔ InRange w.value := by
  have hdigits : ∀ c ∈ w.whole ++ (some w.frac).getD [], Re.isDigit c = true := fun c hc =>
    (List.mem_append.mp hc).elim (w.whole_digits c) (w.frac_digits c)
  have hne : w.whole ++ (some w.frac).getD [] ≠ [] :=
    List.append_ne_nil_of_right_ne_nil _ w.frac_ne
  have hread := parseFloat_numeral hdigits hne
  have htext : numeralText w.whole (some w.frac) = w.whole ++ '.' :: w.frac := rfl
  rw [htext] at hread
  rw [hread]
  exact toFloat_eq_self_iff w.value_nonneg

theorem plain_text {point thousands : Char}
    (hseparators : point = '.' ∧ thousands = ',' ∨ point = ',' ∧ thousands = '.') :
    ∀ c ∈ w.text point thousands, c ∈ ",.0123456789".toList := by
  have hdigits : ∀ c ∈ "0123456789".toList, c ∈ ",.0123456789".toList := by decide
  intro c hc
  rcases hseparators with ⟨rfl, rfl⟩ | ⟨rfl, rfl⟩
  · rcases w.mem_text hc with rfl | rfl | hc
    · decide
    · decide
    · exact hdigits c (isDigit_mem hc)
  · rcases w.mem_text hc with rfl | rfl | hc
    · decide
    · decide
    · exact hdigits c (isDigit_mem hc)

theorem removeSpaces_text {text : List Char} (h : ∀ c ∈ text, c ∈ ",.0123456789".toList) :
    replace ' ' [] text = text := by
  apply replace_eq_self
  intro hspace
  exact absurd (h ' ' hspace) (by decide)

/-- With decimal points all readers take out the commas and nothing else. -/
private theorem readers_point (hpoint : p.decimalSeparator symbol = ".")
    (hreplace : cfg.replaceCommasWithDots = false) :
    p.numericText cfg (w.text '.' ',') symbol = w.whole ++ '.' :: w.frac ∧
      p.cleanNumericString (w.text '.' ',') symbol = w.whole ++ '.' :: w.frac ∧
      p.parseNumberList (w.text '.' ',') symbol = [w.whole ++ '.' :: w.frac] := by
  have hchars := plain_text w (Or.inl ⟨rfl, rfl⟩)
  have hspaces := removeSpaces_text hchars
  have hcomma : ¬ p.decimalSeparator symbol = "," := by
    rw [hpoint]
    decide
  have hfilter : (w.text '.' ',').filter (· ≠ ',') = w.whole ++ '.' :: w.frac :=
    w.filter_text '.' (by decide)
  have hnumeral : ∀ c ∈ w.whole ++ '.' :: w.frac, c ∈ ".0123456789".toList := by
    have hcommaless : ∀ c ∈ ",.0123456789".toList, c ≠ ',' → c ∈ ".0123456789".toList := by decide
    intro c hc
    rw [← hfilter, List.mem_filter] at hc
    exact hcommaless c (hchars c hc.1) (of_decide_eq_true hc.2)
  have hwhite : ∀ c ∈ ",.0123456789".toList, isWhite c = false ∧ isDelimiter c = false := by decide
  refine ⟨?_, ?_, ?_⟩
  · rw [Parser.numericText]
    simp only [hspaces, ite_self]
    rw [hreplace, if_neg Bool.false_ne_true, if_pos hpoint, replace_nil, hfilter]
  · have hkept : ∀ c ∈ ".0123456789".toList, (Re.isDigit c || c == '.' || c == '-') = true := by
      decide
    rw [Parser.cleanNumericString]
    simp only [hspaces, if_neg hcomma, replace_nil, hfilter]
    exact List.filter_eq_self.mpr fun c hc => hkept c (hnumeral c hc)
  · have hdot : '.' ∈ w.text '.' ',' :=
      List.mem_append_right _ (List.mem_append_right _ List.mem_cons_self)
    rw [parseNumberList_eq_listTokens hpoint
      (trimSpace_word fun c hc => (hwhite c (hchars c hc)).1),
      listTokens_of_point hdot fun c hc => (hwhite c (hchars c hc)).2, hfilter]
    have hnospace : ∀ c ∈ ".0123456789".toList, isWhite c = false := by decide
    rw [trimSpace_word fun c hc => hnospace c (hnumeral c hc)]

/-- With decimal commas `cleanNumericString` takes out the decimal comma too, and `parseNumberList` only
turns it into a point. -/
private theorem readers_comma (hpoint : p.decimalSeparator symbol = ",")
    (hreplace : cfg.replaceCommasWithDots = false) :
    p.numericText cfg (w.text ',' '.') symbol = w.whole ++ '.' :: w.frac ∧
      p.cleanNumericString (w.text ',' '.') symbol = w.whole ++ w.frac ∧
      p.parseNumberList (w.text ',' '.') symbol = [w.text '.' '.'] := by
  have hchars := plain_text w (Or.inr ⟨rfl, rfl⟩)
  have hspaces := removeSpaces_text hchars
  have hdot : ¬ p.decimalSeparator symbol = "." := by
    rw [hpoint]
    decide
  have hdigit : ∀ {digits : List Char}, (∀ c ∈ digits, Re.isDigit c = true) →
      (digits.map fun c => if c = ',' then '.' else c) = digits := by
    intro digits hdigits
    rw [List.map_congr_left (g := id), List.map_id]
    intro c hc
    have hne : ∀ c ∈ "0123456789".toList, c ≠ ',' := by decide
    exact if_neg (hne c (isDigit_mem (hdigits c hc)))
  have hcommas : replace ',' ['.'] (w.text ',' '.') = w.text '.' '.' := by
    have hgroups : (w.groups.flatMap ('.' :: ·)).map (fun c => if c = ',' then '.' else c) =
        w.groups.flatMap ('.' :: ·) := by
      rw [List.map_flatMap]
      apply List.flatMap_congr
      intro g hg
      rw [List.map_cons, hdigit (w.groups_digits g hg)]
      rfl
    rw [replace_singleton, Spelling.text, List.map_append, List.map_append, List.map_cons,
      hdigit w.lead_digits, hdigit w.frac_digits, hgroups]
    rfl
  refine ⟨?_, ?_, ?_⟩
  · rw [Parser.numericText]
    simp only [hspaces, ite_self]
    rw [hreplace, if_neg Bool.false_ne_true, if_neg hdot, replace_nil,
      w.filter_text ',' (by decide), replace_singleton, List.map_append, List.map_append,
      hdigit w.whole_digits, hdigit w.frac_digits]
    rfl
  · have hpoints : (w.text '.' '.').filter (· ≠ '.') = w.whole ++ w.frac :=
      w.filter_text '.' (by decide)
    rw [Parser.cleanNumericString]
    simp only [hspaces, if_pos hpoint, hcommas, replace_nil, hpoints]
    apply List.filter_eq_self.mpr
    intro c hc
    have hc : Re.isDigit c = true := (List.mem_append.mp hc).elim (w.whole_digits c) (w.frac_digits c)
    rw [hc]
    rfl
  · have hwhite : ∀ c ∈ ",.0123456789".toList, isWhite c = true → isDelimiter c = true := by decide
    have hplain : ∀ c ∈ ",.0123456789".toList, isDelimiter c = false := by decide
    have hne : w.text ',' '.' ≠ [] :=
      List.append_ne_nil_of_right_ne_nil _ (List.append_ne_nil_of_right_ne_nil _ (List.cons_ne_nil _ _))
    rw [Parser.parseNumberList, if_pos hpoint, listParts_eq fun c hc => hwhite c (hchars c hc),
      Re.parts_word hne fun c hc => hplain c (hchars c hc), List.map_singleton, hcommas]

/-- Without its point a positive number is another number. -/
theorem parseFloat_pointless :
    parseFloat (w.whole ++ w.frac) = some (.fin w.value) ↔ w.value = 0 := by
  have hdigits : ∀ c ∈ w.whole ++ w.frac, Re.isDigit c = true := fun c hc =>
    (List.mem_append.mp hc).elim (w.whole_digits c) (w.frac_digits c)
  have hpow : (10 : ℚ) ^ w.frac.length ≠ 0 := by positivity
  have hvalue : (digitsValue 10 (w.whole ++ w.frac) : ℚ) = w.value * 10 ^ w.frac.length := by
    rw [Spelling.value, literalValue, div_mul_cancel₀ _ hpow]
  rw [parseFloat_digits hdigits (List.append_ne_nil_of_right_ne_nil _ w.frac_ne), hvalue]
  constructor
  · intro h
    rcases (toFloat_eq_some h).2 with hzero | hsame
    · exact F64.fin.inj hzero
    · have hone : (10 : ℚ) ^ w.frac.length ≠ 1 := by
        have hlength := List.length_pos_iff.mpr w.frac_ne
        exact (one_lt_pow₀ (by norm_num) hlength.ne').ne'
      have hmul := F64.fin.inj hsame
      by_contra hzero
      exact hone (mul_left_cancel₀ hzero (hmul.symm.trans (mul_one _).symm))
  · intro hzero
    rw [hzero, zero_mul]
    exact (toFloat_eq_self_iff le_rfl).mpr (Or.inl rfl)

/-- Points of the thousands make a second point. -/
theorem parseFloat_grouped : parseFloat (w.text '.' '.') = some (.fin w.value) ↔
    InRange w.value ∧ w.groups = [] := by
  cases hgroups : w.groups with
  | nil =>
      have htext : w.text '.' '.' = w.whole ++ '.' :: w.frac := by
        rw [Spelling.text, Spelling.whole, hgroups]
        simp
      rw [htext, and_iff_left rfl]
      exact parseFloat_spelling w
  | cons g more =>
      have hg : g ∈ w.groups := hgroups ▸ List.mem_cons_self
      have hne : g ≠ [] := by
        intro hempty
        have hthree := w.three g hg
        rw [hempty] at hthree
        cases hthree
      have hnumeral : ∀ c ∈ w.text '.' '.', c ∈ ".0123456789".toList := by
        have hdigits : ∀ c ∈ "0123456789".toList, c ∈ ".0123456789".toList := by decide
        intro c hc
        rcases w.mem_text hc with rfl | rfl | hc
        · decide
        · decide
        · exact hdigits c (isDigit_mem hc)
      obtain ⟨rest, hrest⟩ : ∃ rest, w.text '.' '.' = w.lead ++ '.' :: (g ++ '.' :: rest) := by
        rw [Spelling.text, hgroups, List.flatMap_cons]
        cases more with
        | nil => exact ⟨w.frac, by simp⟩
        | cons h others => exact ⟨h ++ (others.flatMap ('.' :: ·) ++ '.' :: w.frac), by simp⟩
      have hchars : ∀ c ∈ rest, c ∈ ".0123456789".toList := by
        intro c hc
        apply hnumeral
        rw [hrest]
        exact List.mem_append_right _ (List.mem_cons_of_mem _
          (List.mem_append_right _ (List.mem_cons_of_mem _ hc)))
      rw [hrest, parseFloat_second_point w.lead_digits (w.groups_digits g hg) hne hchars]
      exact iff_of_false (fun h => by cases h) fun h => by cases h.2

/-- The three readers follow the convention for decimal points, and for decimal commas only on a zero
without groups. -/
theorem follows_convention_iff {rule : SymbolRule} (hrule : p.rule? symbol = some rule)
    {point thousands : Char} (hseparators : HasSeparators rule point thousands)
    (hreplace : cfg.replaceCommasWithDots = false) :
    FollowsConvention p cfg symbol (w.text point thousands) w.value ↔
      InRange w.value ∧ (point = '.' ∨ w.value = 0 ∧ w.groups = []) := by
  have hdecimal : p.decimalSeparator symbol = String.singleton point := by
    rw [Parser.decimalSeparator, hrule]
    exact hseparators.decimal
  rcases hseparators.chars with ⟨rfl, rfl⟩ | ⟨rfl, rfl⟩
  · obtain ⟨hnumeric, hclean, hlist⟩ := readers_point w hdecimal hreplace
    rw [and_iff_left (Or.inl rfl), ← parseFloat_spelling]
    constructor
    · intro h
      rw [← hnumeric]
      exact h.numeric
    · intro h
      exact ⟨hnumeric ▸ h, hclean ▸ h, _, hlist, h⟩
  · obtain ⟨hnumeric, hclean, hlist⟩ := readers_comma w hdecimal hreplace
    have hpoint : ¬ (',' : Char) = '.' := by decide
    rw [or_iff_right hpoint]
    constructor
    · intro h
      obtain ⟨token, htoken, hreads⟩ := h.list
      rw [hlist] at htoken
      rw [← (List.cons.inj htoken).1] at hreads
      obtain ⟨hrange, hgroups⟩ := (parseFloat_grouped w).mp hreads
      have hzero := h.clean
      rw [hclean, parseFloat_pointless] at hzero
      exact ⟨hrange, hzero, hgroups⟩
    · rintro ⟨hrange, hzero, hgroups⟩
      refine ⟨?_, ?_, _, hlist, (parseFloat_grouped w).mpr ⟨hrange, hgroups⟩⟩
      · rw [hnumeric]
        exact (parseFloat_spelling w).mpr hrange
      · rw [hclean]
        exact (parseFloat_pointless w).mpr hzero

end Readers

/-- The shipped parser with decimal commas for every symbol. -/
def commaRule : SymbolRule := ⟨[2], 1, 100000, ",", "."⟩

def commaParser : Parser := { shippedParser with symbolRules := fun _ => some commaRule }

/-- `1.234,56` and `1,234.56`. -/
def groupedSpelling : Spelling where
  lead := "1".toList
  groups := ["234".toList]
  frac := "56".toList
  lead_digits := by decide
  groups_digits := by decide
  frac_digits := by decide
  grouped := by decide
  three := by decide
  frac_ne := by decide

theorem follows_convention_iff_groupedSpelling : FollowsConvention shippedParser entryPriceConfig
    "BTCUSD" "1,234.56".toList (30864 / 25) := by
  have hrule : shippedParser.rule? "BTCUSD" = some (rule [0, 1, 2] 10000 200000 ",") := by rfl
  have hseparators : HasSeparators (rule [0, 1, 2] 10000 200000 ",") '.' ',' :=
    ⟨by decide, by decide, Or.inl ⟨rfl, rfl⟩⟩
  have hvalue : groupedSpelling.value = 30864 / 25 := by decide +kernel
  have hrange : InRange groupedSpelling.value := by
    rw [hvalue]
    right
    decide +kernel
  rw [← hvalue]
  exact (follows_convention_iff groupedSpelling hrule hseparators (by decide)).mpr
    ⟨hrange, Or.inl rfl⟩

/-- With decimal commas the price is a hundredfold for one reader and no number for another. -/
theorem comma_convention_broken : groupedSpelling.text ',' '.' = "1.234,56".toList ∧
    HasSeparators commaRule ',' '.' ∧ commaParser.rule? "EURUSD" = some commaRule ∧
    commaParser.cleanNumericString "1.234,56".toList "EURUSD" = "123456".toList ∧
    commaParser.parseNumberList "1.234,56".toList "EURUSD" = ["1.234.56".toList] ∧
    ¬ FollowsConvention commaParser entryPriceConfig "EURUSD" "1.234,56".toList (30864 / 25) := by
  have hclean : commaParser.cleanNumericString "1.234,56".toList "EURUSD" = "123456".toList := by
    decide
  have hread : parseFloat "123456".toList = some (.fin 123456) := by decide +kernel
  refine ⟨by decide, ⟨by decide, by decide, Or.inr ⟨rfl, rfl⟩⟩, by rfl, hclean, by decide, fun h => ?_⟩
  have hsame := h.clean
  rw [hclean, hread] at hsame
  exact absurd (F64.fin.inj (Option.some.inj hsame)) (by norm_num)

end SphereFx.Extractor
