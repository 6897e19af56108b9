import Mathlib.Data.List.DropRight
import Mathlib.Data.Nat.Prime.Basic
import SphereFx.Extractor.Conventions
import SphereFx.Extractor.Prices

/-!
# The decimals of a price

The decimals of a price are counted on the number that was read, not on the text: zeros at the end do
not count. `1.0850` has three, and a rule that allows four or five refuses it.
-/

namespace SphereFx.Extractor

open Text

attribute [local instance] decidableBAllChar

/-! ### Decimals of a rational number -/

theorem den_mul_pow_eq_one_iff (m j i : ℕ) :
    ((m : ℚ) / 10 ^ j * 10 ^ i).den = 1 ↔ 10 ^ j ∣ m * 10 ^ i := by
  have hcast : (m : ℚ) / 10 ^ j * 10 ^ i = ((m * 10 ^ i : ℕ) : ℚ) / ((10 ^ j : ℕ) : ℚ) := by
    push_cast
    rw [div_mul_eq_mul_div]
  rw [hcast, Rat.den_div_natCast_eq_one_iff _ _ (Nat.pow_pos (by decide)).ne']

/-- A last digit that is not zero leaves a power of two or of five in the denominator. -/
private theorem pow_le_den {m j : ℕ} (hm : m % 10 ≠ 0) : 2 ^ j ≤ ((m : ℚ) / 10 ^ j).den := by
  have hpos : 0 < ((m : ℚ) / 10 ^ j).den := Rat.den_pos _
  have hdvd : 10 ^ j ∣ m * ((m : ℚ) / 10 ^ j).den := by
    have hnum := Rat.mul_den_eq_num ((m : ℚ) / 10 ^ j)
    have hpow : (10 : ℚ) ^ j ≠ 0 := by positivity
    rw [div_mul_eq_mul_div, div_eq_iff hpow] at hnum
    have hint : ((m * ((m : ℚ) / 10 ^ j).den : ℕ) : ℤ) = ((m : ℚ) / 10 ^ j).num * (10 ^ j : ℕ) := by
      exact_mod_cast hnum
    exact Int.natCast_dvd_natCast.mp ⟨_, hint.trans (mul_comm _ _)⟩
  by_cases htwo : 2 ∣ m
  · have hfive : Nat.Coprime (5 ^ j) m := by
      apply Nat.Coprime.pow_left
      apply (Nat.Prime.coprime_iff_not_dvd (by decide)).mpr
      omega
    have hpow : 5 ^ j ∣ ((m : ℚ) / 10 ^ j).den := by
      apply hfive.dvd_of_dvd_mul_left
      exact (pow_dvd_pow_of_dvd (show 5 ∣ 10 by decide) j).trans hdvd
    exact (Nat.pow_le_pow_left (by decide) j).trans (Nat.le_of_dvd hpos hpow)
  · have hodd : Nat.Coprime (2 ^ j) m := by
      apply Nat.Coprime.pow_left
      exact (Nat.Prime.coprime_iff_not_dvd (by decide)).mpr htwo
    apply Nat.le_of_dvd hpos
    apply hodd.dvd_of_dvd_mul_left
    exact (pow_dvd_pow_of_dvd (show 2 ∣ 10 by decide) j).trans hdvd

private theorem decimalPlaces_eq {m j : ℕ} (h : j = 0 ∨ m % 10 ≠ 0) : decimalPlaces ((m : ℚ) / 10 ^ j) = j := by
  have hbound : j < ((m : ℚ) / 10 ^ j).den.log2 + 1 := by
    rcases h with rfl | hm
    · exact Nat.succ_pos _
    · rw [Nat.lt_succ_iff, Nat.le_log2 (Rat.den_nz _)]
      exact pow_le_den hm
  have hfind : (List.range (((m : ℚ) / 10 ^ j).den.log2 + 1)).find?
      (fun k => decide (((m : ℚ) / 10 ^ j * 10 ^ k).den = 1)) = some j := by
    apply List.find?_range_eq_some.mpr
    refine ⟨decide_eq_true ((den_mul_pow_eq_one_iff m j j).mpr (Nat.dvd_mul_left _ _)),
      List.mem_range.mpr hbound, fun i hi => ?_⟩
    rw [Bool.not_eq_true', decide_eq_false_iff_not, den_mul_pow_eq_one_iff]
    intro hdvd
    have hm : m % 10 ≠ 0 := h.resolve_left (Nat.ne_of_gt (Nat.zero_lt_of_lt hi))
    have hten : 10 ^ (i + 1) ∣ m * 10 ^ i := (pow_dvd_pow 10 hi).trans hdvd
    rw [pow_succ', Nat.mul_dvd_mul_iff_right (Nat.pow_pos (by decide))] at hten
    exact hm (Nat.mod_eq_zero_of_dvd hten)
  rw [decimalPlaces, hfind, Option.getD_some]

/-! ### Decimals of a literal -/

/-- The fraction without the zeros at its end. -/
def significantFrac (frac : List Char) : List Char := frac.rdropWhile (· = '0')

private theorem decimalPlaces_literalValue {whole frac : List Char}
    (h : ∀ c ∈ whole ++ frac, Re.isDigit c = true) :
    decimalPlaces (literalValue whole frac) = (significantFrac frac).length := by
  obtain ⟨zeros, hfrac, hzeros⟩ : ∃ zeros, frac = significantFrac frac ++ zeros ∧
      ∀ c ∈ zeros, c = '0' := by
    refine ⟨frac.rtakeWhile (· = '0'), List.rdropWhile_append_rtakeWhile.symm, fun c hc => ?_⟩
    have hzero := @List.mem_rtakeWhile_imp _ (fun c => decide (c = '0')) frac c hc
    exact of_decide_eq_true hzero
  have hlast : ∀ hne : significantFrac frac ≠ [], (significantFrac frac).getLast hne ≠ '0' :=
    fun hne heq => List.rdropWhile_last_not _ _ hne (decide_eq_true heq)
  generalize significantFrac frac = kept at hfrac hlast
  have hdigits : ∀ c ∈ zeros, Re.isDigit c = true := by
    intro c hc
    rw [hzeros c hc]
    rfl
  have hvalue : literalValue whole frac = (digitsValue 10 (whole ++ kept) : ℚ) / 10 ^ kept.length := by
    have hnone := (digitsValue_eq_zero_iff hdigits).mpr hzeros
    rw [literalValue, hfrac, ← List.append_assoc, digitsValue_append, hnone, Nat.add_zero,
      List.length_append, pow_add]
    push_cast
    rw [mul_div_mul_right _ _ (by positivity)]
  rw [hvalue]
  apply decimalPlaces_eq
  rcases List.eq_nil_or_concat' kept with rfl | ⟨front, last, rfl⟩
  · exact Or.inl rfl
  · right
    have hdigit : Re.isDigit last = true := by
      apply h
      rw [hfrac]
      simp
    have hplain : last ≠ '0' := by
      have hne := hlast (List.append_ne_nil_of_right_ne_nil _ (List.cons_ne_nil _ _))
      rwa [List.getLast_append_singleton] at hne
    have hvalues : ∀ c ∈ "0123456789".toList, c ≠ '0' → (digitValue? 10 c).getD 0 % 10 ≠ 0 := by decide
    rw [← List.append_assoc, digitsValue_append, digitsValue_singleton, List.length_singleton, pow_one,
      Nat.mul_add_mod']
    exact hvalues last (isDigit_mem hdigit) hplain

/-! ### Which literals are accepted -/

/-- A decimal literal in the range of a rule, written with an allowed number of decimals. -/
structure AllowedLiteral (rule : SymbolRule) where
  whole : List Char
  frac : Option (List Char)
  digits : ∀ c ∈ whole ++ frac.getD [], Re.isDigit c = true
  digits_ne : whole ++ frac.getD [] ≠ []
  significant : ((whole ++ frac.getD []).dropWhile (· = '0')).length ≤ 15
  places : (frac.getD []).length ∈ rule.decimalPlaces
  low : rule.minValue ≤ literalValue whole (frac.getD [])
  high : literalValue whole (frac.getD []) ≤ rule.maxValue

namespace AllowedLiteral

variable {rule : SymbolRule} (literal : AllowedLiteral rule)

def text : List Char := numeralText literal.whole literal.frac

def value : ℚ := literalValue literal.whole (literal.frac.getD [])

theorem value_nonneg : 0 ≤ literal.value := by
  rw [value, literalValue]
  positivity

theorem text_ne_nil : literal.text ≠ [] := by
  intro h
  obtain ⟨hwhole, hrest⟩ := List.append_eq_nil_iff.mp h
  apply literal.digits_ne
  cases hfrac : literal.frac with
  | none => rw [hwhole, Option.getD_none, List.append_nil]
  | some digits =>
      rw [hfrac] at hrest
      cases hrest

end AllowedLiteral

section Accepted

variable {p : Parser} {cfg : PatternConfig} {symbol : String} {text : List Char} {rule : SymbolRule}

theorem numericText_eq (hpoint : p.decimalSeparator symbol = ".") {val : List Char}
    (hspace : ' ' ∉ val) (hcomma : ',' ∉ val) : p.numericText cfg val symbol = val := by
  rw [Parser.numericText]
  simp only [replace_eq_self hspace, ite_self, replace_eq_self hcomma, if_pos hpoint]

private theorem extractNumeric_eq_ok_of_valid {val : List Char} (hval : extractValue cfg text = some val)
    (hne : val ≠ []) {price : F64} (hvalid : p.validatePrice price symbol = true) :
    p.extractNumeric cfg text symbol = .ok price ↔
      parseFloat (p.numericText cfg val symbol) = some price := by
  by_cases hcheck : cfg.validateAgainstSymbol = true
  · rw [Parser.extractNumeric_eq_ok hcheck]
    constructor
    · rintro ⟨other, hother, htakes, -⟩
      rw [Option.some.inj (hval.symm.trans hother)]
      exact htakes
    · exact fun h => ⟨val, hval, h, hvalid⟩
  · obtain ⟨c, rest, rfl⟩ := List.exists_cons_of_ne_nil hne
    rw [Parser.extractNumeric, hval]
    simp only [if_neg hcheck]
    cases parseFloat (p.numericText cfg (c :: rest) symbol) with
    | none => exact iff_of_false (fun h => by cases h) fun h => by cases h
    | some num =>
        simp only [Except.ok.injEq, Option.some.injEq]

/-- A literal is accepted with its value exactly when the decimals left without zeros at the end are an
allowed number too. -/
theorem accepts_literal_iff (hrule : p.rule? symbol = some rule)
    (hpoint : rule.decimalSeparator = ".") (literal : AllowedLiteral rule)
    (hval : extractValue cfg text = some literal.text) :
    p.extractNumeric cfg text symbol = .ok (.fin literal.value) ∧
        p.validatePrice (.fin literal.value) symbol = true ↔
      InRange literal.value ∧ (significantFrac (literal.frac.getD [])).length ∈ rule.decimalPlaces := by
  have hdecimal : p.decimalSeparator symbol = "." := by
    rw [Parser.decimalSeparator, hrule]
    exact hpoint
  have hread : parseFloat (p.numericText cfg literal.text symbol) = some (.fin literal.value) ↔
      InRange literal.value := by
    have hchars := mem_numeralText literal.digits
    have htext : p.numericText cfg literal.text symbol = literal.text :=
      numericText_eq hdecimal (fun hc => absurd (hchars _ hc) (by decide)) fun hc =>
        absurd (hchars _ hc) (by decide)
    rw [htext, AllowedLiteral.text, parseFloat_numeral literal.digits literal.digits_ne]
    exact toFloat_eq_self_iff literal.value_nonneg
  have hvalid : p.validatePrice (.fin literal.value) symbol = true ↔
      (significantFrac (literal.frac.getD [])).length ∈ rule.decimalPlaces := by
    have hplaces : countDecimalPlaces (.fin literal.value) =
        (significantFrac (literal.frac.getD [])).length :=
      decimalPlaces_literalValue literal.digits
    have hsome : rule.decimalPlaces ≠ [] := List.ne_nil_of_mem literal.places
    rw [Parser.validatePrice_iff, ← hplaces]
    constructor
    · intro h
      exact (h rule hrule).2.2.resolve_right hsome
    · intro h other hother
      rw [← Option.some.inj (hrule.symm.trans hother)]
      refine ⟨?_, ?_, Or.inl h⟩
      · exact F64.fin_lt_fin.not.mpr (not_lt.mpr literal.low)
      · exact F64.fin_lt_fin.not.mpr (not_lt.mpr literal.high)
  rw [← hread, ← hvalid, and_congr_left_iff]
  exact fun h => extractNumeric_eq_ok_of_valid hval literal.text_ne_nil h

end Accepted

/-- `1.0855` and `1.0850`. -/
def fourDecimals : AllowedLiteral (rule [4, 5] (1 / 2) (5 / 2) "") where
  whole := "1".toList
  frac := some "0855".toList
  digits := by decide
  digits_ne := by decide
  significant := by decide
  places := by decide
  low := by decide +kernel
  high := by decide +kernel

def zeroAtEnd : AllowedLiteral (rule [4, 5] (1 / 2) (5 / 2) "") where
  whole := "1".toList
  frac := some "0850".toList
  digits := by decide
  digits_ne := by decide
  significant := by decide
  places := by decide
  low := by decide +kernel
  high := by decide +kernel

theorem accepts_literal_iff_fourDecimals : shippedParser.extractNumeric entryPriceConfig
      "ENTRY 1.0855".toList "EURUSD" = .ok (.fin fourDecimals.value) ∧
    shippedParser.validatePrice (.fin fourDecimals.value) "EURUSD" = true :=
  have hrule : shippedParser.rule? "EURUSD" = some (rule [4, 5] (1 / 2) (5 / 2) "") := by rfl
  have hval : extractValue entryPriceConfig "ENTRY 1.0855".toList = some fourDecimals.text := by decide
  have hrange : InRange fourDecimals.value := Or.inr (by decide +kernel)
  have hplaces : (significantFrac "0855".toList).length ∈ [4, 5] := by decide
  (accepts_literal_iff hrule rfl fourDecimals hval).mpr ⟨hrange, hplaces⟩

/-- A price with four decimals, the last of them zero, is refused. -/
theorem zeroAtEnd_refused : zeroAtEnd.text = "1.0850".toList ∧
    extractValue entryPriceConfig "ENTRY 1.0850".toList = some "1.0850".toList ∧
    (shippedParser.extractNumeric entryPriceConfig "ENTRY 1.0850".toList "EURUSD").isOk = false ∧
    shippedParser.validatePrice (.fin zeroAtEnd.value) "EURUSD" = false := by
  refine ⟨by decide, by decide, by decide +kernel, by decide +kernel⟩

end SphereFx.Extractor
