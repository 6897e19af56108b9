import Mathlib.Data.List.TakeWhile
import SphereFx.Extractor.Canonical

/-!
# Plain numerals

A plain numeral has digits and at most one point. `ParseFloat` reads it as the number it spells, and
without a point it has no decimals.
-/

namespace SphereFx.Extractor

attribute [local instance] Text.decidableBAllChar

/-- The digits before the point, and those after it if there is a point. -/
def numeralText (whole : List Char) (frac : Option (List Char)) : List Char :=
  whole ++ (frac.map fun digits => '.' :: digits).getD []

/-! ### The value of digits -/

theorem digitValue_of_isDigit {c : Char} (h : Re.isDigit c = true) :
    ∃ d, digitValue? 10 c = some d ∧ d < 10 := by
  have hall : ∀ c ∈ "0123456789".toList, (digitValue? 10 c).any (· < 10) = true := by decide
  obtain ⟨d, hd, hlt⟩ := Option.any_eq_true _ _ |>.mp (hall c (isDigit_mem h))
  exact ⟨d, hd, of_decide_eq_true hlt⟩

theorem isDigitOf_of_isDigit {c : Char} (h : Re.isDigit c = true) : isDigitOf 10 c = true := by
  obtain ⟨d, hd, -⟩ := digitValue_of_isDigit h
  rw [isDigitOf, hd, Option.isSome_some]

theorem digitsValue_append (front back : List Char) : digitsValue 10 (front ++ back) =
    digitsValue 10 front * 10 ^ back.length + digitsValue 10 back := by
  have hfold : ∀ (digits : List Char) (start : Nat),
      digits.foldl (fun value c => value * 10 + (digitValue? 10 c).getD 0) start =
        start * 10 ^ digits.length + digitsValue 10 digits := by
    intro digits
    induction digits with
    | nil =>
        intro start
        simp [digitsValue]
    | cons c rest ih =>
        intro start
        have hcons : digitsValue 10 (c :: rest) =
            (0 * 10 + (digitValue? 10 c).getD 0) * 10 ^ rest.length + digitsValue 10 rest := ih _
        rw [List.foldl_cons, ih, hcons, List.length_cons, pow_succ]
        ring
  rw [digitsValue, List.foldl_append, hfold]
  rfl

theorem digitsValue_singleton (c : Char) : digitsValue 10 [c] = (digitValue? 10 c).getD 0 :=
  Nat.zero_add _

private theorem digitsValue_lt {digits : List Char} (h : ∀ c ∈ digits, Re.isDigit c = true) :
    digitsValue 10 digits < 10 ^ digits.length := by
  induction digits with
  | nil => exact Nat.one_pos
  | cons c rest ih =>
      obtain ⟨hc, hrest⟩ := List.forall_mem_cons.mp h
      obtain ⟨d, hd, hlt⟩ := digitValue_of_isDigit hc
      rw [← List.singleton_append, digitsValue_append, digitsValue_singleton, hd, Option.getD_some,
        List.singleton_append, List.length_cons, pow_succ]
      have hless := ih hrest
      have hmore : d * 10 ^ rest.length ≤ 9 * 10 ^ rest.length := Nat.mul_le_mul_right _ (by omega)
      omega

theorem digitsValue_eq_zero_iff {digits : List Char} (h : ∀ c ∈ digits, Re.isDigit c = true) :
    digitsValue 10 digits = 0 ↔ ∀ c ∈ digits, c = '0' := by
  have hzero : ∀ c ∈ "0123456789".toList, (digitValue? 10 c).getD 0 = 0 ↔ c = '0' := by decide
  induction digits with
  | nil => exact ⟨fun _ => List.forall_mem_nil _, fun _ => rfl⟩
  | cons c rest ih =>
      obtain ⟨hc, hrest⟩ := List.forall_mem_cons.mp h
      have hpow : (10 : ℕ) ^ rest.length ≠ 0 := (Nat.pow_pos (by decide)).ne'
      have hvalue : digitsValue 10 (c :: rest) =
          (digitValue? 10 c).getD 0 * 10 ^ rest.length + digitsValue 10 rest := by
        rw [← List.singleton_append, digitsValue_append, digitsValue_singleton]
      rw [hvalue, Nat.add_eq_zero_iff, Nat.mul_eq_zero, or_iff_left hpow, hzero c (isDigit_mem hc),
        List.forall_mem_cons, and_congr_right_iff]
      exact fun _ => ih hrest

/-- The digits of a number are read as that number. -/
theorem digitsValue_toString (n : Nat) : digitsValue 10 (toString n).toList = n := by
  have hdigits : (toString n).toList = Nat.toDigits 10 n := Nat.toList_repr
  rw [hdigits]
  have hchar : ∀ d, d < 10 → digitsValue 10 [d.digitChar] = d := by
    intro d hd
    interval_cases d <;> decide
  induction n using Nat.strongRecOn with
  | ind n ih =>
      rw [Nat.toDigits_eq_if (by norm_num)]
      split
      · rename_i hlt
        exact hchar n hlt
      · rename_i hge
        rw [digitsValue_append, ih (n / 10) (by omega) Nat.toList_repr, hchar _ (by omega),
          List.length_singleton, pow_one]
        omega

private theorem parseUint_digits {digits : List Char} (h : ∀ c ∈ digits, Re.isDigit c = true) {n : Nat}
    (hn : n < 2 ^ 64) : parseUint n digits =
      some (min (n * 10 ^ digits.length + digitsValue 10 digits) (2 ^ 64 - 1)) := by
  induction digits generalizing n with
  | nil =>
      have hvalue : n * 10 ^ ([] : List Char).length + digitsValue 10 [] = n := Nat.mul_one n
      rw [parseUint, hvalue, Nat.min_eq_left (by omega)]
  | cons c rest ih =>
      obtain ⟨hc, hrest⟩ := List.forall_mem_cons.mp h
      obtain ⟨d, hd, -⟩ := digitValue_of_isDigit hc
      have hvalue : n * 10 ^ (c :: rest).length + digitsValue 10 (c :: rest) =
          (n * 10 + d) * 10 ^ rest.length + digitsValue 10 rest := by
        rw [← List.singleton_append, digitsValue_append, digitsValue_singleton, hd, Option.getD_some,
          List.singleton_append, List.length_cons, pow_succ]
        ring
      rw [parseUint, hd, hvalue]
      by_cases hlarge : 2 ^ 64 ≤ n * 10 + d
      · have hpow : n * 10 + d ≤ (n * 10 + d) * 10 ^ rest.length :=
          Nat.le_mul_of_pos_right _ (Nat.pow_pos (by decide))
        simp only [if_pos hlarge]
        rw [Nat.min_eq_right (by omega)]
      · simp only [if_neg hlarge]
        exact ih hrest (not_le.mp hlarge)

theorem atoi_digits {digits : List Char} (hne : digits ≠ []) (h : ∀ c ∈ digits, Re.isDigit c = true) :
    atoi digits = min (digitsValue 10 digits) (2 ^ 63 - 1) := by
  have hsign : takeSign digits = (none, digits) := by
    have hnosign : ∀ c ∈ "0123456789".toList, c ≠ '+' ∧ c ≠ '-' := by decide
    apply takeSign_eq
    exact fun c hc => hnosign c (isDigit_mem (h c (List.mem_of_mem_head? hc)))
  rw [atoi, hsign]
  simp only [if_neg hne, parseUint_digits h (show 0 < 2 ^ 64 by decide)]
  rw [if_neg (by decide)]
  push_cast
  omega

/-! ### Reading a numeral -/

section Reading

variable {whole : List Char} {frac : Option (List Char)}

theorem mem_numeralText (h : ∀ c ∈ whole ++ frac.getD [], Re.isDigit c = true) :
    ∀ c ∈ numeralText whole frac, c ∈ ".0123456789".toList := by
  have hdigits : ∀ c ∈ "0123456789".toList, c ∈ ".0123456789".toList := by decide
  intro c hc
  rcases List.mem_append.mp hc with hwhole | hrest
  · exact hdigits c (isDigit_mem (h c (List.mem_append_left _ hwhole)))
  · cases frac with
    | none => cases hrest
    | some digits =>
        rcases List.mem_cons.mp hrest with rfl | hfrac
        · decide
        · exact hdigits c (isDigit_mem (h c (List.mem_append_right _ hfrac)))

private theorem scaled_neg (digits base n : Nat) :
    scaled digits base (0 - (n : Int)) = (digits : ℚ) / base ^ n := by
  cases n with
  | zero =>
      rw [pow_zero, div_one]
      exact mul_one _
  | succ n =>
      have hneg : (0 - ((n + 1 : Nat) : Int)) = Int.negSucc n := by omega
      rw [hneg, scaled]

/-- The digits around the first point. -/
theorem takeMantissa_point {whole frac rest : List Char}
    (hwhole : ∀ c ∈ whole, Re.isDigit c = true) (hfrac : ∀ c ∈ frac, Re.isDigit c = true)
    (hne : ¬ (whole = [] ∧ frac = [])) (hrest : ∀ c ∈ rest.head?, isDigitOf 10 c = false) :
    takeMantissa 10 (whole ++ '.' :: (frac ++ rest)) = some (whole, frac, rest) := by
  have hwhole : ∀ c ∈ whole, isDigitOf 10 c = true := fun c hc => isDigitOf_of_isDigit (hwhole c hc)
  have hfrac : ∀ c ∈ frac, isDigitOf 10 c = true := fun c hc => isDigitOf_of_isDigit (hfrac c hc)
  have hpoint : isDigitOf 10 '.' = false := by decide
  have hbreak : ∀ c ∈ ('.' :: (frac ++ rest)).head?, isDigitOf 10 c = false := by
    intro c hc
    rw [← Option.some.inj hc, hpoint]
  unfold takeMantissa
  rw [takeWhile_stretch hwhole hbreak, dropWhile_stretch hwhole hbreak]
  simp only [takeWhile_stretch hfrac hrest, dropWhile_stretch hfrac hrest]
  exact if_neg hne

private theorem takeMantissa_numeral (hdigits : ∀ c ∈ whole ++ frac.getD [], Re.isDigit c = true)
    (hne : whole ++ frac.getD [] ≠ []) :
    takeMantissa 10 (numeralText whole frac) = some (whole, frac.getD [], []) := by
  have hwhole : ∀ c ∈ whole, Re.isDigit c = true := fun c hc =>
    hdigits c (List.mem_append_left _ hc)
  have hfrac : ∀ c ∈ frac.getD [], Re.isDigit c = true := fun c hc =>
    hdigits c (List.mem_append_right _ hc)
  have hnone : ¬ (whole = [] ∧ frac.getD [] = []) := fun h => hne (List.append_eq_nil_iff.mpr h)
  cases frac with
  | none =>
      have hwhole : ∀ c ∈ whole, isDigitOf 10 c = true := fun c hc =>
        isDigitOf_of_isDigit (hwhole c hc)
      have htext : numeralText whole none = whole := List.append_nil whole
      unfold takeMantissa
      rw [htext, List.takeWhile_eq_self_iff.mpr hwhole, List.dropWhile_eq_nil_iff.mpr hwhole]
      exact if_neg hnone
  | some digits =>
      have hpoint := @takeMantissa_point whole digits [] hwhole hfrac hnone fun c hc => by cases hc
      rwa [List.append_nil] at hpoint

/-- Digits and points are read as a decimal without a sign. -/
theorem parseFloat_eq_decimal {text : List Char} (hchars : ∀ c ∈ text, c ∈ ".0123456789".toList) :
    parseFloat text = readUnsigned.decimal false text := by
  have hspecial : specialFloat text = none := by
    cases hword : specialFloat text with
    | none => rfl
    | some x =>
        obtain ⟨c, hc, hletter⟩ := letter_of_specialFloat hword
        exact absurd hletter
          ((show ∀ c ∈ ".0123456789".toList, c.toLower ≠ 'n' by decide) c (hchars c hc))
  have hunderscore : ∀ c ∈ text, c ≠ '_' := fun c hc =>
    (show ∀ c ∈ ".0123456789".toList, c ≠ '_' by decide) c (hchars c hc)
  have hsign : takeSign text = (none, text) := by
    have hnosign : ∀ c ∈ ".0123456789".toList, c ≠ '+' ∧ c ≠ '-' := by decide
    apply takeSign_eq
    exact fun c hc => hnosign c (hchars c (List.mem_of_mem_head? hc))
  have hdecimal : readUnsigned false text = readUnsigned.decimal false text := by
    have hnohex : ∀ c ∈ text, c.toLower ≠ 'x' := fun c hc =>
      (show ∀ c ∈ ".0123456789".toList, c.toLower ≠ 'x' by decide) c (hchars c hc)
    unfold readUnsigned
    split
    · rename_i c d rest
      exact if_neg (hnohex c (List.mem_cons_of_mem _ List.mem_cons_self))
    · rfl
  have hall : text.all (· ≠ '_') = true :=
    List.all_eq_true.mpr fun c hc => decide_eq_true (hunderscore c hc)
  have hfilter : text.filter (· ≠ '_') = text :=
    List.filter_eq_self.mpr fun c hc => decide_eq_true (hunderscore c hc)
  rw [parseFloat, hspecial]
  simp only [hall, Bool.true_or, if_true, hsign, hfilter]
  exact hdecimal

theorem parseFloat_numeral (hdigits : ∀ c ∈ whole ++ frac.getD [], Re.isDigit c = true)
    (hne : whole ++ frac.getD [] ≠ []) :
    parseFloat (numeralText whole frac) = toFloat false (literalValue whole (frac.getD [])) := by
  rw [parseFloat_eq_decimal (mem_numeralText hdigits), readUnsigned.decimal,
    takeMantissa_numeral hdigits hne]
  show toFloat false (scaled (digitsValue 10 (whole ++ frac.getD [])) 10 (0 - _)) = _
  rw [scaled_neg]
  rfl

/-- Nothing is read with a second point. -/
theorem parseFloat_second_point {whole frac rest : List Char}
    (hwhole : ∀ c ∈ whole, Re.isDigit c = true) (hfrac : ∀ c ∈ frac, Re.isDigit c = true)
    (hne : frac ≠ []) (hrest : ∀ c ∈ rest, c ∈ ".0123456789".toList) :
    parseFloat (whole ++ '.' :: (frac ++ '.' :: rest)) = none := by
  have hdigits : ∀ c ∈ "0123456789".toList, c ∈ ".0123456789".toList := by decide
  have hpoint : '.' ∈ ".0123456789".toList := by decide
  have hchars : ∀ c ∈ whole ++ '.' :: (frac ++ '.' :: rest), c ∈ ".0123456789".toList := by
    simp only [List.forall_mem_append, List.forall_mem_cons]
    exact ⟨fun c hc => hdigits c (isDigit_mem (hwhole c hc)), hpoint,
      fun c hc => hdigits c (isDigit_mem (hfrac c hc)), hpoint, hrest⟩
  have hstop : ∀ c ∈ ('.' :: rest).head?, isDigitOf 10 c = false := by
    intro c hc
    rw [← Option.some.inj hc]
    decide
  rw [parseFloat_eq_decimal hchars, readUnsigned.decimal,
    takeMantissa_point hwhole hfrac (fun h => hne h.2) hstop]
  rfl

theorem decimalPlaces_natCast (n : Nat) : decimalPlaces (n : ℚ) = 0 := by
  have hden : (n : ℚ).den = 1 := Rat.den_natCast n
  have hone : ((n : ℚ) * 10 ^ 0).den = 1 := by rw [pow_zero, mul_one, hden]
  have hfind : (List.range 1).find? (fun k => decide (((n : ℚ) * 10 ^ k).den = 1)) = some 0 :=
    List.find?_cons_of_pos (decide_eq_true hone)
  rw [decimalPlaces, hden]
  exact congrArg (fun found : Option Nat => found.getD 0) hfind

theorem toFloat_eq_some {q : ℚ} {x : F64} (h : toFloat false q = some x) :
    q < overflow ∧ (x = .fin 0 ∨ x = .fin q) := by
  unfold toFloat at h
  split at h
  · cases h
  · rename_i hrange
    refine ⟨not_le.mp hrange, ?_⟩
    split at h
    · exact Or.inl (Option.some.inj h).symm
    · exact Or.inr (Option.some.inj h).symm

theorem toFloat_of_mem {q : ℚ} (hlow : underflow < q) (hhigh : q < overflow) :
    toFloat false q = some (.fin q) := by
  rw [toFloat, if_neg hhigh.not_ge, if_neg hlow.not_ge]
  rfl

/-- A number is read as itself if it is zero or in range. -/
theorem toFloat_eq_self_iff {q : ℚ} (hq : 0 ≤ q) :
    toFloat false q = some (.fin q) ↔ q = 0 ∨ underflow < q ∧ q < overflow := by
  constructor
  · intro h
    unfold toFloat at h
    split at h
    · cases h
    · rename_i hhigh
      split at h
      · exact Or.inl (F64.fin.inj (Option.some.inj h)).symm
      · rename_i hlow
        exact Or.inr ⟨not_le.mp hlow, not_le.mp hhigh⟩
  · rintro (rfl | ⟨hlow, hhigh⟩)
    · have hzero : ¬ overflow ≤ 0 := by decide +kernel
      have hsmall : (0 : ℚ) ≤ underflow := by decide +kernel
      rw [toFloat, if_neg hzero, if_pos hsmall]
    · exact toFloat_of_mem hlow hhigh

theorem parseFloat_digits {digits : List Char} (hdigits : ∀ c ∈ digits, Re.isDigit c = true)
    (hne : digits ≠ []) : parseFloat digits = toFloat false (digitsValue 10 digits : ℚ) := by
  have hread := @parseFloat_numeral digits none (by simpa using hdigits) (by simpa using hne)
  have htext : numeralText digits none = digits := List.append_nil digits
  rw [htext, literalValue, Option.getD_none, List.append_nil, List.length_nil, pow_zero, div_one]
    at hread
  exact hread

theorem countDecimalPlaces_of_digits {digits : List Char} {x : F64}
    (hdigits : ∀ c ∈ digits, Re.isDigit c = true) (hne : digits ≠ [])
    (h : parseFloat digits = some x) : countDecimalPlaces x = 0 := by
  rw [parseFloat_digits hdigits hne] at h
  rcases (toFloat_eq_some h).2 with rfl | rfl
  · exact decimalPlaces_natCast 0
  · exact decimalPlaces_natCast _

theorem whole_le_literalValue (whole frac : List Char) (h : ∀ c ∈ frac, Re.isDigit c = true) :
    (digitsValue 10 whole : ℚ) ≤ literalValue whole frac ∧
      literalValue whole frac < digitsValue 10 whole + 1 := by
  have hpow : (0 : ℚ) < 10 ^ frac.length := by positivity
  have hless : (digitsValue 10 frac : ℚ) < 10 ^ frac.length := by exact_mod_cast digitsValue_lt h
  have hnonneg : (0 : ℚ) ≤ digitsValue 10 frac := Nat.cast_nonneg _
  rw [literalValue, digitsValue_append, le_div_iff₀ hpow, div_lt_iff₀ hpow]
  push_cast
  exact ⟨by linarith, by linarith⟩

end Reading

end SphereFx.Extractor
