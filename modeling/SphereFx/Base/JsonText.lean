import Mathlib.Data.Char
import SphereFx.Base.Json

/-!
# JSON texts

`json.dumps` and `json.loads` of Python on texts, as lists of characters. `dumps` writes ASCII only:
every other character is escaped by its UTF-16 code units. Reading such a text gives back the value it
was written from. How floats are written and read is left to two functions, and a text with the escape
of half a surrogate pair, which no Lean string can hold, is not read.
-/

namespace SphereFx

namespace Json

/-! ### Writing -/

/-- The escape of one UTF-16 code unit, with small hexadecimal digits. -/
def unicodeEscape (unit : Nat) : List Char :=
  ['\\', 'u', (unit / 4096 % 16).digitChar, (unit / 256 % 16).digitChar, (unit / 16 % 16).digitChar,
    (unit % 16).digitChar]

/-- `ESCAPE_DCT`. -/
def shortEscape : Char → Option Char
  | '"' => some '"'
  | '\\' => some '\\'
  | '\n' => some 'n'
  | '\r' => some 'r'
  | '\t' => some 't'
  | '\x0c' => some 'f'
  | '\x08' => some 'b'
  | _ => none

/-- A character as `py_encode_basestring_ascii` writes it. -/
def escapeChar (c : Char) : List Char :=
  match shortEscape c with
  | some e => ['\\', e]
  | none =>
      if 32 ≤ c.toNat ∧ c.toNat ≤ 126 then [c]
      else if c.toNat < 0x10000 then unicodeEscape c.toNat
      else unicodeEscape (0xd800 + (c.toNat - 0x10000) / 0x400) ++
        unicodeEscape (0xdc00 + (c.toNat - 0x10000) % 0x400)

def dumpsString (s : String) : List Char := '"' :: (s.toList.flatMap escapeChar ++ ['"'])

/-- `int.__repr__`. -/
def dumpsInt (n : Int) : List Char :=
  if n < 0 then '-' :: Nat.toDigits 10 n.natAbs else Nat.toDigits 10 n.natAbs

section Dumps

variable (reprFloat : ℚ → List Char)

mutual
/-- `json.dumps` with its default separators. -/
def dumps : Json → List Char
  | .null => ['n', 'u', 'l', 'l']
  | .bool true => ['t', 'r', 'u', 'e']
  | .bool false => ['f', 'a', 'l', 's', 'e']
  | .int n => dumpsInt n
  | .dec q => reprFloat q
  | .str s => dumpsString s
  | .arr [] => ['[', ']']
  | .arr (v :: rest) => '[' :: (dumps v ++ dumpsItems rest)
  | .obj [] => ['{', '}']
  | .obj ((key, v) :: rest) =>
      '{' :: (dumpsString key ++ ':' :: ' ' :: (dumps v ++ dumpsFields rest))

/-- The items after the first one, and the bracket. -/
def dumpsItems : List Json → List Char
  | [] => [']']
  | v :: rest => ',' :: ' ' :: (dumps v ++ dumpsItems rest)

def dumpsFields : List (String × Json) → List Char
  | [] => ['}']
  | (key, v) :: rest =>
      ',' :: ' ' :: (dumpsString key ++ ':' :: ' ' :: (dumps v ++ dumpsFields rest))
end

end Dumps

/-! ### Reading -/

/-- `WHITESPACE`. -/
def skip (cs : List Char) : List Char :=
  cs.dropWhile fun c => c = ' ' || c = '\t' || c = '\n' || c = '\r'

def hexValue (c : Char) : Option Nat :=
  if '0' ≤ c ∧ c ≤ '9' then some (c.toNat - 48)
  else if 'a' ≤ c ∧ c ≤ 'f' then some (c.toNat - 87)
  else if 'A' ≤ c ∧ c ≤ 'F' then some (c.toNat - 55)
  else none

/-- `_decode_uXXXX`. -/
def hexUnit (a b c d : Char) : Option Nat := do
  let a ← hexValue a
  let b ← hexValue b
  let c ← hexValue c
  let d ← hexValue d
  return ((a * 16 + b) * 16 + c) * 16 + d

/-- `BACKSLASH`. -/
def backslash : Char → Option Char
  | '"' => some '"'
  | '\\' => some '\\'
  | '/' => some '/'
  | 'b' => some '\x08'
  | 'f' => some '\x0c'
  | 'n' => some '\n'
  | 'r' => some '\r'
  | 't' => some '\t'
  | _ => none

def isHigh (unit : Nat) : Bool := 0xd800 ≤ unit && unit ≤ 0xdbff

def isLow (unit : Nat) : Bool := 0xdc00 ≤ unit && unit ≤ 0xdfff

/-- `py_scanstring` after the opening quote, strict: the characters and what follows the closing
quote. -/
def scanString : List Char → Option (List Char × List Char)
  | [] => none
  | '"' :: rest => some ([], rest)
  | '\\' :: 'u' :: a :: b :: c :: d :: rest =>
      match hexUnit a b c d with
      | none => none
      | some unit =>
          if isHigh unit then
            match rest with
            | '\\' :: 'u' :: e :: f :: g :: h :: rest =>
                match hexUnit e f g h with
                | none => none
                | some low =>
                    if isLow low then
                      (scanString rest).map fun found =>
                        (Char.ofNat (0x10000 + ((unit - 0xd800) * 0x400 + (low - 0xdc00))) :: found.1,
                          found.2)
                    else none
            | _ => none
          else if isLow unit then none
          else (scanString rest).map fun found => (Char.ofNat unit :: found.1, found.2)
  | '\\' :: c :: rest =>
      match backslash c with
      | none => none
      | some e => (scanString rest).map fun found => (e :: found.1, found.2)
  | c :: rest =>
      if c.toNat < 32 ∨ c = '\\' then none
      else (scanString rest).map fun found => (c :: found.1, found.2)

/-- `-?(?:0|[1-9][0-9]*)` after the sign. -/
def integerPart : List Char → Option (List Char × List Char)
  | '0' :: cs => some (['0'], cs)
  | c :: cs => if c.isDigit then some ((c :: cs).span Char.isDigit) else none
  | [] => none

/-- `(\.[0-9]+)?` -/
def fractionPart : List Char → List Char × List Char
  | '.' :: cs =>
      match cs.span Char.isDigit with
      | ([], _) => ([], '.' :: cs)
      | (digits, rest) => ('.' :: digits, rest)
  | cs => ([], cs)

/-- `([eE][-+]?[0-9]+)?` -/
def exponentPart : List Char → List Char × List Char
  | [] => ([], [])
  | c :: cs =>
      if c = 'e' ∨ c = 'E' then
        let sign := cs.takeWhile fun c => c = '-' || c = '+'
        match (cs.drop sign.length).span Char.isDigit with
        | ([], _) => ([], c :: cs)
        | (digits, rest) => if sign.length ≤ 1 then (c :: (sign ++ digits), rest) else ([], c :: cs)
      else ([], c :: cs)

section Loads

variable (readFloat : List Char → Json)

/-- `NUMBER_RE`, and `int` or `float` of what it matched. -/
def scanNumber (cs : List Char) : Option (Json × List Char) :=
  let sign := cs.takeWhile (· = '-')
  if sign.length ≤ 1 then
    (integerPart (cs.drop sign.length)).map fun whole =>
      let frac := fractionPart whole.2
      let exp := exponentPart frac.2
      let n : Int := Nat.ofDigitChars 10 whole.1 0
      if frac.1 = [] ∧ exp.1 = [] then (.int (if sign = [] then n else -n), whole.2)
      else (readFloat (sign ++ whole.1 ++ frac.1 ++ exp.1), exp.2)
  else none

/-- `parse_constant`. -/
def scanConstant : List Char → Option (Json × List Char)
  | 'N' :: 'a' :: 'N' :: rest => some (readFloat ['N', 'a', 'N'], rest)
  | 'I' :: 'n' :: 'f' :: 'i' :: 'n' :: 'i' :: 't' :: 'y' :: rest =>
      some (readFloat ['I', 'n', 'f', 'i', 'n', 'i', 't', 'y'], rest)
  | '-' :: 'I' :: 'n' :: 'f' :: 'i' :: 'n' :: 'i' :: 't' :: 'y' :: rest =>
      some (readFloat ['-', 'I', 'n', 'f', 'i', 'n', 'i', 't', 'y'], rest)
  | _ => none

mutual
/-- `scan_once`, on a text that is not longer than the fuel. -/
def scanOnce : Nat → List Char → Option (Json × List Char)
  | 0, _ => none
  | _ + 1, '"' :: cs => (scanString cs).map fun found => (.str (String.ofList found.1), found.2)
  | fuel + 1, '{' :: cs =>
      match skip cs with
      | '}' :: rest => some (.obj [], rest)
      | rest => (scanFields fuel rest).map fun found => (.obj found.1, found.2)
  | fuel + 1, '[' :: cs =>
      match skip cs with
      | ']' :: rest => some (.arr [], rest)
      | rest => (scanItems fuel rest).map fun found => (.arr found.1, found.2)
  | _ + 1, 'n' :: 'u' :: 'l' :: 'l' :: rest => some (.null, rest)
  | _ + 1, 't' :: 'r' :: 'u' :: 'e' :: rest => some (.bool true, rest)
  | _ + 1, 'f' :: 'a' :: 'l' :: 's' :: 'e' :: rest => some (.bool false, rest)
  | _ + 1, cs => (scanNumber readFloat cs).or (scanConstant readFloat cs)

/-- The loop of `JSONArray`. -/
def scanItems : Nat → List Char → Option (List Json × List Char)
  | 0, _ => none
  | fuel + 1, cs =>
      match scanOnce fuel cs with
      | none => none
      | some (v, rest) =>
          match skip rest with
          | ']' :: rest => some ([v], rest)
          | ',' :: rest => (scanItems fuel (skip rest)).map fun found => (v :: found.1, found.2)
          | _ => none

/-- The loop of `JSONObject`. -/
def scanFields : Nat → List Char → Option (List (String × Json) × List Char)
  | 0, _ => none
  | fuel + 1, '"' :: cs =>
      match scanString cs with
      | none => none
      | some (key, rest) =>
          match skip rest with
          | ':' :: rest =>
              match scanOnce fuel (skip rest) with
              | none => none
              | some (v, rest) =>
                  match skip rest with
                  | '}' :: rest => some ([(String.ofList key, v)], rest)
                  | ',' :: rest =>
                      (scanFields fuel (skip rest)).map fun found =>
                        ((String.ofList key, v) :: found.1, found.2)
                  | _ => none
          | _ => none
  | _ + 1, _ => none
end

/-- `json.loads` of a text. -/
def loads (text : List Char) : Option Json :=
  match scanOnce readFloat text.length (skip text) with
  | some (v, rest) => if skip rest = [] then some v else none
  | none => none

end Loads

/-! ### Strings are read back -/

theorem hexValue_digitChar : ∀ d < 16, hexValue d.digitChar = some d := by decide

theorem hexUnit_digits {unit : Nat} (h : unit < 0x10000) :
    hexUnit (unit / 4096 % 16).digitChar (unit / 256 % 16).digitChar (unit / 16 % 16).digitChar
      (unit % 16).digitChar = some unit := by
  have hdigit : ∀ n, hexValue (n % 16).digitChar = some (n % 16) :=
    fun n => hexValue_digitChar _ (Nat.mod_lt n (by decide))
  have hunit : ((unit / 4096 % 16 * 16 + unit / 256 % 16) * 16 + unit / 16 % 16) * 16 + unit % 16 =
      unit := by omega
  simp only [hexUnit, hdigit, Option.bind_eq_bind, Option.bind_some, Option.pure_def, hunit]

theorem scanString_unit {unit : Nat} (h : unit < 0x10000) (hhigh : isHigh unit = false)
    (hlow : isLow unit = false) (rest : List Char) :
    scanString (unicodeEscape unit ++ rest) =
      (scanString rest).map fun found => (Char.ofNat unit :: found.1, found.2) := by
  simp only [unicodeEscape, List.cons_append, List.nil_append, scanString, hexUnit_digits h, hhigh,
    hlow, Bool.false_eq_true, if_false]

theorem scanString_pair {high low : Nat} (hhigh : isHigh high = true) (hlow : isLow low = true)
    (rest : List Char) :
    scanString (unicodeEscape high ++ (unicodeEscape low ++ rest)) =
      (scanString rest).map fun found =>
        (Char.ofNat (0x10000 + ((high - 0xd800) * 0x400 + (low - 0xdc00))) :: found.1, found.2) := by
  have hhigh' : high < 0x10000 := by
    simp only [isHigh, Bool.and_eq_true, decide_eq_true_eq] at hhigh
    omega
  have hlow' : low < 0x10000 := by
    simp only [isLow, Bool.and_eq_true, decide_eq_true_eq] at hlow
    omega
  simp only [unicodeEscape, List.cons_append, List.nil_append, scanString, hexUnit_digits hhigh',
    hexUnit_digits hlow', hhigh, hlow, if_true]

theorem scanString_short {c e : Char} (h : shortEscape c = some e) (rest : List Char) :
    scanString ('\\' :: e :: rest) =
      (scanString rest).map fun found => (c :: found.1, found.2) := by
  have hback : e ≠ 'u' ∧ backslash e = some c := by
    unfold shortEscape at h
    split at h <;> cases h <;> exact ⟨by decide, rfl⟩
  obtain ⟨hu, hback⟩ := hback
  rw [scanString, hback]
  intro a b c' d rest' hcontra
  exact absurd hcontra hu

/-- A character is read back from the way it is written. -/
theorem scanString_escapeChar (c : Char) (rest : List Char) :
    scanString (escapeChar c ++ rest) =
      (scanString rest).map fun found => (c :: found.1, found.2) := by
  unfold escapeChar
  cases hshort : shortEscape c with
  | some e => exact scanString_short hshort rest
  | none =>
      have hquote : c ≠ '"' := by
        rintro rfl
        cases hshort
      have hslash : c ≠ '\\' := by
        rintro rfl
        cases hshort
      have hvalid : c.toNat < 0xd800 ∨ 0xdfff < c.toNat ∧ c.toNat < 0x110000 := c.valid
      simp only
      split
      · rename_i hprintable
        have hcontrol : ¬ c.toNat < 32 := by omega
        simp [scanString, hslash, hcontrol]
      split
      · rename_i hbasic
        have hhigh : isHigh c.toNat = false := by
          simp only [isHigh, Bool.and_eq_false_iff, decide_eq_false_iff_not]
          omega
        have hlow : isLow c.toNat = false := by
          simp only [isLow, Bool.and_eq_false_iff, decide_eq_false_iff_not]
          omega
        rw [scanString_unit hbasic hhigh hlow, Char.ofNat_toNat]
      · rename_i hastral
        have hrange : c.toNat < 0x110000 := by omega
        have hhigh : isHigh (0xd800 + (c.toNat - 0x10000) / 0x400) = true := by
          simp only [isHigh, Bool.and_eq_true, decide_eq_true_eq]
          omega
        have hlow : isLow (0xdc00 + (c.toNat - 0x10000) % 0x400) = true := by
          simp only [isLow, Bool.and_eq_true, decide_eq_true_eq]
          omega
        have hcode : 0x10000 + ((0xd800 + (c.toNat - 0x10000) / 0x400 - 0xd800) * 0x400 +
            (0xdc00 + (c.toNat - 0x10000) % 0x400 - 0xdc00)) = c.toNat := by omega
        rw [List.append_assoc, scanString_pair hhigh hlow, hcode, Char.ofNat_toNat]

theorem scanString_flatMap (cs rest : List Char) :
    scanString (cs.flatMap escapeChar ++ '"' :: rest) = some (cs, rest) := by
  induction cs with
  | nil => rfl
  | cons c cs ih => rw [List.flatMap_cons, List.append_assoc, scanString_escapeChar, ih, Option.map_some]

/-! ### Integers are read back -/

/-- What follows a value that was written: not a character that would go on with a number. -/
def EndsNumber (rest : List Char) : Prop :=
  ∀ c ∈ rest.head?, c.isDigit = false ∧ c ≠ '.' ∧ c ≠ 'e' ∧ c ≠ 'E'

theorem span_digits {digits rest : List Char} (hdigits : ∀ c ∈ digits, c.isDigit = true)
    (hrest : EndsNumber rest) : (digits ++ rest).span Char.isDigit = (digits, rest) := by
  rw [List.span_eq_takeWhile_dropWhile]
  have hstop : rest.takeWhile Char.isDigit = [] ∧ rest.dropWhile Char.isDigit = rest := by
    cases rest with
    | nil => exact ⟨rfl, rfl⟩
    | cons c cs =>
        have hc := (hrest c rfl).1
        exact ⟨List.takeWhile_cons_of_neg (by simp [hc]), List.dropWhile_cons_of_neg (by simp [hc])⟩
  rw [List.takeWhile_append_of_pos hdigits, List.dropWhile_append_of_pos hdigits, hstop.1, hstop.2,
    List.append_nil]

theorem exists_toDigits (n : Nat) :
    ∃ c cs, Nat.toDigits 10 n = c :: cs ∧ c.isDigit = true ∧ (c = '0' → cs = [] ∧ n = 0) := by
  induction n using Nat.strong_induction_on with
  | _ n ih =>
      by_cases hlt : n < 10
      · refine ⟨n.digitChar, [], Nat.toDigits_of_lt_base hlt, ?_, fun hzero => ⟨rfl, ?_⟩⟩
        · rw [Nat.isDigit_digitChar, decide_eq_true hlt]
        · exact Nat.digitChar_eq_zero.mp hzero
      · obtain ⟨c, cs, hdigits, hc, hzero⟩ := ih (n / 10) (by omega)
        refine ⟨c, cs ++ [(n % 10).digitChar], ?_, hc, fun h => ?_⟩
        · rw [Nat.toDigits_of_base_le (by decide) (by omega), hdigits]
          rfl
        · have := (hzero h).2
          omega

theorem integerPart_toDigits (n : Nat) {rest : List Char} (hrest : EndsNumber rest) :
    integerPart (Nat.toDigits 10 n ++ rest) = some (Nat.toDigits 10 n, rest) := by
  have hall : ∀ c ∈ Nat.toDigits 10 n, c.isDigit = true :=
    fun c hc => Nat.isDigit_of_mem_toDigits (by decide) (by decide) hc
  obtain ⟨c, cs, hdigits, hc, hzero⟩ := exists_toDigits n
  by_cases hc0 : c = '0'
  · obtain ⟨rfl, -⟩ := hzero hc0
    rw [hdigits, hc0]
    rfl
  · have hspan := span_digits hall hrest
    rw [hdigits] at hspan ⊢
    rw [List.cons_append] at hspan ⊢
    rw [integerPart, if_pos hc, hspan]
    exact hc0

theorem fractionPart_of_ends {rest : List Char} (h : EndsNumber rest) : fractionPart rest = ([], rest) := by
  cases rest with
  | nil => rfl
  | cons c cs =>
      rw [fractionPart]
      intro cs' heq
      cases heq
      exact (h '.' rfl).2.1 rfl

theorem exponentPart_of_ends {rest : List Char} (h : EndsNumber rest) : exponentPart rest = ([], rest) := by
  cases rest with
  | nil => rfl
  | cons c cs =>
      obtain ⟨-, -, hsmall, hcapital⟩ := h c rfl
      rw [exponentPart, if_neg (by simp [hsmall, hcapital])]

theorem scanNumber_dumpsInt (readFloat : List Char → Json) (n : Int) {rest : List Char}
    (hrest : EndsNumber rest) :
    scanNumber readFloat (dumpsInt n ++ rest) = some (.int n, rest) := by
  obtain ⟨c, cs, hdigits, hc, -⟩ := exists_toDigits n.natAbs
  have hminus : c ≠ '-' := by
    rintro rfl
    cases hc
  have hvalue : Nat.ofDigitChars 10 (Nat.toDigits 10 n.natAbs) 0 = n.natAbs :=
    Nat.ofDigitChars_toDigits (by decide) (by decide)
  have hwhole := integerPart_toDigits n.natAbs hrest
  unfold dumpsInt
  split
  · rename_i hneg
    have hsign : ('-' :: (Nat.toDigits 10 n.natAbs ++ rest)).takeWhile (· = '-') = ['-'] := by
      rw [hdigits]
      simp [hminus]
    have hvalue' : -((n.natAbs : Nat) : Int) = n := by omega
    simp only [scanNumber, List.cons_append, hsign, List.length_singleton, Nat.le_refl, if_true,
      List.drop_succ_cons, List.drop_zero, hwhole, Option.map_some, fractionPart_of_ends hrest,
      exponentPart_of_ends hrest, and_self, hvalue, List.cons_ne_nil, if_false, hvalue']
  · rename_i hpos
    have hsign : (Nat.toDigits 10 n.natAbs ++ rest).takeWhile (· = '-') = [] := by
      rw [hdigits]
      simp [hminus]
    have hvalue' : ((n.natAbs : Nat) : Int) = n := by omega
    simp only [scanNumber, hsign, List.length_nil, Nat.zero_le, if_true, List.drop_zero, hwhole,
      Option.map_some, fractionPart_of_ends hrest, exponentPart_of_ends hrest, and_self, hvalue,
      hvalue']

/-! ### Values are read back -/

mutual
/-- No number in the value was written with a fraction or an exponent. -/
def floatFree : Json → Bool
  | .dec _ => false
  | .arr items => floatFreeItems items
  | .obj fields => floatFreeFields fields
  | _ => true

def floatFreeItems : List Json → Bool
  | [] => true
  | v :: rest => floatFree v && floatFreeItems rest

def floatFreeFields : List (String × Json) → Bool
  | [] => true
  | (_, v) :: rest => floatFree v && floatFreeFields rest
end

mutual
/-- The fuel that reading the value takes. -/
def cost : Json → Nat
  | .arr items => 1 + costItems items
  | .obj fields => 1 + costFields fields
  | _ => 1

def costItems : List Json → Nat
  | [] => 0
  | v :: rest => 1 + cost v + costItems rest

def costFields : List (String × Json) → Nat
  | [] => 0
  | (_, v) :: rest => 1 + cost v + costFields rest
end

variable (reprFloat : ℚ → List Char) (readFloat : List Char → Json)

/-- The items of a list as they stand between the brackets, the closing one included. -/
def itemsText : List Json → List Char
  | [] => []
  | v :: rest => dumps reprFloat v ++ dumpsItems reprFloat rest

def fieldsText : List (String × Json) → List Char
  | [] => []
  | (key, v) :: rest =>
      dumpsString key ++ ':' :: ' ' :: (dumps reprFloat v ++ dumpsFields reprFloat rest)

/-- A text that begins a value: no white space and no closing bracket. -/
def BeginsValue (text : List Char) : Prop :=
  ∃ c cs, text = c :: cs ∧ c ≠ ' ' ∧ c ≠ '\t' ∧ c ≠ '\n' ∧ c ≠ '\r' ∧ c ≠ ']' ∧ c ≠ '}'

theorem BeginsValue.append {text : List Char} (h : BeginsValue text) (rest : List Char) :
    BeginsValue (text ++ rest) := by
  obtain ⟨c, cs, rfl, hc⟩ := h
  exact ⟨c, cs ++ rest, rfl, hc⟩

theorem BeginsValue.skip {text : List Char} (h : BeginsValue text) : Json.skip text = text := by
  obtain ⟨c, cs, rfl, hblank, htab, hline, hreturn, -⟩ := h
  exact List.dropWhile_cons_of_neg (by simp [hblank, htab, hline, hreturn])

theorem beginsValue_dumpsInt (n : Int) : BeginsValue (dumpsInt n) := by
  unfold dumpsInt
  split
  · exact ⟨'-', _, rfl, by decide⟩
  · obtain ⟨c, cs, hdigits, hc, -⟩ := exists_toDigits n.natAbs
    refine ⟨c, cs, hdigits, ?_⟩
    refine ⟨?_, ?_, ?_, ?_, ?_, ?_⟩ <;> rintro rfl <;> cases hc

theorem beginsValue_dumps {v : Json} (h : v.floatFree = true) : BeginsValue (dumps reprFloat v) := by
  cases v with
  | dec q => cases h
  | int n =>
      rw [dumps]
      exact beginsValue_dumpsInt n
  | null => exact ⟨'n', _, by rw [dumps], by decide⟩
  | bool b => cases b <;> exact ⟨_, _, by rw [dumps], by decide⟩
  | str s => exact ⟨'"', _, by rw [dumps]; rfl, by decide⟩
  | arr items => cases items <;> exact ⟨'[', _, by rw [dumps], by decide⟩
  | obj fields => cases fields <;> exact ⟨'{', _, by rw [dumps], by decide⟩

theorem scanOnce_number (fuel : Nat) {c : Char} (hc : c = '-' ∨ c.isDigit = true) (cs : List Char) :
    scanOnce readFloat (fuel + 1) (c :: cs) =
      (scanNumber readFloat (c :: cs)).or (scanConstant readFloat (c :: cs)) := by
  rw [scanOnce]
  all_goals
    intro cs' heq
    cases heq
    rcases hc with hc | hc <;> cases hc

theorem scanOnce_dumpsInt (n : Int) (fuel : Nat) {rest : List Char} (hrest : EndsNumber rest) :
    scanOnce readFloat (fuel + 1) (dumpsInt n ++ rest) = some (.int n, rest) := by
  have hhead : ∃ c cs, dumpsInt n = c :: cs ∧ (c = '-' ∨ c.isDigit = true) := by
    unfold dumpsInt
    split
    · exact ⟨'-', _, rfl, .inl rfl⟩
    · obtain ⟨c, cs, hdigits, hc, -⟩ := exists_toDigits n.natAbs
      exact ⟨c, cs, hdigits, .inr hc⟩
  obtain ⟨c, cs, hint, hc⟩ := hhead
  have hnumber := scanNumber_dumpsInt readFloat n hrest
  rw [hint, List.cons_append] at hnumber ⊢
  rw [scanOnce_number readFloat fuel hc, hnumber, Option.some_or]

theorem scanString_dumpsString (s : String) (rest : List Char) :
    scanString (s.toList.flatMap escapeChar ++ ['"'] ++ rest) = some (s.toList, rest) := by
  rw [List.append_assoc]
  exact scanString_flatMap s.toList rest

theorem endsNumber_items (items : List Json) (rest : List Char) :
    EndsNumber (dumpsItems reprFloat items ++ rest) := by
  cases items <;> (rw [dumpsItems]; intro c hc; cases hc; decide)

theorem endsNumber_fields (fields : List (String × Json)) (rest : List Char) :
    EndsNumber (dumpsFields reprFloat fields ++ rest) := by
  cases fields with
  | nil =>
      rw [dumpsFields]
      intro c hc
      cases hc
      decide
  | cons field fields =>
      rw [dumpsFields]
      intro c hc
      cases hc
      decide

theorem cost_pos (v : Json) : 0 < v.cost := by
  cases v <;> simp [cost]

theorem scanOnce_bracket {text : List Char} (h : BeginsValue text) (fuel : Nat) :
    scanOnce readFloat (fuel + 1) ('[' :: text) =
      (scanItems readFloat fuel text).map fun found => (.arr found.1, found.2) := by
  rw [scanOnce, h.skip]
  obtain ⟨c, cs, rfl, -, -, -, -, hbracket, -⟩ := h
  split
  · rename_i heq
    cases heq
    exact absurd rfl hbracket
  · rfl

theorem scanOnce_brace {text : List Char} (h : BeginsValue text) (fuel : Nat) :
    scanOnce readFloat (fuel + 1) ('{' :: text) =
      (scanFields readFloat fuel text).map fun found => (.obj found.1, found.2) := by
  rw [scanOnce, h.skip]
  obtain ⟨c, cs, rfl, -, -, -, -, -, hbrace⟩ := h
  split
  · rename_i heq
    cases heq
    exact absurd rfl hbrace
  · rfl

theorem skip_space {text : List Char} (h : BeginsValue text) : skip (' ' :: text) = text :=
  (List.dropWhile_cons_of_pos (by decide)).trans h.skip

theorem beginsValue_itemsText {items : List Json} (hfree : floatFreeItems items = true)
    (hne : items ≠ []) : BeginsValue (itemsText reprFloat items) := by
  cases items with
  | nil => exact absurd rfl hne
  | cons v rest =>
      rw [floatFreeItems, Bool.and_eq_true] at hfree
      exact (beginsValue_dumps reprFloat hfree.1).append _

theorem beginsValue_fieldsText {fields : List (String × Json)} (hne : fields ≠ []) :
    BeginsValue (fieldsText reprFloat fields) := by
  cases fields with
  | nil => exact absurd rfl hne
  | cons field rest => exact ⟨'"', _, rfl, by decide⟩

/-- After an item comes the bracket, or a comma and the other items. -/
theorem scanItems_cons {fuel : Nat} {v : Json} {items : List Json} {text rest : List Char}
    (hv : scanOnce readFloat fuel text = some (v, dumpsItems reprFloat items ++ rest))
    (hfree : floatFreeItems items = true)
    (hitems : items ≠ [] →
      scanItems readFloat fuel (itemsText reprFloat items ++ rest) = some (items, rest)) :
    scanItems readFloat (fuel + 1) text = some (v :: items, rest) := by
  rw [scanItems, hv]
  cases items with
  | nil =>
      rw [dumpsItems]
      rfl
  | cons w items =>
      have hbegins := (beginsValue_itemsText reprFloat hfree (List.cons_ne_nil w items)).append rest
      have htext : dumpsItems reprFloat (w :: items) ++ rest =
          ',' :: ' ' :: (itemsText reprFloat (w :: items) ++ rest) := by
        rw [dumpsItems, itemsText]
        rfl
      have hskip : skip (',' :: ' ' :: (itemsText reprFloat (w :: items) ++ rest)) =
          ',' :: ' ' :: (itemsText reprFloat (w :: items) ++ rest) :=
        List.dropWhile_cons_of_neg (by decide)
      simp only [htext, hskip, skip_space hbegins, hitems (List.cons_ne_nil w items), Option.map_some]

theorem scanFields_cons {fuel : Nat} {key : String} {v : Json} {fields : List (String × Json)}
    {text rest : List Char} (hbegins : BeginsValue text)
    (hv : scanOnce readFloat fuel text = some (v, dumpsFields reprFloat fields ++ rest))
    (hfields : fields ≠ [] →
      scanFields readFloat fuel (fieldsText reprFloat fields ++ rest) = some (fields, rest)) :
    scanFields readFloat (fuel + 1) (dumpsString key ++ ':' :: ' ' :: text) =
      some ((key, v) :: fields, rest) := by
  have hcolon : skip (':' :: ' ' :: text) = ':' :: ' ' :: text :=
    List.dropWhile_cons_of_neg (by decide)
  rw [dumpsString, List.cons_append, scanFields, scanString_dumpsString]
  simp only [hcolon, skip_space hbegins, hv]
  cases fields with
  | nil =>
      rw [dumpsFields, String.ofList_toList]
      rfl
  | cons field fields =>
      have hmore := (beginsValue_fieldsText reprFloat (List.cons_ne_nil field fields)).append rest
      have htext : dumpsFields reprFloat (field :: fields) ++ rest =
          ',' :: ' ' :: (fieldsText reprFloat (field :: fields) ++ rest) := by
        rw [dumpsFields, fieldsText]
        rfl
      have hskip : skip (',' :: ' ' :: (fieldsText reprFloat (field :: fields) ++ rest)) =
          ',' :: ' ' :: (fieldsText reprFloat (field :: fields) ++ rest) :=
        List.dropWhile_cons_of_neg (by decide)
      simp only [htext, hskip, skip_space hmore, hfields (List.cons_ne_nil field fields),
        Option.map_some, String.ofList_toList]

mutual
/-- Reading what was written gives the value back, whatever text follows it. -/
theorem scanOnce_dumps : ∀ (v : Json) (fuel : Nat) (rest : List Char), v.floatFree = true →
    v.cost ≤ fuel → EndsNumber rest →
    scanOnce readFloat fuel (dumps reprFloat v ++ rest) = some (v, rest)
  | v, 0, _, _, hcost, _ => absurd hcost (Nat.not_le.mpr (cost_pos v))
  | .null, fuel + 1, rest, _, _, _ => by
      rw [dumps]
      rfl
  | .bool true, fuel + 1, rest, _, _, _ => by
      rw [dumps]
      rfl
  | .bool false, fuel + 1, rest, _, _, _ => by
      rw [dumps]
      rfl
  | .int n, fuel + 1, rest, _, _, hrest => by
      rw [dumps]
      exact scanOnce_dumpsInt readFloat n fuel hrest
  | .str s, fuel + 1, rest, _, _, _ => by
      rw [dumps, dumpsString, List.cons_append, scanOnce, scanString_dumpsString, Option.map_some,
        String.ofList_toList]
  | .arr [], fuel + 1, rest, _, _, _ => by
      rw [dumps]
      rfl
  | .arr (v :: items), fuel + 1, rest, hfree, hcost, _ => by
      have hitems := scanItems_dumps (v :: items) fuel rest hfree
        (by simp only [cost] at hcost; omega) (List.cons_ne_nil v items)
      have hbegins := (beginsValue_itemsText reprFloat hfree (List.cons_ne_nil v items)).append rest
      rw [dumps, List.cons_append]
      exact (scanOnce_bracket readFloat hbegins fuel).trans (by rw [hitems]; rfl)
  | .obj [], fuel + 1, rest, _, _, _ => by
      rw [dumps]
      rfl
  | .obj ((key, v) :: fields), fuel + 1, rest, hfree, hcost, _ => by
      have hfields := scanFields_dumps ((key, v) :: fields) fuel rest hfree
        (by simp only [cost] at hcost; omega) (List.cons_ne_nil _ fields)
      have hbegins := (beginsValue_fieldsText reprFloat (List.cons_ne_nil (key, v) fields)).append rest
      rw [dumps, List.cons_append]
      exact (scanOnce_brace readFloat hbegins fuel).trans (by rw [hfields]; rfl)

theorem scanItems_dumps : ∀ (items : List Json) (fuel : Nat) (rest : List Char),
    floatFreeItems items = true → costItems items ≤ fuel → items ≠ [] →
    scanItems readFloat fuel (itemsText reprFloat items ++ rest) = some (items, rest)
  | [], _, _, _, _, hne => absurd rfl hne
  | _ :: _, 0, _, _, hcost, _ => by
      simp only [costItems] at hcost
      omega
  | v :: items, fuel + 1, rest, hfree, hcost, _ => by
      rw [floatFreeItems, Bool.and_eq_true] at hfree
      simp only [costItems] at hcost
      have hv := scanOnce_dumps v fuel (dumpsItems reprFloat items ++ rest) hfree.1 (by omega)
        (endsNumber_items reprFloat items rest)
      rw [itemsText, List.append_assoc]
      exact scanItems_cons reprFloat readFloat hv hfree.2
        (scanItems_dumps items fuel rest hfree.2 (by omega))

theorem scanFields_dumps : ∀ (fields : List (String × Json)) (fuel : Nat) (rest : List Char),
    floatFreeFields fields = true → costFields fields ≤ fuel → fields ≠ [] →
    scanFields readFloat fuel (fieldsText reprFloat fields ++ rest) = some (fields, rest)
  | [], _, _, _, _, hne => absurd rfl hne
  | _ :: _, 0, _, _, hcost, _ => by
      simp only [costFields] at hcost
      omega
  | (key, v) :: fields, fuel + 1, rest, hfree, hcost, _ => by
      rw [floatFreeFields, Bool.and_eq_true] at hfree
      simp only [costFields] at hcost
      have hv := scanOnce_dumps v fuel (dumpsFields reprFloat fields ++ rest) hfree.1 (by omega)
        (endsNumber_fields reprFloat fields rest)
      have hbegins := (beginsValue_dumps reprFloat hfree.1).append (dumpsFields reprFloat fields ++ rest)
      have htext : fieldsText reprFloat ((key, v) :: fields) ++ rest =
          dumpsString key ++ ':' :: ' ' ::
            (dumps reprFloat v ++ (dumpsFields reprFloat fields ++ rest)) := by
        simp only [fieldsText, List.append_assoc, List.cons_append]
      rw [htext]
      exact scanFields_cons reprFloat readFloat hbegins hv
        (scanFields_dumps fields fuel rest hfree.2 (by omega))
end

/-! ### Enough fuel -/

theorem length_dumpsInt_pos (n : Int) : 1 ≤ (dumpsInt n).length := by
  obtain ⟨c, cs, h, -⟩ := beginsValue_dumpsInt n
  rw [h]
  exact Nat.succ_le_succ (Nat.zero_le _)

mutual
theorem cost_le_length : ∀ v : Json, v.floatFree = true → v.cost ≤ (dumps reprFloat v).length
  | .null, _ => by simp [cost, dumps]
  | .bool true, _ => by simp [cost, dumps]
  | .bool false, _ => by simp [cost, dumps]
  | .int n, _ => by
      rw [dumps]
      exact length_dumpsInt_pos n
  | .str s, _ => by simp [cost, dumps, dumpsString]
  | .arr [], _ => by simp [cost, costItems, dumps]
  | .arr (v :: items), hfree => by
      have hle := costItems_le_length (v :: items) hfree
      simp only [itemsText] at hle
      simp only [cost, dumps, List.length_cons]
      omega
  | .obj [], _ => by simp [cost, costFields, dumps]
  | .obj ((key, v) :: fields), hfree => by
      have hle := costFields_le_length ((key, v) :: fields) hfree
      simp only [fieldsText] at hle
      simp only [cost, dumps, List.length_cons]
      omega

theorem costItems_le_length : ∀ items : List Json, floatFreeItems items = true →
    costItems items ≤ (itemsText reprFloat items).length
  | [], _ => Nat.zero_le _
  | [v], hfree => by
      rw [floatFreeItems, Bool.and_eq_true] at hfree
      have hv := cost_le_length v hfree.1
      simp only [costItems, itemsText, dumpsItems, List.length_append, List.length_singleton]
      omega
  | v :: w :: items, hfree => by
      rw [floatFreeItems, Bool.and_eq_true] at hfree
      have hv := cost_le_length v hfree.1
      have hrest := costItems_le_length (w :: items) hfree.2
      simp only [itemsText] at hrest
      rw [costItems, itemsText, dumpsItems]
      simp only [List.length_append, List.length_cons] at hrest ⊢
      omega

theorem costFields_le_length : ∀ fields : List (String × Json), floatFreeFields fields = true →
    costFields fields ≤ (fieldsText reprFloat fields).length
  | [], _ => Nat.zero_le _
  | [(key, v)], hfree => by
      rw [floatFreeFields, Bool.and_eq_true] at hfree
      have hv := cost_le_length v hfree.1
      simp only [costFields, fieldsText, dumpsFields, List.length_append, List.length_cons]
      omega
  | (key, v) :: field :: fields, hfree => by
      rw [floatFreeFields, Bool.and_eq_true] at hfree
      have hv := cost_le_length v hfree.1
      have hrest := costFields_le_length (field :: fields) hfree.2
      rw [costFields, fieldsText, dumpsFields]
      simp only [fieldsText, List.length_append, List.length_cons] at hrest ⊢
      omega
end

/-- `json.loads` reads what `json.dumps` has written. -/
theorem loads_dumps {v : Json} (hfree : v.floatFree = true) :
    loads readFloat (dumps reprFloat v) = some v := by
  have hscan := scanOnce_dumps reprFloat readFloat v (dumps reprFloat v).length [] hfree
    (cost_le_length reprFloat v hfree) (fun c hc => by cases hc)
  rw [List.append_nil] at hscan
  rw [loads, (beginsValue_dumps reprFloat hfree).skip, hscan]
  rfl

end Json

end SphereFx
