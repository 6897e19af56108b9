import Mathlib.Data.Nat.Log
import SphereFx.Base.Float

/-!
# Reading and writing numbers as Go's `strconv` does

`ParseFloat` with signs, underscores, decimal and hexadecimal exponents, infinities and NaN. The value
is exact; only overflow, which is an error, and underflow, which gives zero, are those of `float64`.
-/

namespace SphereFx.Extractor

/-! ### `ParseFloat` -/

/-- A sign and what follows it. -/
def takeSign : List Char → Option Bool × List Char
  | '+' :: rest => (some false, rest)
  | '-' :: rest => (some true, rest)
  | text => (none, text)

theorem takeSign_eq {text : List Char} (h : ∀ c ∈ text.head?, c ≠ '+' ∧ c ≠ '-') :
    takeSign text = (none, text) := by
  unfold takeSign
  split
  · exact absurd rfl (h '+' rfl).1
  · exact absurd rfl (h '-' rfl).2
  · rfl

/-- The special values, in any case. -/
def specialFloat (text : List Char) : Option F64 :=
  let (sign, body) := takeSign text
  let word := String.ofList (body.map Char.toLower)
  if word = "inf" ∨ word = "infinity" then some (.inf (sign = some true))
  else if word = "nan" ∧ sign = none then some .nan
  else none

/-- The value of a digit in a base of at most sixteen. -/
def digitValue? (base : Nat) (c : Char) : Option Nat :=
  let n := c.toNat
  let value :=
    if 48 ≤ n ∧ n ≤ 57 then some (n - 48)
    else if 97 ≤ n ∧ n ≤ 102 then some (n - 87)
    else if 65 ≤ n ∧ n ≤ 70 then some (n - 55)
    else none
  value.filter (· < base)

def isDigitOf (base : Nat) (c : Char) : Bool := (digitValue? base c).isSome

/-- The value of a list of digits. -/
def digitsValue (base : Nat) (digits : List Char) : Nat :=
  digits.foldl (fun value c => value * base + (digitValue? base c).getD 0) 0

/-- `underscoreOK`, from the state left by the characters seen: a digit (`'0'`), an underscore (`'_'`),
the beginning (`'^'`) or anything else (`'!'`). -/
def underscoresFrom (hex : Bool) : Char → List Char → Bool
  | saw, [] => saw ≠ '_'
  | saw, c :: rest =>
      if isDigitOf (if hex then 16 else 10) c then underscoresFrom hex '0' rest
      else if c = '_' then saw = '0' && underscoresFrom hex '_' rest
      else saw ≠ '_' && underscoresFrom hex '!' rest

/-- The underscores of a number only separate digits, or a digit from a base prefix. -/
def underscoreOK (text : List Char) : Bool :=
  match (takeSign text).2 with
  | '0' :: c :: rest =>
      if c.toLower = 'b' ∨ c.toLower = 'o' ∨ c.toLower = 'x' then
        underscoresFrom (c.toLower = 'x') '0' rest
      else underscoresFrom false '^' ('0' :: c :: rest)
  | body => underscoresFrom false '^' body

/-- The digits before and after the point, and what follows them. -/
def takeMantissa (base : Nat) (text : List Char) : Option (List Char × List Char × List Char) :=
  let whole := text.takeWhile (isDigitOf base)
  let (frac, rest) := match text.dropWhile (isDigitOf base) with
    | '.' :: rest => (rest.takeWhile (isDigitOf base), rest.dropWhile (isDigitOf base))
    | rest => ([], rest)
  if whole = [] ∧ frac = [] then none else some (whole, frac, rest)

/-- An exponent that ends the text: sign and digits, which stop counting at five. -/
def takeExponent (mark : Char) : List Char → Option Int
  | c :: rest =>
      if c.toLower = mark then
        let (sign, digits) := takeSign rest
        if digits ≠ [] ∧ digits.all (isDigitOf 10) then
          let e := digits.foldl
            (fun e c => if e < 10000 then e * 10 + (digitValue? 10 c).getD 0 else e) 0
          some (if sign = some true then -(e : Int) else e)
        else none
      else none
  | [] => none

/-- The number `digits * base^shift`. -/
def scaled (digits : Nat) (base : Nat) (shift : Int) : ℚ :=
  match shift with
  | .ofNat n => digits * base ^ n
  | .negSucc n => (digits : ℚ) / base ^ (n + 1)

/-- The least magnitude that rounds to an infinity. -/
def overflow : ℚ := 2 ^ 1024 - 2 ^ 970

/-- The greatest magnitude that rounds to zero. -/
def underflow : ℚ := 1 / 2 ^ 1075

/-- A finite result, unless it is out of range. -/
def toFloat (negative : Bool) (q : ℚ) : Option F64 :=
  if overflow ≤ q then none
  else if q ≤ underflow then some (.fin 0)
  else some (.fin (if negative then -q else q))

/-- `readFloat` on a number without its sign and underscores. -/
def readUnsigned (negative : Bool) (text : List Char) : Option F64 :=
  match text with
  | '0' :: c :: d :: rest =>
      if c.toLower = 'x' then do
        let (whole, frac, rest) ← takeMantissa 16 (d :: rest)
        let e ← takeExponent 'p' rest
        toFloat negative (scaled (digitsValue 16 (whole ++ frac)) 2 (e - 4 * frac.length))
      else decimal text
  | _ => decimal text
where
  decimal (text : List Char) : Option F64 := do
    let (whole, frac, rest) ← takeMantissa 10 text
    let e ← if rest = [] then some 0 else takeExponent 'e' rest
    toFloat negative (scaled (digitsValue 10 (whole ++ frac)) 10 (e - frac.length))

/-- `strconv.ParseFloat(text, 64)`; `none` is an error. -/
def parseFloat (text : List Char) : Option F64 :=
  match specialFloat text with
  | some x => some x
  | none =>
      if text.all (· ≠ '_') || underscoreOK text then
        let (sign, body) := takeSign text
        readUnsigned (sign = some true) (body.filter (· ≠ '_'))
      else none

example : parseFloat "-1_0.5e1".toList = some (.fin (-105)) := by decide +kernel
example : parseFloat "0x1.8p-1".toList = some (.fin (3 / 4)) := by decide +kernel

/-! ### Which texts are special -/

private theorem isFinite_of_readUnsigned {negative : Bool} {text : List Char} {x : F64}
    (h : readUnsigned negative text = some x) : x.isFinite = true := by
  have htoFloat : ∀ {q : ℚ}, toFloat negative q = some x → x.isFinite = true := by
    intro q hq
    unfold toFloat at hq
    split at hq
    · cases hq
    · split at hq <;> cases hq <;> rfl
  have hdecimal : ∀ {text : List Char}, readUnsigned.decimal negative text = some x →
      x.isFinite = true := by
    intro text hdecimal
    obtain ⟨mantissa, -, hrest⟩ := Option.bind_eq_some_iff.mp hdecimal
    simp only at hrest
    split at hrest
    · exact htoFloat hrest
    · obtain ⟨e, -, hvalue⟩ := Option.bind_eq_some_iff.mp hrest
      exact htoFloat hvalue
  unfold readUnsigned at h
  split at h
  · split at h
    · obtain ⟨mantissa, -, hrest⟩ := Option.bind_eq_some_iff.mp h
      obtain ⟨e, -, hvalue⟩ := Option.bind_eq_some_iff.mp hrest
      exact htoFloat hvalue
    · exact hdecimal h
  · exact hdecimal h

private theorem not_isFinite_of_specialFloat {text : List Char} {x : F64} (h : specialFloat text = some x) :
    x.isFinite = false := by
  unfold specialFloat at h
  simp only at h
  split at h
  · cases h
    rfl
  · split at h <;> cases h
    rfl

/-- The infinities and NaN come from their names only. -/
theorem parseFloat_eq_special {text : List Char} {x : F64} :
    parseFloat text = some x ∧ x.isFinite = false ↔ specialFloat text = some x := by
  constructor
  · rintro ⟨hparse, hspecial⟩
    unfold parseFloat at hparse
    split at hparse
    · rename_i hword
      rw [hword, hparse]
    · split at hparse
      · rw [isFinite_of_readUnsigned hparse] at hspecial
        cases hspecial
      · cases hparse
  · intro h
    refine ⟨?_, not_isFinite_of_specialFloat h⟩
    rw [parseFloat, h]

/-- Every name of a special value has the letter n in it. -/
theorem letter_of_specialFloat {text : List Char} {x : F64} (h : specialFloat text = some x) :
    ∃ c ∈ text, c.toLower = 'n' := by
  have hsub : ∀ c ∈ (takeSign text).2, c ∈ text := by
    intro c hc
    unfold takeSign at hc
    split at hc
    · exact List.mem_cons_of_mem _ hc
    · exact List.mem_cons_of_mem _ hc
    · exact hc
  have hletter : ∀ word : String, 'n' ∈ word.toList →
      String.ofList ((takeSign text).2.map Char.toLower) = word → ∃ c ∈ text, c.toLower = 'n' := by
    rintro word hword rfl
    rw [String.toList_ofList] at hword
    obtain ⟨c, hc, hlower⟩ := List.mem_map.mp hword
    exact ⟨c, hsub c hc, hlower⟩
  unfold specialFloat at h
  simp only at h
  split at h
  · rename_i hword
    rcases hword with hword | hword
    · exact hletter _ (by decide) hword
    · exact hletter _ (by decide) hword
  · split at h
    · rename_i hword
      exact hletter _ (by decide) hword.1
    · cases h

/-! ### `Atoi` and `FormatFloat` -/

/-- `strconv.ParseUint(text, 10, 64)` after a number read so far: nothing at a character that is not a
digit, the greatest value once it is passed. -/
def parseUint : Nat → List Char → Option Nat
  | n, [] => some n
  | n, c :: rest =>
      match digitValue? 10 c with
      | none => none
      | some d => if 2 ^ 64 ≤ n * 10 + d then some (2 ^ 64 - 1) else parseUint (n * 10 + d) rest

/-- `strconv.Atoi` without its error: zero for what is not a number, the extreme value on overflow. -/
def atoi (text : List Char) : Int :=
  let (sign, digits) := takeSign text
  if digits = [] then 0
  else
    match parseUint 0 digits with
    | none => 0
    | some n => if sign = some true then -min n (2 ^ 63) else min n (2 ^ 63 - 1)

example : atoi "-7".toList = -7 := by decide
example : atoi "9999999999999999999x".toList = 0 := by decide
example : atoi "99999999999999999999x".toList = 2 ^ 63 - 1 := by decide

/-- The conversion `int32(n)`. -/
def toInt32 (n : Int) : Int := (n + 2 ^ 31) % 2 ^ 32 - 2 ^ 31

/-- The decimals of a number written out in full. -/
def decimalPlaces (q : ℚ) : Nat :=
  ((List.range (q.den.log2 + 1)).find? fun k => (q * 10 ^ k).den = 1).getD 0

/-- `countDecimalPlaces`: the infinities and NaN are written without a point. -/
def countDecimalPlaces : F64 → Nat
  | .fin q => decimalPlaces q
  | _ => 0

end SphereFx.Extractor
