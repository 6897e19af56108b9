import Mathlib.Data.Fin.Basic
import Mathlib.Data.List.FinRange
import Mathlib.Tactic.Linarith

/-!
# Base64 as a tolerant decoder reads it

Python's `urlsafe_b64decode`. Both spellings of the digits 62 and 63 are taken, characters outside the
alphabet are discarded, padding where no digit can end is ignored, and the text ends with the padding
that completes a group. The bits of the last digit that belong to no byte are dropped. So many texts
decode to the same bytes, and `encode` gives the one without padding, foreign characters and loose bits.
-/

namespace SphereFx.Base64

abbrev Byte := Fin 256

/-- What a character stands for. -/
inductive Symbol where
  | digit (d : Fin 64)
  | pad
  | other
  deriving DecidableEq

/-- The URL-safe alphabet. -/
def letter (d : Fin 64) : Char :=
  if d.val < 26 then Char.ofNat (65 + d.val)
  else if d.val < 52 then Char.ofNat (71 + d.val)
  else if d.val < 62 then Char.ofNat (d.val - 4)
  else if d.val = 62 then '-'
  else '_'

def symbol (c : Char) : Symbol :=
  if c = '=' then .pad
  else if c = '+' then .digit 62
  else if c = '/' then .digit 63
  else
    match (List.finRange 64).find? fun d => letter d = c with
    | some d => .digit d
    | none => .other

/-- The place within a group of four digits, with the bits that have not made a byte. -/
inductive Quad where
  | zero
  | one (left : Fin 64)
  /-- `padded` once a padding character has been met here. -/
  | two (left : Fin 16) (padded : Bool)
  | three (left : Fin 4)

/-- The bytes of a text. The end is reached with a whole group or with enough padding. -/
def read : Quad → List Char → Option (List Byte)
  | .zero, [] => some []
  | _, [] => none
  | quad, c :: rest =>
      match symbol c, quad with
      | .other, quad => read quad rest
      | .pad, .two left false => read (.two left true) rest
      | .pad, .two _ true => some []
      | .pad, .three _ => some []
      | .pad, quad => read quad rest
      | .digit d, .zero => read (.one d) rest
      | .digit d, .one left =>
          (read (.two ⟨d.val % 16, by omega⟩ false) rest).map
            (⟨left.val * 4 + d.val / 16, by omega⟩ :: ·)
      | .digit d, .two left _ =>
          (read (.three ⟨d.val % 4, by omega⟩) rest).map (⟨left.val * 16 + d.val / 4, by omega⟩ :: ·)
      | .digit d, .three left =>
          (read .zero rest).map (⟨left.val * 64 + d.val, by omega⟩ :: ·)

/-- A text with a character beyond ASCII is refused before it is read. -/
def decode (text : List Char) : Option (List Byte) :=
  if text.all fun c => c.toNat < 128 then read .zero text else none

def firstDigit (a : Byte) : Fin 64 := ⟨a.val / 4, by omega⟩

def secondDigit (a b : Byte) : Fin 64 := ⟨a.val % 4 * 16 + b.val / 16, by omega⟩

def thirdDigit (b c : Byte) : Fin 64 := ⟨b.val % 16 * 4 + c.val / 64, by omega⟩

def fourthDigit (c : Byte) : Fin 64 := ⟨c.val % 64, by omega⟩

def digits : List Byte → List (Fin 64)
  | [] => []
  | [a] => [firstDigit a, secondDigit a 0]
  | [a, b] => [firstDigit a, secondDigit a b, thirdDigit b 0]
  | a :: b :: c :: rest =>
      firstDigit a :: secondDigit a b :: thirdDigit b c :: fourthDigit c :: digits rest

/-- The text of the alphabet alone. -/
def encode (bytes : List Byte) : List Char := (digits bytes).map letter

/-! ### Reading what was written -/

theorem symbol_letter : ∀ d, symbol (letter d) = .digit d := by decide +kernel

theorem letter_ascii : ∀ d, (letter d).toNat < 128 := by decide +kernel

theorem symbol_pad : symbol '=' = .pad := rfl

/-- Discarded characters can stand anywhere. -/
theorem read_discard {c : Char} (h : symbol c = .other) (quad : Quad) (before after : List Char) :
    read quad (before ++ c :: after) = read quad (before ++ after) := by
  induction before generalizing quad with
  | nil =>
      rw [List.nil_append, List.nil_append]
      cases quad <;> simp only [read, h]
  | cons b before ih =>
      rw [List.cons_append, List.cons_append]
      cases hb : symbol b with
      | other => cases quad <;> simp only [read, hb, ih]
      | pad =>
          cases quad with
          | zero => simp only [read, hb, ih]
          | one left => simp only [read, hb, ih]
          | two left padded => cases padded <;> simp only [read, hb, ih]
          | three left => simp only [read, hb]
      | digit d => cases quad <;> simp only [read, hb, ih]

theorem read_group (a b c : Byte) (rest : List Char) :
    read .zero (letter (firstDigit a) :: letter (secondDigit a b) :: letter (thirdDigit b c) ::
      letter (fourthDigit c) :: rest) = (read .zero rest).map ([a, b, c] ++ ·) := by
  simp only [read, symbol_letter, Option.map_map]
  congr 1
  funext bytes
  simp only [Function.comp_apply, firstDigit, secondDigit, thirdDigit, fourthDigit, List.cons_append,
    List.nil_append, List.cons.injEq, and_true, Fin.ext_iff]
  omega

theorem read_digits (bytes : List Byte) :
    read .zero ((digits bytes).map letter ++ ['=', '=']) = some bytes := by
  induction bytes using digits.induct with
  | case1 => rfl
  | case2 a =>
      simp only [digits, List.map_cons, List.map_nil, List.cons_append, List.nil_append, read,
        symbol_letter, symbol_pad, Option.map_some, Option.some.injEq, List.cons.injEq, and_true,
        Fin.ext_iff, firstDigit, secondDigit]
      omega
  | case3 a b =>
      simp only [digits, List.map_cons, List.map_nil, List.cons_append, List.nil_append, read,
        symbol_letter, symbol_pad, Option.map_some, Option.some.injEq, List.cons.injEq, and_true,
        Fin.ext_iff, firstDigit, secondDigit, thirdDigit]
      omega
  | case4 a b c rest ih =>
      simp only [digits, List.map_cons, List.cons_append]
      rw [read_group, ih]
      rfl

theorem mem_encode {bytes : List Byte} {c : Char} (h : c ∈ encode bytes) : ∃ d, c = letter d := by
  obtain ⟨d, -, rfl⟩ := List.mem_map.mp h
  exact ⟨d, rfl⟩

/-- The decoder reads every text the encoder writes, with the padding put behind it. -/
theorem decode_encode (bytes : List Byte) : decode (encode bytes ++ ['=', '=']) = some bytes := by
  have hascii : (encode bytes ++ ['=', '=']).all fun c => c.toNat < 128 := by
    rw [List.all_append, Bool.and_eq_true, List.all_eq_true]
    refine ⟨fun c hc => ?_, rfl⟩
    obtain ⟨d, rfl⟩ := mem_encode hc
    exact decide_eq_true (letter_ascii d)
  rw [decode, if_pos hascii]
  exact read_digits bytes

theorem decode_discard {c : Char} (h : symbol c = .other) (hascii : c.toNat < 128)
    (before after : List Char) : decode (before ++ c :: after) = decode (before ++ after) := by
  have hall : (before ++ c :: after).all (fun c => c.toNat < 128) =
      (before ++ after).all fun c => c.toNat < 128 := by
    rw [List.all_append, List.all_cons, decide_eq_true hascii, Bool.true_and, List.all_append]
  rw [decode, decode, hall, read_discard h]

end SphereFx.Base64
