import Mathlib.Data.List.Basic
import Mathlib.Data.List.TakeWhile
import SphereFx.Base.Squeeze

/-!
# Texts as Go's `strings` and `unicode` treat them

A text is the list of its code points. Case mapping covers ASCII, Latin-1 and the letters outside it
that map into it; other letters are left as they are.
-/

namespace SphereFx.Text

/-- The common form of the letters that simple case folding identifies. -/
def foldKey (c : Char) : Char :=
  let n := c.toNat
  if 65 ≤ n ∧ n ≤ 90 then Char.ofNat (n + 32)
  else if 0xC0 ≤ n ∧ n ≤ 0xDE ∧ n ≠ 0xD7 then Char.ofNat (n + 32)
  else if n = 0x212A then 'k'
  else if n = 0x17F then 's'
  else if n = 0x212B then Char.ofNat 0xE5
  else if n = 0x178 then Char.ofNat 0xFF
  else if n = 0x1E9E then Char.ofNat 0xDF
  else if n = 0x39C ∨ n = 0x3BC then Char.ofNat 0xB5
  else c

/-- Equal up to case, as under `(?i)`. -/
def sameFold (a b : Char) : Bool := foldKey a == foldKey b

/-- `unicode.ToUpper`. -/
def upper (c : Char) : Char :=
  let n := c.toNat
  if 97 ≤ n ∧ n ≤ 122 then Char.ofNat (n - 32)
  else if 0xE0 ≤ n ∧ n ≤ 0xFE ∧ n ≠ 0xF7 then Char.ofNat (n - 32)
  else if n = 0xFF then Char.ofNat 0x178
  else if n = 0xB5 then Char.ofNat 0x39C
  else if n = 0x131 then 'I'
  else if n = 0x17F then 'S'
  else c

/-- `strings.ToUpper`. -/
def toUpper (text : List Char) : List Char := text.map upper

/-- `unicode.IsSpace`. -/
def isWhite (c : Char) : Bool :=
  let n := c.toNat
  (9 ≤ n && n ≤ 13) || n == 32 || n == 0x85 || n == 0xA0 || n == 0x1680 ||
    (0x2000 ≤ n && n ≤ 0x200A) || n == 0x2028 || n == 0x2029 || n == 0x202F || n == 0x205F ||
    n == 0x3000

/-- `strings.TrimSpace`. -/
def trimSpace (text : List Char) : List Char :=
  ((text.dropWhile isWhite).reverse.dropWhile isWhite).reverse

/-- `strings.ReplaceAll` of one character. -/
def replace (old : Char) (new : List Char) (text : List Char) : List Char :=
  text.flatMap fun c => if c = old then new else [c]

/-- What is left of the text after a prefix. -/
def afterPrefix? : List Char → List Char → Option (List Char)
  | [], text => some text
  | _ :: _, [] => none
  | c :: rest, d :: text => if c = d then afterPrefix? rest text else none

/-- The first pair whose old string starts the text: its new string and what follows. -/
def firstReplacement (pairs : List (List Char × List Char)) (text : List Char) :
    Option (List Char × List Char) :=
  pairs.findSome? fun pair => (afterPrefix? pair.1 text).map fun rest => (pair.2, rest)

/-- `strings.NewReplacer(..).Replace` for old strings that are not empty. -/
def replacePairs (pairs : List (List Char × List Char)) : Nat → List Char → List Char
  | 0, text => text
  | _ + 1, [] => []
  | fuel + 1, c :: rest =>
      match firstReplacement pairs (c :: rest) with
      | some (new, after) => new ++ replacePairs pairs fuel after
      | none => c :: replacePairs pairs fuel rest

theorem trimSpace_eq_self {text : List Char} (hfirst : ∀ c ∈ text.head?, isWhite c = false)
    (hlast : ∀ c ∈ text.getLast?, isWhite c = false) : trimSpace text = text :=
  trim_eq_self hfirst hlast

theorem trimSpace_word {text : List Char} (h : ∀ c ∈ text, isWhite c = false) :
    trimSpace text = text :=
  trimSpace_eq_self (fun c hc => h c (List.mem_of_mem_head? hc))
    (fun c hc => h c (List.mem_of_getLast? hc))

theorem exists_trimSpace (text : List Char) : ∃ lead trail, text = lead ++ (trimSpace text ++ trail) ∧
    (∀ c ∈ lead, isWhite c = true) ∧ ∀ c ∈ trail, isWhite c = true := by
  obtain ⟨lead, trail, htext, hlead, htrail, -⟩ := exists_trim isWhite text
  exact ⟨lead, trail, htext, hlead, htrail⟩

theorem trimSpace_append_left {lead text : List Char} (h : ∀ c ∈ lead, isWhite c = true) :
    trimSpace (lead ++ text) = trimSpace text :=
  trim_append_left h

theorem trimSpace_append_right {text trail : List Char} (h : ∀ c ∈ trail, isWhite c = true) :
    trimSpace (text ++ trail) = trimSpace text :=
  trim_append_right h

theorem trimSpace_white {text : List Char} (h : ∀ c ∈ text, isWhite c = true) :
    trimSpace text = [] := by
  rw [← List.append_nil text, trimSpace_append_left h]
  rfl

theorem mem_trimSpace {text : List Char} {c : Char} (hc : isWhite c = false) :
    c ∈ trimSpace text ↔ c ∈ text := by
  obtain ⟨lead, trail, htext, hlead, htrail⟩ := exists_trimSpace text
  have hnot : ∀ {side : List Char}, (∀ d ∈ side, isWhite d = true) → c ∉ side := by
    intro side hside hmem
    rw [hside c hmem] at hc
    cases hc
  conv_rhs => rw [htext]
  rw [List.mem_append, List.mem_append, or_iff_right (hnot hlead), or_iff_left (hnot htrail)]

/-- A text that begins with another character is trimmed at its end only. -/
theorem exists_trimSpace_of_head {text : List Char} (hne : text ≠ [])
    (hhead : ∀ c ∈ text.head?, isWhite c = false) : ∃ trail, text = trimSpace text ++ trail ∧
      (∀ c ∈ trail, isWhite c = true) ∧ trimSpace text ≠ [] ∧ (trimSpace text).head? = text.head? := by
  obtain ⟨lead, trail, htext, hlead, htrail⟩ := exists_trimSpace text
  obtain ⟨c, more, rfl⟩ := List.exists_cons_of_ne_nil hne
  have hc : isWhite c = false := hhead c rfl
  cases lead with
  | nil =>
      have hmem : c ∈ trimSpace (c :: more) := (mem_trimSpace hc).mpr List.mem_cons_self
      have hword := List.ne_nil_of_mem hmem
      rw [List.nil_append] at htext
      refine ⟨trail, htext, htrail, hword, ?_⟩
      conv_rhs => rw [htext]
      exact (List.head?_append_of_ne_nil _ hword).symm
  | cons d others =>
      have hwhite := hlead d List.mem_cons_self
      rw [← (List.cons.inj htext).1, hc] at hwhite
      cases hwhite

/-- Nothing is replaced in a text where no old string starts. -/
theorem replacePairs_eq_self {pairs : List (List Char × List Char)} {fuel : Nat} {text : List Char}
    (h : ∀ a b, text = a ++ b → b ≠ [] → firstReplacement pairs b = none) :
    replacePairs pairs fuel text = text := by
  induction fuel generalizing text with
  | zero => rfl
  | succ fuel ih =>
      cases text with
      | nil => rfl
      | cons c rest =>
          rw [replacePairs, h [] (c :: rest) rfl (List.cons_ne_nil c rest)]
          show c :: replacePairs pairs fuel rest = c :: rest
          rw [ih]
          intro a b hsplit hne
          exact h (c :: a) b (by rw [hsplit, List.cons_append]) hne

/-! ### Words with single spaces between them -/

def unwords : List (List Char) → List Char
  | [] => []
  | [w] => w
  | w :: rest => w ++ ' ' :: unwords rest

theorem unwords_cons {w : List Char} {words : List (List Char)} (h : words ≠ []) :
    unwords (w :: words) = w ++ ' ' :: unwords words := by
  cases words with
  | nil => exact absurd rfl h
  | cons v rest => rfl

theorem mem_unwords {words : List (List Char)} {c : Char} (h : c ∈ unwords words) :
    c = ' ' ∨ ∃ w ∈ words, c ∈ w := by
  induction words with
  | nil => cases h
  | cons w rest ih =>
      cases rest with
      | nil => exact Or.inr ⟨w, List.mem_singleton_self w, h⟩
      | cons v more =>
          rw [unwords_cons (List.cons_ne_nil v more), List.mem_append, List.mem_cons] at h
          rcases h with h | h | h
          · exact Or.inr ⟨w, List.mem_cons_self, h⟩
          · exact Or.inl h
          · rcases ih h with h | ⟨u, hu, hc⟩
            · exact Or.inl h
            · exact Or.inr ⟨u, List.mem_cons_of_mem w hu, hc⟩

theorem head_unwords {words : List (List Char)} (hne : ∀ w ∈ words, w ≠ []) :
    ∀ c ∈ (unwords words).head?, ∃ w ∈ words, c ∈ w := by
  intro c hc
  cases words with
  | nil => cases hc
  | cons w rest =>
      have hhead : (unwords (w :: rest)).head? = w.head? := by
        cases rest with
        | nil => rfl
        | cons v more =>
            rw [unwords_cons (List.cons_ne_nil v more),
              List.head?_append_of_ne_nil w (hne w List.mem_cons_self)]
      rw [hhead] at hc
      exact ⟨w, List.mem_cons_self, List.mem_of_mem_head? hc⟩

theorem last_unwords {words : List (List Char)} (hne : ∀ w ∈ words, w ≠ []) :
    ∀ c ∈ (unwords words).getLast?, ∃ w ∈ words, c ∈ w := by
  induction words with
  | nil =>
      intro c hc
      cases hc
  | cons w rest ih =>
      intro c hc
      cases rest with
      | nil => exact ⟨w, List.mem_singleton_self w, List.mem_of_getLast? hc⟩
      | cons v more =>
          obtain ⟨hw, hrest⟩ := List.forall_mem_cons.mp hne
          have hlast : unwords (v :: more) ≠ [] := by
            have hv := hne v (List.mem_cons_of_mem w List.mem_cons_self)
            cases more with
            | nil => exact hv
            | cons u others =>
                rw [unwords_cons (List.cons_ne_nil u others)]
                exact List.append_ne_nil_of_left_ne_nil hv _
          rw [unwords_cons (List.cons_ne_nil v more), ← List.singleton_append, ← List.append_assoc,
            List.getLast?_append_of_ne_nil _ hlast] at hc
          obtain ⟨u, hu, hcu⟩ := ih hrest c hc
          exact ⟨u, List.mem_cons_of_mem w hu, hcu⟩

-- A quantifier over the characters of a list or an option is decided by going through these, not
-- through all characters. The instances are switched on where such a statement is decided.
local instance (priority := 2000) decidableBAllChar (p : Char → Prop) [DecidablePred p]
    (chars : List Char) : Decidable (∀ c ∈ chars, p c) :=
  List.decidableBAll p chars

local instance (priority := 2000) decidableBExChar (p : Char → Prop) [DecidablePred p]
    (chars : List Char) : Decidable (∃ c ∈ chars, p c) :=
  List.decidableBEx p chars

local instance (priority := 2000) decidableForallMemChar (p : Char → Prop) [DecidablePred p]
    (char : Option Char) : Decidable (∀ c ∈ char, p c) :=
  Option.decidableForallMem char

end SphereFx.Text
