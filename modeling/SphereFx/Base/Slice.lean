import Mathlib.Algebra.Ring.Int.Defs
import Mathlib.Algebra.Ring.Nat
import Mathlib.Data.List.Sort

/-!
# Slices

The slices of a program by their addresses. A length is an `int`, an index out of range is a panic, and
a slice changes only where its own address is written.
-/

namespace SphereFx

variable {α : Type}

/-- The elements of a slice, no more than an `int` counts. -/
@[ext] structure Slice (α : Type) where
  elements : List α
  length_lt : elements.length < 2 ^ 63

namespace Slice

def len (s : Slice α) : Int := s.elements.length

/-- `s[index]`. -/
def get? (s : Slice α) (index : Int) : Option α :=
  if 0 ≤ index then s.elements[index.toNat]? else none

/-- What `copy(dst, src)` leaves in `dst`: its own elements from the end of `src` on. -/
def overwrite (dst src : Slice α) : Slice α where
  elements := src.elements.take dst.elements.length ++ dst.elements.drop src.elements.length
  length_lt := by
    have hdst := dst.length_lt
    rw [List.length_append, List.length_take, List.length_drop]
    omega

def sorted (r : α → α → Prop) [DecidableRel r] (s : Slice α) : Slice α where
  elements := s.elements.insertionSort r
  length_lt := by
    rw [List.length_insertionSort]
    exact s.length_lt

theorem len_nonneg (s : Slice α) : 0 ≤ s.len := Int.natCast_nonneg _

theorem len_lt (s : Slice α) : s.len < 2 ^ 63 := by
  have hlength := s.length_lt
  unfold len
  omega

@[simp] theorem len_sorted (r : α → α → Prop) [DecidableRel r] (s : Slice α) :
    (s.sorted r).len = s.len :=
  congrArg Nat.cast (List.length_insertionSort r s.elements)

theorem overwrite_of_length {dst src : Slice α} (h : dst.elements.length = src.elements.length) :
    dst.overwrite src = src := by
  ext1
  simp only [overwrite, h, List.take_length]
  rw [← h, List.drop_length, List.append_nil]

theorem get?_natCast (s : Slice α) (i : ℕ) : s.get? i = s.elements[i]? := by
  rw [get?, if_pos (Int.natCast_nonneg i), Int.toNat_natCast]

end Slice

/-! ### Memory -/

/-- All slices so far. -/
abbrev Memory (α : Type) := List (Slice α)

/-- A computation on the memory; nothing comes back from a panic. -/
abbrev OnMemory (α β : Type) := StateT (Memory α) Option β

namespace OnMemory

def load (a : ℕ) : OnMemory α (Slice α) := fun m => m[a]?.map fun s => (s, m)

/-- `make([]T, n)`, with the zero of the type; a length that no slice has is a panic. -/
def make (zero : α) (n : Int) : OnMemory α ℕ := fun m =>
  if h : 0 ≤ n ∧ n < 2 ^ 63 then
    have hlength : (List.replicate n.toNat zero).length < 2 ^ 63 := by
      rw [List.length_replicate]
      omega
    some (m.length, m ++ [⟨List.replicate n.toNat zero, hlength⟩])
  else none

/-- A change of the slice at an address. -/
def modify (a : ℕ) (f : Slice α → Slice α) : OnMemory α Unit := fun m =>
  m[a]?.map fun s => ((), m.set a (f s))

def copy (dst src : ℕ) : OnMemory α Unit := do
  let s ← load src
  modify dst fun d => d.overwrite s

def sort (r : α → α → Prop) [DecidableRel r] (a : ℕ) : OnMemory α Unit :=
  modify a fun s => s.sorted r

def index (a : ℕ) (i : Int) : OnMemory α α := do
  let s ← load a
  StateT.lift (s.get? i)

variable {m : Memory α} {a : ℕ} {s last : Slice α}

theorem load_eq (h : m[a]? = some s) : load a m = some (s, m) := by
  rw [load, h]
  rfl

theorem getElem?_append (h : m[a]? = some s) : (m ++ [last])[a]? = some s := by
  obtain ⟨ha, -⟩ := List.getElem?_eq_some_iff.mp h
  rw [List.getElem?_append_left ha, h]

theorem make_eq (zero : α) (s : Slice α) :
    ∃ fresh : Slice α, fresh.elements.length = s.elements.length ∧
      make zero s.len m = some (m.length, m ++ [fresh]) := by
  refine ⟨⟨List.replicate s.len.toNat zero, ?_⟩, ?_, dif_pos ⟨s.len_nonneg, s.len_lt⟩⟩
  · rw [List.length_replicate]
    exact s.length_lt
  · exact List.length_replicate

theorem modify_last (f : Slice α → Slice α) :
    modify m.length f (m ++ [last]) = some ((), m ++ [f last]) := by
  simp [modify]

theorem copy_last (h : m[a]? = some s) (hlength : last.elements.length = s.elements.length) :
    copy m.length a (m ++ [last]) = some ((), m ++ [s]) := by
  have hcopied : last.overwrite s = s := Slice.overwrite_of_length hlength
  simp only [copy, bind, StateT.bind, load_eq (getElem?_append h), Option.bind_some, modify_last,
    hcopied]

theorem sort_last (r : α → α → Prop) [DecidableRel r] :
    sort r m.length (m ++ [last]) = some ((), m ++ [last.sorted r]) :=
  modify_last _

theorem index_last (i : Int) :
    index m.length i (m ++ [last]) = (last.get? i).map fun v => (v, m ++ [last]) := by
  have hload : load m.length (m ++ [last]) = some (last, m ++ [last]) :=
    load_eq (by rw [List.getElem?_concat_length])
  simp only [index, bind, StateT.bind, hload, Option.bind_some]
  cases last.get? i <;> rfl

end OnMemory

end SphereFx
