import Mathlib.Data.List.Nodup
import Mathlib.Data.List.Perm.Basic
import Mathlib.Data.List.ReduceOption

/-!
# Slot tables and cursors

A hash table as an iterator sees it: a list of slots of which some are free. A removal frees a slot and
an insertion takes a free one, unless the table is laid out anew. A cursor is the position of the next
slot to look at, and meets an element that keeps its slot exactly once.
-/

namespace SphereFx

/-- The slots of a table in the order an iteration goes through them. -/
abbrev Slots (α : Type) := List (Option α)

namespace Slots

variable {α : Type}

/-- The elements, in the order of their slots. -/
abbrev elems (s : Slots α) : List α := s.reduceOption

theorem mem_elems {s : Slots α} {x : α} : x ∈ s.elems ↔ ∃ i : Nat, s[i]? = some (some x) := by
  rw [List.reduceOption_mem_iff, List.mem_iff_getElem?]

/-- No element of the first table has another slot in the second, and the table has not been resized. -/
structure Keeps (s s' : Slots α) : Prop where
  length : s'.length = s.length
  slot : ∀ (i : Nat) (x : α), s[i]? = some (some x) → x ∈ s'.elems → s'[i]? = some (some x)

theorem Keeps.refl (s : Slots α) : Keeps s s := ⟨rfl, fun _ _ h _ => h⟩

section Changes

variable [DecidableEq α]

/-- An insertion, after which the table has a given layout if that has the right elements. -/
def add (s : Slots α) (x : α) (layout : Slots α) : Slots α :=
  if x ∈ s.elems then s else if layout.elems.Perm (x :: s.elems) then layout else s ++ [some x]

def discard (s : Slots α) (x : α) : Slots α := s.map fun slot => if slot = some x then none else slot

theorem elems_add_perm {s : Slots α} {x : α} (layout : Slots α) (h : x ∉ s.elems) :
    (s.add x layout).elems.Perm (x :: s.elems) := by
  rw [add, if_neg h]
  split
  · rename_i hlayout
    exact hlayout
  · rw [elems, List.reduceOption_append]
    exact List.perm_append_singleton x _

theorem mem_add {s : Slots α} {x y : α} {layout : Slots α} :
    y ∈ (s.add x layout).elems ↔ y = x ∨ y ∈ s.elems := by
  by_cases h : x ∈ s.elems
  · rw [add, if_pos h]
    exact ⟨Or.inr, fun hy => hy.elim (fun heq => heq ▸ h) id⟩
  · rw [(elems_add_perm layout h).mem_iff, List.mem_cons]

theorem nodup_add {s : Slots α} (h : s.elems.Nodup) (x : α) (layout : Slots α) :
    (s.add x layout).elems.Nodup := by
  by_cases hx : x ∈ s.elems
  · rw [add, if_pos hx]
    exact h
  · exact (elems_add_perm layout hx).nodup_iff.mpr (List.nodup_cons.mpr ⟨hx, h⟩)

theorem elems_discard (s : Slots α) (x : α) : (s.discard x).elems = s.elems.filter (· ≠ x) := by
  induction s with
  | nil => rfl
  | cons slot rest ih =>
      cases slot with
      | none =>
          show elems (none :: discard rest x) = _
          rw [elems, List.reduceOption_cons_of_none, elems, List.reduceOption_cons_of_none]
          exact ih
      | some y =>
          by_cases h : y = x
          · have hslot : discard (some y :: rest) x = none :: discard rest x := by simp [discard, h]
            rw [hslot, elems, List.reduceOption_cons_of_none, elems, List.reduceOption_cons_of_some,
              List.filter_cons_of_neg (by simpa using h)]
            exact ih
          · have hslot : discard (some y :: rest) x = some y :: discard rest x := by
              simp [discard, h]
            rw [hslot, elems, List.reduceOption_cons_of_some, elems, List.reduceOption_cons_of_some,
              List.filter_cons_of_pos (by simpa using h)]
            exact congrArg (y :: ·) ih

theorem mem_discard {s : Slots α} {x y : α} : y ∈ (s.discard x).elems ↔ y ∈ s.elems ∧ y ≠ x := by
  rw [elems_discard, List.mem_filter, decide_eq_true_eq]

theorem nodup_discard {s : Slots α} (h : s.elems.Nodup) (x : α) : (s.discard x).elems.Nodup := by
  rw [elems_discard]
  exact h.filter _

theorem keeps_discard (s : Slots α) (x : α) : Keeps s (s.discard x) where
  length := List.length_map _
  slot := by
    intro i y hi hy
    have hne : y ≠ x := (mem_discard.mp hy).2
    rw [discard, List.getElem?_map, hi, Option.map_some, if_neg (by simpa using hne)]

end Changes

/-! ### Cursors -/

/-- The first element of a table whose slots are numbered from `i`. -/
def scan : Slots α → Nat → Option (Nat × α)
  | [], _ => none
  | none :: rest, i => scan rest (i + 1)
  | some x :: _, i => some (i, x)

/-- The first element at or after a position. -/
def nextFrom (s : Slots α) (i : Nat) : Option (Nat × α) := scan (s.drop i) i

theorem scan_eq_none {s : Slots α} {i k : Nat} {y : α} (h : scan s i = none) :
    s[k]? ≠ some (some y) := by
  induction s generalizing i k with
  | nil => simp
  | cons slot rest ih =>
      cases slot with
      | none =>
          cases k with
          | zero => simp
          | succ k => exact ih h
      | some x => cases h

theorem scan_eq_some {s : Slots α} {i j : Nat} {x : α} (h : scan s i = some (j, x)) :
    ∃ k, j = i + k ∧ s[k]? = some (some x) ∧ ∀ m < k, ∀ y, s[m]? ≠ some (some y) := by
  induction s generalizing i with
  | nil => cases h
  | cons slot rest ih =>
      cases slot with
      | none =>
          obtain ⟨k, hj, hk, hfree⟩ := ih h
          refine ⟨k + 1, by omega, hk, fun m hm y => ?_⟩
          cases m with
          | zero => simp
          | succ m => exact hfree m (by omega) y
      | some other =>
          cases h
          exact ⟨0, rfl, rfl, fun m hm => absurd hm (Nat.not_lt_zero m)⟩

theorem lt_of_nextFrom_none {s : Slots α} {i k : Nat} {y : α} (h : s.nextFrom i = none)
    (hk : s[k]? = some (some y)) : k < i := by
  by_contra hge
  have hdrop : (s.drop i)[k - i]? = some (some y) := by
    rw [List.getElem?_drop, Nat.add_sub_cancel' (Nat.le_of_not_lt hge)]
    exact hk
  exact scan_eq_none h hdrop

theorem nextFrom_eq_some {s : Slots α} {i j : Nat} {x : α} (h : s.nextFrom i = some (j, x)) :
    i ≤ j ∧ s[j]? = some (some x) := by
  obtain ⟨k, rfl, hk, -⟩ := scan_eq_some h
  rw [List.getElem?_drop] at hk
  exact ⟨Nat.le_add_right i k, hk⟩

theorem nextFrom_cases {s : Slots α} {i j k : Nat} {x y : α} (h : s.nextFrom i = some (j, x))
    (hk : s[k]? = some (some y)) : k < i ∨ k = j ∨ j < k := by
  obtain ⟨m, rfl, -, hfree⟩ := scan_eq_some h
  by_contra hbetween
  have hle : i ≤ k := by omega
  have hdrop : (s.drop i)[k - i]? = some (some y) := by
    rw [List.getElem?_drop, Nat.add_sub_cancel' hle]
    exact hk
  exact hfree (k - i) (by omega) y hdrop

theorem nextFrom_isSome {s : Slots α} (h : s.elems ≠ []) : (s.nextFrom 0).isSome = true := by
  obtain ⟨x, hx⟩ := List.exists_mem_of_ne_nil _ h
  obtain ⟨k, hk⟩ := mem_elems.mp hx
  cases hnext : s.nextFrom 0 with
  | some found => rfl
  | none => exact absurd (lt_of_nextFrom_none hnext hk) (Nat.not_lt_zero k)

theorem slot_unique {s : Slots α} (h : s.elems.Nodup) {i j : Nat} {x : α}
    (hi : s[i]? = some (some x)) (hj : s[j]? = some (some x)) : i = j := by
  induction s generalizing i j with
  | nil => simp at hi
  | cons slot rest ih =>
      cases slot with
      | none =>
          cases i with
          | zero => simp at hi
          | succ i =>
              cases j with
              | zero => simp at hj
              | succ j => exact congrArg (· + 1) (ih h hi hj)
      | some y =>
          have hnodup : y ∉ elems rest ∧ (elems rest).Nodup := List.nodup_cons.mp h
          cases i with
          | zero =>
              obtain rfl : y = x := by simpa using hi
              cases j with
              | zero => rfl
              | succ j => exact absurd (mem_elems.mpr ⟨j, hj⟩) hnodup.1
          | succ i =>
              cases j with
              | zero =>
                  obtain rfl : y = x := by simpa using hj
                  exact absurd (mem_elems.mpr ⟨i, hi⟩) hnodup.1
              | succ j => exact congrArg (· + 1) (ih hnodup.2 hi hj)

/-- An element has been met once if its slot is before the cursor, and not at all otherwise. -/
def MetOnce [DecidableEq α] (met : List α) (slot cursor : Nat) (x : α) : Prop :=
  met.count x = if slot < cursor then 1 else 0

section Meetings

variable [DecidableEq α] {s : Slots α} {met : List α} {i j k : Nat} {x y : α}

/-- The next element is met, and no other. -/
theorem metOnce_next (hnodup : s.elems.Nodup) (h : s.nextFrom i = some (j, x))
    (hk : s[k]? = some (some y)) (hmet : MetOnce met k i y) : MetOnce (x :: met) k (j + 1) y := by
  obtain ⟨hij, hj⟩ := nextFrom_eq_some h
  unfold MetOnce at hmet ⊢
  by_cases hsame : x = y
  · have hslot : k = j := slot_unique hnodup hk (hsame ▸ hj)
    rw [hsame, List.count_cons_self, hmet, if_neg (by omega), if_pos (by omega)]
  · have hslot : k ≠ j := by
      rintro rfl
      rw [hj] at hk
      exact hsame (Option.some.inj (Option.some.inj hk))
    have hside : k < i ↔ k < j + 1 := by
      rcases nextFrom_cases h hk with hbefore | hat | hahead <;> omega
    rw [List.count_cons_of_ne hsame, hmet]
    simp only [hside]

theorem count_of_exhausted (h : s.nextFrom i = none) (hk : s[k]? = some (some y))
    (hmet : MetOnce met k i y) : met.count y = 1 := by
  rw [hmet, if_pos (lt_of_nextFrom_none h hk)]

end Meetings

end Slots

end SphereFx
