import Mathlib.Algebra.Order.Group.Defs
import Mathlib.Algebra.Order.Group.Unbundled.Basic
import Mathlib.Algebra.Order.Ring.Defs
import Mathlib.Order.Bounds.Image

/-!
# The greatest fall of a sequence

A fall goes from one place of a sequence to a later one. The greatest of the quadratically many falls
is found in one pass that keeps the greatest value so far and the greatest fall so far.
-/

namespace SphereFx

universe u

variable {α : Type u}

/-- The differences of a value and a later one, or itself. -/
def Falls [Sub α] (values : List α) : Set α :=
  {d | ∃ i j, ∃ (hij : i ≤ j) (hj : j < values.length), values[i] - values[j] = d}

section Falls

variable [AddCommGroup α]

/-- The falls of a longer sequence are the old ones and those to the new value. -/
theorem falls_concat (values : List α) (v : α) :
    Falls (values ++ [v]) = Falls values ∪ (fun x => x - v) '' {x | x ∈ values ++ [v]} := by
  ext d
  constructor
  · rintro ⟨i, j, hij, hj, rfl⟩
    rw [List.length_append, List.length_singleton] at hj
    rcases Nat.lt_succ_iff_lt_or_eq.mp hj with hold | hlast
    · refine Or.inl ⟨i, j, hij, hold, ?_⟩
      rw [List.getElem_append_left (Nat.lt_of_le_of_lt hij hold), List.getElem_append_left hold]
    · refine Or.inr ⟨_, List.getElem_mem (Nat.lt_of_le_of_lt hij ?_), ?_⟩
      · rw [List.length_append, List.length_singleton]
        exact hj
      · subst hlast
        rw [List.getElem_concat_length rfl]
  · rintro (⟨i, j, hij, hj, rfl⟩ | ⟨x, hx, rfl⟩)
    · refine ⟨i, j, hij, ?_, ?_⟩
      · rw [List.length_append]
        exact Nat.lt_add_right _ hj
      · rw [List.getElem_append_left (Nat.lt_of_le_of_lt hij hj), List.getElem_append_left hj]
    · obtain ⟨i, hi, rfl⟩ := List.getElem_of_mem hx
      have hlength : (values ++ [v]).length = values.length + 1 := List.length_append
      rw [hlength] at hi
      refine ⟨i, values.length, Nat.lt_succ_iff.mp hi, ?_, ?_⟩
      · rw [hlength]
        exact Nat.lt_succ_self _
      · rw [List.getElem_concat_length rfl]

theorem falls_mono (values more : List α) : Falls values ⊆ Falls (values ++ more) := by
  rintro d ⟨i, j, hij, hj, rfl⟩
  refine ⟨i, j, hij, ?_, ?_⟩
  · rw [List.length_append]
    exact Nat.lt_add_right _ hj
  · rw [List.getElem_append_left (Nat.lt_of_le_of_lt hij hj), List.getElem_append_left hj]

theorem zero_mem_falls {values : List α} (h : values ≠ []) : 0 ∈ Falls values :=
  ⟨0, 0, le_rfl, List.length_pos_iff.mpr h, sub_self _⟩

/-- A sequence that starts with `e` falls from `e` or within the rest. -/
theorem mem_falls_cons {e : α} {rest : List α} {d : α} :
    d ∈ Falls (e :: rest) ↔ (∃ x ∈ e :: rest, e - x = d) ∨ d ∈ Falls rest := by
  constructor
  · rintro ⟨i, j, hij, hj, rfl⟩
    cases i with
    | zero => exact Or.inl ⟨_, List.getElem_mem hj, rfl⟩
    | succ i =>
        cases j with
        | zero => exact absurd hij (Nat.not_succ_le_zero i)
        | succ j => exact Or.inr ⟨i, j, Nat.le_of_succ_le_succ hij, Nat.lt_of_succ_lt_succ hj, rfl⟩
  · rintro (⟨x, hx, rfl⟩ | ⟨i, j, hij, hj, rfl⟩)
    · obtain ⟨j, hj, rfl⟩ := List.getElem_of_mem hx
      exact ⟨0, j, Nat.zero_le j, hj, rfl⟩
    · exact ⟨i + 1, j + 1, Nat.succ_le_succ hij, Nat.succ_lt_succ hj, rfl⟩

theorem falls_add_const (values : List α) (c : α) : Falls (values.map (· + c)) = Falls values := by
  ext d
  simp only [Falls, List.length_map, List.getElem_map, add_sub_add_right_eq_sub]

end Falls

section Pass

variable [AddCommGroup α] [LinearOrder α]

/-- The pass, from the greatest fall and the greatest value so far. -/
def fallFrom : α → α → List α → α
  | best, _, [] => best
  | best, peak, v :: rest => fallFrom (max best (max peak v - v)) (max peak v) rest

/-- The greatest fall; an empty sequence has none and counts as flat. -/
def greatestFall : List α → α
  | [] => 0
  | v :: rest => fallFrom 0 v rest

/-- A start in front of a sequence adds no fall beyond `q` if no value lies deeper below it. -/
theorem isGreatest_falls_cons_iff {e q : α} {values : List α} (hne : values ≠ [])
    (h : IsGreatest (Falls values) q) :
    IsGreatest (Falls (e :: values)) q ↔ ∀ x ∈ values, e - x ≤ q := by
  constructor
  · exact fun hall x hx => hall.2 (mem_falls_cons.mpr (Or.inl ⟨x, List.mem_cons_of_mem e hx, rfl⟩))
  · intro hlow
    refine ⟨mem_falls_cons.mpr (Or.inr h.1), ?_⟩
    intro d hd
    rcases mem_falls_cons.mp hd with ⟨x, hx, rfl⟩ | hlater
    · rcases List.mem_cons.mp hx with rfl | hx
      · rw [sub_self]
        exact h.2 (zero_mem_falls hne)
      · exact hlow x hx
    · exact h.2 hlater

variable [IsOrderedAddMonoid α]

/-- The values read before carry the invariant: `peak` is the greatest of them and `best` their
greatest fall. -/
theorem isGreatest_fallFrom {before : List α} {best peak : α} (rest : List α)
    (hpeak : IsGreatest {x | x ∈ before} peak) (hbest : IsGreatest (Falls before) best) :
    IsGreatest (Falls (before ++ rest)) (fallFrom best peak rest) := by
  induction rest generalizing before best peak with
  | nil => rwa [List.append_nil]
  | cons v rest ih =>
      have hpeak' : IsGreatest {x | x ∈ before ++ [v]} (max peak v) := by
        have hmembers : {x | x ∈ before ++ [v]} = insert v {x | x ∈ before} := by
          ext x
          simp [or_comm]
        rw [hmembers, max_comm]
        exact hpeak.insert v
      have hfall : IsGreatest ((fun x => x - v) '' {x | x ∈ before ++ [v]}) (max peak v - v) :=
        Monotone.map_isGreatest (fun x y h => sub_le_sub_right h v) hpeak'
      have hbest' : IsGreatest (Falls (before ++ [v])) (max best (max peak v - v)) := by
        rw [falls_concat]
        exact hbest.union hfall
      rw [List.append_cons]
      exact ih hpeak' hbest'

theorem isGreatest_greatestFall {values : List α} (h : values ≠ []) :
    IsGreatest (Falls values) (greatestFall values) := by
  obtain ⟨v, rest, rfl⟩ := List.exists_cons_of_ne_nil h
  have hpeak : IsGreatest {x | x ∈ [v]} v := by
    simp only [List.mem_singleton, Set.ofPred_eq_eq_singleton]
    exact isGreatest_singleton
  have hbest : IsGreatest (Falls [v]) 0 := by
    refine ⟨zero_mem_falls (List.cons_ne_nil v []), ?_⟩
    rintro d ⟨i, j, hij, hj, rfl⟩
    have hj0 : j = 0 := Nat.lt_one_iff.mp hj
    subst hj0
    obtain rfl := Nat.le_zero.mp hij
    exact (sub_self _).le
  exact isGreatest_fallFrom rest hpeak hbest

theorem greatestFall_nonneg (values : List α) : 0 ≤ greatestFall values := by
  cases values with
  | nil => exact le_rfl
  | cons v rest =>
      have hne : v :: rest ≠ [] := List.cons_ne_nil v rest
      exact (isGreatest_greatestFall hne).2 (zero_mem_falls hne)

theorem greatestFall_add_const (values : List α) (c : α) :
    greatestFall (values.map (· + c)) = greatestFall values := by
  by_cases h : values = []
  · rw [h, List.map_nil]
  · have hshifted := isGreatest_greatestFall (mt List.map_eq_nil_iff.mp h : values.map (· + c) ≠ [])
    rw [falls_add_const] at hshifted
    exact hshifted.unique (isGreatest_greatestFall h)

theorem greatestFall_le_append (values more : List α) :
    greatestFall values ≤ greatestFall (values ++ more) := by
  by_cases h : values = []
  · rw [h]
    exact greatestFall_nonneg _
  · exact (isGreatest_greatestFall h).mono
      (isGreatest_greatestFall (List.append_ne_nil_of_left_ne_nil h more)) (falls_mono values more)

end Pass

section Scaling

theorem falls_mul [Ring α] (values : List α) (a : α) :
    Falls (values.map (a * ·)) = (a * ·) '' Falls values := by
  ext d
  constructor
  · rintro ⟨i, j, hij, hj, rfl⟩
    rw [List.length_map] at hj
    refine ⟨_, ⟨i, j, hij, hj, rfl⟩, ?_⟩
    simp only [List.getElem_map, mul_sub]
  · rintro ⟨_, ⟨i, j, hij, hj, rfl⟩, rfl⟩
    refine ⟨i, j, hij, (List.length_map _).symm ▸ hj, ?_⟩
    simp only [List.getElem_map, mul_sub]

theorem greatestFall_mul [Ring α] [LinearOrder α] [IsOrderedRing α] (values : List α) {a : α} (ha : 0 ≤ a) :
    greatestFall (values.map (a * ·)) = a * greatestFall values := by
  by_cases h : values = []
  · rw [h]
    exact (mul_zero a).symm
  · have hscaled := isGreatest_greatestFall (mt List.map_eq_nil_iff.mp h : values.map (a * ·) ≠ [])
    rw [falls_mul] at hscaled
    exact hscaled.unique (Monotone.map_isGreatest (fun x y hxy => mul_le_mul_of_nonneg_left hxy ha)
      (isGreatest_greatestFall h))

end Scaling

end SphereFx
