import Mathlib.Algebra.BigOperators.Ring.List
import Mathlib.Algebra.Order.BigOperators.Group.List
import Mathlib.Algebra.Order.Field.Basic

/-!
# Sums of squares about a centre

What a measure of spread needs of the values: it is nothing exactly when no value is away from the
centre.
-/

namespace SphereFx

universe u

theorem sum_of_constant {α : Type u} [Semiring α] {values : List α} {v : α}
    (h : ∀ w ∈ values, w = v) : values.sum = values.length * v := by
  rw [List.eq_replicate_of_mem h, List.sum_replicate, nsmul_eq_mul, List.length_replicate]

variable {α : Type u} [Field α] [LinearOrder α] [IsStrictOrderedRing α]

def squaresAbout (center : α) (values : List α) : α :=
  (values.map fun v => (v - center) * (v - center)).sum

theorem squaresAbout_nonneg (center : α) (values : List α) : 0 ≤ squaresAbout center values := by
  apply List.sum_nonneg
  intro square hsquare
  obtain ⟨v, -, rfl⟩ := List.mem_map.mp hsquare
  exact mul_self_nonneg _

theorem squaresAbout_eq_zero_iff {center : α} {values : List α} :
    squaresAbout center values = 0 ↔ ∀ v ∈ values, v = center := by
  induction values with
  | nil => simp [squaresAbout]
  | cons v rest ih =>
      have hsplit : squaresAbout center (v :: rest) =
          (v - center) * (v - center) + squaresAbout center rest := List.sum_cons
      rw [hsplit, add_eq_zero_iff_of_nonneg (mul_self_nonneg _) (squaresAbout_nonneg _ _), ih,
        mul_self_eq_zero, sub_eq_zero, List.forall_mem_cons]

theorem squaresAbout_mean_eq_zero_iff {values : List α} (hne : values ≠ []) :
    squaresAbout (values.sum / values.length) values = 0 ↔ ∀ v ∈ values, ∀ w ∈ values, v = w := by
  rw [squaresAbout_eq_zero_iff]
  constructor
  · intro h v hv w hw
    exact (h v hv).trans (h w hw).symm
  · intro h v hv
    have hlength : (values.length : α) ≠ 0 :=
      Nat.cast_ne_zero.mpr (List.length_pos_iff.mpr hne).ne'
    rw [sum_of_constant fun w hw => h w hw v hv, mul_div_cancel_left₀ _ hlength]

theorem squaresAbout_pos {center : α} {values : List α} (hne : values ≠ [])
    (h : ∀ v ∈ values, v < center) : 0 < squaresAbout center values := by
  apply lt_of_le_of_ne (squaresAbout_nonneg _ _)
  intro hzero
  obtain ⟨v, hv⟩ := List.exists_mem_of_ne_nil values hne
  exact (h v hv).ne (squaresAbout_eq_zero_iff.mp hzero.symm v hv)

/-- A mean is compared with a number as the sum is with its multiple, so some value is below the
number if the mean is. -/
theorem exists_lt_of_mean_lt {values : List α} {target : α} (hne : values ≠ [])
    (h : values.sum / values.length < target) : ∃ v ∈ values, v < target := by
  by_contra hall
  push Not at hall
  have hlength : (0 : α) < values.length := Nat.cast_pos.mpr (List.length_pos_iff.mpr hne)
  rw [div_lt_iff₀ hlength] at h
  have hsum : values.length • target ≤ values.sum := List.card_nsmul_le_sum values target hall
  rw [nsmul_eq_mul, mul_comm] at hsum
  exact absurd h (not_lt.mpr hsum)

end SphereFx
