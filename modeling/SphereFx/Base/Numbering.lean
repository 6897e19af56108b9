import Mathlib.Data.Finset.Max
import Mathlib.Data.Int.Interval
import Mathlib.Order.Interval.Finset.Basic

/-!
# Handing out the numbers that are not in use

The numbers above a limit are taken in increasing order, those in use left out. Which of them have been
taken is told by how many unused numbers lie below.
-/

namespace SphereFx.Numbering

variable {α : Type} [LinearOrder α] [LocallyFiniteOrder α]

/-- How many numbers strictly between two are not in use. -/
def free (used : Finset α) (low high : α) : ℕ := (Finset.Ioo low high \ used).card

/-- The first `n` unused numbers above a limit. -/
def Taken (used : Finset α) (low : α) (n : ℕ) (x : α) : Prop :=
  low < x ∧ x ∉ used ∧ free used low x < n

variable {used : Finset α} {low x y : α} {n : ℕ}

theorem mem_unused : y ∈ Finset.Ioo low x \ used ↔ (low < y ∧ y < x) ∧ y ∉ used := by
  rw [Finset.mem_sdiff, Finset.mem_Ioo]

theorem free_mono (h : x ≤ y) : free used low x ≤ free used low y :=
  Finset.card_le_card (Finset.sdiff_subset_sdiff (Finset.Ioo_subset_Ioo_right h) subset_rfl)

theorem free_lt_free (hlow : low < x) (hx : x ∉ used) (h : x < y) :
    free used low x < free used low y := by
  apply Finset.card_lt_card
  refine ⟨Finset.sdiff_subset_sdiff (Finset.Ioo_subset_Ioo_right h.le) subset_rfl, fun hsub => ?_⟩
  have hmem : x ∈ Finset.Ioo low x \ used := hsub (mem_unused.mpr ⟨⟨hlow, h⟩, hx⟩)
  exact absurd (mem_unused.mp hmem).1.2 (lt_irrefl x)

/-- Where every unused number below has fewer than `n` of them below it, there are at most `n`. -/
theorem free_le (h : ∀ y, low < y → y < x → y ∉ used → free used low y < n) :
    free used low x ≤ n := by
  by_contra hmore
  have hnonempty : (Finset.Ioo low x \ used).Nonempty :=
    Finset.card_pos.mp (Nat.zero_le n |>.trans_lt (not_le.mp hmore))
  -- The greatest unused number below has all the others below it.
  obtain ⟨y, hy, hmax⟩ := Finset.exists_max_image _ id hnonempty
  obtain ⟨⟨hlow, hx⟩, hunused⟩ := mem_unused.mp hy
  have hsub : (Finset.Ioo low x \ used).erase y ⊆ Finset.Ioo low y \ used := by
    intro z hz
    obtain ⟨hne, hz⟩ := Finset.mem_erase.mp hz
    obtain ⟨⟨hlowz, -⟩, hunusedz⟩ := mem_unused.mp hz
    exact mem_unused.mpr ⟨⟨hlowz, lt_of_le_of_ne (hmax z hz) hne⟩, hunusedz⟩
  have hcard := Finset.card_le_card hsub
  rw [Finset.card_erase_of_mem hy] at hcard
  have hfew := h y hlow hx hunused
  unfold free at hfew hmore
  omega

theorem not_taken_zero : ¬ Taken used low 0 x := fun h => Nat.not_lt_zero _ h.2.2

/-- The next number to take is the least that is neither in use nor taken. -/
theorem taken_succ_iff (hlow : low < x) (hused : x ∉ used) (htaken : ¬ Taken used low n x)
    (hbelow : ∀ y, low < y → y < x → y ∈ used ∨ Taken used low n y) :
    Taken used low (n + 1) y ↔ Taken used low n y ∨ y = x := by
  have hcount : free used low x = n := by
    apply le_antisymm
    · apply free_le
      intro y hy hyx hunused
      exact ((hbelow y hy hyx).resolve_left hunused).2.2
    · by_contra hless
      exact htaken ⟨hlow, hused, not_le.mp hless⟩
  constructor
  · rintro ⟨hy, hunused, hfew⟩
    rcases lt_trichotomy y x with hlt | heq | hgt
    · exact Or.inl ((hbelow y hy hlt).resolve_left hunused)
    · exact Or.inr heq
    · have hmore := free_lt_free hlow hused hgt
      omega
  · rintro (⟨hy, hunused, hfew⟩ | rfl)
    · exact ⟨hy, hunused, Nat.lt_succ_of_lt hfew⟩
    · exact ⟨hlow, hused, hcount ▸ Nat.lt_succ_self n⟩

theorem used_or_taken {used : Finset ℤ} {low x : ℤ} (hlow : low < x) (h : x ≤ low + n) :
    x ∈ used ∨ Taken used low n x := by
  by_cases hused : x ∈ used
  · exact Or.inl hused
  · have hcard : free used low x ≤ (Finset.Ioo low x).card :=
      Finset.card_le_card Finset.sdiff_subset
    rw [Int.card_Ioo] at hcard
    exact Or.inr ⟨hlow, hused, by omega⟩

end SphereFx.Numbering
