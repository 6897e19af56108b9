import Mathlib.Data.List.Infix
import Mathlib.Order.Bounds.Basic

/-!
# The longest streak of a list

A streak is a block of neighbours that all have a property. One pass finds the length of the longest: it
counts up on an element with the property and starts anew on one without. The count is then the longest
streak up to the place reached, and the greatest count so far is the longest streak anywhere before it.
-/

namespace SphereFx

variable {α : Type} (p : α → Bool)

/-- The pass, from the greatest count and the current one. -/
def streakFrom : ℕ → ℕ → List α → ℕ
  | maxStreak, _, [] => maxStreak
  | maxStreak, currentStreak, a :: rest =>
      if p a then
        streakFrom (if maxStreak < currentStreak + 1 then currentStreak + 1 else maxStreak)
          (currentStreak + 1) rest
      else streakFrom maxStreak 0 rest

def longestStreak (items : List α) : ℕ := streakFrom p 0 0 items

/-- The lengths of the blocks of neighbours that have the property. -/
def Streaks (items : List α) : Set ℕ :=
  {n | ∃ block, block <:+: items ∧ (∀ a ∈ block, p a = true) ∧ block.length = n}

/-- The lengths of those at the end. -/
def EndStreaks (items : List α) : Set ℕ :=
  {n | ∃ block, block <:+ items ∧ (∀ a ∈ block, p a = true) ∧ block.length = n}

variable {p} {items : List α} {a : α}

theorem endStreaks_concat_of_pos (ha : p a = true) :
    EndStreaks p (items ++ [a]) = insert 0 ((· + 1) '' EndStreaks p items) := by
  ext n
  refine ⟨fun ⟨block, hblock, hall, hlength⟩ => ?_, fun h => ?_⟩
  · rcases List.suffix_concat_iff.mp hblock with rfl | ⟨front, rfl, hfront⟩
    · exact Or.inl hlength.symm
    · refine Or.inr ⟨front.length, ⟨front, hfront, fun b hb => ?_, rfl⟩, ?_⟩
      · exact hall b (List.mem_append_left _ hb)
      · rw [← hlength, List.length_append, List.length_singleton]
  · rcases h with rfl | ⟨m, ⟨block, hblock, hall, rfl⟩, rfl⟩
    · exact ⟨[], List.nil_suffix, List.forall_mem_nil _, rfl⟩
    · refine ⟨block ++ [a], List.suffix_concat_iff.mpr (Or.inr ⟨block, rfl, hblock⟩), ?_, ?_⟩
      · exact List.forall_mem_append.mpr ⟨hall, List.forall_mem_singleton.mpr ha⟩
      · rw [List.length_append, List.length_singleton]

theorem endStreaks_concat_of_neg (ha : ¬ p a = true) : EndStreaks p (items ++ [a]) = {0} := by
  ext n
  refine ⟨fun ⟨block, hblock, hall, hlength⟩ => ?_, fun h => ?_⟩
  · rcases List.suffix_concat_iff.mp hblock with rfl | ⟨front, rfl, -⟩
    · exact hlength.symm
    · exact absurd (hall a (List.mem_append_right _ (List.mem_singleton_self a))) ha
  · exact ⟨[], List.nil_suffix, List.forall_mem_nil _, (Set.mem_singleton_iff.mp h).symm⟩

/-- A block of a longer list is at its end or was there before. -/
theorem streaks_concat : Streaks p (items ++ [a]) = Streaks p items ∪ EndStreaks p (items ++ [a]) := by
  ext n
  refine ⟨fun ⟨block, hblock, h⟩ => ?_, fun h => ?_⟩
  · rcases List.infix_concat_iff.mp hblock with hend | hbefore
    · exact Or.inr ⟨block, hend, h⟩
    · exact Or.inl ⟨block, hbefore, h⟩
  · rcases h with ⟨block, hblock, h⟩ | ⟨block, hblock, h⟩
    · exact ⟨block, List.infix_concat_iff.mpr (Or.inr hblock), h⟩
    · exact ⟨block, hblock.isInfix, h⟩

/-- What the pass knows of the elements it has seen. -/
structure Tracks (p : α → Bool) (seen : List α) (maxStreak currentStreak : ℕ) : Prop where
  longest : IsGreatest (Streaks p seen) maxStreak
  current : IsGreatest (EndStreaks p seen) currentStreak

theorem tracks_nil : Tracks p ([] : List α) 0 0 := by
  refine ⟨⟨⟨[], List.nil_infix, List.forall_mem_nil _, rfl⟩, ?_⟩,
    ⟨[], List.nil_suffix, List.forall_mem_nil _, rfl⟩, ?_⟩
  · intro n ⟨block, hblock, _, hlength⟩
    rw [List.eq_nil_of_infix_nil hblock] at hlength
    exact hlength.ge
  · intro n ⟨block, hblock, _, hlength⟩
    rw [List.suffix_nil.mp hblock] at hlength
    exact hlength.ge

variable {seen : List α} {maxStreak currentStreak : ℕ}

theorem Tracks.concat_of_pos (h : Tracks p seen maxStreak currentStreak) (ha : p a = true) :
    Tracks p (seen ++ [a])
      (if maxStreak < currentStreak + 1 then currentStreak + 1 else maxStreak) (currentStreak + 1) := by
  have hcurrent : IsGreatest (EndStreaks p (seen ++ [a])) (currentStreak + 1) := by
    rw [endStreaks_concat_of_pos ha]
    refine ⟨Or.inr ⟨_, h.current.1, rfl⟩, fun n hn => ?_⟩
    rcases hn with rfl | ⟨m, hm, rfl⟩
    · exact Nat.zero_le _
    · exact Nat.succ_le_succ (h.current.2 hm)
  refine ⟨?_, hcurrent⟩
  rw [streaks_concat, ← max_def_lt]
  exact h.longest.union hcurrent

theorem Tracks.concat_of_neg (h : Tracks p seen maxStreak currentStreak) (ha : ¬ p a = true) :
    Tracks p (seen ++ [a]) maxStreak 0 := by
  have hcurrent : IsGreatest (EndStreaks p (seen ++ [a])) 0 := by
    rw [endStreaks_concat_of_neg ha]
    exact isGreatest_singleton
  refine ⟨?_, hcurrent⟩
  rw [streaks_concat]
  have hmax := h.longest.union hcurrent
  rwa [max_eq_left (Nat.zero_le maxStreak)] at hmax

theorem isGreatest_streakFrom (h : Tracks p seen maxStreak currentStreak) (rest : List α) :
    IsGreatest (Streaks p (seen ++ rest)) (streakFrom p maxStreak currentStreak rest) := by
  induction rest generalizing seen maxStreak currentStreak with
  | nil =>
      rw [List.append_nil]
      exact h.longest
  | cons a rest ih =>
      rw [List.append_cons, streakFrom]
      by_cases ha : p a = true
      · rw [if_pos ha]
        exact ih (h.concat_of_pos ha)
      · rw [if_neg ha]
        exact ih (h.concat_of_neg ha)

theorem isGreatest_longestStreak (p : α → Bool) (items : List α) :
    IsGreatest (Streaks p items) (longestStreak p items) :=
  isGreatest_streakFrom tracks_nil items

theorem streaks_reverse (p : α → Bool) (items : List α) :
    Streaks p items.reverse = Streaks p items := by
  have hsubset : ∀ l : List α, Streaks p l ⊆ Streaks p l.reverse := by
    intro l n ⟨block, hblock, hall, hlength⟩
    refine ⟨block.reverse, List.reverse_infix.mpr hblock, fun a ha => ?_, ?_⟩
    · exact hall a (List.mem_reverse.mp ha)
    · rw [List.length_reverse, hlength]
  refine subset_antisymm ?_ (hsubset items)
  have hback := hsubset items.reverse
  rwa [List.reverse_reverse] at hback

theorem streaks_append (p : α → Bool) (items more : List α) :
    Streaks p items ⊆ Streaks p (items ++ more) :=
  fun _ ⟨block, hblock, h⟩ => ⟨block, List.infix_append_of_infix_left hblock, h⟩

theorem longestStreak_reverse (p : α → Bool) (items : List α) :
    longestStreak p items.reverse = longestStreak p items := by
  have hreverse := isGreatest_longestStreak p items.reverse
  rw [streaks_reverse] at hreverse
  exact hreverse.unique (isGreatest_longestStreak p items)

theorem longestStreak_le_append (p : α → Bool) (items more : List α) :
    longestStreak p items ≤ longestStreak p (items ++ more) :=
  (isGreatest_longestStreak p items).mono (isGreatest_longestStreak p (items ++ more))
    (streaks_append p items more)

end SphereFx
