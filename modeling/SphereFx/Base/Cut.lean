import Mathlib.Data.List.Basic

/-!
# Cutting a list into pieces

Splitting, trimming, filtering and replacing turn a list into pieces that may lack some of its elements.
The pieces are a cut of the list if they have the elements of a class, all of them and in order, and
nothing that was not in the list apart from a few new elements. Cuts of pieces make a cut of the list.
-/

namespace SphereFx

variable {α : Type} {kept fresh : α → Bool}

/-- The pieces keep the elements of a class, and have fresh elements besides those of the list. -/
structure Cut (kept fresh : α → Bool) (items : List α) (pieces : List (List α)) : Prop where
  conserves : pieces.flatten.filter kept = items.filter kept
  origin : ∀ piece ∈ pieces, ∀ a ∈ piece, a ∈ items ∨ fresh a = true

namespace Cut

variable {items : List α} {pieces : List (List α)}

theorem refl (items : List α) : Cut kept fresh items [items] := by
  refine ⟨by rw [List.flatten_singleton], fun piece hpiece a ha => Or.inl ?_⟩
  rwa [← List.mem_singleton.mp hpiece]

/-- Every piece may be cut in turn. -/
theorem flatMap {f : List α → List (List α)} (h : Cut kept fresh items pieces)
    (hf : ∀ piece ∈ pieces, Cut kept fresh piece (f piece)) :
    Cut kept fresh items (pieces.flatMap f) := by
  refine ⟨?_, fun piece hpiece a ha => ?_⟩
  · rw [← h.conserves]
    clear h
    induction pieces with
    | nil => rfl
    | cons piece rest ih =>
        obtain ⟨hpiece, hrest⟩ := List.forall_mem_cons.mp hf
        rw [List.flatMap_cons, List.flatten_append, List.filter_append, hpiece.conserves, ih hrest,
          List.flatten_cons, List.filter_append]
  · obtain ⟨whole, hwhole, hpiece⟩ := List.mem_flatMap.mp hpiece
    rcases (hf whole hwhole).origin piece hpiece a ha with hold | hfresh
    · exact h.origin whole hwhole a hold
    · exact Or.inr hfresh

theorem map {g : List α → List α} (h : Cut kept fresh items pieces)
    (hg : ∀ piece ∈ pieces, Cut kept fresh piece [g piece]) :
    Cut kept fresh items (pieces.map g) := by
  rw [List.map_eq_flatMap]
  exact h.flatMap hg

theorem trans {middle last : List α} (h : Cut kept fresh items [middle])
    (h' : Cut kept fresh middle [last]) : Cut kept fresh items [last] := by
  have hmap := @map _ _ _ _ _ (fun _ => last) h fun piece hpiece => by
    rw [List.mem_singleton.mp hpiece]
    exact h'
  exact hmap

theorem filter_iff [DecidablePred fun piece : List α => piece ≠ []] :
    Cut kept fresh items (pieces.filter (· ≠ [])) ↔ Cut kept fresh items pieces := by
  have hflatten : (pieces.filter (· ≠ [])).flatten = pieces.flatten := List.flatten_filter_ne_nil
  refine ⟨fun h => ⟨hflatten ▸ h.conserves, fun piece hpiece a ha => ?_⟩, fun h =>
    ⟨hflatten ▸ h.conserves, fun piece hpiece => h.origin piece (List.mem_of_mem_filter hpiece)⟩⟩
  exact h.origin piece (List.mem_filter.mpr ⟨hpiece, decide_eq_true (List.ne_nil_of_mem ha)⟩) a ha

end Cut

/-! ### Single cuts -/

theorem flatten_splitOnP (p : α → Bool) (items : List α) :
    (items.splitOnP p).flatten = items.filter (!p ·) := by
  induction items with
  | nil => rfl
  | cons a rest ih =>
      obtain ⟨first, more, hsplit⟩ := List.exists_cons_of_ne_nil (List.splitOnP_ne_nil p rest)
      rw [List.splitOnP_cons_eq_if_modifyHead]
      by_cases ha : p a = true
      · rw [if_pos ha, List.flatten_cons, List.nil_append, ih, List.filter_cons_of_neg (by simp [ha])]
      · rw [if_neg ha, List.filter_cons_of_pos (by simp [ha]), ← ih, hsplit]
        rfl

theorem cut_splitOnP {p : α → Bool} (hp : ∀ a, p a = true → kept a = false) (items : List α) :
    Cut kept fresh items (items.splitOnP p) := by
  refine ⟨?_, fun piece hpiece a ha => Or.inl ?_⟩
  · rw [flatten_splitOnP, List.filter_filter]
    refine List.filter_congr fun a _ => ?_
    cases ha : p a with
    | false => rw [Bool.not_false, Bool.and_true]
    | true => rw [Bool.not_true, Bool.and_false, hp a ha]
  · have hmem : a ∈ (items.splitOnP p).flatten := List.mem_flatten.mpr ⟨piece, hpiece, ha⟩
    rw [flatten_splitOnP] at hmem
    exact List.mem_of_mem_filter hmem

theorem cut_of_append {lead middle trail : List α} (hlead : ∀ a ∈ lead, kept a = false)
    (htrail : ∀ a ∈ trail, kept a = false) : Cut kept fresh (lead ++ (middle ++ trail)) [middle] := by
  have hnone : ∀ {l : List α}, (∀ a ∈ l, kept a = false) → l.filter kept = [] := fun h =>
    List.filter_eq_nil_iff.mpr fun a ha => Bool.eq_false_iff.mp (h a ha)
  refine ⟨?_, fun piece hpiece a ha => Or.inl ?_⟩
  · rw [List.flatten_singleton, List.filter_append, List.filter_append, hnone hlead, hnone htrail,
      List.append_nil, List.nil_append]
  · rw [List.mem_singleton.mp hpiece] at ha
    exact List.mem_append_right _ (List.mem_append_left _ ha)

theorem cut_filter {p : α → Bool} (hp : ∀ a, kept a = true → p a = true) (items : List α) :
    Cut kept fresh items [items.filter p] := by
  refine ⟨?_, fun piece hpiece a ha => Or.inl ?_⟩
  · rw [List.flatten_singleton, List.filter_filter]
    refine List.filter_congr fun a _ => ?_
    cases ha : kept a with
    | false => rw [Bool.false_and]
    | true => rw [hp a ha, Bool.true_and]
  · rw [List.mem_singleton.mp hpiece] at ha
    exact List.mem_of_mem_filter ha

/-- Replacing elements outside the class by fresh ones. -/
theorem cut_replace {old : α → Prop} [DecidablePred old] {new : List α}
    (hold : ∀ a, old a → kept a = false) (hnew : ∀ a ∈ new, kept a = false ∧ fresh a = true)
    (items : List α) :
    Cut kept fresh items [items.flatMap fun a => if old a then new else [a]] := by
  refine ⟨?_, fun piece hpiece a ha => ?_⟩
  · rw [List.flatten_singleton]
    induction items with
    | nil => rfl
    | cons a rest ih =>
        rw [List.flatMap_cons, List.filter_append, ih]
        by_cases ha : old a
        · have hnone : new.filter kept = [] :=
            List.filter_eq_nil_iff.mpr fun b hb => Bool.eq_false_iff.mp (hnew b hb).1
          rw [if_pos ha, hnone, List.nil_append,
            List.filter_cons_of_neg (Bool.eq_false_iff.mp (hold a ha))]
        · rw [if_neg ha, ← List.filter_append, List.singleton_append]
  · rw [List.mem_singleton.mp hpiece] at ha
    obtain ⟨b, hb, ha⟩ := List.mem_flatMap.mp ha
    by_cases hbold : old b
    · rw [if_pos hbold] at ha
      exact Or.inr (hnew a ha).2
    · rw [if_neg hbold] at ha
      exact Or.inl (List.mem_singleton.mp ha ▸ hb)

end SphereFx
