import Mathlib.Data.List.Sort

/-!
# Ranks in a sorted list

How many elements of a list lie below a key, and how many lie at or below it. In a list in the order of
the key the place of an element is between the two, whichever way equal keys are arranged.
-/

namespace SphereFx.Rank

variable {α κ : Type} [LinearOrder κ] (key : α → κ)

def below (items : List α) (k : κ) : ℕ := items.countP fun a => key a < k

def upTo (items : List α) (k : κ) : ℕ := items.countP fun a => key a ≤ k

/-- In the order of the key. -/
def Ordered (items : List α) : Prop := items.Pairwise fun a b => key a ≤ key b

variable {key} {items other : List α} {k : κ}

theorem below_perm (h : items.Perm other) : below key items k = below key other k :=
  h.countP_eq _

theorem upTo_perm (h : items.Perm other) : upTo key items k = upTo key other k :=
  h.countP_eq _

theorem upTo_eq_add : upTo key items k = below key items k + items.countP fun a => key a = k := by
  unfold upTo below
  induction items with
  | nil => rfl
  | cons a rest ih =>
      rw [List.countP_cons, List.countP_cons, List.countP_cons, ih]
      rcases lt_trichotomy (key a) k with hlt | heq | hgt
      · simp [hlt, hlt.le, hlt.ne]
        omega
      · simp [heq]
        omega
      · simp [hgt.not_ge, hgt.not_gt, hgt.ne']

theorem upTo_le_length : upTo key items k ≤ items.length := List.countP_le_length

theorem below_lt_length {a : α} (h : a ∈ items) : below key items (key a) < items.length := by
  apply lt_of_le_of_ne List.countP_le_length
  intro hall
  exact lt_irrefl _ (of_decide_eq_true (List.countP_eq_length.mp hall a h))

/-- What holds of an element and of all before it holds of the first ones, as many as it holds of. -/
theorem getElem_iff_lt_countP {p : α → Bool} (h : items.Pairwise fun a b => p b = true → p a = true)
    {i : ℕ} (hi : i < items.length) : p items[i] = true ↔ i < items.countP p := by
  induction items generalizing i with
  | nil => exact absurd hi (Nat.not_lt_zero i)
  | cons a rest ih =>
      obtain ⟨hfirst, hrest⟩ := List.pairwise_cons.mp h
      by_cases ha : p a = true
      · rw [List.countP_cons_of_pos ha]
        cases i with
        | zero => simp [ha]
        | succ i =>
            rw [List.getElem_cons_succ, ih hrest (Nat.lt_of_succ_lt_succ hi)]
            omega
      · have hnone : ∀ b ∈ rest, ¬ p b = true := fun b hb hpb => ha (hfirst b hb hpb)
        rw [List.countP_cons_of_neg ha, List.countP_eq_zero.mpr hnone]
        have hat : (a :: rest)[i] ∈ a :: rest := List.getElem_mem hi
        refine iff_of_false (fun hp => ?_) (Nat.not_lt_zero i)
        rcases List.mem_cons.mp hat with heq | hmem
        · rw [heq] at hp
          exact ha hp
        · exact hnone _ hmem hp

theorem Ordered.getElem_lt_iff (h : Ordered key items) {i : ℕ} (hi : i < items.length) :
    key items[i] < k ↔ i < below key items k := by
  have hprefix := @getElem_iff_lt_countP _ items (fun a => key a < k)
    (h.imp fun hle hlt => decide_eq_true (hle.trans_lt (of_decide_eq_true hlt))) i hi
  rwa [decide_eq_true_iff] at hprefix

theorem Ordered.getElem_le_iff (h : Ordered key items) {i : ℕ} (hi : i < items.length) :
    key items[i] ≤ k ↔ i < upTo key items k := by
  have hprefix := @getElem_iff_lt_countP _ items (fun a => key a ≤ k)
    (h.imp fun hle hlt => decide_eq_true (hle.trans (of_decide_eq_true hlt))) i hi
  rwa [decide_eq_true_iff] at hprefix

theorem Ordered.below_getElem_le (h : Ordered key items) {i : ℕ} (hi : i < items.length) :
    below key items (key items[i]) ≤ i := by
  by_contra hless
  exact lt_irrefl _ ((h.getElem_lt_iff hi).mpr (not_le.mp hless))

theorem Ordered.lt_upTo_getElem (h : Ordered key items) {i : ℕ} (hi : i < items.length) :
    i < upTo key items (key items[i]) :=
  (h.getElem_le_iff hi).mp le_rfl

theorem Ordered.getElem_mono (h : Ordered key items) {i j : ℕ} (hij : i ≤ j) (hj : j < items.length) :
    key items[i] ≤ key items[j] :=
  (h.getElem_le_iff (hij.trans_lt hj)).mpr (hij.trans_lt (h.lt_upTo_getElem hj))

/-- An order of the elements; those with one key may stand in any order. -/
structure Arranges (key : α → κ) (items arranged : List α) : Prop where
  perm : arranged.Perm items
  ordered : Ordered key arranged

theorem arranges_insertionSort (key : α → κ) (items : List α) :
    Arranges key items (items.insertionSort fun a b => key a ≤ key b) := by
  have : Std.Total fun a b : α => key a ≤ key b := ⟨fun a b => le_total (key a) (key b)⟩
  have : IsTrans α fun a b => key a ≤ key b := ⟨fun _ _ _ => le_trans⟩
  exact ⟨List.perm_insertionSort _ _, List.pairwise_insertionSort _ _⟩

end SphereFx.Rank
