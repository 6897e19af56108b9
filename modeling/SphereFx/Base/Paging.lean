import Mathlib.Data.List.Nodup
import Mathlib.Data.List.Perm.Basic
import SphereFx.Base.Rank

/-!
# Reading a list page by page

Every page is cut out of an arrangement of its own, in which elements with one key may stand in another
order. If no page ends between two elements with one key, a page has the same elements in every
arrangement, and the pages together are the list. Otherwise some arrangements show an element twice.
-/

namespace SphereFx.Paging

open Rank

variable {α κ : Type} [LinearOrder κ] (key : α → κ)

/-- The page with a number, from zero on. -/
def page (size : ℕ) (items : List α) (number : ℕ) : List α := (items.drop (number * size)).take size

/-- No page ends between two elements with one key. -/
def Unsplit (size : ℕ) (items : List α) : Prop :=
  ∀ k number, below key items k < number * size → upTo key items k ≤ number * size

variable {key} {size : ℕ} {items arranged : List α}

theorem unsplit_perm (h : arranged.Perm items) : Unsplit key size arranged ↔ Unsplit key size items := by
  simp only [Unsplit, below_perm h, upTo_perm h]

theorem unsplit_of_nodup (h : (items.map key).Nodup) : Unsplit key size items := by
  intro k number hbelow
  have hone : (items.countP fun a => key a = k) ≤ 1 := by
    have hcount := List.nodup_iff_count_le_one.mp h k
    rw [List.count, List.countP_map] at hcount
    simpa only [Function.comp_def, beq_iff_eq, Bool.beq_eq_decide_eq] using hcount
  rw [upTo_eq_add]
  omega

/-- The places that lie on one page. -/
theorem page_eq_filter_of_place {f : α → ℕ} (hf : ∀ i (h : i < items.length), f items[i] = i / size)
    (hsize : 0 < size) (number : ℕ) : page size items number = items.filter (f · = number) := by
  have hsplit := List.take_append_drop (number * size) items
  have hsplit' := List.take_append_drop size (items.drop (number * size))
  have hbefore : (items.take (number * size)).filter (f · = number) = [] := by
    rw [List.filter_eq_nil_iff]
    intro a ha
    obtain ⟨i, hi, rfl⟩ := List.mem_take_iff_getElem.mp ha
    rw [decide_eq_true_iff, hf i (by omega)]
    exact ((Nat.div_lt_iff_lt_mul hsize).mpr (by omega)).ne
  have hon : (page size items number).filter (f · = number) = page size items number := by
    rw [List.filter_eq_self]
    intro a ha
    obtain ⟨i, hi, rfl⟩ := List.mem_take_iff_getElem.mp ha
    rw [List.length_drop] at hi
    rw [List.getElem_drop, decide_eq_true_iff, hf _ (by omega)]
    exact Nat.div_eq_of_lt_le (by omega) (by rw [Nat.succ_mul]; omega)
  have hafter : ((items.drop (number * size)).drop size).filter (f · = number) = [] := by
    rw [List.filter_eq_nil_iff]
    intro a ha
    obtain ⟨i, hi, rfl⟩ := List.mem_drop_iff_getElem.mp ha
    rw [List.length_drop] at hi
    rw [List.getElem_drop, decide_eq_true_iff, hf _ (by omega)]
    exact (Nat.lt_of_lt_of_le (Nat.lt_succ_self number)
      ((Nat.le_div_iff_mul_le hsize).mpr (by rw [Nat.succ_mul]; omega))).ne'
  conv_rhs => rw [← hsplit, ← hsplit', List.filter_append, List.filter_append]
  rw [hbefore, hafter, List.append_nil, List.nil_append]
  exact hon.symm

theorem below_div_eq (hunsplit : Unsplit key size items) (h : Ordered key items)
    (hsize : 0 < size) {i : ℕ} (hi : i < items.length) :
    below key items (key items[i]) / size = i / size := by
  have hlow := h.below_getElem_le hi
  have hhigh := h.lt_upTo_getElem hi
  apply le_antisymm (Nat.div_le_div_right hlow)
  by_contra hless
  -- A page begins after those below the element, but not after its place.
  have hstart : below key items (key items[i]) < i / size * size :=
    (Nat.div_lt_iff_lt_mul hsize).mp (not_le.mp hless)
  have hend := hunsplit _ _ hstart
  have hplace := Nat.div_mul_le_self i size
  omega

theorem page_eq_filter (hunsplit : Unsplit key size items) (hsize : 0 < size)
    (h : Arranges key items arranged) (number : ℕ) : page size arranged number =
      arranged.filter fun a => below key items (key a) / size = number := by
  apply page_eq_filter_of_place _ hsize
  intro i hi
  rw [← below_perm h.perm]
  exact below_div_eq ((unsplit_perm h.perm).mpr hunsplit) h.ordered hsize hi

/-- The elements up to a number of pages, page by page. -/
theorem flatMap_filter_perm (f : α → ℕ) (items : List α) (pages : ℕ) :
    ((List.range pages).flatMap fun number => items.filter (f · = number)).Perm
      (items.filter (f · < pages)) := by
  induction pages with
  | zero => simp
  | succ pages ih =>
      rw [List.range_succ, List.flatMap_append, List.flatMap_singleton]
      refine (ih.append_right _).trans ?_
      have hlast : items.filter (f · = pages) =
          (items.filter (f · < pages + 1)).filter fun a => !decide (f a < pages) := by
        rw [List.filter_filter]
        refine List.filter_congr fun a _ => ?_
        rw [Bool.eq_iff_iff, Bool.and_eq_true, Bool.not_eq_true', decide_eq_true_iff,
          decide_eq_true_iff, decide_eq_false_iff_not]
        omega
      have hfirst : items.filter (f · < pages) =
          (items.filter (f · < pages + 1)).filter (f · < pages) := by
        rw [List.filter_filter]
        refine List.filter_congr fun a _ => ?_
        rw [Bool.eq_iff_iff, Bool.and_eq_true, decide_eq_true_iff, decide_eq_true_iff]
        omega
      rw [hlast, hfirst]
      exact List.filter_append_perm _ _

/-- The pages together are the list. -/
theorem pages_perm (hunsplit : Unsplit key size items) (hsize : 0 < size) {pages : ℕ}
    (hpages : items.length ≤ pages * size) {arranged : ℕ → List α}
    (h : ∀ number, Arranges key items (arranged number)) :
    ((List.range pages).flatMap fun number => page size (arranged number) number).Perm items := by
  have hfilter : ((List.range pages).flatMap fun number => page size (arranged number) number).Perm
      ((List.range pages).flatMap fun number =>
        items.filter fun a => below key items (key a) / size = number) := by
    apply List.Perm.flatMap_left
    intro number _
    rw [page_eq_filter hunsplit hsize (h number)]
    exact (h number).perm.filter _
  have hall : (items.filter fun a => below key items (key a) / size < pages) = items := by
    rw [List.filter_eq_self]
    intro a ha
    rw [decide_eq_true_iff, Nat.div_lt_iff_lt_mul hsize]
    exact (below_lt_length ha).trans_le hpages
  have hpartition := flatMap_filter_perm (fun a => below key items (key a) / size) items pages
  rw [hall] at hpartition
  exact hfilter.trans hpartition

/-! ### A page that ends between equal keys -/

theorem arranges_swap {front back : List α} {x y : α} (hkey : key x = key y)
    (h : Arranges key items (front ++ x :: y :: back)) :
    Arranges key items (front ++ y :: x :: back) := by
  refine ⟨((List.Perm.swap x y back).append_left front).trans h.perm, ?_⟩
  have hkeys : (front ++ y :: x :: back).map key = (front ++ x :: y :: back).map key := by
    simp only [List.map_append, List.map_cons, hkey]
  have hordered : ((front ++ y :: x :: back).map key).Pairwise (· ≤ ·) := by
    rw [hkeys]
    exact List.pairwise_map.mpr h.ordered
  exact List.pairwise_map.mp hordered

theorem page_perm_of_flatMap {f g : ℕ → List α} {pages number : ℕ} (hnumber : number < pages)
    (hother : ∀ n, n ≠ number → f n = g n)
    (h : ((List.range pages).flatMap f).Perm ((List.range pages).flatMap g)) :
    (f number).Perm (g number) := by
  obtain ⟨front, back, hrange⟩ := List.append_of_mem (List.mem_range.mpr hnumber)
  have hnodup : (front ++ number :: back).Nodup := hrange ▸ List.nodup_range
  obtain ⟨hfront, hback⟩ := not_or.mp (mt List.mem_append.mpr (List.nodup_middle.mp hnodup).notMem)
  have hcongr : ∀ l : List ℕ, number ∉ l → l.flatMap f = l.flatMap g := by
    intro l hl
    exact List.flatMap_congr fun n hn => hother n (ne_of_mem_of_not_mem hn hl)
  rw [hrange, List.flatMap_append, List.flatMap_append, List.flatMap_cons, List.flatMap_cons,
    hcongr front hfront, hcongr back hback, List.perm_append_left_iff] at h
  exact (List.perm_append_right_iff _).mp h

theorem page_of_append {front back : List α} {x : α} {number : ℕ}
    (hlength : (front ++ [x]).length = number * size) :
    page size (front ++ x :: back) number = back.take size := by
  rw [page, List.append_cons front, ← hlength, List.drop_left]

/-- The places before and at the end of a page that parts a key hold that key. -/
theorem exists_at_split {k : κ} {number : ℕ} (h : Ordered key items)
    (hbelow : below key items k < number * size) (hmore : number * size < upTo key items k) :
    ∃ front x y back, items = front ++ x :: y :: back ∧ (front ++ [x]).length = number * size ∧
      key x = k ∧ key y = k := by
  have hlength : number * size < items.length := hmore.trans_le upTo_le_length
  have hplace : ∀ i (hi : i < items.length), below key items k ≤ i → i < upTo key items k →
      key items[i] = k := by
    intro i hi hlow hhigh
    refine le_antisymm ((h.getElem_le_iff hi).mpr hhigh) (not_lt.mp fun hlt => ?_)
    exact absurd ((h.getElem_lt_iff hi).mp hlt) (not_lt.mpr hlow)
  have hlast : number * size - 1 < items.length := by omega
  refine ⟨items.take (number * size - 1), items[number * size - 1], items[number * size],
    items.drop (number * size + 1), ?_, ?_, hplace _ hlast (by omega) (by omega),
    hplace _ hlength (by omega) hmore⟩
  · have hnext : items.drop (number * size - 1 + 1) = items.drop (number * size) := by
      congr 1
      omega
    rw [← List.drop_eq_getElem_cons hlength, ← hnext, ← List.drop_eq_getElem_cons hlast,
      List.take_append_drop]
  · rw [List.length_append, List.length_take, List.length_singleton]
    omega

theorem unsplit_of_pages (hnodup : items.Nodup) (hsize : 0 < size)
    (h : ∀ (pages : ℕ) (arranged : ℕ → List α), items.length ≤ pages * size →
      (∀ number, Arranges key items (arranged number)) →
        ((List.range pages).flatMap fun number => page size (arranged number) number).Perm items) :
    Unsplit key size items := by
  intro k number hbelow
  by_contra hmore
  have hsorted := arranges_insertionSort key items
  generalize items.insertionSort (fun a b => key a ≤ key b) = sorted at hsorted
  rw [← below_perm hsorted.perm] at hbelow
  rw [← upTo_perm hsorted.perm, not_le] at hmore
  obtain ⟨front, x, y, back, rfl, hlength, hx, hy⟩ := exists_at_split hsorted.ordered hbelow hmore
  have hswapped := arranges_swap (hx.trans hy.symm) hsorted
  -- The other reading shows the first of the two again instead of the second.
  let other : ℕ → List α := fun n =>
    if n = number then front ++ y :: x :: back else front ++ x :: y :: back
  have hother : ∀ n, Arranges key items (other n) := by
    intro n
    by_cases hn : n = number
    · rw [show other n = front ++ y :: x :: back from if_pos hn]
      exact hswapped
    · rw [show other n = front ++ x :: y :: back from if_neg hn]
      exact hsorted
  have hpages : items.length ≤ (number + 1 + items.length) * size :=
    (Nat.le_add_left _ _).trans (Nat.le_mul_of_pos_right _ hsize)
  have hsame := (h _ (fun _ => front ++ x :: y :: back) hpages fun _ => hsorted).trans
    (h _ other hpages hother).symm
  have hpage := page_perm_of_flatMap (by omega : number < number + 1 + items.length)
    (fun n hn => by rw [show other n = front ++ x :: y :: back from if_neg hn]) hsame
  have hlength' : (front ++ [y]).length = number * size := by
    rw [← hlength, List.length_append, List.length_append]
    rfl
  rw [show other number = front ++ y :: x :: back from if_pos rfl, page_of_append hlength,
    page_of_append hlength'] at hpage
  have hmem : x ∈ (x :: back).take size := by
    obtain ⟨n, rfl⟩ := Nat.exists_eq_succ_of_ne_zero hsize.ne'
    exact List.mem_cons_self
  have hagain : x ∈ y :: back := List.mem_of_mem_take (hpage.mem_iff.mpr hmem)
  have hunique : (front ++ x :: y :: back).Nodup := hsorted.perm.nodup_iff.mpr hnodup
  exact (List.nodup_middle.mp hunique).notMem (List.mem_append_right front hagain)

end SphereFx.Paging
