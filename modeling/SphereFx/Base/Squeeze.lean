import Mathlib.Data.List.Basic
import Mathlib.Data.List.TakeWhile

/-!
# Tidy lists

A list is tidied by collapsing each run of one class to a single element and by trimming another class
off both ends. Taking some elements out first makes no difference exactly when they stand in the
trimmed ends, or in runs that keep an element.
-/

namespace SphereFx

variable {α : Type}

/-! ### Stretches -/

theorem exists_stretch (p : α → Bool) (value : Bool) (l : List α) :
    ∃ w rest, l = w ++ rest ∧ (∀ c ∈ w, p c = value) ∧ ∀ c ∈ rest.head?, p c = !value := by
  induction l with
  | nil => exact ⟨[], [], rfl, List.forall_mem_nil _, fun c hc => by cases hc⟩
  | cons c more ih =>
      by_cases hc : p c = value
      · obtain ⟨w, rest, rfl, hw, hrest⟩ := ih
        exact ⟨c :: w, rest, rfl, List.forall_mem_cons.mpr ⟨hc, hw⟩, hrest⟩
      · refine ⟨[], c :: more, rfl, List.forall_mem_nil _, fun d hd => ?_⟩
        rw [← Option.some.inj hd]
        exact Bool.eq_not_of_ne hc

section Stretch

variable {p : α → Bool} {w rest : List α}

theorem head_dropWhile {l : List α} : ∀ c ∈ (l.dropWhile p).head?, p c = false := by
  intro c hc
  have hhead := List.head?_dropWhile_not p l
  rw [Option.mem_def.mp hc] at hhead
  exact hhead

theorem dropWhile_of_head (hrest : ∀ c ∈ rest.head?, p c = false) : rest.dropWhile p = rest := by
  cases rest with
  | nil => rfl
  | cons c more => rw [List.dropWhile_cons, hrest c rfl, if_neg Bool.false_ne_true]

theorem dropWhile_stretch (hw : ∀ c ∈ w, p c = true) (hrest : ∀ c ∈ rest.head?, p c = false) :
    (w ++ rest).dropWhile p = rest := by
  rw [List.dropWhile_append_of_pos hw, dropWhile_of_head hrest]

theorem takeWhile_stretch (hw : ∀ c ∈ w, p c = true) (hrest : ∀ c ∈ rest.head?, p c = false) :
    (w ++ rest).takeWhile p = w := by
  have hstop : rest.takeWhile p = [] := by
    cases rest with
    | nil => rfl
    | cons c more => rw [List.takeWhile_cons, hrest c rfl, if_neg Bool.false_ne_true]
  rw [List.takeWhile_append_of_pos hw, hstop, List.append_nil]

end Stretch

/-! ### Trimming -/

/-- What is left when a class is taken off both ends. -/
def trim (p : α → Bool) (l : List α) : List α := ((l.dropWhile p).reverse.dropWhile p).reverse

section Trim

variable {p : α → Bool}

theorem trim_append_left {lead l : List α} (h : ∀ c ∈ lead, p c = true) :
    trim p (lead ++ l) = trim p l := by
  rw [trim, List.dropWhile_append_of_pos h]
  rfl

theorem trim_append_right {l trail : List α} (h : ∀ c ∈ trail, p c = true) :
    trim p (l ++ trail) = trim p l := by
  have htrail : trail.dropWhile p = [] := List.dropWhile_eq_nil_iff.mpr h
  rw [trim, List.dropWhile_append]
  split
  · rename_i hempty
    rw [trim, List.isEmpty_iff.mp hempty, htrail]
  · rw [trim, List.reverse_append, List.dropWhile_append_of_pos]
    exact fun c hc => h c (List.mem_reverse.mp hc)

theorem trim_eq_self {l : List α} (hfirst : ∀ c ∈ l.head?, p c = false)
    (hlast : ∀ c ∈ l.getLast?, p c = false) : trim p l = l := by
  rw [trim, dropWhile_of_head hfirst, dropWhile_of_head, List.reverse_reverse]
  intro c hc
  rw [List.head?_reverse] at hc
  exact hlast c hc

/-- Trimming leaves a list whose ends are not in the class. -/
theorem exists_trim (p : α → Bool) (l : List α) : ∃ lead trail, l = lead ++ (trim p l ++ trail) ∧
    (∀ c ∈ lead, p c = true) ∧ (∀ c ∈ trail, p c = true) ∧
    (∀ c ∈ (trim p l).head?, p c = false) ∧ ∀ c ∈ (trim p l).getLast?, p c = false := by
  have hlead : ∀ s : List α, ∀ c ∈ s.takeWhile p, p c = true :=
    fun s c hc => List.mem_takeWhile_imp hc
  have hsplit : l.dropWhile p =
      trim p l ++ ((l.dropWhile p).reverse.takeWhile p).reverse := by
    rw [trim, ← List.reverse_append, List.takeWhile_append_dropWhile, List.reverse_reverse]
  refine ⟨l.takeWhile p, ((l.dropWhile p).reverse.takeWhile p).reverse, ?_, hlead l, ?_, ?_, ?_⟩
  · rw [← hsplit, List.takeWhile_append_dropWhile]
  · exact fun c hc => hlead _ c (List.mem_reverse.mp hc)
  · intro c hc
    apply @head_dropWhile _ p l
    rw [hsplit, List.head?_append, Option.mem_def.mp hc]
    rfl
  · intro c hc
    rw [trim, List.getLast?_reverse] at hc
    exact head_dropWhile c hc

end Trim

/-! ### Collapsing runs -/

/-- Each run of the class becomes one `d`; the flag says whether a run goes on. -/
def squeeze (p : α → Bool) (d : α) : Bool → List α → List α
  | _, [] => []
  | after, c :: rest =>
      if p c then
        if after then squeeze p d true rest else d :: squeeze p d true rest
      else c :: squeeze p d false rest

section Squeeze

variable {p : α → Bool} {d : α}

theorem squeeze_cons_of_neg {after : Bool} {c : α} {rest : List α} (h : p c = false) :
    squeeze p d after (c :: rest) = c :: squeeze p d false rest := by
  simp [squeeze, h]

theorem squeeze_append (after : Bool) (a b : List α) : squeeze p d after (a ++ b) =
    squeeze p d after a ++ squeeze p d (a.foldl (fun _ c => p c) after) b := by
  induction a generalizing after with
  | nil => rfl
  | cons c rest ih =>
      rw [List.cons_append, List.foldl_cons, squeeze, squeeze]
      cases hc : p c with
      | false => simp [ih]
      | true => cases after <;> simp [ih]

theorem squeeze_of_head {l : List α} (h : ∀ c ∈ l.head?, p c = false) (after : Bool) :
    squeeze p d after l = squeeze p d false l := by
  cases l with
  | nil => rfl
  | cons c rest => rw [squeeze_cons_of_neg (h c rfl), squeeze_cons_of_neg (h c rfl)]

theorem squeeze_run {run rest : List α} (h : ∀ c ∈ run, p c = true) :
    squeeze p d true (run ++ rest) = squeeze p d true rest := by
  induction run with
  | nil => rfl
  | cons c more ih =>
      obtain ⟨hc, hmore⟩ := List.forall_mem_cons.mp h
      simp [squeeze, hc, ih hmore]

theorem squeeze_run_first {run rest : List α} (hne : run ≠ []) (h : ∀ c ∈ run, p c = true) :
    squeeze p d false (run ++ rest) = d :: squeeze p d true rest := by
  obtain ⟨c, more, rfl⟩ := List.exists_cons_of_ne_nil hne
  obtain ⟨hc, hmore⟩ := List.forall_mem_cons.mp h
  simp [squeeze, hc, squeeze_run hmore]

theorem mem_squeeze {after : Bool} {l : List α} {c : α} (h : c ∈ squeeze p d after l) :
    c ∈ l ∨ c = d := by
  induction l generalizing after with
  | nil => cases h
  | cons e rest ih =>
      rw [squeeze] at h
      split at h
      · split at h
        · exact (ih h).imp_left (List.mem_cons_of_mem e)
        · rcases List.mem_cons.mp h with h | h
          · exact Or.inr h
          · exact (ih h).imp_left (List.mem_cons_of_mem e)
      · rcases List.mem_cons.mp h with h | h
        · exact Or.inl (h ▸ List.mem_cons_self)
        · exact (ih h).imp_left (List.mem_cons_of_mem e)

theorem filter_squeeze {q : α → Bool} (hq : ∀ c, p c = true → q c = false) (hd : p d = true)
    (after : Bool) (l : List α) : (squeeze p d after l).filter q = l.filter q := by
  induction l generalizing after with
  | nil => rfl
  | cons c rest ih =>
      cases hc : p c with
      | false => simp [squeeze, hc, List.filter_cons, ih]
      | true => cases after <;> simp [squeeze, hc, hq c hc, hq d hd, ih]

theorem head?_squeeze {after : Bool} {l : List α} (h : ∀ c ∈ l.head?, p c = false) :
    (squeeze p d after l).head? = l.head? := by
  cases l with
  | nil => rfl
  | cons c rest => rw [squeeze_cons_of_neg (h c rfl), List.head?_cons, List.head?_cons]

theorem getLast?_squeeze {after : Bool} {l : List α} (h : ∀ c ∈ l.getLast?, p c = false) :
    (squeeze p d after l).getLast? = l.getLast? := by
  rcases List.eq_nil_or_concat l with rfl | ⟨front, c, rfl⟩
  · rfl
  · have hc : p c = false := h c (by simp)
    rw [List.concat_eq_append, squeeze_append, squeeze_cons_of_neg hc]
    simp [squeeze]

end Squeeze

/-! ### Taking elements out -/

/-- The elements of a list with marks, and those marked to be kept. -/
def everything (m : List (α × Bool)) : List α := m.map Prod.fst

def kept (m : List (α × Bool)) : List α := (m.filter Prod.snd).map Prod.fst

section Kept

variable {space white : α → Bool} {d : α}

theorem everything_append (a b : List (α × Bool)) :
    everything (a ++ b) = everything a ++ everything b :=
  List.map_append

theorem kept_append (a b : List (α × Bool)) : kept (a ++ b) = kept a ++ kept b := by
  rw [kept, List.filter_append, List.map_append]
  rfl

theorem mem_everything {m : List (α × Bool)} {p : α → Bool} {value : Bool} :
    (∀ c ∈ everything m, p c = value) ↔ ∀ x ∈ m, p x.1 = value :=
  List.forall_mem_map

theorem mem_kept {m : List (α × Bool)} {p : α → Bool} {value : Bool}
    (h : ∀ x ∈ m, p x.1 = value) : ∀ c ∈ kept m, p c = value := by
  intro c hc
  obtain ⟨x, hx, rfl⟩ := List.mem_map.mp hc
  exact h x (List.mem_filter.mp hx).1

theorem head?_everything {m : List (α × Bool)} {p : α → Bool} {value : Bool}
    (h : ∀ x ∈ m.head?, p x.1 = value) : ∀ c ∈ (everything m).head?, p c = value := by
  intro c hc
  rw [everything, List.head?_map] at hc
  obtain ⟨x, hx, rfl⟩ := Option.map_eq_some_iff.mp hc
  exact h x hx

theorem getLast?_everything {m : List (α × Bool)} {p : α → Bool} {value : Bool}
    (h : ∀ x ∈ m.getLast?, p x.1 = value) : ∀ c ∈ (everything m).getLast?, p c = value := by
  intro c hc
  rw [everything, List.getLast?_map] at hc
  obtain ⟨x, hx, rfl⟩ := Option.map_eq_some_iff.mp hc
  exact h x hx

theorem kept_eq_nil {m : List (α × Bool)} (h : ∀ x ∈ m, x.2 = false) : kept m = [] := by
  have hfilter : m.filter Prod.snd = [] := by
    simpa using h
  rw [kept, hfilter, List.map_nil]

theorem head?_kept {m : List (α × Bool)} (h : ∀ x ∈ m.head?, x.2 = true) :
    (kept m).head? = (everything m).head? := by
  cases m with
  | nil => rfl
  | cons x rest =>
      have hx : x.2 = true := h x rfl
      simp [kept, everything, hx]

theorem getLast?_kept {m : List (α × Bool)} (h : ∀ x ∈ m.getLast?, x.2 = true) :
    (kept m).getLast? = (everything m).getLast? := by
  rcases List.eq_nil_or_concat m with rfl | ⟨front, x, rfl⟩
  · rfl
  · have hx : x.2 = true := h x (by simp)
    simp [kept, everything, hx]

/-- If what passes a test is the same without some elements, none of these passes it. -/
theorem filter_kept {q : α → Bool} {m : List (α × Bool)}
    (h : (everything m).filter q = (kept m).filter q) : ∀ x ∈ m, x.2 = false → q x.1 = false := by
  induction m with
  | nil => exact List.forall_mem_nil _
  | cons x rest ih =>
      have hsub : (kept rest).Sublist (everything rest) := List.filter_sublist.map Prod.fst
      have hlength := (hsub.filter q).length_le
      cases hx : x.2 with
      | true =>
          have hrest : (everything rest).filter q = (kept rest).filter q := by
            cases hq : q x.1 with
            | true => simpa [everything, kept, hx, hq] using h
            | false => simpa [everything, kept, hx, hq] using h
          refine List.forall_mem_cons.mpr ⟨fun hout => ?_, ih hrest⟩
          rw [hx] at hout
          cases hout
      | false =>
          cases hq : q x.1 with
          | true =>
              -- The element taken out is missing.
              have heq := congrArg List.length h
              simp only [everything, kept, List.map_cons, List.filter_cons, hx, hq, if_true,
                Bool.false_eq_true, if_false, List.length_cons] at heq
              simp only [everything, kept] at hlength
              omega
          | false =>
              have hrest : (everything rest).filter q = (kept rest).filter q := by
                simpa [everything, kept, hx, hq] using h
              exact List.forall_mem_cons.mpr ⟨fun _ => hq, ih hrest⟩

/-- Each run of a class keeps an element. -/
def RunsKept (space : α → Bool) (m : List (α × Bool)) : Prop :=
  ∀ front run back, m = front ++ (run ++ back) → run ≠ [] → (∀ x ∈ run, space x.1 = true) →
    (∀ x ∈ front.getLast?, space x.1 = false) → (∀ x ∈ back.head?, space x.1 = false) →
      ∃ x ∈ run, x.2 = true

theorem runsKept_cons {x : α × Bool} {rest : List (α × Bool)} (hx : space x.1 = false) :
    RunsKept space (x :: rest) ↔ RunsKept space rest := by
  constructor
  · intro h front run back hsplit hne hrun hfront
    apply h (x :: front) run back (by rw [hsplit, List.cons_append]) hne hrun
    cases front with
    | nil =>
        intro y hy
        obtain rfl := Option.some.inj hy
        exact hx
    | cons z more => rwa [List.getLast?_cons_cons]
  · intro h front run back hsplit hne hrun hfront
    cases front with
    | nil =>
        obtain ⟨y, more, rfl⟩ := List.exists_cons_of_ne_nil hne
        have hy := hrun y List.mem_cons_self
        rw [← (List.cons.inj hsplit).1, hx] at hy
        cases hy
    | cons z front =>
        obtain ⟨-, hsplit⟩ := List.cons.inj hsplit
        apply h front run back hsplit hne hrun
        cases front with
        | nil =>
            intro y hy
            cases hy
        | cons w more => rwa [List.getLast?_cons_cons] at hfront

/-- A run in front that keeps an element does not matter. -/
theorem runsKept_append {run tail : List (α × Bool)} (hrun : ∀ x ∈ run, space x.1 = true)
    (hkeeps : ∃ x ∈ run, x.2 = true) (htail : ∀ x ∈ tail.head?, space x.1 = false) :
    RunsKept space (run ++ tail) ↔ RunsKept space tail := by
  constructor
  · intro h front inner back hsplit hne hinner hfront
    apply h (run ++ front) inner back (by rw [hsplit, List.append_assoc]) hne hinner
    cases front with
    | nil =>
        obtain ⟨y, more, rfl⟩ := List.exists_cons_of_ne_nil hne
        have hy := htail y (by rw [hsplit]; rfl)
        rw [hinner y List.mem_cons_self] at hy
        cases hy
    | cons z more =>
        rwa [List.getLast?_append_of_ne_nil _ (List.cons_ne_nil z more)]
  · intro h front inner back hsplit hne hinner hfront hback
    rcases List.append_eq_append_iff.mp hsplit with ⟨more, rfl, htailsplit⟩ | ⟨more, hrunsplit, hmore⟩
    · -- The inner run stands in the tail.
      apply h more inner back htailsplit hne hinner _ hback
      intro y hy
      apply hfront
      rw [List.getLast?_append_of_ne_nil _ (List.ne_nil_of_mem (List.mem_of_getLast? hy))]
      exact hy
    · -- It begins in the run, so it is the run.
      have hnil : front = [] := by
        by_contra hfrontne
        have hlast := List.getLast_mem hfrontne
        have hspace := hrun _ (hrunsplit ▸ List.mem_append_left more hlast)
        rw [hfront _ (List.getLast?_eq_getLast_of_ne_nil hfrontne)] at hspace
        cases hspace
      obtain ⟨x, hx, hkept⟩ := hkeeps
      rw [hnil, List.nil_append] at hrunsplit
      subst hrunsplit
      rcases List.append_eq_append_iff.mp hmore with ⟨beyond, rfl, hbeyond⟩ | ⟨beyond, rfl, -⟩
      · cases beyond with
        | nil => exact ⟨x, by rwa [List.append_nil] at hx, hkept⟩
        | cons y more =>
            have hspace := hrun y (List.mem_append_right inner List.mem_cons_self)
            rw [hback y (by rw [hbeyond]; rfl)] at hspace
            cases hspace
      · exact ⟨x, List.mem_append_left beyond hx, hkept⟩

/-- If only elements of the class are taken out, the collapsed list is the same exactly when each run
keeps one. -/
theorem squeeze_kept_iff {m : List (α × Bool)} (hd : space d = true)
    (hout : ∀ x ∈ m, x.2 = false → space x.1 = true) :
    squeeze space d false (everything m) = squeeze space d false (kept m) ↔
      RunsKept space m := by
  induction hlength : m.length using Nat.strongRecOn generalizing m with
  | ind n ih =>
      obtain ⟨run, tail, rfl, hrun, htail⟩ := exists_stretch (fun x => space x.1) true m
      have htail : ∀ x ∈ tail.head?, space x.1 = false := htail
      have htailkept : ∀ x ∈ tail.head?, x.2 = true := by
        intro x hx
        by_contra hnot
        have hspace := hout x (List.mem_append_right run (List.mem_of_mem_head? hx))
          (by simpa using hnot)
        rw [htail x hx] at hspace
        cases hspace
      have htailout : ∀ x ∈ tail, x.2 = false → space x.1 = true :=
        fun x hx => hout x (List.mem_append_right run hx)
      have hhead : ∀ c ∈ (everything tail).head?, space c = false := head?_everything htail
      have hkepthead : ∀ c ∈ (kept tail).head?, space c = false := by
        rwa [head?_kept htailkept]
      have heverything := mem_everything.mpr hrun
      have hkept := mem_kept hrun
      rw [everything_append, kept_append]
      by_cases hempty : run = []
      · -- The list does not begin with the class.
        subst hempty
        cases tail with
        | nil =>
            refine iff_of_true rfl fun front run back hsplit hne => ?_
            simp at hsplit
            exact absurd hsplit.2.1 hne
        | cons x rest =>
            have hx : space x.1 = false := htail x rfl
            have hxkept : x.2 = true := htailkept x rfl
            have hrest := ih rest.length (by rw [← hlength]; simp)
              (fun y hy => htailout y (List.mem_cons_of_mem x hy)) rfl
            have hcons : everything (x :: rest) = x.1 :: everything rest := rfl
            have hkeptcons : kept (x :: rest) = x.1 :: kept rest := by
              simp [kept, hxkept]
            rw [List.nil_append, runsKept_cons hx, ← hrest, hcons, hkeptcons]
            show squeeze space d false (x.1 :: _) = squeeze space d false (x.1 :: _) ↔ _
            rw [squeeze_cons_of_neg hx, squeeze_cons_of_neg hx, List.cons_inj_right]
      have hne : everything run ≠ [] := by
        simpa [everything] using hempty
      by_cases hkeeps : ∃ x ∈ run, x.2 = true
      · -- Both lists begin with a run of the class.
        have hkeptne : kept run ≠ [] := by
          obtain ⟨x, hx, hxkept⟩ := hkeeps
          exact List.ne_nil_of_mem (List.mem_map_of_mem (List.mem_filter.mpr ⟨hx, hxkept⟩))
        have htaillength : tail.length < n := by
          rw [← hlength, List.length_append]
          have := List.length_pos_iff.mpr hempty
          omega
        rw [squeeze_run_first hne heverything, squeeze_run_first hkeptne hkept,
          squeeze_of_head hhead, squeeze_of_head hkepthead, List.cons_inj_right,
          runsKept_append hrun hkeeps htail]
        exact ih tail.length htaillength htailout rfl
      · -- Only the whole list begins with one.
        have hnone : ∀ x ∈ run, x.2 = false := by
          simpa using hkeeps
        refine iff_of_false (fun heq => ?_) fun hruns => hkeeps ?_
        · have hfirst := congrArg List.head? heq
          rw [squeeze_run_first hne heverything, kept_eq_nil hnone, List.nil_append,
            head?_squeeze hkepthead, List.head?_cons] at hfirst
          have hspace := hkepthead d hfirst.symm
          rw [hd] at hspace
          cases hspace
        · exact hruns [] run tail rfl hempty hrun (fun x hx => by cases hx) htail

end Kept

/-! ### Tidy lists -/

/-- The runs of `space` collapsed to `d`, and `white` trimmed off. -/
def tidy (white space : α → Bool) (d : α) (l : List α) : List α :=
  trim white (squeeze space d false l)

/-- What is taken out does not matter to the tidy list: it is white, it belongs to runs of `space`
inside the trimmed ends, and each of these runs keeps an element. -/
structure Harmless (white space : α → Bool) (m : List (α × Bool)) : Prop where
  out : ∀ x ∈ m, x.2 = false → white x.1 = true
  inner : ∀ x ∈ trim (fun x => white x.1) m, x.2 = false → space x.1 = true
  runs : RunsKept space (trim (fun x => white x.1) m)

section Tidy

variable {white space : α → Bool} {d : α}

/-- The white ends go, and the rest is collapsed. -/
theorem tidy_eq (hwhite : ∀ c, space c = true → white c = true) (hd : space d = true)
    {lead core trail : List α} (hlead : ∀ c ∈ lead, white c = true)
    (htrail : ∀ c ∈ trail, white c = true) (hfirst : ∀ c ∈ core.head?, white c = false)
    (hlast : ∀ c ∈ core.getLast?, white c = false) :
    tidy white space d (lead ++ (core ++ trail)) = squeeze space d false core := by
  have hplain : ∀ {c}, white c = false → space c = false := by
    intro c hc
    by_contra hspace
    rw [hwhite c (by simpa using hspace)] at hc
    cases hc
  have hside : ∀ {after : Bool} {side : List α}, (∀ c ∈ side, white c = true) →
      ∀ c ∈ squeeze space d after side, white c = true := by
    intro after side hside c hc
    rcases mem_squeeze hc with hc | rfl
    · exact hside c hc
    · exact hwhite c hd
  have hcore : ∀ after, squeeze space d after core = squeeze space d false core :=
    squeeze_of_head fun c hc => hplain (hfirst c hc)
  rw [tidy, squeeze_append, squeeze_append, trim_append_left (hside hlead),
    trim_append_right (hside htrail), hcore, trim_eq_self]
  · rwa [head?_squeeze fun c hc => hplain (hfirst c hc)]
  · rwa [getLast?_squeeze fun c hc => hplain (hlast c hc)]

theorem filter_tidy (hwhite : ∀ c, space c = true → white c = true) (hd : space d = true)
    (l : List α) : (tidy white space d l).filter (!white ·) = l.filter (!white ·) := by
  have hside : ∀ {side : List α}, (∀ c ∈ side, white c = true) → side.filter (!white ·) = [] := by
    intro side hside
    simpa using hside
  have hspace : ∀ c, space c = true → (!white c) = false := by
    intro c hc
    rw [hwhite c hc]
    rfl
  obtain ⟨lead, trail, hsplit, hlead, htrail, -, -⟩ := exists_trim white (squeeze space d false l)
  rw [← filter_squeeze hspace hd false l, hsplit, List.filter_append, List.filter_append,
    hside hlead, hside htrail, List.append_nil, List.nil_append]
  rfl

theorem tidy_kept_iff (hwhite : ∀ c, space c = true → white c = true) (hd : space d = true)
    (m : List (α × Bool)) :
    tidy white space d (everything m) = tidy white space d (kept m) ↔ Harmless white space m := by
  obtain ⟨lead, trail, hsplit, hlead, htrail, hfirst, hlast⟩ := exists_trim (fun x => white x.1) m
  -- If only white elements are taken out, both lists have the same ends.
  have hcore : (∀ x ∈ m, x.2 = false → white x.1 = true) →
      (tidy white space d (everything m) = tidy white space d (kept m) ↔
        squeeze space d false (everything (trim (fun x => white x.1) m)) =
          squeeze space d false (kept (trim (fun x => white x.1) m))) := by
    intro hout
    have hcorekept : ∀ x ∈ trim (fun x => white x.1) m, white x.1 = false → x.2 = true := by
      intro x hx hwhite
      by_contra hnot
      have hmem : x ∈ m := by
        rw [hsplit]
        exact List.mem_append_right lead (List.mem_append_left trail hx)
      rw [hout x hmem (by simpa using hnot)] at hwhite
      cases hwhite
    generalize trim (fun x => white x.1) m = core at *
    subst hsplit
    have hfirstkept : (kept core).head? = (everything core).head? :=
      head?_kept fun x hx => hcorekept x (List.mem_of_mem_head? hx) (hfirst x hx)
    have hlastkept : (kept core).getLast? = (everything core).getLast? :=
      getLast?_kept fun x hx => hcorekept x (List.mem_of_getLast? hx) (hlast x hx)
    have hfirst := head?_everything hfirst
    have hlast := getLast?_everything hlast
    rw [everything_append, everything_append, kept_append, kept_append,
      tidy_eq hwhite hd (mem_everything.mpr hlead) (mem_everything.mpr htrail) hfirst hlast,
      tidy_eq hwhite hd (mem_kept hlead) (mem_kept htrail) (hfirstkept ▸ hfirst)
        (hlastkept ▸ hlast)]
  constructor
  · intro heq
    have hout : ∀ x ∈ m, x.2 = false → white x.1 = true := by
      have hfilter := congrArg (List.filter (!white ·)) heq
      rw [filter_tidy hwhite hd, filter_tidy hwhite hd] at hfilter
      simpa using filter_kept hfilter
    have hsqueeze := (hcore hout).mp heq
    have hspace : ∀ x ∈ trim (fun x => white x.1) m, x.2 = false → space x.1 = true := by
      have hfilter := congrArg (List.filter (!space ·)) hsqueeze
      have hnot : ∀ c, space c = true → (!space c) = false := by
        intro c hc
        rw [hc]
        rfl
      rw [filter_squeeze hnot hd, filter_squeeze hnot hd] at hfilter
      simpa using filter_kept hfilter
    exact ⟨hout, hspace, (squeeze_kept_iff hd hspace).mp hsqueeze⟩
  · intro h
    exact (hcore h.out).mpr ((squeeze_kept_iff hd h.inner).mpr h.runs)

end Tidy

/-! ### Renamed lists -/

section Renamed

variable {β : Type} {g : β → α}

theorem trim_map (p : α → Bool) (f : β → α) (l : List β) :
    trim p (l.map f) = (trim (fun b => p (f b)) l).map f := by
  have hdrop : ∀ s : List β, (s.map f).dropWhile p = (s.dropWhile fun b => p (f b)).map f := by
    intro s
    rw [List.dropWhile_map]
    rfl
  rw [trim, trim, hdrop, ← List.map_reverse, hdrop, ← List.map_reverse]

theorem runsKept_map {space : α → Bool} (g : β → α) (m : List (β × Bool)) :
    RunsKept space (m.map fun x => (g x.1, x.2)) ↔ RunsKept (fun b => space (g b)) m := by
  have hends : ∀ {place : Option (β × Bool)} {value : Bool},
      (∀ x ∈ place.map fun x => (g x.1, x.2), space x.1 = value) ↔
        ∀ x ∈ place, space (g x.1) = value := by
    intro place value
    cases place with
    | none => simp
    | some x => simp
  constructor
  · intro h front run back hsplit hne hrun hfront hback
    have hmap : m.map (fun x => (g x.1, x.2)) = front.map (fun x => (g x.1, x.2)) ++
        (run.map (fun x => (g x.1, x.2)) ++ back.map fun x => (g x.1, x.2)) := by
      rw [hsplit, List.map_append, List.map_append]
    obtain ⟨y, hy, hykept⟩ := h _ _ _ hmap (by simpa using hne) (List.forall_mem_map.mpr hrun)
      (by rw [List.getLast?_map]; exact hends.mpr hfront)
      (by rw [List.head?_map]; exact hends.mpr hback)
    obtain ⟨x, hx, rfl⟩ := List.mem_map.mp hy
    exact ⟨x, hx, hykept⟩
  · intro h front run back hsplit hne hrun hfront hback
    obtain ⟨front, others, rfl, rfl, hothers⟩ := List.map_eq_append_iff.mp hsplit
    obtain ⟨run, back, rfl, rfl, rfl⟩ := List.map_eq_append_iff.mp hothers
    rw [List.getLast?_map] at hfront
    rw [List.head?_map] at hback
    obtain ⟨x, hx, hxkept⟩ := h front run back rfl (by simpa using hne)
      (List.forall_mem_map.mp hrun) (hends.mp hfront) (hends.mp hback)
    exact ⟨(g x.1, x.2), List.mem_map_of_mem hx, hxkept⟩

theorem harmless_map {white space : α → Bool} (g : β → α) (m : List (β × Bool)) :
    Harmless white space (m.map fun x => (g x.1, x.2)) ↔
      Harmless (fun b => white (g b)) (fun b => space (g b)) m := by
  have htrim := trim_map (fun x : α × Bool => white x.1) (fun x : β × Bool => (g x.1, x.2)) m
  constructor
  · intro h
    have hinner := h.inner
    have hruns := h.runs
    rw [htrim] at hinner hruns
    exact ⟨List.forall_mem_map.mp h.out, List.forall_mem_map.mp hinner,
      (runsKept_map g _).mp hruns⟩
  · intro h
    refine ⟨List.forall_mem_map.mpr h.out, ?_, ?_⟩
    · rw [htrim]
      exact List.forall_mem_map.mpr h.inner
    · rw [htrim]
      exact (runsKept_map g _).mpr h.runs

end Renamed

end SphereFx
