import Mathlib.Data.List.Basic
import Mathlib.Logic.Relation

/-!
# Runs of a step function

A partial step function takes a state and an action and answers nothing when the action is not
enabled. A total one is run with `List.foldl`, and the states it passes through are `visited`.
-/

namespace SphereFx

universe u v w

variable {σ : Type u} {α : Type v}

/-- The state after a list of actions, if every one of them was enabled. -/
def runFrom (step : σ → α → Option σ) : σ → List α → Option σ
  | s, [] => some s
  | s, a :: rest => (step s a).bind (fun t => runFrom step t rest)

theorem runFrom_cons {step : σ → α → Option σ} {s t : σ} {a : α} {rest : List α}
    (h : runFrom step s (a :: rest) = some t) :
    ∃ mid, step s a = some mid ∧ runFrom step mid rest = some t :=
  Option.bind_eq_some_iff.mp h

theorem runFrom_append (step : σ → α → Option σ) (s : σ) (first rest : List α) :
    runFrom step s (first ++ rest) = (runFrom step s first).bind fun t => runFrom step t rest := by
  induction first generalizing s with
  | nil => rfl
  | cons a tail ih =>
      simp only [List.cons_append, runFrom, Option.bind_assoc]
      exact congrArg _ (funext ih)

/-- What every enabled step keeps, every run keeps. -/
theorem runFrom_invariant {step : σ → α → Option σ} {Inv : σ → Prop}
    (hstep : ∀ {s a t}, Inv s → step s a = some t → Inv t) {s t : σ} {actions : List α}
    (hs : Inv s) (h : runFrom step s actions = some t) : Inv t := by
  induction actions generalizing s with
  | nil => exact Option.some.inj h ▸ hs
  | cons a rest ih =>
      obtain ⟨mid, hmid, hrest⟩ := runFrom_cons h
      exact ih (hstep hs hmid) hrest

/-- A run of the concrete steps is a run of the abstract ones when every concrete step is an abstract
one or leaves the abstract state as it is. -/
theorem runFrom_simulates {τ : Type w} {step : σ → α → Option σ} {Inv : σ → Prop} {view : σ → τ}
    {Next : τ → τ → Prop} (hinv : ∀ {s a t}, Inv s → step s a = some t → Inv t)
    (hstep : ∀ {s a t}, Inv s → step s a = some t → view t = view s ∨ Next (view s) (view t))
    {s t : σ} {actions : List α} (hs : Inv s) (h : runFrom step s actions = some t) :
    Relation.ReflTransGen Next (view s) (view t) := by
  induction actions generalizing s with
  | nil => exact Option.some.inj h ▸ .refl
  | cons a rest ih =>
      obtain ⟨mid, hmid, hrest⟩ := runFrom_cons h
      have htail := ih (hinv hs hmid) hrest
      rcases hstep hs hmid with hsame | hnext
      · rwa [hsame] at htail
      · exact .head hnext htail

/-- A run whose states all satisfy a condition, the first and the last included. -/
inductive RunWithin (step : σ → α → Option σ) (P : σ → Prop) : σ → List α → σ → Prop where
  | nil {s : σ} (hs : P s) : RunWithin step P s [] s
  | cons {s mid t : σ} {a : α} {rest : List α} (hs : P s) (hstep : step s a = some mid)
      (hrest : RunWithin step P mid rest t) : RunWithin step P s (a :: rest) t

/-- What every step from a state with the condition keeps, such a run keeps. -/
theorem RunWithin.invariant {step : σ → α → Option σ} {P Inv : σ → Prop}
    (hstep : ∀ {s a t}, Inv s → P s → step s a = some t → Inv t) {s t : σ} {actions : List α}
    (hs : Inv s) (h : RunWithin step P s actions t) : Inv t := by
  induction h with
  | nil _ => exact hs
  | cons hP hmid _ ih => exact ih (hstep hs hP hmid)

/-! ### Total steps -/

/-- Every state a run passes through, the first and the last included. -/
def visited (step : σ → α → σ) : σ → List α → List σ
  | s, [] => [s]
  | s, a :: rest => s :: visited step (step s a) rest

/-- Every step of a run meets a condition in the state it is taken from. -/
def Along (step : σ → α → σ) (meets : σ → α → Prop) : σ → List α → Prop
  | _, [] => True
  | s, a :: rest => meets s a ∧ Along step meets (step s a) rest

instance decidableAlong (step : σ → α → σ) (meets : σ → α → Prop) [∀ s a, Decidable (meets s a)] :
    ∀ (actions : List α) (s : σ), Decidable (Along step meets s actions)
  | [], _ => isTrue trivial
  | a :: rest, s => @instDecidableAnd _ _ inferInstance (decidableAlong step meets rest (step s a))

theorem mem_visited_self (step : σ → α → σ) (s : σ) (actions : List α) :
    s ∈ visited step s actions := by
  cases actions with
  | nil => exact List.mem_singleton_self s
  | cons a rest => exact List.mem_cons_self

theorem foldl_mem_visited (step : σ → α → σ) (s : σ) (actions : List α) :
    actions.foldl step s ∈ visited step s actions := by
  induction actions generalizing s with
  | nil => exact List.mem_singleton_self s
  | cons a rest ih => exact List.mem_cons_of_mem _ (ih (step s a))

theorem along_of_forall {step : σ → α → σ} {meets : σ → α → Prop} {actions : List α}
    (h : ∀ a ∈ actions, ∀ s, meets s a) (s : σ) : Along step meets s actions := by
  induction actions generalizing s with
  | nil => exact trivial
  | cons a rest ih =>
      exact ⟨h a List.mem_cons_self s, ih (fun b hb => h b (List.mem_cons_of_mem _ hb)) (step s a)⟩

/-- What every step that meets the condition keeps holds in every state of a run whose steps all
meet it. -/
theorem visited_of_along {step : σ → α → σ} {meets : σ → α → Prop} {Inv : σ → Prop}
    (hstep : ∀ {s a}, Inv s → meets s a → Inv (step s a)) {s : σ} {actions : List α}
    (hs : Inv s) (h : Along step meets s actions) : ∀ t ∈ visited step s actions, Inv t := by
  induction actions generalizing s with
  | nil =>
      intro t ht
      rw [List.mem_singleton.mp ht]
      exact hs
  | cons a rest ih =>
      intro t ht
      rcases List.mem_cons.mp ht with rfl | ht
      · exact hs
      · exact ih (hstep hs h.1) h.2 t ht

/-- Where a step that breaks the condition also breaks the property, the property in every state
forces the condition on every step. -/
theorem along_of_visited {step : σ → α → σ} {meets : σ → α → Prop} {Good Inv : σ → Prop}
    (hstep : ∀ {s a}, Inv s → Inv (step s a))
    (hbreak : ∀ {s a}, Inv s → Good s → Good (step s a) → meets s a) {s : σ} {actions : List α}
    (hs : Inv s) (h : ∀ t ∈ visited step s actions, Good t) : Along step meets s actions := by
  induction actions generalizing s with
  | nil => exact trivial
  | cons a rest ih =>
      have hgood : Good s := h s List.mem_cons_self
      have hnext : Good (step s a) :=
        h _ (List.mem_cons_of_mem _ (mem_visited_self step (step s a) rest))
      exact ⟨hbreak hs hgood hnext, ih (hstep hs) (fun t ht => h t (List.mem_cons_of_mem _ ht))⟩

/-- A property that holds exactly as long as every step has met the condition, shown by an invariant
that such steps keep. -/
theorem visited_iff_along {step : σ → α → σ} {meets : σ → α → Prop} (Inv Good : σ → Prop)
    (hgood : ∀ {s}, Inv s → Good s) (hstep : ∀ {s a}, Inv s → meets s a → Inv (step s a))
    (hbreak : ∀ {s a}, Inv s → Good (step s a) → meets s a) {s : σ} {actions : List α} (hs : Inv s) :
    (∀ t ∈ visited step s actions, Good t) ↔ Along step meets s actions := by
  constructor
  · intro h
    induction actions generalizing s with
    | nil => exact trivial
    | cons a rest ih =>
        have hnext : Good (step s a) :=
          h _ (List.mem_cons_of_mem _ (mem_visited_self step (step s a) rest))
        have hmeets := hbreak hs hnext
        exact ⟨hmeets, ih (hstep hs hmeets) fun t ht => h t (List.mem_cons_of_mem _ ht)⟩
  · exact fun h t ht => hgood (visited_of_along hstep hs h t ht)

theorem measure_le_foldl {step : σ → α → σ} (measure : σ → Nat)
    (hle : ∀ s a, measure s ≤ measure (step s a)) (s : σ) (actions : List α) :
    measure s ≤ measure (actions.foldl step s) := by
  induction actions generalizing s with
  | nil => exact Nat.le_refl _
  | cons a rest ih => exact Nat.le_trans (hle s a) (ih (step s a))

theorem measure_lt_foldl {step : σ → α → σ} (measure : σ → Nat)
    (hle : ∀ s a, measure s ≤ measure (step s a)) {a : α} (hlt : ∀ s, measure s < measure (step s a))
    {actions : List α} (ha : a ∈ actions) (s : σ) : measure s < measure (actions.foldl step s) := by
  induction actions generalizing s with
  | nil => cases ha
  | cons b rest ih =>
      rcases List.mem_cons.mp ha with rfl | ha
      · exact Nat.lt_of_lt_of_le (hlt s) (measure_le_foldl measure hle _ rest)
      · exact Nat.lt_of_le_of_lt (hle s b) (ih ha _)

/-- An invariant of the step function holds in every state of a run. -/
theorem visited_invariant {step : σ → α → σ} {Inv : σ → Prop}
    (hstep : ∀ {s a}, Inv s → Inv (step s a)) {s : σ} {actions : List α} (hs : Inv s) :
    ∀ t ∈ visited step s actions, Inv t := by
  induction actions generalizing s with
  | nil =>
      intro t ht
      rw [List.mem_singleton.mp ht]
      exact hs
  | cons a rest ih =>
      intro t ht
      rcases List.mem_cons.mp ht with rfl | ht
      · exact hs
      · exact ih (hstep hs) t ht

/-- Actions that leave a view as it is can be left out of a run when the others change the view by
itself. -/
theorem view_foldl_filter {τ : Type w} {step : σ → α → σ} {view : σ → τ} {relevant : α → Bool}
    (hskip : ∀ {s a}, relevant a = false → view (step s a) = view s)
    (hstep : ∀ {s t a}, relevant a = true → view s = view t → view (step s a) = view (step t a))
    {s t : σ} (h : view s = view t) (actions : List α) :
    view (actions.foldl step s) = view ((actions.filter relevant).foldl step t) := by
  induction actions generalizing s t with
  | nil => exact h
  | cons a rest ih =>
      cases ha : relevant a with
      | false =>
          rw [List.filter_cons_of_neg (by simp [ha]), List.foldl_cons]
          exact ih ((hskip ha).trans h)
      | true =>
          rw [List.filter_cons_of_pos ha, List.foldl_cons, List.foldl_cons]
          exact ih (hstep ha h)

/-! ### Schedules without end -/

/-- The states of a schedule that goes on for ever. -/
def trace (step : σ → α → σ) (s : σ) (schedule : Nat → α) : Nat → σ
  | 0 => s
  | n + 1 => step (trace step s schedule n) (schedule n)

theorem trace_of_steps {step : σ → α → σ} {meets : σ → α → Prop} {Inv : σ → Prop}
    (hstep : ∀ {s a}, Inv s → meets s a → Inv (step s a)) {s : σ} {schedule : Nat → α} (hs : Inv s)
    (h : ∀ n, meets (trace step s schedule n) (schedule n)) (n : Nat) :
    Inv (trace step s schedule n) := by
  induction n with
  | zero => exact hs
  | succ n ih => exact hstep ih (h n)

/-- What loses rank whenever it has its turn, and keeps its rank otherwise, is not busy for ever. -/
theorem trace_eventually {β : Type v} {r : β → β → Prop} (hr : WellFounded r) {step : σ → α → σ}
    (busy : σ → Prop) (rank : σ → β) (turn : α → Prop) {s : σ} {schedule : Nat → α}
    (hturn : ∀ n, busy (trace step s schedule n) → turn (schedule n) →
      busy (trace step s schedule (n + 1)) →
      r (rank (trace step s schedule (n + 1))) (rank (trace step s schedule n)))
    (hstay : ∀ n, busy (trace step s schedule n) → ¬ turn (schedule n) →
      busy (trace step s schedule (n + 1)) →
      rank (trace step s schedule (n + 1)) = rank (trace step s schedule n))
    (hoften : ∀ n, ∃ k ≥ n, turn (schedule k)) (n : Nat) :
    ∃ k ≥ n, ¬ busy (trace step s schedule k) := by
  by_contra hbusy
  have hbusy' : ∀ k ≥ n, busy (trace step s schedule k) :=
    fun k hk => not_not.mp fun hidle => hbusy ⟨k, hk, hidle⟩
  -- The outer induction is on the rank, the inner on the steps until the next turn.
  have hnone : ∀ b, ∀ k ≥ n, rank (trace step s schedule k) = b → False := by
    intro b
    induction b using hr.induction with
    | _ b ih =>
        have hnow : ∀ k ≥ n, rank (trace step s schedule k) = b → turn (schedule k) → False := by
          intro k hk hrank hturnk
          have hnext := hbusy' (k + 1) (Nat.le_succ_of_le hk)
          exact ih _ (hrank ▸ hturn k (hbusy' k hk) hturnk hnext) (k + 1) (Nat.le_succ_of_le hk) rfl
        have hwait : ∀ d, ∀ k ≥ n, rank (trace step s schedule k) = b →
            turn (schedule (k + d)) → False := by
          intro d
          induction d with
          | zero => exact hnow
          | succ d ih' =>
              intro k hk hrank hturnk
              by_cases hfirst : turn (schedule k)
              · exact hnow k hk hrank hfirst
              · have hnext := hbusy' (k + 1) (Nat.le_succ_of_le hk)
                have hrank' := (hstay k (hbusy' k hk) hfirst hnext).trans hrank
                refine ih' (k + 1) (Nat.le_succ_of_le hk) hrank' ?_
                rwa [Nat.succ_add_eq_add_succ]
        intro k hk hrank
        obtain ⟨m, hm, hturnm⟩ := hoften k
        refine hwait (m - k) k hk hrank ?_
        rwa [Nat.add_sub_cancel' hm]
  exact hnone _ n (Nat.le_refl n) rfl

end SphereFx
