import Mathlib.Logic.Basic

/-!
# Sequences of checks

A function that returns on the first check that fails is an `Except` computation. These lemmas read
off what an accepted run has passed.
-/

namespace SphereFx

variable {ε α β : Type}

/-- `if c { return e }`. -/
def refuseIf (c : Prop) [Decidable c] (e : ε) : Except ε Unit :=
  if c then .error e else .ok ()

@[simp] theorem bind_eq_ok {x : Except ε α} {f : α → Except ε β} {b : β} :
    (x >>= f) = .ok b ↔ ∃ a, x = .ok a ∧ f a = .ok b := by
  cases x with
  | error e =>
      constructor
      · intro h
        cases h
      · rintro ⟨a, h, -⟩
        cases h
  | ok a =>
      constructor
      · exact fun h => ⟨a, rfl, h⟩
      · rintro ⟨a', h, hf⟩
        cases h
        exact hf

@[simp] theorem pure_eq_ok {a b : α} : (pure a : Except ε α) = .ok b ↔ a = b :=
  Except.ok.injEq a b ▸ Iff.rfl

@[simp] theorem refuseIf_eq_ok {c : Prop} [Decidable c] {e : ε} {u : Unit} :
    refuseIf c e = .ok u ↔ ¬ c := by
  unfold refuseIf
  split
  · rename_i h
    constructor
    · intro h'
      cases h'
    · intro h'
      exact absurd h h'
  · rename_i h
    constructor
    · intro _
      exact h
    · intro _
      rfl

@[simp] theorem mapError_eq_ok {δ : Type} {x : Except ε α} {f : ε → δ} {a : α} :
    x.mapError f = .ok a ↔ x = .ok a := by
  cases x with
  | error e =>
      constructor
      · intro h
        cases h
      · intro h
        cases h
  | ok a' =>
      change Except.ok a' = Except.ok a ↔ Except.ok a' = Except.ok a
      rw [Except.ok.injEq, Except.ok.injEq]

theorem toOption_eq_some {x : Except ε α} {a : α} : x.toOption = some a ↔ x = .ok a := by
  cases x with
  | error e => exact ⟨fun h => (by cases h), fun h => (by cases h)⟩
  | ok b =>
      change some b = some a ↔ Except.ok b = Except.ok a
      rw [Option.some.injEq, Except.ok.injEq]

/-- Every error of the computation is of one kind. -/
def RaisesOnly (kind : ε → Prop) (x : Except ε α) : Prop := ∀ e, x = .error e → kind e

theorem RaisesOnly.bind {kind : ε → Prop} {x : Except ε α} {f : α → Except ε β}
    (hx : RaisesOnly kind x) (hf : ∀ a, RaisesOnly kind (f a)) : RaisesOnly kind (x >>= f) := by
  cases x with
  | error e =>
      intro e' h
      cases h
      exact hx e rfl
  | ok a => exact hf a

end SphereFx
