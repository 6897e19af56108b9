import SphereFx.Base.Json

/-!
# Rows of the API's tables

A DECIMAL column is a rational and a DateTime column a number. A JSON column that is NULL and one
that holds `null` both load as `None`, which is `Json.null` here. Timestamps that only the database
writes and only responses show are left out.
-/

namespace SphereFx.Api

structure Signal where
  id : Nat
  rawText : Option String
  symbol : String
  action : String
  orderType : String
  entryPrice : Option ℚ
  stopLoss : Option ℚ
  takeProfit : Json
  confidence : Int
  status : String
  channelId : Option Nat
  createdBy : Nat
  createdAt : Nat

structure MT5Account where
  id : Nat
  userId : Nat
  login : String
  password : String
  server : String
  isActive : Bool
  balanceCache : Option ℚ
  equityCache : Option ℚ
  lastSync : Option Nat

inductive ApiError where
  | notFound (message : String)
  | conflict (message : String)
  | validation (message : String) (errors : List String)
  | unhandled (text : String)
  deriving DecidableEq, Repr

/-- `scalar_one_or_none` on the rows of a query. -/
def scalarOneOrNone {α : Type} : List α → Except ApiError (Option α)
  | [] => .ok none
  | [row] => .ok (some row)
  | _ => .error (.unhandled "MultipleResultsFound")

/-- `if not row: raise NotFoundError(..)`. -/
def orNotFound {α : Type} (row : Option α) (message : String) : Except ApiError α :=
  match row with
  | none => .error (.notFound message)
  | some row => .ok row

/-- A column that is not nullable refuses an explicit null of an update at the commit. -/
def notNull {α : Type} (field : Option (Option α)) : Except ApiError (Option α) :=
  match field with
  | none => .ok none
  | some none => .error (.unhandled "IntegrityError")
  | some (some value) => .ok (some value)

theorem notNull_eq_ok {α : Type} {field : Option (Option α)} {value : Option α} :
    notNull field = .ok value ↔ field ≠ some none ∧ value = field.join := by
  match field with
  | none => exact ⟨fun h => ⟨by simp, (Except.ok.inj h).symm⟩, fun h => by rw [h.2]; rfl⟩
  | some none => exact ⟨fun h => (by cases h), fun h => absurd rfl h.1⟩
  | some (some plain) =>
      exact ⟨fun h => ⟨by simp, (Except.ok.inj h).symm⟩, fun h => by rw [h.2]; rfl⟩

end SphereFx.Api
