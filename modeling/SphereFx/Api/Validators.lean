import SphereFx.Base.Check
import SphereFx.Api.Models
import SphereFx.Extractor.Messages

/-!
# The consistency check of a signal

`utils/validators.py` on the values it can meet at run time. A price of a request or a column is a
`Decimal` and one of the extractor a `float`; the targets of a request are dictionaries and those of
the extractor protobuf messages. The check is written for the former and raises on the latter.

`format` is how an f-string writes a JSON value.
-/

namespace SphereFx.Api

open Extractor (TakeProfitLevel)

/-! ### Values -/

inductive Price where
  | decimal (q : ℚ)
  | float (x : F64)
  deriving DecidableEq

namespace Price

def value : Price → F64
  | decimal q => .fin q
  | float x => x

/-- `bool(price)`. -/
def truthy (price : Price) : Bool := price.value ≠ .fin 0

/-- `x <= y`, which raises when a `Decimal` meets a NaN. -/
def le : Price → Price → Except ApiError Bool
  | decimal _, float .nan => .error (.unhandled "InvalidOperation")
  | float .nan, decimal _ => .error (.unhandled "InvalidOperation")
  | x, y => .ok (x.value ≤ y.value)

end Price

inductive TakeProfit where
  | none
  | dicts (items : List (List (String × Json)))
  | messages (levels : List TakeProfitLevel)

/-- A `take_profit` column: `None` or a list of dictionaries. -/
def TakeProfit.ofColumn : Json → Option TakeProfit
  | .null => some .none
  | .arr items => (items.mapM Json.object?).map .dicts
  | _ => Option.none

/-- A value as a member of a set; lists and dictionaries have no hash. -/
inductive HashKey where
  | none
  | number (q : ℚ)
  | text (s : String)
  deriving DecidableEq

def hashKey? : Json → Option HashKey
  | .null => some .none
  | .str s => some (.text s)
  | .arr _ => Option.none
  | .obj _ => Option.none
  | v => v.pyNumber?.map .number

/-! ### The checks -/

def validatePrice : Option Price → Except ApiError Bool
  | none => .ok true
  | some price =>
      if price.value > .fin 0 then
        match price with
        | .decimal _ => .ok true
        | .float _ => .error (.unhandled "'float' object has no attribute 'is_finite'")
      else .ok false

def validateSlEntryRelation (action : String) (entry : Price) :
    Option Price → Except ApiError (Option String)
  | none => .ok none
  | some stopLoss => do
      if action = "BUY" then
        return if ← entry.le stopLoss then
          some "Stop loss must be below entry for BUY orders" else none
      else
        return if ← stopLoss.le entry then
          some "Stop loss must be above entry for SELL orders" else none

section Targets

variable (format : Json → String)

/-- One round of the loop over the targets. -/
def checkTarget (action : String) (entry : Price) (tp : List (String × Json)) :
    Except ApiError (Option String) :=
  match (Json.lookup tp "price").getD .null with
  | .null => .ok none
  | price =>
      match price.pyNumber? with
      | none => .error (.unhandled "'<=' not supported between these types")
      | some q =>
          let level := ((Json.lookup tp "level").map format).getD ""
          if action = "BUY" then do
            return if ← (Price.float (.fin q)).le entry then
              some ("TP level " ++ level ++ " must be above entry for BUY orders") else none
          else do
            return if ← entry.le (.float (.fin q)) then
              some ("TP level " ++ level ++ " must be below entry for SELL orders") else none

def checkTargets (action : String) (entry : Price) :
    List (List (String × Json)) → Except ApiError (Option String)
  | [] => .ok none
  | tp :: rest => do
      match ← checkTarget format action entry tp with
      | some message => return some message
      | none => checkTargets action entry rest

def validateTpEntryRelation (action : String) (entry : Price) :
    TakeProfit → Except ApiError (Option String)
  | .none => .ok none
  | .dicts items => checkTargets format action entry items
  | .messages [] => .ok none
  | .messages (_ :: _) => .error (.unhandled "'TakeProfitLevel' object has no attribute 'get'")

def validateTpSequence : TakeProfit → Except ApiError (Option String)
  | .none => .ok none
  | .dicts items =>
      if items.length < 2 then .ok none
      else
        match items.mapM fun tp => hashKey? ((Json.lookup tp "level").getD .null) with
        | none => .error (.unhandled "unhashable type")
        | some levels => .ok (if levels.Nodup then none else some "Duplicate TP levels found")
  | .messages levels =>
      if levels.length < 2 then .ok none
      else .error (.unhandled "'TakeProfitLevel' object has no attribute 'get'")

def validateSignalConsistency (action : String) (entry : Price) (stopLoss : Option Price)
    (takeProfit : TakeProfit) : Except ApiError (List String) := do
  let entryOk ← validatePrice (some entry)
  let stopOk ← validatePrice stopLoss
  let stopSide ← validateSlEntryRelation action entry stopLoss
  let targetSide ← validateTpEntryRelation format action entry takeProfit
  let sequence ← validateTpSequence takeProfit
  return (if entryOk then [] else ["Entry price must be positive and finite"]) ++
    (if stopOk then [] else ["Stop loss must be positive and finite"]) ++
    stopSide.toList ++ targetSide.toList ++ sequence.toList

end Targets

/-! ### What the checks mean on stored values -/

def OnLossSide (action : String) (entry stop : ℚ) : Prop :=
  if action = "BUY" then stop < entry else entry < stop

def OnProfitSide (action : String) (entry price : ℚ) : Prop :=
  if action = "BUY" then entry < price else price < entry

instance (action : String) (entry stop : ℚ) : Decidable (OnLossSide action entry stop) :=
  inferInstanceAs (Decidable (if action = "BUY" then stop < entry else entry < stop))

instance (action : String) (entry price : ℚ) : Decidable (OnProfitSide action entry price) :=
  inferInstanceAs (Decidable (if action = "BUY" then entry < price else price < entry))

/-- A target without a price, or with a number on the profit side as its price. -/
def TargetOk (action : String) (entry : ℚ) (tp : List (String × Json)) : Prop :=
  (Json.lookup tp "price").getD .null = .null ∨
    ∃ q, ((Json.lookup tp "price").getD .null).pyNumber? = some q ∧ OnProfitSide action entry q

/-- Levels that can be compared, no two of them the same. -/
def DistinctLevels (items : List (List (String × Json))) : Prop :=
  items.length < 2 ∨
    ∃ levels, (items.mapM fun tp => hashKey? ((Json.lookup tp "level").getD .null)) = some levels ∧
      levels.Nodup

structure SignalOk (action : String) (entry : ℚ) (stopLoss : Option ℚ)
    (items : List (List (String × Json))) : Prop where
  entry_pos : 0 < entry
  stop_pos : ∀ stop ∈ stopLoss, 0 < stop
  stop_side : ∀ stop ∈ stopLoss, OnLossSide action entry stop
  targets : ∀ tp ∈ items, TargetOk action entry tp
  levels : DistinctLevels items

theorem validatePrice_decimal (price : Option ℚ) :
    validatePrice (price.map .decimal) = .ok (decide (∀ q ∈ price, 0 < q)) := by
  cases price with
  | none => simp [validatePrice]
  | some q => by_cases h : 0 < q <;> simp [validatePrice, Price.value, h]

theorem le_decimal (x y : ℚ) : (Price.decimal x).le (.decimal y) = .ok (decide (x ≤ y)) := by
  simp [Price.le, Price.value]

theorem validateSlEntryRelation_eq_ok_none {action : String} {entry : ℚ} {stopLoss : Option ℚ} :
    validateSlEntryRelation action (.decimal entry) (stopLoss.map .decimal) = .ok none ↔
      ∀ stop ∈ stopLoss, OnLossSide action entry stop := by
  cases stopLoss with
  | none => simp [validateSlEntryRelation]
  | some stop =>
      by_cases haction : action = "BUY"
      · simp [validateSlEntryRelation, OnLossSide, haction, le_decimal]
      · simp [validateSlEntryRelation, OnLossSide, haction, le_decimal]

variable {format : Json → String}

private theorem checkTarget_eq_ok_none {action : String} {entry : ℚ} {tp : List (String × Json)} :
    checkTarget format action (.decimal entry) tp = .ok none ↔ TargetOk action entry tp := by
  unfold checkTarget TargetOk
  generalize (Json.lookup tp "price").getD .null = price
  split
  · simp
  · rename_i hnull
    have hnull' : price ≠ .null := hnull
    cases hnumber : price.pyNumber? with
    | none => simp [hnull']
    | some q =>
        by_cases haction : action = "BUY"
        · simp [hnull', haction, OnProfitSide, Price.le, Price.value]
        · simp [hnull', haction, OnProfitSide, Price.le, Price.value]

theorem checkTargets_eq_ok_none {action : String} {entry : ℚ}
    {items : List (List (String × Json))} :
    checkTargets format action (.decimal entry) items = .ok none ↔
      ∀ tp ∈ items, TargetOk action entry tp := by
  induction items with
  | nil => simp [checkTargets]
  | cons tp rest ih =>
      rw [List.forall_mem_cons, ← ih, ← @checkTarget_eq_ok_none format]
      rw [checkTargets, bind_eq_ok]
      constructor
      · rintro ⟨message, hfirst, hrest⟩
        cases message with
        | none => exact ⟨hfirst, hrest⟩
        | some text => cases hrest
      · rintro ⟨hfirst, hrest⟩
        exact ⟨none, hfirst, hrest⟩

theorem validateTpSequence_eq_ok_none {items : List (List (String × Json))} :
    validateTpSequence (.dicts items) = .ok none ↔ DistinctLevels items := by
  simp only [validateTpSequence, DistinctLevels]
  by_cases hlength : items.length < 2
  · simp [hlength]
  · cases hlevels : items.mapM fun tp => hashKey? ((Json.lookup tp "level").getD .null) with
    | none => simp [hlength]
    | some levels => simp [hlength]

theorem validateSignalConsistency_eq_ok_nil {action : String} {entry : ℚ} {stopLoss : Option ℚ}
    {items : List (List (String × Json))} :
    validateSignalConsistency format action (.decimal entry) (stopLoss.map .decimal) (.dicts items) =
      .ok [] ↔ SignalOk action entry stopLoss items := by
  have hentry : validatePrice (some (.decimal entry)) = .ok (decide (∀ q ∈ some entry, 0 < q)) :=
    validatePrice_decimal (some entry)
  rw [validateSignalConsistency]
  simp only [bind_eq_ok, pure_eq_ok, hentry, validatePrice_decimal, validateTpEntryRelation,
    List.append_eq_nil_iff, Option.toList_eq_nil_iff]
  have hmessage : ∀ {ok : Bool} {message : String},
      (if ok then [] else [message]) = [] ↔ ok = true := by
    intro ok message
    cases ok <;> simp
  simp only [hmessage]
  constructor
  · rintro ⟨entryOk, hentryOk, stopOk, hstopOk, _, hside, _, htargets, _, hlevels, h, rfl⟩
    obtain ⟨⟨⟨rfl, rfl⟩, rfl⟩, rfl⟩ := h
    exact
      { entry_pos := of_decide_eq_true (Except.ok.inj hentryOk) entry rfl
        stop_pos := of_decide_eq_true (Except.ok.inj hstopOk)
        stop_side := validateSlEntryRelation_eq_ok_none.mp hside
        targets := checkTargets_eq_ok_none.mp htargets
        levels := validateTpSequence_eq_ok_none.mp hlevels }
  · intro h
    have hentryPos : ∀ q ∈ some entry, 0 < q := by
      intro q hq
      exact Option.some.inj hq ▸ h.entry_pos
    refine ⟨true, congrArg Except.ok (decide_eq_true hentryPos), true,
      congrArg Except.ok (decide_eq_true h.stop_pos), none,
      validateSlEntryRelation_eq_ok_none.mpr h.stop_side, none,
      checkTargets_eq_ok_none.mpr h.targets, none, validateTpSequence_eq_ok_none.mpr h.levels, ?_⟩
    exact ⟨⟨⟨⟨rfl, rfl⟩, rfl⟩, rfl⟩, rfl⟩

end SphereFx.Api
