import SphereFx.Base.Check
import SphereFx.Extractor.Cleaner
import SphereFx.Extractor.Parser

/-!
# The extraction of a signal from a raw text

`validation.go` and `engine.go` on the shipped configuration, and the service around them.
-/

namespace SphereFx.Extractor

/-- `Validator.Validate`. -/
def validate (signal : ParsedSignal) : Except String Unit := do
  refuseIf (signal.symbol = "") "symbol is required"
  refuseIf (signal.action = "") "action is required"
  refuseIf (signal.action ≠ "BUY" ∧ signal.action ≠ "SELL") ("invalid action: " ++ signal.action)
  refuseIf (signal.entryPrice ≤ 0) "entry price must be positive"

/-- `Engine.Process`. -/
def process (rangeOrder : Parser.LevelMap → Parser.LevelMap) (rawText : String) :
    Except String ParsedSignal := do
  let parsed := shippedParser.parse rangeOrder (clean rawText.toList)
  (validate parsed).mapError ("validation: " ++ ·)
  return parsed

theorem validate_eq_ok {signal : ParsedSignal} {u : Unit} : validate signal = .ok u ↔
    signal.symbol ≠ "" ∧ signal.action ≠ "" ∧ (signal.action = "BUY" ∨ signal.action = "SELL") ∧
      ¬ signal.entryPrice ≤ 0 := by
  simp only [validate, bind_eq_ok, refuseIf_eq_ok, not_and_or, not_not, exists_const, ne_eq]

theorem process_eq_ok {rangeOrder : Parser.LevelMap → Parser.LevelMap} {rawText : String}
    {signal : ParsedSignal} : process rangeOrder rawText = .ok signal ↔
      signal = shippedParser.parse rangeOrder (clean rawText.toList) ∧
        validate signal = .ok () := by
  simp only [process, bind_eq_ok, mapError_eq_ok, pure_eq_ok]
  constructor
  · rintro ⟨_, hvalidate, rfl⟩
    exact ⟨rfl, hvalidate⟩
  · rintro ⟨rfl, hvalidate⟩
    exact ⟨(), hvalidate, rfl⟩

theorem validate_of_noAction {signal : ParsedSignal} (hsymbol : signal.symbol ≠ "")
    (haction : signal.action = "") : validate signal = .error "action is required" := by
  rw [validate, refuseIf, if_neg hsymbol, refuseIf, if_pos haction]
  rfl

theorem validate_of_otherAction {signal : ParsedSignal} (hsymbol : signal.symbol ≠ "")
    (haction : signal.action ≠ "") (hother : signal.action ≠ "BUY" ∧ signal.action ≠ "SELL") :
    validate signal = .error ("invalid action: " ++ signal.action) := by
  rw [validate, refuseIf, if_neg hsymbol, refuseIf, if_neg haction, refuseIf, if_pos hother]
  rfl

theorem process_of_refused {rangeOrder : Parser.LevelMap → Parser.LevelMap} {rawText message : String}
    (h : validate (shippedParser.parse rangeOrder (clean rawText.toList)) = .error message) :
    process rangeOrder rawText = .error ("validation: " ++ message) := by
  rw [process, h]
  rfl

/-! ### The service -/

/-- A signal that was not sent. -/
def noSignal : ParsedSignal := ⟨"", "", "", .fin 0, .fin 0, [], 0⟩

/-- `Extract`, which reports every failure inside its answer. -/
def extract (rangeOrder : Parser.LevelMap → Parser.LevelMap) (rawText : String) : ExtractResponse :=
  if rawText = "" then ⟨noSignal, false, "raw_text cannot be empty"⟩
  else
    match process rangeOrder rawText with
    | .error message => ⟨noSignal, false, message⟩
    | .ok signal => ⟨signal, true, ""⟩

theorem extract_cases (rangeOrder : Parser.LevelMap → Parser.LevelMap) (rawText : String) :
    ((extract rangeOrder rawText).success = true ∧
        validate (extract rangeOrder rawText).parsedSignal = .ok ()) ∨
      ((extract rangeOrder rawText).success = false ∧
        (extract rangeOrder rawText).parsedSignal = noSignal) := by
  unfold extract
  split
  · exact .inr ⟨rfl, rfl⟩
  · cases h : process rangeOrder rawText with
    | error message => exact .inr ⟨rfl, rfl⟩
    | ok signal => exact .inl ⟨rfl, (process_eq_ok.mp h).2⟩

end SphereFx.Extractor
