import SphereFx.Base.Float

/-!
# JSON values as Go and Python read them

A JSON text is kept as the list of its fields in the order written, repeated keys included. Both
`encoding/json` and Python's `json` let the last occurrence of a key win, so `Json.lookup` does.
Python keeps integer and fractional numbers apart and Go reads both as `float64`.
-/

namespace SphereFx

/-- A JSON value: `int` is a number written without fraction or exponent, `dec` any other. -/
inductive Json where
  | null
  | bool (b : Bool)
  | int (n : Int)
  | dec (q : ℚ)
  | str (s : String)
  | arr (items : List Json)
  | obj (fields : List (String × Json))
  deriving Repr, BEq, Inhabited

namespace Json

/-- The value of the last field with this key. -/
def lookup (fields : List (String × Json)) (key : String) : Option Json :=
  (fields.reverse.find? (fun field => field.1 = key)).map Prod.snd

def number? : Json → Option ℚ
  | .int n => some n
  | .dec q => some q
  | _ => none

@[simp] theorem number?_int (n : Int) : (Json.int n).number? = some (n : ℚ) := rfl

@[simp] theorem number?_dec (q : ℚ) : (Json.dec q).number? = some q := rfl

/-! ### Go: `map[string]interface{}` -/

/-- How `json.Unmarshal` names the kind of a value in its type errors. -/
def goKind : Json → String
  | .null => "null"
  | .bool _ => "bool"
  | .int _ => "number"
  | .dec _ => "number"
  | .str _ => "string"
  | .arr _ => "array"
  | .obj _ => "object"

/-- `json.Unmarshal` into a `map[string]interface{}`: `null` leaves the map nil without an error. -/
def unmarshalMap : Json → Except String (List (String × Json))
  | .obj fields => .ok fields
  | .null => .ok []
  | v => .error ("json: cannot unmarshal " ++ v.goKind ++
      " into Go value of type map[string]interface {}")

/-- Indexing a Go map: a missing key reads as nil, which is also what `null` decodes to. -/
def index (fields : List (String × Json)) (key : String) : Json :=
  (lookup fields key).getD .null

/-- The type assertion `v.(float64)`. -/
def float64? (v : Json) : Option F64 := v.number?.map .fin

/-- The type assertion `v.(string)`. -/
def string? : Json → Option String
  | .str s => some s
  | _ => none

/-- The type assertion `v.([]interface{})`. -/
def slice? : Json → Option (List Json)
  | .arr items => some items
  | _ => none

/-- The fields of an object. -/
def object? : Json → Option (List (String × Json))
  | .obj fields => some fields
  | _ => none

/-- How `json.Marshal` writes a `float64`: integers below `1e21` without a fraction. -/
def ofFloat64 (q : ℚ) : Json :=
  if q.den = 1 ∧ |q| < 10 ^ 21 then .int q.num else .dec q

mutual
/-- Decoding a value into an `interface{}` and marshalling it again. -/
def remarshal : Json → Json
  | .null => .null
  | .bool b => .bool b
  | .int n => ofFloat64 n
  | .dec q => ofFloat64 q
  | .str s => .str s
  | .arr items => .arr (remarshalItems items)
  | .obj fields => .obj (remarshalFields fields)

def remarshalItems : List Json → List Json
  | [] => []
  | v :: rest => remarshal v :: remarshalItems rest

def remarshalFields : List (String × Json) → List (String × Json)
  | [] => []
  | (key, v) :: rest => (key, remarshal v) :: remarshalFields rest
end

@[simp] theorem number?_ofFloat64 (q : ℚ) : (ofFloat64 q).number? = some q := by
  unfold ofFloat64
  split
  · rename_i h
    rw [number?_int, Rat.coe_int_num_of_den_eq_one h.1]
  · rfl

@[simp] theorem number?_remarshal (v : Json) : v.remarshal.number? = v.number? := by
  cases v with
  | int n => simp [remarshal]
  | dec q => simp [remarshal]
  | _ => simp [remarshal, number?]

theorem remarshalItems_eq_map (items : List Json) : remarshalItems items = items.map remarshal := by
  induction items with
  | nil => rfl
  | cons v rest ih => rw [remarshalItems, ih, List.map_cons]

theorem remarshalFields_eq_map (fields : List (String × Json)) :
    remarshalFields fields = fields.map (fun field => (field.1, field.2.remarshal)) := by
  induction fields with
  | nil => rfl
  | cons field rest ih => rw [remarshalFields, ih, List.map_cons]

theorem lookup_remarshalFields (fields : List (String × Json)) (key : String) :
    lookup (remarshalFields fields) key = (lookup fields key).map remarshal := by
  rw [remarshalFields_eq_map, lookup, lookup, ← List.map_reverse, List.find?_map]
  simp only [Function.comp_def, Option.map_map]

theorem string?_remarshal (v : Json) : v.remarshal.string? = v.string? := by
  cases v with
  | int n =>
      simp only [remarshal, ofFloat64]
      split <;> rfl
  | dec q =>
      simp only [remarshal, ofFloat64]
      split <;> rfl
  | _ => rfl

theorem lookup_map_keys {keys : List String} {key : String} (h : key ∈ keys) (f : String → Json) :
    lookup (keys.map fun k => (k, f k)) key = some (f key) := by
  rw [lookup, ← List.map_reverse, List.find?_map]
  have hfind : keys.reverse.find? (fun k => k = key) = some key := by
    have hsome : (keys.reverse.find? fun k => k = key).isSome = true := by
      rw [List.find?_isSome]
      exact ⟨key, List.mem_reverse.mpr h, by simp⟩
    obtain ⟨found, hfound⟩ := Option.isSome_iff_exists.mp hsome
    have heq : found = key := by simpa using List.find?_some hfound
    rw [hfound, heq]
  simp only [Function.comp_def, hfind, Option.map_some]

/-! ### Python -/

/-- `bool(v)`. -/
def truthy : Json → Bool
  | .null => false
  | .bool b => b
  | .int n => n ≠ 0
  | .dec q => q ≠ 0
  | .str s => s ≠ ""
  | .arr items => items ≠ []
  | .obj fields => fields ≠ []

/-- `isinstance(v, int)`, which booleans pass, and the integer. -/
def pyInt? : Json → Option Int
  | .int n => some n
  | .bool b => some (if b then 1 else 0)
  | _ => none

/-- The number Python compares the value as. -/
def pyNumber? : Json → Option ℚ
  | .int n => some n
  | .dec q => some q
  | .bool b => some (if b then 1 else 0)
  | _ => none

end Json

end SphereFx
