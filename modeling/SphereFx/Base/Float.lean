import Mathlib.Data.Rat.Defs
import Mathlib.Algebra.Order.Ring.Rat
import Mathlib.Data.Rat.Floor
import Mathlib.Data.Nat.Sqrt
import Mathlib.Tactic.Linarith

/-!
# Floating-point numbers as rationals with the special values

A `float64` is a rational, one of the two infinities, or NaN. Arithmetic on finite values is exact:
rounding, overflow and the sign of zero are left out. Comparisons follow IEEE 754, so every
comparison with NaN is false.
-/

namespace SphereFx

/-- A `float64` value under exact arithmetic. -/
inductive F64 where
  | fin (q : ℚ)
  | inf (negative : Bool)
  | nan
  deriving DecidableEq, Repr

namespace F64

def lt : F64 → F64 → Bool
  | .fin a, .fin b => a < b
  | .fin _, .inf negative => !negative
  | .inf negative, .fin _ => negative
  | .inf m, .inf n => m && !n
  | .nan, _ => false
  | _, .nan => false

def le : F64 → F64 → Bool
  | .fin a, .fin b => a ≤ b
  | .fin _, .inf negative => !negative
  | .inf negative, .fin _ => negative
  | .inf m, .inf n => m || !n
  | .nan, _ => false
  | _, .nan => false

instance : LT F64 := ⟨fun x y => x.lt y = true⟩
instance : LE F64 := ⟨fun x y => x.le y = true⟩

instance (x y : F64) : Decidable (x < y) := inferInstanceAs (Decidable (x.lt y = true))
instance (x y : F64) : Decidable (x ≤ y) := inferInstanceAs (Decidable (x.le y = true))

/-- IEEE `==`, which no NaN satisfies. -/
def eq : F64 → F64 → Bool
  | .fin a, .fin b => a = b
  | .inf m, .inf n => m = n
  | _, _ => false

def neg : F64 → F64
  | .fin a => .fin (-a)
  | .inf negative => .inf (!negative)
  | .nan => .nan

def add : F64 → F64 → F64
  | .fin a, .fin b => .fin (a + b)
  | .fin _, .inf n => .inf n
  | .inf m, .fin _ => .inf m
  | .inf m, .inf n => if m = n then .inf m else .nan
  | .nan, _ => .nan
  | _, .nan => .nan

/-- An infinity of the given sign times a finite factor. -/
def scaleInf (negative : Bool) (q : ℚ) : F64 :=
  if q = 0 then .nan else .inf (negative != decide (q < 0))

def mul : F64 → F64 → F64
  | .fin a, .fin b => .fin (a * b)
  | .fin a, .inf n => scaleInf n a
  | .inf m, .fin b => scaleInf m b
  | .inf m, .inf n => .inf (m != n)
  | .nan, _ => .nan
  | _, .nan => .nan

def div : F64 → F64 → F64
  | .fin a, .fin b => if b = 0 then scaleInf false a else .fin (a / b)
  | .fin _, .inf _ => .fin 0
  | .inf m, .fin b => if b = 0 then .inf m else scaleInf m b
  | .inf _, .inf _ => .nan
  | .nan, _ => .nan
  | _, .nan => .nan

/-- `math.Abs`. -/
def abs : F64 → F64
  | .fin a => .fin |a|
  | .inf _ => .inf false
  | .nan => .nan

/-- A square root, rounded down to a binary fraction with 64 places more than the argument has. -/
def sqrtDown (q : ℚ) : ℚ :=
  let places := 64 + q.den.log2
  (Nat.sqrt (q.num.toNat * 4 ^ places / q.den) : ℚ) / 2 ^ places

/-- `math.Sqrt`. -/
def sqrt : F64 → F64
  | .fin q => if q < 0 then .nan else .fin (sqrtDown q)
  | .inf negative => if negative then .nan else .inf false
  | .nan => .nan

/-- Neither an infinity nor NaN. -/
def isFinite : F64 → Bool
  | .fin _ => true
  | _ => false

/-- The value of a finite number, zero for the others. -/
def toRat : F64 → ℚ
  | .fin q => q
  | _ => 0

instance : Neg F64 := ⟨neg⟩
instance : Add F64 := ⟨add⟩
instance : Sub F64 := ⟨fun x y => add x (neg y)⟩
instance : Mul F64 := ⟨mul⟩
instance : Div F64 := ⟨div⟩
instance : Zero F64 := ⟨.fin 0⟩
instance : Inhabited F64 := ⟨.fin 0⟩

/-- Go's `%.2f`: rounded to the nearest hundredth, ties to even. -/
def text2 : F64 → String
  | .fin q =>
      let scaled := |q| * 100
      let whole := scaled.floor.toNat
      let rest := scaled - whole
      let hundredths :=
        if rest < 1 / 2 then whole
        else if 1 / 2 < rest then whole + 1
        else if whole % 2 = 0 then whole else whole + 1
      (if q < 0 then "-" else "") ++ toString (hundredths / 100) ++ "." ++
        toString (hundredths / 10 % 10) ++ toString (hundredths % 10)
  | .inf negative => if negative then "-Inf" else "+Inf"
  | .nan => "NaN"

example : text2 (.fin (-1.005)) = "-1.00" := by decide +kernel

theorem zero_def : (0 : F64) = .fin 0 := rfl

@[simp] theorem fin_lt_fin {a b : ℚ} : (F64.fin a < F64.fin b) ↔ a < b := by
  change (decide (a < b) = true) ↔ a < b
  exact decide_eq_true_iff

@[simp] theorem fin_le_fin {a b : ℚ} : (F64.fin a ≤ F64.fin b) ↔ a ≤ b := by
  change (decide (a ≤ b) = true) ↔ a ≤ b
  exact decide_eq_true_iff

@[simp] theorem fin_lt_inf {a : ℚ} {negative : Bool} :
    (F64.fin a < F64.inf negative) ↔ negative = false := by
  change ((!negative) = true) ↔ negative = false
  simp

@[simp] theorem inf_lt_fin {a : ℚ} {negative : Bool} :
    (F64.inf negative < F64.fin a) ↔ negative = true := Iff.rfl

@[simp] theorem fin_le_inf {a : ℚ} {negative : Bool} :
    (F64.fin a ≤ F64.inf negative) ↔ negative = false := by
  change ((!negative) = true) ↔ negative = false
  simp

@[simp] theorem inf_le_fin {a : ℚ} {negative : Bool} :
    (F64.inf negative ≤ F64.fin a) ↔ negative = true := Iff.rfl

@[simp] theorem not_lt_nan (x : F64) : ¬ x < F64.nan := by
  cases x <;> (change ¬ (false = true); decide)

@[simp] theorem not_le_nan (x : F64) : ¬ x ≤ F64.nan := by
  cases x <;> (change ¬ (false = true); decide)

@[simp] theorem fin_eq_fin {a b : ℚ} : (F64.eq (.fin a) (.fin b) = true) ↔ a = b := by
  change (decide (a = b) = true) ↔ a = b
  exact decide_eq_true_iff

@[simp] theorem neg_fin (a : ℚ) : -F64.fin a = .fin (-a) := rfl

@[simp] theorem sub_fin (a b : ℚ) : F64.fin a - F64.fin b = .fin (a - b) := by
  change F64.fin (a + -b) = .fin (a - b)
  rw [sub_eq_add_neg]

@[simp] theorem mul_fin (a b : ℚ) : F64.fin a * F64.fin b = .fin (a * b) := rfl

theorem div_fin {a b : ℚ} (hb : b ≠ 0) : F64.fin a / F64.fin b = .fin (a / b) := by
  change (if b = 0 then scaleInf false a else .fin (a / b)) = _
  rw [if_neg hb]

theorem div_fin_zero (a : ℚ) : F64.fin a / F64.fin 0 = scaleInf false a := by
  change (if (0 : ℚ) = 0 then scaleInf false a else .fin (a / 0)) = _
  rw [if_pos rfl]

@[simp] theorem abs_fin (a : ℚ) : F64.abs (.fin a) = .fin |a| := rfl

@[simp] theorem isFinite_fin (a : ℚ) : isFinite (.fin a) = true := rfl

theorem isFinite_iff {x : F64} : x.isFinite = true ↔ ∃ q, x = .fin q := by
  cases x <;> simp [isFinite]

theorem fin_toRat {x : F64} (h : x.isFinite = true) : .fin x.toRat = x := by
  obtain ⟨q, rfl⟩ := isFinite_iff.mp h
  rfl

@[simp] theorem add_fin (a b : ℚ) : F64.fin a + F64.fin b = .fin (a + b) := rfl

/-- Opposite infinities meet in NaN whatever the order. -/
theorem add_right_comm (x y z : F64) : x + y + z = x + z + y := by
  change (x.add y).add z = (x.add z).add y
  match x, y, z with
  | .nan, y, z => cases y <;> cases z <;> rfl
  | .fin a, .fin b, .fin c => exact congrArg F64.fin (by ring)
  | .fin _, .fin _, .inf _ => rfl
  | .fin _, .fin _, .nan => rfl
  | .fin _, .inf _, .fin _ => rfl
  | .fin _, .inf m, .inf n => cases m <;> cases n <;> rfl
  | .fin _, .inf _, .nan => rfl
  | .fin _, .nan, z => cases z <;> rfl
  | .inf _, .fin _, .fin _ => rfl
  | .inf m, .fin _, .inf n => cases m <;> cases n <;> rfl
  | .inf _, .fin _, .nan => rfl
  | .inf m, .inf n, .fin _ => cases m <;> cases n <;> rfl
  | .inf m, .inf n, .inf k => cases m <;> cases n <;> cases k <;> rfl
  | .inf m, .inf n, .nan => cases m <;> cases n <;> rfl
  | .inf _, .nan, .fin _ => rfl
  | .inf m, .nan, .inf n => cases m <;> cases n <;> rfl
  | .inf _, .nan, .nan => rfl

theorem isFinite_add {x y : F64} (hx : x.isFinite = true) (hy : y.isFinite = true) :
    (x + y).isFinite = true := by
  obtain ⟨a, rfl⟩ := isFinite_iff.mp hx
  obtain ⟨b, rfl⟩ := isFinite_iff.mp hy
  rfl

theorem isFinite_sub {x y : F64} (hx : x.isFinite = true) (hy : y.isFinite = true) :
    (x - y).isFinite = true := by
  obtain ⟨a, rfl⟩ := isFinite_iff.mp hx
  obtain ⟨b, rfl⟩ := isFinite_iff.mp hy
  rfl

theorem isFinite_div {x y : F64} (hx : x.isFinite = true) (hy : y.isFinite = true)
    (hzero : y ≠ 0) : (x / y).isFinite = true := by
  obtain ⟨a, rfl⟩ := isFinite_iff.mp hx
  obtain ⟨b, rfl⟩ := isFinite_iff.mp hy
  rw [div_fin fun hb => hzero (congrArg F64.fin hb)]
  rfl

theorem lt_of_fin_le {a b : ℚ} {x : F64} (hle : a ≤ b) (h : F64.fin b < x) : F64.fin a < x := by
  cases x with
  | fin c => exact fin_lt_fin.mpr (hle.trans_lt (fin_lt_fin.mp h))
  | inf negative => exact fin_lt_inf.mpr (fin_lt_inf.mp h)
  | nan => exact absurd h (not_lt_nan _)

theorem lt_fin_of_le {a b : ℚ} {x : F64} (hle : a ≤ b) (h : x < F64.fin a) : x < F64.fin b := by
  cases x with
  | fin c => exact fin_lt_fin.mpr ((fin_lt_fin.mp h).trans_le hle)
  | inf negative => exact inf_lt_fin.mpr (inf_lt_fin.mp h)
  | nan => cases h

theorem mul_inf_of_pos {a : ℚ} (ha : 0 < a) (negative : Bool) :
    F64.fin a * .inf negative = .inf negative := by
  change scaleInf negative a = .inf negative
  rw [scaleInf, if_neg ha.ne', decide_eq_false ha.not_gt]
  cases negative <;> rfl

/-- Away from NaN the negation of `<` is `>=`. -/
theorem le_of_not_lt {x y : F64} (hx : x ≠ .nan) (hy : y ≠ .nan) (h : ¬ x < y) : y ≤ x := by
  match x, y with
  | .nan, _ => exact absurd rfl hx
  | .fin _, .nan => exact absurd rfl hy
  | .inf _, .nan => exact absurd rfl hy
  | .fin a, .fin b => exact fin_le_fin.mpr (not_lt.mp (fun hab => h (fin_lt_fin.mpr hab)))
  | .fin a, .inf n =>
      rw [inf_le_fin]
      rw [fin_lt_inf] at h
      simpa using h
  | .inf m, .fin b =>
      rw [fin_le_inf]
      rw [inf_lt_fin] at h
      simpa using h
  | .inf m, .inf n =>
      change (n || !m) = true
      change ¬ ((m && !n) = true) at h
      cases m <;> cases n <;> simp_all

end F64

end SphereFx
