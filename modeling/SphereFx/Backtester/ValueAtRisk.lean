import SphereFx.Base.Float
import SphereFx.Base.Rank
import SphereFx.Base.Slice

/-!
# Value at risk

`CalculateVaR` of `risk.go`: the returns are copied, the copy is sorted and one of its elements is the
answer. Its index counts the returns that may lie below the answer, truncated.
-/

namespace SphereFx

namespace F64

/-- The order of `sort.Float64s`, with NaN before the numbers. -/
def SortsUpTo (x y : F64) : Prop := ¬ (y < x ∨ y = .nan ∧ x ≠ .nan)

instance : DecidableRel SortsUpTo := fun _ _ => inferInstanceAs (Decidable (¬ _))

/-- `int(f)`: truncated towards zero; what no `int` holds becomes the least one, as on amd64. -/
def toInt : F64 → Int
  | .fin q =>
      let truncated := if q < 0 then ⌈q⌉ else ⌊q⌋
      if -2 ^ 63 ≤ truncated ∧ truncated < 2 ^ 63 then truncated else -2 ^ 63
  | _ => -2 ^ 63

private theorem sortsUpTo_fin {a b : ℚ} : SortsUpTo (.fin a) (.fin b) ↔ a ≤ b := by
  simp [SortsUpTo]

private theorem toInt_of_bounded {q : ℚ} (hq : 0 ≤ q) (hlt : q < 2 ^ 63) : toInt (.fin q) = ⌊q⌋ := by
  have hfloor : 0 ≤ ⌊q⌋ := Int.floor_nonneg.mpr hq
  have hbound : ⌊q⌋ < 2 ^ 63 := by
    rw [Int.floor_lt]
    exact_mod_cast hlt
  simp only [toInt, if_neg hq.not_gt]
  exact if_pos ⟨by omega, hbound⟩

end F64

namespace Backtester

open OnMemory

/-- The place of the answer among `n` sorted returns. -/
def varIndex (n : Int) (confidenceLevel : F64) : Int :=
  let index := (F64.fin n * (.fin 1 - confidenceLevel)).toInt
  if n ≤ index then n - 1 else index

def calculateVaR (returns : ℕ) (confidenceLevel : F64) : OnMemory F64 F64 := do
  let input ← load returns
  if input.len < 2 then return 0
  let sorted ← make 0 input.len
  copy sorted returns
  sort F64.SortsUpTo sorted
  index sorted (varIndex input.len confidenceLevel)

private theorem calculateVaR_eq {m : Memory F64} {a : ℕ} {s : Slice F64} (h : m[a]? = some s)
    (hlen : 2 ≤ s.len) (confidenceLevel : F64) :
    calculateVaR a confidenceLevel m =
      ((s.sorted F64.SortsUpTo).get? (varIndex s.len confidenceLevel)).map
        fun v => (v, m ++ [s.sorted F64.SortsUpTo]) := by
  obtain ⟨fresh, hfresh, hmake⟩ := make_eq (m := m) (0 : F64) s
  simp only [calculateVaR, bind, StateT.bind, load_eq h, Option.bind_some, if_neg hlen.not_gt, hmake,
    copy_last h hfresh, sort_last, index_last]

/-! ### The index -/

section Index

variable {n : ℕ} {c : ℚ}

private theorem varIndex_eq (hn : n < 2 ^ 63) (hc : 0 ≤ c) (hc' : c ≤ 1) :
    varIndex n (.fin c) = min ⌊n * (1 - c)⌋ (n - 1) := by
  have hbound : n * (1 - c) ≤ n := mul_le_of_le_one_right (Nat.cast_nonneg n) (by linarith)
  have hlarge : (n : ℚ) < 2 ^ 63 := by exact_mod_cast hn
  have hindex : (F64.fin ((n : Int) : ℚ) * (.fin 1 - .fin c)).toInt = ⌊n * (1 - c)⌋ := by
    rw [F64.sub_fin, F64.mul_fin, Int.cast_natCast]
    exact F64.toInt_of_bounded (mul_nonneg (Nat.cast_nonneg n) (by linarith)) (by linarith)
  simp only [varIndex, hindex]
  split <;> omega

/-- The index of the answer, as a place in the list. -/
def varPlace (n : ℕ) (c : ℚ) : ℕ := min ⌊n * (1 - c)⌋.toNat (n - 1)

theorem varIndex_eq_place (hn : n < 2 ^ 63) (hpos : 0 < n) (hc : 0 ≤ c) (hc' : c ≤ 1) :
    varIndex n (.fin c) = varPlace n c := by
  have hfloor : 0 ≤ ⌊n * (1 - c)⌋ :=
    Int.floor_nonneg.mpr (mul_nonneg (Nat.cast_nonneg n) (by linarith))
  rw [varIndex_eq hn hc hc', varPlace]
  omega

theorem varPlace_lt (hpos : 0 < n) (c : ℚ) : varPlace n c < n := by
  unfold varPlace
  omega

private theorem varPlace_le (hc : c ≤ 1) : (varPlace n c : ℚ) ≤ n * (1 - c) := by
  have hnonneg : 0 ≤ n * (1 - c) := mul_nonneg (Nat.cast_nonneg n) (by linarith)
  have hfloor : (varPlace n c : Int) ≤ ⌊n * (1 - c)⌋ := by
    have := Int.floor_nonneg.mpr hnonneg
    unfold varPlace
    omega
  calc (varPlace n c : ℚ) = ((varPlace n c : Int) : ℚ) := (Int.cast_natCast _).symm
    _ ≤ (⌊n * (1 - c)⌋ : ℚ) := Int.cast_le.mpr hfloor
    _ ≤ n * (1 - c) := Int.floor_le _

private theorem lt_varPlace_add_one (hpos : 0 < n) (hc : 0 < c) :
    n * (1 - c) < (varPlace n c + 1 : ℕ) := by
  have hlast : n * (1 - c) < n := mul_lt_of_lt_one_right (Nat.cast_pos.mpr hpos) (by linarith)
  have hfloor : ⌊n * (1 - c)⌋ < (n : Int) := by
    rw [Int.floor_lt]
    exact_mod_cast hlast
  have hplace : ⌊n * (1 - c)⌋ < ((varPlace n c + 1 : ℕ) : Int) := by
    unfold varPlace
    omega
  have hlt := Int.floor_lt.mp hplace
  exact_mod_cast hlt

private theorem varPlace_antitone {c' : ℚ} (h : c ≤ c') : varPlace n c' ≤ varPlace n c := by
  have hmul : n * (1 - c') ≤ n * (1 - c) :=
    mul_le_mul_of_nonneg_left (by linarith) (Nat.cast_nonneg n)
  have hfloor := Int.toNat_le_toNat (Int.floor_le_floor hmul)
  unfold varPlace
  omega

end Index

/-! ### The answer -/

variable {m : Memory F64} {a : ℕ} {returns : List ℚ} {c v : ℚ}

/-- At an address the memory holds the given numbers. -/
def Holds (m : Memory F64) (a : ℕ) (returns : List ℚ) : Prop :=
  ∃ s, m[a]? = some s ∧ s.elements = returns.map .fin

/-- A call returns the number, and no slice there was before has changed. -/
def Answers (m : Memory F64) (a : ℕ) (c v : ℚ) : Prop :=
  ∃ m', calculateVaR a (.fin c) m = some (.fin v, m') ∧ ∀ b < m.length, m'[b]? = m[b]?

/-- The returns in order. -/
def ascending (returns : List ℚ) : List ℚ := returns.insertionSort fun x y => id x ≤ id y

theorem arranges_ascending (returns : List ℚ) : Rank.Arranges id returns (ascending returns) :=
  Rank.arranges_insertionSort id returns

private theorem length_ascending : (ascending returns).length = returns.length :=
  (arranges_ascending returns).perm.length_eq

private theorem elements_sorted {s : Slice F64} (h : s.elements = returns.map .fin) :
    (s.sorted F64.SortsUpTo).elements = (ascending returns).map .fin := by
  have hmap : (ascending returns).map .fin = (returns.map .fin).insertionSort F64.SortsUpTo :=
    List.map_insertionSort _ _ _ _ fun _ _ _ _ => F64.sortsUpTo_fin.symm
  rw [hmap, ← h]
  rfl

theorem ascending_perm {other : List ℚ} (h : other.Perm returns) : ascending other = ascending returns := by
  have hother := arranges_ascending other
  have hreturns := arranges_ascending returns
  exact (hother.perm.trans (h.trans hreturns.perm.symm)).eq_of_pairwise
    (fun _ _ _ _ hle hge => le_antisymm hle hge) hother.ordered hreturns.ordered

theorem answers_place (h : Holds m a returns) (hlen : 2 ≤ returns.length) (hc : 0 ≤ c) (hc' : c ≤ 1)
    (hplace : varPlace returns.length c < (ascending returns).length) :
    Answers m a c (ascending returns)[varPlace returns.length c] := by
  obtain ⟨s, hs, helements⟩ := h
  have hlength : s.elements.length = returns.length := by rw [helements, List.length_map]
  have hs2 : 2 ≤ s.len := by
    rw [Slice.len, hlength]
    exact_mod_cast hlen
  have hindex : varIndex s.len (.fin c) = varPlace returns.length c := by
    rw [Slice.len, hlength]
    exact varIndex_eq_place (hlength ▸ s.length_lt) (by omega) hc hc'
  refine ⟨m ++ [s.sorted F64.SortsUpTo], ?_, fun b hb => List.getElem?_append_left hb⟩
  rw [calculateVaR_eq hs hs2, hindex, Slice.get?_natCast, elements_sorted helements,
    List.getElem?_map, List.getElem?_eq_getElem hplace]
  rfl

/-- An element of the returns with no more than the given share below it, and more up to it. -/
structure Quantile (returns : List ℚ) (c v : ℚ) : Prop where
  mem : v ∈ returns
  below : (Rank.below id returns v : ℚ) ≤ returns.length * (1 - c)
  upTo : 0 < c → returns.length * (1 - c) < Rank.upTo id returns v

private theorem quantile_place (hpos : 0 < returns.length) (hc : c ≤ 1)
    (hplace : varPlace returns.length c < (ascending returns).length) :
    Quantile returns c (ascending returns)[varPlace returns.length c] := by
  obtain ⟨hperm, hordered⟩ := arranges_ascending returns
  constructor
  · exact hperm.mem_iff.mp (List.getElem_mem hplace)
  · rw [← Rank.below_perm hperm]
    exact (Nat.cast_le.mpr (hordered.below_getElem_le hplace)).trans (varPlace_le hc)
  · intro hcpos
    rw [← Rank.upTo_perm hperm]
    exact (lt_varPlace_add_one hpos hcpos).trans_le
      (Nat.cast_le.mpr (hordered.lt_upTo_getElem hplace))

/-- `CalculateVaR` answers with the empirical quantile, whatever the order of the returns, and with none
larger at a higher confidence. -/
theorem calculateVaR_quantile (h : Holds m a returns) (hlen : 2 ≤ returns.length) (hc : 0 ≤ c)
    (hc' : c ≤ 1) :
    (0 ≤ varIndex returns.length (.fin c) ∧ varIndex returns.length (.fin c) < returns.length) ∧
      ∃ v, Quantile returns c v ∧ Answers m a c v ∧
        (∀ m' a' other, other.Perm returns → Holds m' a' other → Answers m' a' c v) ∧
        ∀ d, c ≤ d → d ≤ 1 → ∃ w ≤ v, Answers m a d w := by
  have hpos : 0 < returns.length := by omega
  have hplace (d : ℚ) : varPlace returns.length d < (ascending returns).length := by
    rw [length_ascending]
    exact varPlace_lt hpos d
  constructor
  · obtain ⟨s, -, helements⟩ := h
    have hlength : returns.length < 2 ^ 63 := by
      have := s.length_lt
      rwa [helements, List.length_map] at this
    have hlt := varPlace_lt hpos c
    rw [varIndex_eq_place hlength hpos hc hc']
    omega
  · refine ⟨_, quantile_place hpos hc' (hplace c), answers_place h hlen hc hc' (hplace c), ?_, ?_⟩
    · intro m' a' other hperm hholds
      have hanswer := answers_place hholds (hperm.length_eq ▸ hlen) hc hc'
        (by rw [ascending_perm hperm, hperm.length_eq]; exact hplace c)
      simpa only [ascending_perm hperm, hperm.length_eq] using hanswer
    · intro d hcd hd
      refine ⟨_, ?_, answers_place h hlen (hc.trans hcd) hd (hplace d)⟩
      have hle := varPlace_antitone (n := returns.length) hcd
      exact (arranges_ascending returns).ordered.getElem_mono hle (hplace c)

/-- Two losses and a gain. -/
def threeReturns : List ℚ := [-1 / 50, 3 / 100, -1 / 50]

def threeSlice : Slice F64 := ⟨threeReturns.map .fin, by decide⟩

theorem calculateVaR_quantile_threeReturns :
    (0 ≤ varIndex threeReturns.length (.fin (19 / 20)) ∧
        varIndex threeReturns.length (.fin (19 / 20)) < threeReturns.length) ∧
      ∃ v, Quantile threeReturns (19 / 20) v ∧ Answers [threeSlice] 0 (19 / 20) v ∧
        (∀ m' a' other, other.Perm threeReturns → Holds m' a' other → Answers m' a' (19 / 20) v) ∧
        ∀ d, 19 / 20 ≤ d → d ≤ 1 → ∃ w ≤ v, Answers [threeSlice] 0 d w :=
  calculateVaR_quantile ⟨threeSlice, rfl, rfl⟩ (by decide) (by norm_num) (by norm_num)

end Backtester

end SphereFx
