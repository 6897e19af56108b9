import SphereFx.Base.RegexMap
import SphereFx.Base.Text

/-!
# Texts in capital letters

On ASCII texts `strings.ToUpper` is `Char.toUpper` at each character, and neither case folding nor any
class of characters other than the letters of one case tells a letter from its capital.
-/

namespace SphereFx.Text

attribute [local instance] decidableBAllChar

/-! ### Letters -/

def smallLetters : List Char := (List.range' 97 26).map Char.ofNat

theorem isLower_iff {c : Char} : c.isLower = true ↔ 97 ≤ c.toNat ∧ c.toNat ≤ 122 := by
  have hletter : c.isLower = (decide ('a' ≤ c) && decide (c ≤ 'z')) := rfl
  rw [hletter, Bool.and_eq_true, decide_eq_true_eq, decide_eq_true_eq]
  rfl

theorem mem_smallLetters {c : Char} (h : c.isLower = true) : c ∈ smallLetters := by
  obtain ⟨hfirst, hlast⟩ := isLower_iff.mp h
  refine List.mem_map.mpr ⟨c.toNat, ?_, Char.ofNat_toNat c⟩
  rw [List.mem_range'_1]
  omega

theorem toUpper_of_not_isLower {c : Char} (h : c.isLower = false) : c.toUpper = c := by
  apply dif_neg
  intro hletter
  cases h.symm.trans (isLower_iff.mpr hletter)

theorem eq_of_smallLetters {α : Type} {p : Char → α} (h : ∀ c ∈ smallLetters, p c.toUpper = p c)
    (c : Char) : p c.toUpper = p c := by
  cases hlower : c.isLower with
  | true => exact h c (mem_smallLetters hlower)
  | false => rw [toUpper_of_not_isLower hlower]

theorem isLower_toUpper (c : Char) : c.toUpper.isLower = false := by
  have hletters : ∀ c ∈ smallLetters, c.toUpper.isLower = false := by decide
  cases hlower : c.isLower with
  | true => exact hletters c (mem_smallLetters hlower)
  | false => rw [toUpper_of_not_isLower hlower, hlower]

/-- Only a letter becomes a letter. -/
theorem toUpper_eq_iff {c d : Char} (hlower : d.isLower = false) (hupper : d.isUpper = false) :
    c.toUpper = d ↔ c = d := by
  have hcapital : ∀ c ∈ smallLetters, c.toUpper.isUpper = true := by decide
  cases hc : c.isLower with
  | true =>
      have hleft : c.toUpper ≠ d := by
        rintro rfl
        rw [hcapital c (mem_smallLetters hc)] at hupper
        cases hupper
      have hright : c ≠ d := by
        rintro rfl
        rw [hc] at hlower
        cases hlower
      exact iff_of_false hleft hright
  | false => rw [toUpper_of_not_isLower hc]

theorem foldKey_toUpper (c : Char) : foldKey c.toUpper = foldKey c :=
  eq_of_smallLetters (by decide) c

theorem sameFold_toUpper (c d : Char) : sameFold c d.toUpper = sameFold c d := by
  rw [sameFold, sameFold, foldKey_toUpper]

theorem isWhite_toUpper (c : Char) : isWhite c.toUpper = isWhite c :=
  eq_of_smallLetters (by decide) c

theorem isWord_toUpper (c : Char) : Re.isWord c.toUpper = Re.isWord c :=
  eq_of_smallLetters (by decide) c

theorem isSpace_toUpper (c : Char) : Re.isSpace c.toUpper = Re.isSpace c :=
  eq_of_smallLetters (by decide) c

theorem isDigit_toUpper (c : Char) : Re.isDigit c.toUpper = Re.isDigit c :=
  eq_of_smallLetters (by decide) c

theorem toLower_toUpper (c : Char) : c.toUpper.toLower = c.toLower :=
  eq_of_smallLetters (by decide) c

theorem upper_toUpper (c : Char) : upper c.toUpper = upper c :=
  eq_of_smallLetters (by decide) c

theorem upper_of_ascii {c : Char} (h : c.toNat < 128) : upper c = c.toUpper := by
  have hletters : ∀ c ∈ smallLetters, upper c = c.toUpper := by decide
  cases hlower : c.isLower with
  | true => exact hletters c (mem_smallLetters hlower)
  | false =>
      have hsmall : ¬ (97 ≤ c.toNat ∧ c.toNat ≤ 122) := by
        rw [← isLower_iff, hlower]
        exact Bool.false_ne_true
      rw [toUpper_of_not_isLower hlower, upper, if_neg hsmall, if_neg (by omega), if_neg (by omega),
        if_neg (by omega), if_neg (by omega), if_neg (by omega)]

/-! ### Texts -/

theorem toUpper_of_ascii {text : List Char} (h : ∀ c ∈ text, c.toNat < 128) :
    toUpper text = text.map Char.toUpper :=
  List.map_congr_left fun c hc => upper_of_ascii (h c hc)

theorem toUpper_map (text : List Char) : toUpper (text.map Char.toUpper) = toUpper text := by
  rw [toUpper, toUpper, List.map_map]
  exact List.map_congr_left fun c _ => upper_toUpper c

theorem comp_toUpper {p : Char → Bool} (h : ∀ c, p c.toUpper = p c) : p ∘ Char.toUpper = p := by
  ext c
  rw [Function.comp_apply, h]

theorem trimSpace_map (text : List Char) :
    trimSpace (text.map Char.toUpper) = (trimSpace text).map Char.toUpper := by
  have htrim := trim_map isWhite Char.toUpper text
  simp only [isWhite_toUpper] at htrim
  exact htrim

theorem replace_map {old : Char} (hlower : old.isLower = false) (hupper : old.isUpper = false)
    {new : List Char} (hnew : new.map Char.toUpper = new) (text : List Char) :
    replace old new (text.map Char.toUpper) = (replace old new text).map Char.toUpper := by
  rw [replace, replace, List.flatMap_map, List.map_flatMap]
  apply List.flatMap_congr
  intro c _
  by_cases hc : c = old
  · rw [if_pos hc, if_pos ((toUpper_eq_iff hlower hupper).mpr hc), hnew]
  · rw [if_neg hc, if_neg (mt (toUpper_eq_iff hlower hupper).mp hc), List.map_singleton]

end SphereFx.Text
