import SphereFx.Base.Cut
import SphereFx.Extractor.Sections

/-!
# No digit of a list is lost

`parseNumberList` splits, trims, filters and replaces, along two paths. Each of these cuts the list
without losing a digit, so the tokens together have the digits of the list, in their order.
-/

namespace SphereFx.Extractor

open Text

attribute [local instance] decidableBAllChar

/-- No digit is lost, and only points are added. -/
abbrev DigitCut : List Char → List (List Char) → Prop := Cut Re.isDigit (· == '.')

theorem isDigit_eq_false_of_isWhite {c : Char} (h : isWhite c = true) : Re.isDigit c = false := by
  rw [Bool.eq_false_iff]
  intro hdigit
  have hdigit : '0' ≤ c ∧ c ≤ '9' := by simpa [Re.isDigit] using hdigit
  have hlow : 48 ≤ c.toNat := hdigit.1
  have hhigh : c.toNat ≤ 57 := hdigit.2
  simp only [isWhite, Bool.or_eq_true, Bool.and_eq_true, decide_eq_true_iff, beq_iff_eq] at h
  omega

private theorem isDigit_eq_false_of_isDelimiter {c : Char} (h : isDelimiter c = true) :
    Re.isDigit c = false := by
  simp only [isDelimiter, Re.isSpace, Bool.or_eq_true, beq_iff_eq] at h
  rcases h with ((rfl | ((((rfl | rfl) | rfl) | rfl) | rfl)) | rfl) | rfl <;> rfl

/-! ### The stages -/

theorem cut_trimSpace (text : List Char) : DigitCut text [trimSpace text] := by
  obtain ⟨lead, trail, htext, hlead, htrail⟩ := exists_trimSpace text
  have hcut := @cut_of_append _ Re.isDigit (· == '.') lead (trimSpace text) trail
    (fun c hc => isDigit_eq_false_of_isWhite (hlead c hc))
    (fun c hc => isDigit_eq_false_of_isWhite (htrail c hc))
  rwa [← htext] at hcut

private theorem cut_listDelimiter (text : List Char) : DigitCut text (Parser.listDelimiter.split text) := by
  have hparts : DigitCut text (Re.parts isDelimiter text) :=
    Cut.filter_iff.mpr (cut_splitOnP (fun _ => isDigit_eq_false_of_isDelimiter) text)
  rw [← Re.filter_split_many1] at hparts
  exact Cut.filter_iff.mp hparts

private theorem cut_listParts (listStr : List Char) : DigitCut listStr (Parser.listParts listStr) := by
  have hsplit := (cut_trimSpace listStr).flatMap fun piece _ => cut_listDelimiter piece
  rw [List.flatMap_singleton] at hsplit
  exact Cut.filter_iff.mpr (hsplit.map fun piece _ => cut_trimSpace piece)

theorem cut_replaceComma {new : List Char}
    (hnew : ∀ c ∈ new, Re.isDigit c = false ∧ (c == '.') = true) (text : List Char) :
    DigitCut text [replace ',' new text] :=
  cut_replace (fun _ h => h ▸ rfl) hnew text

theorem cut_splitPart (part : List Char) : DigitCut part (Parser.splitPart part) := by
  unfold Parser.splitPart
  split
  · have hsplit : DigitCut part (part.splitOn ',') :=
      cut_splitOnP (fun c hc => (beq_iff_eq.mp hc) ▸ rfl) part
    exact Cut.filter_iff.mpr (hsplit.map fun piece _ => cut_trimSpace piece)
  · exact cut_replaceComma (List.forall_mem_nil _) part

private theorem cut_parseNumberList (p : Parser) (listStr : List Char) (symbol : String) :
    DigitCut listStr (p.parseNumberList listStr symbol) := by
  have hparts := cut_listParts listStr
  unfold Parser.parseNumberList
  split
  · exact hparts.map fun part _ => cut_replaceComma (by decide) part
  · exact Cut.filter_iff.mpr
      ((hparts.flatMap fun part _ => cut_splitPart part).map fun piece _ => cut_trimSpace piece)

/-! ### The characters of a token -/

theorem mem_listParts {listStr part : List Char} (h : part ∈ Parser.listParts listStr) :
    part ≠ [] ∧ ∀ c ∈ part, isDelimiter c = false := by
  obtain ⟨hmem, hne⟩ := List.mem_filter.mp h
  have hne : part ≠ [] := of_decide_eq_true hne
  obtain ⟨piece, hpiece, rfl⟩ := List.mem_map.mp hmem
  refine ⟨hne, fun c hc => ?_⟩
  have hin : c ∈ piece := by
    obtain ⟨lead, trail, htext, -, -⟩ := exists_trimSpace piece
    rw [htext]
    exact List.mem_append_right _ (List.mem_append_left _ hc)
  have hword : piece ∈ Re.parts isDelimiter (trimSpace listStr) := by
    rw [← Re.filter_split_many1]
    exact List.mem_filter.mpr ⟨hpiece, decide_eq_true (List.ne_nil_of_mem hin)⟩
  exact ((Re.mem_parts hword).2 c hin).2

theorem isDelimiter_of_cut {part : List Char} {pieces : List (List Char)} (h : DigitCut part pieces)
    (hpart : ∀ c ∈ part, isDelimiter c = false) {piece : List Char} (hpiece : piece ∈ pieces) :
    ∀ c ∈ piece, isDelimiter c = false := by
  intro c hc
  rcases h.origin piece hpiece c hc with hold | hpoint
  · exact hpart c hold
  · rw [beq_iff_eq.mp hpoint]
    rfl

private theorem mem_parseNumberList_plain {p : Parser} {listStr token : List Char} {symbol : String}
    (h : token ∈ p.parseNumberList listStr symbol) :
    token ≠ [] ∧ ∀ c ∈ token, isDelimiter c = false := by
  unfold Parser.parseNumberList at h
  split at h
  · obtain ⟨part, hpart, rfl⟩ := List.mem_map.mp h
    obtain ⟨hne, hplain⟩ := mem_listParts hpart
    refine ⟨fun hnil => hne ?_, ?_⟩
    · cases part with
      | nil => rfl
      | cons c rest =>
          rw [replace, List.flatMap_cons] at hnil
          obtain ⟨hfirst, -⟩ := List.append_eq_nil_iff.mp hnil
          split at hfirst <;> cases hfirst
    · exact isDelimiter_of_cut (cut_replaceComma (by decide) part) hplain (List.mem_singleton_self _)
  · obtain ⟨hmem, hne⟩ := List.mem_filter.mp h
    obtain ⟨piece, hpiece, rfl⟩ := List.mem_map.mp hmem
    obtain ⟨part, hpart, hpiece⟩ := List.mem_flatMap.mp hpiece
    have hplain := isDelimiter_of_cut (cut_splitPart part) (mem_listParts hpart).2 hpiece
    exact ⟨of_decide_eq_true hne,
      isDelimiter_of_cut (cut_trimSpace piece) hplain (List.mem_singleton_self _)⟩

/-- Space, tab, line feed, form feed, carriage return, semicolon, slash and pipe. -/
def listDelimiters : List Char := [' ', '\t', '\n', Char.ofNat 12, '\r', ';', '/', '|']

private theorem isDelimiter_of_mem : ∀ c ∈ listDelimiters, isDelimiter c = true := by decide

/-- The tokens have the digits of the list in their order, none is empty and none has a delimiter. -/
theorem digits_conserved (p : Parser) (listStr : List Char) (symbol : String) :
    (p.parseNumberList listStr symbol).flatten.filter Re.isDigit = listStr.filter Re.isDigit ∧
      ∀ token ∈ p.parseNumberList listStr symbol,
        token ≠ [] ∧ ∀ c ∈ listDelimiters, c ∉ token := by
  refine ⟨(cut_parseNumberList p listStr symbol).conserves, fun token htoken => ?_⟩
  obtain ⟨hne, hplain⟩ := mem_parseNumberList_plain htoken
  refine ⟨hne, fun c hc hmem => ?_⟩
  have hdelimiter := hplain c hmem
  rw [isDelimiter_of_mem c hc] at hdelimiter
  cases hdelimiter

end SphereFx.Extractor
