import SphereFx.Extractor.Canonical

/-!
# List sections

The list pattern takes a keyword and everything after it up to the first point or the end of the line.
That section is split at its delimiters, so a section of digits and spaces gives the words in it.
-/

namespace SphereFx.Extractor

open Text

attribute [local instance] decidableBAllChar

/-! ### The tokens of a section -/

/-- `[;\s/|]`. -/
def isDelimiter (c : Char) : Bool := c == ';' || Re.isSpace c || c == '/' || c == '|'

theorem listParts_eq {text : List Char} (h : ∀ c ∈ text, isWhite c = true → isDelimiter c = true) :
    Parser.listParts text = Re.parts isDelimiter text := by
  obtain ⟨lead, trail, htext, hlead, htrail⟩ := exists_trimSpace text
  have hfront : ∀ c ∈ lead, isDelimiter c = true := fun c hc =>
    h c (htext ▸ List.mem_append_left _ hc) (hlead c hc)
  have hback : ∀ c ∈ trail, isDelimiter c = true := fun c hc =>
    h c (htext ▸ List.mem_append_right _ (List.mem_append_right _ hc)) (htrail c hc)
  have hparts : (Parser.listDelimiter.split (trimSpace text)).filter (· ≠ []) =
      Re.parts isDelimiter text := by
    rw [show Parser.listDelimiter = Re.many1 isDelimiter from rfl, Re.filter_split_many1]
    conv_rhs => rw [htext]
    rw [Re.parts_append_left hfront, Re.parts_append_right hback]
  -- No part has white space left at its ends.
  have htrim : (Parser.listDelimiter.split (trimSpace text)).map trimSpace =
      (Parser.listDelimiter.split (trimSpace text)).map id := by
    apply List.map_congr_left
    intro part hpart
    by_cases hne : part = []
    · rw [hne]
      rfl
    · have hmem : part ∈ Re.parts isDelimiter text := by
        rw [← hparts]
        exact List.mem_filter.mpr ⟨hpart, decide_eq_true hne⟩
      apply trimSpace_word
      intro c hc
      obtain ⟨hin, hplain⟩ := (Re.mem_parts hmem).2 c hc
      rw [Bool.eq_false_iff]
      intro hwhite
      rw [h c hin hwhite] at hplain
      cases hplain
  rw [Parser.listParts, htrim, List.map_id, hparts]

theorem replace_eq_self {old : Char} {new text : List Char} (h : old ∉ text) :
    replace old new text = text := by
  have hmap : text.flatMap (fun c => if c = old then new else [c]) = text.flatMap fun c => [c] := by
    apply List.flatMap_congr
    intro c hc
    rw [if_neg (ne_of_mem_of_not_mem hc h)]
  rw [replace, hmap, List.flatMap_singleton']

theorem replace_nil (old : Char) (text : List Char) : replace old [] text = text.filter (· ≠ old) := by
  induction text with
  | nil => rfl
  | cons c rest ih =>
      have hcons : replace old [] (c :: rest) =
          (if c = old then [] else [c]) ++ replace old [] rest := List.flatMap_cons
      rw [hcons, ih, List.filter_cons]
      by_cases hc : c = old
      · rw [if_pos hc, if_neg (by simp [hc]), List.nil_append]
      · rw [if_neg hc, if_pos (decide_eq_true hc), List.singleton_append]

/-- Without a comma the tokens of a list are its parts. -/
theorem parseNumberList_eq {p : Parser} {symbol : String} {text : List Char}
    (hpoint : p.decimalSeparator symbol = ".") (hcomma : ',' ∉ text)
    (hwhite : ∀ c ∈ text, isWhite c = true → isDelimiter c = true) :
    p.parseNumberList text symbol = Re.parts isDelimiter text := by
  have hpart : ∀ part ∈ Re.parts isDelimiter text, Parser.splitPart part = [part] := by
    intro part hpart
    have hnone : ',' ∉ part := fun hc => hcomma ((Re.mem_parts hpart).2 ',' hc).1
    rw [Parser.splitPart, if_neg fun h => hnone h.1, replace_eq_self hnone]
  have htrim : ∀ part ∈ Re.parts isDelimiter text, trimSpace part = part := by
    intro part hpart
    apply trimSpace_word
    intro c hc
    obtain ⟨hin, hplain⟩ := (Re.mem_parts hpart).2 c hc
    rw [Bool.eq_false_iff]
    intro hc
    rw [hwhite c hin hc] at hplain
    cases hplain
  have hcommas : ¬ p.decimalSeparator symbol = "," := by
    rw [hpoint]
    decide
  rw [Parser.parseNumberList, if_neg hcommas, listParts_eq hwhite, List.flatMap_congr hpart,
    List.flatMap_singleton', List.map_congr_left htrim, List.map_id', List.filter_eq_self]
  exact fun part hpart => decide_eq_true (Re.mem_parts hpart).1

/-! ### The sections of a text -/

/-- The list pattern of the targets. -/
abbrev targetList : Re := Parser.listPattern takeProfitConfig

/-- `[^.\n\r]`. -/
def inSection (c : Char) : Bool := c != '.' && c != '\n' && c != '\r'

private theorem no_target_at_symbol : ∀ entry ∈ shippedRules, ∀ term ∈ takeProfitConfig.terms,
    Re.clash sameFold term.toList (entry.1.toList ++ [' ']) = true := by
  decide +kernel

/-- Characters of prices, of what stands between them and of `SL:`. -/
def listChars : List Char := " ./0123456789:LS".toList

theorem no_target_at_char : ∀ c ∈ listChars, ∀ term ∈ takeProfitConfig.terms,
    Re.clash sameFold term.toList [c] = true := by
  decide

theorem run_targetList_eq_nil {c : Char} (hc : c ∈ listChars) (before : Option Char)
    (rest : List Char) : targetList.run before (c :: rest) = [] := by
  apply run_keywordPattern_eq_nil
  intro _ term hterm
  exact Re.startsWith_of_clash (no_target_at_char c hc term hterm) rest

theorem run_targetList_in_symbol {entry : String × SymbolRule} (h : entry ∈ shippedRules)
    (back : List Char) : ∀ a b, entry.1.toList ++ [' '] = a ++ b → b ≠ [] →
      targetList.run (Re.lastOr none a) (b ++ back) = [] :=
  run_keyword_in_word (isWord_symbol h) (no_target_at_symbol entry h)
    (no_target_at_char ' ' List.mem_cons_self) back

theorem head_run_tp (before : Option Char) (back : List Char) :
    ((Re.alts (takeProfitConfig.terms.map word)).run before ("TP".toList ++ back)).head? =
      some ⟨"TP".toList, back, []⟩ := by
  have hletters : List.Forall₂ (fun c d => sameFold c d = true) "tp".toList "TP".toList := by
    decide
  -- "take profit" comes before "tp" in the pattern.
  apply @Re.head_run_alts_append [word "take profit"] (word "tp")
  · have hclash : Re.clash sameFold "take profit".toList "TP".toList = true := by decide
    exact List.forall_mem_singleton.mpr (Re.run_literal_eq_nil (Re.startsWith_of_clash hclash _))
  · rw [show word "tp" = Re.literal sameFold "tp".toList from rfl, Re.run_literal hletters,
      List.head?_cons]

/-- The hit on a keyword and a section, of which the third group is the section. -/
theorem head_run_targetList {first : Char} {more after : List Char}
    (hfirst : first ∈ "0123456789".toList)
    (hmore : ∀ c ∈ more, inSection c = true) (hafter : ∀ c ∈ after.head?, inSection c = false) :
    ∃ h, (targetList.run (some ' ') ("TP".toList ++ (first :: more ++ after))).head? = some h ∧
      h.taken ≠ [] ∧ h.rest = after ∧ h.submatch 3 = first :: more := by
  have hspace : Re.isSpace first = false :=
    (show ∀ c ∈ "0123456789".toList, Re.isSpace c = false by decide) first hfirst
  have hconnector : ∀ before, ((Re.alts (takeProfitConfig.connectors.map connector)).run before
      (first :: more ++ after)).head? = some ⟨[], first :: more ++ after, []⟩ := by
    intro before
    -- The signs do not match a digit, and the empty connector takes no space.
    apply @Re.head_run_alts_append ([":", ";", "#", "=", "-"].map word) (.many Re.isSpace true)
    · intro r hr
      obtain ⟨sign, hsign, rfl⟩ := List.mem_map.mp hr
      apply Re.run_literal_eq_nil
      have hclash : ∀ c ∈ "0123456789".toList, ∀ sign ∈ [":", ";", "#", "=", "-"],
          Re.clash sameFold sign.toList [c] = true := by decide
      exact Re.startsWith_of_clash (hclash first hfirst sign hsign) _
    · exact run_noSpace hspace
  have hvalue : ∀ before, ((Re.many inSection true).run before (first :: more ++ after)).head? =
      some ⟨first :: more, after, []⟩ := by
    intro before
    apply Re.head_runMany
    · refine List.forall_mem_cons.mpr ⟨?_, hmore⟩
      exact (show ∀ c ∈ "0123456789".toList, inSection c = true by decide) first hfirst
    · exact hafter
  have hstop : ∀ c ∈ (first :: more ++ after).head?, Re.isSpace c = false := fun c hc =>
    Option.some.inj hc ▸ hspace
  have hrun := @head_run_keywordPattern takeProfitConfig _ (some ' ') "TP".toList [] [] [] (first :: more)
    after rfl (fun before => head_run_tp before _) (List.forall_mem_nil _) hstop hconnector
    (List.forall_mem_nil _) hstop hvalue
  exact ⟨_, hrun, List.cons_ne_nil _ _, rfl, rfl⟩

end SphereFx.Extractor
