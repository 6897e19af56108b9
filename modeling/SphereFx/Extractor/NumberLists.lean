import SphereFx.Extractor.Sections

/-!
# The delimiters of a number list

Where the point is the decimal separator, a list is split at `[;\s/|]`, and at commas only in a part
without a point. The numbers of a list have points, so a comma between two of them, without a space
after it, is deleted like a thousands separator and the two become one token.
-/

namespace SphereFx.Extractor

open Text

attribute [local instance] decidableBAllChar

/-! ### The lists -/

/-- What may stand between two numbers. -/
def separates (c : Char) : Bool := isDelimiter c || isWhite c || c == ','

/-- A number of a list has a point and none of these characters. -/
def IsListed (number : List Char) : Prop := '.' ∈ number ∧ ∀ c ∈ number, separates c = false

/-- A further number of a list, with what stands before it. -/
structure ListItem where
  gap : List Char
  number : List Char
  gap_ne : gap ≠ []
  gap_chars : ∀ c ∈ gap, separates c = true
  listed : IsListed number

def listOf (first : List Char) (items : List ListItem) : List Char :=
  first ++ items.flatMap fun item => item.gap ++ item.number

/-- Whether there is more than commas before the number. -/
def ListItem.delimited (item : ListItem) : Bool := item.gap.any isDelimiter

/-! ### Tokens -/

/-- The tokens of a part between two delimiters. -/
def partTokens (part : List Char) : List (List Char) :=
  ((Parser.splitPart (trimSpace part)).map trimSpace).filter (· ≠ [])

def listTokens (text : List Char) : List (List Char) :=
  (Re.parts isDelimiter text).flatMap partTokens

theorem flatMap_filter_ne_nil {f : List Char → List (List Char)} (h : f [] = [])
    (words : List (List Char)) : (words.filter (· ≠ [])).flatMap f = words.flatMap f := by
  induction words with
  | nil => rfl
  | cons w rest ih =>
      rw [List.flatMap_cons, List.filter_cons]
      split
      · rw [List.flatMap_cons, ih]
      · rename_i hw
        rw [Bool.not_eq_true, decide_eq_false_iff_not, not_not] at hw
        rw [ih, hw, h, List.nil_append]

theorem parseNumberList_eq_listTokens {p : Parser} {symbol : String}
    (hpoint : p.decimalSeparator symbol = ".") {text : List Char} (htrim : trimSpace text = text) :
    p.parseNumberList text symbol = listTokens text := by
  have hcomma : ¬ p.decimalSeparator symbol = "," := by
    rw [hpoint]
    decide
  have hsplit : ((Parser.splitPart []).map trimSpace).filter (· ≠ []) = [] := by decide
  rw [Parser.parseNumberList, if_neg hcomma, Parser.listParts, htrim, List.map_flatMap,
    List.filter_flatMap, flatMap_filter_ne_nil hsplit, List.flatMap_map, listTokens,
    ← Re.filter_split_many1, flatMap_filter_ne_nil]
  · rfl
  · exact hsplit

theorem listTokens_append_cons {c : Char} (hc : isDelimiter c = true) (front back : List Char) :
    listTokens (front ++ c :: back) = listTokens front ++ listTokens back := by
  rw [listTokens, Re.parts_append_cons hc, List.flatMap_append]
  rfl

/-! ### What a part gives -/

private theorem partTokens_of_point {part : List Char} (h : '.' ∈ part) :
    partTokens part = [trimSpace (part.filter (· ≠ ','))] := by
  have hpoint : '.' ∈ trimSpace part := (mem_trimSpace rfl).mpr h
  obtain ⟨lead, trail, htext, hlead, htrail⟩ := exists_trimSpace part
  have hwhite : ∀ {side : List Char}, (∀ c ∈ side, isWhite c = true) →
      ∀ c ∈ side.filter (· ≠ ','), isWhite c = true := fun hside c hc =>
    hside c (List.mem_of_mem_filter hc)
  have htoken : trimSpace (part.filter (· ≠ ',')) = trimSpace ((trimSpace part).filter (· ≠ ',')) := by
    conv_lhs => rw [htext]
    rw [List.filter_append, List.filter_append, trimSpace_append_left (hwhite hlead),
      trimSpace_append_right (hwhite htrail)]
  have hkept : '.' ∈ trimSpace (part.filter (· ≠ ',')) := by
    rw [mem_trimSpace rfl, List.mem_filter]
    exact ⟨h, rfl⟩
  rw [partTokens, Parser.splitPart, if_neg fun hsplit => hsplit.2 hpoint, List.map_singleton,
    replace_nil, ← htoken, List.filter_cons_of_pos, List.filter_nil]
  exact decide_eq_true (List.ne_nil_of_mem hkept)

/-- A part without a number is none. -/
private theorem partTokens_of_gap {part : List Char} (h : ∀ c ∈ part, c = ',' ∨ isWhite c = true) :
    partTokens part = [] := by
  have hchars : ∀ c ∈ trimSpace part, c = ',' ∨ isWhite c = true := by
    obtain ⟨lead, trail, htext, -, -⟩ := exists_trimSpace part
    intro c hc
    apply h
    rw [htext]
    exact List.mem_append_right _ (List.mem_append_left _ hc)
  have hwhite : ∀ piece ∈ Parser.splitPart (trimSpace part), ∀ c ∈ piece, isWhite c = true := by
    intro piece hpiece c hc
    unfold Parser.splitPart at hpiece
    split at hpiece
    · obtain ⟨inner, hinner, rfl⟩ := List.mem_map.mp (List.mem_of_mem_filter hpiece)
      obtain ⟨lead, trail, htext, -, -⟩ := exists_trimSpace inner
      have hc : c ∈ inner := by
        rw [htext]
        exact List.mem_append_right _ (List.mem_append_left _ hc)
      obtain ⟨hmem, hcomma⟩ := Re.mem_splitOnP hinner c hc
      exact (hchars c hmem).resolve_left fun heq => by simp [heq] at hcomma
    · rw [List.mem_singleton.mp hpiece, replace_nil, List.mem_filter] at hc
      exact (hchars c hc.1).resolve_left (of_decide_eq_true hc.2)
  apply List.filter_eq_nil_iff.mpr
  intro token htoken
  obtain ⟨piece, hpiece, rfl⟩ := List.mem_map.mp htoken
  rw [trimSpace_white (hwhite piece hpiece)]
  decide

theorem listTokens_of_gap {gap : List Char} (h : ∀ c ∈ gap, separates c = true) :
    listTokens gap = [] := by
  apply List.flatMap_eq_nil_iff.mpr
  intro part hpart
  apply partTokens_of_gap
  intro c hc
  obtain ⟨hmem, hplain⟩ := (Re.mem_parts hpart).2 c hc
  have hsep := h c hmem
  rw [separates, hplain, Bool.false_or, Bool.or_eq_true, beq_iff_eq] at hsep
  exact hsep.symm

theorem listTokens_of_point {part : List Char} (hpoint : '.' ∈ part)
    (hplain : ∀ c ∈ part, isDelimiter c = false) :
    listTokens part = [trimSpace (part.filter (· ≠ ','))] := by
  rw [listTokens, Re.parts_word (List.ne_nil_of_mem hpoint) hplain, List.flatMap_singleton,
    partTokens_of_point hpoint]

/-! ### A number and what follows it -/

/-- White space that does not delimit, and commas. -/
def IsPadding (text : List Char) : Prop := ∀ c ∈ text, separates c = true ∧ isDelimiter c = false

theorem IsListed.plain {number : List Char} (h : IsListed number) :
    ∀ c ∈ number, isDelimiter c = false ∧ isWhite c = false ∧ c ≠ ',' := by
  intro c hc
  have hsep := h.2 c hc
  rw [separates, Bool.or_eq_false_iff, Bool.or_eq_false_iff, beq_eq_false_iff_ne] at hsep
  exact ⟨hsep.1.1, hsep.1.2, hsep.2⟩

/-- A number is a token, whatever its part has besides. -/
theorem listTokens_number {before number after : List Char} (hbefore : IsPadding before)
    (hnumber : IsListed number) (hafter : IsPadding after) :
    listTokens (before ++ (number ++ after)) = [number] := by
  have hwhite : ∀ {side : List Char}, IsPadding side →
      ∀ c ∈ side.filter (· ≠ ','), isWhite c = true := by
    intro side hside c hc
    obtain ⟨hmem, hcomma⟩ := List.mem_filter.mp hc
    obtain ⟨hsep, hplain⟩ := hside c hmem
    rw [separates, hplain, Bool.false_or, Bool.or_eq_true, beq_iff_eq] at hsep
    exact hsep.resolve_right (of_decide_eq_true hcomma)
  have hself : number.filter (· ≠ ',') = number :=
    List.filter_eq_self.mpr fun c hc => decide_eq_true (hnumber.plain c hc).2.2
  rw [listTokens_of_point, List.filter_append, List.filter_append, hself,
    trimSpace_append_left (hwhite hbefore), trimSpace_append_right (hwhite hafter),
    trimSpace_word fun c hc => (hnumber.plain c hc).2.1]
  · exact List.mem_append_right _ (List.mem_append_left _ hnumber.1)
  · intro c hc
    rcases List.mem_append.mp hc with hc | hc
    · exact (hbefore c hc).2
    rcases List.mem_append.mp hc with hc | hc
    · exact (hnumber.plain c hc).1
    · exact (hafter c hc).2

/-- A gap with a delimiter ends one part and begins another. -/
theorem exists_ends {gap : List Char} (hgap : ∀ c ∈ gap, separates c = true)
    (hdelim : gap.any isDelimiter = true) :
    ∃ after before, IsPadding after ∧ IsPadding before ∧ ∀ front back,
      listTokens (front ++ (gap ++ back)) =
        listTokens (front ++ after) ++ listTokens (before ++ back) := by
  have hnot : ∀ {side : List Char}, side.any isDelimiter = true →
      ¬ ∀ c ∈ side, isDelimiter c = false := by
    intro side hside hnone
    obtain ⟨c, hc, hdelim⟩ := List.any_eq_true.mp hside
    exact Bool.false_ne_true ((hnone c hc).symm.trans hdelim)
  obtain ⟨after, rest, hfirst, hafter, hhead⟩ := exists_stretch isDelimiter false gap
  obtain ⟨c, more, rfl⟩ : ∃ c more, rest = c :: more := by
    apply List.exists_cons_of_ne_nil
    intro hempty
    rw [hempty, List.append_nil] at hfirst
    exact hnot hdelim (hfirst ▸ hafter)
  obtain ⟨before, rest', hlast, hbefore, hhead'⟩ := exists_stretch isDelimiter false gap.reverse
  obtain ⟨d, more', rfl⟩ : ∃ d more', rest' = d :: more' := by
    apply List.exists_cons_of_ne_nil
    intro hempty
    rw [hempty, List.append_nil] at hlast
    apply hnot (List.any_reverse.trans hdelim)
    exact hlast ▸ hbefore
  have hlast : gap = more'.reverse ++ d :: before.reverse := by
    rw [← List.reverse_reverse gap, hlast, List.reverse_append, List.reverse_cons, List.append_assoc]
    rfl
  have hc : isDelimiter c = true := hhead c rfl
  have hd : isDelimiter d = true := hhead' d rfl
  -- What follows the first delimiter has the tokens of what follows the last.
  have hback : ∀ back, listTokens (more ++ back) = listTokens (before.reverse ++ back) := by
    intro back
    have htokens : listTokens (gap ++ back) = listTokens (before.reverse ++ back) := by
      rw [hlast, List.append_assoc, List.cons_append, listTokens_append_cons hd, listTokens_of_gap,
        List.nil_append]
      exact fun e he => hgap e (hlast ▸ List.mem_append_left _ he)
    have htokens' : listTokens (gap ++ back) = listTokens (more ++ back) := by
      rw [hfirst, List.append_assoc, List.cons_append, listTokens_append_cons hc, listTokens_of_gap,
        List.nil_append]
      exact fun e he => hgap e (hfirst ▸ List.mem_append_left _ he)
    rw [← htokens', htokens]
  refine ⟨after, before.reverse, ?_, ?_, ?_⟩
  · exact fun e he => ⟨hgap e (hfirst ▸ List.mem_append_left _ he), hafter e he⟩
  · intro e he
    refine ⟨hgap e ?_, hbefore e (List.mem_reverse.mp he)⟩
    rw [hlast]
    exact List.mem_append_right _ (List.mem_cons_of_mem d he)
  · intro front back
    rw [hfirst, List.append_assoc, List.cons_append, ← List.append_assoc front,
      listTokens_append_cons hc, hback]

/-! ### Which lists are split -/

theorem listOf_cons (first : List Char) (item : ListItem) (items : List ListItem) :
    listOf first (item :: items) = first ++ (item.gap ++ listOf item.number items) := by
  rw [listOf, List.flatMap_cons, List.append_assoc, listOf]

private theorem listTokens_listOf {items : List ListItem} (h : ∀ item ∈ items, item.delimited = true)
    {before first : List Char} (hbefore : IsPadding before) (hfirst : IsListed first) :
    listTokens (before ++ listOf first items) = first :: items.map ListItem.number := by
  induction items generalizing before first with
  | nil => exact listTokens_number hbefore hfirst (List.forall_mem_nil _)
  | cons item rest ih =>
      obtain ⟨hitem, hrest⟩ := List.forall_mem_cons.mp h
      obtain ⟨after, next, hafter, hnext, htokens⟩ := exists_ends item.gap_chars hitem
      rw [listOf_cons, ← List.append_assoc, htokens, ih hrest hnext item.listed, List.append_assoc,
        listTokens_number hbefore hfirst hafter]
      rfl

/-- There is one token for the first number and one for each delimiter. -/
private theorem length_listTokens (items : List ListItem) {part : List Char} (hpoint : '.' ∈ part)
    (hplain : ∀ c ∈ part, isDelimiter c = false) :
    (listTokens (listOf part items)).length = items.countP ListItem.delimited + 1 := by
  induction items generalizing part with
  | nil =>
      rw [listOf, List.flatMap_nil, List.append_nil, listTokens_of_point hpoint hplain]
      rfl
  | cons item rest ih =>
      have happend : ∀ {front back : List Char}, (∀ c ∈ front, isDelimiter c = false) →
          (∀ c ∈ back, isDelimiter c = false) → ∀ c ∈ front ++ back, isDelimiter c = false :=
        fun hfront hback c hc => (List.mem_append.mp hc).elim (hfront c) (hback c)
      have hnumber : ∀ c ∈ item.number, isDelimiter c = false := fun c hc =>
        (item.listed.plain c hc).1
      by_cases hitem : item.delimited = true
      · obtain ⟨after, next, hafter, hnext, htokens⟩ := exists_ends item.gap_chars hitem
        have hrest : listTokens (next ++ listOf item.number rest) =
            listTokens (listOf (next ++ item.number) rest) := by
          rw [listOf, listOf, List.append_assoc]
        rw [listOf_cons, htokens, List.length_append, listTokens_of_point
          (List.mem_append_left _ hpoint) (happend hplain fun c hc => (hafter c hc).2), hrest,
          ih (List.mem_append_right _ item.listed.1) (happend (fun c hc => (hnext c hc).2) hnumber),
          List.countP_cons_of_pos hitem, List.length_singleton]
        omega
      · have hgap : ∀ c ∈ item.gap, isDelimiter c = false := by
          intro c hc
          rw [Bool.eq_false_iff]
          exact fun hdelim => hitem (List.any_eq_true.mpr ⟨c, hc, hdelim⟩)
        have hmerged : listOf part (item :: rest) = listOf (part ++ (item.gap ++ item.number)) rest := by
          rw [listOf_cons, listOf, listOf]
          simp only [List.append_assoc]
        rw [hmerged, ih (List.mem_append_left _ hpoint) (happend hplain (happend hgap hnumber)),
          List.countP_cons_of_neg hitem]

/-- A list is split into its numbers exactly when a delimiter other than the comma stands before each
further one. -/
theorem splits_list_iff {p : Parser} {symbol : String} (hpoint : p.decimalSeparator symbol = ".")
    {first : List Char} (hfirst : IsListed first) (items : List ListItem) :
    p.parseNumberList (listOf first items) symbol = first :: items.map ListItem.number ↔
      ∀ item ∈ items, item.delimited = true := by
  have hends : ∀ {number : List Char}, IsListed number → ∀ c ∈ number, isWhite c = false :=
    fun hnumber c hc => (hnumber.plain c hc).2.1
  have htrim : trimSpace (listOf first items) = listOf first items := by
    apply trimSpace_eq_self
    · intro c hc
      rw [listOf, List.head?_append_of_ne_nil _ (List.ne_nil_of_mem hfirst.1)] at hc
      exact hends hfirst c (List.mem_of_mem_head? hc)
    · rcases List.eq_nil_or_concat' items with rfl | ⟨front, last, rfl⟩
      · intro c hc
        rw [listOf, List.flatMap_nil, List.append_nil] at hc
        exact hends hfirst c (List.mem_of_getLast? hc)
      · intro c hc
        rw [listOf, List.flatMap_append, List.flatMap_singleton, ← List.append_assoc,
          ← List.append_assoc, List.getLast?_append_of_ne_nil _
            (List.ne_nil_of_mem last.listed.1)] at hc
        exact hends last.listed c (List.mem_of_getLast? hc)
  rw [parseNumberList_eq_listTokens hpoint htrim]
  constructor
  · intro htokens
    have hlength := length_listTokens items hfirst.1 fun c hc => (hfirst.plain c hc).1
    rw [htokens, List.length_cons, List.length_map, Nat.add_right_cancel_iff] at hlength
    exact List.countP_eq_length.mp hlength.symm
  · intro h
    exact listTokens_listOf h (List.forall_mem_nil _) hfirst

/-- `, 1.083`, and the same without the space. -/
def spacedItem : ListItem where
  gap := ", ".toList
  number := "1.083".toList
  gap_ne := List.cons_ne_nil _ _
  gap_chars := by decide
  listed := ⟨by decide, by decide⟩

def unspacedItem : ListItem where
  gap := ",".toList
  number := "1.083".toList
  gap_ne := List.cons_ne_nil _ _
  gap_chars := by decide
  listed := ⟨by decide, by decide⟩

theorem splits_list_iff_spacedItem :
    shippedParser.parseNumberList "1.085, 1.083".toList "EURUSD" = ["1.085".toList, "1.083".toList] ∧
      ∀ item ∈ [spacedItem], item.delimited = true :=
  have hpoint : shippedParser.decimalSeparator "EURUSD" = "." := by rfl
  have hfirst : IsListed "1.085".toList := ⟨by decide, by decide⟩
  have hitems : ∀ item ∈ [spacedItem], item.delimited = true := by decide
  ⟨(splits_list_iff hpoint hfirst [spacedItem]).mpr hitems, hitems⟩

/-- A comma alone is deleted. -/
theorem comma_deleted : listOf "1.085".toList [unspacedItem] = "1.085,1.083".toList ∧
    shippedParser.decimalSeparator "EURUSD" = "." ∧
    shippedParser.parseNumberList "1.085,1.083".toList "EURUSD" = ["1.0851.083".toList] := by
  refine ⟨by decide, by rfl, by decide⟩

end SphereFx.Extractor
