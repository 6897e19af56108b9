import SphereFx.Extractor.LevelNumbers
import SphereFx.Extractor.Targets

/-!
# Take-profit lists

`TP: 1.0850 / 1.0830 / 1.0800` is read by the list pattern alone. What it captures ends at the first
point, so a price with decimals is cut at its point and the prices after it are lost. Where no price has
a point the section goes on into what follows the list, and the stop loss is read as a target.
-/

namespace SphereFx.Extractor

open Text

attribute [local instance] decidableBAllChar

/-! ### The texts -/

/-- Digits with at most one point. -/
structure PlainNumeral where
  whole : List Char
  frac : Option (List Char)
  digits : ∀ c ∈ whole ++ frac.getD [], Re.isDigit c = true
  digits_ne : whole ++ frac.getD [] ≠ []

def PlainNumeral.text (n : PlainNumeral) : List Char := numeralText n.whole n.frac

def TargetPrice.numeral {symbol : String} (price : TargetPrice symbol) : PlainNumeral :=
  ⟨price.whole, price.frac, price.digits, price.digits_ne_nil⟩

/-- `p1 / p2 / ... / pn`. -/
def slashed (numerals : List PlainNumeral) : List Char :=
  " / ".toList.intercalate (numerals.map PlainNumeral.text)

/-- `TP: p1 / p2 / ... / pn`. -/
def listText (numerals : List PlainNumeral) : List Char := "TP: ".toList ++ slashed numerals

/-- `s TP: p1 / ... / pn`. -/
def listedText (symbol : String) (numerals : List PlainNumeral) : List Char :=
  symbol.toList ++ ' ' :: listText numerals

/-- `s TP: p1 / ... / pn SL: q`. -/
def stoppedText (symbol : String) (numerals : List PlainNumeral) (stop : PlainNumeral) : List Char :=
  listedText symbol numerals ++ " SL: ".toList ++ stop.text

/-! ### The section of a list -/

/-- The whole parts up to the first price with a point. -/
def cutWholes : List PlainNumeral → List (List Char)
  | [] => []
  | n :: rest => n.whole :: (if n.frac = none then cutWholes rest else [])

theorem cutWholes_cons {n : PlainNumeral} (h : n.frac = none) (rest : List PlainNumeral) :
    cutWholes (n :: rest) = n.whole :: cutWholes rest := by
  rw [cutWholes, if_pos h]

theorem cutWholes_of_point {n : PlainNumeral} (h : n.frac ≠ none) (rest : List PlainNumeral) :
    cutWholes (n :: rest) = [n.whole] := by
  rw [cutWholes, if_neg h]

theorem cutWholes_of_whole {numerals : List PlainNumeral} (h : ∀ n ∈ numerals, n.frac = none) :
    cutWholes numerals = numerals.map PlainNumeral.whole ∧
      slashed numerals = " / ".toList.intercalate (cutWholes numerals) := by
  have hcut : cutWholes numerals = numerals.map PlainNumeral.whole := by
    induction numerals with
    | nil => rfl
    | cons n rest ih =>
        obtain ⟨hn, hrest⟩ := List.forall_mem_cons.mp h
        rw [cutWholes_cons hn, ih hrest, List.map_cons]
  refine ⟨hcut, ?_⟩
  rw [slashed, hcut]
  congr 1
  apply List.map_congr_left
  intro n hn
  rw [PlainNumeral.text, h n hn]
  exact List.append_nil n.whole

/-- A list with a point is its section and something that starts with the point. -/
private theorem slashed_of_point {numerals : List PlainNumeral} (h : ∃ n ∈ numerals, n.frac ≠ none) :
    ∃ after, slashed numerals = " / ".toList.intercalate (cutWholes numerals) ++ '.' :: after := by
  induction numerals with
  | nil =>
      obtain ⟨n, hn, -⟩ := h
      cases hn
  | cons n rest ih =>
      cases hfrac : n.frac with
      | some digits =>
          have hcut : cutWholes (n :: rest) = [n.whole] :=
            cutWholes_of_point (hfrac ▸ Option.some_ne_none digits) rest
          have htext : n.text = n.whole ++ '.' :: digits := by
            rw [PlainNumeral.text, hfrac]
            rfl
          rw [hcut, List.intercalate_singleton, slashed, List.map_cons, htext]
          cases rest with
          | nil => exact ⟨digits, List.intercalate_singleton⟩
          | cons m more =>
              rw [List.map_cons, List.intercalate_cons_cons]
              simp only [List.append_assoc, List.cons_append]
              exact ⟨_, rfl⟩
      | none =>
          have hrest : ∃ n ∈ rest, n.frac ≠ none := by
            obtain ⟨m, hm, hpoint⟩ := h
            rcases List.mem_cons.mp hm with rfl | hm
            · exact absurd hfrac hpoint
            · exact ⟨m, hm, hpoint⟩
          obtain ⟨after, hafter⟩ := ih hrest
          have htext : n.text = n.whole := by
            rw [PlainNumeral.text, hfrac]
            exact List.append_nil n.whole
          obtain ⟨m, more, rfl⟩ : ∃ m more, rest = m :: more := by
            obtain ⟨m, hm, -⟩ := hrest
            exact List.exists_cons_of_ne_nil (List.ne_nil_of_mem hm)
          obtain ⟨wholes, hwholes⟩ : ∃ wholes, cutWholes (m :: more) = m.whole :: wholes := ⟨_, rfl⟩
          refine ⟨after, ?_⟩
          rw [slashed, List.map_cons, List.map_cons, List.intercalate_cons_cons, ← List.map_cons,
            ← slashed, hafter, htext, cutWholes_cons hfrac, hwholes, List.intercalate_cons_cons]
          simp only [List.append_assoc]

/-! ### The two passes -/

/-- No match of a pattern starts in the text in front of the list. -/
def Skips (r : Re) (front : List Char) : Prop :=
  ∀ a b, front = a ++ b → b ≠ [] → ∀ back, r.run (Re.lastOr none a) (b ++ back) = []

private theorem run_indexedTarget_colon (before : Option Char) (back : List Char) :
    indexedTarget.run before ("TP:".toList ++ back) = [] := by
  rfl

/-- The indexed pattern needs a level after the keyword. -/
private theorem findAll_indexedTarget_colon {front back : List Char} (hfront : Skips indexedTarget front)
    (hback : ∀ c ∈ back, c ∈ listChars) :
    indexedTarget.findAll (front ++ ("TP:".toList ++ back)) = [] := by
  have hnone : ∀ {c : Char}, c ∈ 'P' :: listChars → ∀ before rest,
      indexedTarget.run before (c :: rest) = [] := by
    intro c hc before rest
    have hstart : ∀ c ∈ 'P' :: listChars, noTargetStart [c] = true := by decide
    exact run_indexedTarget_eq_nil (hstart c hc) before rest
  apply Re.findAll_eq_nil
  rw [Re.search_append fun a b hsplit hne => hfront a b hsplit hne _, Re.search_eq_none, Option.map_none]
  intro a b hsplit
  cases a with
  | nil =>
      rw [← show "TP:".toList ++ back = b from hsplit]
      exact run_indexedTarget_colon _ back
  | cons t a =>
      cases b with
      | nil => rfl
      | cons c rest =>
          apply hnone
          have hsplit : 'T' :: 'P' :: ':' :: back = t :: (a ++ c :: rest) := hsplit
          have hmem : c ∈ 'P' :: ':' :: back := by
            rw [(List.cons.inj hsplit).2]
            exact List.mem_append_right a List.mem_cons_self
          rcases List.mem_cons.mp hmem with rfl | hmem
          · exact List.mem_cons_self
          rcases List.mem_cons.mp hmem with rfl | hmem
          · decide
          · exact List.mem_cons_of_mem _ (hback c hmem)

/-- The list pattern takes the colon, the spaces after it and the section. -/
private theorem findAll_targetList_colon {front gap taken after : List Char} (hfront : Skips targetList front)
    (hboundary : Re.atBoundary (Re.lastOr none front) (some 'T') = true)
    (hgap : ∀ c ∈ gap, Re.isSpace c = true) (hstop : ∀ c ∈ (taken ++ after).head?, Re.isSpace c = false)
    (htaken : ∀ c ∈ taken, inSection c = true) (hafter : ∀ c ∈ after.head?, inSection c = false)
    (hchars : ∀ c ∈ after, c ∈ listChars) :
    ∃ h, targetList.findAll (front ++ ("TP:".toList ++ (gap ++ (taken ++ after)))) = [h] ∧
      h.submatch 3 = taken := by
  have hcolon : ∀ before, ((Re.alts (takeProfitConfig.connectors.map connector)).run before
      (":".toList ++ (gap ++ (taken ++ after)))).head? =
        some ⟨":".toList, gap ++ (taken ++ after), []⟩ := by
    intro before
    have hletters : List.Forall₂ (fun c d => sameFold c d = true) ":".toList ":".toList := by
      decide
    apply Re.head_run_alts
    rw [show connector ":" = Re.literal sameFold ":".toList from rfl, Re.run_literal hletters,
      List.head?_cons]
  have hvalue : ∀ before, ((Re.many inSection true).run before (taken ++ after)).head? =
      some ⟨taken, after, []⟩ := fun _ => Re.head_runMany htaken hafter
  have hcolonStop : ∀ c ∈ (":".toList ++ (gap ++ (taken ++ after))).head?, Re.isSpace c = false := by
    intro c hc
    rw [← Option.some.inj hc]
    rfl
  have hrun := @head_run_keywordPattern takeProfitConfig _ (Re.lastOr none front) "TP".toList []
    ":".toList gap taken after hboundary (fun before => head_run_tp before _) (List.forall_mem_nil _)
    hcolonStop hcolon hgap hstop hvalue
  have hsearch := Re.search_skip (fun a b hsplit hne => hfront a b hsplit hne _) hrun
  have hrest : ∀ before, targetList.search before after = none := by
    intro before
    apply search_gap_eq_none
    · exact fun c hc before rest => run_targetList_eq_nil (hchars c hc) before rest
    · intro before
      have hempty : ∀ term ∈ takeProfitConfig.terms, Re.startsWith sameFold term.toList [] = false := by
        decide
      exact run_keywordPattern_eq_nil fun _ => hempty
  exact ⟨_, Re.findAll_eq_singleton hsearch (List.cons_ne_nil _ _) (hrest _), rfl⟩

/-! ### The levels of a list -/

/-- The entry of a price with a level. -/
def levelEntry (price : F64 × Nat) : Int × TakeProfitLevel :=
  (price.2, ⟨toInt32 price.2, price.1⟩)

/-- Prices with the levels from one on. -/
def numbered (prices : List F64) : Parser.LevelMap := (prices.zipIdx 1).map levelEntry

private theorem numbered_append (front : List F64) (price : F64) :
    numbered (front ++ [price]) = numbered front ++ [levelEntry (price, front.length + 1)] := by
  rw [numbered, List.zipIdx_append, List.map_append, Nat.add_comm front.length 1]
  rfl

theorem has_numbered (prices : List F64) :
    Parser.LevelMap.has (numbered prices) ((prices.length : Int) + 1) = false := by
  apply Parser.LevelMap.has_eq_false.mpr
  intro found hfound
  obtain ⟨⟨price, i⟩, hprice, rfl⟩ := List.mem_map.mp hfound
  have hindex := List.mem_zipIdx hprice
  show ((i : Nat) : Int) ≠ _
  omega

section Levels

variable {p : Parser} {symbol : String}

/-- A token that is taken continues the numbering. -/
private theorem foldl_addToken_numbered (tokens : List (List Char)) (prices : List F64) :
    (tokens.foldl (p.addToken symbol) (numbered prices, (prices.length : Int) + 1)).1 =
      numbered (prices ++ p.pricesOf symbol tokens) := by
  induction tokens generalizing prices with
  | nil => rw [Parser.pricesOf, List.filterMap_nil, List.append_nil, List.foldl_nil]
  | cons token rest ih =>
      have hunused : Parser.unusedFrom (numbered prices) ((numbered prices).length + 1)
          ((prices.length : Int) + 1) = (prices.length : Int) + 1 := by
        rw [Parser.unusedFrom, has_numbered, if_neg Bool.false_ne_true]
      have hpush : ∀ price, (numbered prices).set ((prices.length : Int) + 1)
          ⟨toInt32 ((prices.length : Int) + 1), price⟩ = numbered (prices ++ [price]) := by
        intro price
        rw [Parser.LevelMap.set_of_unused (has_numbered prices), numbered_append, levelEntry,
          Nat.cast_add, Nat.cast_one]
      rw [List.foldl_cons, Parser.addToken, Parser.pricesOf, List.filterMap_cons]
      cases parseFloat token with
      | none => exact ih prices
      | some price =>
          simp only [Option.filter_some]
          split
          · have hnext := ih (prices ++ [price])
            rw [List.length_append, List.length_singleton] at hnext
            simp only [hunused, hpush]
            push_cast at hnext
            rw [hnext, List.append_assoc]
            rfl
          · exact ih prices

private theorem addSection_nil (m : Hit) : p.addSection symbol [] m =
    numbered (p.pricesOf symbol (p.parseNumberList (m.submatch 3) symbol)) :=
  foldl_addToken_numbered _ []

private theorem parseNumberList_list (hpoint : p.decimalSeparator symbol = ".") {body : List Char}
    (hchars : ∀ c ∈ body, c ∈ listChars) :
    p.parseNumberList body symbol = Re.parts isDelimiter body := by
  have hplain : ∀ c ∈ listChars, c ≠ ',' ∧ (isWhite c = true → isDelimiter c = true) := by decide
  exact parseNumberList_eq hpoint (fun hc => (hplain _ (hchars _ hc)).1 rfl)
    fun c hc => (hplain c (hchars c hc)).2

end Levels

/-- The map of a text with one list. -/
theorem levelMap_colon {symbol : String} {front body after : List Char}
    (hpoint : shippedParser.decimalSeparator symbol = ".")
    (hindexed : Skips indexedTarget front) (hlist : Skips targetList front)
    (hboundary : Re.atBoundary (Re.lastOr none front) (some 'T') = true)
    (hbody : ∀ c ∈ body, c ∈ listChars ∧ inSection c = true)
    (hafter : ∀ c ∈ after.head?, inSection c = false) (hchars : ∀ c ∈ after, c ∈ listChars) :
    shippedParser.levelMap takeProfitConfig (front ++ ("TP:".toList ++ (body ++ after))) symbol =
      numbered (shippedParser.pricesOf symbol (Re.parts isDelimiter body)) := by
  obtain ⟨gap, taken, rfl, hgap, hstop⟩ := exists_stretch Re.isSpace true body
  have htaken : ∀ c ∈ taken, c ∈ listChars ∧ inSection c = true := fun c hc =>
    hbody c (List.mem_append_right gap hc)
  have hnext : ∀ c ∈ (taken ++ after).head?, Re.isSpace c = false := by
    intro c hc
    cases taken with
    | nil =>
        have hplain : ∀ c ∈ listChars, inSection c = false → Re.isSpace c = false := by decide
        exact hplain c (hchars c (List.mem_of_mem_head? hc)) (hafter c hc)
    | cons d more => exact hstop c hc
  have hback : ∀ c ∈ gap ++ taken ++ after, c ∈ listChars := by
    intro c hc
    rcases List.mem_append.mp hc with hc | hc
    · exact (hbody c hc).1
    · exact hchars c hc
  obtain ⟨m, hfound, hsection⟩ := findAll_targetList_colon hlist hboundary hgap hnext
    (fun c hc => (htaken c hc).2) hafter hchars
  have hnone : shippedParser.indexedLevels takeProfitConfig
      (front ++ ("TP:".toList ++ (gap ++ taken ++ after))) symbol = [] := by
    rw [Parser.indexedLevels_eq]
    show (indexedTarget.findAll _).foldl _ _ = _
    rw [findAll_indexedTarget_colon hindexed hback]
    rfl
  have hspaces : ∀ c ∈ gap, isDelimiter c = true := by
    intro c hc
    rw [isDelimiter, hgap c hc, Bool.or_true, Bool.true_or, Bool.true_or]
  rw [Parser.levelMap_eq, if_pos (show takeProfitConfig.noIndexList = true from rfl), hnone,
    List.append_assoc, hfound, List.foldl_cons, List.foldl_nil, addSection_nil, hsection,
    parseNumberList_list hpoint fun c hc => (htaken c hc).1, Re.parts_append_left hspaces]

/-! ### The result of a numbered map -/

section Result

variable {rangeOrder : Parser.LevelMap → Parser.LevelMap} {symbol : String} {text : List Char}

/-- Levels that fit 32 bits come out in their order. -/
theorem extractTakeProfit_numbered (hrange : ∀ levels, (rangeOrder levels).Perm levels)
    {prices : List F64} (hcount : prices.length < 2 ^ 31)
    (h : shippedParser.levelMap takeProfitConfig text symbol = numbered prices) :
    shippedParser.extractTakeProfit rangeOrder takeProfitConfig text symbol =
      (prices.zipIdx 1).map fun price => ⟨price.2, price.1⟩ := by
  have hself : (numbered prices).map Prod.snd =
      (prices.zipIdx 1).map fun price => ⟨price.2, price.1⟩ := by
    rw [numbered, List.map_map]
    apply List.map_congr_left
    rintro ⟨price, i⟩ hprice
    have hindex := List.mem_zipIdx hprice
    show (⟨toInt32 i, price⟩ : TakeProfitLevel) = ⟨i, price⟩
    rw [toInt32_eq_self (by omega) (by omega)]
  have hperm := @Parser.perm_extractTakeProfit shippedParser symbol _ takeProfitConfig text hrange
  rw [h, hself] at hperm
  have hlevels : ((prices.zipIdx 1).map fun price => (⟨price.2, price.1⟩ : TakeProfitLevel)).Pairwise
      fun a b => a.level < b.level := by
    apply List.pairwise_map.mpr
    have hindices : ((prices.zipIdx 1).map Prod.snd).Pairwise (· < ·) := by
      rw [List.zipIdx_map_snd]
      exact List.pairwise_lt_range'
    exact (List.pairwise_map.mp hindices).imp fun hless => Int.ofNat_lt.mpr hless
  refine hperm.eq_of_pairwise ?_ (Parser.sorted_extractTakeProfit rangeOrder takeProfitConfig text symbol)
    (hlevels.imp le_of_lt)
  intro a b ha hb hab hba
  have hnodup := List.pairwise_map.mpr (hlevels.imp ne_of_lt)
  exact List.inj_on_of_nodup_map hnodup (hperm.mem_iff.mp ha) hb (le_antisymm hab hba)

private theorem length_of_levels (hrange : ∀ levels, (rangeOrder levels).Perm levels) {prices : List F64}
    (h : shippedParser.levelMap takeProfitConfig text symbol = numbered prices)
    (hpositive : ∀ target ∈ shippedParser.extractTakeProfit rangeOrder takeProfitConfig text symbol,
      1 ≤ target.level) : prices.length < 2 ^ 31 := by
  by_contra hlong
  have hindex : 2 ^ 31 - 1 < prices.length := by omega
  have hentry : levelEntry (prices[2 ^ 31 - 1], 2 ^ 31) ∈ numbered prices := by
    apply List.mem_map_of_mem
    exact List.mk_add_mem_zipIdx_iff_getElem?.mpr (List.getElem?_eq_getElem hindex)
  have hperm := @Parser.perm_extractTakeProfit shippedParser symbol _ takeProfitConfig text hrange
  rw [h] at hperm
  have hlevel : (1 : ℤ) ≤ toInt32 (2 ^ 31) :=
    hpositive _ (hperm.mem_iff.mpr (List.mem_map_of_mem hentry))
  exact absurd hlevel (by decide)

end Result

/-! ### Lists on their own -/

section Characters

theorem mem_listChars {c : Char} (h : c ∈ ".0123456789".toList) : c ∈ listChars :=
  (show ∀ c ∈ ".0123456789".toList, c ∈ listChars by decide) c h

theorem PlainNumeral.mem_text (n : PlainNumeral) : ∀ c ∈ n.text, c ∈ ".0123456789".toList :=
  mem_numeralText n.digits

theorem PlainNumeral.mem_whole (n : PlainNumeral) : ∀ c ∈ n.whole, c ∈ "0123456789".toList :=
  fun c hc => isDigit_mem (n.digits c (List.mem_append_left _ hc))

/-- The characters of a separated list are those of its words and of the separator. -/
theorem mem_intercalate {sep : List Char} {words : List (List Char)} {c : Char}
    (h : c ∈ sep.intercalate words) : c ∈ sep ∨ ∃ w ∈ words, c ∈ w := by
  induction words with
  | nil => cases h
  | cons w rest ih =>
      cases rest with
      | nil =>
          rw [List.intercalate_singleton] at h
          exact Or.inr ⟨w, List.mem_singleton_self w, h⟩
      | cons v more =>
          rw [List.intercalate_cons_cons, List.append_assoc, List.mem_append, List.mem_append] at h
          rcases h with h | h | h
          · exact Or.inr ⟨w, List.mem_cons_self, h⟩
          · exact Or.inl h
          · exact (ih h).imp_right fun ⟨u, hu, hc⟩ => ⟨u, List.mem_cons_of_mem w hu, hc⟩

private theorem mem_slashed (numerals : List PlainNumeral) : ∀ c ∈ slashed numerals, c ∈ listChars := by
  intro c hc
  rcases mem_intercalate hc with hc | ⟨w, hw, hc⟩
  · exact (show ∀ c ∈ " / ".toList, c ∈ listChars by decide) c hc
  · obtain ⟨n, -, rfl⟩ := List.mem_map.mp hw
    exact mem_listChars (n.mem_text c hc)

theorem mem_cutWholes {numerals : List PlainNumeral} :
    ∀ w ∈ cutWholes numerals, ∀ c ∈ w, c ∈ "0123456789".toList := by
  induction numerals with
  | nil => exact List.forall_mem_nil _
  | cons n rest ih =>
      refine List.forall_mem_cons.mpr ⟨n.mem_whole, fun w hw => ?_⟩
      split at hw
      · exact ih w hw
      · cases hw

theorem mem_cutSection {numerals : List PlainNumeral} :
    ∀ c ∈ ' ' :: " / ".toList.intercalate (cutWholes numerals), c ∈ listChars ∧ inSection c = true := by
  intro c hc
  rcases List.mem_cons.mp hc with rfl | hc
  · decide
  rcases mem_intercalate hc with hc | ⟨w, hw, hc⟩
  · exact (show ∀ c ∈ " / ".toList, c ∈ listChars ∧ inSection c = true by decide) c hc
  · exact (show ∀ c ∈ "0123456789".toList, c ∈ listChars ∧ inSection c = true by decide) c
      (mem_cutWholes w hw c hc)

theorem parts_cutSection (numerals : List PlainNumeral) :
    Re.parts isDelimiter (' ' :: " / ".toList.intercalate (cutWholes numerals)) =
      (cutWholes numerals).filter (· ≠ []) := by
  have hspace : ∀ c ∈ [' '], isDelimiter c = true := by decide
  have hsep : ∀ c ∈ "/ ".toList, isDelimiter c = true := by decide
  have hword : ∀ w ∈ cutWholes numerals, ∀ c ∈ w, isDelimiter c = false := fun w hw c hc =>
    (show ∀ c ∈ "0123456789".toList, isDelimiter c = false by decide) c (mem_cutWholes w hw c hc)
  rw [← List.singleton_append, Re.parts_append_left hspace]
  exact Re.parts_intercalate (show isDelimiter ' ' = true from rfl) hsep hword

theorem pricesOf_filter (p : Parser) (symbol : String) (tokens : List (List Char)) :
    p.pricesOf symbol (tokens.filter (· ≠ [])) = p.pricesOf symbol tokens := by
  rw [Parser.pricesOf, List.filterMap_filter]
  apply List.filterMap_congr
  intro token _
  by_cases hblank : token = []
  · rw [hblank]
    rfl
  · rw [if_pos (decide_eq_true hblank)]

end Characters

section Lists

variable {symbol : String}

/-- A list with a point gives the levels of its whole parts up to there, whatever follows. -/
private theorem levelMap_of_point {front back : List Char} {numerals : List PlainNumeral}
    (hpoint : shippedParser.decimalSeparator symbol = ".")
    (hindexed : Skips indexedTarget front) (hlist : Skips targetList front)
    (hboundary : Re.atBoundary (Re.lastOr none front) (some 'T') = true)
    (h : ∃ n ∈ numerals, n.frac ≠ none) (hback : ∀ c ∈ back, c ∈ listChars) :
    shippedParser.levelMap takeProfitConfig (front ++ (listText numerals ++ back)) symbol =
      numbered (shippedParser.pricesOf symbol (cutWholes numerals)) := by
  obtain ⟨after, hslashed⟩ := slashed_of_point h
  have htext : listText numerals ++ back = "TP:".toList ++
      (' ' :: " / ".toList.intercalate (cutWholes numerals) ++ '.' :: (after ++ back)) := by
    rw [listText, hslashed]
    simp
  have hafter : ∀ c ∈ '.' :: (after ++ back), c ∈ listChars := by
    intro c hc
    rw [← List.cons_append] at hc
    rcases List.mem_append.mp hc with hc | hc
    · exact mem_slashed numerals c (hslashed ▸ List.mem_append_right _ hc)
    · exact hback c hc
  rw [htext, levelMap_colon hpoint hindexed hlist hboundary mem_cutSection _ hafter, parts_cutSection,
    pricesOf_filter]
  intro c hc
  rw [← Option.some.inj hc]
  rfl

/-- Without a point the section goes on into what follows. -/
private theorem levelMap_of_whole {front taken after : List Char} {numerals : List PlainNumeral}
    (hpoint : shippedParser.decimalSeparator symbol = ".")
    (hindexed : Skips indexedTarget front) (hlist : Skips targetList front)
    (hboundary : Re.atBoundary (Re.lastOr none front) (some 'T') = true)
    (h : ∀ n ∈ numerals, n.frac = none)
    (htaken : ∀ c ∈ taken, c ∈ listChars ∧ inSection c = true) (hhead : ∀ c ∈ taken.head?, c = ' ')
    (hafter : ∀ c ∈ after.head?, inSection c = false) (hchars : ∀ c ∈ after, c ∈ listChars) :
    shippedParser.levelMap takeProfitConfig (front ++ (listText numerals ++ (taken ++ after))) symbol =
      numbered (shippedParser.pricesOf symbol (numerals.map PlainNumeral.whole) ++
        shippedParser.pricesOf symbol (Re.parts isDelimiter taken)) := by
  obtain ⟨hcut, hslashed⟩ := cutWholes_of_whole h
  have htext : listText numerals ++ (taken ++ after) = "TP:".toList ++
      (' ' :: " / ".toList.intercalate (cutWholes numerals) ++ taken ++ after) := by
    rw [listText, hslashed]
    simp
  have hbody : ∀ c ∈ ' ' :: " / ".toList.intercalate (cutWholes numerals) ++ taken,
      c ∈ listChars ∧ inSection c = true := by
    intro c hc
    rcases List.mem_append.mp hc with hc | hc
    · exact mem_cutSection c hc
    · exact htaken c hc
  have hends : ∀ c ∈ taken.head?, isDelimiter c = true := by
    intro c hc
    rw [hhead c hc]
    rfl
  rw [htext, levelMap_colon hpoint hindexed hlist hboundary hbody hafter hchars,
    Re.parts_append_of_head hends, parts_cutSection, Parser.pricesOf, List.filterMap_append,
    ← Parser.pricesOf, ← Parser.pricesOf, pricesOf_filter, hcut]

/-! ### Lists after a symbol -/

section Listed

variable {rule : SymbolRule}

theorem skips_symbol (hrule : shippedRules.lookup symbol = some rule) :
    Skips indexedTarget (symbol.toList ++ [' ']) ∧ Skips targetList (symbol.toList ++ [' ']) := by
  constructor
  · apply forall_splits (P := fun a b => ∀ back, indexedTarget.run (Re.lastOr none a) (b ++ back) = [])
    intro i hi _ back
    exact run_indexedTarget_eq_nil (noTargetStart_in_symbol _ (mem_of_lookup hrule) i hi) _ back
  · exact fun a b hsplit hne back =>
      run_targetList_in_symbol (mem_of_lookup hrule) back a b hsplit hne

theorem boundary_after_symbol (symbol : String) :
    Re.atBoundary (Re.lastOr none (symbol.toList ++ [' '])) (some 'T') = true := by
  rw [Re.lastOr, List.getLast?_concat]
  rfl

theorem levelMap_listed_of_point (hrule : shippedRules.lookup symbol = some rule)
    {numerals : List PlainNumeral} (h : ∃ n ∈ numerals, n.frac ≠ none) {back : List Char}
    (hback : ∀ c ∈ back, c ∈ listChars) :
    shippedParser.levelMap takeProfitConfig (listedText symbol numerals ++ back) symbol =
      numbered (shippedParser.pricesOf symbol (cutWholes numerals)) := by
  obtain ⟨hindexed, hlist⟩ := skips_symbol hrule
  rw [listedText, List.append_cons, List.append_assoc]
  exact levelMap_of_point (decimalSeparator_of_lookup hrule) hindexed hlist
    (boundary_after_symbol symbol) h hback

theorem levelMap_listed_of_whole (hrule : shippedRules.lookup symbol = some rule)
    {numerals : List PlainNumeral} (h : ∀ n ∈ numerals, n.frac = none) {taken after : List Char}
    (htaken : ∀ c ∈ taken, c ∈ listChars ∧ inSection c = true) (hhead : ∀ c ∈ taken.head?, c = ' ')
    (hafter : ∀ c ∈ after.head?, inSection c = false) (hchars : ∀ c ∈ after, c ∈ listChars) :
    shippedParser.levelMap takeProfitConfig (listedText symbol numerals ++ (taken ++ after)) symbol =
      numbered (shippedParser.pricesOf symbol (numerals.map PlainNumeral.whole) ++
        shippedParser.pricesOf symbol (Re.parts isDelimiter taken)) := by
  obtain ⟨hindexed, hlist⟩ := skips_symbol hrule
  rw [listedText, List.append_cons, List.append_assoc]
  exact levelMap_of_whole (decimalSeparator_of_lookup hrule) hindexed hlist
    (boundary_after_symbol symbol) h htaken hhead hafter hchars

private theorem levelMap_listedText (hrule : shippedRules.lookup symbol = some rule)
    (numerals : List PlainNumeral) :
    shippedParser.levelMap takeProfitConfig (listedText symbol numerals) symbol =
      numbered (shippedParser.pricesOf symbol (cutWholes numerals)) := by
  by_cases hwhole : ∀ n ∈ numerals, n.frac = none
  · have hmap := @levelMap_listed_of_whole symbol rule hrule numerals hwhole [] []
      (List.forall_mem_nil _) (fun c hc => by cases hc) (fun c hc => by cases hc)
      (List.forall_mem_nil _)
    rw [List.append_nil, List.append_nil] at hmap
    rw [hmap, (cutWholes_of_whole hwhole).1]
    exact congrArg numbered (List.append_nil _)
  · rw [not_forall₂] at hwhole
    obtain ⟨n, hn, hfrac⟩ := hwhole
    have hmap := levelMap_listed_of_point hrule ⟨n, hn, hfrac⟩ (List.forall_mem_nil _)
    rwa [List.append_nil] at hmap

end Listed

end Lists

/-! ### Which lists are read back -/

/-- The result is the prices of the list with the levels from one on. -/
def ReadsList (rangeOrder : Parser.LevelMap → Parser.LevelMap) (symbol : String)
    (prices : List (TargetPrice symbol)) : Prop :=
  shippedParser.extractTakeProfit rangeOrder takeProfitConfig
    (listedText symbol (prices.map TargetPrice.numeral)) symbol =
      (prices.zipIdx 1).map fun price => ⟨price.2, price.1.price⟩

/-- No price but the last has a point, the last has only zeros after it, and the levels fit 32 bits. -/
structure CutsNothing {symbol : String} (prices : List (TargetPrice symbol)) : Prop where
  points : ∀ price ∈ prices.dropLast, price.frac = none
  zeros : ∀ price ∈ prices.getLast?, ∀ c ∈ price.frac.getD [], c = '0'
  count : prices.length < 2 ^ 31

section ReadBack

variable {symbol : String} {rule : SymbolRule}

/-- The whole part of a price reads as the price exactly if there are only zeros after the point. -/
theorem parseFloat_whole_iff (hrule : shippedRules.lookup symbol = some rule)
    (price : TargetPrice symbol) :
    parseFloat price.whole = some price.price ↔ ∀ c ∈ price.frac.getD [], c = '0' := by
  obtain ⟨hprice, hpositive⟩ := price.price_eq hrule
  have hwhole : ∀ c ∈ price.whole, Re.isDigit c = true := fun c hc =>
    price.digits c (List.mem_append_left _ hc)
  have hfrac : ∀ c ∈ price.frac.getD [], Re.isDigit c = true := fun c hc =>
    price.digits c (List.mem_append_right _ hc)
  have hpow : (0 : ℚ) < 10 ^ (price.frac.getD []).length := by positivity
  have hvalue : literalValue price.whole (price.frac.getD []) = digitsValue 10 price.whole +
      digitsValue 10 (price.frac.getD []) / 10 ^ (price.frac.getD []).length := by
    rw [literalValue, digitsValue_append]
    push_cast
    rw [add_div, mul_div_cancel_right₀ _ hpow.ne']
  have hsame : literalValue price.whole (price.frac.getD []) = digitsValue 10 price.whole ↔
      digitsValue 10 (price.frac.getD []) = 0 := by
    rw [hvalue, add_eq_left, div_eq_zero_iff, or_iff_left hpow.ne', Nat.cast_eq_zero]
  rw [← digitsValue_eq_zero_iff hfrac, ← hsame]
  constructor
  · intro hreads
    have hne : price.whole ≠ [] := by
      intro hempty
      rw [hempty] at hreads
      cases hreads
    rw [parseFloat_digits hwhole hne] at hreads
    rcases (toFloat_eq_some hreads).2 with hzero | hdigits
    · rw [hprice] at hzero
      exact absurd (F64.fin.inj hzero) hpositive.ne'
    · rw [hprice] at hdigits
      exact F64.fin.inj hdigits
  · intro hdigits
    have hne : price.whole ≠ [] := by
      intro hempty
      rw [hdigits, hempty] at hpositive
      exact absurd hpositive (lt_irrefl 0)
    have hreads := price.reads
    rw [parseFloat_numeral price.digits price.digits_ne_nil, hdigits] at hreads
    rw [parseFloat_digits hwhole hne, hreads]

/-- Nothing is cut short of the last whole part exactly if the points are in the last price. -/
theorem points_iff {numerals : List PlainNumeral} :
    (∀ n ∈ numerals.dropLast, n.frac = none) ↔
      cutWholes numerals = numerals.map PlainNumeral.whole := by
  induction numerals with
  | nil => exact ⟨fun _ => rfl, fun _ => List.forall_mem_nil _⟩
  | cons n rest ih =>
      cases rest with
      | nil =>
          refine ⟨fun _ => ?_, fun _ => List.forall_mem_nil _⟩
          rw [cutWholes, cutWholes, ite_self]
          rfl
      | cons m more =>
          rw [List.dropLast_cons_cons, List.forall_mem_cons, ih]
          by_cases hfrac : n.frac = none
          · rw [cutWholes_cons hfrac, and_iff_right hfrac]
            exact (List.cons_inj_right n.whole).symm
          · rw [cutWholes_of_point hfrac]
            exact iff_of_false (fun h => hfrac h.1) fun h => by cases h

theorem length_cutWholes (numerals : List PlainNumeral) :
    (cutWholes numerals).length ≤ numerals.length ∧
      ((cutWholes numerals).length = numerals.length →
        cutWholes numerals = numerals.map PlainNumeral.whole) := by
  induction numerals with
  | nil => exact ⟨le_rfl, fun _ => rfl⟩
  | cons n rest ih =>
      by_cases hfrac : n.frac = none
      · rw [cutWholes_cons hfrac, List.length_cons, List.length_cons, List.map_cons]
        refine ⟨Nat.succ_le_succ ih.1, fun hlength => ?_⟩
        rw [ih.2 (Nat.succ.inj hlength)]
      · rw [cutWholes_of_point hfrac]
        refine ⟨Nat.succ_le_succ (Nat.zero_le _), fun hlength => ?_⟩
        obtain rfl : rest = [] := List.length_eq_zero_iff.mp (Nat.succ.inj hlength).symm
        rfl

theorem pricesOf_of_reads {prices : List (TargetPrice symbol)}
    (h : ∀ price ∈ prices, parseFloat price.whole = some price.price) :
    shippedParser.pricesOf symbol (prices.map TargetPrice.whole) = prices.map TargetPrice.price := by
  rw [Parser.pricesOf, List.filterMap_map, ← List.filterMap_eq_map]
  apply List.filterMap_congr
  intro price hprice
  show (parseFloat price.whole).filter _ = some price.price
  rw [h price hprice, Option.filter_some, if_pos price.allowed]

/-- A list is read back exactly when the first point cuts nothing from it. -/
theorem reads_list_iff {rangeOrder : Parser.LevelMap → Parser.LevelMap}
    (hrange : ∀ levels, (rangeOrder levels).Perm levels)
    (hrule : shippedRules.lookup symbol = some rule) (prices : List (TargetPrice symbol)) :
    ReadsList rangeOrder symbol prices ↔ CutsNothing prices := by
  have hmap := levelMap_listedText hrule (prices.map TargetPrice.numeral)
  have hwholes : (prices.map TargetPrice.numeral).map PlainNumeral.whole =
      prices.map TargetPrice.whole := List.map_map
  have hpoints : (∀ n ∈ (prices.map TargetPrice.numeral).dropLast, n.frac = none) ↔
      ∀ price ∈ prices.dropLast, price.frac = none := by
    rw [← List.map_dropLast, List.forall_mem_map]
    rfl
  constructor
  · intro hreads
    have hpositive : ∀ target ∈ shippedParser.extractTakeProfit rangeOrder takeProfitConfig
        (listedText symbol (prices.map TargetPrice.numeral)) symbol, 1 ≤ target.level := by
      intro target htarget
      rw [hreads] at htarget
      obtain ⟨⟨price, i⟩, hprice, rfl⟩ := List.mem_map.mp htarget
      have hindex := (List.mem_zipIdx hprice).1
      show (1 : ℤ) ≤ i
      omega
    have hcount := length_of_levels hrange hmap hpositive
    have hsame := hreads.symm.trans (extractTakeProfit_numbered hrange hcount hmap)
    have hprices : prices.map TargetPrice.price =
        shippedParser.pricesOf symbol (cutWholes (prices.map TargetPrice.numeral)) := by
      have hread := congrArg (List.map TakeProfitLevel.price) hsame
      rw [List.map_map, List.map_map] at hread
      have hleft : prices.map TargetPrice.price =
          (prices.zipIdx 1).map (TargetPrice.price ∘ Prod.fst) := by
        rw [← List.map_map, List.zipIdx_map_fst]
      rw [hleft]
      exact hread.trans (List.zipIdx_map_fst _ _)
    have hlength := congrArg List.length hprices
    have hfew : (shippedParser.pricesOf symbol (cutWholes (prices.map TargetPrice.numeral))).length ≤
        (cutWholes (prices.map TargetPrice.numeral)).length := List.length_filterMap_le _ _
    obtain ⟨hcutLength, hcut⟩ := length_cutWholes (prices.map TargetPrice.numeral)
    rw [List.length_map] at hlength hcutLength hcut
    have hcut := hcut (by omega)
    have hnone := hpoints.mp (points_iff.mpr hcut)
    refine ⟨hnone, ?_, hlength ▸ hcount⟩
    intro last hlast
    obtain ⟨front, rfl⟩ := List.getLast?_eq_some_iff.mp hlast
    rw [List.dropLast_concat] at hnone
    have hfront : ∀ price ∈ front, parseFloat price.whole = some price.price := by
      intro price hprice
      rw [parseFloat_whole_iff hrule, hnone price hprice]
      exact List.forall_mem_nil _
    rw [hcut, hwholes, List.map_append, List.map_append, Parser.pricesOf, List.filterMap_append,
      ← Parser.pricesOf, pricesOf_of_reads hfront, List.append_cancel_left_eq, eq_comm] at hprices
    apply (parseFloat_whole_iff hrule last).mp
    have hread : last.price ∈ [last.price] := List.mem_singleton_self _
    rw [← List.map_singleton (f := TargetPrice.price), ← hprices] at hread
    obtain ⟨token, htoken, hprice⟩ := List.mem_filterMap.mp hread
    rw [List.mem_singleton.mp htoken] at hprice
    exact (Option.filter_eq_some_iff.mp hprice).1
  · intro hcuts
    have hcut := points_iff.mp (hpoints.mpr hcuts.points)
    have hreads : ∀ price ∈ prices, parseFloat price.whole = some price.price := by
      intro price hprice
      rw [parseFloat_whole_iff hrule]
      by_cases hlast : price ∈ prices.getLast?
      · exact hcuts.zeros price hlast
      · have hfront : price ∈ prices.dropLast := by
          obtain ⟨front, last, rfl⟩ : ∃ front last, prices = front ++ [last] :=
            (List.eq_nil_or_concat' prices).resolve_left (List.ne_nil_of_mem hprice)
          rw [List.getLast?_concat] at hlast
          rw [List.dropLast_concat]
          rcases List.mem_append.mp hprice with hfront | hsingle
          · exact hfront
          · exact absurd (congrArg some (List.mem_singleton.mp hsingle).symm) hlast
        rw [hcuts.points price hfront]
        exact List.forall_mem_nil _
    rw [hcut, hwholes, pricesOf_of_reads hreads] at hmap
    have hcount : (prices.map TargetPrice.price).length < 2 ^ 31 := by
      rw [List.length_map]
      exact hcuts.count
    rw [ReadsList, extractTakeProfit_numbered hrange hcount hmap, List.zipIdx_map, List.map_map]
    rfl

end ReadBack

/-- `50000`. -/
def bitcoinPrice : TargetPrice "BTCUSD" where
  whole := "50000".toList
  frac := none
  digits := by decide
  price := .fin 50000
  reads := by decide +kernel
  allowed := by decide +kernel

def bitcoinPrice' : TargetPrice "BTCUSD" where
  whole := "51000".toList
  frac := some "0".toList
  digits := by decide
  price := .fin 51000
  reads := by decide +kernel
  allowed := by decide +kernel

theorem reads_list_iff_bitcoinPrice : ReadsList id "BTCUSD" [bitcoinPrice, bitcoinPrice'] ∧
    CutsNothing [bitcoinPrice, bitcoinPrice'] :=
  have hrule : shippedRules.lookup "BTCUSD" = some (rule [0, 1, 2] 10000 200000 ",") := by rfl
  have hcuts : CutsNothing [bitcoinPrice, bitcoinPrice'] :=
    ⟨List.forall_mem_singleton.mpr rfl, by decide, by decide⟩
  ⟨(reads_list_iff (fun _ => List.Perm.refl _) hrule [bitcoinPrice, bitcoinPrice']).mpr hcuts, hcuts⟩

/-- Of two prices with decimals nothing is left. -/
theorem list_cut_at_point : listedText "EURUSD" ([euroTarget.price, euroTarget.price].map
      TargetPrice.numeral) = "EURUSD TP: 1.0905 / 1.0905".toList ∧
    shippedParser.extractTakeProfit id takeProfitConfig "EURUSD TP: 1.0905 / 1.0905".toList
      "EURUSD" = [] ∧
    ¬ ReadsList id "EURUSD" [euroTarget.price, euroTarget.price] := by
  have htext : listedText "EURUSD" ([euroTarget.price, euroTarget.price].map
      TargetPrice.numeral) = "EURUSD TP: 1.0905 / 1.0905".toList := by decide
  have hnone : shippedParser.extractTakeProfit id takeProfitConfig
      "EURUSD TP: 1.0905 / 1.0905".toList "EURUSD" = [] := by decide +kernel
  refine ⟨htext, hnone, fun hreads => ?_⟩
  rw [ReadsList, htext, hnone] at hreads
  cases hreads

/-! ### What follows a list -/

section Stop

variable {symbol : String} {rule : SymbolRule}

private theorem price_of_takes (hrule : shippedRules.lookup symbol = some rule) {digits : List Char}
    (hdigits : ∀ c ∈ digits, Re.isDigit c = true) {x : F64}
    (h : shippedParser.Takes symbol digits x) : x = .fin (digitsValue 10 digits : ℚ) := by
  have htext : numeralText digits none = digits := List.append_nil digits
  have hplain : ∀ c ∈ digits ++ none.getD [], Re.isDigit c = true := by
    rwa [Option.getD_none, List.append_nil]
  have hprice : x = .fin (literalValue digits []) :=
    (TargetPrice.price_eq hrule ⟨digits, none, hplain, x, htext.symm ▸ h.1, h.2⟩).1
  rw [hprice, literalValue, List.append_nil, List.length_nil, pow_zero, div_one]

/-- The whole part of a stop loss is a price of the list only for a symbol whose prices may have no
decimals. -/
theorem pricesOf_whole (hrule : shippedRules.lookup symbol = some rule) (q : TargetPrice symbol) :
    shippedParser.pricesOf symbol [q.whole] =
      if 0 ∈ rule.decimalPlaces then [.fin (digitsValue 10 q.whole : ℚ)] else [] := by
  have hdigits : ∀ c ∈ q.whole, Re.isDigit c = true := fun c hc =>
    q.digits c (List.mem_append_left _ hc)
  rw [Parser.pricesOf, List.filterMap_cons, List.filterMap_nil]
  split_ifs with hdecimals
  · obtain ⟨-, x, htakes⟩ := takes_whole hrule hdecimals q
    rw [htakes.1, Option.filter_some, if_pos htakes.2, price_of_takes hrule hdigits htakes]
  · have hnone : (parseFloat q.whole).filter (fun price => shippedParser.validatePrice price symbol) =
        none := by
      by_cases hne : q.whole = []
      · rw [hne]
        rfl
      · apply Option.filter_eq_none_iff.mpr
        intro x hparse hvalid
        exact not_takes_digits hrule hdecimals hne hdigits x ⟨hparse, hvalid⟩
    rw [hnone]

private theorem mem_stop (q : PlainNumeral) : ∀ c ∈ " SL: ".toList ++ q.text, c ∈ listChars := by
  intro c hc
  rcases List.mem_append.mp hc with hc | hc
  · exact (show ∀ c ∈ " SL: ".toList, c ∈ listChars by decide) c hc
  · exact mem_listChars (q.mem_text c hc)

private theorem pricesOf_stop (q : PlainNumeral) :
    shippedParser.pricesOf symbol (Re.parts isDelimiter (" SL: ".toList ++ q.whole)) =
      shippedParser.pricesOf symbol [q.whole] := by
  have hspace : ∀ c ∈ [' '], isDelimiter c = true := by decide
  have hword : ∀ w ∈ ["SL:".toList, q.whole], ∀ c ∈ w, isDelimiter c = false := by
    refine List.forall_mem_cons.mpr ⟨by decide, List.forall_mem_singleton.mpr fun c hc => ?_⟩
    exact (show ∀ c ∈ "0123456789".toList, isDelimiter c = false by decide) c (q.mem_whole c hc)
  have hkeyword : parseFloat "SL:".toList = none := by decide
  have htext : " SL: ".toList ++ q.whole = [' '] ++ [' '].intercalate ["SL:".toList, q.whole] := by
    rw [List.intercalate_cons_cons, List.intercalate_singleton]
    rfl
  have hparts : Re.parts isDelimiter ([' '].intercalate ["SL:".toList, q.whole]) =
      ["SL:".toList, q.whole].filter (· ≠ []) :=
    Re.parts_intercalate (show isDelimiter ' ' = true from rfl) (List.forall_mem_nil _) hword
  rw [htext, Re.parts_append_left hspace, hparts, pricesOf_filter, Parser.pricesOf,
    List.filterMap_cons, hkeyword]
  rfl

/-- The prices of a list and, after a list without a point, of the stop loss. -/
theorem levelMap_stoppedText (hrule : shippedRules.lookup symbol = some rule)
    (numerals : List PlainNumeral) (q : TargetPrice symbol) :
    shippedParser.levelMap takeProfitConfig (stoppedText symbol numerals q.numeral) symbol =
      numbered (shippedParser.pricesOf symbol (cutWholes numerals) ++
        if (∀ n ∈ numerals, n.frac = none) then shippedParser.pricesOf symbol [q.whole] else []) := by
  have hstop := mem_stop q.numeral
  split_ifs with hwhole
  · obtain ⟨after, htext, hafter⟩ : ∃ after, q.numeral.text = q.whole ++ after ∧
        ∀ c ∈ after.head?, inSection c = false := by
      cases hfrac : q.frac with
      | none =>
          refine ⟨[], ?_, fun c hc => by cases hc⟩
          rw [PlainNumeral.text, show q.numeral.frac = none from hfrac]
          rfl
      | some digits =>
          refine ⟨'.' :: digits, ?_, fun c hc => Option.some.inj hc ▸ rfl⟩
          rw [PlainNumeral.text, show q.numeral.frac = some digits from hfrac]
          rfl
    have htaken : ∀ c ∈ " SL: ".toList ++ q.whole, c ∈ listChars ∧ inSection c = true := by
      intro c hc
      rcases List.mem_append.mp hc with hc | hc
      · exact (show ∀ c ∈ " SL: ".toList, c ∈ listChars ∧ inSection c = true by decide) c hc
      · exact (show ∀ c ∈ "0123456789".toList, c ∈ listChars ∧ inSection c = true by decide) c
          (q.numeral.mem_whole c hc)
    rw [htext, ← List.append_assoc] at hstop
    rw [stoppedText, htext, List.append_assoc, ← List.append_assoc " SL: ".toList,
      levelMap_listed_of_whole hrule hwhole htaken (fun c hc => (Option.some.inj hc).symm) hafter
        (fun c hc => hstop c (List.mem_append_right _ hc)),
      show Re.parts isDelimiter (" SL: ".toList ++ q.whole) = Re.parts isDelimiter
        (" SL: ".toList ++ q.numeral.whole) from rfl, pricesOf_stop, (cutWholes_of_whole hwhole).1]
    rfl
  · rw [not_forall₂] at hwhole
    obtain ⟨n, hn, hfrac⟩ := hwhole
    rw [stoppedText, List.append_assoc, levelMap_listed_of_point hrule ⟨n, hn, hfrac⟩ hstop,
      List.append_nil]

theorem perm_prices {rangeOrder : Parser.LevelMap → Parser.LevelMap}
    (hrange : ∀ levels, (rangeOrder levels).Perm levels) {text : List Char} {prices : List F64}
    (h : shippedParser.levelMap takeProfitConfig text symbol = numbered prices) :
    ((shippedParser.extractTakeProfit rangeOrder takeProfitConfig text symbol).map
      TakeProfitLevel.price).Perm prices := by
  have hperm := @Parser.perm_extractTakeProfit shippedParser symbol _ takeProfitConfig text hrange
  have hprices : ((numbered prices).map Prod.snd).map TakeProfitLevel.price = prices := by
    rw [numbered, List.map_map, List.map_map]
    exact List.zipIdx_map_fst 1 prices
  rw [h] at hperm
  exact hprices ▸ hperm.map TakeProfitLevel.price

/-- The stop loss does not reach the list: a point ends the section, or the symbol has no prices without
decimals, or the two stop losses have one whole part. -/
def StopIgnored (rule : SymbolRule) (numerals : List PlainNumeral) (q q' : TargetPrice symbol) :
    Prop :=
  (∃ n ∈ numerals, n.frac ≠ none) ∨ 0 ∉ rule.decimalPlaces ∨
    digitsValue 10 q.whole = digitsValue 10 q'.whole

private theorem levelMap_stopped_eq (hrule : shippedRules.lookup symbol = some rule)
    {numerals : List PlainNumeral} {q q' : TargetPrice symbol} (h : StopIgnored rule numerals q q') :
    shippedParser.levelMap takeProfitConfig (stoppedText symbol numerals q.numeral) symbol =
      shippedParser.levelMap takeProfitConfig (stoppedText symbol numerals q'.numeral) symbol := by
  rw [levelMap_stoppedText hrule, levelMap_stoppedText hrule]
  rcases h with ⟨n, hn, hfrac⟩ | h | h
  · rw [if_neg fun hwhole => hfrac (hwhole n hn), if_neg fun hwhole => hfrac (hwhole n hn)]
  · rw [pricesOf_whole hrule, pricesOf_whole hrule, if_neg h, if_neg h]
  · rw [pricesOf_whole hrule, pricesOf_whole hrule, h]

/-- Two stop losses give the same targets exactly when they do not reach the list. -/
theorem same_targets_iff {rangeOrder rangeOrder' : Parser.LevelMap → Parser.LevelMap}
    (hrange : ∀ levels, (rangeOrder levels).Perm levels)
    (hrange' : ∀ levels, (rangeOrder' levels).Perm levels)
    (hrule : shippedRules.lookup symbol = some rule) (numerals : List PlainNumeral)
    (q q' : TargetPrice symbol) :
    ((shippedParser.extractTakeProfit rangeOrder takeProfitConfig
        (stoppedText symbol numerals q.numeral) symbol).Perm
      (shippedParser.extractTakeProfit rangeOrder' takeProfitConfig
        (stoppedText symbol numerals q'.numeral) symbol) ↔ StopIgnored rule numerals q q') ∧
    (numerals.length + 1 < 2 ^ 31 →
      (shippedParser.extractTakeProfit rangeOrder takeProfitConfig
          (stoppedText symbol numerals q.numeral) symbol =
        shippedParser.extractTakeProfit rangeOrder' takeProfitConfig
          (stoppedText symbol numerals q'.numeral) symbol ↔ StopIgnored rule numerals q q')) := by
  have hmap := levelMap_stoppedText hrule numerals q
  have hmap' := levelMap_stoppedText hrule numerals q'
  have hignored : (shippedParser.extractTakeProfit rangeOrder takeProfitConfig
      (stoppedText symbol numerals q.numeral) symbol).Perm
        (shippedParser.extractTakeProfit rangeOrder' takeProfitConfig
          (stoppedText symbol numerals q'.numeral) symbol) → StopIgnored rule numerals q q' := by
    intro hperm
    by_contra hreached
    rw [StopIgnored, not_or, not_or, not_exists, not_not] at hreached
    obtain ⟨hpoints, hdecimals, hdiffer⟩ := hreached
    have hwhole : ∀ n ∈ numerals, n.frac = none := fun n hn =>
      not_not.mp fun hfrac => hpoints n ⟨hn, hfrac⟩
    rw [if_pos hwhole, pricesOf_whole hrule, if_pos hdecimals] at hmap hmap'
    have hprices := (perm_prices hrange hmap).symm.trans
      ((hperm.map TakeProfitLevel.price).trans (perm_prices hrange' hmap'))
    have hsame := List.perm_singleton.mp ((List.perm_append_left_iff _).mp hprices)
    exact hdiffer (Nat.cast_inj.mp (F64.fin.inj (List.cons.inj hsame).1))
  have hsame : ∀ h : StopIgnored rule numerals q q', _ := levelMap_stopped_eq hrule
  refine ⟨⟨hignored, fun h => ?_⟩, fun hcount => ⟨fun heq => hignored (heq ▸ List.Perm.refl _), ?_⟩⟩
  · have hperm := @Parser.perm_extractTakeProfit shippedParser symbol _ takeProfitConfig
      (stoppedText symbol numerals q'.numeral) hrange'
    rw [← hsame h] at hperm
    exact (Parser.perm_extractTakeProfit hrange).trans hperm.symm
  · intro h
    have hlength : (shippedParser.pricesOf symbol (cutWholes numerals) ++
        if (∀ n ∈ numerals, n.frac = none) then shippedParser.pricesOf symbol [q.whole]
          else []).length < 2 ^ 31 := by
      have hcut : (shippedParser.pricesOf symbol (cutWholes numerals)).length ≤ numerals.length :=
        (List.length_filterMap_le _ _).trans (length_cutWholes numerals).1
      have hstop : (if (∀ n ∈ numerals, n.frac = none) then shippedParser.pricesOf symbol [q.whole]
          else []).length ≤ 1 := by
        split_ifs
        · exact List.length_filterMap_le _ _
        · exact Nat.zero_le 1
      rw [List.length_append]
      omega
    rw [extractTakeProfit_numbered hrange hlength hmap,
      extractTakeProfit_numbered hrange' hlength ((hsame h).symm.trans hmap)]

end Stop

/-- `49000` and `48000`. -/
def bitcoinStop : TargetPrice "BTCUSD" where
  whole := "49000".toList
  frac := none
  digits := by decide
  price := .fin 49000
  reads := by decide +kernel
  allowed := by decide +kernel

def bitcoinStop' : TargetPrice "BTCUSD" where
  whole := "48000".toList
  frac := none
  digits := by decide
  price := .fin 48000
  reads := by decide +kernel
  allowed := by decide +kernel

/-- A point before the stop losses ends the section, and neither is read as a target. -/
theorem same_targets_iff_bitcoinStop :
    let numerals := [bitcoinPrice.numeral, bitcoinPrice'.numeral]
    stoppedText "BTCUSD" numerals bitcoinStop.numeral =
        "BTCUSD TP: 50000 / 51000.0 SL: 49000".toList ∧
      stoppedText "BTCUSD" numerals bitcoinStop'.numeral =
        "BTCUSD TP: 50000 / 51000.0 SL: 48000".toList ∧
      shippedParser.extractTakeProfit id takeProfitConfig
          (stoppedText "BTCUSD" numerals bitcoinStop.numeral) "BTCUSD" =
        shippedParser.extractTakeProfit id takeProfitConfig
          (stoppedText "BTCUSD" numerals bitcoinStop'.numeral) "BTCUSD" := by
  intro numerals
  have hrule : shippedRules.lookup "BTCUSD" = some (rule [0, 1, 2] 10000 200000 ",") := by rfl
  have hpoint : StopIgnored (rule [0, 1, 2] 10000 200000 ",") numerals bitcoinStop bitcoinStop' :=
    Or.inl ⟨bitcoinPrice'.numeral, by simp [numerals], by decide⟩
  have hsame := same_targets_iff (fun _ => List.Perm.refl _) (fun _ => List.Perm.refl _) hrule
    numerals bitcoinStop bitcoinStop'
  exact ⟨by decide, by decide, (hsame.2 (by decide)).mpr hpoint⟩

/-- The stop loss becomes the second target. -/
theorem stop_read_as_target : stoppedText "BTCUSD" [bitcoinPrice.numeral] bitcoinStop.numeral =
      "BTCUSD TP: 50000 SL: 49000".toList ∧
    shippedParser.extractTakeProfit id takeProfitConfig
        (stoppedText "BTCUSD" [bitcoinPrice.numeral] bitcoinStop.numeral) "BTCUSD" =
      [⟨1, .fin 50000⟩, ⟨2, .fin 49000⟩] ∧
    shippedParser.extractTakeProfit id takeProfitConfig
        (stoppedText "BTCUSD" [bitcoinPrice.numeral] bitcoinStop'.numeral) "BTCUSD" =
      [⟨1, .fin 50000⟩, ⟨2, .fin 48000⟩] := by
  refine ⟨by decide, by decide +kernel, by decide +kernel⟩

end SphereFx.Extractor
