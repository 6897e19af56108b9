import Mathlib.Tactic.IntervalCases
import SphereFx.Extractor.Engine

/-!
# Canonical signals are not read back

The action pattern looks for a synonym of "buy" and reports the word after it: `ENTRY` for a canonical
BUY and nothing for a canonical SELL. The validator then refuses every canonical signal.
-/

namespace SphereFx.Extractor

open Text

attribute [local instance] decidableBAllChar

/-! ### Canonical texts -/

def literalValue (whole frac : List Char) : ℚ :=
  (digitsValue 10 (whole ++ frac) : ℚ) / 10 ^ frac.length

/-- A price in the range of a symbol, with an allowed number of decimals and no trailing zero. -/
structure PriceLiteral (rule : SymbolRule) where
  whole : List Char
  frac : List Char
  whole_ne : whole ≠ []
  digits : ∀ c ∈ whole ++ frac, Re.isDigit c = true
  places : frac.length ∈ rule.decimalPlaces
  trimmed : frac.getLast? ≠ some '0'
  inRange : rule.minValue ≤ literalValue whole frac ∧ literalValue whole frac ≤ rule.maxValue

namespace PriceLiteral

variable {rule : SymbolRule}

def value (price : PriceLiteral rule) : ℚ := literalValue price.whole price.frac

def text (price : PriceLiteral rule) : List Char :=
  price.whole ++ (if price.frac = [] then [] else '.' :: price.frac)

end PriceLiteral

/-- `s a ENTRY e SL l TP1 t1 ... TPn tn`. -/
structure CanonicalSignal where
  symbol : String
  rule : SymbolRule
  known : shippedRules.lookup symbol = some rule
  action : String
  action_mem : action = "BUY" ∨ action = "SELL"
  entry : PriceLiteral rule
  stop : PriceLiteral rule
  targets : List (PriceLiteral rule)

namespace CanonicalSignal

variable (signal : CanonicalSignal)

/-- The words after the action. -/
def priceWords : List (List Char) :=
  ["SL".toList, signal.stop.text] ++ (signal.targets.zipIdx 1).flatMap fun target =>
    ["TP".toList ++ (toString target.2).toList, target.1.text]

def words : List (List Char) :=
  signal.symbol.toList :: signal.action.toList :: "ENTRY".toList :: signal.entry.text ::
    signal.priceWords

def text : String := String.ofList (unwords signal.words)

/-- The engine reads the signal back. -/
def ReadBack (rangeOrder : Parser.LevelMap → Parser.LevelMap) : Prop :=
  ∃ parsed, process rangeOrder signal.text = .ok parsed ∧ parsed.symbol = signal.symbol ∧
    parsed.action = signal.action ∧ parsed.entryPrice = .fin signal.entry.value ∧
    parsed.stopLoss = .fin signal.stop.value ∧
    parsed.takeProfit = (signal.targets.zipIdx 1).map fun target =>
      ⟨target.2, .fin target.1.value⟩

end CanonicalSignal

/-! ### Their characters -/

/-- A word in some characters. -/
def WordOver (chars : List Char) (w : List Char) : Prop := w ≠ [] ∧ ∀ c ∈ w, c ∈ chars

instance (chars w : List Char) : Decidable (WordOver chars w) :=
  inferInstanceAs (Decidable (_ ∧ _))

theorem WordOver.mono {chars chars' w : List Char} (h : WordOver chars w)
    (hsub : ∀ c ∈ chars, c ∈ chars') : WordOver chars' w :=
  ⟨h.1, fun c hc => hsub c (h.2 c hc)⟩

/-- The characters of the prices and their keywords. -/
def priceChars : List Char := ".0123456789LPST".toList

/-- The characters of all words. -/
def plainChars : List Char := "ABCDEFGHIJKLMNOPQRSTUVWXYZ0123456789.".toList

theorem priceChars_subset : ∀ c ∈ priceChars, c ∈ plainChars := by decide

theorem isDigit_mem {c : Char} (h : Re.isDigit c = true) : c ∈ "0123456789".toList := by
  rw [Re.isDigit, Bool.and_eq_true, decide_eq_true_eq, decide_eq_true_eq] at h
  have hlow : 48 ≤ c.toNat := h.1
  have hhigh : c.toNat ≤ 57 := h.2
  have hc : c = Char.ofNat c.toNat := (Char.ofNat_toNat c).symm
  rw [hc]
  generalize c.toNat = n at hlow hhigh
  interval_cases n <;> decide

theorem digits_subset : ∀ c ∈ "0123456789".toList, c ∈ priceChars := by decide

theorem wordOver_literal {rule : SymbolRule} (price : PriceLiteral rule) :
    WordOver priceChars price.text := by
  constructor
  · exact List.append_ne_nil_of_left_ne_nil price.whole_ne _
  · intro c hc
    have hdigit : c ∈ price.whole ++ price.frac → c ∈ priceChars := fun h =>
      digits_subset c (isDigit_mem (price.digits c h))
    rcases List.mem_append.mp hc with hwhole | hrest
    · exact hdigit (List.mem_append_left _ hwhole)
    · split at hrest
      · cases hrest
      · rcases List.mem_cons.mp hrest with rfl | hfrac
        · decide
        · exact hdigit (List.mem_append_right _ hfrac)

theorem toString_digits {n : Nat} {c : Char} (h : c ∈ (toString n).toList) :
    c ∈ "0123456789".toList := by
  have hdigits : (toString n).toList = Nat.toDigits 10 n := Nat.toList_repr
  rw [hdigits] at h
  have hc : c.isDigit = true := Nat.isDigit_of_mem_toDigits (by decide) (by decide) h
  apply isDigit_mem
  rw [Char.isDigit, Bool.and_eq_true, decide_eq_true_eq, decide_eq_true_eq] at hc
  rw [Re.isDigit, Bool.and_eq_true, decide_eq_true_eq, decide_eq_true_eq]
  exact hc

private theorem wordOver_targetName (i : Nat) :
    WordOver priceChars ("TP".toList ++ (toString i).toList) := by
  constructor
  · exact List.append_ne_nil_of_left_ne_nil (by decide) _
  · intro c hc
    rcases List.mem_append.mp hc with hname | hindex
    · have hnames : ∀ c ∈ "TP".toList, c ∈ priceChars := by decide
      exact hnames c hname
    · exact digits_subset c (toString_digits hindex)

/-- A capital letter or a digit, by its code. -/
def isSymbolChar (c : Char) : Bool :=
  48 ≤ c.toNat && (c.toNat ≤ 57 || (65 ≤ c.toNat && c.toNat ≤ 90))

theorem mem_symbolChars {c : Char} (h : isSymbolChar c = true) :
    c ∈ "ABCDEFGHIJKLMNOPQRSTUVWXYZ0123456789".toList := by
  simp only [isSymbolChar, Bool.and_eq_true, Bool.or_eq_true, decide_eq_true_eq] at h
  have hc : c = Char.ofNat c.toNat := (Char.ofNat_toNat c).symm
  rw [hc]
  generalize c.toNat = n at h
  have hlow : 48 ≤ n := h.1
  have hhigh : n ≤ 90 := by omega
  interval_cases n <;> first | decide | (exfalso; omega)

theorem symbol_chars : ∀ entry ∈ shippedRules,
    entry.1.toList ≠ [] ∧ ∀ c ∈ entry.1.toList, isSymbolChar c = true := by
  decide +kernel

theorem wordOver_symbol (entry : String × SymbolRule) (h : entry ∈ shippedRules) :
    WordOver plainChars entry.1.toList := by
  obtain ⟨hne, hchars⟩ := symbol_chars entry h
  have hsub : ∀ c ∈ "ABCDEFGHIJKLMNOPQRSTUVWXYZ0123456789".toList, c ∈ plainChars := by decide
  exact ⟨hne, fun c hc => hsub c (mem_symbolChars (hchars c hc))⟩

theorem isWord_symbol {entry : String × SymbolRule} (h : entry ∈ shippedRules) :
    ∀ c ∈ entry.1.toList, Re.isWord c = true := by
  have hword : ∀ c ∈ "ABCDEFGHIJKLMNOPQRSTUVWXYZ0123456789".toList, Re.isWord c = true := by decide
  exact fun c hc => hword c (mem_symbolChars ((symbol_chars entry h).2 c hc))

theorem CanonicalSignal.mem_rules (signal : CanonicalSignal) :
    (signal.symbol, signal.rule) ∈ shippedRules :=
  mem_of_lookup signal.known

theorem CanonicalSignal.wordOver_priceWords (signal : CanonicalSignal) :
    ∀ w ∈ signal.priceWords, WordOver priceChars w := by
  intro w hw
  rcases List.mem_append.mp hw with hstop | htargets
  · rcases List.mem_cons.mp hstop with rfl | hstop
    · decide
    · rw [List.mem_singleton.mp hstop]
      exact wordOver_literal signal.stop
  · obtain ⟨target, -, htarget⟩ := List.mem_flatMap.mp htargets
    rcases List.mem_cons.mp htarget with rfl | htarget
    · exact wordOver_targetName target.2
    · rw [List.mem_singleton.mp htarget]
      exact wordOver_literal target.1

theorem CanonicalSignal.wordOver_words (signal : CanonicalSignal) :
    ∀ w ∈ signal.words, WordOver plainChars w := by
  refine List.forall_mem_cons.mpr ⟨wordOver_symbol _ signal.mem_rules, ?_⟩
  refine List.forall_mem_cons.mpr ⟨?_, ?_⟩
  · rcases signal.action_mem with h | h <;>
    · rw [h]
      decide
  · refine List.forall_mem_cons.mpr ⟨by decide, ?_⟩
    refine List.forall_mem_cons.mpr ⟨(wordOver_literal signal.entry).mono priceChars_subset, ?_⟩
    intro w hw
    exact (signal.wordOver_priceWords w hw).mono priceChars_subset

private theorem clean_unwords {words : List (List Char)} (hplain : ∀ w ∈ words, WordOver plainChars w) :
    clean (unwords words) = unwords words := by
  have hne : ∀ w ∈ words, w ≠ [] := fun w hw => (hplain w hw).1
  have hspace : ∀ c ∈ plainChars, Re.isSpace c = false := by decide
  have hwhite : ∀ c ∈ plainChars, isWhite c = false := by decide
  have hordinary : ∀ c ∈ plainChars, isOrdinary c = true := by decide
  apply clean_eq_self
  · intro c hc
    rcases mem_unwords hc with rfl | ⟨w, hw, hcw⟩
    · decide
    · exact hordinary c ((hplain w hw).2 c hcw)
  · exact singleSpaced_unwords hne fun w hw c hcw => hspace c ((hplain w hw).2 c hcw)
  · intro c hc
    obtain ⟨w, hw, hcw⟩ := head_unwords hne c hc
    exact hwhite c ((hplain w hw).2 c hcw)
  · intro c hc
    obtain ⟨w, hw, hcw⟩ := last_unwords hne c hc
    exact hwhite c ((hplain w hw).2 c hcw)

/-! ### The action -/

/-- The splits of a word and a space after it, by the place of the split. -/
theorem forall_splits {w : List Char} {P : List Char → List Char → Prop}
    (h : ∀ i ∈ List.range (w.length + 1), (w ++ [' ']).drop i ≠ [] →
      P (w.take i) ((w ++ [' ']).drop i)) :
    ∀ a b, w ++ [' '] = a ++ b → b ≠ [] → P a b := by
  intro a b hsplit hne
  have hlength : a.length ≤ w.length := by
    have htotal := congrArg List.length hsplit
    have hb := List.length_pos_iff.mpr hne
    simp only [List.length_append, List.length_singleton] at htotal
    omega
  have ha : w.take a.length = a := by
    rw [← List.take_append_of_le_length hlength, hsplit, List.take_left]
  have hb : (w ++ [' ']).drop a.length = b := by
    rw [hsplit, List.drop_left]
  have hplace := h a.length (List.mem_range.mpr (Nat.lt_succ_of_le hlength))
  rw [ha, hb] at hplace
  exact hplace hne

private theorem eq_ends_of_boundary {w : List Char} (hword : ∀ c ∈ w, Re.isWord c = true) {i : Nat}
    (hi : i ≤ w.length)
    (h : Re.atBoundary (Re.lastOr none (w.take i)) ((w ++ [' ']).drop i).head? = true) :
    i = 0 ∨ i = w.length := by
  by_contra hinner
  obtain ⟨hfirst, hlast⟩ := not_or.mp hinner
  have hbefore : i - 1 < w.length := by omega
  have hafter : i < w.length := by omega
  have hlastOr : Re.lastOr none (w.take i) = some w[i - 1] := by
    rw [Re.lastOr, List.getLast?_take, if_neg hfirst, List.getElem?_eq_getElem hbefore]
    rfl
  have hhead : ((w ++ [' ']).drop i).head? = some w[i] := by
    rw [List.head?_drop, List.getElem?_append_left hafter, List.getElem?_eq_getElem hafter]
  rw [hlastOr, hhead, Re.atBoundary, Option.any_some, Option.any_some,
    hword _ (List.getElem_mem hbefore), hword _ (List.getElem_mem hafter)] at h
  cases h

/-- Where no keyword starts at a word or at the space after it, the pattern has no match there. -/
theorem run_keyword_in_word {cfg : PatternConfig} {value : Re} {w : List Char}
    (hword : ∀ c ∈ w, Re.isWord c = true)
    (hstart : ∀ term ∈ cfg.terms, Re.clash sameFold term.toList (w ++ [' ']) = true)
    (hspace : ∀ term ∈ cfg.terms, Re.clash sameFold term.toList [' '] = true) (back : List Char) :
    ∀ a b, w ++ [' '] = a ++ b → b ≠ [] →
      (keywordPattern cfg value).run (Re.lastOr none a) (b ++ back) = [] := by
  apply forall_splits
  intro i hi hne
  apply run_keywordPattern_eq_nil
  intro hboundary term hterm
  rw [List.head?_append_of_ne_nil _ hne] at hboundary
  apply Re.startsWith_of_clash
  rcases eq_ends_of_boundary hword (Nat.le_of_lt_succ (List.mem_range.mp hi)) hboundary with rfl | rfl
  · exact hstart term hterm
  · rw [List.drop_left]
    exact hspace term hterm

private theorem no_action_at_symbol : ∀ entry ∈ shippedRules, ∀ term ∈ actionConfig.terms,
    Re.clash sameFold term.toList (entry.1.toList ++ [' ']) = true := by
  decide +kernel

/-- The word pattern of the action. -/
abbrev actionPattern : Re := keywordPattern actionConfig (Re.many1 fun c => !Re.isSpace c)

theorem run_action_in_symbol (signal : CanonicalSignal) (back : List Char) :
    ∀ a b, signal.symbol.toList ++ [' '] = a ++ b → b ≠ [] →
      actionPattern.run (Re.lastOr none a) (b ++ back) = [] := by
  have hspace : ∀ term ∈ actionConfig.terms, Re.clash sameFold term.toList [' '] = true := by
    decide
  exact run_keyword_in_word (isWord_symbol signal.mem_rules)
    (no_action_at_symbol _ signal.mem_rules) hspace back

/-- The characters after the symbol of a canonical SELL. -/
def sellChars : List Char := " .0123456789ELNPRSTY".toList

private theorem action_letter : ∀ term ∈ actionConfig.terms,
    (term.toList.any fun c => sellChars.all fun d => !sameFold c d) = true := by
  decide

private theorem extractValue_sell (signal : CanonicalSignal) (hsell : signal.action = "SELL") :
    extractValue actionConfig (unwords signal.words) = none := by
  have hprices : ∀ c ∈ priceChars, c ∈ sellChars := by decide
  have hchars : ∀ c ∈ unwords signal.words.tail, c ∈ sellChars := by
    intro c hc
    rcases mem_unwords hc with rfl | ⟨w, hw, hcw⟩
    · decide
    rcases List.mem_cons.mp hw with rfl | hw
    · rw [hsell] at hcw
      exact (show ∀ c ∈ "SELL".toList, c ∈ sellChars by decide) c hcw
    rcases List.mem_cons.mp hw with rfl | hw
    · exact (show ∀ c ∈ "ENTRY".toList, c ∈ sellChars by decide) c hcw
    rcases List.mem_cons.mp hw with rfl | hw
    · exact hprices c ((wordOver_literal signal.entry).2 c hcw)
    · exact hprices c ((signal.wordOver_priceWords w hw).2 c hcw)
  have htext : unwords signal.words =
      (signal.symbol.toList ++ [' ']) ++ unwords signal.words.tail := by
    rw [CanonicalSignal.words, unwords_cons (List.cons_ne_nil _ _), List.append_assoc,
      List.singleton_append, List.tail_cons]
  have hback : actionPattern.search (Re.lastOr none (signal.symbol.toList ++ [' ']))
      (unwords signal.words.tail) = none := by
    apply Re.search_eq_none
    intro a b hsplit
    apply run_keywordPattern_eq_nil
    intro _ term hterm
    rw [Bool.eq_false_iff]
    intro hstarts
    obtain ⟨c, hc, hletter⟩ := List.any_eq_true.mp (action_letter term hterm)
    obtain ⟨d, hd, hsame⟩ := Re.exists_of_startsWith hstarts c hc
    have hnone := List.all_eq_true.mp hletter d (hchars d (hsplit ▸ List.mem_append_right a hd))
    rw [hsame] at hnone
    cases hnone
  rw [extractValue, htext, Re.find, Re.search_append (run_action_in_symbol signal _), hback]
  rfl

private theorem extractValue_buy (signal : CanonicalSignal) (hbuy : signal.action = "BUY") :
    extractValue actionConfig (unwords signal.words) = some "ENTRY".toList := by
  have htext : unwords signal.words = (signal.symbol.toList ++ [' ']) ++
      ("BUY".toList ++ ' ' :: ("ENTRY".toList ++
        ' ' :: unwords (signal.entry.text :: signal.priceWords))) := by
    rw [CanonicalSignal.words, hbuy, unwords_cons (List.cons_ne_nil _ _),
      unwords_cons (List.cons_ne_nil _ _), unwords_cons (List.cons_ne_nil _ _), List.append_assoc,
      List.singleton_append]
  have hbefore : Re.lastOr none (signal.symbol.toList ++ [' ']) = some ' ' := by
    rw [Re.lastOr, List.getLast?_concat, Option.some_or]
  have hletters : List.Forall₂ (fun c d => sameFold c d = true) "buy".toList "BUY".toList := by
    decide
  rw [htext]
  apply extractValue_of_word rfl (run_action_in_symbol signal _)
  · rw [hbefore]
    rfl
  · apply Re.head_run_alts
    rw [show word actionConfig.mainTerm = Re.literal sameFold "buy".toList from rfl,
      Re.run_literal hletters, List.head?_cons]
  · decide
  · decide
  · intro c hc
    obtain rfl := Option.some.inj hc
    decide
  · intro c hc
    obtain rfl := Option.some.inj hc
    rfl

/-! ### The symbol -/

private theorem extractValue_symbol (signal : CanonicalSignal) :
    extractValue symbolConfig (unwords signal.words) = some signal.symbol.toList := by
  have hplain : ∀ c ∈ plainChars, Re.isSpace c = false ∧ isWhite c = false := by decide
  obtain ⟨hne, hchars⟩ := wordOver_symbol _ signal.mem_rules
  rw [CanonicalSignal.words, unwords_cons (List.cons_ne_nil _ _)]
  apply extractValue_of_first rfl rfl hne
  · exact fun c hc => isWord_symbol signal.mem_rules c (List.mem_of_mem_head? hc)
  · exact fun c hc => hplain c (hchars c hc)
  · intro c hc
    obtain rfl := Option.some.inj hc
    rfl

private theorem symbolOf_words (signal : CanonicalSignal) :
    shippedParser.symbolOf (unwords signal.words) = normalizeSymbol signal.symbol symbolConfig := by
  have hconfig : shippedParser.patterns "symbol" = some symbolConfig := by
    rfl
  obtain ⟨c, more, hsymbol⟩ :=
    List.exists_cons_of_ne_nil (wordOver_symbol _ signal.mem_rules).1
  have hsymbol' : signal.symbol.toList = c :: more := hsymbol
  simp only [Parser.symbolOf, hconfig, extractValue_symbol, hsymbol']
  rw [← hsymbol', String.ofList_toList]

theorem normalizeSymbol_ne_empty {symbol : String} (h : symbol ≠ "") :
    normalizeSymbol symbol symbolConfig ≠ "" := by
  have himages : ∀ pair ∈ symbolConfig.symbolMapping, pair.2 ≠ "" := by decide
  unfold normalizeSymbol
  cases hlookup : symbolConfig.symbolMapping.lookup symbol with
  | none => exact h
  | some image =>
      rw [Option.getD_some]
      exact himages (symbol, image) (mem_of_lookup hlookup)

/-! ### The outcome -/

/-- What the engine answers on a canonical text. -/
theorem process_canonical (rangeOrder : Parser.LevelMap → Parser.LevelMap)
    (signal : CanonicalSignal) :
    process rangeOrder signal.text = .error ("validation: " ++
      if signal.action = "BUY" then "invalid action: ENTRY" else "action is required") := by
  have hnonempty : signal.symbol ≠ "" := by
    intro hempty
    exact (wordOver_symbol _ signal.mem_rules).1 (congrArg String.toList hempty)
  have hsymbol : (shippedParser.parse rangeOrder (unwords signal.words)).symbol ≠ "" := by
    show shippedParser.symbolOf (unwords signal.words) ≠ ""
    rw [symbolOf_words]
    exact normalizeSymbol_ne_empty hnonempty
  have hconfig : shippedParser.patterns "action" = some actionConfig := by
    rfl
  have haction : (shippedParser.parse rangeOrder (unwords signal.words)).action =
      String.ofList (toUpper ((extractValue actionConfig (unwords signal.words)).getD [])) := by
    show String.ofList (toUpper (shippedParser.textOf "action" (unwords signal.words))) = _
    rw [Parser.textOf, hconfig]
    rfl
  have hclean : clean signal.text.toList = unwords signal.words := by
    rw [CanonicalSignal.text, String.toList_ofList, clean_unwords signal.wordOver_words]
  rcases signal.action_mem with hbuy | hsell
  · rw [extractValue_buy signal hbuy] at haction
    have hentry : (shippedParser.parse rangeOrder (unwords signal.words)).action = "ENTRY" := haction
    rw [if_pos hbuy]
    apply process_of_refused
    rw [hclean, validate_of_otherAction hsymbol (by rw [hentry]; decide) (by rw [hentry]; decide),
      hentry]
    rfl
  · rw [extractValue_sell signal hsell] at haction
    have hsellBuy : signal.action ≠ "BUY" := by
      rw [hsell]
      decide
    rw [if_neg hsellBuy]
    apply process_of_refused
    rw [hclean]
    exact validate_of_noAction hsymbol haction

theorem not_readBack (rangeOrder : Parser.LevelMap → Parser.LevelMap) (signal : CanonicalSignal) :
    ¬ signal.ReadBack rangeOrder := by
  rintro ⟨parsed, hprocess, -⟩
  rw [process_canonical] at hprocess
  cases hprocess

/-- A EURUSD price of four decimals. -/
def eurusdPrice (whole frac : String) (h : whole.toList ≠ [] ∧
    (∀ c ∈ whole.toList ++ frac.toList, Re.isDigit c = true) ∧ frac.toList.length ∈ [4, 5] ∧
    frac.toList.getLast? ≠ some '0' ∧ 1 / 2 ≤ literalValue whole.toList frac.toList ∧
    literalValue whole.toList frac.toList ≤ 5 / 2) :
    PriceLiteral (rule [4, 5] (1 / 2) (5 / 2) "") where
  whole := whole.toList
  frac := frac.toList
  whole_ne := h.1
  digits := h.2.1
  places := h.2.2.1
  trimmed := h.2.2.2.1
  inRange := h.2.2.2.2

def eurusdBuy : CanonicalSignal where
  symbol := "EURUSD"
  rule := rule [4, 5] (1 / 2) (5 / 2) ""
  known := rfl
  action := "BUY"
  action_mem := Or.inl rfl
  entry := eurusdPrice "1" "0855" (by decide +kernel)
  stop := eurusdPrice "1" "0805" (by decide +kernel)
  targets := [eurusdPrice "1" "0905" (by decide +kernel)]

theorem eurusdBuy_refused :
    eurusdBuy.text = "EURUSD BUY ENTRY 1.0855 SL 1.0805 TP1 1.0905" ∧ ¬ eurusdBuy.ReadBack id := by
  refine ⟨by decide, ?_⟩
  rintro ⟨parsed, hprocess, -⟩
  rw [process_canonical] at hprocess
  cases hprocess

end SphereFx.Extractor
