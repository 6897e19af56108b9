import SphereFx.Base.Capture
import SphereFx.Extractor.Conservation
import SphereFx.Extractor.Prices

/-!
# Nothing of a signal is made up

Every field of a signal is read off a word of the cleaned text: the symbol, the action and the order
type are such words in another spelling, and a price is the value of a numeral with the digits of one
word, in their order and without any other digit. What the numeral has besides are characters of the
word and decimal points.
-/

namespace SphereFx.Extractor

open Text

attribute [local instance] decidableBAllChar

/-- A stretch of the text without white space. -/
structure IsWordOf (word text : List Char) : Prop where
  isInfix : word <:+: text
  noSpace : ∀ c ∈ word, Re.isSpace c = false

/-- A price that a word of the text spells. -/
def WrittenIn (text : List Char) (price : F64) : Prop :=
  ∃ word numeral, IsWordOf word text ∧ DigitCut word [numeral] ∧ parseFloat numeral = some price

theorem IsWordOf.mono {word part text : List Char} (h : IsWordOf word part) (hpart : part <:+: text) :
    IsWordOf word text := ⟨h.isInfix.trans hpart, h.noSpace⟩

theorem IsWordOf.part {word part text : List Char} (h : IsWordOf word text) (hpart : part <:+: word) :
    IsWordOf part text := ⟨hpart.trans h.isInfix, fun c hc => h.noSpace c (hpart.subset hc)⟩

theorem infix_trimSpace (text : List Char) : trimSpace text <:+: text := by
  obtain ⟨lead, trail, htext, -, -⟩ := exists_trimSpace text
  exact ⟨lead, trail, by rw [List.append_assoc]; exact htext.symm⟩

/-! ### The word after a keyword -/

/-- The third group of a pattern captures no white space. -/
def Spaceless (i : Nat) (captured : List Char) : Prop :=
  i = 3 → ∀ c ∈ captured, Re.isSpace c = false

theorem captures_word {P : Nat → List Char → Prop} (text : String) : (word text).Captures P :=
  Re.captures_literal sameFold text.toList

private theorem captures_terms {P : Nat → List Char → Prop} (terms : List String) :
    (Re.alts (terms.map word)).Captures P := by
  apply Re.captures_alts
  intro r hr
  obtain ⟨term, -, rfl⟩ := List.mem_map.mp hr
  exact captures_word term

private theorem captures_connectors {P : Nat → List Char → Prop} (connectors : List String) :
    (Re.alts (connectors.map connector)).Captures P := by
  apply Re.captures_alts
  intro r hr
  obtain ⟨text, -, rfl⟩ := List.mem_map.mp hr
  unfold connector
  split
  · exact trivial
  · exact captures_word text

theorem captures_keywordPattern {P : Nat → List Char → Prop} {cfg : PatternConfig} {value : Re}
    (hvalue : value.Captures P) (hkeyword : ∀ captured, P 1 captured)
    (hconnector : ∀ captured, P 2 captured)
    (htaken : ∀ before text, ∀ h ∈ value.run before text, P 3 h.taken) :
    (keywordPattern cfg value).Captures P := by
  refine ⟨trivial, ⟨captures_terms _, fun _ _ h _ => hkeyword h.taken⟩, trivial, ?_⟩
  exact ⟨⟨captures_connectors _, fun _ _ h _ => hconnector h.taken⟩, trivial, hvalue, htaken⟩

theorem extractValue_word {cfg : PatternConfig} {text val : List Char}
    (h : extractValue cfg text = some val) : IsWordOf val text := by
  obtain ⟨m, hfind, rfl⟩ := Option.map_eq_some_iff.mp h
  have hcaptures : (keywordPattern cfg (Re.many1 fun c => !Re.isSpace c)).Captures Spaceless := by
    refine captures_keywordPattern ⟨trivial, trivial⟩ (fun _ => nofun) (fun _ => nofun) ?_
    intro before place hit hhit _ c hc
    simpa using (Re.mem_run_many1 hhit).2 c hc
  obtain ⟨hstretch, hspaceless⟩ := (Re.occurs_of_find hfind).submatch hcaptures 3
  refine IsWordOf.part ⟨hstretch, fun c hc => ?_⟩ (infix_trimSpace _)
  exact hspaceless (List.ne_nil_of_mem hc) rfl c hc

/-! ### The numeral of a word -/

theorem cut_replaceChar {c : Char} {new : List Char} (hc : Re.isDigit c = false)
    (hnew : ∀ d ∈ new, Re.isDigit d = false ∧ (d == '.') = true) (text : List Char) :
    DigitCut text [replace c new text] :=
  cut_replace (fun _ h => h ▸ hc) hnew text

private theorem cut_numericText (p : Parser) (cfg : PatternConfig) (val : List Char) (symbol : String) :
    DigitCut val [p.numericText cfg val symbol] := by
  have hspaces : DigitCut val [if cfg.removeSpacesInsideNumber then replace ' ' [] val else val] := by
    split
    · exact cut_replaceChar (by decide) (by decide) val
    · exact Cut.refl val
  have hseparators : ∀ text : List Char,
      DigitCut text [if cfg.replaceCommasWithDots then replace ',' ['.'] text
        else if p.decimalSeparator symbol = "." then replace ',' [] text
        else replace ',' ['.'] (replace '.' [] text)] := by
    intro text
    split
    · exact cut_replaceChar (by decide) (by decide) text
    · split
      · exact cut_replaceChar (by decide) (by decide) text
      · exact (cut_replaceChar (c := '.') (by decide) (List.forall_mem_nil _) text).trans
          (cut_replaceChar (by decide) (by decide) _)
  exact hspaces.trans (hseparators _)

private theorem cut_cleanNumericString (p : Parser) (raw : List Char) (symbol : String) :
    DigitCut raw [p.cleanNumericString raw symbol] := by
  refine (cut_replaceChar (c := ' ') (by decide) (List.forall_mem_nil _) raw).trans ?_
  have hfilter : ∀ text : List Char,
      DigitCut text [text.filter fun c => Re.isDigit c || c == '.' || c == '-'] :=
    cut_filter fun c hc => by rw [hc]; rfl
  unfold Parser.cleanNumericString
  simp only
  refine Cut.trans ?_ (hfilter _)
  split
  · exact (cut_replaceChar (by decide) (by decide) _).trans
      (cut_replaceChar (by decide) (by decide) _)
  · exact cut_replaceChar (by decide) (by decide) _

/-! ### The tokens of a list -/

theorem listPart_word {listStr part : List Char} (h : part ∈ Parser.listParts listStr) :
    IsWordOf part listStr := by
  obtain ⟨hne, hplain⟩ := mem_listParts h
  refine ⟨?_, fun c hc => ?_⟩
  · obtain ⟨piece, hpiece, rfl⟩ := List.mem_map.mp (List.mem_of_mem_filter h)
    have hnonempty : piece ≠ [] := by
      rintro rfl
      exact hne rfl
    have hpart : piece ∈ Re.parts isDelimiter (trimSpace listStr) := by
      rw [← Re.filter_split_many1]
      exact List.mem_filter.mpr ⟨hpiece, decide_eq_true hnonempty⟩
    exact (infix_trimSpace piece).trans
      ((infix_of_mem_splitOnP (List.mem_of_mem_filter hpart)).trans (infix_trimSpace listStr))
  · have hdelimiter := hplain c hc
    simp only [isDelimiter, Bool.or_eq_false_iff] at hdelimiter
    tauto

private theorem token_word {p : Parser} {listStr token : List Char} {symbol : String}
    (h : token ∈ p.parseNumberList listStr symbol) :
    ∃ word, IsWordOf word listStr ∧ DigitCut word [token] := by
  unfold Parser.parseNumberList at h
  split at h
  · obtain ⟨part, hpart, rfl⟩ := List.mem_map.mp h
    exact ⟨part, listPart_word hpart, cut_replaceComma (by decide) part⟩
  · obtain ⟨piece, hpiece, rfl⟩ := List.mem_map.mp (List.mem_of_mem_filter h)
    obtain ⟨part, hpart, hpiece⟩ := List.mem_flatMap.mp hpiece
    have hword := listPart_word hpart
    unfold Parser.splitPart at hpiece
    split at hpiece
    · obtain ⟨sub, hsub, rfl⟩ := List.mem_map.mp (List.mem_of_mem_filter hpiece)
      have hstretch : sub <:+: part := infix_of_mem_splitOnP hsub
      exact ⟨_, hword.part ((infix_trimSpace _).trans ((infix_trimSpace sub).trans hstretch)), Cut.refl _⟩
    · rw [List.mem_singleton.mp hpiece]
      exact ⟨part, hword, (cut_replaceComma (List.forall_mem_nil _) part).trans (cut_trimSpace _)⟩

/-! ### The matches of the targets -/

private theorem infix_section {cfg : PatternConfig} {text : List Char} {m : Hit}
    (hm : m ∈ (Parser.listPattern cfg).findAll text) : m.submatch 3 <:+: text := by
  have hcaptures : (Parser.listPattern cfg).Captures fun _ _ => True :=
    captures_keywordPattern trivial (fun _ => trivial) (fun _ => trivial) fun _ _ _ _ => trivial
  exact ((Re.occurs_of_mem_findAll hm).submatch hcaptures 3).1

private theorem captures_indexedTarget : indexedTarget.Captures Spaceless := by
  have hkeyword : (Re.alts [word "tp", Re.seqs [word "take", .many Re.isSpace true, word "profit"],
      Re.seqs [word "t", .many Re.isSpace true, word "p"]]).Captures Spaceless :=
    ⟨captures_word _, ⟨captures_word _, trivial, captures_word _⟩, captures_word _, trivial,
      captures_word _⟩
  have hnumeral : ∀ c, (Re.isDigit c || c == '.' || c == ',') = true → Re.isSpace c = false := by
    intro c hc
    rcases Bool.or_eq_true _ _ ▸ hc with hc | hc
    · rcases Bool.or_eq_true _ _ ▸ hc with hc | hc
      · rw [Bool.eq_false_iff]
        intro hspace
        rw [isDigit_eq_false_of_isWhite (isWhite_of_isSpace hspace)] at hc
        cases hc
      · rw [beq_iff_eq.mp hc]
        rfl
    · rw [beq_iff_eq.mp hc]
      rfl
  refine ⟨⟨hkeyword, fun _ _ _ _ => nofun⟩, trivial, ⟨⟨trivial, trivial⟩, fun _ _ _ _ => nofun⟩,
    trivial, ⟨trivial, trivial⟩, ?_⟩
  intro before place hit hhit _ c hc
  exact hnumeral c ((Re.mem_run_many1 hhit).2 c hc)

private theorem indexed_word {text : List Char} {m : Hit} (hm : m ∈ indexedTarget.findAll text) :
    IsWordOf (m.submatch 3) text := by
  obtain ⟨hstretch, hspaceless⟩ := (Re.occurs_of_mem_findAll hm).submatch captures_indexedTarget 3
  exact ⟨hstretch, fun c hc => hspaceless (List.ne_nil_of_mem hc) rfl c hc⟩

private theorem target_written {p : Parser} {rangeOrder : Parser.LevelMap → Parser.LevelMap}
    (hrange : ∀ levels, (rangeOrder levels).Perm levels) {text : List Char} {symbol : String}
    {target : TakeProfitLevel}
    (h : target ∈ p.extractTakeProfit rangeOrder takeProfitConfig text symbol) :
    WrittenIn text target.price := by
  have hprice := (Parser.mem_extractTakeProfit hrange).mp ⟨target, h, rfl⟩
  rw [Parser.levelMap_eq, if_pos (show takeProfitConfig.noIndexList = true from rfl)] at hprice
  rcases Parser.hasPrice_addSections.mp hprice with hindexed | ⟨token, htoken, htakes⟩
  · obtain ⟨re, hre, m, hm, htakes⟩ := Parser.match_of_indexedLevels hindexed
    cases hre
    exact ⟨_, _, indexed_word hm, cut_cleanNumericString p _ symbol, htakes.1⟩
  · obtain ⟨m, hm, htoken⟩ := List.mem_flatMap.mp htoken
    obtain ⟨word, hword, hcut⟩ := token_word htoken
    exact ⟨word, token, hword.mono (infix_section hm), hcut, htakes.1⟩

/-! ### The whole signal -/

/-- Every field of the signal is read off a word of the text. -/
structure ReadOff (text : List Char) (signal : ParsedSignal) : Prop where
  symbol : ∃ word, IsWordOf word text ∧
    signal.symbol = normalizeSymbol (String.ofList word) symbolConfig
  action : ∃ word, IsWordOf word text ∧ signal.action = String.ofList (toUpper word)
  orderType : signal.orderType = "" ∨
    ∃ word, IsWordOf word text ∧ signal.orderType = String.ofList (toUpper word)
  prices : ∀ price ∈ signal.presentPrices, WrittenIn text price

theorem textOf_word {p : Parser} {component : String} {text : List Char} :
    p.textOf component text = [] ∨ IsWordOf (p.textOf component text) text := by
  unfold Parser.textOf
  cases hval : (p.patterns component).bind fun cfg => extractValue cfg text with
  | none => exact Or.inl rfl
  | some val =>
      obtain ⟨cfg, -, hextract⟩ := Option.bind_eq_some_iff.mp hval
      exact Or.inr (extractValue_word hextract)

private theorem symbolOf_word {text : List Char} (h : shippedParser.symbolOf text ≠ "") :
    ∃ word, IsWordOf word text ∧
      shippedParser.symbolOf text = normalizeSymbol (String.ofList word) symbolConfig := by
  have hpattern : shippedParser.patterns "symbol" = some symbolConfig := rfl
  unfold Parser.symbolOf at h ⊢
  rw [hpattern] at h ⊢
  simp only at h ⊢
  cases hval : extractValue symbolConfig text with
  | none =>
      rw [hval] at h
      exact absurd rfl h
  | some val =>
      rw [hval] at h
      cases val with
      | nil => exact absurd rfl h
      | cons c rest => exact ⟨_, extractValue_word hval, rfl⟩

theorem priceOf_written {p : Parser} {component symbol : String} {cfg : PatternConfig}
    {text : List Char} (hcfg : p.patterns component = some cfg)
    (hcheck : cfg.validateAgainstSymbol = true) (hne : p.priceOf component text symbol ≠ 0) :
    WrittenIn text (p.priceOf component text symbol) := by
  obtain ⟨val, hval, htakes⟩ := (Parser.priceOf_cases hcfg hcheck).resolve_left hne
  exact ⟨val, _, extractValue_word hval, cut_numericText p cfg val symbol, htakes.1⟩

private theorem parse_read_off {rangeOrder : Parser.LevelMap → Parser.LevelMap}
    (hrange : ∀ levels, (rangeOrder levels).Perm levels) {text : List Char}
    (hsymbol : shippedParser.symbolOf text ≠ "") (haction : shippedParser.textOf "action" text ≠ [])
    (hentry : shippedParser.priceOf "entry_price" text (shippedParser.symbolOf text) ≠ 0) :
    ReadOff text (shippedParser.parse rangeOrder text) where
  symbol := symbolOf_word hsymbol
  action := ⟨_, textOf_word.resolve_left haction, rfl⟩
  orderType := by
    rcases @textOf_word shippedParser "order_type" text with hnone | hword
    · exact Or.inl (congrArg (fun word => String.ofList (toUpper word)) hnone)
    · exact Or.inr ⟨_, hword, rfl⟩
  prices := by
    have hentryPattern : shippedParser.patterns "entry_price" = some entryPriceConfig := rfl
    have hstopPattern : shippedParser.patterns "stop_loss" = some stopLossConfig := rfl
    intro price hprice
    rw [ParsedSignal.presentPrices, Parser.parse_stopLoss, Parser.parse_takeProfit,
      Parser.parse_entryPrice, targetsOf_shipped] at hprice
    rcases List.mem_cons.mp hprice with rfl | hprice
    · exact priceOf_written hentryPattern rfl hentry
    · rcases List.mem_append.mp hprice with hprice | hprice
      · split at hprice
        · cases hprice
        · next hstop =>
          rw [List.mem_singleton.mp hprice]
          exact priceOf_written hstopPattern rfl hstop
      · obtain ⟨target, htarget, rfl⟩ := List.mem_map.mp hprice
        exact target_written hrange htarget

/-- The engine makes nothing up: in every signal that it returns, the symbol is the normal form of a word
of the cleaned text, the action and the order type are words of it in capitals, and the entry, the stop
and every target that are present are the values of numerals with the digits of one word each. -/
theorem signal_read_off {rangeOrder : Parser.LevelMap → Parser.LevelMap}
    (hrange : ∀ levels, (rangeOrder levels).Perm levels) {rawText : String} {signal : ParsedSignal}
    (h : process rangeOrder rawText = .ok signal) : ReadOff (clean rawText.toList) signal := by
  obtain ⟨hsignal, hvalid⟩ := process_eq_ok.mp h
  generalize clean rawText.toList = text at hsignal ⊢
  subst hsignal
  obtain ⟨hsymbol, haction, -, hpositive⟩ := validate_eq_ok.mp hvalid
  refine parse_read_off hrange hsymbol (fun hnone => haction ?_) fun hzero => hpositive ?_
  · exact congrArg (fun word => String.ofList (toUpper word)) hnone
  · rw [Parser.parse_entryPrice, hzero]
    exact F64.fin_le_fin.mpr (le_refl 0)

theorem signal_read_off_of_plainBuy :
    ReadOff (clean "BTCUSD BUY BUY ENTRY 50000 SL 49000".toList) plainBuy :=
  signal_read_off (fun levels => List.Perm.refl (id levels)) (toOption_eq_some.mp (by decide +kernel))

end SphereFx.Extractor
