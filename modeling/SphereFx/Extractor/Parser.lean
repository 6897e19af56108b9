import Mathlib.Data.List.Sort
import SphereFx.Extractor.Messages
import SphereFx.Extractor.Number
import SphereFx.Extractor.Patterns

/-!
# Parsing a cleaned text

`parser.go`: one keyword pattern per component, numbers in the convention of the symbol, and the two
passes over the take-profit targets.
-/

namespace SphereFx.Extractor

open Text

structure Parser where
  patterns : String → Option PatternConfig
  symbolRules : String → Option SymbolRule

/-- The parser on the shipped files. -/
def shippedParser : Parser where
  patterns component := shippedPatterns.find? fun cfg => cfg.component = component
  symbolRules symbol := shippedRules.lookup symbol

/-- Why a number is not taken. -/
inductive NumericError where
  | noValue
  | malformed
  | outsideRange (value minValue maxValue : F64)
  | decimalPlaces (places : Nat) (symbol : String)

/-! ### Keyword patterns -/

/-- A connector of a pattern file: the empty one stands for white space. -/
def connector (text : String) : Re := if text = "" then .many Re.isSpace true else word text

/-- The keywords of a component. -/
def PatternConfig.terms (cfg : PatternConfig) : List String := cfg.mainTerm :: cfg.aliases

/-- `(?i)\b(terms)\s*(connectors)\s*(value)`. -/
def keywordPattern (cfg : PatternConfig) (value : Re) : Re :=
  .seq .boundary (.seq (.group 1 (Re.alts (cfg.terms.map word)))
    (Re.seqs [.many Re.isSpace true, .group 2 (Re.alts (cfg.connectors.map connector)),
      .many Re.isSpace true, .group 3 value]))

theorem run_keywordPattern_eq_nil {cfg : PatternConfig} {value : Re} {before : Option Char}
    {text : List Char} (h : Re.atBoundary before text.head? = true →
      ∀ term ∈ cfg.terms, Re.startsWith sameFold term.toList text = false) :
    (keywordPattern cfg value).run before text = [] := by
  apply Re.run_boundary_seq_eq_nil
  intro hboundary
  apply Re.run_seq_eq_nil
  apply Re.run_group_eq_nil
  apply Re.run_alts_eq_nil
  · exact List.cons_ne_nil _ _
  · intro r hr
    obtain ⟨term, hterm, rfl⟩ := List.mem_map.mp hr
    exact Re.run_literal_eq_nil (h hboundary term hterm)

/-- The word after a keyword. -/
def extractValue (cfg : PatternConfig) (text : List Char) : Option (List Char) :=
  ((keywordPattern cfg (Re.many1 fun c => !Re.isSpace c)).find text).map fun m =>
    trimSpace (m.submatch 3)

theorem run_noSpace {before : Option Char} {c : Char} {rest : List Char}
    (h : Re.isSpace c = false) :
    ((Re.many Re.isSpace true).run before (c :: rest)).head? = some ⟨[], c :: rest, []⟩ := by
  apply Re.head_runMany (List.forall_mem_nil _)
  intro d hd
  rw [← Option.some.inj hd, h]

/-- A match of the pattern of a component, piece by piece: each piece is what its part of the pattern
takes first. -/
theorem head_run_keywordPattern {cfg : PatternConfig} {value : Re} {before : Option Char}
    {keyword gap mark gap' taken rest : List Char}
    (hboundary : Re.atBoundary before
      (keyword ++ (gap ++ (mark ++ (gap' ++ (taken ++ rest))))).head? = true)
    (hkeyword : ∀ before, ((Re.alts (cfg.terms.map word)).run before
      (keyword ++ (gap ++ (mark ++ (gap' ++ (taken ++ rest)))))).head? =
        some ⟨keyword, gap ++ (mark ++ (gap' ++ (taken ++ rest))), []⟩)
    (hgap : ∀ c ∈ gap, Re.isSpace c = true)
    (hstop : ∀ c ∈ (mark ++ (gap' ++ (taken ++ rest))).head?, Re.isSpace c = false)
    (hmark : ∀ before, ((Re.alts (cfg.connectors.map connector)).run before
      (mark ++ (gap' ++ (taken ++ rest)))).head? = some ⟨mark, gap' ++ (taken ++ rest), []⟩)
    (hgap' : ∀ c ∈ gap', Re.isSpace c = true)
    (hstop' : ∀ c ∈ (taken ++ rest).head?, Re.isSpace c = false)
    (hvalue : ∀ before, (value.run before (taken ++ rest)).head? = some ⟨taken, rest, []⟩) :
    ((keywordPattern cfg value).run before
      (keyword ++ (gap ++ (mark ++ (gap' ++ (taken ++ rest)))))).head? =
        some ⟨keyword ++ (gap ++ (mark ++ (gap' ++ taken))), rest,
          [(3, taken), (2, mark), (1, keyword)]⟩ := by
  have hspaces : ∀ before, ((Re.many Re.isSpace true).run before
      (gap ++ (mark ++ (gap' ++ (taken ++ rest))))).head? =
        some ⟨gap, mark ++ (gap' ++ (taken ++ rest)), []⟩ :=
    fun _ => Re.head_runMany hgap hstop
  have hspaces' : ∀ before, ((Re.many Re.isSpace true).run before (gap' ++ (taken ++ rest))).head? =
      some ⟨gap', taken ++ rest, []⟩ :=
    fun _ => Re.head_runMany hgap' hstop'
  exact Re.head_run_seq (Re.head_run_boundary hboundary)
    (Re.head_run_seq (Re.head_run_group (hkeyword _)) (Re.head_run_seq (hspaces _)
      (Re.head_run_seq (Re.head_run_group (hmark _)) (Re.head_run_seq (hspaces' _)
        (Re.head_run_group (hvalue _))))))

/-- The spaces and the connector that a single space stands for, and the word after them. -/
private theorem head_run_spaceWord {before : Option Char} {value rest : List Char} (hne : value ≠ [])
    (hspace : ∀ c ∈ value, Re.isSpace c = false) (hfirst : ∀ c ∈ value.head?, sameFold ' ' c = false)
    (hrest : ∀ c ∈ rest.head?, Re.isSpace c = true) :
    ((Re.seqs [.many Re.isSpace true, .group 2 (word " "), .many Re.isSpace true,
      .group 3 (Re.many1 fun c => !Re.isSpace c)]).run before (' ' :: (value ++ rest))).head? =
        some ⟨' ' :: value, rest, [(3, value), (2, [' '])]⟩ := by
  obtain ⟨c, more, rfl⟩ := List.exists_cons_of_ne_nil hne
  have hc : ¬ Re.isSpace c = true := by
    rw [hspace c List.mem_cons_self]
    exact Bool.false_ne_true
  have hspaces : (Re.many Re.isSpace true).run before (' ' :: (c :: more ++ rest)) =
      [⟨[' '], c :: more ++ rest, []⟩, ⟨[], ' ' :: (c :: more ++ rest), []⟩] := by
    have hstop : Re.runMany Re.isSpace true (c :: (more ++ rest)) = [⟨[], c :: (more ++ rest), []⟩] := by
      rw [Re.runMany, if_neg hc]
    have hblank : Re.isSpace ' ' = true := rfl
    rw [Re.run, Re.runMany, if_pos hblank, List.cons_append, hstop]
    rfl
  -- The spaces take the connector's place first; the connector then has nothing to read.
  have hgreedy : (Re.seq (.group 2 (word " ")) (Re.seqs [.many Re.isSpace true,
      .group 3 (Re.many1 fun c => !Re.isSpace c)])).run (Re.lastOr before [' '])
        (c :: more ++ rest) = [] := by
    apply Re.run_seq_eq_nil
    apply Re.run_group_eq_nil
    apply Re.run_literal_eq_nil
    show (sameFold ' ' c && Re.startsWith sameFold [] (more ++ rest)) = false
    rw [hfirst c rfl, Bool.false_and]
  have hconnector : ((Re.group 2 (word " ")).run before (' ' :: (c :: more ++ rest))).head? =
      some ⟨[' '], c :: more ++ rest, [(2, [' '])]⟩ := by
    apply Re.head_run_group
    have hword := Re.run_literal (List.Forall₂.cons (show sameFold ' ' ' ' = true from rfl) .nil)
      before (c :: more ++ rest)
    show ((Re.literal sameFold [' ']).run before ([' '] ++ (c :: more ++ rest))).head? = _
    rw [hword, List.head?_cons]
  have hnoSpace : ((Re.many Re.isSpace true).run (Re.lastOr before [' ']) (c :: more ++ rest)).head? =
      some ⟨[], c :: more ++ rest, []⟩ :=
    run_noSpace (hspace c List.mem_cons_self)
  have hvalue : ((Re.group 3 (Re.many1 fun c => !Re.isSpace c)).run
      (Re.lastOr (Re.lastOr before [' ']) []) (c :: more ++ rest)).head? =
        some ⟨c :: more, rest, [(3, c :: more)]⟩ := by
    apply Re.head_run_group
    apply Re.head_run_many1 hne
    · intro d hd
      rw [hspace d hd, Bool.not_false]
    · intro d hd
      rw [hrest d hd, Bool.not_true]
  show ((Re.seq (.many Re.isSpace true) (Re.seq (.group 2 (word " ")) (Re.seqs [_, _]))).run _ _).head? = _
  rw [Re.run_seq_second hspaces hgreedy, List.head?_map]
  have htail := Re.head_run_seq hconnector (Re.head_run_seq hnoSpace hvalue)
  rw [Re.lastOr_nil, Option.map_eq_some_iff]
  exact ⟨_, htail, rfl⟩

/-- With a single space as the only connector, the value is the word after the keyword. -/
theorem extractValue_of_word {cfg : PatternConfig} {front keyword value rest : List Char}
    (hconnectors : cfg.connectors = [" "])
    (hskip : ∀ a b, front = a ++ b → b ≠ [] →
      (keywordPattern cfg (Re.many1 fun c => !Re.isSpace c)).run (Re.lastOr none a)
        (b ++ (keyword ++ ' ' :: (value ++ rest))) = [])
    (hboundary : Re.atBoundary (Re.lastOr none front)
      (keyword ++ ' ' :: (value ++ rest)).head? = true)
    (hkeyword : ((Re.alts (cfg.terms.map word)).run (Re.lastOr none front)
      (keyword ++ ' ' :: (value ++ rest))).head? = some ⟨keyword, ' ' :: (value ++ rest), []⟩)
    (hne : value ≠ []) (hspace : ∀ c ∈ value, Re.isSpace c = false ∧ isWhite c = false)
    (hfirst : ∀ c ∈ value.head?, sameFold ' ' c = false)
    (hrest : ∀ c ∈ rest.head?, Re.isSpace c = true) :
    extractValue cfg (front ++ (keyword ++ ' ' :: (value ++ rest))) = some value := by
  have htail := fun before => @head_run_spaceWord before value rest hne
    (fun c hc => (hspace c hc).1) hfirst hrest
  have hconnector : Re.alts (cfg.connectors.map connector) = word " " := by
    rw [hconnectors]
    rfl
  have hrun : ((keywordPattern cfg (Re.many1 fun c => !Re.isSpace c)).run (Re.lastOr none front)
      (keyword ++ ' ' :: (value ++ rest))).head? =
        some ⟨keyword ++ ' ' :: value, rest, [(3, value), (2, [' ']), (1, keyword)]⟩ := by
    rw [keywordPattern, hconnector]
    exact Re.head_run_seq (Re.head_run_boundary hboundary)
      (Re.head_run_seq (Re.head_run_group hkeyword) (htail _))
  rw [extractValue, Re.find_eq_some hskip hrun, Option.map_some]
  exact congrArg some (trimSpace_word fun c hc => (hspace c hc).2)

/-- A component without keywords and connectors takes what follows the first word boundary, up to the
next white space. -/
theorem extractValue_of_boundary {cfg : PatternConfig} {front value rest : List Char}
    (hterms : cfg.terms = [""]) (hconnectors : cfg.connectors = [])
    (hfront : ∀ c ∈ front, Re.isWord c = false) (hne : value ≠ [])
    (hboundary : ∀ c ∈ value.head?, Re.isWord c = true)
    (hspace : ∀ c ∈ value, Re.isSpace c = false) (hrest : ∀ c ∈ rest.head?, Re.isSpace c = true) :
    extractValue cfg (front ++ (value ++ rest)) = some (trimSpace value) := by
  obtain ⟨c, more, rfl⟩ := List.exists_cons_of_ne_nil hne
  have hnoSpace : ∀ before, ((Re.many Re.isSpace true).run before (c :: more ++ rest)).head? =
      some ⟨[], c :: more ++ rest, []⟩ :=
    fun _ => run_noSpace (hspace c List.mem_cons_self)
  have hempty : ∀ before text, (Re.empty.run before text).head? = some ⟨[], text, []⟩ :=
    fun _ _ => rfl
  have hvalue : ∀ before, ((Re.many1 fun c => !Re.isSpace c).run before (c :: more ++ rest)).head? =
      some ⟨c :: more, rest, []⟩ := by
    intro before
    apply Re.head_run_many1 hne
    · intro d hd
      rw [hspace d hd, Bool.not_false]
    · intro d hd
      rw [hrest d hd, Bool.not_true]
  have hterm : Re.alts (cfg.terms.map word) = .empty := by
    rw [hterms]
    rfl
  have hconnector : Re.alts (cfg.connectors.map connector) = .empty := by
    rw [hconnectors]
    rfl
  have hrun : ((keywordPattern cfg (Re.many1 fun c => !Re.isSpace c)).run (Re.lastOr none front)
      (c :: more ++ rest)).head? = some ⟨c :: more, rest, [(3, c :: more), (2, []), (1, [])]⟩ := by
    rw [keywordPattern, hterm, hconnector]
    have hstart : Re.atBoundary (Re.lastOr none front) (c :: more ++ rest).head? = true := by
      rw [Re.atBoundary, Re.lastOr_between rfl hfront, List.cons_append, List.head?_cons, Option.any_some,
        hboundary c rfl]
      rfl
    exact Re.head_run_seq (Re.head_run_boundary hstart) (Re.head_run_seq
      (Re.head_run_group (hempty _ _)) (Re.head_run_seq (hnoSpace _) (Re.head_run_seq
        (Re.head_run_group (hempty _ _)) (Re.head_run_seq (hnoSpace _)
          (Re.head_run_group (hvalue _))))))
  have hfind := Re.find_eq_some (r := keywordPattern cfg (Re.many1 fun c => !Re.isSpace c))
    (Re.run_between_eq_nil hfront rfl _) hrun
  rw [extractValue, hfind]
  rfl

theorem extractValue_of_first {cfg : PatternConfig} {value rest : List Char} (hterms : cfg.terms = [""])
    (hconnectors : cfg.connectors = []) (hne : value ≠ [])
    (hboundary : ∀ c ∈ value.head?, Re.isWord c = true)
    (hspace : ∀ c ∈ value, Re.isSpace c = false ∧ isWhite c = false)
    (hrest : ∀ c ∈ rest.head?, Re.isSpace c = true) :
    extractValue cfg (value ++ rest) = some value := by
  have hvalue := extractValue_of_boundary hterms hconnectors (List.forall_mem_nil _) hne hboundary
    (fun c hc => (hspace c hc).1) hrest
  rwa [trimSpace_word fun c hc => (hspace c hc).2] at hvalue

def normalizeSymbol (symbol : String) (cfg : PatternConfig) : String :=
  (cfg.symbolMapping.lookup symbol).getD symbol

namespace Parser

variable (p : Parser)

/-! ### Numbers -/

/-- The rule of a symbol, if there is a symbol. -/
def rule? (symbol : String) : Option SymbolRule :=
  if symbol = "" then none else p.symbolRules symbol

def decimalSeparator (symbol : String) : String :=
  match p.rule? symbol with
  | some rule => rule.decimalSeparator
  | none => "."

/-- The spelling of a number that `extractNumeric` reads. -/
def numericText (cfg : PatternConfig) (val : List Char) (symbol : String) : List Char :=
  let val := if cfg.removeSpacesInsideNumber then replace ' ' [] val else val
  if cfg.replaceCommasWithDots then replace ',' ['.'] val
  else if p.decimalSeparator symbol = "." then replace ',' [] val
  else replace ',' ['.'] (replace '.' [] val)

def extractNumeric (cfg : PatternConfig) (text : List Char) (symbol : String) :
    Except NumericError F64 :=
  match extractValue cfg text with
  | none | some [] => .error .noValue
  | some val =>
      match parseFloat (p.numericText cfg val symbol) with
      | none => .error .malformed
      | some num =>
          match if cfg.validateAgainstSymbol then p.rule? symbol else none with
          | none => .ok num
          | some rule =>
              if num < .fin rule.minValue ∨ .fin rule.maxValue < num then
                .error (.outsideRange num (.fin rule.minValue) (.fin rule.maxValue))
              else
                let places := countDecimalPlaces num
                if places ∉ rule.decimalPlaces ∧ rule.decimalPlaces ≠ [] then
                  .error (.decimalPlaces places symbol)
                else .ok num

def validatePrice (price : F64) (symbol : String) : Bool :=
  match p.rule? symbol with
  | none => true
  | some rule =>
      if price < .fin rule.minValue ∨ .fin rule.maxValue < price then false
      else countDecimalPlaces price ∈ rule.decimalPlaces ∨ rule.decimalPlaces = []

def cleanNumericString (raw : List Char) (symbol : String) : List Char :=
  let val := replace ' ' [] raw
  let val :=
    if p.decimalSeparator symbol = "," then replace '.' [] (replace ',' ['.'] val)
    else replace ',' [] val
  val.filter fun c => Re.isDigit c || c == '.' || c == '-'

/-- `[;\s/|]+`. -/
def listDelimiter : Re := Re.many1 fun c => c == ';' || Re.isSpace c || c == '/' || c == '|'

/-- The parts of a list that are not blank. -/
def listParts (listStr : List Char) : List (List Char) :=
  ((listDelimiter.split (trimSpace listStr)).map trimSpace).filter (· ≠ [])

/-- A part without a point is split at its commas, which are thousands separators otherwise. -/
def splitPart (part : List Char) : List (List Char) :=
  if ',' ∈ part ∧ '.' ∉ part then
    ((part.splitOn ',').map trimSpace).filter (· ≠ [])
  else [replace ',' [] part]

def parseNumberList (listStr : List Char) (symbol : String) : List (List Char) :=
  if p.decimalSeparator symbol = "," then (listParts listStr).map (replace ',' ['.'])
  else (((listParts listStr).flatMap splitPart).map trimSpace).filter (· ≠ [])

/-! ### Take-profit targets -/

/-- `levelMap`: the last entry with a key counts. -/
abbrev LevelMap := List (Int × TakeProfitLevel)

def LevelMap.set (levels : LevelMap) (level : Int) (entry : TakeProfitLevel) : LevelMap :=
  levels.filter (·.1 ≠ level) ++ [(level, entry)]

def LevelMap.has (levels : LevelMap) (level : Int) : Bool := levels.any (·.1 = level)

/-- A match of `with_index`. -/
def addIndexed (symbol : String) (levels : LevelMap) (m : Hit) : LevelMap :=
  let level := atoi (m.submatch 2)
  match parseFloat (p.cleanNumericString (m.submatch 3) symbol) with
  | none => levels
  | some price =>
      if p.validatePrice price symbol then levels.set level ⟨toInt32 level, price⟩ else levels

/-- The search for an unused level. -/
def unusedFrom (levels : LevelMap) : Nat → Int → Int
  | 0, level => level
  | fuel + 1, level => if levels.has level then unusedFrom levels fuel (level + 1) else level

/-- One token of a list, with the level to try next. -/
def addToken (symbol : String) (state : LevelMap × Int) (token : List Char) : LevelMap × Int :=
  match parseFloat token with
  | none => state
  | some price =>
      if p.validatePrice price symbol then
        let level := unusedFrom state.1 (state.1.length + 1) state.2
        (state.1.set level ⟨toInt32 level, price⟩, level + 1)
      else state

/-- The section of a list that one match of the keyword captured. -/
def addSection (symbol : String) (levels : LevelMap) (m : Hit) : LevelMap :=
  ((p.parseNumberList (m.submatch 3) symbol).foldl (p.addToken symbol)
    (levels, (levels.length : Int) + 1)).1

/-- `(?i)\b(terms)\s*(connectors)\s*([^.\n\r]*)`. -/
def listPattern (cfg : PatternConfig) : Re :=
  keywordPattern cfg (.many (fun c => c != '.' && c != '\n' && c != '\r') true)

section Targets

-- The order in which a Go map happens to be ranged over.
variable (rangeOrder : LevelMap → LevelMap)

def levelMap (cfg : PatternConfig) (text : List Char) (symbol : String) : LevelMap :=
  let indexed := match cfg.withIndex with
    | none => []
    | some re => if 3 ≤ re.groups then (re.findAll text).foldl (p.addIndexed symbol) [] else []
  if cfg.noIndexList then ((listPattern cfg).findAll text).foldl (p.addSection symbol) indexed
  else indexed

def extractTakeProfit (cfg : PatternConfig) (text : List Char) (symbol : String) :
    List TakeProfitLevel :=
  ((rangeOrder (p.levelMap cfg text symbol)).map Prod.snd).insertionSort fun a b => a.level ≤ b.level

/-! ### The whole signal -/

/-- The points for what was found. -/
def confidence (symbol action : String) (entryPrice stopLoss : F64)
    (takeProfit : List TakeProfitLevel) : Int :=
  min 100 ((if symbol ≠ "" then 30 else 0) + (if action ≠ "" then 25 else 0) +
    (if 0 < entryPrice then 20 else 0) + (if 0 < stopLoss then 15 else 0) +
    (if takeProfit ≠ [] then 10 else 0))

/-- The text of a component, empty if it is not found. -/
def textOf (component : String) (text : List Char) : List Char :=
  ((p.patterns component).bind fun cfg => extractValue cfg text).getD []

/-- The price of a component, zero if none is taken. -/
def priceOf (component : String) (text : List Char) (symbol : String) : F64 :=
  match p.patterns component with
  | none => 0
  | some cfg =>
      match p.extractNumeric cfg text symbol with
      | .ok price => price
      | .error _ => 0

def symbolOf (text : List Char) : String :=
  match p.patterns "symbol" with
  | none => ""
  | some cfg =>
      match extractValue cfg text with
      | none | some [] => ""
      | some val => normalizeSymbol (String.ofList val) cfg

def targetsOf (text : List Char) (symbol : String) : List TakeProfitLevel :=
  match p.patterns "take_profit" with
  | none => []
  | some cfg => if cfg.multiValue then p.extractTakeProfit rangeOrder cfg text symbol else []

def parse (cleaned : List Char) : ParsedSignal :=
  let symbol := p.symbolOf cleaned
  let action := String.ofList (toUpper (p.textOf "action" cleaned))
  let orderType := String.ofList (toUpper (p.textOf "order_type" cleaned))
  let entryPrice := p.priceOf "entry_price" cleaned symbol
  let stopLoss := p.priceOf "stop_loss" cleaned symbol
  let takeProfit := p.targetsOf rangeOrder cleaned symbol
  { symbol, action, orderType, entryPrice, stopLoss, takeProfit
    confidence := confidence symbol action entryPrice stopLoss takeProfit }

theorem parse_symbol (text : List Char) : (p.parse rangeOrder text).symbol = p.symbolOf text := rfl

theorem parse_entryPrice (text : List Char) : (p.parse rangeOrder text).entryPrice =
    p.priceOf "entry_price" text (p.symbolOf text) := rfl

theorem parse_stopLoss (text : List Char) : (p.parse rangeOrder text).stopLoss =
    p.priceOf "stop_loss" text (p.symbolOf text) := rfl

theorem parse_takeProfit (text : List Char) : (p.parse rangeOrder text).takeProfit =
    p.targetsOf rangeOrder text (p.symbolOf text) := rfl

end Targets

end Parser

end SphereFx.Extractor
