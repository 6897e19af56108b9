import SphereFx.Extractor.Engine
import SphereFx.Extractor.Levels

/-!
# When the extracted prices are numbers

`ParseFloat` reads `nan` and `inf`, and every comparison with NaN is false, so NaN is neither below nor
above a range and not `<= 0` either. A signal that `Process` returns has real prices exactly when no
price of its text is spelled that way and let through by the rule of the symbol.
-/

namespace SphereFx.Extractor

/-! ### The check against the symbol -/

def SymbolRule.Allows (rule : SymbolRule) (price : F64) : Prop :=
  ¬ price < .fin rule.minValue ∧ ¬ F64.fin rule.maxValue < price ∧
    (countDecimalPlaces price ∈ rule.decimalPlaces ∨ rule.decimalPlaces = [])

/-- A finite price in the range of the symbol with an allowed number of decimals. -/
def SymbolRule.Covers (rule : SymbolRule) (price : F64) : Prop :=
  ∃ q, price = .fin q ∧ rule.minValue ≤ q ∧ q ≤ rule.maxValue ∧
    countDecimalPlaces (.fin q) ∈ rule.decimalPlaces

theorem SymbolRule.Allows.covers {rule : SymbolRule} {price : F64} (h : rule.Allows price)
    (hfinite : price.isFinite = true) (hplaces : rule.decimalPlaces ≠ []) : rule.Covers price := by
  obtain ⟨q, rfl⟩ := F64.isFinite_iff.mp hfinite
  obtain ⟨hmin, hmax, hdecimals⟩ := h
  rw [F64.fin_lt_fin, not_lt] at hmin hmax
  exact ⟨q, rfl, hmin, hmax, hdecimals.resolve_right hplaces⟩

/-- Of the special values only NaN is within a range, and it is written without decimals. -/
theorem SymbolRule.allows_special {rule : SymbolRule} {price : F64} (h : price.isFinite = false) :
    rule.Allows price ↔ price = .nan ∧ (0 ∈ rule.decimalPlaces ∨ rule.decimalPlaces = []) := by
  cases price with
  | fin q => cases h
  | nan =>
      have hmin : ¬ F64.nan < .fin rule.minValue := by
        intro h
        cases h
      have hmax : ¬ F64.fin rule.maxValue < .nan := F64.not_lt_nan _
      exact ⟨fun h => ⟨rfl, h.2.2⟩, fun h => ⟨hmin, hmax, h.2⟩⟩
  | inf negative =>
      constructor
      · rintro ⟨hmin, hmax, -⟩
        cases negative with
        | true => exact absurd rfl hmin
        | false => exact absurd rfl hmax
      · rintro ⟨h, -⟩
        cases h

namespace Parser

variable {p : Parser} {symbol : String} {price : F64}

theorem validatePrice_iff :
    p.validatePrice price symbol = true ↔ ∀ rule, p.rule? symbol = some rule → rule.Allows price := by
  unfold validatePrice
  cases hrule : p.rule? symbol with
  | none => simp
  | some rule =>
      simp only [Option.some.injEq, forall_eq', SymbolRule.Allows]
      split
      · rename_i hout
        simp only [Bool.false_eq_true, false_iff]
        rintro ⟨hmin, hmax, -⟩
        exact hout.elim hmin hmax
      · rename_i hin
        obtain ⟨hmin, hmax⟩ := not_or.mp hin
        rw [decide_eq_true_iff]
        exact ⟨fun h => ⟨hmin, hmax, h⟩, fun h => h.2.2⟩

/-- The two tests of `extractNumeric` on a number and the rule of the symbol. -/
private theorem tests_eq_ok {rule : SymbolRule} {num : F64} {outside places : NumericError} :
    (if num < .fin rule.minValue ∨ .fin rule.maxValue < num then .error outside
      else if countDecimalPlaces num ∉ rule.decimalPlaces ∧ rule.decimalPlaces ≠ [] then .error places
      else .ok num : Except NumericError F64) = .ok price ↔ num = price ∧ rule.Allows price := by
  split
  · rename_i hout
    constructor
    · intro h
      cases h
    · rintro ⟨rfl, hmin, hmax, -⟩
      exact absurd hout (not_or.mpr ⟨hmin, hmax⟩)
  rename_i hin
  obtain ⟨hmin, hmax⟩ := not_or.mp hin
  split
  · rename_i hplaces
    constructor
    · intro h
      cases h
    · rintro ⟨rfl, -, -, hmem⟩
      exact absurd hmem (not_or.mpr hplaces)
  · rename_i hplaces
    constructor
    · intro h
      cases h
      refine ⟨rfl, hmin, hmax, ?_⟩
      by_contra hnone
      exact hplaces (not_or.mp hnone)
    · rintro ⟨rfl, -⟩
      rfl

/-- A component that is checked against the symbol takes the prices that a list section takes. -/
theorem extractNumeric_eq_ok {cfg : PatternConfig} {text : List Char}
    (hcheck : cfg.validateAgainstSymbol = true) :
    p.extractNumeric cfg text symbol = .ok price ↔
      ∃ val, extractValue cfg text = some val ∧ p.Takes symbol (p.numericText cfg val symbol) price := by
  have hempty : parseFloat (p.numericText cfg [] symbol) = none := by
    have hreplace : ∀ (c : Char) (by' : List Char), Text.replace c by' [] = [] := fun _ _ => rfl
    unfold numericText
    simp only [hreplace, ite_self]
    rfl
  unfold extractNumeric Takes
  simp only [hcheck, if_true, validatePrice_iff]
  cases hval : extractValue cfg text with
  | none => simp
  | some val =>
      cases val with
      | nil => simp [hempty]
      | cons c rest =>
          simp only [Option.some.injEq, exists_eq_left']
          cases hparse : parseFloat (p.numericText cfg (c :: rest) symbol) with
          | none => simp
          | some num =>
              cases hrule : p.rule? symbol with
              | none => simp
              | some rule =>
                  simp only [Option.some.injEq, forall_eq']
                  exact tests_eq_ok

/-! ### Spellings of a special value -/

variable (p) in
/-- The rule of the symbol lets an infinity or NaN through: there is none, or it is NaN and the rule
allows prices without decimals. -/
def LetsThrough (symbol : String) (price : F64) : Prop :=
  ∀ rule, p.rule? symbol = some rule →
    price = .nan ∧ (0 ∈ rule.decimalPlaces ∨ rule.decimalPlaces = [])

variable (p) in
def SpellsSpecial (symbol : String) (token : List Char) : Prop :=
  ∃ price, specialFloat token = some price ∧ p.LetsThrough symbol price

variable (p) in
/-- The word of a component spells a special value. -/
def ReadsSpecial (cfg : PatternConfig) (text : List Char) (symbol : String) : Prop :=
  ∃ val, extractValue cfg text = some val ∧ p.SpellsSpecial symbol (p.numericText cfg val symbol)

variable (p) in
/-- A token of a list section spells a special value. -/
def ListsSpecial (cfg : PatternConfig) (text : List Char) (symbol : String) : Prop :=
  ∃ token ∈ p.listTokens cfg text symbol, p.SpellsSpecial symbol token

theorem spellsSpecial_iff {token : List Char} :
    p.SpellsSpecial symbol token ↔ ∃ price, p.Takes symbol token price ∧ price.isFinite = false := by
  have hthrough : ∀ {price : F64}, price.isFinite = false →
      (p.validatePrice price symbol = true ↔ p.LetsThrough symbol price) := by
    intro price hprice
    rw [validatePrice_iff]
    exact forall₂_congr fun rule _ => SymbolRule.allows_special hprice
  constructor
  · rintro ⟨price, hspecial, hlets⟩
    obtain ⟨hparse, hprice⟩ := parseFloat_eq_special.mpr hspecial
    exact ⟨price, ⟨hparse, (hthrough hprice).mpr hlets⟩, hprice⟩
  · rintro ⟨price, ⟨hparse, hvalid⟩, hprice⟩
    exact ⟨price, parseFloat_eq_special.mp ⟨hparse, hprice⟩, (hthrough hprice).mp hvalid⟩

private theorem isFinite_of_cleaned {raw : List Char}
    (h : p.Takes symbol (p.cleanNumericString raw symbol) price) : price.isFinite = true := by
  by_contra hprice
  rw [Bool.not_eq_true] at hprice
  obtain ⟨c, hc, hlower⟩ := letter_of_specialFloat (parseFloat_eq_special.mp ⟨h.1, hprice⟩)
  have hkept := (List.mem_filter.mp hc).2
  rw [Bool.or_eq_true, Bool.or_eq_true, beq_iff_eq, beq_iff_eq] at hkept
  rcases hkept with (hdigit | rfl) | rfl
  · rw [Re.isDigit, Bool.and_eq_true, decide_eq_true_eq, decide_eq_true_eq] at hdigit
    have hsame : c.toLower = c := by
      refine dif_neg ?_
      rintro ⟨hletter, -⟩
      have hnine : c.val ≤ '9'.val := hdigit.2
      exact absurd (UInt32.le_trans hletter hnine) (by decide)
    rw [hsame] at hlower
    subst hlower
    exact absurd hdigit.2 (by decide)
  · exact absurd hlower (by decide)
  · exact absurd hlower (by decide)

/-! ### The price of a component -/

private theorem priceOf_of_takes {component : String} {cfg : PatternConfig} {text val : List Char}
    (hcfg : p.patterns component = some cfg) (hcheck : cfg.validateAgainstSymbol = true)
    (hval : extractValue cfg text = some val)
    (h : p.Takes symbol (p.numericText cfg val symbol) price) :
    p.priceOf component text symbol = price := by
  rw [priceOf, hcfg]
  simp only [(extractNumeric_eq_ok hcheck).mpr ⟨val, hval, h⟩]

theorem priceOf_cases {component : String} {cfg : PatternConfig} {text : List Char}
    (hcfg : p.patterns component = some cfg) (hcheck : cfg.validateAgainstSymbol = true) :
    p.priceOf component text symbol = 0 ∨ ∃ val, extractValue cfg text = some val ∧
      p.Takes symbol (p.numericText cfg val symbol) (p.priceOf component text symbol) := by
  rw [priceOf, hcfg]
  simp only
  cases hnumeric : p.extractNumeric cfg text symbol with
  | error e => exact Or.inl rfl
  | ok price => exact Or.inr ((extractNumeric_eq_ok hcheck).mp hnumeric)

theorem priceOf_special_iff {component : String} {cfg : PatternConfig} {text : List Char}
    (hcfg : p.patterns component = some cfg) (hcheck : cfg.validateAgainstSymbol = true) :
    (p.priceOf component text symbol).isFinite = false ↔ p.ReadsSpecial cfg text symbol := by
  constructor
  · intro hprice
    rcases priceOf_cases hcfg hcheck with hzero | ⟨val, hval, htakes⟩
    · rw [hzero] at hprice
      cases hprice
    · exact ⟨val, hval, spellsSpecial_iff.mpr ⟨_, htakes, hprice⟩⟩
  · rintro ⟨val, hval, hspells⟩
    obtain ⟨price, htakes, hprice⟩ := spellsSpecial_iff.mp hspells
    rw [priceOf_of_takes hcfg hcheck hval htakes]
    exact hprice

/-! ### The prices of the targets -/

theorem target_takes {rangeOrder : LevelMap → LevelMap} {cfg : PatternConfig} {text : List Char}
    {target : TakeProfitLevel} (hrange : ∀ levels, (rangeOrder levels).Perm levels)
    (h : target ∈ p.extractTakeProfit rangeOrder cfg text symbol) :
    (∃ raw, p.Takes symbol (p.cleanNumericString raw symbol) target.price) ∨
      ∃ token ∈ p.listTokens cfg text symbol, p.Takes symbol token target.price :=
  hasPrice_levelMap ((mem_extractTakeProfit hrange).mp ⟨target, h, rfl⟩)

private theorem targets_special_iff {rangeOrder : LevelMap → LevelMap} {cfg : PatternConfig}
    {text : List Char} (hrange : ∀ levels, (rangeOrder levels).Perm levels) :
    (∃ target ∈ p.extractTakeProfit rangeOrder cfg text symbol, target.price.isFinite = false) ↔
      p.ListsSpecial cfg text symbol := by
  constructor
  · rintro ⟨target, htarget, hprice⟩
    rcases target_takes hrange htarget with ⟨raw, htakes⟩ | ⟨token, htoken, htakes⟩
    · rw [isFinite_of_cleaned htakes] at hprice
      cases hprice
    · exact ⟨token, htoken, spellsSpecial_iff.mpr ⟨_, htakes, hprice⟩⟩
  · rintro ⟨token, htoken, hspells⟩
    obtain ⟨price, htakes, hprice⟩ := spellsSpecial_iff.mp hspells
    obtain ⟨target, htarget, rfl⟩ :=
      (mem_extractTakeProfit hrange).mpr (hasPrice_of_listTokens htoken htakes)
    exact ⟨target, htarget, hprice⟩

end Parser

/-! ### The prices of a signal -/

/-- The entry, the stop unless it is absent, and the targets. -/
def ParsedSignal.presentPrices (signal : ParsedSignal) : List F64 :=
  signal.entryPrice :: ((if signal.stopLoss = 0 then [] else [signal.stopLoss]) ++
    signal.takeProfit.map TakeProfitLevel.price)

/-- Every price is a number, the entry a positive one, and those that are present keep to the rule of
the symbol. -/
structure RealPrices (signal : ParsedSignal) : Prop where
  entry : ∃ q, signal.entryPrice = .fin q ∧ 0 < q
  stop : signal.stopLoss.isFinite = true
  targets : ∀ target ∈ signal.takeProfit, target.price.isFinite = true
  inRange : ∀ rule, shippedParser.symbolRules signal.symbol = some rule →
    ∀ price ∈ signal.presentPrices, rule.Covers price

/-- A price of a cleaned text is spelled as an infinity or NaN and not stopped by the rule. -/
def SpellsSpecialPrice (text : List Char) : Prop :=
  let symbol := shippedParser.symbolOf text
  shippedParser.ReadsSpecial entryPriceConfig text symbol ∨
    shippedParser.ReadsSpecial stopLossConfig text symbol ∨
      shippedParser.ListsSpecial takeProfitConfig text symbol

theorem shippedRules_places {symbol : String} {rule : SymbolRule}
    (h : shippedParser.symbolRules symbol = some rule) : rule.decimalPlaces ≠ [] := by
  have hall : ∀ entry ∈ shippedRules, entry.2.decimalPlaces ≠ [] := by decide
  exact hall (symbol, rule) (mem_of_lookup h)

section Claim

variable {rangeOrder : Parser.LevelMap → Parser.LevelMap} {text : List Char}

private theorem entryPattern : shippedParser.patterns "entry_price" = some entryPriceConfig := rfl

private theorem stopPattern : shippedParser.patterns "stop_loss" = some stopLossConfig := rfl

private theorem targetPattern : shippedParser.patterns "take_profit" = some takeProfitConfig := rfl

theorem targetsOf_shipped (symbol : String) : shippedParser.targetsOf rangeOrder text symbol =
    shippedParser.extractTakeProfit rangeOrder takeProfitConfig text symbol := by
  rw [Parser.targetsOf, targetPattern]
  exact if_pos rfl

private theorem parse_valid (hrange : ∀ levels, (rangeOrder levels).Perm levels) {price : F64}
    (h : price ∈ (shippedParser.parse rangeOrder text).presentPrices)
    (hzero : (shippedParser.parse rangeOrder text).entryPrice ≠ 0) :
    shippedParser.validatePrice price (shippedParser.symbolOf text) = true := by
  rw [ParsedSignal.presentPrices, Parser.parse_stopLoss, Parser.parse_takeProfit,
    Parser.parse_entryPrice, targetsOf_shipped] at h
  rw [Parser.parse_entryPrice] at hzero
  rcases List.mem_cons.mp h with rfl | h
  · obtain ⟨val, -, htakes⟩ := (Parser.priceOf_cases entryPattern rfl).resolve_left hzero
    exact htakes.2
  rcases List.mem_append.mp h with h | h
  · split at h
    · cases h
    · rename_i hstop
      rw [List.mem_singleton.mp h]
      obtain ⟨val, -, htakes⟩ := (Parser.priceOf_cases stopPattern rfl).resolve_left hstop
      exact htakes.2
  · obtain ⟨target, htarget, rfl⟩ := List.mem_map.mp h
    rcases Parser.target_takes hrange htarget with ⟨raw, htakes⟩ | ⟨token, -, htakes⟩
    · exact htakes.2
    · exact htakes.2

/-- A text spells a special price exactly when one of its parsed prices is special. -/
theorem spellsSpecialPrice_iff (hrange : ∀ levels, (rangeOrder levels).Perm levels) :
    SpellsSpecialPrice text ↔
      (shippedParser.parse rangeOrder text).entryPrice.isFinite = false ∨
      (shippedParser.parse rangeOrder text).stopLoss.isFinite = false ∨
      ∃ target ∈ (shippedParser.parse rangeOrder text).takeProfit, target.price.isFinite = false := by
  rw [Parser.parse_stopLoss, Parser.parse_takeProfit, Parser.parse_entryPrice, targetsOf_shipped,
    Parser.priceOf_special_iff entryPattern rfl, Parser.priceOf_special_iff stopPattern rfl,
    Parser.targets_special_iff hrange]
  exact Iff.rfl

/-- A returned signal has real prices exactly when its text spells no special one. -/
theorem prices_real_iff (hrange : ∀ levels, (rangeOrder levels).Perm levels) {rawText : String}
    {signal : ParsedSignal} (h : process rangeOrder rawText = .ok signal) :
    RealPrices signal ↔ ¬ SpellsSpecialPrice (clean rawText.toList) := by
  obtain ⟨hsignal, hvalid⟩ := process_eq_ok.mp h
  obtain ⟨hsymbol, -, -, hpositive⟩ := validate_eq_ok.mp hvalid
  rw [spellsSpecialPrice_iff hrange, ← hsignal]
  constructor
  · rintro hreal (hspecial | hspecial | ⟨target, htarget, hspecial⟩)
    · obtain ⟨q, hq, -⟩ := hreal.entry
      rw [hq] at hspecial
      cases hspecial
    · rw [hreal.stop] at hspecial
      cases hspecial
    · rw [hreal.targets target htarget] at hspecial
      cases hspecial
  · intro hplain
    obtain ⟨hentry, hplain⟩ := not_or.mp hplain
    obtain ⟨hstop, htargets⟩ := not_or.mp hplain
    rw [Bool.not_eq_false] at hentry hstop
    have htargets : ∀ target ∈ signal.takeProfit, target.price.isFinite = true := by
      intro target htarget
      rw [← Bool.not_eq_false]
      exact fun hspecial => htargets ⟨target, htarget, hspecial⟩
    obtain ⟨q, hq⟩ := F64.isFinite_iff.mp hentry
    have hq0 : 0 < q := by
      rw [hq, F64.zero_def, F64.fin_le_fin, not_le] at hpositive
      exact hpositive
    refine ⟨⟨q, hq, hq0⟩, hstop, htargets, ?_⟩
    intro rule hrule price hprice
    have hzero : signal.entryPrice ≠ 0 := by
      rw [hq, F64.zero_def]
      intro h
      exact hq0.ne' (F64.fin.inj h)
    have hfinite : price.isFinite = true := by
      rcases List.mem_cons.mp hprice with rfl | hprice
      · exact hentry
      rcases List.mem_append.mp hprice with hprice | hprice
      · split at hprice
        · cases hprice
        · rw [List.mem_singleton.mp hprice]
          exact hstop
      · obtain ⟨target, htarget, rfl⟩ := List.mem_map.mp hprice
        exact htargets target htarget
    rw [hsignal] at hprice hzero hsymbol hrule
    have hallowed := Parser.validatePrice_iff.mp (parse_valid hrange hprice hzero)
    rw [Parser.parse_symbol] at hsymbol hrule
    refine (hallowed rule ?_).covers hfinite (shippedRules_places hrule)
    rw [Parser.rule?, if_neg hsymbol, hrule]

/-- NaN has no decimals, which the rule of BTCUSD allows, and it is not `<= 0`. -/
theorem nan_entry_returned : ∃ signal, process id "BTCUSD BUY BUY ENTRY nan" = .ok signal ∧
    signal.entryPrice = .nan ∧ ¬ RealPrices signal := by
  have hentry : (process id "BTCUSD BUY BUY ENTRY nan").toOption.map ParsedSignal.entryPrice =
      some .nan := by decide +kernel
  obtain ⟨signal, hsignal, hnan⟩ := Option.map_eq_some_iff.mp hentry
  refine ⟨signal, toOption_eq_some.mp hsignal, hnan, ?_⟩
  intro hreal
  obtain ⟨q, hq, -⟩ := hreal.entry
  rw [hnan] at hq
  cases hq

/-- A buy without targets, as the parser reads it. -/
def plainBuy : ParsedSignal := ⟨"BTCUSD", "BUY", "50000", .fin 50000, .fin 49000, [], 90⟩

theorem prices_real_iff_of_plainBuy :
    process id "BTCUSD BUY BUY ENTRY 50000 SL 49000" = .ok plainBuy ∧ RealPrices plainBuy := by
  have hprocess : process id "BTCUSD BUY BUY ENTRY 50000 SL 49000" = .ok plainBuy :=
    toOption_eq_some.mp (by decide +kernel)
  have hrange : ∀ levels : Parser.LevelMap, (id levels).Perm levels := fun _ => List.Perm.refl _
  refine ⟨hprocess, (prices_real_iff hrange hprocess).mpr ?_⟩
  rw [spellsSpecialPrice_iff hrange, ← (process_eq_ok.mp hprocess).1]
  rintro (h | h | ⟨target, htarget, -⟩)
  · cases h
  · cases h
  · cases htarget

end Claim

end SphereFx.Extractor
