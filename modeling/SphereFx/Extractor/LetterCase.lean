import SphereFx.Base.Ascii
import SphereFx.Extractor.LevelNumbers
import SphereFx.Extractor.SymbolName

/-!
# Texts in capital letters

Reading a text again with all its letters in capitals. Numbers are spelled the same, and every keyword
pattern finds the same places; only the symbol is looked up as it is written.
-/

namespace SphereFx.Extractor

open Text

attribute [local instance] decidableBAllChar

/-! ### Numbers -/

theorem digitValue?_toUpper (base : Nat) (c : Char) :
    digitValue? base c.toUpper = digitValue? base c := by
  let value (c : Char) : Option Nat :=
    let n := c.toNat
    if 48 ≤ n ∧ n ≤ 57 then some (n - 48)
    else if 97 ≤ n ∧ n ≤ 102 then some (n - 87)
    else if 65 ≤ n ∧ n ≤ 70 then some (n - 55)
    else none
  have hvalue : value c.toUpper = value c := eq_of_smallLetters (by decide) c
  exact congrArg (Option.filter (· < base)) hvalue

theorem isDigitOf_toUpper (base : Nat) (c : Char) : isDigitOf base c.toUpper = isDigitOf base c := by
  rw [isDigitOf, isDigitOf, digitValue?_toUpper]

theorem digitsValue_map (base : Nat) (digits : List Char) :
    digitsValue base (digits.map Char.toUpper) = digitsValue base digits := by
  simp only [digitsValue, List.foldl_map, digitValue?_toUpper]

theorem takeSign_map (text : List Char) : takeSign (text.map Char.toUpper) =
    ((takeSign text).1, (takeSign text).2.map Char.toUpper) := by
  cases text with
  | nil => rfl
  | cons c rest =>
      by_cases hplus : c = '+'
      · rw [hplus]
        rfl
      by_cases hminus : c = '-'
      · rw [hminus]
        rfl
      have hsign : takeSign (c :: rest) = (none, c :: rest) := by
        apply takeSign_eq
        intro d hd
        rw [← Option.some.inj hd]
        exact ⟨hplus, hminus⟩
      have hcapital : takeSign (c.toUpper :: rest.map Char.toUpper) =
          (none, c.toUpper :: rest.map Char.toUpper) := by
        apply takeSign_eq
        intro d hd
        rw [← Option.some.inj hd]
        exact ⟨mt (toUpper_eq_iff rfl rfl).mp hplus, mt (toUpper_eq_iff rfl rfl).mp hminus⟩
      rw [List.map_cons, hcapital, hsign]
      rfl

private theorem specialFloat_map (text : List Char) :
    specialFloat (text.map Char.toUpper) = specialFloat text := by
  have hlower : ∀ body : List Char, (body.map Char.toUpper).map Char.toLower = body.map Char.toLower := by
    intro body
    rw [List.map_map]
    exact List.map_congr_left fun c _ => toLower_toUpper c
  rw [specialFloat, specialFloat, takeSign_map]
  simp only [hlower]

theorem underscoresFrom_map (hex : Bool) (saw : Char) (text : List Char) :
    underscoresFrom hex saw (text.map Char.toUpper) = underscoresFrom hex saw text := by
  induction text generalizing saw with
  | nil => rfl
  | cons c rest ih =>
      have hunderscore : c.toUpper = '_' ↔ c = '_' := toUpper_eq_iff rfl rfl
      simp only [List.map_cons, underscoresFrom, isDigitOf_toUpper, hunderscore, ih]

theorem takeMantissa_whole {base : Nat} {text : List Char}
    (h : ∀ rest, text.dropWhile (isDigitOf base) ≠ '.' :: rest) : takeMantissa base text =
      if text.takeWhile (isDigitOf base) = [] then none
      else some (text.takeWhile (isDigitOf base), [], text.dropWhile (isDigitOf base)) := by
  unfold takeMantissa
  split
  rename_i frac rest hmatch
  split at hmatch
  · rename_i hpoint
    exact absurd hpoint (h _)
  · cases hmatch
    simp only [and_true]

theorem takeMantissa_map (base : Nat) (text : List Char) :
    takeMantissa base (text.map Char.toUpper) = (takeMantissa base text).map fun m =>
      (m.1.map Char.toUpper, m.2.1.map Char.toUpper, m.2.2.map Char.toUpper) := by
  have htake : ∀ s : List Char, (s.map Char.toUpper).takeWhile (isDigitOf base) =
      (s.takeWhile (isDigitOf base)).map Char.toUpper := by
    intro s
    rw [List.takeWhile_map, comp_toUpper (isDigitOf_toUpper base)]
  have hdrop : ∀ s : List Char, (s.map Char.toUpper).dropWhile (isDigitOf base) =
      (s.dropWhile (isDigitOf base)).map Char.toUpper := by
    intro s
    rw [List.dropWhile_map, comp_toUpper (isDigitOf_toUpper base)]
  by_cases hpoint : ∃ rest, text.dropWhile (isDigitOf base) = '.' :: rest
  · obtain ⟨rest, hrest⟩ := hpoint
    have hself : ('.' : Char).toUpper = '.' := by decide
    simp only [takeMantissa, htake, hdrop, hrest, List.map_cons, hself, List.map_eq_nil_iff]
    split <;> rfl
  · have hnone : ∀ rest, text.dropWhile (isDigitOf base) ≠ '.' :: rest := not_exists.mp hpoint
    have hcapital : ∀ rest, (text.map Char.toUpper).dropWhile (isDigitOf base) ≠ '.' :: rest := by
      intro rest hrest
      rw [hdrop] at hrest
      obtain ⟨c, others, htext, hc, -⟩ := List.map_eq_cons_iff.mp hrest
      exact hnone others (by rw [htext, (toUpper_eq_iff rfl rfl).mp hc])
    rw [takeMantissa_whole hnone, takeMantissa_whole hcapital, htake, hdrop]
    simp only [List.map_eq_nil_iff]
    split <;> rfl

theorem takeExponent_map (mark : Char) (text : List Char) :
    takeExponent mark (text.map Char.toUpper) = takeExponent mark text := by
  cases text with
  | nil => rfl
  | cons c rest =>
      have hall : ∀ digits : List Char, (digits.map Char.toUpper).all (isDigitOf 10) =
          digits.all (isDigitOf 10) := by
        intro digits
        rw [List.all_map, comp_toUpper (isDigitOf_toUpper 10)]
      simp only [List.map_cons, takeExponent, toLower_toUpper, takeSign_map, hall, List.foldl_map,
        digitValue?_toUpper, ne_eq, List.map_eq_nil_iff]

theorem decimal_map (negative : Bool) (text : List Char) :
    readUnsigned.decimal negative (text.map Char.toUpper) = readUnsigned.decimal negative text := by
  rw [readUnsigned.decimal, readUnsigned.decimal, takeMantissa_map]
  cases takeMantissa 10 text with
  | none => rfl
  | some m =>
      simp only [Option.map_some, Option.bind_eq_bind, Option.bind_some, List.map_eq_nil_iff,
        takeExponent_map, List.length_map, ← List.map_append, digitsValue_map]

theorem readUnsigned_eq_decimal {negative : Bool} {text : List Char}
    (h : ∀ c d rest, text ≠ '0' :: c :: d :: rest) :
    readUnsigned negative text = readUnsigned.decimal negative text := by
  unfold readUnsigned
  split
  · exact absurd rfl (h _ _ _)
  · rfl

private theorem readUnsigned_map (negative : Bool) (text : List Char) :
    readUnsigned negative (text.map Char.toUpper) = readUnsigned negative text := by
  by_cases hzero : ∃ c d rest, text = '0' :: c :: d :: rest
  · obtain ⟨c, d, rest, rfl⟩ := hzero
    have hself : ('0' : Char).toUpper = '0' := by decide
    have hdecimal := decimal_map negative ('0' :: c :: d :: rest)
    have hmantissa := takeMantissa_map 16 (d :: rest)
    simp only [List.map_cons, hself] at hdecimal hmantissa ⊢
    simp only [readUnsigned, toLower_toUpper, hdecimal, hmantissa]
    split
    · cases takeMantissa 16 (d :: rest) with
      | none => rfl
      | some m =>
          simp only [Option.map_some, Option.bind_eq_bind, Option.bind_some, takeExponent_map,
            List.length_map, ← List.map_append, digitsValue_map]
    · rfl
  · have hplain : ∀ c d rest, text ≠ '0' :: c :: d :: rest := by
      intro c d rest htext
      exact hzero ⟨c, d, rest, htext⟩
    have hcapital : ∀ c d rest, text.map Char.toUpper ≠ '0' :: c :: d :: rest := by
      intro c d rest htext
      obtain ⟨first, others, rfl, hfirst, hothers⟩ := List.map_eq_cons_iff.mp htext
      obtain ⟨second, others, rfl, -, hothers⟩ := List.map_eq_cons_iff.mp hothers
      obtain ⟨third, others, rfl, -, -⟩ := List.map_eq_cons_iff.mp hothers
      exact hplain second third others (by rw [(toUpper_eq_iff rfl rfl).mp hfirst])
    rw [readUnsigned_eq_decimal hplain, readUnsigned_eq_decimal hcapital, decimal_map]

theorem underscoreOK_eq {text : List Char} (h : ∀ c rest, (takeSign text).2 ≠ '0' :: c :: rest) :
    underscoreOK text = underscoresFrom false '^' (takeSign text).2 := by
  unfold underscoreOK
  split
  · rename_i hzero
    exact absurd hzero (h _ _)
  · rfl

private theorem underscoreOK_map (text : List Char) :
    underscoreOK (text.map Char.toUpper) = underscoreOK text := by
  have hbody : (takeSign (text.map Char.toUpper)).2 = (takeSign text).2.map Char.toUpper := by
    rw [takeSign_map]
  by_cases hzero : ∃ c rest, (takeSign text).2 = '0' :: c :: rest
  · obtain ⟨c, rest, hrest⟩ := hzero
    have hself : ('0' : Char).toUpper = '0' := by decide
    have hdigits := underscoresFrom_map false '^' ('0' :: c :: rest)
    simp only [List.map_cons, hself] at hdigits
    simp only [underscoreOK, hbody, hrest, List.map_cons, hself, toLower_toUpper,
      underscoresFrom_map, hdigits]
  · have hnone : ∀ c rest, (takeSign text).2 ≠ '0' :: c :: rest := by
      intro c rest hrest
      exact hzero ⟨c, rest, hrest⟩
    have hcapital : ∀ c rest, (takeSign (text.map Char.toUpper)).2 ≠ '0' :: c :: rest := by
      intro c rest hrest
      rw [hbody] at hrest
      obtain ⟨first, others, htext, hfirst, hothers⟩ := List.map_eq_cons_iff.mp hrest
      obtain ⟨second, others, rfl, -, -⟩ := List.map_eq_cons_iff.mp hothers
      exact hnone second others (by rw [htext, (toUpper_eq_iff rfl rfl).mp hfirst])
    rw [underscoreOK_eq hnone, underscoreOK_eq hcapital, hbody, underscoresFrom_map]

theorem parseFloat_map (text : List Char) : parseFloat (text.map Char.toUpper) = parseFloat text := by
  have hunderscore : ∀ c : Char, decide (c.toUpper ≠ '_') = decide (c ≠ '_') := by
    intro c
    rw [decide_eq_decide, ne_eq, toUpper_eq_iff rfl rfl]
  have hall : (text.map Char.toUpper).all (· ≠ '_') = text.all (· ≠ '_') := by
    rw [List.all_map, comp_toUpper hunderscore]
  have hfilter : ∀ body : List Char, (body.map Char.toUpper).filter (· ≠ '_') =
      (body.filter (· ≠ '_')).map Char.toUpper := by
    intro body
    rw [List.filter_map, comp_toUpper hunderscore]
  simp only [parseFloat, specialFloat_map, hall, underscoreOK_map, takeSign_map, hfilter,
    readUnsigned_map]

private theorem parseUint_map (n : Nat) (text : List Char) :
    parseUint n (text.map Char.toUpper) = parseUint n text := by
  induction text generalizing n with
  | nil => rfl
  | cons c rest ih => simp only [List.map_cons, parseUint, digitValue?_toUpper, ih]

private theorem atoi_map (text : List Char) : atoi (text.map Char.toUpper) = atoi text := by
  simp only [atoi, takeSign_map, List.map_eq_nil_iff, parseUint_map]

/-! ### Patterns -/

theorem blind_word (text : String) : (word text).Blind Char.toUpper :=
  Re.blind_literal sameFold_toUpper text.toList

private theorem blind_connector (text : String) : (connector text).Blind Char.toUpper := by
  unfold connector
  split
  · exact isSpace_toUpper
  · exact blind_word text

theorem blind_keywordPattern (cfg : PatternConfig) {value : Re} (hvalue : value.Blind Char.toUpper) :
    (keywordPattern cfg value).Blind Char.toUpper := by
  have hterms : (Re.alts (cfg.terms.map word)).Blind Char.toUpper := by
    apply Re.blind_alts
    simpa using fun term _ => blind_word term
  have hconnectors : (Re.alts (cfg.connectors.map connector)).Blind Char.toUpper := by
    apply Re.blind_alts
    simpa using fun text _ => blind_connector text
  exact ⟨isWord_toUpper, hterms, isSpace_toUpper, hconnectors, isSpace_toUpper, hvalue⟩

private theorem blind_indexedTarget : indexedTarget.Blind Char.toUpper := by
  have hseparator := eq_of_smallLetters
    (p := fun c => Re.isSpace c || c == ':' || c == '=' || c == '-') (by decide)
  have hprice := eq_of_smallLetters (p := fun c => Re.isDigit c || c == '.' || c == ',') (by decide)
  exact ⟨⟨blind_word "tp", ⟨blind_word "take", isSpace_toUpper, blind_word "profit"⟩,
    blind_word "t", isSpace_toUpper, blind_word "p"⟩, isSpace_toUpper,
    Re.blind_many1 isDigit_toUpper, hseparator, Re.blind_many1 hprice⟩

theorem extractValue_map (cfg : PatternConfig) (text : List Char) :
    extractValue cfg (text.map Char.toUpper) =
      (extractValue cfg text).map (List.map Char.toUpper) := by
  have hvalue : (Re.many1 fun c => !Re.isSpace c).Blind Char.toUpper := by
    apply Re.blind_many1
    intro c
    rw [isSpace_toUpper]
  rw [extractValue, extractValue, Re.find_map (blind_keywordPattern cfg hvalue), Option.map_map,
    Option.map_map]
  congr 1
  funext m
  simp only [Function.comp_apply, Hit.submatch_map, trimSpace_map]

private theorem firstWord_map (text : List Char) :
    firstWord (text.map Char.toUpper) = (firstWord text).map Char.toUpper := by
  have hword : ∀ c : Char, (!Re.isWord c.toUpper) = !Re.isWord c := by
    intro c
    rw [isWord_toUpper]
  have hspace : ∀ c : Char, (!Re.isSpace c.toUpper) = !Re.isSpace c := by
    intro c
    rw [isSpace_toUpper]
  rw [firstWord, firstWord, List.dropWhile_map, comp_toUpper hword, List.takeWhile_map,
    comp_toUpper hspace, trimSpace_map]

namespace Parser

variable (p : Parser)

/-! ### Prices -/

private theorem numericText_map (cfg : PatternConfig) (val : List Char) (symbol : String) :
    p.numericText cfg (val.map Char.toUpper) symbol =
      (p.numericText cfg val symbol).map Char.toUpper := by
  simp (disch := decide) only [numericText, replace_map, ← apply_ite (List.map Char.toUpper)]

private theorem extractNumeric_map (cfg : PatternConfig) (text : List Char) (symbol : String) :
    p.extractNumeric cfg (text.map Char.toUpper) symbol = p.extractNumeric cfg text symbol := by
  rw [extractNumeric, extractNumeric, extractValue_map]
  cases extractValue cfg text with
  | none => rfl
  | some val =>
      cases val with
      | nil => rfl
      | cons c rest =>
          have hnumber : parseFloat (p.numericText cfg (c.toUpper :: rest.map Char.toUpper) symbol) =
              parseFloat (p.numericText cfg (c :: rest) symbol) := by
            rw [← List.map_cons, numericText_map, parseFloat_map]
          simp only [Option.map_some, List.map_cons, hnumber]

private theorem priceOf_map (component : String) (text : List Char) (symbol : String) :
    p.priceOf component (text.map Char.toUpper) symbol = p.priceOf component text symbol := by
  simp only [priceOf, extractNumeric_map]

private theorem textOf_map (component : String) (text : List Char) :
    toUpper (p.textOf component (text.map Char.toUpper)) = toUpper (p.textOf component text) := by
  have hvalue : p.textOf component (text.map Char.toUpper) =
      (p.textOf component text).map Char.toUpper := by
    simp only [textOf, extractValue_map]
    cases p.patterns component with
    | none => rfl
    | some cfg =>
        show ((extractValue cfg text).map _).getD [] = ((extractValue cfg text).getD []).map _
        cases extractValue cfg text <;> rfl
  rw [hvalue, toUpper_map]

/-! ### Targets -/

private theorem cleanNumericString_map (raw : List Char) (symbol : String) :
    p.cleanNumericString (raw.map Char.toUpper) symbol =
      (p.cleanNumericString raw symbol).map Char.toUpper := by
  have hdigit := eq_of_smallLetters (p := fun c => Re.isDigit c || c == '.' || c == '-') (by decide)
  simp (disch := decide) only [cleanNumericString, replace_map]
  rw [← apply_ite (List.map Char.toUpper), List.filter_map, comp_toUpper hdigit]

theorem trimmed_map (parts : List (List Char)) :
    ((parts.map (List.map Char.toUpper)).map trimSpace).filter (· ≠ []) =
      ((parts.map trimSpace).filter (· ≠ [])).map (List.map Char.toUpper) := by
  have htrim : trimSpace ∘ List.map Char.toUpper = List.map Char.toUpper ∘ trimSpace := by
    ext1 part
    exact trimSpace_map part
  have hblank : (fun part : List Char => decide (part ≠ [])) ∘ List.map Char.toUpper =
      fun part => decide (part ≠ []) := by
    ext part
    simp
  rw [List.map_map, htrim, ← List.map_map, List.filter_map, hblank]

private theorem listParts_map (listStr : List Char) :
    listParts (listStr.map Char.toUpper) = (listParts listStr).map (List.map Char.toUpper) := by
  have hdelimiter : listDelimiter.Blind Char.toUpper := Re.blind_many1 <| eq_of_smallLetters
    (p := fun c => c == ';' || Re.isSpace c || c == '/' || c == '|') (by decide)
  rw [listParts, listParts, trimSpace_map, Re.split_map hdelimiter, trimmed_map]

private theorem splitOn_map {d : Char} (hlower : d.isLower = false) (hupper : d.isUpper = false)
    (text : List Char) :
    (text.map Char.toUpper).splitOn d = (text.splitOn d).map (List.map Char.toUpper) := by
  have hd : ∀ c : Char, (c.toUpper == d) = (c == d) := by
    intro c
    rw [Bool.eq_iff_iff, beq_iff_eq, beq_iff_eq, toUpper_eq_iff hlower hupper]
  induction text with
  | nil => rfl
  | cons c rest ih =>
      rw [List.map_cons, List.splitOn_cons_eq_if_modifyHead, List.splitOn_cons_eq_if_modifyHead, hd,
        ih]
      split
      · rfl
      · cases rest.splitOn d <;> rfl

private theorem splitPart_map (part : List Char) :
    splitPart (part.map Char.toUpper) = (splitPart part).map (List.map Char.toUpper) := by
  have hmem : ∀ {d : Char}, d.isLower = false → d.isUpper = false →
      (d ∈ part.map Char.toUpper ↔ d ∈ part) := by
    intro d hlower hupper
    simp only [List.mem_map, toUpper_eq_iff hlower hupper, exists_eq_right]
  simp only [splitPart, hmem (show ','.isLower = false from rfl) rfl,
    hmem (show '.'.isLower = false from rfl) rfl]
  split
  · rw [splitOn_map rfl rfl, trimmed_map]
  · rw [replace_map rfl rfl rfl, List.map_singleton]

private theorem parseNumberList_map (listStr : List Char) (symbol : String) :
    p.parseNumberList (listStr.map Char.toUpper) symbol =
      (p.parseNumberList listStr symbol).map (List.map Char.toUpper) := by
  have hparts : ∀ parts : List (List Char),
      (parts.map (List.map Char.toUpper)).flatMap splitPart =
        (parts.flatMap splitPart).map (List.map Char.toUpper) := by
    intro parts
    rw [List.flatMap_map, List.map_flatMap]
    exact List.flatMap_congr fun part _ => splitPart_map part
  have hpoint : replace ',' ['.'] ∘ List.map Char.toUpper =
      List.map Char.toUpper ∘ replace ',' ['.'] := by
    ext1 part
    exact replace_map rfl rfl (by decide) part
  rw [parseNumberList, parseNumberList, listParts_map, hparts, trimmed_map, List.map_map, hpoint,
    ← List.map_map, ← apply_ite (List.map (List.map Char.toUpper))]

private theorem addIndexed_map (symbol : String) (levels : LevelMap) (m : Hit) :
    p.addIndexed symbol levels (m.map Char.toUpper) = p.addIndexed symbol levels m := by
  simp only [addIndexed, Hit.submatch_map, atoi_map, cleanNumericString_map, parseFloat_map]

private theorem addToken_map (symbol : String) (state : LevelMap × Int) (token : List Char) :
    p.addToken symbol state (token.map Char.toUpper) = p.addToken symbol state token := by
  simp only [addToken, parseFloat_map]

private theorem addSection_map (symbol : String) (levels : LevelMap) (m : Hit) :
    p.addSection symbol levels (m.map Char.toUpper) = p.addSection symbol levels m := by
  simp only [addSection, Hit.submatch_map, parseNumberList_map, List.foldl_map, addToken_map]

private theorem levelMap_map {cfg : PatternConfig} (hindex : ∀ re ∈ cfg.withIndex, ∀ text,
      re.findAll (text.map Char.toUpper) = (re.findAll text).map (Hit.map Char.toUpper))
    (text : List Char) (symbol : String) :
    p.levelMap cfg (text.map Char.toUpper) symbol = p.levelMap cfg text symbol := by
  have hlist : (listPattern cfg).Blind Char.toUpper := by
    apply blind_keywordPattern
    exact eq_of_smallLetters (p := fun c => c != '.' && c != '\n' && c != '\r') (by decide)
  have hindexed : indexedLevels p cfg (text.map Char.toUpper) symbol =
      indexedLevels p cfg text symbol := by
    unfold indexedLevels
    cases hre : cfg.withIndex with
    | none => rfl
    | some re => simp only [hindex re hre, List.foldl_map, addIndexed_map]
  rw [levelMap_eq, levelMap_eq, hindexed, Re.findAll_map hlist]
  simp only [List.foldl_map, addSection_map]

end Parser

/-! ### The symbol -/

theorem mapping_capitals : ∀ pair ∈ symbolConfig.symbolMapping,
    (∀ c ∈ pair.1.toList, c.isLower = false) ∧ ∀ c ∈ pair.2.toList, c.isLower = false := by
  decide +kernel

private theorem normalizeSymbol_self {w : List Char} {c : Char} (hc : c ∈ w) (hlower : c.isLower = true) :
    normalizeSymbol (String.ofList w) symbolConfig = String.ofList w := by
  unfold normalizeSymbol
  cases hlookup : symbolConfig.symbolMapping.lookup (String.ofList w) with
  | none => rfl
  | some image =>
      have hcapital := (mapping_capitals _ (mem_of_lookup hlookup)).1 c
        (by rwa [String.toList_ofList])
      rw [hlower] at hcapital
      cases hcapital

private theorem normalizeSymbol_capitals {w : List Char} (hw : ∀ c ∈ w, c.isLower = false) :
    ∀ c ∈ (normalizeSymbol (String.ofList w) symbolConfig).toList, c.isLower = false := by
  unfold normalizeSymbol
  cases hlookup : symbolConfig.symbolMapping.lookup (String.ofList w) with
  | none =>
      rw [Option.getD_none, String.toList_ofList]
      exact hw
  | some image =>
      exact (mapping_capitals _ (mem_of_lookup hlookup)).2

private theorem normalizeSymbol_map_iff (w : List Char) :
    normalizeSymbol (String.ofList w) symbolConfig =
        normalizeSymbol (String.ofList (w.map Char.toUpper)) symbolConfig ↔
      ∀ c ∈ w, c.isLower = false := by
  have hcapitals : ∀ c ∈ w.map Char.toUpper, c.isLower = false := by
    intro c hc
    obtain ⟨d, -, rfl⟩ := List.mem_map.mp hc
    exact isLower_toUpper d
  constructor
  · intro hsame c hc
    by_contra hlower
    have hlower : c.isLower = true := by
      simpa using hlower
    have hself := normalizeSymbol_self hc hlower
    have himage := normalizeSymbol_capitals hcapitals c
    rw [← hsame, hself, String.toList_ofList] at himage
    exact absurd (himage hc) (by simp [hlower])
  · intro hw
    have hself : w.map Char.toUpper = w.map id :=
      List.map_congr_left fun c hc => toUpper_of_not_isLower (hw c hc)
    rw [hself, List.map_id]

private theorem symbolOf_map_iff (text : List Char) :
    shippedParser.symbolOf text = shippedParser.symbolOf (text.map Char.toUpper) ↔
      ∀ c ∈ firstWord text, c.isLower = false := by
  have hwordless : (∀ c ∈ text.map Char.toUpper, Re.isWord c = false) ↔
      ∀ c ∈ text, Re.isWord c = false := by
    simp only [List.forall_mem_map, isWord_toUpper]
  rw [symbolOf_eq, symbolOf_eq]
  by_cases hnone : ∀ c ∈ text, Re.isWord c = false
  · have hempty : firstWord text = [] := by
      have hdrop : (text.dropWhile fun c => !Re.isWord c) = [] := by
        apply List.dropWhile_eq_nil_iff.mpr
        intro c hc
        rw [hnone c hc, Bool.not_false]
      rw [firstWord, hdrop]
      rfl
    rw [if_pos hnone, if_pos (hwordless.mpr hnone), hempty]
    exact iff_of_true rfl (List.forall_mem_nil _)
  · rw [if_neg hnone, if_neg (mt hwordless.mp hnone), firstWord_map, normalizeSymbol_map_iff]

/-! ### The whole signal -/

/-- The same signal, its targets in any order. -/
structure SameSignal (a b : ParsedSignal) : Prop where
  symbol : a.symbol = b.symbol
  action : a.action = b.action
  orderType : a.orderType = b.orderType
  entryPrice : a.entryPrice = b.entryPrice
  stopLoss : a.stopLoss = b.stopLoss
  takeProfit : a.takeProfit.Perm b.takeProfit
  confidence : a.confidence = b.confidence

private theorem confidence_of_perm {symbol action : String} {entryPrice stopLoss : F64}
    {takeProfit takeProfit' : List TakeProfitLevel} (h : takeProfit.Perm takeProfit') :
    Parser.confidence symbol action entryPrice stopLoss takeProfit =
      Parser.confidence symbol action entryPrice stopLoss takeProfit' := by
  have hempty : takeProfit ≠ [] ↔ takeProfit' ≠ [] := not_congr
    ⟨fun hnil => List.perm_nil.mp (hnil ▸ h.symm), fun hnil => List.perm_nil.mp (hnil ▸ h)⟩
  simp only [Parser.confidence, hempty]

section Signals

variable {rangeOrder rangeOrder' : Parser.LevelMap → Parser.LevelMap} {text : List Char}

private theorem levelMap_takeProfit_map (text : List Char) (symbol : String) :
    shippedParser.levelMap takeProfitConfig (text.map Char.toUpper) symbol =
      shippedParser.levelMap takeProfitConfig text symbol := by
  apply Parser.levelMap_map
  intro re hre
  rw [← Option.some.inj hre]
  exact Re.findAll_map blind_indexedTarget

theorem parse_map (hsymbol : shippedParser.symbolOf text =
    shippedParser.symbolOf (text.map Char.toUpper)) :
    shippedParser.parse rangeOrder (text.map Char.toUpper) = shippedParser.parse rangeOrder text := by
  have hconfig : shippedParser.patterns "take_profit" = some takeProfitConfig := by rfl
  have htargets : ∀ symbol, shippedParser.targetsOf rangeOrder (text.map Char.toUpper) symbol =
      shippedParser.targetsOf rangeOrder text symbol := by
    intro symbol
    simp only [Parser.targetsOf, hconfig, Parser.extractTakeProfit, levelMap_takeProfit_map]
  simp only [Parser.parse, ← hsymbol, Parser.textOf_map, Parser.priceOf_map, htargets]

private theorem sameSignal_parse (hrange : ∀ levels, (rangeOrder levels).Perm levels)
    (hrange' : ∀ levels, (rangeOrder' levels).Perm levels) (text : List Char) :
    SameSignal (shippedParser.parse rangeOrder text) (shippedParser.parse rangeOrder' text) := by
  have hconfig : shippedParser.patterns "take_profit" = some takeProfitConfig := by rfl
  have hperm : ∀ symbol, (shippedParser.targetsOf rangeOrder text symbol).Perm
      (shippedParser.targetsOf rangeOrder' text symbol) := by
    intro symbol
    simp only [Parser.targetsOf, hconfig]
    exact (Parser.perm_extractTakeProfit hrange).trans (Parser.perm_extractTakeProfit hrange').symm
  exact ⟨rfl, rfl, rfl, rfl, rfl, hperm _, confidence_of_perm (hperm _)⟩

/-- A text and the text in capitals give the same signal exactly if the first word, which is taken for
the symbol, has no small letters. -/
theorem same_in_capitals_iff (hrange : ∀ levels, (rangeOrder levels).Perm levels)
    (hrange' : ∀ levels, (rangeOrder' levels).Perm levels)
    (hascii : ∀ c ∈ text, c.toNat < 128) :
    (SameSignal (shippedParser.parse rangeOrder text)
        (shippedParser.parse rangeOrder' (toUpper text)) ↔
      ∀ c ∈ firstWord text, c.isLower = false) ∧
    (shippedParser.parse rangeOrder text = shippedParser.parse rangeOrder (toUpper text) ↔
      ∀ c ∈ firstWord text, c.isLower = false) := by
  rw [toUpper_of_ascii hascii, ← symbolOf_map_iff]
  constructor
  · constructor
    · exact SameSignal.symbol
    · intro hsymbol
      rw [parse_map hsymbol]
      exact sameSignal_parse hrange hrange' text
  · constructor
    · exact congrArg ParsedSignal.symbol
    · exact fun hsymbol => (parse_map hsymbol).symm

end Signals

theorem same_in_capitals_iff_buyGold :
    (∀ c ∈ "GOLD buy at 2350.5".toList, c.toNat < 128) ∧
    shippedParser.parse id "GOLD buy at 2350.5".toList =
      shippedParser.parse id (toUpper "GOLD buy at 2350.5".toList) := by
  have hascii : ∀ c ∈ "GOLD buy at 2350.5".toList, c.toNat < 128 := by decide
  have hcapitals : ∀ c ∈ firstWord "GOLD buy at 2350.5".toList, c.isLower = false := by decide
  exact ⟨hascii, (same_in_capitals_iff (fun _ => .refl _) (fun _ => .refl _) hascii).2.mpr hcapitals⟩

/-- The symbol of a text in small letters is not looked up. -/
theorem small_symbol_kept :
    (shippedParser.parse id "gold buy at 2350.5".toList).symbol = "gold" ∧
    (shippedParser.parse id (toUpper "gold buy at 2350.5".toList)).symbol = "XAUUSD" ∧
    ¬ SameSignal (shippedParser.parse id "gold buy at 2350.5".toList)
      (shippedParser.parse id (toUpper "gold buy at 2350.5".toList)) := by
  have hsmall : (shippedParser.parse id "gold buy at 2350.5".toList).symbol = "gold" := by
    decide +kernel
  have hcapital : (shippedParser.parse id (toUpper "gold buy at 2350.5".toList)).symbol =
      "XAUUSD" := by
    decide +kernel
  refine ⟨hsmall, hcapital, fun h => ?_⟩
  have hsame := h.symbol
  rw [hsmall, hcapital] at hsame
  exact absurd hsame (by decide)

end SphereFx.Extractor
