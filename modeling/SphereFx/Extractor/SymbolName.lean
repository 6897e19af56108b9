import SphereFx.Extractor.Canonical

/-!
# The symbol of a text

The file of the symbol has a pattern with all known names, but the parser never uses it. Its keyword is
empty and it has no connectors, so the general pattern takes the first word of the text, whatever it is.
-/

namespace SphereFx.Extractor

open Text

attribute [local instance] decidableBAllChar

/-! ### The names -/

/-- The names of `regex_pattern` in `symbol.json`, in their order. -/
def symbolNames : List String :=
  ["XAUUSD", "GOLD", "XAGUSD", "SILVER", "EURUSD", "GBPUSD", "USDJPY", "USDCHF", "AUDUSD",
    "NZDUSD", "USDCAD", "EURGBP", "EURJPY", "GBPJPY", "AUDJPY", "NZDJPY", "CHFJPY", "EURAUD",
    "EURCAD", "GBPAUD", "GBPCAD", "AUDCAD", "AUDCHF", "CADCHF", "GBPCHF", "USDMXN", "USDTRY",
    "USDZAR", "USDSGD", "USDHKD", "USDCNY", "USDINR", "USDRUB", "USDNOK", "USDSEK", "USDDKK",
    "EURCHF", "EURSEK", "EURNOK", "EURDKK", "GBPNOK", "GBPSEK", "NOKSEK", "BTCUSD", "ETHUSD",
    "LTCUSD", "XRPUSD", "BCHUSD", "USDTUSD", "BNBUSD", "ADAUSD", "DOTUSD", "SOLUSD", "AVAXUSD",
    "MATICUSD", "LINKUSD", "UNIUSD", "ATOMUSD", "FTMUSD", "NEARUSD", "ARBUSD", "APTUSD", "OPUSD",
    "DOGEUSD", "SHIBUSD", "PEPEUSD", "WLDUSD", "SUIUSD", "SEIUSD", "INJUSD", "RUNUSD", "STXUSD",
    "FILUSD", "AAVEUSD", "MKRUSD", "COMPUSD", "CRVUSD", "SNXUSD", "ZECUSD", "XLMUSD", "ALGOUSD",
    "VETUSD", "ICPUSD", "ETCUSD", "XMRUSD", "DASHUSD", "ZILUSD", "QTUMUSD", "ONTUSD", "NEOUSD",
    "WAVESUSD", "EOSUSD", "TRXUSD", "BNBUSDT", "BTCUSDT", "ETHUSDT", "NAS100", "US30", "US500",
    "SPX500", "UK100", "GER40", "FRA40", "JPN225", "AUS200", "HK50", "CHINA50", "TWIX",
    "STOXX50E", "IT40", "SPAIN35", "SWISS20", "NZ50", "SG20", "INDIA50", "BRAZIL50", "MEXICO35",
    "RUSSIA50", "NIFTY50", "SENSEX", "KOSPI200", "TAIEX", "HANG_SENG", "S&P500", "DOW", "NASDAQ",
    "FTSE100", "DAX", "CAC40", "NIKKEI225", "ASX200", "HSI", "CSI300", "DJIA", "VIX"]

/-- A text in the case it is written in. -/
def exactly (text : String) : Re := Re.literal (· == ·) text.toList

/-- `\b(names)\b`. -/
def symbolPattern : Re :=
  .seq .boundary (.seq (.group 1 (Re.alts (symbolNames.map exactly))) .boundary)

/-- The leftmost match of the names. -/
def namedSymbol (text : List Char) : Option String :=
  (symbolPattern.find text).map fun h => String.ofList h.taken

/-- The word at the first word boundary, without white space at its end. -/
def firstWord (text : List Char) : List Char :=
  trimSpace ((text.dropWhile fun c => !Re.isWord c).takeWhile fun c => !Re.isSpace c)

theorem names_chars : ∀ name ∈ symbolNames, 2 ≤ name.toList.length ∧
    (name = "S&P500" ∨ ∀ c ∈ name.toList, Re.isWord c = true) := by
  decide +kernel

private theorem names_images : ∀ pair ∈ symbolConfig.symbolMapping, pair.2 ∈ symbolNames := by
  decide +kernel

theorem isWhite_of_isWord {c : Char} (h : Re.isWord c = true) : isWhite c = false := by
  have hrange : (97 ≤ c.toNat ∧ c.toNat ≤ 122) ∨ (65 ≤ c.toNat ∧ c.toNat ≤ 90) ∨
      (48 ≤ c.toNat ∧ c.toNat ≤ 57) ∨ c.toNat = 95 := by
    simp only [Re.isWord, Bool.or_eq_true, Bool.and_eq_true, decide_eq_true_eq, beq_iff_eq] at h
    rcases h with ((h | h) | h) | rfl
    · exact Or.inl ⟨h.1, h.2⟩
    · exact Or.inr (Or.inl ⟨h.1, h.2⟩)
    · exact Or.inr (Or.inr (Or.inl ⟨h.1, h.2⟩))
    · decide
  rw [Bool.eq_false_iff]
  intro hwhite
  simp only [isWhite, Bool.or_eq_true, Bool.and_eq_true, decide_eq_true_eq, beq_iff_eq] at hwhite
  omega

/-! ### A match is a name -/

private theorem last_of_name {name : String} (h : name ∈ symbolNames) (before : Option Char) :
    (Re.lastOr before name.toList).any Re.isWord = true := by
  obtain ⟨hlength, hchars⟩ := names_chars name h
  have hne : name.toList ≠ [] := by
    intro hempty
    rw [hempty] at hlength
    exact absurd hlength (by decide)
  rw [Re.lastOr, List.getLast?_eq_some_getLast hne, Option.some_or, Option.any_some]
  rcases hchars with rfl | hchars
  · decide +revert
  · exact hchars _ (List.getLast_mem hne)

theorem boundary_after_name {name : String} (h : name ∈ symbolNames) (before : Option Char)
    (rest : List Char) : Re.atBoundary (Re.lastOr before name.toList) rest.head? = true ↔
      ∀ c ∈ rest.head?, Re.isWord c = false := by
  rw [Re.atBoundary, last_of_name h]
  cases rest with
  | nil => exact iff_of_true rfl fun c hc => by cases hc
  | cons c more =>
      rw [List.head?_cons, Option.any_some]
      constructor
      · intro hboundary d hd
        rw [← Option.some.inj hd]
        cases hword : Re.isWord c with
        | false => rfl
        | true =>
            rw [hword] at hboundary
            cases hboundary
      · intro hnone
        rw [hnone c rfl]
        rfl

/-- A match is one of the names, and does not end inside a word. -/
theorem name_of_hit {before : Option Char} {place : List Char} {h : Hit}
    (hmem : h ∈ symbolPattern.run before place) : ∃ name ∈ symbolNames, h.taken = name.toList ∧
      place = name.toList ++ h.rest ∧ ∀ c ∈ h.rest.head?, Re.isWord c = false := by
  have hplace := Re.eq_append_of_mem_run hmem
  obtain ⟨first, hfirst, hmap⟩ := List.mem_flatMap.mp hmem
  obtain ⟨second, hsecond, rfl⟩ := List.mem_map.mp hmap
  have hempty : ∀ {before : Option Char} {text : List Char} {k : Hit},
      k ∈ Re.boundary.run before text → k = ⟨[], text, []⟩ ∧
        Re.atBoundary before text.head? = true := by
    intro before text k hk
    rw [Re.run] at hk
    split at hk
    · exact ⟨List.mem_singleton.mp hk, by assumption⟩
    · cases hk
  obtain ⟨rfl, -⟩ := hempty hfirst
  obtain ⟨third, hthird, hmap⟩ := List.mem_flatMap.mp hsecond
  obtain ⟨last, hlast, rfl⟩ := List.mem_map.mp hmap
  obtain ⟨rfl, hboundary⟩ := hempty hlast
  obtain ⟨inner, hinner, rfl⟩ := List.mem_map.mp hthird
  obtain ⟨r, hr, hinner⟩ := (Re.mem_run_alts (by decide)).mp hinner
  obtain ⟨name, hname, rfl⟩ := List.mem_map.mp hr
  have htaken : inner.taken = name.toList := by
    have hletters : List.Forall₂ Eq name.toList inner.taken :=
      (Re.mem_run_literal hinner).imp fun _ _ hsame => beq_iff_eq.mp hsame
    rw [List.forall₂_eq_eq_eq] at hletters
    exact hletters.symm
  have hall : [] ++ (inner.taken ++ []) = name.toList := by
    rw [List.nil_append, List.append_nil, htaken]
  refine ⟨name, hname, hall, hall ▸ hplace, ?_⟩
  have hafter : Re.atBoundary (Re.lastOr (Re.lastOr before []) inner.taken) inner.rest.head? = true :=
    hboundary
  rw [htaken] at hafter
  exact (boundary_after_name hname _ _).mp hafter

/-- Two names at one place that do not end inside a word are one name. -/
private theorem name_unique {x y : String} (hx : x ∈ symbolNames) (hy : y ∈ symbolNames)
    {rest rest' : List Char} (hplace : x.toList ++ rest = y.toList ++ rest')
    (hrest : ∀ c ∈ rest.head?, Re.isWord c = false)
    (hrest' : ∀ c ∈ rest'.head?, Re.isWord c = false) : x.toList = y.toList := by
  -- What one name has beyond the other begins with a character of a word.
  have hbeyond : ∀ {x y : String}, x ∈ symbolNames → y ∈ symbolNames → ∀ {c : Char} {more : List Char},
      y.toList = x.toList ++ c :: more → Re.isWord c = true := by
    intro x y hx hy c more hlonger
    obtain ⟨hlength, hchars⟩ := names_chars x hx
    rcases (names_chars y hy).2 with rfl | hword
    · rcases hchars with rfl | hword
      · have hsame := congrArg List.length hlonger
        rw [List.length_append, List.length_cons] at hsame
        omega
      · obtain ⟨a, b, others, hletters⟩ : ∃ a b others, x.toList = a :: b :: others := by
          rcases hletters : x.toList with _ | ⟨a, _ | ⟨b, others⟩⟩
          · rw [hletters] at hlength
            cases hlength
          · rw [hletters, List.length_singleton] at hlength
            omega
          · exact ⟨a, b, others, rfl⟩
        have hsecond : "S&P500".toList = ['S', '&', 'P', '5', '0', '0'] := by decide
        rw [hsecond, hletters, List.cons_append, List.cons_append] at hlonger
        obtain rfl := (List.cons.inj (List.cons.inj hlonger).2).1
        have hand := hword '&' (by
          rw [hletters]
          exact List.mem_cons_of_mem a List.mem_cons_self)
        exact absurd hand (by decide)
    · apply hword c
      rw [hlonger]
      exact List.mem_append_right _ List.mem_cons_self
  rcases List.append_eq_append_iff.mp hplace with ⟨more, hlonger, hback⟩ | ⟨more, hlonger, hback⟩
  · cases more with
    | nil => rw [hlonger, List.append_nil]
    | cons c more =>
        have hplain := hrest c (by
          rw [hback]
          rfl)
        rw [hbeyond hx hy hlonger] at hplain
        cases hplain
  · cases more with
    | nil => rw [hlonger, List.append_nil]
    | cons c more =>
        have hplain := hrest' c (by
          rw [hback]
          rfl)
        rw [hbeyond hy hx hlonger] at hplain
        cases hplain

/-- A name at a word boundary is the match there. -/
private theorem head_run_name {name : String} (hname : name ∈ symbolNames) {before : Option Char}
    (hbefore : before.any Re.isWord = false) (hfirst : ∀ c ∈ name.toList.head?, Re.isWord c = true)
    {rest : List Char} (hrest : ∀ c ∈ rest.head?, Re.isWord c = false) :
    ∃ h, (symbolPattern.run before (name.toList ++ rest)).head? = some h ∧ h.taken = name.toList := by
  obtain ⟨c, more, hletters⟩ : ∃ c more, name.toList = c :: more := by
    apply List.exists_cons_of_ne_nil
    intro hempty
    have hlength := (names_chars name hname).1
    rw [hempty] at hlength
    exact absurd hlength (by decide)
  have hstart : Re.atBoundary before (name.toList ++ rest).head? = true := by
    rw [Re.atBoundary, hbefore, hletters, List.cons_append, List.head?_cons, Option.any_some,
      hfirst c (hletters ▸ rfl)]
    rfl
  have hliteral : (⟨name.toList, rest, []⟩ : Hit) ∈ (Re.alts (symbolNames.map exactly)).run before
      (name.toList ++ rest) := by
    apply (Re.mem_run_alts (by decide)).mpr
    refine ⟨exactly name, List.mem_map_of_mem hname, ?_⟩
    have hself : List.Forall₂ (fun c d => (c == d) = true) name.toList name.toList :=
      List.forall₂_same.mpr fun c _ => beq_self_eq_true c
    rw [exactly, Re.run_literal hself]
    exact List.mem_singleton_self _
  have hend : Re.atBoundary (Re.lastOr before name.toList) rest.head? = true :=
    (boundary_after_name hname before rest).mpr hrest
  have hne : symbolPattern.run before (name.toList ++ rest) ≠ [] := by
    rw [symbolPattern, Re.run, Re.run, if_pos hstart, List.flatMap_singleton]
    intro hnil
    have hnil := List.map_eq_nil_iff.mp hnil
    rw [Re.run, Re.run, List.flatMap_map, List.flatMap_eq_nil_iff] at hnil
    have hlast := hnil _ hliteral
    rw [List.map_eq_nil_iff, Re.run] at hlast
    exact absurd (if_pos hend ▸ hlast) (List.cons_ne_nil _ _)
  obtain ⟨h, more, hrun⟩ := List.exists_cons_of_ne_nil hne
  refine ⟨h, by rw [hrun, List.head?_cons], ?_⟩
  obtain ⟨other, hother, htaken, hplace, hafter⟩ :=
    name_of_hit (hrun ▸ List.mem_cons_self : h ∈ symbolPattern.run before (name.toList ++ rest))
  rw [htaken, name_unique hname hother hplace hrest hafter]

/-! ### The first word -/

/-- A text with a word: what stands before it, the word, white space that the pattern takes with it, and
the rest. -/
theorem exists_firstWord {text : List Char} (h : ¬ ∀ c ∈ text, Re.isWord c = false) :
    ∃ front trail rest, text = front ++ (firstWord text ++ trail ++ rest) ∧
      (∀ c ∈ front, Re.isWord c = false) ∧ firstWord text ≠ [] ∧
      (∀ c ∈ (firstWord text).head?, Re.isWord c = true) ∧
      (∀ c ∈ firstWord text ++ trail, Re.isSpace c = false) ∧ (∀ c ∈ trail, isWhite c = true) ∧
      trimSpace (firstWord text ++ trail) = firstWord text ∧
      ∀ c ∈ rest.head?, Re.isSpace c = true := by
  obtain ⟨front, place, rfl, hfront, hplace⟩ := exists_stretch Re.isWord false text
  obtain ⟨c, more, rfl⟩ : ∃ c more, place = c :: more := by
    apply List.exists_cons_of_ne_nil
    rintro rfl
    apply h
    rwa [List.append_nil]
  obtain ⟨value, rest, hvalue, hspace, hrest⟩ := exists_stretch Re.isSpace false (c :: more)
  have hfirst : firstWord (front ++ c :: more) = trimSpace value := by
    have hdrop : (front ++ c :: more).dropWhile (fun c => !Re.isWord c) = c :: more :=
      dropWhile_stretch (by simpa using hfront) (by simpa using hplace)
    have htake : (value ++ rest).takeWhile (fun c => !Re.isSpace c) = value :=
      takeWhile_stretch (by simpa using hspace) (by simpa using hrest)
    rw [firstWord, hdrop, hvalue, htake]
  have hc : isWhite c = false := isWhite_of_isWord (hplace c rfl)
  have hne : value ≠ [] := by
    rintro rfl
    have hstop := hrest c (by rw [← List.nil_append rest, ← hvalue, List.head?_cons]; rfl)
    rw [isWhite_of_isSpace hstop] at hc
    cases hc
  have hhead : value.head? = some c := by
    rw [← List.head?_append_of_ne_nil value hne, ← hvalue, List.head?_cons]
  -- The word begins with a character of a word, so only its end is trimmed.
  obtain ⟨trail, hparts, htrail, hword, hstart⟩ := exists_trimSpace_of_head hne (by simpa [hhead] using hc)
  rw [hfirst]
  refine ⟨front, trail, rest, ?_, hfront, hword, ?_, ?_, htrail, congrArg trimSpace hparts.symm, hrest⟩
  · rw [← hparts, ← hvalue]
  · rw [hstart, hhead]
    exact hplace
  · rwa [← hparts]

/-- The symbol is the first word of the text, normalized. -/
theorem symbolOf_eq (text : List Char) : shippedParser.symbolOf text =
    if ∀ c ∈ text, Re.isWord c = false then ""
    else normalizeSymbol (String.ofList (firstWord text)) symbolConfig := by
  have hconfig : shippedParser.patterns "symbol" = some symbolConfig := by rfl
  split
  · rename_i hnone
    have hsearch : (keywordPattern symbolConfig (Re.many1 fun c => !Re.isSpace c)).search none text =
        none := Re.search_wordless_eq_none hnone
    simp only [Parser.symbolOf, hconfig, extractValue, Re.find, hsearch, Option.map_none]
  · rename_i hword
    obtain ⟨front, trail, rest, htext, hfront, hne, hhead, hspace, -, htrim, hrest⟩ :=
      exists_firstWord hword
    have hboundary : ∀ c ∈ (firstWord text ++ trail).head?, Re.isWord c = true := by
      rwa [List.head?_append_of_ne_nil _ hne]
    have hterms : symbolConfig.terms = [""] := rfl
    have hvalue := extractValue_of_boundary hterms rfl hfront
      (List.append_ne_nil_of_left_ne_nil hne trail) hboundary hspace hrest
    rw [← htext, htrim] at hvalue
    obtain ⟨c, more, hletters⟩ := List.exists_cons_of_ne_nil hne
    rw [hletters] at hvalue ⊢
    simp only [Parser.symbolOf, hconfig, hvalue]

/-! ### When it is the named one -/

private theorem mem_of_namedSymbol {text : List Char} {name : String} (h : namedSymbol text = some name) :
    name ∈ symbolNames := by
  obtain ⟨hit, hfind, rfl⟩ := Option.map_eq_some_iff.mp h
  obtain ⟨⟨skipped, found⟩, hsearch, rfl⟩ := Option.map_eq_some_iff.mp hfind
  obtain ⟨place, -, hrun⟩ := Re.search_eq_some hsearch
  obtain ⟨name, hname, htaken, -⟩ := name_of_hit hrun
  show String.ofList found.taken ∈ symbolNames
  rwa [htaken, String.ofList_toList]

private theorem namedSymbol_of_wordless {text : List Char} (h : ∀ c ∈ text, Re.isWord c = false) :
    namedSymbol text = none := by
  have hsearch : symbolPattern.search none text = none := Re.search_wordless_eq_none h
  rw [namedSymbol, Re.find, hsearch]
  rfl

/-- A first word that is a name is the leftmost match. -/
private theorem namedSymbol_of_firstWord {text : List Char} (h : ¬ ∀ c ∈ text, Re.isWord c = false)
    (hname : String.ofList (firstWord text) ∈ symbolNames) :
    namedSymbol text = some (String.ofList (firstWord text)) := by
  obtain ⟨front, trail, rest, htext, hfront, -, hhead, -, htrail, -, hrest⟩ := exists_firstWord h
  have hletters : (String.ofList (firstWord text)).toList = firstWord text := String.toList_ofList
  have hback : ∀ c ∈ (trail ++ rest).head?, Re.isWord c = false := by
    have hplain : ∀ c, isWhite c = true → Re.isWord c = false := by
      intro c hwhite
      rw [Bool.eq_false_iff]
      intro hword
      rw [isWhite_of_isWord hword] at hwhite
      cases hwhite
    intro c hc
    cases trail with
    | nil => exact hplain c (isWhite_of_isSpace (hrest c hc))
    | cons d more => exact hplain c (htrail c (Option.some.inj hc ▸ List.mem_cons_self))
  have hbefore : (Re.lastOr none front).any Re.isWord = false := Re.lastOr_between rfl hfront
  rw [← hletters] at hhead
  obtain ⟨hit, hrun, htaken⟩ := head_run_name hname hbefore hhead hback
  have hskip : ∀ a b, front = a ++ b → b ≠ [] → symbolPattern.run (Re.lastOr none a)
      (b ++ ((String.ofList (firstWord text)).toList ++ (trail ++ rest))) = [] :=
    Re.run_between_eq_nil hfront rfl _
  have hfind := Re.find_eq_some hskip hrun
  rw [hletters, ← List.append_assoc (firstWord text), ← htext] at hfind
  rw [namedSymbol, hfind, Option.map_some, htaken, String.ofList_toList]

/-- What `Parse` reports is the image of the leftmost name, or nothing if there is none. -/
def ReportsNamed (rangeOrder : Parser.LevelMap → Parser.LevelMap) (text : List Char) : Prop :=
  (shippedParser.parse rangeOrder text).symbol =
    match namedSymbol text with
    | none => ""
    | some name => normalizeSymbol name symbolConfig

private theorem normalizeSymbol_mem {name : String} (h : name ∈ symbolNames) :
    normalizeSymbol name symbolConfig ∈ symbolNames := by
  unfold normalizeSymbol
  cases hlookup : symbolConfig.symbolMapping.lookup name with
  | none => exact h
  | some image =>
      rw [Option.getD_some]
      exact names_images (name, image) (mem_of_lookup hlookup)

/-- The symbol is the named one exactly if the text has no word, or its first word is a name, or it is
one of the other words that the file maps to a symbol and the leftmost name has the same image. -/
theorem reports_named_iff (rangeOrder : Parser.LevelMap → Parser.LevelMap) (text : List Char) :
    ReportsNamed rangeOrder text ↔ (∀ c ∈ text, Re.isWord c = false) ∨
      String.ofList (firstWord text) ∈ symbolNames ∨
      ∃ name image, symbolConfig.symbolMapping.lookup (String.ofList (firstWord text)) = some image ∧
        namedSymbol text = some name ∧ normalizeSymbol name symbolConfig = image := by
  rw [ReportsNamed, Parser.parse_symbol, symbolOf_eq]
  by_cases hwordless : ∀ c ∈ text, Re.isWord c = false
  · rw [if_pos hwordless, namedSymbol_of_wordless hwordless]
    exact iff_of_true rfl (Or.inl hwordless)
  rw [if_neg hwordless, or_iff_right hwordless]
  by_cases hname : String.ofList (firstWord text) ∈ symbolNames
  · rw [namedSymbol_of_firstWord hwordless hname]
    exact iff_of_true rfl (Or.inl hname)
  rw [or_iff_right hname]
  constructor
  · intro h
    cases hfound : namedSymbol text with
    | none =>
        rw [hfound] at h
        have hne : String.ofList (firstWord text) ≠ "" := by
          obtain ⟨-, -, -, -, -, hne, -⟩ := exists_firstWord hwordless
          intro hempty
          exact hne (String.toList_ofList.symm.trans (congrArg String.toList hempty))
        exact absurd h (normalizeSymbol_ne_empty hne)
    | some name =>
        rw [hfound] at h
        have h : normalizeSymbol (String.ofList (firstWord text)) symbolConfig =
          normalizeSymbol name symbolConfig := h
        cases hlookup : symbolConfig.symbolMapping.lookup (String.ofList (firstWord text)) with
        | none =>
            -- A word that is not mapped is reported as it is, and the image of a name is a name.
            have hself : normalizeSymbol (String.ofList (firstWord text)) symbolConfig =
                String.ofList (firstWord text) := by
              rw [normalizeSymbol, hlookup, Option.getD_none]
            have himage := normalizeSymbol_mem (mem_of_namedSymbol hfound)
            rw [← h, hself] at himage
            exact absurd himage hname
        | some image =>
            rw [normalizeSymbol, hlookup, Option.getD_some] at h
            exact ⟨name, image, rfl, rfl, h.symm⟩
  · intro ⟨name, image, hlookup, hfound, himage⟩
    rw [hfound, normalizeSymbol, hlookup, Option.getD_some, ← himage]

/-- The first word is reported in place of the symbol. -/
theorem first_word_reported : namedSymbol "BUY EURUSD".toList = some "EURUSD" ∧
    (shippedParser.parse id "BUY EURUSD".toList).symbol = "BUY" ∧
    ¬ ReportsNamed id "BUY EURUSD".toList := by
  have hnamed : namedSymbol "BUY EURUSD".toList = some "EURUSD" := by decide +kernel
  have hsymbol : (shippedParser.parse id "BUY EURUSD".toList).symbol = "BUY" := by
    decide +kernel
  refine ⟨hnamed, hsymbol, fun h => ?_⟩
  rw [ReportsNamed, hsymbol, hnamed] at h
  exact absurd h (by decide +kernel)

end SphereFx.Extractor
