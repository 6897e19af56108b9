import SphereFx.Extractor.Decimals
import SphereFx.Extractor.Targets

/-!
# Keywords and connectors of the prices

The keywords of a component become one alternation in the order of the file, and so do its connectors.
The first that matches is taken, so a keyword or a connector with an earlier one at its start is never
reached, and what is left of it is read as the price.
-/

namespace SphereFx.Extractor

open Text

attribute [local instance] decidableBAllChar decidableBExChar decidableForallMemChar

/-! ### What a keyword and a connector leave -/

/-- The first word that a text may begin with, going by what is known of it, if it does. -/
def leading (words : List String) (known : List Char) : Option String :=
  (words.find? fun w => !Re.clash sameFold w.toList known).filter fun w =>
    Re.startsWith sameFold w.toList known

/-- What is left of the known beginning of a text after a keyword, and after a connector. -/
def afterTerm (cfg : PatternConfig) (known : List Char) : Option (List Char) :=
  (leading cfg.terms known).map fun term => (known.drop term.toList.length).dropWhile Re.isSpace

def afterMark (cfg : PatternConfig) (known : List Char) : Option (List Char) :=
  (leading cfg.connectors known).map fun mark => (known.drop mark.toList.length).dropWhile Re.isSpace

theorem exists_of_startsWith {word text : List Char} (h : Re.startsWith sameFold word text = true) :
    ∃ taken, text = taken ++ text.drop word.length ∧
      List.Forall₂ (fun c d => sameFold c d = true) word taken := by
  refine ⟨text.take word.length, (List.take_append_drop _ _).symm, ?_⟩
  induction word generalizing text with
  | nil => exact List.Forall₂.nil
  | cons c more ih =>
      cases text with
      | nil => cases h
      | cons d text =>
          rw [Re.startsWith, Bool.and_eq_true] at h
          exact List.Forall₂.cons h.1 (ih h.2)

theorem exists_of_leading {words : List String} {known : List Char} {w : String}
    (h : leading words known = some w) : ∃ front rest taken, words = front ++ w :: rest ∧
      (∀ earlier ∈ front, Re.clash sameFold earlier.toList known = true) ∧
      known = taken ++ known.drop w.toList.length ∧
      List.Forall₂ (fun c d => sameFold c d = true) w.toList taken := by
  obtain ⟨hfind, hstarts⟩ := Option.filter_eq_some_iff.mp h
  obtain ⟨-, front, rest, hwords, hfront⟩ := List.find?_eq_some_iff_append.mp hfind
  obtain ⟨taken, hknown, htaken⟩ := exists_of_startsWith hstarts
  refine ⟨front, rest, taken, hwords, fun earlier hearlier => ?_, hknown, htaken⟩
  have hclash := hfront earlier hearlier
  rwa [Bool.not_not] at hclash

private theorem head_run_leading {words : List String} {known : List Char} {w : String}
    (h : leading words known = some w) : ∃ taken, known = taken ++ known.drop w.toList.length ∧
      ∀ before more, ((Re.alts (words.map word)).run before (known ++ more)).head? =
        some ⟨taken, known.drop w.toList.length ++ more, []⟩ := by
  obtain ⟨front, rest, taken, rfl, hfront, hknown, htaken⟩ := exists_of_leading h
  refine ⟨taken, hknown, fun before more => ?_⟩
  rw [List.map_append, List.map_cons]
  apply Re.head_run_alts_append
  · intro r hr
    obtain ⟨earlier, hearlier, rfl⟩ := List.mem_map.mp hr
    exact Re.run_literal_eq_nil (Re.startsWith_of_clash (hfront earlier hearlier) more)
  · have hliteral := Re.run_literal htaken before (known.drop w.toList.length ++ more)
    rw [← List.append_assoc, ← hknown] at hliteral
    rw [word, hliteral, List.head?_cons]

/-- So is the leading connector; the empty one finds no white space left to take. -/
private theorem head_run_leadingConnector {words : List String} {known : List Char} {w : String}
    (h : leading words known = some w) (hne : known ≠ [])
    (hhead : ∀ c ∈ known.head?, Re.isSpace c = false) :
    ∃ taken, known = taken ++ known.drop w.toList.length ∧
      ∀ before more, ((Re.alts (words.map connector)).run before (known ++ more)).head? =
        some ⟨taken, known.drop w.toList.length ++ more, []⟩ := by
  obtain ⟨front, rest, taken, rfl, hfront, hknown, htaken⟩ := exists_of_leading h
  refine ⟨taken, hknown, fun before more => ?_⟩
  rw [List.map_append, List.map_cons]
  apply Re.head_run_alts_append
  · intro r hr
    obtain ⟨earlier, hearlier, rfl⟩ := List.mem_map.mp hr
    have hclash := hfront earlier hearlier
    have hnonblank : earlier ≠ "" := by
      intro hblank
      rw [hblank] at hclash
      cases hclash
    rw [connector, if_neg hnonblank]
    exact Re.run_literal_eq_nil (Re.startsWith_of_clash hclash more)
  · by_cases hblank : w = ""
    · rw [hblank] at htaken ⊢
      cases htaken
      rw [connector, if_pos rfl]
      have hstop : ∀ c ∈ (known ++ more).head?, Re.isSpace c = false := by
        rwa [List.head?_append_of_ne_nil _ hne]
      exact @Re.head_runMany Re.isSpace [] (known ++ more) (List.forall_mem_nil _) hstop
    · have hliteral := Re.run_literal htaken before (known.drop w.toList.length ++ more)
      rw [← List.append_assoc, ← hknown] at hliteral
      rw [connector, if_neg hblank, word, hliteral, List.head?_cons]

theorem spaces_append (text : List Char) : ∃ gap, text = gap ++ text.dropWhile Re.isSpace ∧
    ∀ c ∈ gap, Re.isSpace c = true :=
  ⟨_, List.takeWhile_append_dropWhile.symm, fun _ hc => List.mem_takeWhile_imp hc⟩

/-- The first keyword and the first connector that match are taken, and the word after them. -/
private theorem head_run_of_afterTerm {cfg : PatternConfig} {before : Option Char}
    {known mid left : List Char} (hboundary : Re.atBoundary before known.head? = true)
    (hafterTerm : afterTerm cfg known = some mid) (hafterMark : afterMark cfg mid = some left)
    (hne : left ≠ []) (more : List Char) :
    ∃ h, ((keywordPattern cfg (Re.many1 fun c => !Re.isSpace c)).run before (known ++ more)).head? =
      some h ∧ h.submatch 3 = (left ++ more).takeWhile fun c => !Re.isSpace c := by
  obtain ⟨term, hterm, hmid⟩ := Option.map_eq_some_iff.mp hafterTerm
  obtain ⟨mark, hmark, hrest⟩ := Option.map_eq_some_iff.mp hafterMark
  obtain ⟨keyword, hknown, hkeyword⟩ := head_run_leading hterm
  obtain ⟨gap, hback, hgap⟩ := spaces_append (known.drop term.toList.length)
  have hmidHead := @head_dropWhile _ Re.isSpace (known.drop term.toList.length)
  rw [hmid] at hback hmidHead
  generalize known.drop term.toList.length = back at hknown hkeyword hback
  obtain ⟨gap', hback', hgap'⟩ := spaces_append (mid.drop mark.toList.length)
  have hleftHead := @head_dropWhile _ Re.isSpace (mid.drop mark.toList.length)
  rw [hrest] at hback' hleftHead
  have hmidNe : mid ≠ [] := by
    intro hempty
    rw [hempty, List.drop_nil, List.dropWhile_nil] at hrest
    exact hne hrest.symm
  obtain ⟨sign, hmid, hsign⟩ := head_run_leadingConnector hmark hmidNe hmidHead
  generalize mid.drop mark.toList.length = back' at hrest hback' hmid hsign
  -- The text in the pieces that the pattern takes.
  obtain ⟨value, rest, hvalue, hword, hstop⟩ := exists_stretch Re.isSpace false (left ++ more)
  have htaken : (left ++ more).takeWhile (fun c => !Re.isSpace c) = value := by
    rw [hvalue]
    apply takeWhile_stretch
    · simpa using hword
    · simpa using hstop
  have hvalueNe : value ≠ [] := by
    obtain ⟨c, rest', rfl⟩ := List.exists_cons_of_ne_nil hne
    rw [← htaken, List.cons_append, List.takeWhile_cons, hleftHead c rfl]
    exact List.cons_ne_nil _ _
  have hleftText : gap' ++ (value ++ rest) = back' ++ more := by
    rw [← hvalue, ← List.append_assoc, ← hback']
  have hmidText : sign ++ (gap' ++ (value ++ rest)) = mid ++ more := by
    rw [hleftText, ← List.append_assoc, ← hmid]
  have hbackText : gap ++ (sign ++ (gap' ++ (value ++ rest))) = back ++ more := by
    rw [hmidText, ← List.append_assoc, ← hback]
  have htext : keyword ++ (gap ++ (sign ++ (gap' ++ (value ++ rest)))) = known ++ more := by
    rw [hbackText, ← List.append_assoc, ← hknown]
  have hknownNe : known ≠ [] := by
    rw [hknown, hback]
    exact List.append_ne_nil_of_right_ne_nil _ (List.append_ne_nil_of_right_ne_nil _ hmidNe)
  have hrun := @head_run_keywordPattern cfg (Re.many1 fun c => !Re.isSpace c) before keyword gap sign
    gap' value rest
  rw [htext, hbackText, hmidText, hleftText] at hrun
  rw [htaken]
  refine ⟨_, hrun ?_ (fun before => hkeyword before more) hgap ?_ (fun before => hsign before more)
    hgap' ?_ ?_, rfl⟩
  · rwa [List.head?_append_of_ne_nil _ hknownNe]
  · rwa [List.head?_append_of_ne_nil _ hmidNe]
  · rwa [← hvalue, List.head?_append_of_ne_nil _ hne]
  · intro before
    apply Re.head_run_many1 hvalueNe
    · intro c hc
      rw [hword c hc, Bool.not_false]
    · intro c hc
      rw [hstop c hc]
      rfl

/-! ### More of the text -/

private theorem clash_append {word text : List Char} (h : Re.clash sameFold word text = true)
    (more : List Char) : Re.clash sameFold word (text ++ more) = true := by
  induction word generalizing text with
  | nil => cases h
  | cons c rest ih =>
      cases text with
      | nil => cases h
      | cons d text =>
          rw [Re.clash, Bool.or_eq_true] at h
          rw [List.cons_append, Re.clash, Bool.or_eq_true]
          exact h.imp_right ih

theorem startsWith_append {word text : List Char} (h : Re.startsWith sameFold word text = true)
    (more : List Char) : Re.startsWith sameFold word (text ++ more) = true ∧
      Re.clash sameFold word (text ++ more) = false := by
  induction word generalizing text with
  | nil =>
      constructor
      · rfl
      · cases text ++ more <;> rfl
  | cons c rest ih =>
      cases text with
      | nil => cases h
      | cons d text =>
          rw [Re.startsWith, Bool.and_eq_true] at h
          obtain ⟨hstart, hclash⟩ := ih h.2
          rw [List.cons_append, Re.startsWith, Re.clash, h.1, hstart, hclash]
          exact ⟨rfl, rfl⟩

theorem leading_append {words : List String} {known : List Char} {w : String}
    (h : leading words known = some w) (more : List Char) : leading words (known ++ more) = some w := by
  obtain ⟨hfind, hstarts⟩ := Option.filter_eq_some_iff.mp h
  obtain ⟨-, front, rest, hwords, hfront⟩ := List.find?_eq_some_iff_append.mp hfind
  obtain ⟨hstart, hclash⟩ := startsWith_append hstarts more
  apply Option.filter_eq_some_iff.mpr
  refine ⟨List.find?_eq_some_iff_append.mpr ⟨?_, front, rest, hwords, fun e he => ?_⟩, hstart⟩
  · rw [hclash, Bool.not_false]
  · have hearlier := hfront e he
    rw [Bool.not_not] at hearlier ⊢
    exact clash_append hearlier more

theorem dropWhile_append_word {left : List Char} {d : Char} (hd : Re.isSpace d = false) :
    (left ++ [d]).dropWhile Re.isSpace = left.dropWhile Re.isSpace ++ [d] := by
  rw [List.dropWhile_append, List.dropWhile_cons_of_neg (by rw [hd]; decide)]
  split
  · rename_i hempty
    rw [List.isEmpty_iff.mp hempty, List.nil_append]
  · rfl

theorem length_le_of_leading {words : List String} {known : List Char} {w : String}
    (h : leading words known = some w) : w.toList.length ≤ known.length := by
  obtain ⟨-, -, taken, -, -, hknown, htaken⟩ := exists_of_leading h
  rw [htaken.length_eq, hknown, List.length_append]
  exact Nat.le_add_right _ _

theorem afterTerm_append {cfg : PatternConfig} {known mid : List Char} {d : Char}
    (h : afterTerm cfg known = some mid) (hd : Re.isSpace d = false) :
    afterTerm cfg (known ++ [d]) = some (mid ++ [d]) := by
  obtain ⟨term, hterm, rfl⟩ := Option.map_eq_some_iff.mp h
  rw [afterTerm, leading_append hterm, Option.map_some,
    List.drop_append_of_le_length (length_le_of_leading hterm), dropWhile_append_word hd]

private theorem afterMark_append {cfg : PatternConfig} {mid left : List Char} {d : Char}
    (h : afterMark cfg mid = some left) (hd : Re.isSpace d = false) :
    afterMark cfg (mid ++ [d]) = some (left ++ [d]) := by
  obtain ⟨mark, hmark, rfl⟩ := Option.map_eq_some_iff.mp h
  rw [afterMark, leading_append hmark, Option.map_some,
    List.drop_append_of_le_length (length_le_of_leading hmark), dropWhile_append_word hd]

/-! ### The pairs that are reached -/

/-- No word before this one is a beginning of it. -/
def Unshadowed (words : List String) (w : String) : Prop :=
  ∀ earlier ∈ words.takeWhile (· ≠ w), Re.startsWith sameFold earlier.toList w.toList = false

instance (words : List String) (w : String) : Decidable (Unshadowed words w) :=
  inferInstanceAs (Decidable (∀ earlier ∈ words.takeWhile (· ≠ w), _))

/-- The connector is white space, or no connector before it hides it. -/
def MarkReached (cfg : PatternConfig) (c : String) : Prop :=
  (∀ x ∈ c.toList, Re.isSpace x = true) ∨ Unshadowed cfg.connectors c

instance (cfg : PatternConfig) (c : String) : Decidable (MarkReached cfg c) :=
  inferInstanceAs (Decidable (_ ∨ _))

/-- The symbol does not begin with a keyword, the keyword can follow a word boundary, and neither it nor
its connector begins with an earlier one. -/
structure Reached (cfg : PatternConfig) (symbol t c : String) : Prop where
  symbol : ∀ term ∈ cfg.terms, Re.startsWith sameFold term.toList symbol.toList = false
  boundary : ∀ x ∈ t.toList.head?, Re.isWord x = true
  term : Unshadowed cfg.terms t
  mark : MarkReached cfg c

/-- The two components with one price. -/
def priceConfigs : List PatternConfig := [entryPriceConfig, stopLossConfig]

/-- `s t c v`. -/
def keywordText (symbol t c : String) (value : List Char) : List Char :=
  symbol.toList ++ ' ' :: (t.toList ++ ' ' :: (c.toList ++ ' ' :: value))

/-- The rest begins with a whole word that is no number. -/
def NoNumber (left : List Char) : Prop :=
  (∃ c ∈ left, Re.isSpace c = true) ∧
    parseFloat (left.takeWhile fun c => !Re.isSpace c) = none ∧
    ∀ c ∈ left.takeWhile fun c => !Re.isSpace c, isWhite c = false ∧ c ≠ ','

instance (left : List Char) : Decidable (NoNumber left) :=
  inferInstanceAs (Decidable (_ ∧ _ ∧ _))

/-- What the pattern makes of a keyword and a connector. -/
def scanned (cfg : PatternConfig) (t c : String) : Bool :=
  match afterTerm cfg (t.toList ++ ' ' :: (c.toList ++ [' '])) with
  | none => false
  | some [] => Unshadowed cfg.terms t ∧ MarkReached cfg c
  | some (x :: mid) =>
      match afterMark cfg (x :: mid) with
      | none => false
      | some left => if Unshadowed cfg.terms t ∧ MarkReached cfg c then left = [] else NoNumber left

private theorem scanned_all : ∀ cfg ∈ priceConfigs, ∀ t ∈ cfg.terms,
    (∀ x ∈ t.toList.head?, Re.isWord x = true) → ∀ c ∈ cfg.connectors, scanned cfg t c = true := by
  decide +kernel

private theorem afterMark_digit : ∀ cfg ∈ priceConfigs, ∀ d ∈ ".0123456789".toList,
    afterMark cfg [d] = some [d] := by
  decide +kernel

/-- What the pattern makes of a symbol. -/
def symbolScanned (cfg : PatternConfig) (symbol : String) : Bool :=
  if ∀ term ∈ cfg.terms, Re.clash sameFold term.toList (symbol.toList ++ [' ']) = true then true
  else
    match afterTerm cfg (symbol.toList ++ [' ']) with
    | none => false
    | some mid =>
        match afterMark cfg mid with
        | none => false
        | some left => NoNumber left ∧
            ∃ term ∈ cfg.terms, Re.startsWith sameFold term.toList symbol.toList = true

theorem symbolScanned_all : ∀ entry ∈ shippedRules, ∀ cfg ∈ priceConfigs,
    symbolScanned cfg entry.1 = true := by
  decide +kernel

/-! ### Whether a text is read -/

section Values

variable {cfg : PatternConfig} {symbol : String} {rule : SymbolRule}

theorem extractValue_of_afterTerm {front known mid left : List Char} (more : List Char)
    (hskip : ∀ a b, front = a ++ b → b ≠ [] →
      (keywordPattern cfg (Re.many1 fun c => !Re.isSpace c)).run (Re.lastOr none a)
        (b ++ (known ++ more)) = [])
    (hboundary : Re.atBoundary (Re.lastOr none front) known.head? = true)
    (hafterTerm : afterTerm cfg known = some mid) (hafterMark : afterMark cfg mid = some left)
    (hne : left ≠ []) : extractValue cfg (front ++ (known ++ more)) =
      some (trimSpace ((left ++ more).takeWhile fun c => !Re.isSpace c)) := by
  obtain ⟨h, hrun, hgroup⟩ := head_run_of_afterTerm hboundary hafterTerm hafterMark hne more
  rw [extractValue, Re.find_eq_some hskip hrun, Option.map_some, hgroup]

/-- A word that is no number gives no price. -/
theorem not_ok_of_noNumber (hcheck : cfg.validateAgainstSymbol = true)
    (hpoint : shippedParser.decimalSeparator symbol = ".") {left more text : List Char}
    (hleft : NoNumber left) (hval : extractValue cfg text =
      some (trimSpace ((left ++ more).takeWhile fun c => !Re.isSpace c))) (price : F64) :
    shippedParser.extractNumeric cfg text symbol ≠ .ok price := by
  obtain ⟨⟨c, hc, hspace⟩, hparse, hplain⟩ := hleft
  have htaken : (left ++ more).takeWhile (fun c => !Re.isSpace c) =
      left.takeWhile fun c => !Re.isSpace c := by
    rw [List.takeWhile_append, if_neg]
    intro hlength
    have hall := List.takeWhile_eq_self_iff.mp ((List.takeWhile_prefix _).eq_of_length hlength)
    have hnot := hall c hc
    rw [hspace] at hnot
    cases hnot
  rw [htaken, trimSpace_word fun c hc => (hplain c hc).1] at hval
  intro hok
  obtain ⟨val, hval', hreads, -⟩ := (Parser.extractNumeric_eq_ok hcheck).mp hok
  rw [← Option.some.inj (hval.symm.trans hval'), numericText_eq hpoint, hparse] at hreads
  · cases hreads
  · intro hc
    exact absurd (hplain ' ' hc).1 (by decide)
  · exact fun hc => (hplain ',' hc).2 rfl

/-- A symbol that begins with a keyword hides the rest of the text. -/
private theorem not_ok_of_symbol (hcfg : cfg ∈ priceConfigs) (hcheck : cfg.validateAgainstSymbol = true)
    (hrule : shippedRules.lookup symbol = some rule) {term : String} (hterm : term ∈ cfg.terms)
    (hstart : Re.startsWith sameFold term.toList symbol.toList = true) (back : List Char)
    (price : F64) :
    shippedParser.extractNumeric cfg (symbol.toList ++ ' ' :: back) symbol ≠ .ok price := by
  have hscan : symbolScanned cfg symbol = true :=
    symbolScanned_all _ (mem_of_lookup hrule) cfg hcfg
  have hclash : ¬ ∀ term ∈ cfg.terms,
      Re.clash sameFold term.toList (symbol.toList ++ [' ']) = true := fun h =>
    Bool.false_ne_true ((startsWith_append hstart [' ']).2.symm.trans (h term hterm))
  obtain ⟨hne, -⟩ := wordOver_symbol _ (mem_of_lookup hrule)
  have hne : symbol.toList ≠ [] := hne
  unfold symbolScanned at hscan
  rw [if_neg hclash] at hscan
  split at hscan
  · cases hscan
  rename_i mid hmid
  split at hscan
  · cases hscan
  rename_i left hleft
  have hnumber := (of_decide_eq_true hscan).1
  have hleftNe : left ≠ [] := by
    obtain ⟨c, hc, -⟩ := hnumber.1
    exact List.ne_nil_of_mem hc
  have hboundary : Re.atBoundary (Re.lastOr none []) (symbol.toList ++ [' ']).head? = true := by
    obtain ⟨c, rest, hsymbol⟩ := List.exists_cons_of_ne_nil hne
    have hword : Re.isWord c = true := by
      apply isWord_symbol (mem_of_lookup hrule) c
      rw [hsymbol]
      exact List.mem_cons_self
    rw [hsymbol]
    show (false != Re.isWord c) = true
    rw [hword]
    rfl
  have hval := extractValue_of_afterTerm back
    (fun a b hsplit hb => absurd (List.append_eq_nil_iff.mp hsplit.symm).2 hb) hboundary hmid hleft
    hleftNe
  rw [List.nil_append, List.append_assoc, List.singleton_append] at hval
  exact not_ok_of_noNumber hcheck (decimalSeparator_of_lookup hrule) hnumber hval price

/-- Otherwise no match starts in the symbol. -/
theorem skips_price_symbol (hcfg : cfg ∈ priceConfigs)
    (hrule : shippedRules.lookup symbol = some rule)
    (hsymbol : ∀ term ∈ cfg.terms, Re.startsWith sameFold term.toList symbol.toList = false)
    (value : Re) (back : List Char) : ∀ a b, symbol.toList ++ [' '] = a ++ b → b ≠ [] →
      (keywordPattern cfg value).run (Re.lastOr none a) (b ++ back) = [] := by
  have hscan : symbolScanned cfg symbol = true :=
    symbolScanned_all _ (mem_of_lookup hrule) cfg hcfg
  have hspace : ∀ cfg ∈ priceConfigs, ∀ term ∈ cfg.terms,
      Re.clash sameFold term.toList [' '] = true := by decide +kernel
  apply run_keyword_in_word (isWord_symbol (mem_of_lookup hrule)) _ (hspace cfg hcfg)
  unfold symbolScanned at hscan
  split at hscan
  · assumption
  split at hscan
  · cases hscan
  split at hscan
  · cases hscan
  obtain ⟨-, term, hterm, hstart⟩ := of_decide_eq_true hscan
  rw [hsymbol term hterm] at hstart
  cases hstart

theorem terms_ne : ∀ cfg ∈ priceConfigs, ∀ term ∈ cfg.terms, term ≠ "" := by
  decide

/-- A keyword that begins with a sign is not found after a space. -/
private theorem extractValue_of_sign (hcfg : cfg ∈ priceConfigs)
    (hrule : shippedRules.lookup symbol = some rule)
    (hsymbol : ∀ term ∈ cfg.terms, Re.startsWith sameFold term.toList symbol.toList = false)
    {t c : String} (ht : t ∈ cfg.terms) (hc : c ∈ cfg.connectors)
    (hsign : ¬ ∀ x ∈ t.toList.head?, Re.isWord x = true) (price : TargetPrice symbol) :
    extractValue cfg (keywordText symbol t c price.text) = none := by
  have hsigns : ∀ cfg ∈ priceConfigs, ∀ t ∈ cfg.terms,
      (¬ ∀ x ∈ t.toList.head?, Re.isWord x = true) → ∀ c ∈ cfg.connectors,
        ∀ x ∈ t.toList ++ ' ' :: (c.toList ++ [' ']), Re.isWord x = false := by decide +kernel
  have hdigits : ∀ cfg ∈ priceConfigs, ∀ term ∈ cfg.terms, ∀ x ∈ ".0123456789".toList,
      Re.clash sameFold term.toList [x] = true := by decide +kernel
  have htext : keywordText symbol t c price.text = (symbol.toList ++ [' ']) ++
      (t.toList ++ ' ' :: (c.toList ++ [' ']) ++ price.text) := by
    rw [keywordText]
    simp only [List.append_assoc, List.cons_append, List.nil_append]
  have hsearch : (keywordPattern cfg (Re.many1 fun c => !Re.isSpace c)).search none
      (keywordText symbol t c price.text) = none := by
    have hlast : Re.lastOr none (symbol.toList ++ [' ']) = some ' ' := by
      rw [Re.lastOr, List.getLast?_concat]
      rfl
    have hstretch : ∀ a b, t.toList ++ ' ' :: (c.toList ++ [' ']) = a ++ b → b ≠ [] →
        (keywordPattern cfg (Re.many1 fun c => !Re.isSpace c)).run (Re.lastOr (some ' ') a)
          (b ++ price.text) = [] :=
      Re.run_between_eq_nil (hsigns cfg hcfg t ht hsign c hc) rfl _
    rw [htext, Re.search_append (skips_price_symbol hcfg hrule hsymbol _ _), hlast,
      Re.search_append hstretch, search_gap_eq_none]
    · rfl
    · intro x hx before rest
      apply run_keywordPattern_eq_nil
      intro _ term hterm
      exact Re.startsWith_of_clash (hdigits cfg hcfg term hterm x (price.mem_text x hx)) rest
    · intro before
      apply run_keywordPattern_eq_nil
      intro _ term hterm
      obtain ⟨x, rest, hword⟩ : ∃ x rest, term.toList = x :: rest := by
        apply List.exists_cons_of_ne_nil
        exact fun hempty => terms_ne cfg hcfg term hterm (String.toList_eq_nil_iff.mp hempty)
      rw [hword]
      rfl
  rw [extractValue, Re.find, hsearch]
  rfl

/-- With the first character of a number, the pattern has taken what stands before the number or stops
at a word before it. -/
private theorem exists_left (hcfg : cfg ∈ priceConfigs) {t c : String} (hscan : scanned cfg t c = true)
    {d : Char} (hd : d ∈ ".0123456789".toList) : ∃ mid left,
      afterTerm cfg (t.toList ++ ' ' :: (c.toList ++ [' ']) ++ [d]) = some mid ∧
      afterMark cfg mid = some (left ++ [d]) ∧
      if Unshadowed cfg.terms t ∧ MarkReached cfg c then left = [] else NoNumber left := by
  have hplain : Re.isSpace d = false :=
    (show ∀ d ∈ ".0123456789".toList, Re.isSpace d = false by decide) d hd
  unfold scanned at hscan
  split at hscan
  · cases hscan
  · rename_i hmid
    refine ⟨_, [], afterTerm_append hmid hplain, afterMark_digit cfg hcfg d hd, ?_⟩
    rw [if_pos (of_decide_eq_true hscan)]
  · rename_i x mid hmid
    split at hscan
    · cases hscan
    rename_i left hleft
    refine ⟨_, left, afterTerm_append hmid hplain, afterMark_append hleft hplain, ?_⟩
    split at hscan
    · rename_i hreached
      rw [if_pos hreached]
      exact of_decide_eq_true hscan
    · rename_i hreached
      rw [if_neg hreached]
      exact of_decide_eq_true hscan

private theorem ok_of_price (hcheck : cfg.validateAgainstSymbol = true)
    (hpoint : shippedParser.decimalSeparator symbol = ".") {text : List Char}
    (price : TargetPrice symbol) (hval : extractValue cfg text = some price.text) :
    shippedParser.extractNumeric cfg text symbol = .ok price.price := by
  have hnone : ∀ c, c ∉ ".0123456789".toList → c ∉ price.text := fun c hc h => hc (price.mem_text c h)
  apply (Parser.extractNumeric_eq_ok hcheck).mpr
  refine ⟨price.text, hval, ?_, price.allowed⟩
  rw [numericText_eq hpoint (hnone ' ' (by decide)) (hnone ',' (by decide))]
  exact price.reads

end Values

/-- A price is read after a keyword and a connector exactly when they are reached. -/
theorem reads_keyword_iff {cfg : PatternConfig} (hcfg : cfg ∈ priceConfigs) {symbol : String}
    {rule : SymbolRule} (hrule : shippedRules.lookup symbol = some rule) {t c : String}
    (ht : t ∈ cfg.terms) (hc : c ∈ cfg.connectors) (price : TargetPrice symbol) :
    shippedParser.extractNumeric cfg (keywordText symbol t c price.text) symbol = .ok price.price ↔
      Reached cfg symbol t c := by
  have hchecks : ∀ cfg ∈ priceConfigs, cfg.validateAgainstSymbol = true := by decide
  have hcheck := hchecks cfg hcfg
  have hpoint := decimalSeparator_of_lookup hrule
  by_cases hsymbol : ∀ term ∈ cfg.terms, Re.startsWith sameFold term.toList symbol.toList = false
  case neg =>
    rw [not_forall₂] at hsymbol
    obtain ⟨term, hterm, hstart⟩ := hsymbol
    rw [Bool.not_eq_false] at hstart
    apply iff_of_false
    · exact not_ok_of_symbol hcfg hcheck hrule hterm hstart _ _
    · intro h
      rw [h.symbol term hterm] at hstart
      cases hstart
  by_cases hboundary : ∀ x ∈ t.toList.head?, Re.isWord x = true
  case neg =>
    apply iff_of_false
    · intro hok
      obtain ⟨val, hval, -⟩ := (Parser.extractNumeric_eq_ok hcheck).mp hok
      rw [extractValue_of_sign hcfg hrule hsymbol ht hc hboundary price] at hval
      cases hval
    · exact fun h => hboundary h.boundary
  have hreached : Reached cfg symbol t c ↔ Unshadowed cfg.terms t ∧ MarkReached cfg c :=
    ⟨fun h => ⟨h.term, h.mark⟩, fun h => ⟨hsymbol, hboundary, h.1, h.2⟩⟩
  -- The text is the symbol, what stands before the price with its first character, and the rest.
  obtain ⟨d, more, hprice⟩ := List.exists_cons_of_ne_nil price.text_ne_nil
  have hd : d ∈ ".0123456789".toList := by
    apply price.mem_text
    rw [hprice]
    exact List.mem_cons_self
  obtain ⟨mid, left, hmid, hleft, hcases⟩ :=
    exists_left hcfg (scanned_all cfg hcfg t ht hboundary c hc) hd
  have htext : keywordText symbol t c price.text = (symbol.toList ++ [' ']) ++
      (t.toList ++ ' ' :: (c.toList ++ [' ']) ++ [d] ++ more) := by
    rw [keywordText, hprice]
    simp only [List.append_assoc, List.cons_append, List.nil_append]
  have hplace : Re.atBoundary (Re.lastOr none (symbol.toList ++ [' ']))
      (t.toList ++ ' ' :: (c.toList ++ [' ']) ++ [d]).head? = true := by
    obtain ⟨x, rest, hword⟩ : ∃ x rest, t.toList = x :: rest := by
      apply List.exists_cons_of_ne_nil
      exact fun hempty => terms_ne cfg hcfg t ht (String.toList_eq_nil_iff.mp hempty)
    have hx := hboundary x (hword ▸ rfl)
    rw [Re.lastOr, List.getLast?_concat, hword]
    show (false != Re.isWord x) = true
    rw [hx]
    rfl
  have hval := extractValue_of_afterTerm more (skips_price_symbol hcfg hrule hsymbol _ _) hplace hmid
    hleft (List.append_ne_nil_of_right_ne_nil _ (List.cons_ne_nil _ _))
  rw [← htext, List.append_assoc, List.singleton_append, ← hprice] at hval
  rw [hreached]
  split at hcases
  · rename_i hmet
    apply iff_of_true _ hmet
    have hplain : ∀ x ∈ ".0123456789".toList, (!Re.isSpace x) = true ∧ isWhite x = false := by decide
    rw [hcases, List.nil_append, List.takeWhile_eq_self_iff.mpr fun x hx =>
      (hplain x (price.mem_text x hx)).1, trimSpace_word fun x hx =>
        (hplain x (price.mem_text x hx)).2] at hval
    exact ok_of_price hcheck hpoint price hval
  · rename_i hmissed
    exact iff_of_false (not_ok_of_noNumber hcheck hpoint hcases hval _) hmissed

theorem reads_keyword_iff_entry : shippedParser.extractNumeric entryPriceConfig
      (keywordText "EURUSD" "entry" ":" euroTarget.price.text) "EURUSD" =
        .ok euroTarget.price.price ∧ Reached entryPriceConfig "EURUSD" "entry" ":" :=
  have hrule : shippedRules.lookup "EURUSD" = some (rule [4, 5] (1 / 2) (5 / 2) "") := by rfl
  have hreached : Reached entryPriceConfig "EURUSD" "entry" ":" :=
    ⟨by decide +kernel, by decide, by decide, by decide⟩
  ⟨(reads_keyword_iff List.mem_cons_self hrule (by decide) (by decide) euroTarget.price).mpr hreached,
    hreached⟩

/-- `stop` comes before `stop-loss`, and the price read is `loss`. -/
theorem stop_hides_stop_loss :
    keywordText "EURUSD" "stop-loss" ":" euroTarget.price.text =
      "EURUSD stop-loss : 1.0905".toList ∧
    "stop-loss" ∈ stopLossConfig.terms ∧ ":" ∈ stopLossConfig.connectors ∧
    extractValue stopLossConfig "EURUSD stop-loss : 1.0905".toList = some "loss".toList ∧
    (shippedParser.extractNumeric stopLossConfig "EURUSD stop-loss : 1.0905".toList "EURUSD").isOk =
      false := by
  refine ⟨by decide, by decide, by decide, by decide +kernel, by decide +kernel⟩

end SphereFx.Extractor
