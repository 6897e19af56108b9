import Mathlib.Data.List.Basic
import Mathlib.Data.List.Infix
import SphereFx.Base.Squeeze

/-!
# Leftmost-first regular expressions

The matches of an expression at one place, in the order a backtracking matcher prefers them: the
first is the one Perl, RE2 and Go's `regexp` report. Repetition is of character classes only, which
keeps every function here structural. A hit records what was taken, what is left and what the groups
captured; the character before the place decides word boundaries.
-/

namespace SphereFx

/-- A regular expression. -/
inductive Re where
  | empty
  | cls (p : Char → Bool)
  | boundary
  | seq (a b : Re)
  | alt (a b : Re)
  | many (p : Char → Bool) (greedy : Bool)
  | group (i : Nat) (r : Re)

/-- A match at some place. -/
structure Hit where
  taken : List Char
  rest : List Char
  groups : List (Nat × List Char)
  deriving DecidableEq

namespace Re

/-- `\w`, which is ASCII. -/
def isWord (c : Char) : Bool :=
  ('a' ≤ c && c ≤ 'z') || ('A' ≤ c && c ≤ 'Z') || ('0' ≤ c && c ≤ '9') || c == '_'

/-- `\d`. -/
def isDigit (c : Char) : Bool := '0' ≤ c && c ≤ '9'

/-- `\s`. -/
def isSpace (c : Char) : Bool :=
  c == ' ' || c == '\t' || c == '\n' || c == '\r' || c == Char.ofNat 12

/-- Whether a place between two characters, or at an end of the text, is a word boundary. -/
def atBoundary (before after : Option Char) : Bool := before.any isWord != after.any isWord

/-- The splits of the text that a repeated class offers. -/
def runMany (p : Char → Bool) (greedy : Bool) : List Char → List Hit
  | [] => [⟨[], [], []⟩]
  | c :: rest =>
      if p c then
        let more := (runMany p greedy rest).map fun h => { h with taken := c :: h.taken }
        if greedy then more ++ [⟨[], c :: rest, []⟩] else ⟨[], c :: rest, []⟩ :: more
      else [⟨[], c :: rest, []⟩]

/-- The character before the place after `taken`. -/
def lastOr (before : Option Char) (taken : List Char) : Option Char :=
  taken.getLast?.or before

/-- All matches at a place, the preferred one first. -/
def run : Re → Option Char → List Char → List Hit
  | empty, _, text => [⟨[], text, []⟩]
  | cls _, _, [] => []
  | cls p, _, c :: rest => if p c then [⟨[c], rest, []⟩] else []
  | boundary, before, text => if atBoundary before text.head? then [⟨[], text, []⟩] else []
  | seq a b, before, text => (a.run before text).flatMap fun h =>
      (b.run (lastOr before h.taken) h.rest).map fun k =>
        ⟨h.taken ++ k.taken, k.rest, k.groups ++ h.groups⟩
  | alt a b, before, text => a.run before text ++ b.run before text
  | many p greedy, _, text => runMany p greedy text
  | group i r, before, text => (r.run before text).map fun h =>
      { h with groups := (i, h.taken) :: h.groups }

/-! ### Building expressions -/

def seqs : List Re → Re
  | [] => empty
  | [r] => r
  | r :: rest => seq r (seqs rest)

def alts : List Re → Re
  | [] => empty
  | [r] => r
  | r :: rest => alt r (alts rest)

/-- One or more of a class. -/
def many1 (p : Char → Bool) : Re := seq (cls p) (many p true)

/-- A text to be read up to `same`. -/
def literal (same : Char → Char → Bool) (text : List Char) : Re := seqs (text.map fun c => cls (same c))

/-! ### Searching -/

/-- The first place with a match: what is skipped, and the preferred match there. -/
def search (r : Re) : Option Char → List Char → Option (List Char × Hit)
  | before, [] => (r.run before []).head?.map fun h => ([], h)
  | before, c :: rest =>
      match (r.run before (c :: rest)).head? with
      | some h => some ([], h)
      | none => (search r (some c) rest).map fun found => (c :: found.1, found.2)

/-- `FindStringSubmatch`. -/
def find (r : Re) (text : List Char) : Option Hit := (r.search none text).map Prod.snd

/-- What a scan of a text finds: each match with the text skipped before it, and the tail. -/
abbrev Pieces := List (List Char × Hit) × List Char

/-- Text in front of the first gap. -/
def skipping (gap : List Char) : Pieces → Pieces
  | ([], tail) => ([], gap ++ tail)
  | ((skipped, h) :: pieces, tail) => ((gap ++ skipped, h) :: pieces, tail)

/-- The matches from left to right, as `FindAll` takes them: an empty match right after another match
does not count, and after any empty match the scan moves on by one character. -/
def scanFrom (r : Re) : Nat → Option Char → Bool → List Char → Pieces
  | 0, _, _, text => ([], text)
  | fuel + 1, before, afterMatch, text =>
      match r.search before text with
      | none => ([], text)
      | some (skipped, h) =>
          if h.taken ≠ [] then
            let next := scanFrom r fuel h.taken.getLast? true h.rest
            ((skipped, h) :: next.1, next.2)
          else
            let next := match h.rest with
              | [] => ([], [])
              | c :: rest => skipping [c] (scanFrom r fuel (some c) false rest)
            if afterMatch && skipped.isEmpty then next
            else ((skipped, h) :: next.1, next.2)

/-- Every round moves on by a character at least, so the length of the text is fuel enough. -/
def scan (r : Re) (text : List Char) : Pieces := scanFrom r (text.length + 1) none false text

/-- `FindAllStringSubmatch`. -/
def findAll (r : Re) (text : List Char) : List Hit := (r.scan text).1.map Prod.snd

/-- The groups of an expression. -/
def groups : Re → Nat
  | seq a b => a.groups + b.groups
  | alt a b => a.groups + b.groups
  | group _ r => r.groups + 1
  | _ => 0

/-- `ReplaceAllString`, with a replacement that has no references. -/
def replaceAll (r : Re) (replacement : List Char) (text : List Char) : List Char :=
  let pieces := r.scan text
  (pieces.1.flatMap fun piece => piece.1 ++ replacement) ++ pieces.2

/-- `Split` without a limit, for an expression with no empty match. -/
def split (r : Re) (text : List Char) : List (List Char) :=
  let pieces := r.scan text
  pieces.1.map Prod.fst ++ [pieces.2]

/-! ### A hit splits the text -/

theorem mem_runMany {p : Char → Bool} {greedy : Bool} {text : List Char} {h : Hit}
    (hmem : h ∈ runMany p greedy text) :
    text = h.taken ++ h.rest ∧ (∀ c ∈ h.taken, p c = true) ∧ h.groups = [] := by
  induction text generalizing h with
  | nil =>
      rw [List.mem_singleton.mp hmem]
      exact ⟨rfl, List.forall_mem_nil _, rfl⟩
  | cons c rest ih =>
      have hstop : h = ⟨[], c :: rest, []⟩ →
          c :: rest = h.taken ++ h.rest ∧ (∀ d ∈ h.taken, p d = true) ∧ h.groups = [] := by
        rintro rfl
        exact ⟨rfl, List.forall_mem_nil _, rfl⟩
      rw [runMany] at hmem
      by_cases hc : p c = true
      · have hmore : ∀ k ∈ (runMany p greedy rest).map (fun h => { h with taken := c :: h.taken }),
            c :: rest = k.taken ++ k.rest ∧ (∀ d ∈ k.taken, p d = true) ∧ k.groups = [] := by
          intro k hk
          obtain ⟨h', hh', rfl⟩ := List.mem_map.mp hk
          obtain ⟨htext, hall, hgroups⟩ := ih hh'
          refine ⟨?_, ?_, hgroups⟩
          · rw [List.cons_append, ← htext]
          · exact List.forall_mem_cons.mpr ⟨hc, hall⟩
        cases greedy with
        | true =>
            simp only [if_pos hc, if_true, List.mem_append, List.mem_singleton] at hmem
            exact hmem.elim (hmore h) hstop
        | false =>
            simp only [if_pos hc, Bool.false_eq_true, if_false, List.mem_cons] at hmem
            exact hmem.elim hstop (hmore h)
      · simp only [if_neg hc, List.mem_singleton] at hmem
        exact hstop hmem

theorem eq_append_of_mem_run {r : Re} {before : Option Char} {text : List Char} {h : Hit}
    (hmem : h ∈ r.run before text) : text = h.taken ++ h.rest := by
  induction r generalizing before text h with
  | empty =>
      rw [List.mem_singleton.mp hmem]
      rfl
  | cls p =>
      cases text with
      | nil => cases hmem
      | cons c rest =>
          rw [run] at hmem
          split at hmem
          · rw [List.mem_singleton.mp hmem]
            rfl
          · cases hmem
  | boundary =>
      rw [run] at hmem
      split at hmem
      · rw [List.mem_singleton.mp hmem]
        rfl
      · cases hmem
  | seq a b iha ihb =>
      obtain ⟨first, hfirst, hmap⟩ := List.mem_flatMap.mp hmem
      obtain ⟨second, hsecond, rfl⟩ := List.mem_map.mp hmap
      show text = (first.taken ++ second.taken) ++ second.rest
      rw [List.append_assoc, ← ihb hsecond]
      exact iha hfirst
  | alt a b iha ihb => exact (List.mem_append.mp hmem).elim iha ihb
  | many p greedy => exact (mem_runMany hmem).1
  | group i r ih =>
      obtain ⟨inner, hinner, rfl⟩ := List.mem_map.mp hmem
      show text = inner.taken ++ inner.rest
      exact ih hinner

/-! ### What a search and a scan find -/

@[simp] theorem lastOr_nil (before : Option Char) : lastOr before [] = before := rfl

theorem lastOr_cons (before : Option Char) (c : Char) (taken : List Char) :
    lastOr before (c :: taken) = lastOr (some c) taken := by
  cases taken with
  | nil => rfl
  | cons d rest =>
      rw [lastOr, lastOr, List.getLast?_cons_cons]
      cases hlast : (d :: rest).getLast? with
      | none => exact absurd (List.getLast?_eq_none_iff.mp hlast) (List.cons_ne_nil d rest)
      | some e => rfl

theorem search_of_run {r : Re} {before : Option Char} {text : List Char} {h : Hit}
    (hhead : (r.run before text).head? = some h) : r.search before text = some ([], h) := by
  cases text with
  | nil => rw [search, hhead, Option.map_some]
  | cons c rest => rw [search, hhead]

theorem search_cons {r : Re} {before : Option Char} {c : Char} {rest : List Char}
    (hhead : (r.run before (c :: rest)).head? = none) :
    r.search before (c :: rest) =
      (r.search (some c) rest).map fun found => (c :: found.1, found.2) := by
  rw [search, hhead]

theorem search_nil {r : Re} {before : Option Char} (hhead : (r.run before []).head? = none) :
    r.search before [] = none := by
  rw [search, hhead, Option.map_none]

/-- A search skips a stretch of the text where no place has a match. -/
theorem search_append {r : Re} {before : Option Char} {front back : List Char}
    (h : ∀ a b, front = a ++ b → b ≠ [] → r.run (lastOr before a) (b ++ back) = []) :
    r.search before (front ++ back) =
      (r.search (lastOr before front) back).map fun found => (front ++ found.1, found.2) := by
  induction front generalizing before with
  | nil =>
      rw [List.nil_append, lastOr_nil]
      cases r.search before back <;> rfl
  | cons c rest ih =>
      have hhere : r.run before (c :: rest ++ back) = [] := h [] (c :: rest) rfl (List.cons_ne_nil c rest)
      have hthere := @ih (some c) fun a b hsplit hne => by
        have hrun := h (c :: a) b (by rw [hsplit, List.cons_append]) hne
        rw [lastOr_cons] at hrun
        exact hrun
      rw [lastOr_cons, List.cons_append, search_cons (by rw [← List.cons_append, hhere]; rfl), hthere,
        Option.map_map]
      rfl

theorem search_eq_none {r : Re} {before : Option Char} {text : List Char}
    (h : ∀ a b, text = a ++ b → r.run (lastOr before a) b = []) : r.search before text = none := by
  have hend : r.search (lastOr before text) [] = none :=
    search_nil (by rw [h text [] (List.append_nil text).symm]; rfl)
  have happend := @search_append r before text [] fun a b hsplit _ => by
    rw [List.append_nil]
    exact h a b hsplit
  rw [List.append_nil, hend] at happend
  exact happend

theorem search_eq_some {r : Re} {before : Option Char} {text skipped : List Char} {h : Hit}
    (hfound : r.search before text = some (skipped, h)) :
    ∃ place, text = skipped ++ place ∧ h ∈ r.run (lastOr before skipped) place := by
  induction text generalizing before skipped with
  | nil =>
      cases hhead : (r.run before []).head? with
      | none =>
          rw [search_nil hhead] at hfound
          cases hfound
      | some k =>
          rw [search_of_run hhead] at hfound
          cases hfound
          exact ⟨[], rfl, List.mem_of_mem_head? hhead⟩
  | cons c rest ih =>
      cases hhead : (r.run before (c :: rest)).head? with
      | none =>
          rw [search_cons hhead] at hfound
          obtain ⟨⟨skipped', h'⟩, hrest, heq⟩ := Option.map_eq_some_iff.mp hfound
          cases heq
          obtain ⟨place, hplace, hmem⟩ := ih hrest
          refine ⟨place, ?_, ?_⟩
          · rw [List.cons_append, ← hplace]
          · rw [lastOr_cons]
            exact hmem
      | some k =>
          rw [search_of_run hhead] at hfound
          cases hfound
          exact ⟨c :: rest, rfl, List.mem_of_mem_head? hhead⟩

/-- The pieces of a scan in their order. -/
def joined : Pieces → List Char := fun pieces =>
  (pieces.1.flatMap fun piece => piece.1 ++ piece.2.taken) ++ pieces.2

theorem joined_skipping (gap : List Char) (pieces : Pieces) :
    joined (skipping gap pieces) = gap ++ joined pieces := by
  obtain ⟨found, tail⟩ := pieces
  cases found with
  | nil => rfl
  | cons piece rest =>
      simp only [joined, skipping, List.flatMap_cons, List.append_assoc]

/-- The pieces of a scan put together again are the text. -/
theorem joined_scanFrom (r : Re) (fuel : Nat) (before : Option Char) (afterMatch : Bool)
    (text : List Char) : joined (r.scanFrom fuel before afterMatch text) = text := by
  induction fuel generalizing before afterMatch text with
  | zero => rfl
  | succ fuel ih =>
      cases hsearch : r.search before text with
      | none =>
          rw [scanFrom, hsearch]
          rfl
      | some found =>
          obtain ⟨skipped, h⟩ := found
          obtain ⟨place, rfl, hmem⟩ := search_eq_some hsearch
          have hplace : place = h.taken ++ h.rest := eq_append_of_mem_run hmem
          have hcons : ∀ next : Pieces, joined ((skipped, h) :: next.1, next.2) =
              skipped ++ h.taken ++ joined next := by
            intro next
            simp only [joined, List.flatMap_cons, List.append_assoc]
          rw [scanFrom, hsearch]
          by_cases hempty : h.taken = []
          · rw [hempty, List.nil_append] at hplace
            have hnext : joined (match h.rest with
                | [] => ([], [])
                | c :: rest => skipping [c] (r.scanFrom fuel (some c) false rest)) = h.rest := by
              cases h.rest with
              | nil => rfl
              | cons c rest => rw [joined_skipping, ih, List.singleton_append]
            simp only [hempty, ne_eq, not_true_eq_false, if_false]
            split
            · rename_i hafter
              rw [Bool.and_eq_true, List.isEmpty_iff] at hafter
              rw [hnext, hafter.2, hplace, List.nil_append]
            · rw [hcons, hnext, hempty, List.append_nil, ← hplace]
          · simp only [ne_eq, hempty, not_false_eq_true, if_true]
            rw [hcons, ih, List.append_assoc, ← hplace]

/-- A hit at some place of a text. -/
def Occurs (r : Re) (text : List Char) (h : Hit) : Prop :=
  ∃ before front place, text = front ++ place ∧ h ∈ r.run before place

theorem Occurs.append {r : Re} {text : List Char} {h : Hit} (ho : r.Occurs text h)
    (front : List Char) : r.Occurs (front ++ text) h := by
  obtain ⟨before, front', place, rfl, hmem⟩ := ho
  exact ⟨before, front ++ front', place, (List.append_assoc _ _ _).symm, hmem⟩

theorem mem_skipping {gap : List Char} {pieces : Pieces} {piece : List Char × Hit}
    (h : piece ∈ (skipping gap pieces).1) : ∃ piece' ∈ pieces.1, piece.2 = piece'.2 := by
  obtain ⟨found, tail⟩ := pieces
  cases found with
  | nil => cases h
  | cons first rest =>
      rcases List.mem_cons.mp h with rfl | h
      · exact ⟨first, List.mem_cons_self, rfl⟩
      · exact ⟨piece, List.mem_cons_of_mem _ h, rfl⟩

theorem occurs_of_mem_scanFrom {r : Re} {fuel : Nat} {before : Option Char} {afterMatch : Bool}
    {text : List Char} {piece : List Char × Hit}
    (h : piece ∈ (r.scanFrom fuel before afterMatch text).1) : r.Occurs text piece.2 := by
  induction fuel generalizing before afterMatch text piece with
  | zero => cases h
  | succ fuel ih =>
      rw [scanFrom] at h
      cases hsearch : r.search before text with
      | none =>
          rw [hsearch] at h
          cases h
      | some found =>
          obtain ⟨skipped, k⟩ := found
          rw [hsearch] at h
          obtain ⟨place, rfl, hmem⟩ := search_eq_some hsearch
          have hk : r.Occurs (skipped ++ place) k := ⟨_, skipped, place, rfl, hmem⟩
          have hplace : place = k.taken ++ k.rest := eq_append_of_mem_run hmem
          by_cases hempty : k.taken = []
          · have hnext : ∀ piece ∈ (match k.rest with
                | [] => (([], []) : Pieces)
                | c :: rest => skipping [c] (r.scanFrom fuel (some c) false rest)).1,
                r.Occurs (skipped ++ place) piece.2 := by
              intro piece hpiece
              cases hrest : k.rest with
              | nil =>
                  rw [hrest] at hpiece
                  cases hpiece
              | cons c rest =>
                  rw [hrest] at hpiece
                  obtain ⟨piece', hpiece', heq⟩ := mem_skipping hpiece
                  rw [heq, hplace, hrest, hempty, List.nil_append, ← List.singleton_append]
                  exact ((ih hpiece').append [c]).append skipped
            simp only [hempty, ne_eq, not_true_eq_false, if_false] at h
            split at h
            · exact hnext piece h
            · rcases List.mem_cons.mp h with rfl | h
              · exact hk
              · exact hnext piece h
          · simp only [ne_eq, hempty, not_false_eq_true, if_true] at h
            rcases List.mem_cons.mp h with rfl | h
            · exact hk
            · rw [hplace]
              exact ((ih h).append k.taken).append skipped

/-- Replacing every match by itself changes nothing. -/
theorem replaceAll_self {r : Re} {replacement text : List Char}
    (h : ∀ hit, r.Occurs text hit → hit.taken = replacement) :
    r.replaceAll replacement text = text := by
  have hpieces : (r.scan text).1.flatMap (fun piece => piece.1 ++ replacement) =
      (r.scan text).1.flatMap fun piece => piece.1 ++ piece.2.taken := by
    apply List.flatMap_congr
    intro piece hpiece
    rw [h piece.2 (occurs_of_mem_scanFrom hpiece)]
  rw [replaceAll, hpieces]
  exact joined_scanFrom r _ none false text

/-! ### Where no match starts -/

/-- The text begins with the given one up to `same`. -/
def startsWith (same : Char → Char → Bool) : List Char → List Char → Bool
  | [], _ => true
  | _ :: _, [] => false
  | c :: rest, d :: text => same c d && startsWith same rest text

theorem run_literal_eq_nil {same : Char → Char → Bool} {word : List Char} {before : Option Char}
    {text : List Char} (h : startsWith same word text = false) :
    (literal same word).run before text = [] := by
  induction word generalizing before text with
  | nil => cases h
  | cons c rest ih =>
      cases text with
      | nil =>
          cases rest with
          | nil => rfl
          | cons d more => rfl
      | cons e text =>
          rw [startsWith, Bool.and_eq_false_iff] at h
          have hcls : (cls (same c)).run before (e :: text) =
              if same c e then [⟨[e], text, []⟩] else [] := rfl
          cases hsame : same c e with
          | false =>
              rw [hsame] at hcls
              cases rest with
              | nil => exact hcls
              | cons d more =>
                  show ((cls (same c)).run before (e :: text)).flatMap _ = []
                  rw [hcls]
                  rfl
          | true =>
              rw [hsame] at hcls h
              have hrest : startsWith same rest text = false := h.resolve_left (by decide)
              cases rest with
              | nil => cases hrest
              | cons d more =>
                  show ((cls (same c)).run before (e :: text)).flatMap _ = []
                  rw [hcls, if_pos rfl, List.flatMap_singleton]
                  show ((literal same (d :: more)).run _ text).map _ = []
                  rw [ih hrest, List.map_nil]

theorem run_alts_eq_nil {rs : List Re} (hne : rs ≠ []) {before : Option Char} {text : List Char}
    (h : ∀ r ∈ rs, r.run before text = []) : (alts rs).run before text = [] := by
  induction rs with
  | nil => exact absurd rfl hne
  | cons r rest ih =>
      obtain ⟨hr, hrest⟩ := List.forall_mem_cons.mp h
      cases rest with
      | nil => exact hr
      | cons d more =>
          show r.run before text ++ (alts (d :: more)).run before text = []
          rw [hr, ih (List.cons_ne_nil d more) hrest, List.append_nil]

theorem run_seq_eq_nil {a b : Re} {before : Option Char} {text : List Char}
    (h : a.run before text = []) : (seq a b).run before text = [] := by
  rw [run, h, List.flatMap_nil]

theorem run_group_eq_nil {i : Nat} {r : Re} {before : Option Char} {text : List Char}
    (h : r.run before text = []) : (group i r).run before text = [] := by
  rw [run, h, List.map_nil]

theorem run_boundary_seq_eq_nil {b : Re} {before : Option Char} {text : List Char}
    (h : atBoundary before text.head? = true → b.run before text = []) :
    (seq boundary b).run before text = [] := by
  by_cases hboundary : atBoundary before text.head? = true
  · rw [run, run, if_pos hboundary, List.flatMap_singleton, lastOr_nil, h hboundary, List.map_nil]
  · exact run_seq_eq_nil (by rw [run, if_neg hboundary])

theorem lastOr_between {before : Option Char} (hbefore : before.any isWord = false)
    {stretch : List Char} (h : ∀ c ∈ stretch, isWord c = false) :
    (lastOr before stretch).any isWord = false := by
  rcases List.eq_nil_or_concat' stretch with rfl | ⟨front, d, rfl⟩
  · exact hbefore
  · rw [lastOr, List.getLast?_concat]
    exact h d (List.mem_append_right _ (List.mem_singleton_self d))

theorem run_between_eq_nil {b : Re} {stretch : List Char} (h : ∀ c ∈ stretch, isWord c = false)
    {before : Option Char} (hbefore : before.any isWord = false) (back : List Char) :
    ∀ front place, stretch = front ++ place → place ≠ [] →
      (seq boundary b).run (lastOr before front) (place ++ back) = [] := by
  intro front place hsplit hne
  obtain ⟨c, rest, rfl⟩ := List.exists_cons_of_ne_nil hne
  have hlast := lastOr_between hbefore fun d hd => h d (hsplit ▸ List.mem_append_left _ hd)
  have hnext : isWord c = false := h c (hsplit ▸ List.mem_append_right front List.mem_cons_self)
  apply run_boundary_seq_eq_nil
  intro hboundary
  rw [atBoundary, hlast, List.cons_append, List.head?_cons, Option.any_some, hnext] at hboundary
  cases hboundary

theorem search_wordless_eq_none {b : Re} {text : List Char} (h : ∀ c ∈ text, isWord c = false) :
    (seq boundary b).search none text = none := by
  apply search_eq_none
  intro front place hsplit
  by_cases hne : place = []
  · have hlast : (lastOr none front).any isWord = false :=
      lastOr_between rfl fun c hc => h c (hsplit ▸ List.mem_append_left place hc)
    apply run_boundary_seq_eq_nil
    intro hboundary
    rw [atBoundary, hlast, hne] at hboundary
    cases hboundary
  · have hrun := @run_between_eq_nil b text h none rfl [] front place hsplit hne
    rwa [List.append_nil] at hrun

theorem mem_run_cls {p : Char → Bool} {before : Option Char} {text : List Char} {h : Hit}
    (hmem : h ∈ (cls p).run before text) : ∃ c, h.taken = [c] ∧ p c = true := by
  cases text with
  | nil => cases hmem
  | cons c rest =>
      rw [run] at hmem
      split at hmem
      · rename_i hc
        rw [List.mem_singleton.mp hmem]
        exact ⟨c, rfl, hc⟩
      · cases hmem

theorem mem_run_seq {a b : Re} {before : Option Char} {text : List Char} {h : Hit}
    (hmem : h ∈ (seq a b).run before text) : ∃ k ∈ a.run before text,
      ∃ l ∈ b.run (lastOr before k.taken) k.rest, h.taken = k.taken ++ l.taken := by
  obtain ⟨k, hk, hmap⟩ := List.mem_flatMap.mp hmem
  obtain ⟨l, hl, rfl⟩ := List.mem_map.mp hmap
  exact ⟨k, hk, l, hl, rfl⟩

theorem taken_ne_nil_of_cls_seq {p : Char → Bool} {b : Re} {before : Option Char}
    {text : List Char} {h : Hit} (hmem : h ∈ (seq (cls p) b).run before text) : h.taken ≠ [] := by
  obtain ⟨k, hk, l, -, htaken⟩ := mem_run_seq hmem
  obtain ⟨c, hc, -⟩ := mem_run_cls hk
  rw [htaken, hc]
  exact List.cons_ne_nil c l.taken

theorem exists_of_startsWith {same : Char → Char → Bool} {word text : List Char}
    (h : startsWith same word text = true) : ∀ c ∈ word, ∃ d ∈ text, same c d = true := by
  induction word generalizing text with
  | nil => exact List.forall_mem_nil _
  | cons c rest ih =>
      cases text with
      | nil => cases h
      | cons d text =>
          rw [startsWith, Bool.and_eq_true] at h
          refine List.forall_mem_cons.mpr ⟨⟨d, List.mem_cons_self, h.1⟩, fun e he => ?_⟩
          obtain ⟨d', hd', hsame⟩ := ih h.2 e he
          exact ⟨d', List.mem_cons_of_mem _ hd', hsame⟩

/-- Two texts differ at a place that both have. -/
def clash (same : Char → Char → Bool) : List Char → List Char → Bool
  | c :: rest, d :: text => !same c d || clash same rest text
  | _, _ => false

theorem startsWith_of_clash {same : Char → Char → Bool} {word text : List Char}
    (h : clash same word text = true) (back : List Char) :
    startsWith same word (text ++ back) = false := by
  induction word generalizing text with
  | nil => cases h
  | cons c rest ih =>
      cases text with
      | nil => cases h
      | cons d text =>
          rw [clash, Bool.or_eq_true, Bool.not_eq_true'] at h
          rw [List.cons_append, startsWith, Bool.and_eq_false_iff]
          exact h.imp id ih

/-! ### What a match takes first -/

theorem run_literal {same : Char → Char → Bool} {word taken : List Char}
    (h : List.Forall₂ (fun c d => same c d = true) word taken) (before : Option Char)
    (rest : List Char) : (literal same word).run before (taken ++ rest) = [⟨taken, rest, []⟩] := by
  induction h generalizing before with
  | nil => rfl
  | @cons c d word taken hcd hwords ih =>
      have hcls : (cls (same c)).run before (d :: (taken ++ rest)) = [⟨[d], taken ++ rest, []⟩] := by
        rw [run, if_pos hcd]
      cases hwords with
      | nil => exact hcls
      | @cons c' d' word taken hcd' hwords =>
          show ((cls (same c)).run before (d :: (d' :: taken ++ rest))).flatMap _ = _
          rw [hcls, List.flatMap_singleton]
          show ((literal same (c' :: word)).run _ (d' :: taken ++ rest)).map _ = _
          rw [ih]
          rfl

theorem head_runMany {p : Char → Bool} {taken rest : List Char} (hall : ∀ c ∈ taken, p c = true)
    (hstop : ∀ c ∈ rest.head?, p c = false) :
    (runMany p true (taken ++ rest)).head? = some ⟨taken, rest, []⟩ := by
  induction taken with
  | nil =>
      cases rest with
      | nil => rfl
      | cons c more =>
          have hc : ¬ p c = true := Bool.eq_false_iff.mp (hstop c rfl)
          rw [List.nil_append, runMany, if_neg hc, List.head?_cons]
  | cons c more ih =>
      obtain ⟨hc, hmore⟩ := List.forall_mem_cons.mp hall
      rw [List.cons_append, runMany, if_pos hc]
      simp only [if_true, List.head?_append, List.head?_map, ih hmore, Option.map_some,
        Option.some_or]

theorem head_run_seq {a b : Re} {before : Option Char} {text : List Char} {h k : Hit}
    (ha : (a.run before text).head? = some h)
    (hb : (b.run (lastOr before h.taken) h.rest).head? = some k) :
    ((seq a b).run before text).head? = some ⟨h.taken ++ k.taken, k.rest, k.groups ++ h.groups⟩ := by
  rw [run]
  cases hrun : a.run before text with
  | nil =>
      rw [hrun] at ha
      cases ha
  | cons first others =>
      rw [hrun] at ha
      obtain rfl := Option.some.inj ha
      rw [List.flatMap_cons, List.head?_append, List.head?_map, hb, Option.map_some, Option.some_or]

theorem run_seq_second {a b : Re} {before : Option Char} {text : List Char} {h h' : Hit}
    (ha : a.run before text = [h, h']) (hb : b.run (lastOr before h.taken) h.rest = []) :
    (seq a b).run before text = (b.run (lastOr before h'.taken) h'.rest).map fun k =>
      ⟨h'.taken ++ k.taken, k.rest, k.groups ++ h'.groups⟩ := by
  rw [run, ha, List.flatMap_cons, hb, List.flatMap_singleton, List.map_nil, List.nil_append]

theorem head_run_group {i : Nat} {r : Re} {before : Option Char} {text taken rest : List Char}
    {groups : List (Nat × List Char)} (hr : (r.run before text).head? = some ⟨taken, rest, groups⟩) :
    ((group i r).run before text).head? = some ⟨taken, rest, (i, taken) :: groups⟩ := by
  rw [run, List.head?_map, hr, Option.map_some]

theorem head_run_alts {r : Re} {rs : List Re} {before : Option Char} {text : List Char} {h : Hit}
    (hr : (r.run before text).head? = some h) :
    ((alts (r :: rs)).run before text).head? = some h := by
  cases rs with
  | nil => exact hr
  | cons d more =>
      show (r.run before text ++ (alts (d :: more)).run before text).head? = some h
      rw [List.head?_append, hr, Option.some_or]

theorem head_run_boundary {before : Option Char} {text : List Char}
    (h : atBoundary before text.head? = true) :
    (boundary.run before text).head? = some ⟨[], text, []⟩ := by
  rw [run, if_pos h, List.head?_cons]

theorem mem_run_many1 {p : Char → Bool} {before : Option Char} {text : List Char} {h : Hit}
    (hmem : h ∈ (many1 p).run before text) : h.taken ≠ [] ∧ ∀ c ∈ h.taken, p c = true := by
  obtain ⟨first, hfirst, hmap⟩ := List.mem_flatMap.mp hmem
  obtain ⟨second, hsecond, rfl⟩ := List.mem_map.mp hmap
  have hall : ∀ c ∈ second.taken, p c = true := (mem_runMany hsecond).2.1
  cases text with
  | nil => cases hfirst
  | cons c rest =>
      by_cases hc : p c = true
      · rw [run, if_pos hc, List.mem_singleton] at hfirst
        rw [hfirst]
        exact ⟨List.cons_ne_nil c second.taken, List.forall_mem_cons.mpr ⟨hc, hall⟩⟩
      · rw [run, if_neg hc] at hfirst
        cases hfirst

theorem head_run_many1 {p : Char → Bool} {before : Option Char} {taken rest : List Char}
    (hne : taken ≠ []) (hall : ∀ c ∈ taken, p c = true) (hstop : ∀ c ∈ rest.head?, p c = false) :
    ((many1 p).run before (taken ++ rest)).head? = some ⟨taken, rest, []⟩ := by
  cases taken with
  | nil => exact absurd rfl hne
  | cons c more =>
      obtain ⟨hc, hmore⟩ := List.forall_mem_cons.mp hall
      have hfirst : ((cls p).run before (c :: (more ++ rest))).head? =
          some ⟨[c], more ++ rest, []⟩ := by
        rw [run, if_pos hc, List.head?_cons]
      have hmany : ((many p true).run (lastOr before [c]) (more ++ rest)).head? =
          some ⟨more, rest, []⟩ := head_runMany hmore hstop
      exact head_run_seq hfirst hmany

/-- A lazy repetition goes on as long as what follows it has no match. -/
theorem head_run_lazy {p : Char → Bool} {r : Re} {before : Option Char} {taken rest : List Char}
    {h : Hit} (hall : ∀ c ∈ taken, p c = true)
    (hskip : ∀ a b, taken = a ++ b → b ≠ [] → r.run (lastOr before a) (b ++ rest) = [])
    (hrun : (r.run (lastOr before taken) rest).head? = some h) :
    ((seq (many p false) r).run before (taken ++ rest)).head? =
      some ⟨taken ++ h.taken, h.rest, h.groups⟩ := by
  induction taken generalizing before with
  | nil =>
      have hfirst : ((many p false).run before rest).head? = some ⟨[], rest, []⟩ := by
        cases rest with
        | nil => rfl
        | cons c more =>
            rw [run, runMany]
            cases p c <;> rfl
      have hseq := head_run_seq hfirst hrun
      rwa [List.append_nil] at hseq
  | cons c more ih =>
      obtain ⟨hc, hmore⟩ := List.forall_mem_cons.mp hall
      have hhere : r.run before (c :: (more ++ rest)) = [] :=
        hskip [] (c :: more) rfl (List.cons_ne_nil c more)
      have hthere := @ih (some c) hmore (fun a b hsplit hb => by
        have hrest := hskip (c :: a) b (by rw [hsplit, List.cons_append]) hb
        rwa [lastOr_cons] at hrest) (by rwa [lastOr_cons] at hrun)
      have hsplits : (many p false).run before (c :: (more ++ rest)) = ⟨[], c :: (more ++ rest), []⟩ ::
          ((many p false).run (some c) (more ++ rest)).map fun k => { k with taken := c :: k.taken } := by
        rw [run, run, runMany, if_pos hc]
        rfl
      have hseq : (seq (many p false) r).run before (c :: (more ++ rest)) =
          ((seq (many p false) r).run (some c) (more ++ rest)).map
            fun k => { k with taken := c :: k.taken } := by
        rw [run, hsplits, List.flatMap_cons, lastOr_nil, hhere, List.map_nil, List.nil_append,
          List.flatMap_map, run, List.map_flatMap]
        apply List.flatMap_congr
        intro k _
        rw [lastOr_cons, List.map_map]
        rfl
      rw [List.cons_append, hseq, List.head?_map, hthere]
      rfl

theorem search_skip {r : Re} {before : Option Char} {front place : List Char} {h : Hit}
    (hskip : ∀ a b, front = a ++ b → b ≠ [] → r.run (lastOr before a) (b ++ place) = [])
    (hrun : (r.run (lastOr before front) place).head? = some h) :
    r.search before (front ++ place) = some (front, h) := by
  rw [search_append hskip, search_of_run hrun, Option.map_some, List.append_nil]

theorem find_eq_some {r : Re} {front place : List Char} {h : Hit}
    (hskip : ∀ a b, front = a ++ b → b ≠ [] → r.run (lastOr none a) (b ++ place) = [])
    (hrun : (r.run (lastOr none front) place).head? = some h) : r.find (front ++ place) = some h := by
  rw [find, search_skip hskip hrun]
  rfl

/-- The first alternative with a match decides. -/
theorem head_run_alts_append {front : List Re} {r : Re} {rest : List Re} {before : Option Char}
    {text : List Char} {h : Hit} (hfront : ∀ s ∈ front, s.run before text = [])
    (hr : (r.run before text).head? = some h) :
    ((alts (front ++ r :: rest)).run before text).head? = some h := by
  induction front with
  | nil => exact head_run_alts hr
  | cons s more ih =>
      obtain ⟨hs, hmore⟩ := List.forall_mem_cons.mp hfront
      obtain ⟨d, others, hothers⟩ : ∃ d others, more ++ r :: rest = d :: others :=
        List.exists_cons_of_ne_nil (List.append_ne_nil_of_right_ne_nil more (List.cons_ne_nil r rest))
      have hrun := ih hmore
      rw [hothers] at hrun
      rw [List.cons_append, hothers]
      show (s.run before text ++ (alts (d :: others)).run before text).head? = some h
      rw [hs, List.nil_append]
      exact hrun

theorem mem_run_alts {rs : List Re} (hne : rs ≠ []) {before : Option Char} {text : List Char}
    {h : Hit} : h ∈ (alts rs).run before text ↔ ∃ r ∈ rs, h ∈ r.run before text := by
  induction rs with
  | nil => exact absurd rfl hne
  | cons r rest ih =>
      cases rest with
      | nil =>
          rw [List.exists_mem_cons_iff, or_iff_left (by simp)]
          rfl
      | cons d more =>
          rw [List.exists_mem_cons_iff, ← ih (List.cons_ne_nil d more), ← List.mem_append]
          rfl

/-- A literal takes itself, up to `same`. -/
theorem mem_run_literal {same : Char → Char → Bool} {word : List Char} {before : Option Char}
    {text : List Char} {h : Hit} (hmem : h ∈ (literal same word).run before text) :
    List.Forall₂ (fun c d => same c d = true) word h.taken := by
  induction word generalizing before text h with
  | nil =>
      rw [List.mem_singleton.mp hmem]
      exact List.Forall₂.nil
  | cons c rest ih =>
      cases rest with
      | nil =>
          obtain ⟨d, htaken, hd⟩ := mem_run_cls hmem
          rw [htaken]
          exact List.Forall₂.cons hd .nil
      | cons e more =>
          obtain ⟨k, hk, k', hk', heq⟩ := mem_run_seq hmem
          obtain ⟨d, htaken, hd⟩ := mem_run_cls hk
          rw [heq, htaken]
          exact List.Forall₂.cons hd (ih hk')

/-! ### Scans whose matches take something -/

/-- The pieces of a scan, none of whose matches is empty. -/
inductive Scans (r : Re) : Option Char → List Char → Pieces → Prop where
  | done {before : Option Char} {text : List Char} (hsearch : r.search before text = none) :
      Scans r before text ([], text)
  | next {before : Option Char} {text skipped : List Char} {h : Hit} {pieces : Pieces}
      (hsearch : r.search before text = some (skipped, h)) (hne : h.taken ≠ [])
      (hrest : Scans r h.taken.getLast? h.rest pieces) :
      Scans r before text ((skipped, h) :: pieces.1, pieces.2)

theorem scanFrom_succ {r : Re} {fuel : Nat} {before : Option Char} {afterMatch : Bool}
    {text skipped : List Char} {h : Hit} (hsearch : r.search before text = some (skipped, h))
    (hne : h.taken ≠ []) : r.scanFrom (fuel + 1) before afterMatch text =
      ((skipped, h) :: (r.scanFrom fuel h.taken.getLast? true h.rest).1,
        (r.scanFrom fuel h.taken.getLast? true h.rest).2) := by
  rw [scanFrom, hsearch]
  simp only [if_pos hne]

theorem Scans.scanFrom_eq {r : Re} {before : Option Char} {text : List Char} {pieces : Pieces}
    (h : r.Scans before text pieces) (fuel : Nat) (hfuel : pieces.1.length < fuel)
    (afterMatch : Bool) : r.scanFrom fuel before afterMatch text = pieces := by
  induction h generalizing fuel afterMatch with
  | done hsearch =>
      cases fuel with
      | zero => rfl
      | succ fuel => rw [scanFrom, hsearch]
  | next hsearch hne hrest ih =>
      cases fuel with
      | zero => exact absurd hfuel (Nat.not_lt_zero _)
      | succ fuel => rw [scanFrom_succ hsearch hne, ih fuel (Nat.lt_of_succ_lt_succ hfuel) true]

theorem Scans.length_le {r : Re} {before : Option Char} {text : List Char} {pieces : Pieces}
    (h : r.Scans before text pieces) : pieces.1.length ≤ text.length := by
  induction h with
  | done hsearch => exact Nat.zero_le _
  | next hsearch hne hrest ih =>
      obtain ⟨place, rfl, hmem⟩ := search_eq_some hsearch
      have htaken := List.length_pos_iff.mpr hne
      rw [eq_append_of_mem_run hmem]
      simp only [List.length_cons, List.length_append]
      omega

theorem Scans.scan_eq {r : Re} {text : List Char} {pieces : Pieces}
    (h : r.Scans none text pieces) : r.scan text = pieces :=
  h.scanFrom_eq _ (Nat.lt_succ_of_le h.length_le) false

theorem findAll_eq_nil {r : Re} {text : List Char} (hsearch : r.search none text = none) :
    r.findAll text = [] := by
  rw [findAll, (Scans.done hsearch).scan_eq, List.map_nil]

theorem findAll_eq_singleton {r : Re} {text skipped : List Char} {h : Hit}
    (hsearch : r.search none text = some (skipped, h)) (hne : h.taken ≠ [])
    (hrest : r.search h.taken.getLast? h.rest = none) : r.findAll text = [h] := by
  rw [findAll, (Scans.next hsearch hne (Scans.done hrest)).scan_eq]
  rfl

theorem findAll_cons {r : Re} {text skipped : List Char} {h : Hit}
    (hsearch : r.search none text = some (skipped, h)) (hne : h.taken ≠ []) :
    ∃ others, r.findAll text = h :: others := by
  rw [findAll, scan, scanFrom_succ hsearch hne]
  exact ⟨_, rfl⟩

/-! ### Replacing matches -/

/-- If all matches take something, the pieces can be found one after the other. -/
theorem exists_scans {r : Re}
    (hne : ∀ before text, ∀ h ∈ r.run before text, h.taken ≠ []) (before : Option Char)
    (text : List Char) : ∃ pieces, r.Scans before text pieces := by
  induction hlength : text.length using Nat.strongRecOn generalizing before text with
  | ind n ih =>
      cases hsearch : r.search before text with
      | none => exact ⟨_, .done hsearch⟩
      | some found =>
          obtain ⟨skipped, h⟩ := found
          obtain ⟨place, rfl, hmem⟩ := search_eq_some hsearch
          have htaken := hne _ _ h hmem
          have hshorter : h.rest.length < n := by
            have hpos := List.length_pos_iff.mpr htaken
            rw [← hlength, eq_append_of_mem_run hmem]
            simp only [List.length_append]
            omega
          obtain ⟨pieces, hpieces⟩ := ih _ hshorter h.taken.getLast? h.rest rfl
          exact ⟨_, .next hsearch htaken hpieces⟩

/-- What becomes of a text when all matches are replaced, none of which is empty. -/
def Replaces (r : Re) (replacement : List Char) (before : Option Char) (text out : List Char) : Prop :=
  ∃ pieces, r.Scans before text pieces ∧
    (pieces.1.flatMap fun piece => piece.1 ++ replacement) ++ pieces.2 = out

section Replaces

variable {r : Re} {replacement : List Char} {before : Option Char} {text out : List Char}

theorem Replaces.replaceAll_eq (h : r.Replaces replacement none text out) :
    r.replaceAll replacement text = out := by
  obtain ⟨pieces, hscans, rfl⟩ := h
  rw [replaceAll, hscans.scan_eq]

theorem Replaces.done (hsearch : r.search before text = none) :
    r.Replaces replacement before text text :=
  ⟨_, .done hsearch, rfl⟩

theorem Replaces.next {skipped : List Char} {h : Hit}
    (hsearch : r.search before text = some (skipped, h)) (hne : h.taken ≠ [])
    (hrest : r.Replaces replacement h.taken.getLast? h.rest out) :
    r.Replaces replacement before text (skipped ++ (replacement ++ out)) := by
  obtain ⟨pieces, hscans, rfl⟩ := hrest
  refine ⟨_, .next hsearch hne hscans, ?_⟩
  simp only [List.flatMap_cons, List.append_assoc]

/-- A stretch in which no match starts stays in front. -/
theorem exists_replaces_append {front : List Char}
    (hne : ∀ before text, ∀ h ∈ r.run before text, h.taken ≠ [])
    (hskip : ∀ a b, front = a ++ b → b ≠ [] → r.run (lastOr before a) (b ++ text) = []) :
    ∃ more, r.Replaces replacement before (front ++ text) (front ++ more) := by
  have hsearch := search_append hskip
  cases hfound : r.search (lastOr before front) text with
  | none =>
      rw [hfound, Option.map_none] at hsearch
      exact ⟨text, .done hsearch⟩
  | some found =>
      obtain ⟨skipped, h⟩ := found
      rw [hfound, Option.map_some] at hsearch
      obtain ⟨place, -, hmem⟩ := search_eq_some hfound
      obtain ⟨pieces, hpieces⟩ := exists_scans hne h.taken.getLast? h.rest
      have hrest : r.Replaces replacement h.taken.getLast? h.rest _ := ⟨pieces, hpieces, rfl⟩
      have hnext := Replaces.next hsearch (hne _ _ h hmem) hrest
      rw [List.append_assoc] at hnext
      exact ⟨_, hnext⟩

end Replaces

theorem run_cls_eq_nil {p : Char → Bool} {before : Option Char} {c : Char} {rest : List Char}
    (h : p c = false) : (cls p).run before (c :: rest) = [] := by
  rw [run, h, if_neg Bool.false_ne_true]

/-- Replacing a class by nothing takes its characters out. -/
theorem replaceAll_cls (p : Char → Bool) (text : List Char) :
    (cls p).replaceAll [] text = text.filter (!p ·) := by
  have hreplaces : ∀ (before : Option Char) (gap : List Char), (∀ c ∈ gap, p c = false) →
      (cls p).Replaces [] before (gap ++ text) (gap ++ text.filter (!p ·)) := by
    induction text with
    | nil =>
        intro before gap hgap
        rw [List.filter_nil, List.append_nil]
        apply Replaces.done
        apply search_eq_none
        intro a b hsplit
        cases b with
        | nil => rfl
        | cons c more =>
            exact run_cls_eq_nil (hgap c (hsplit ▸ List.mem_append_right a List.mem_cons_self))
    | cons c rest ih =>
        intro before gap hgap
        cases hc : p c with
        | false =>
            have hnext := ih before (gap ++ [c]) fun d hd => by
              rcases List.mem_append.mp hd with hd | hd
              · exact hgap d hd
              · rw [List.mem_singleton.mp hd, hc]
            simpa [hc] using hnext
        | true =>
            have hrun : ((cls p).run (lastOr before gap) (c :: rest)).head? =
                some ⟨[c], rest, []⟩ := by
              rw [run, if_pos hc, List.head?_cons]
            have hskip : ∀ a b, gap = a ++ b → b ≠ [] →
                (cls p).run (lastOr before a) (b ++ c :: rest) = [] := by
              intro a b hsplit hb
              obtain ⟨d, more, rfl⟩ := List.exists_cons_of_ne_nil hb
              exact run_cls_eq_nil (hgap d (hsplit ▸ List.mem_append_right a List.mem_cons_self))
            have hsearch := search_skip hskip hrun
            have hnext := Replaces.next hsearch (List.cons_ne_nil c [])
              (ih (some c) [] (List.forall_mem_nil _))
            simpa [hc] using hnext
  exact (hreplaces none [] (List.forall_mem_nil _)).replaceAll_eq

/-! ### Splitting at the stretches of a class -/

theorem run_many1_eq_nil {p : Char → Bool} {before : Option Char} {c : Char} {rest : List Char}
    (h : p c = false) : (many1 p).run before (c :: rest) = [] :=
  run_seq_eq_nil (run_cls_eq_nil h)

theorem search_many1_eq_none {p : Char → Bool} {before : Option Char} {text : List Char}
    (h : ∀ c ∈ text, p c = false) : (many1 p).search before text = none := by
  apply search_eq_none
  intro a b hsplit
  cases b with
  | nil => rfl
  | cons c rest => exact run_many1_eq_nil (h c (hsplit ▸ List.mem_append_right a List.mem_cons_self))

theorem search_many1 {p : Char → Bool} {before : Option Char} {w taken rest : List Char}
    (hw : ∀ c ∈ w, p c = false) (hne : taken ≠ []) (hall : ∀ c ∈ taken, p c = true)
    (hstop : ∀ c ∈ rest.head?, p c = false) :
    (many1 p).search before (w ++ (taken ++ rest)) = some (w, ⟨taken, rest, []⟩) := by
  rw [search_append, search_of_run (head_run_many1 hne hall hstop), Option.map_some, List.append_nil]
  intro a b hsplit hb
  obtain ⟨c, more, rfl⟩ := List.exists_cons_of_ne_nil hb
  exact run_many1_eq_nil (hw c (hsplit ▸ List.mem_append_right a List.mem_cons_self))

/-- Replacing each stretch of a class by one character collapses them. -/
theorem replaceAll_many1 (p : Char → Bool) (d : Char) (text : List Char) :
    (many1 p).replaceAll [d] text = squeeze p d false text := by
  have hreplaces : ∀ (before : Option Char),
      (many1 p).Replaces [d] before text (squeeze p d false text) := by
    induction hlength : text.length using Nat.strongRecOn generalizing text with
    | ind n ih =>
        intro before
        obtain ⟨w, place, rfl, hw, hplace⟩ := exists_stretch p false text
        have hstay : ∀ {w : List Char}, (∀ c ∈ w, p c = false) → ∀ more,
            squeeze p d false (w ++ more) = w ++ squeeze p d false more := by
          intro w hw more
          induction w with
          | nil => rfl
          | cons c rest ih =>
              obtain ⟨hc, hrest⟩ := List.forall_mem_cons.mp hw
              rw [List.cons_append, squeeze_cons_of_neg hc, ih hrest, List.cons_append]
        rw [hstay hw]
        cases place with
        | nil =>
            rw [List.append_nil, squeeze, List.append_nil]
            exact .done (search_many1_eq_none hw)
        | cons c more =>
            have hc : p c = true := hplace c rfl
            obtain ⟨t, rest, rfl, ht, hrest⟩ := exists_stretch p true more
            have hrun : ∀ e ∈ c :: t, p e = true := List.forall_mem_cons.mpr ⟨hc, ht⟩
            have hsearch := @search_many1 p before w (c :: t) rest hw (List.cons_ne_nil c t) hrun
              hrest
            have hshorter : rest.length < n := by
              rw [← hlength]
              simp only [List.length_append, List.length_cons]
              omega
            rw [← List.cons_append, squeeze_run_first (List.cons_ne_nil c t) hrun,
              squeeze_of_head hrest]
            exact .next hsearch (List.cons_ne_nil c t) (ih rest.length hshorter rest rfl _)
  exact (hreplaces none).replaceAll_eq

/-- The parts of a text between the characters of a class, the blank ones left out. -/
def parts (p : Char → Bool) (text : List Char) : List (List Char) :=
  (text.splitOnP p).filter (· ≠ [])

theorem parts_append_cons {p : Char → Bool} {c : Char} (hc : p c = true) (front back : List Char) :
    parts p (front ++ c :: back) = parts p front ++ parts p back := by
  rw [parts, List.splitOnP_append_cons front back hc, List.filter_append]
  rfl

theorem parts_append_left {p : Char → Bool} {taken rest : List Char}
    (hall : ∀ c ∈ taken, p c = true) : parts p (taken ++ rest) = parts p rest := by
  induction taken with
  | nil => rfl
  | cons c more ih =>
      obtain ⟨hc, hmore⟩ := List.forall_mem_cons.mp hall
      have hcons := parts_append_cons hc [] (more ++ rest)
      rw [List.nil_append] at hcons
      rw [List.cons_append, hcons, ih hmore]
      rfl

theorem parts_append_right {p : Char → Bool} {taken rest : List Char}
    (hall : ∀ c ∈ taken, p c = true) : parts p (rest ++ taken) = parts p rest := by
  cases taken with
  | nil => rw [List.append_nil]
  | cons c more =>
      obtain ⟨hc, hmore⟩ := List.forall_mem_cons.mp hall
      have hnone : parts p more = [] := by
        rw [← List.append_nil more, parts_append_left hmore]
        rfl
      rw [parts_append_cons hc, hnone, List.append_nil]

theorem parts_append_of_head {p : Char → Bool} {front back : List Char}
    (h : ∀ c ∈ back.head?, p c = true) : parts p (front ++ back) = parts p front ++ parts p back := by
  cases back with
  | nil => exact (List.append_nil front).symm ▸ (List.append_nil _).symm
  | cons c rest =>
      have hc : p c = true := h c rfl
      have hcons := parts_append_cons hc [] rest
      rw [List.nil_append] at hcons
      rw [parts_append_cons hc, hcons]
      rfl

theorem parts_eq_filter {p : Char → Bool} {w : List Char} (h : ∀ c ∈ w, p c = false) :
    parts p w = [w].filter (· ≠ []) := by
  rw [parts, List.splitOnP_eq_singleton h]

theorem parts_word {p : Char → Bool} {w : List Char} (hne : w ≠ []) (h : ∀ c ∈ w, p c = false) :
    parts p w = [w] := by
  rw [parts_eq_filter h, List.filter_eq_self]
  exact List.forall_mem_singleton.mpr (decide_eq_true hne)

/-- Words with separators between them are the parts again, the blank words left out. -/
theorem parts_intercalate {p : Char → Bool} {c : Char} {sep : List Char} (hc : p c = true)
    (hsep : ∀ d ∈ sep, p d = true) {words : List (List Char)}
    (hwords : ∀ w ∈ words, ∀ d ∈ w, p d = false) :
    parts p ((c :: sep).intercalate words) = words.filter (· ≠ []) := by
  induction words with
  | nil => rfl
  | cons w rest ih =>
      obtain ⟨hw, hrest⟩ := List.forall_mem_cons.mp hwords
      cases rest with
      | nil => rw [List.intercalate_singleton, parts_eq_filter hw]
      | cons v more =>
          rw [List.intercalate_cons_cons, List.append_assoc, List.cons_append, parts_append_cons hc,
            parts_append_left hsep, ih hrest, parts_eq_filter hw, ← List.filter_append]
          rfl

theorem mem_splitOnP {p : Char → Bool} {w text : List Char} (h : w ∈ text.splitOnP p) :
    ∀ c ∈ w, c ∈ text ∧ p c = false := by
  induction text generalizing w with
  | nil =>
      rw [List.mem_singleton.mp h]
      exact List.forall_mem_nil _
  | cons d rest ih =>
      have hrest : ∀ v ∈ rest.splitOnP p, ∀ c ∈ v, c ∈ d :: rest ∧ p c = false := fun v hv c hc =>
        (ih hv c hc).imp_left (List.mem_cons_of_mem d)
      rw [List.splitOnP_cons_eq_if_modifyHead] at h
      split at h
      · rcases List.mem_cons.mp h with rfl | hw
        · exact List.forall_mem_nil _
        · exact hrest w hw
      · rename_i hd
        obtain ⟨first, others, hsplit⟩ := List.exists_cons_of_ne_nil (List.splitOnP_ne_nil p rest)
        rw [hsplit] at hrest
        rw [hsplit, List.modifyHead_cons] at h
        obtain ⟨hfirst, hothers⟩ := List.forall_mem_cons.mp hrest
        rcases List.mem_cons.mp h with rfl | hw
        · exact List.forall_mem_cons.mpr ⟨⟨List.mem_cons_self, Bool.eq_false_iff.mpr hd⟩, hfirst⟩
        · exact hothers w hw

theorem mem_parts {p : Char → Bool} {w text : List Char} (h : w ∈ parts p text) :
    w ≠ [] ∧ ∀ c ∈ w, c ∈ text ∧ p c = false := by
  obtain ⟨hmem, hne⟩ := List.mem_filter.mp h
  exact ⟨of_decide_eq_true hne, mem_splitOnP hmem⟩

/-- Blank parts aside, splitting at stretches of a class is splitting at each of its characters. -/
theorem filter_split_many1 (p : Char → Bool) (text : List Char) :
    ((many1 p).split text).filter (· ≠ []) = parts p text := by
  have hscan : ∀ (fuel : Nat) (before : Option Char) (afterMatch : Bool) (text : List Char),
      text.length < fuel →
        (((many1 p).scanFrom fuel before afterMatch text).1.map Prod.fst ++
          [((many1 p).scanFrom fuel before afterMatch text).2]).filter (· ≠ []) = parts p text := by
    intro fuel
    induction fuel with
    | zero => exact fun _ _ _ h => absurd h (Nat.not_lt_zero _)
    | succ fuel ih =>
        intro before afterMatch text hfuel
        obtain ⟨w, place, rfl, hw, hplace⟩ := exists_stretch p false text
        cases place with
        | nil =>
            rw [List.append_nil, scanFrom, search_many1_eq_none hw, parts_eq_filter hw]
            rfl
        | cons c more =>
            have hc : p c = true := hplace c rfl
            obtain ⟨t, rest, rfl, ht, hrest⟩ := exists_stretch p true more
            have hsearch : (many1 p).search before (w ++ (c :: t ++ rest)) =
                some (w, ⟨c :: t, rest, []⟩) :=
              search_many1 hw (List.cons_ne_nil c t) (List.forall_mem_cons.mpr ⟨hc, ht⟩) hrest
            have hshorter : rest.length < fuel := by
              simp only [List.length_append, List.length_cons] at hfuel
              omega
            have hnext := ih (c :: t).getLast? true rest hshorter
            rw [← List.cons_append, scanFrom_succ hsearch (List.cons_ne_nil c t), List.map_cons,
              List.cons_append, ← List.singleton_append, List.filter_append, hnext, List.cons_append,
              parts_append_cons hc, parts_append_left ht, parts_eq_filter hw]
  exact hscan _ none false text (Nat.lt_succ_self _)

end Re

/-- A group of a match; one that took no part reads as empty. -/
def Hit.submatch (h : Hit) (i : Nat) : List Char := (h.groups.lookup i).getD []

/-- A compiled pattern of any kind: the number of its groups and the matches it finds. -/
structure Pattern where
  groups : Nat
  findAll : List Char → List Hit

def Re.pattern (r : Re) : Pattern := ⟨r.groups, r.findAll⟩

end SphereFx
