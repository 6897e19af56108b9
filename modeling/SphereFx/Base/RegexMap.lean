import SphereFx.Base.Regex

/-!
# Renaming the characters of a text

An expression is blind to a renaming if none of its classes tells a character from its image. In a
renamed text it then matches the renamed stretches, at the same places and in the same order of
preference.
-/

namespace SphereFx

/-- A match of the renamed text. -/
def Hit.map (f : Char → Char) (h : Hit) : Hit where
  taken := h.taken.map f
  rest := h.rest.map f
  groups := h.groups.map fun g => (g.1, g.2.map f)

theorem Hit.submatch_map (f : Char → Char) (h : Hit) (i : Nat) :
    (h.map f).submatch i = (h.submatch i).map f := by
  have hlookup : ∀ groups : List (Nat × List Char),
      (groups.map fun g => (g.1, g.2.map f)).lookup i = (groups.lookup i).map (List.map f) := by
    intro groups
    induction groups with
    | nil => rfl
    | cons g rest ih =>
        rw [List.map_cons, List.lookup_cons, List.lookup_cons, ih]
        split <;> rfl
  rw [submatch, submatch, map, hlookup]
  cases h.groups.lookup i <;> rfl

namespace Re

variable {f : Char → Char}

/-- No class of the expression tells a character from its image. -/
def Blind (f : Char → Char) : Re → Prop
  | empty => True
  | cls p => ∀ c, p (f c) = p c
  | boundary => ∀ c, isWord (f c) = isWord c
  | seq a b => a.Blind f ∧ b.Blind f
  | alt a b => a.Blind f ∧ b.Blind f
  | many p _ => ∀ c, p (f c) = p c
  | group _ r => r.Blind f

theorem blind_seqs {rs : List Re} (h : ∀ r ∈ rs, r.Blind f) : (seqs rs).Blind f := by
  induction rs with
  | nil => exact trivial
  | cons r rest ih =>
      obtain ⟨hr, hrest⟩ := List.forall_mem_cons.mp h
      cases rest with
      | nil => exact hr
      | cons s more => exact ⟨hr, ih hrest⟩

theorem blind_alts {rs : List Re} (h : ∀ r ∈ rs, r.Blind f) : (alts rs).Blind f := by
  induction rs with
  | nil => exact trivial
  | cons r rest ih =>
      obtain ⟨hr, hrest⟩ := List.forall_mem_cons.mp h
      cases rest with
      | nil => exact hr
      | cons s more => exact ⟨hr, ih hrest⟩

theorem blind_many1 {p : Char → Bool} (h : ∀ c, p (f c) = p c) : (many1 p).Blind f := ⟨h, h⟩

theorem blind_literal {same : Char → Char → Bool} (h : ∀ c d, same c (f d) = same c d)
    (text : List Char) : (literal same text).Blind f := by
  apply blind_seqs
  intro r hr
  obtain ⟨c, -, rfl⟩ := List.mem_map.mp hr
  exact h c

/-! ### Matches -/

theorem lastOr_map (before : Option Char) (taken : List Char) :
    lastOr (before.map f) (taken.map f) = (lastOr before taken).map f := by
  rw [lastOr, lastOr, List.getLast?_map]
  cases taken.getLast? <;> rfl

theorem atBoundary_map (h : ∀ c, isWord (f c) = isWord c) (before after : Option Char) :
    atBoundary (before.map f) (after.map f) = atBoundary before after := by
  have hany : ∀ place : Option Char, (place.map f).any isWord = place.any isWord := by
    intro place
    cases place with
    | none => rfl
    | some c => exact h c
  rw [atBoundary, atBoundary, hany, hany]

theorem runMany_map {p : Char → Bool} (h : ∀ c, p (f c) = p c) (greedy : Bool)
    (text : List Char) : runMany p greedy (text.map f) = (runMany p greedy text).map (Hit.map f) := by
  induction text with
  | nil => rfl
  | cons c rest ih =>
      have hmore : (runMany p greedy (rest.map f)).map (fun h => { h with taken := f c :: h.taken }) =
          ((runMany p greedy rest).map fun h => { h with taken := c :: h.taken }).map (Hit.map f) := by
        rw [ih, List.map_map, List.map_map]
        rfl
      rw [List.map_cons, runMany, runMany, h c, hmore]
      cases p c with
      | false => rfl
      | true =>
          cases greedy with
          | false => rfl
          | true =>
              simp only [if_true, List.map_append, List.map_singleton]
              rfl

/-- The matches in the renamed text are the renamed matches. -/
theorem run_map {r : Re} (h : r.Blind f) (before : Option Char) (text : List Char) :
    r.run (before.map f) (text.map f) = (r.run before text).map (Hit.map f) := by
  induction r generalizing before text with
  | empty => rfl
  | cls p =>
      cases text with
      | nil => rfl
      | cons c rest =>
          rw [List.map_cons, run, run, h c]
          cases p c <;> rfl
  | boundary =>
      rw [run, run, List.head?_map, atBoundary_map h]
      cases atBoundary before text.head? <;> rfl
  | seq a b iha ihb =>
      rw [run, run, iha h.1, List.flatMap_map, List.map_flatMap]
      apply List.flatMap_congr
      intro first _
      show ((b.run (lastOr (before.map f) (first.taken.map f)) (first.rest.map f)).map _) = _
      rw [lastOr_map, ihb h.2, List.map_map, List.map_map]
      apply List.map_congr_left
      intro second _
      simp only [Function.comp_apply, Hit.map, List.map_append]
  | alt a b iha ihb => rw [run, run, iha h.1, ihb h.2, List.map_append]
  | many p greedy => exact runMany_map h greedy text
  | group i r ih =>
      rw [run, run, ih h, List.map_map, List.map_map]
      rfl

/-! ### Searches and scans -/

theorem search_map {r : Re} (h : r.Blind f) (before : Option Char) (text : List Char) :
    r.search (before.map f) (text.map f) =
      (r.search before text).map fun found => (found.1.map f, found.2.map f) := by
  induction text generalizing before with
  | nil =>
      have hrun := run_map h before []
      rw [List.map_nil] at hrun
      rw [List.map_nil, search, search, hrun, List.head?_map]
      cases (r.run before []).head? <;> rfl
  | cons c rest ih =>
      have hrun := run_map h before (c :: rest)
      rw [List.map_cons] at hrun
      rw [List.map_cons, search, search, hrun, List.head?_map]
      cases (r.run before (c :: rest)).head? with
      | some found => rfl
      | none =>
          have hthere := ih (some c)
          rw [Option.map_some] at hthere
          simp only [Option.map_none, hthere, Option.map_map]
          rfl

theorem find_map {r : Re} (h : r.Blind f) (text : List Char) :
    r.find (text.map f) = (r.find text).map (Hit.map f) := by
  have hsearch := search_map h none text
  rw [Option.map_none] at hsearch
  rw [find, find, hsearch, Option.map_map, Option.map_map]
  rfl

/-- The pieces of the renamed text. -/
def renamed (f : Char → Char) (pieces : Pieces) : Pieces :=
  (pieces.1.map fun piece => (piece.1.map f, piece.2.map f), pieces.2.map f)

theorem skipping_renamed (gap : List Char) (pieces : Pieces) :
    skipping (gap.map f) (renamed f pieces) = renamed f (skipping gap pieces) := by
  obtain ⟨found, tail⟩ := pieces
  cases found with
  | nil => simp [skipping, renamed]
  | cons piece rest => simp [skipping, renamed]

theorem scanFrom_map {r : Re} (h : r.Blind f) (fuel : Nat) (before : Option Char)
    (afterMatch : Bool) (text : List Char) :
    r.scanFrom fuel (before.map f) afterMatch (text.map f) =
      renamed f (r.scanFrom fuel before afterMatch text) := by
  induction fuel generalizing before afterMatch text with
  | zero => rfl
  | succ fuel ih =>
      rw [scanFrom, scanFrom, search_map h]
      cases r.search before text with
      | none => rfl
      | some found =>
          obtain ⟨skipped, taken, rest, groups⟩ := found
          have hblank : (skipped.map f).isEmpty = skipped.isEmpty := by
            simp
          simp only [Option.map_some, Hit.map]
          by_cases hempty : taken = []
          · -- After an empty match the scan moves on by one character.
            simp only [hempty, List.map_nil, ne_eq, not_true_eq_false, if_false, hblank]
            cases rest with
            | nil => split <;> rfl
            | cons c rest =>
                have hthere := ih (some c) false rest
                rw [Option.map_some] at hthere
                have hnext : skipping [f c] (r.scanFrom fuel (some (f c)) false (rest.map f)) =
                    renamed f (skipping [c] (r.scanFrom fuel (some c) false rest)) := by
                  rw [hthere, ← skipping_renamed]
                  rfl
                simp only [List.map_cons, hnext]
                split <;> rfl
          · have hne : taken.map f ≠ [] := by
              simpa using hempty
            simp only [ne_eq, hempty, hne, not_false_eq_true, if_true, List.getLast?_map, ih]
            rfl

theorem scan_map {r : Re} (h : r.Blind f) (text : List Char) :
    r.scan (text.map f) = renamed f (r.scan text) := by
  have hscan := scanFrom_map h (text.length + 1) none false text
  rw [Option.map_none] at hscan
  rw [scan, scan, List.length_map, hscan]

theorem findAll_map {r : Re} (h : r.Blind f) (text : List Char) :
    r.findAll (text.map f) = (r.findAll text).map (Hit.map f) := by
  rw [findAll, findAll, scan_map h, renamed, List.map_map, List.map_map]
  rfl

theorem split_map {r : Re} (h : r.Blind f) (text : List Char) :
    r.split (text.map f) = (r.split text).map (List.map f) := by
  simp only [split, scan_map h, renamed, List.map_append, List.map_map, List.map_singleton]
  rfl

end Re

end SphereFx
