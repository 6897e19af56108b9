import SphereFx.Extractor.LevelNumbers

/-!
# The list pass on its own

The second pass over the level map, with its three loops one inside the other as they run. The
innermost one has no bound in its head: it looks for a level that is not in use, and finds one after as
many steps as the map has entries. Whatever map the pass starts from and whatever tokens it is given, it
only adds entries, one for each price that the symbol allows.
-/

namespace SphereFx.Extractor.Parser

variable (p : Parser) (symbol : String)

/-! ### The loops as they run -/

/-- `for { if _, exists := levelMap[nextLevel]; !exists { break }; nextLevel++ }`. -/
inductive Probes (levels : LevelMap) : Int → Int → Prop where
  | free {level : Int} : levels.has level = false → Probes levels level level
  | used {level stop : Int} : levels.has level = true → Probes levels (level + 1) stop →
      Probes levels level stop

/-- The loop over the tokens of a section, with the map and the next level before and after it. -/
inductive TokenLoop : LevelMap × Int → List (List Char) → LevelMap × Int → Prop where
  | done {state : LevelMap × Int} : TokenLoop state [] state
  | malformed {state final : LevelMap × Int} {token : List Char} {rest : List (List Char)} :
      parseFloat token = none → TokenLoop state rest final → TokenLoop state (token :: rest) final
  | refused {state final : LevelMap × Int} {token : List Char} {rest : List (List Char)} {price : F64} :
      parseFloat token = some price → ¬ p.validatePrice price symbol = true →
      TokenLoop state rest final → TokenLoop state (token :: rest) final
  | added {levels : LevelMap} {nextLevel level : Int} {final : LevelMap × Int} {token : List Char}
      {rest : List (List Char)} {price : F64} :
      parseFloat token = some price → p.validatePrice price symbol = true →
      Probes levels nextLevel level →
      TokenLoop (levels.set level ⟨toInt32 level, price⟩, level + 1) rest final →
      TokenLoop (levels, nextLevel) (token :: rest) final

/-- The loop over the sections, each given by its tokens. -/
inductive SectionLoop : LevelMap → List (List (List Char)) → LevelMap → Prop where
  | done {levels : LevelMap} : SectionLoop levels [] levels
  | next {levels final : LevelMap} {state : LevelMap × Int} {tokens : List (List Char)}
      {rest : List (List (List Char))} :
      TokenLoop p symbol (levels, (levels.length : Int) + 1) tokens state →
      SectionLoop state.1 rest final → SectionLoop levels (tokens :: rest) final

/-- The pass as `addToken` computes it. -/
def listPass (levels : LevelMap) (sections : List (List (List Char))) : LevelMap :=
  sections.foldl (fun levels tokens =>
    (tokens.foldl (p.addToken symbol) (levels, (levels.length : Int) + 1)).1) levels

/-- The second pass over a text is one over the sections it captures. -/
theorem levelMap_eq_listPass {cfg : PatternConfig} (h : cfg.noIndexList = true) (text : List Char) :
    p.levelMap cfg text symbol = p.listPass symbol (p.indexedLevels cfg text symbol)
      (((listPattern cfg).findAll text).map fun m => p.parseNumberList (m.submatch 3) symbol) := by
  rw [levelMap_eq, if_pos h, listPass, List.foldl_map]
  rfl

variable {p symbol} {levels : LevelMap}

/-! ### They all come to an end -/

theorem probes_of_has {fuel : Nat} {level : Int}
    (h : levels.has (unusedFrom levels fuel level) = false) :
    Probes levels level (unusedFrom levels fuel level) := by
  induction fuel generalizing level with
  | zero => exact .free h
  | succ fuel ih =>
      rw [unusedFrom] at h ⊢
      by_cases hlevel : levels.has level = true
      · rw [if_pos hlevel] at h ⊢
        exact .used hlevel (ih h)
      · rw [if_neg hlevel]
        exact .free (Bool.eq_false_iff.mpr hlevel)

/-- The search ends, and there is one level at which it can. -/
theorem probes_iff {level stop : Int} :
    Probes levels level stop ↔ stop = unusedFrom levels (levels.length + 1) level := by
  have hends := probes_of_has (has_unusedFrom levels level)
  refine ⟨fun h => ?_, fun h => h ▸ hends⟩
  clear hends
  have hunique : ∀ {other : Int}, Probes levels level other → stop = other := by
    induction h with
    | free hfree =>
        intro other hother
        cases hother with
        | free => rfl
        | used hused => cases hused.symm.trans hfree
    | used hused _ ih =>
        intro other hother
        cases hother with
        | free hfree => cases hused.symm.trans hfree
        | used _ hnext => exact ih hnext
  exact hunique (probes_of_has (has_unusedFrom levels level))

theorem tokenLoop_iff {state final : LevelMap × Int} {tokens : List (List Char)} :
    TokenLoop p symbol state tokens final ↔ final = tokens.foldl (p.addToken symbol) state := by
  refine ⟨fun h => ?_, fun h => ?_⟩
  · induction h with
    | done => rfl
    | malformed hparse _ ih => rw [ih, List.foldl_cons, addToken, hparse]
    | refused hparse hrefused _ ih =>
        rw [ih, List.foldl_cons, addToken, hparse]
        simp only [if_neg hrefused]
    | added hparse hprice hprobes _ ih =>
        rw [ih, List.foldl_cons, addToken, hparse, probes_iff.mp hprobes]
        simp only [if_pos hprice]
  · subst h
    induction tokens generalizing state with
    | nil => exact .done
    | cons token rest ih =>
        rw [List.foldl_cons]
        cases hparse : parseFloat token with
        | none =>
            have hstep : p.addToken symbol state token = state := by rw [addToken, hparse]
            rw [hstep]
            exact .malformed hparse ih
        | some price =>
            by_cases hprice : p.validatePrice price symbol = true
            · refine .added hparse hprice (probes_iff.mpr rfl) ?_
              have hstep := @ih (p.addToken symbol state token)
              rw [addToken, hparse] at hstep ⊢
              simp only [if_pos hprice] at hstep ⊢
              exact hstep
            · have hstep : p.addToken symbol state token = state := by
                rw [addToken, hparse]
                exact if_neg hprice
              rw [hstep]
              exact .refused hparse hprice ih

private theorem sectionLoop_iff {final : LevelMap} {sections : List (List (List Char))} :
    SectionLoop p symbol levels sections final ↔ final = p.listPass symbol levels sections := by
  refine ⟨fun h => ?_, fun h => ?_⟩
  · induction h with
    | done => rfl
    | next htokens _ ih =>
        rw [ih, tokenLoop_iff.mp htokens]
        rfl
  · subst h
    induction sections generalizing levels with
    | nil => exact .done
    | cons tokens rest ih => exact .next (tokenLoop_iff.mpr rfl) ih

/-! ### They only add entries -/

theorem has_append (more : LevelMap) (level : Int) :
    LevelMap.has (levels ++ more) level = (levels.has level || more.has level) :=
  List.any_append

variable (p symbol) in
/-- One entry for each price among the tokens of a section that the symbol allows, in their order and at
increasing levels. -/
structure SectionEntries (tokens : List (List Char)) (entries : LevelMap) : Prop where
  prices : entries.map (fun entry => entry.2.price) = p.pricesOf symbol tokens
  narrowed : ∀ entry ∈ entries, entry.2.level = toInt32 entry.1
  increasing : entries.Pairwise fun a b => a.1 < b.1

private theorem addToken_of_takes {token : List Char} {price : F64} (h : p.Takes symbol token price)
    (state : LevelMap × Int) : ∃ level, state.2 ≤ level ∧ state.1.has level = false ∧
      p.addToken symbol state token =
        (state.1 ++ [(level, ⟨toInt32 level, price⟩)], level + 1) := by
  have hunused := has_unusedFrom state.1 state.2
  refine ⟨_, (has_below_unusedFrom state.1 (state.1.length + 1) state.2).1, hunused, ?_⟩
  rw [addToken, h.1]
  simp only [if_pos h.2]
  rw [LevelMap.set_of_unused hunused]

private theorem pricesOf_cons_of_takes {token : List Char} {price : F64} (h : p.Takes symbol token price)
    (rest : List (List Char)) :
    p.pricesOf symbol (token :: rest) = price :: p.pricesOf symbol rest := by
  rw [pricesOf, List.filterMap_cons, h.1, Option.filter_some, if_pos h.2]
  rfl

private theorem pricesOf_cons_of_not_takes {token : List Char}
    (h : ∀ price, ¬ p.Takes symbol token price) (rest : List (List Char)) :
    p.pricesOf symbol (token :: rest) = p.pricesOf symbol rest := by
  rw [pricesOf, pricesOf, List.filterMap_cons]
  cases hparse : parseFloat token with
  | none => rfl
  | some price => rw [Option.filter_some, if_neg fun hprice => h price ⟨hparse, hprice⟩]

/-- The entries of a section stand behind those of the map, at levels from the next one on that the map
has not. -/
private theorem exists_entries (tokens : List (List Char)) (state : LevelMap × Int) :
    ∃ entries stop, tokens.foldl (p.addToken symbol) state = (state.1 ++ entries, stop) ∧
      SectionEntries p symbol tokens entries ∧
      ∀ entry ∈ entries, state.2 ≤ entry.1 ∧ state.1.has entry.1 = false := by
  induction tokens generalizing state with
  | nil =>
      refine ⟨[], state.2, ?_, ⟨rfl, List.forall_mem_nil _, List.Pairwise.nil⟩, List.forall_mem_nil _⟩
      rw [List.append_nil]
      rfl
  | cons token rest ih =>
      rw [List.foldl_cons]
      by_cases htakes : ∃ price, p.Takes symbol token price
      · obtain ⟨price, htakes⟩ := htakes
        obtain ⟨level, hstart, hunused, hstep⟩ := addToken_of_takes htakes state
        obtain ⟨entries, stop, hfold, hentries, hafter⟩ :=
          ih (state.1 ++ [(level, ⟨toInt32 level, price⟩)], level + 1)
        rw [hstep]
        refine ⟨(level, ⟨toInt32 level, price⟩) :: entries, stop, ?_, ⟨?_, ?_, ?_⟩, ?_⟩
        · rw [hfold, List.append_assoc]
          rfl
        · rw [List.map_cons, hentries.prices, pricesOf_cons_of_takes htakes]
        · exact List.forall_mem_cons.mpr ⟨rfl, hentries.narrowed⟩
        · refine List.Pairwise.cons (fun entry hentry => ?_) hentries.increasing
          have hnext : level + 1 ≤ entry.1 := (hafter entry hentry).1
          show level < entry.1
          omega
        · refine List.forall_mem_cons.mpr ⟨⟨hstart, hunused⟩, fun entry hentry => ?_⟩
          obtain ⟨hnext, hboth⟩ := hafter entry hentry
          have hnext : level + 1 ≤ entry.1 := hnext
          rw [has_append, Bool.or_eq_false_iff] at hboth
          exact ⟨by omega, hboth.1⟩
      · have hnone : ∀ price, ¬ p.Takes symbol token price := fun price h => htakes ⟨price, h⟩
        rw [addToken_of_not_takes hnone]
        obtain ⟨entries, stop, hfold, hentries, hafter⟩ := ih state
        refine ⟨entries, stop, hfold, ⟨?_, hentries.narrowed, hentries.increasing⟩, hafter⟩
        rw [hentries.prices, pricesOf_cons_of_not_takes hnone]

variable (p symbol) in
/-- What a pass over sections does to a map: its entries stay as they are, and the ones of each section
are added at levels that no other entry has. -/
def AddsTargets (levels : LevelMap) (sections : List (List (List Char))) (final : LevelMap) : Prop :=
  ∃ added : List LevelMap, final = levels ++ added.flatten ∧
    List.Forall₂ (SectionEntries p symbol) sections added ∧
    (∀ entry ∈ added.flatten, levels.has entry.1 = false) ∧ (added.flatten.map Prod.fst).Nodup

private theorem addsTargets_listPass (levels : LevelMap) (sections : List (List (List Char))) :
    AddsTargets p symbol levels sections (p.listPass symbol levels sections) := by
  induction sections generalizing levels with
  | nil => exact ⟨[], (List.append_nil levels).symm, .nil, List.forall_mem_nil _, List.nodup_nil⟩
  | cons tokens rest ih =>
      obtain ⟨entries, stop, hfold, hentries, hafter⟩ :=
        @exists_entries p symbol tokens (levels, (levels.length : Int) + 1)
      obtain ⟨added, hfinal, hadded, hunused, hnodup⟩ := ih (levels ++ entries)
      refine ⟨entries :: added, ?_, .cons hentries hadded, ?_, ?_⟩
      · have hpass : p.listPass symbol levels (tokens :: rest) =
            p.listPass symbol (levels ++ entries) rest := by
          rw [listPass, List.foldl_cons, hfold]
          rfl
        rw [hpass, hfinal, List.flatten_cons, List.append_assoc]
      · rw [List.flatten_cons]
        refine List.forall_mem_append.mpr ⟨fun entry hentry => (hafter entry hentry).2, ?_⟩
        intro entry hentry
        have hboth := hunused entry hentry
        rw [has_append, Bool.or_eq_false_iff] at hboth
        exact hboth.1
      · rw [List.flatten_cons, List.map_append, List.nodup_append]
        refine ⟨List.pairwise_map.mpr (hentries.increasing.imp ne_of_lt), hnodup, ?_⟩
        intro level hlevel other hother
        obtain ⟨entry, hentry, rfl⟩ := List.mem_map.mp hother
        have hboth := hunused entry hentry
        rw [has_append, Bool.or_eq_false_iff] at hboth
        rintro rfl
        rw [LevelMap.has_iff.mpr hlevel] at hboth
        cases hboth.2

/-- From every map and for all sections the pass ends with one map, which has the old entries and one for
each price that the symbol allows. -/
theorem list_pass_adds (p : Parser) (symbol : String) (levels : LevelMap)
    (sections : List (List (List Char))) :
    (∀ final, SectionLoop p symbol levels sections final ↔
      final = p.listPass symbol levels sections) ∧
    AddsTargets p symbol levels sections (p.listPass symbol levels sections) :=
  ⟨fun _ => sectionLoop_iff, addsTargets_listPass levels sections⟩

end SphereFx.Extractor.Parser
