import Mathlib.Data.List.Nodup
import Mathlib.Logic.Function.Basic
import SphereFx.Base.Run

/-!
# Check, then insert

Clients that first read whether a key is taken and insert a row for it later, in a table whose unique
constraint has the last word. Any number of them run at once, and each may fail at any point, also when
its row is stored and it has not been told so.
-/

namespace SphereFx.CheckInsert

variable {ι ρ κ ε : Type}

/-- How far a client is: it has not read yet, it found its key free or taken, its row is stored, and it
has been told so or something went wrong since, the constraint refused its row, or something went wrong
before. -/
inductive Phase where
  | idle
  | absent
  | taken
  | stored
  | confirmed
  | unconfirmed
  | duplicate
  | failed
  deriving DecidableEq, Repr

def Phase.hasStored : Phase → Bool
  | .stored | .confirmed | .unconfirmed => true
  | _ => false

structure State (ι ρ : Type) where
  rows : List ρ
  phase : ι → Phase

inductive Action (ι ε : Type) where
  | check (client : ι)
  | insert (client : ι) (extra : ε)
  | confirm (client : ι)
  | fail (client : ι)

/-- What the clients want to store. A row is built from the client and from what its environment adds;
the database keeps its promises about the row (`fits`) whatever it answers. -/
structure Scheme (ι ρ κ ε : Type) where
  key : ρ → κ
  wanted : ι → κ
  build : ι → ε → Option ρ
  key_build : ∀ {client extra row}, build client extra = some row → key row = wanted client
  fits : List ρ → ρ → Bool

def start (rows : List ρ) : State ι ρ := ⟨rows, fun _ => .idle⟩

section Steps

variable [DecidableEq κ] (c : Scheme ι ρ κ ε)

/-- The answer of `SELECT .. WHERE key = k`. -/
def Scheme.matching (rows : List ρ) (k : κ) : List ρ := rows.filter fun row => c.key row = k

theorem Scheme.matching_eq_nil {rows : List ρ} {k : κ} :
    c.matching rows k = [] ↔ k ∉ rows.map c.key := by
  unfold Scheme.matching
  rw [List.filter_eq_nil_iff, List.mem_map]
  grind

/-- Under the constraint a read never finds two rows. -/
theorem filter_of_unique {key : ρ → κ} {rows : List ρ} (hunique : (rows.map key).Nodup) {row : ρ}
    (h : row ∈ rows) : rows.filter (fun other => key other = key row) = [row] := by
  induction rows with
  | nil => cases h
  | cons first rest ih =>
      rw [List.map_cons, List.nodup_cons] at hunique
      rcases List.mem_cons.mp h with rfl | hmem
      · have hnil : rest.filter (fun other => key other = key row) = [] := by
          rw [List.filter_eq_nil_iff]
          intro other hother heq
          exact hunique.1 (of_decide_eq_true heq ▸ List.mem_map_of_mem hother)
        rw [List.filter_cons_of_pos (by simp), hnil]
      · have hne : key first ≠ key row := fun heq => hunique.1 (heq ▸ List.mem_map_of_mem hmem)
        rw [List.filter_cons_of_neg (by simpa using hne)]
        exact ih hunique.2 hmem

variable [DecidableEq ι]

def State.setPhase (s : State ι ρ) (client : ι) (phase : Phase) : State ι ρ :=
  { s with phase := Function.update s.phase client phase }

@[simp] theorem State.setPhase_rows (s : State ι ρ) (client : ι) (phase : Phase) :
    (s.setPhase client phase).rows = s.rows :=
  rfl

theorem State.setPhase_phase (s : State ι ρ) (client : ι) (phase : Phase) (other : ι) :
    (s.setPhase client phase).phase other = if other = client then phase else s.phase other := by
  unfold State.setPhase
  exact Function.update_apply _ _ _ _

def Scheme.step (s : State ι ρ) : Action ι ε → Option (State ι ρ)
  | .check client =>
      if s.phase client = .idle then
        some (s.setPhase client (if c.matching s.rows (c.wanted client) = [] then .absent else .taken))
      else none
  | .insert client extra =>
      if s.phase client = .absent then
        match c.build client extra with
        | none => some (s.setPhase client .failed)
        | some row =>
            if c.fits s.rows row then
              if c.matching s.rows (c.wanted client) = [] then
                some ({ s with rows := row :: s.rows }.setPhase client .stored)
              else some (s.setPhase client .duplicate)
            else none
      else none
  | .confirm client =>
      if s.phase client = .stored then some (s.setPhase client .confirmed) else none
  | .fail client =>
      if s.phase client = .idle ∨ s.phase client = .absent then some (s.setPhase client .failed)
      else if s.phase client = .stored then some (s.setPhase client .unconfirmed)
      else none

/-- What a step does. -/
theorem Scheme.step_cases {s t : State ι ρ} {a : Action ι ε} (h : c.step s a = some t) :
    ∃ client,
      (∃ phase, t = s.setPhase client phase ∧ phase.hasStored = (s.phase client).hasStored ∧
          (phase = .taken ∨ phase = .duplicate → c.wanted client ∈ s.rows.map c.key)) ∨
        ∃ extra row, c.build client extra = some row ∧ c.fits s.rows row = true ∧
          c.wanted client ∉ s.rows.map c.key ∧
          t = { s with rows := row :: s.rows }.setPhase client .stored := by
  cases a with
  | check client =>
      simp only [step, Option.ite_none_right_eq_some, Option.some.injEq] at h
      obtain ⟨hidle, rfl⟩ := h
      refine ⟨client, .inl ⟨_, rfl, ?_, ?_⟩⟩
      · rw [hidle]
        split <;> rfl
      · intro hphase
        by_contra hmem
        rw [if_pos (c.matching_eq_nil.mpr hmem)] at hphase
        simp at hphase
  | insert client extra =>
      simp only [step, Option.ite_none_right_eq_some] at h
      obtain ⟨habsent, h⟩ := h
      cases hbuild : c.build client extra with
      | none =>
          rw [hbuild] at h
          exact ⟨client, .inl ⟨.failed, (Option.some.inj h).symm, by rw [habsent]; rfl, by simp⟩⟩
      | some row =>
          simp only [hbuild, Option.ite_none_right_eq_some] at h
          obtain ⟨hfits, h⟩ := h
          split at h
          · next hnil =>
            exact ⟨client, .inr ⟨extra, row, hbuild, hfits, c.matching_eq_nil.mp hnil,
              (Option.some.inj h).symm⟩⟩
          · next hnil =>
            refine ⟨client, .inl ⟨.duplicate, (Option.some.inj h).symm, by rw [habsent]; rfl,
              fun _ => ?_⟩⟩
            by_contra hfree
            exact hnil (c.matching_eq_nil.mpr hfree)
  | confirm client =>
      simp only [step, Option.ite_none_right_eq_some, Option.some.injEq] at h
      obtain ⟨hstored, rfl⟩ := h
      exact ⟨client, .inl ⟨_, rfl, by rw [hstored]; rfl, by simp⟩⟩
  | fail client =>
      simp only [step] at h
      split at h
      · next hopen =>
        refine ⟨client, .inl ⟨.failed, (Option.some.inj h).symm, ?_, by simp⟩⟩
        rcases hopen with hidle | habsent
        · rw [hidle]
          rfl
        · rw [habsent]
          rfl
      · simp only [Option.ite_none_right_eq_some, Option.some.injEq] at h
        obtain ⟨hstored, rfl⟩ := h
        exact ⟨client, .inl ⟨_, rfl, by rw [hstored]; rfl, by simp⟩⟩

end Steps

/-! ### What holds in every run -/

/-- The rows are the first ones and those of the clients that stored, one for each key. -/
structure Scheme.Kept (c : Scheme ι ρ κ ε) (first : List ρ) (s : State ι ρ) : Prop where
  unique : (s.rows.map c.key).Nodup
  first_mem : ∀ row ∈ first, row ∈ s.rows
  origin : ∀ row ∈ s.rows, row ∈ first ∨
    ∃ client extra, (s.phase client).hasStored = true ∧ c.build client extra = some row
  stored_mem : ∀ client, (s.phase client).hasStored = true →
    ∃ extra row, c.build client extra = some row ∧ row ∈ s.rows ∧ row ∉ first
  alone : ∀ one two, (s.phase one).hasStored = true → (s.phase two).hasStored = true →
    c.wanted one = c.wanted two → one = two
  refused : ∀ client, s.phase client = .taken ∨ s.phase client = .duplicate →
    c.wanted client ∈ s.rows.map c.key

namespace Scheme

theorem kept_start (c : Scheme ι ρ κ ε) {first : List ρ} (h : (first.map c.key).Nodup) :
    c.Kept first (CheckInsert.start first) where
  unique := h
  first_mem _ hrow := hrow
  origin _ hrow := .inl hrow
  stored_mem _ hstored := nomatch hstored
  alone _ _ hstored := nomatch hstored
  refused _ hphase := by
    rcases hphase with hphase | hphase
    · cases hphase
    · cases hphase

namespace Kept

variable {c : Scheme ι ρ κ ε} {first : List ρ} {s t : State ι ρ}

theorem wanted_mem (h : c.Kept first s) {client : ι} (hstored : (s.phase client).hasStored = true) :
    c.wanted client ∈ s.rows.map c.key := by
  obtain ⟨extra, row, hbuild, hrow, -⟩ := h.stored_mem client hstored
  exact c.key_build hbuild ▸ List.mem_map_of_mem hrow

/-- A key that was free and for which some client has been answered belongs to one client. -/
theorem exists_stored (h : c.Kept first s) {client : ι}
    (hfree : c.wanted client ∉ first.map c.key)
    (hdone : s.phase client = .taken ∨ s.phase client = .duplicate ∨
      (s.phase client).hasStored = true) :
    ∃ winner, (s.phase winner).hasStored = true ∧ c.wanted winner = c.wanted client := by
  have hmem : c.wanted client ∈ s.rows.map c.key := by
    rcases hdone with htaken | hduplicate | hstored
    · exact h.refused client (.inl htaken)
    · exact h.refused client (.inr hduplicate)
    · exact h.wanted_mem hstored
  obtain ⟨row, hrow, hkey⟩ := List.mem_map.mp hmem
  rcases h.origin row hrow with hfirst | ⟨winner, extra, hstored, hbuild⟩
  · exact absurd (List.mem_map.mpr ⟨row, hfirst, hkey⟩) hfree
  · exact ⟨winner, hstored, (c.key_build hbuild).symm.trans hkey⟩

variable [DecidableEq ι]

theorem hasStored_setPhase {client : ι} {phase : Phase}
    (h : phase.hasStored = (s.phase client).hasStored) (other : ι) :
    ((s.setPhase client phase).phase other).hasStored = (s.phase other).hasStored := by
  rw [State.setPhase_phase]
  split
  · next heq => exact heq ▸ h
  · rfl

/-- A client that does not store changes nothing. -/
theorem setPhase (h : c.Kept first s) {client : ι} {phase : Phase}
    (hphase : phase.hasStored = (s.phase client).hasStored)
    (hrefused : phase = .taken ∨ phase = .duplicate → c.wanted client ∈ s.rows.map c.key) :
    c.Kept first (s.setPhase client phase) := by
  refine ⟨h.unique, h.first_mem, fun row hrow => ?_, fun other hother => ?_, fun one two hone htwo => ?_,
    fun other hother => ?_⟩
  · rcases h.origin row hrow with hfirst | ⟨other, extra, hother, hbuild⟩
    · exact .inl hfirst
    · exact .inr ⟨other, extra, (hasStored_setPhase hphase other).trans hother, hbuild⟩
  · rw [hasStored_setPhase hphase] at hother
    exact h.stored_mem other hother
  · rw [hasStored_setPhase hphase] at hone htwo
    exact h.alone one two hone htwo
  · rw [State.setPhase_phase] at hother
    split at hother
    · next heq => exact heq ▸ hrefused hother
    · exact h.refused other hother

/-- A client that stores had its key to itself. -/
theorem store (h : c.Kept first s) {client : ι} {extra : ε} {row : ρ}
    (hbuild : c.build client extra = some row) (hfree : c.wanted client ∉ s.rows.map c.key) :
    c.Kept first ({ s with rows := row :: s.rows }.setPhase client .stored) := by
  have hkey : c.key row ∉ s.rows.map c.key := c.key_build hbuild ▸ hfree
  have hother : ∀ other, (s.phase other).hasStored = true → c.wanted other ≠ c.wanted client :=
    fun other hstored heq => hfree (heq ▸ h.wanted_mem hstored)
  have hgrow : ∀ k ∈ s.rows.map c.key, k ∈ (row :: s.rows).map c.key :=
    fun k hk => List.mem_cons_of_mem _ hk
  refine ⟨List.nodup_cons.mpr ⟨hkey, h.unique⟩, fun old hold => ?_, fun old hold => ?_,
    fun other hstored => ?_, fun one two hone htwo hwanted => ?_, fun other hphase => ?_⟩
  · exact List.mem_cons_of_mem _ (h.first_mem old hold)
  · simp only [State.setPhase_phase]
    rcases List.mem_cons.mp hold with rfl | hmem
    · exact .inr ⟨client, extra, by rw [if_pos rfl]; rfl, hbuild⟩
    · rcases h.origin old hmem with hfirst | ⟨other, extra', hstored, hbuild'⟩
      · exact .inl hfirst
      · refine .inr ⟨other, extra', ?_, hbuild'⟩
        split
        · rfl
        · exact hstored
  · rw [State.setPhase_phase] at hstored
    split at hstored
    · next heq =>
      subst heq
      refine ⟨extra, row, hbuild, List.mem_cons_self, fun hfirst => ?_⟩
      exact hkey (List.mem_map_of_mem (h.first_mem row hfirst))
    · obtain ⟨extra', old, hbuild', hold, hnew⟩ := h.stored_mem other hstored
      exact ⟨extra', old, hbuild', List.mem_cons_of_mem _ hold, hnew⟩
  · rw [State.setPhase_phase] at hone htwo
    split at hone
    · next heq =>
      split at htwo
      · next heq' => exact heq.trans heq'.symm
      · exact absurd (hwanted.symm.trans (congrArg c.wanted heq)) (hother two htwo)
    · split at htwo
      · next heq => exact absurd (hwanted.trans (congrArg c.wanted heq)) (hother one hone)
      · exact h.alone one two hone htwo hwanted
  · rw [State.setPhase_phase] at hphase
    split at hphase
    · simp at hphase
    · exact hgrow _ (h.refused other hphase)

variable [DecidableEq κ]

theorem step (h : c.Kept first s) {a : Action ι ε} (hstep : c.step s a = some t) : c.Kept first t := by
  obtain ⟨client, ⟨phase, rfl, hphase, hrefused⟩ | ⟨extra, row, hbuild, -, hfree, rfl⟩⟩ :=
    c.step_cases hstep
  · exact h.setPhase hphase hrefused
  · exact h.store hbuild hfree

theorem run {actions : List (Action ι ε)} (h : (first.map c.key).Nodup)
    (hrun : runFrom c.step (CheckInsert.start first) actions = some s) : c.Kept first s :=
  runFrom_invariant (fun hs hstep => step hs hstep) (c.kept_start h) hrun

end Kept

theorem runFrom_rows [DecidableEq ι] [DecidableEq κ] {c : Scheme ι ρ κ ε} {P : List ρ → Prop}
    (hfits : ∀ {rows row}, P rows → c.fits rows row = true → P (row :: rows)) {first : List ρ}
    {s : State ι ρ} {actions : List (Action ι ε)} (h : P first)
    (hrun : runFrom c.step (CheckInsert.start first) actions = some s) : P s.rows := by
  have hstep : ∀ {s a t}, P s.rows → c.step s a = some t → P t.rows := by
    intro s a t hs hst
    obtain ⟨client, ⟨phase, rfl, -, -⟩ | ⟨extra, row, -, hrow, -, rfl⟩⟩ := c.step_cases hst
    · exact hs
    · exact hfits hs hrow
  exact @runFrom_invariant _ _ c.step (fun s => P s.rows) hstep _ _ _ h hrun

end Scheme

end SphereFx.CheckInsert
