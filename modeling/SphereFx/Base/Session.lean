import SphereFx.Base.Table

/-!
# A session as a unit of work

An ORM session over one table: the persistent objects a handler has read or stored, as the handler
has changed them since, and the rows it is going to insert or delete. A commit writes all of it, so a
change made to a persistent object after one commit is written by the next one. The session ends with
the request: it is committed after a handler that returned and dropped after one that raised.
-/

namespace SphereFx

variable {α : Type} {key : α → Nat}

structure Session (α : Type) (key : α → Nat) where
  table : Table α key
  objects : List α
  added : List α
  removed : List Nat

namespace Session

def start (table : Table α key) : Session α key := ⟨table, [], [], []⟩

/-- A row that a query returned is a persistent object from then on. -/
def load (s : Session α key) (row : α) : Session α key := { s with objects := row :: s.objects }

/-- Assignments to the attributes of a persistent object. -/
def modify (s : Session α key) (k : Nat) (f : α → α) : Session α key :=
  { s with objects := s.objects.map fun object => if key object = k then f object else object }

def add (s : Session α key) (row : α) : Session α key := { s with added := row :: s.added }

def remove (s : Session α key) (k : Nat) : Session α key := { s with removed := k :: s.removed }

/-- The table a commit leaves, unless an insert breaks the primary key. -/
def flush (s : Session α key) : Option (Table α key) :=
  (s.added.foldlM Table.insert? (s.table.overwrite s.objects)).map fun table =>
    s.removed.foldl Table.delete table

/-- A commit, which the database may refuse. -/
def commit (s : Session α key) (accepted : Bool) : Option (Session α key) :=
  if accepted then s.flush.map fun table => ⟨table, s.added ++ s.objects, [], []⟩ else none

/-- The table after the request: the dependency commits once more if the handler returned. -/
def teardown {ε β : Type} (accepted : Bool) (outcome : Except ε β × Session α key) : Table α key :=
  match outcome.1 with
  | .ok _ => ((outcome.2.commit accepted).map Session.table).getD outcome.2.table
  | .error _ => outcome.2.table

/-- A session that adds one row stores it exactly if its key is new. -/
theorem commit_add_eq_some {t : Table α key} {row : α} {s : Session α key} :
    ((start t).add row).commit true = some s ↔
      key row ∉ t.rows.map key ∧ ∃ t', t'.rows = row :: t.rows ∧ s = ⟨t', [row], [], []⟩ := by
  simp only [commit, if_true, flush, start, add, List.foldlM_cons, List.foldlM_nil,
    Table.overwrite_of_subset (List.forall_mem_nil _), Option.map_eq_some_iff]
  constructor
  · rintro ⟨_, ⟨inserted, hinsert, rfl⟩, rfl⟩
    obtain ⟨mid, hmid, hpure⟩ := Option.bind_eq_some_iff.mp hinsert
    obtain rfl := Option.some.inj hpure
    obtain ⟨hfresh, hrows⟩ := Table.insert?_eq_some hmid
    exact ⟨hfresh, mid, hrows, rfl⟩
  · rintro ⟨hfresh, t', hrows, rfl⟩
    refine ⟨t', ⟨t', ?_, rfl⟩, rfl⟩
    exact Option.bind_eq_some_iff.mpr ⟨t', Table.insert?_iff.mpr ⟨hfresh, hrows⟩, rfl⟩

theorem commit_add {t : Table α key} {row : α} {s : Session α key}
    (h : ((start t).add row).commit true = some s) :
    key row ∉ t.rows.map key ∧ ∃ t', s = ⟨t', [row], [], []⟩ ∧ Table.Written t t' row := by
  obtain ⟨hfresh, t', hrows, rfl⟩ := commit_add_eq_some.mp h
  exact ⟨hfresh, t', rfl, Table.written_insert hfresh hrows⟩

theorem commit_add_fresh {t : Table α key} {row : α} (h : key row ∉ t.rows.map key) :
    ∃ t', ((start t).add row).commit true = some ⟨t', [row], [], []⟩ ∧ Table.Written t t' row := by
  have hunique : ((row :: t.rows).map key).Nodup := List.nodup_cons.mpr ⟨h, t.unique⟩
  exact ⟨⟨row :: t.rows, hunique⟩, commit_add_eq_some.mpr ⟨h, _, rfl, rfl⟩,
    Table.written_insert h rfl⟩

theorem commit_change {t : Table α key} {row row' : α} {k : Nat} (hk : key row = k) :
    (((start t).load row).modify k fun _ => row').commit true =
      some ⟨t.overwrite [row'], [row'], [], []⟩ := by
  simp only [start, load, modify, List.map_cons, List.map_nil, if_pos hk]
  rfl

theorem written_teardown {ε β : Type} {t t' : Table α key} {row final : α}
    (h : Table.Written t t' row) (hkey : key final = key row) (accepted : Bool) (result : β) :
    Table.Written t (teardown accepted ((.ok result : Except ε β), ⟨t', [final], [], []⟩))
      (if accepted then final else row) := by
  cases accepted with
  | false => exact h
  | true => exact h.overwrite hkey

theorem written_teardown_self {ε β : Type} {t t' : Table α key} {row : α}
    (h : Table.Written t t' row) (accepted : Bool) (result : β) :
    Table.Written t (teardown accepted ((.ok result : Except ε β), ⟨t', [row], [], []⟩)) row := by
  have hteardown : Table.Written t (teardown accepted ((.ok result : Except ε β),
      ⟨t', [row], [], []⟩)) (if accepted then row else row) := written_teardown h rfl accepted result
  rw [ite_self] at hteardown
  exact hteardown

/-- A request that deletes a row adds none. -/
theorem mem_of_mem_teardown_remove {ε β : Type} {t : Table α key} {row other : α} {k : Nat}
    {s : Session α key} (hrow : row ∈ t.rows) (accepted : Bool) (result : Except ε β)
    (h : (((start t).load row).remove k).commit true = some s)
    (hother : other ∈ (teardown accepted (result, s)).rows) : other ∈ t.rows := by
  have hsub : ∀ object ∈ [row], object ∈ t.rows := by
    intro object hobject
    rw [List.mem_singleton.mp hobject]
    exact hrow
  have hs : s = ⟨t.delete k, [row], [], []⟩ := by
    have hflush : (((start t).load row).remove k).flush = some (t.delete k) := by
      show some ((t.overwrite [row]).delete k) = some (t.delete k)
      rw [Table.overwrite_of_subset hsub]
    rw [commit, if_pos rfl, hflush] at h
    exact (Option.some.inj h).symm
  subst hs
  have hdelete : other ∈ (t.delete k).rows → other ∈ t.rows := fun h => (Table.mem_delete.mp h).1
  cases result with
  | error e => exact hdelete hother
  | ok b =>
      cases accepted with
      | false => exact hdelete hother
      | true =>
          rcases Table.mem_overwrite_singleton.mp hother with ⟨rfl, -⟩ | ⟨hrest, -⟩
          · exact hrow
          · exact hdelete hrest

theorem teardown_read {ε β : Type} {t : Table α key} {objects : List α}
    (h : ∀ object ∈ objects, object ∈ t.rows) (accepted : Bool) (result : Except ε β) :
    teardown accepted (result, Session.mk t objects [] []) = t := by
  cases result with
  | error e => rfl
  | ok b =>
      cases accepted with
      | false => rfl
      | true =>
          show t.overwrite objects = t
          exact Table.overwrite_of_subset h

end Session

end SphereFx
