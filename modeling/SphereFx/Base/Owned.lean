import SphereFx.Base.Session

/-!
# Rows of one owner

A table whose rows have an owner column, and sessions that touch rows of one user only. What such a
session commits leaves the rows of every other user as they were, in the order they are kept.
-/

namespace SphereFx

variable {α : Type} {key owner : α → Nat}

theorem filter_map_frame {p : α → Bool} {f : α → α} {rows : List α}
    (h : ∀ row ∈ rows, f row = row ∨ p row = false ∧ p (f row) = false) :
    (rows.map f).filter p = rows.filter p := by
  induction rows with
  | nil => rfl
  | cons row rest ih =>
      have hrest := ih fun other hother => h other (List.mem_cons_of_mem _ hother)
      rw [List.map_cons, List.filter_cons, List.filter_cons, hrest]
      rcases h row List.mem_cons_self with hsame | ⟨hbefore, hafter⟩
      · rw [hsame]
      · simp only [hbefore, hafter, Bool.false_eq_true, if_false]

namespace Table

/-- The rows of a user. -/
def ownedBy (owner : α → Nat) (t : Table α key) (user : Nat) : List α :=
  t.rows.filter fun row => owner row = user

theorem mem_ownedBy {t : Table α key} {user : Nat} {row : α} :
    row ∈ t.ownedBy owner user ↔ row ∈ t.rows ∧ owner row = user := by
  simp only [ownedBy, List.mem_filter, decide_eq_true_eq]

theorem ownedBy_of_rows {t t' : Table α key} {added : List α} (hrows : t'.rows = added ++ t.rows)
    {user : Nat} (h : ∀ row ∈ added, owner row ≠ user) : t'.ownedBy owner user = t.ownedBy owner user := by
  have hnone : added.filter (fun row => owner row = user) = [] := by
    rw [List.filter_eq_nil_iff]
    intro row hrow
    simpa using h row hrow
  simp only [ownedBy, hrows, List.filter_append, hnone, List.nil_append]

theorem ownedBy_cons {t t' : Table α key} {row : α} (hrows : t'.rows = row :: t.rows) {user : Nat}
    (h : owner row ≠ user) : t'.ownedBy owner user = t.ownedBy owner user := by
  have hsingleton : t'.rows = [row] ++ t.rows := hrows
  exact ownedBy_of_rows hsingleton fun other hother => List.mem_singleton.mp hother ▸ h

theorem ownedBy_update {t : Table α key} {k user : Nat} {f : α → α}
    (hf : ∀ row, key (f row) = key row) (h : ∀ row ∈ t.rows, key row = k → owner row ≠ user ∧ owner (f row) ≠ user) :
    (t.update k f hf).ownedBy owner user = t.ownedBy owner user := by
  refine filter_map_frame fun row hrow => ?_
  by_cases hkey : key row = k
  · obtain ⟨hbefore, hafter⟩ := h row hrow hkey
    rw [if_pos hkey]
    exact Or.inr ⟨decide_eq_false hbefore, decide_eq_false hafter⟩
  · exact Or.inl (if_neg hkey)

theorem ownedBy_overwrite {t : Table α key} {objects : List α} {user : Nat}
    (h : ∀ object ∈ objects, owner object ≠ user ∧
      ∀ row ∈ t.rows, key row = key object → owner row ≠ user) :
    (t.overwrite objects).ownedBy owner user = t.ownedBy owner user := by
  refine filter_map_frame fun row hrow => ?_
  cases hfind : objects.find? fun object => key object = key row with
  | none => exact Or.inl rfl
  | some object =>
      obtain ⟨hobject, hrows⟩ := h object (List.mem_of_find?_eq_some hfind)
      have hkey : key object = key row := by simpa using List.find?_some hfind
      exact Or.inr ⟨decide_eq_false (hrows row hrow hkey.symm), decide_eq_false hobject⟩

theorem ownedBy_delete {t : Table α key} {k user : Nat}
    (h : ∀ row ∈ t.rows, key row = k → owner row ≠ user) :
    (t.delete k).ownedBy owner user = t.ownedBy owner user := by
  show (t.rows.filter _).filter _ = t.rows.filter _
  rw [List.filter_filter]
  refine List.filter_congr fun row hrow => ?_
  by_cases hkey : key row = k
  · simp [hkey, h row hrow hkey]
  · simp [hkey]

/-- The row of a user with a key is found among the rows of the user. -/
theorem find?_filter_owner (t : Table α key) (user k : Nat) :
    (t.find? k).filter (fun row => owner row = user) =
      (t.ownedBy owner user).find? fun row => key row = k := by
  ext row
  rw [Option.filter_eq_some_iff, find?_eq_some]
  constructor
  · rintro ⟨⟨hmem, hkey⟩, howner⟩
    have howner' : owner row = user := of_decide_eq_true howner
    have hsome : ((t.ownedBy owner user).find? fun row => key row = k).isSome = true :=
      List.find?_isSome.mpr ⟨row, mem_ownedBy.mpr ⟨hmem, howner'⟩, decide_eq_true hkey⟩
    obtain ⟨found, hfound⟩ := Option.isSome_iff_exists.mp hsome
    have hfoundKey : key found = k := by simpa using List.find?_some hfound
    have hfoundMem := (mem_ownedBy.mp (List.mem_of_find?_eq_some hfound)).1
    rw [hfound, List.inj_on_of_nodup_map t.unique hfoundMem hmem (hfoundKey.trans hkey.symm)]
  · intro hfind
    obtain ⟨hmem, howner⟩ := mem_ownedBy.mp (List.mem_of_find?_eq_some hfind)
    exact ⟨⟨hmem, by simpa using List.find?_some hfind⟩, decide_eq_true howner⟩

/-- The rows of a query by key and owner. Keys of requests may be negative. -/
def query (owner : α → Nat) (t : Table α key) (user : Nat) (k : Int) : List α :=
  t.rows.filter fun row => (key row : Int) = k ∧ owner row = user

theorem query_eq_filter (t : Table α key) (user : Nat) (k : Int) :
    t.query owner user k = (t.ownedBy owner user).filter fun row => (key row : Int) = k := by
  simp only [query, ownedBy, List.filter_filter, Bool.decide_and]

theorem rows_foldlM_insert? {added : List α} {t t' : Table α key}
    (h : added.foldlM Table.insert? t = some t') : t'.rows = added.reverse ++ t.rows := by
  induction added generalizing t with
  | nil =>
      obtain rfl := Option.some.inj h
      rfl
  | cons row rest ih =>
      obtain ⟨mid, hmid, hrest⟩ := Option.bind_eq_some_iff.mp h
      rw [ih hrest, (insert?_eq_some hmid).2, List.reverse_cons, List.append_assoc]
      rfl

theorem mem_foldl_delete {removed : List Nat} {t : Table α key} {row : α}
    (h : row ∈ (removed.foldl Table.delete t).rows) : row ∈ t.rows := by
  induction removed generalizing t with
  | nil => exact h
  | cons k rest ih => exact (mem_delete.mp (ih h)).1

theorem ownedBy_foldl_delete {removed : List Nat} {t : Table α key} {user : Nat}
    (h : ∀ k ∈ removed, ∀ row ∈ t.rows, key row = k → owner row ≠ user) :
    (removed.foldl Table.delete t).ownedBy owner user = t.ownedBy owner user := by
  induction removed generalizing t with
  | nil => rfl
  | cons k rest ih =>
      have hrest : ∀ k' ∈ rest, ∀ row ∈ (t.delete k).rows, key row = k' → owner row ≠ user :=
        fun k' hk' row hrow => h k' (List.mem_cons_of_mem _ hk') row (mem_delete.mp hrow).1
      rw [List.foldl_cons, ih hrest, ownedBy_delete (h k List.mem_cons_self)]

end Table

/-! ### Units of work of one user -/

namespace Session

/-- A session that started on `t`: the other users' rows are as they were, and everything it is going
to write belongs to `user`. -/
structure Within (owner : α → Nat) (user : Nat) (t : Table α key) (s : Session α key) : Prop where
  others : ∀ other ≠ user, s.table.ownedBy owner other = t.ownedBy owner other
  objects : ∀ object ∈ s.objects, owner object = user ∧
    ∀ row ∈ s.table.rows, key row = key object → owner row = user
  added : ∀ row ∈ s.added, owner row = user
  removed : ∀ k ∈ s.removed, ∀ row ∈ s.table.rows, key row = k → owner row = user

variable {user : Nat} {t : Table α key} {s : Session α key}

theorem within_start (t : Table α key) : Within owner user t (start t) where
  others _ _ := rfl
  objects := List.forall_mem_nil _
  added := List.forall_mem_nil _
  removed := List.forall_mem_nil _

theorem Within.load (h : Within owner user t s) {row : α} (hrow : row ∈ s.table.rows)
    (howner : owner row = user) : Within owner user t (s.load row) where
  others := h.others
  objects := by
    intro object hobject
    rcases List.mem_cons.mp hobject with rfl | hold
    · refine ⟨howner, fun other hother hkey => ?_⟩
      rw [List.inj_on_of_nodup_map s.table.unique hother hrow hkey]
      exact howner
    · exact h.objects object hold
  added := h.added
  removed := h.removed

theorem Within.modify (h : Within owner user t s) {k : Nat} {f : α → α}
    (hf : ∀ object ∈ s.objects, key object = k → key (f object) = k ∧ owner (f object) = user) :
    Within owner user t (s.modify k f) where
  others := h.others
  objects := by
    intro object hobject
    obtain ⟨old, hold, rfl⟩ := List.mem_map.mp hobject
    obtain ⟨howner, hrows⟩ := h.objects old hold
    by_cases hkey : key old = k
    · obtain ⟨hkey', howner'⟩ := hf old hold hkey
      rw [if_pos hkey]
      exact ⟨howner', fun row hrow heq => hrows row hrow (heq.trans (hkey'.trans hkey.symm))⟩
    · rw [if_neg hkey]
      exact ⟨howner, hrows⟩
  added := h.added
  removed := h.removed

theorem Within.add (h : Within owner user t s) {row : α} (howner : owner row = user) :
    Within owner user t (s.add row) where
  others := h.others
  objects := h.objects
  added := by
    intro other hother
    rcases List.mem_cons.mp hother with rfl | hold
    · exact howner
    · exact h.added other hold
  removed := h.removed

theorem Within.remove (h : Within owner user t s) {row : α} (hrow : row ∈ s.table.rows)
    (howner : owner row = user) : Within owner user t (s.remove (key row)) where
  others := h.others
  objects := h.objects
  added := h.added
  removed := by
    intro k hk other hother hkey
    rcases List.mem_cons.mp hk with rfl | hold
    · rw [List.inj_on_of_nodup_map s.table.unique hother hrow hkey]
      exact howner
    · exact h.removed k hold other hother hkey

theorem mem_overwrite_objects {t : Table α key} {objects : List α} {row : α}
    (h : row ∈ (t.overwrite objects).rows) : row ∈ objects ∨ row ∈ t.rows := by
  obtain ⟨old, hold, rfl⟩ := List.mem_map.mp h
  cases hfind : objects.find? fun object => key object = key old with
  | none => exact Or.inr hold
  | some object => exact Or.inl (List.mem_of_find?_eq_some hfind)

theorem Within.commit (h : Within owner user t s) {accepted : Bool} {s' : Session α key}
    (hcommit : s.commit accepted = some s') : Within owner user t s' := by
  cases accepted with
  | false => cases hcommit
  | true =>
      rw [Session.commit, if_pos rfl] at hcommit
      obtain ⟨table, hflush, rfl⟩ := Option.map_eq_some_iff.mp hcommit
      obtain ⟨inserted, hinsert, rfl⟩ := Option.map_eq_some_iff.mp hflush
      have hrows := Table.rows_foldlM_insert? hinsert
      have hmem : ∀ row ∈ inserted.rows, row ∈ s.added ∨ row ∈ s.objects ∨ row ∈ s.table.rows := by
        intro row hrow
        rw [hrows, List.mem_append, List.mem_reverse] at hrow
        exact hrow.imp_right mem_overwrite_objects
      have hremoved : ∀ k ∈ s.removed, ∀ row ∈ inserted.rows, key row = k → owner row = user := by
        intro k hk row hrow hkey
        rcases hmem row hrow with hadded | hobject | hold
        · exact h.added row hadded
        · exact (h.objects row hobject).1
        · exact h.removed k hk row hold hkey
      refine ⟨fun other hother => ?_, fun object hobject => ?_, List.forall_mem_nil _,
        List.forall_mem_nil _⟩
      · calc (s.removed.foldl Table.delete inserted).ownedBy owner other
            = inserted.ownedBy owner other := Table.ownedBy_foldl_delete fun k hk row hrow hkey =>
              hremoved k hk row hrow hkey ▸ hother.symm
          _ = (s.table.overwrite s.objects).ownedBy owner other :=
              Table.ownedBy_of_rows hrows fun row hrow =>
                h.added row (List.mem_reverse.mp hrow) ▸ hother.symm
          _ = s.table.ownedBy owner other := Table.ownedBy_overwrite fun object hobject =>
              ⟨(h.objects object hobject).1 ▸ hother.symm,
                fun row hrow hkey => (h.objects object hobject).2 row hrow hkey ▸ hother.symm⟩
          _ = t.ownedBy owner other := h.others other hother
      · rcases List.mem_append.mp hobject with hadded | hold
        · refine ⟨h.added object hadded, fun row hrow hkey => ?_⟩
          have hinserted : object ∈ inserted.rows := by
            rw [hrows]
            exact List.mem_append_left _ (List.mem_reverse.mpr hadded)
          rw [List.inj_on_of_nodup_map inserted.unique (Table.mem_foldl_delete hrow) hinserted hkey]
          exact h.added object hadded
        · refine ⟨(h.objects object hold).1, fun row hrow hkey => ?_⟩
          rcases hmem row (Table.mem_foldl_delete hrow) with hadded | hobject' | hbefore
          · exact h.added row hadded
          · exact (h.objects row hobject').1
          · exact (h.objects object hold).2 row hbefore hkey

/-- The end of a request whose session is one user's. -/
theorem Within.teardown {ε β : Type} (h : Within owner user t s) (accepted : Bool)
    (result : Except ε β) {other : Nat} (hother : other ≠ user) :
    (Session.teardown accepted (result, s)).ownedBy owner other = t.ownedBy owner other := by
  cases result with
  | error err => exact h.others other hother
  | ok value =>
      cases hcommit : s.commit accepted with
      | none =>
          simp only [Session.teardown, hcommit, Option.map_none, Option.getD_none]
          exact h.others other hother
      | some s' =>
          simp only [Session.teardown, hcommit, Option.map_some, Option.getD_some]
          exact (h.commit hcommit).others other hother

end Session

end SphereFx
