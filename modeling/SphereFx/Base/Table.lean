import Mathlib.Data.List.Nodup

/-!
# Tables with a primary key

The rows of a table in the order the database happens to keep them, no two with the same key. The
operations are the ones single statements perform, and each carries the proof that keys stay unique.
-/

namespace SphereFx

variable {α : Type} {key : α → Nat}

/-- Rows with pairwise different keys. -/
structure Table (α : Type) (key : α → Nat) where
  rows : List α
  unique : (rows.map key).Nodup

namespace Table

def empty : Table α key := ⟨[], List.nodup_nil⟩

/-- The row with a key. -/
def find? (t : Table α key) (k : Nat) : Option α := t.rows.find? fun row => key row = k

/-- `UPDATE .. WHERE key = k`, by a change that keeps the key. -/
def update (t : Table α key) (k : Nat) (f : α → α) (hf : ∀ row, key (f row) = key row) :
    Table α key where
  rows := t.rows.map fun row => if key row = k then f row else row
  unique := by
    have hkeys : (t.rows.map fun row => if key row = k then f row else row).map key =
        t.rows.map key := by
      rw [List.map_map]
      apply List.map_congr_left
      intro row _
      by_cases h : key row = k
      · simp only [Function.comp_apply, if_pos h, hf]
      · simp only [Function.comp_apply, if_neg h]
    rw [hkeys]
    exact t.unique

/-- `UPDATE .. WHERE p`, by a change that keeps the key. -/
def updateWhere (t : Table α key) (p : α → Bool) (f : α → α) (hf : ∀ row, key (f row) = key row) :
    Table α key where
  rows := t.rows.map fun row => if p row then f row else row
  unique := by
    have hkeys : (t.rows.map fun row => if p row then f row else row).map key = t.rows.map key := by
      rw [List.map_map]
      apply List.map_congr_left
      intro row _
      by_cases h : p row = true
      · simp only [Function.comp_apply, if_pos h, hf]
      · simp only [Function.comp_apply, if_neg h]
    rw [hkeys]
    exact t.unique

/-- `DELETE .. WHERE key = k`. -/
def delete (t : Table α key) (k : Nat) : Table α key where
  rows := t.rows.filter fun row => key row ≠ k
  unique := t.unique.sublist (List.filter_sublist.map key)

/-- An insert, refused if the key is taken. -/
def insert? (t : Table α key) (row : α) : Option (Table α key) :=
  if h : key row ∈ t.rows.map key then none
  else some ⟨row :: t.rows, List.nodup_cons.mpr ⟨h, t.unique⟩⟩

/-- Writes a list of rows over the rows with their keys. -/
def overwrite (t : Table α key) (objects : List α) : Table α key where
  rows := t.rows.map fun row => (objects.find? fun object => key object = key row).getD row
  unique := by
    have hkeys : (t.rows.map fun row => (objects.find? fun object => key object = key row).getD
        row).map key = t.rows.map key := by
      rw [List.map_map]
      apply List.map_congr_left
      intro row _
      rw [Function.comp_apply]
      cases h : objects.find? fun object => key object = key row with
      | none => rfl
      | some object => simpa using List.find?_some h
    rw [hkeys]
    exact t.unique

theorem ext_rows {t t' : Table α key} (h : t.rows = t'.rows) : t = t' := by
  cases t
  cases t'
  cases h
  rfl

theorem find?_eq_some {t : Table α key} {k : Nat} {row : α} :
    t.find? k = some row ↔ row ∈ t.rows ∧ key row = k := by
  constructor
  · intro h
    refine ⟨List.mem_of_find?_eq_some h, ?_⟩
    simpa using List.find?_some h
  · rintro ⟨hmem, hkey⟩
    have hsome : (t.find? k).isSome = true :=
      List.find?_isSome.mpr ⟨row, hmem, decide_eq_true hkey⟩
    obtain ⟨found, hfound⟩ := Option.isSome_iff_exists.mp hsome
    have hfoundMem : found ∈ t.rows := List.mem_of_find?_eq_some hfound
    have hfoundKey : key found = k := by simpa using List.find?_some hfound
    rw [hfound, List.inj_on_of_nodup_map t.unique hfoundMem hmem (hfoundKey.trans hkey.symm)]

theorem mem_update {t : Table α key} {k : Nat} {f : α → α} {hf : ∀ row, key (f row) = key row}
    {row : α} : row ∈ (t.update k f hf).rows ↔
      ∃ old ∈ t.rows, (if key old = k then f old else old) = row :=
  List.mem_map

theorem map_update {β : Type} {t : Table α key} {k : Nat} {f : α → α}
    {hf : ∀ row, key (f row) = key row} (column : α → β) (h : ∀ row, column (f row) = column row) :
    (t.update k f hf).rows.map column = t.rows.map column := by
  show (t.rows.map fun row => if key row = k then f row else row).map column = t.rows.map column
  rw [List.map_map]
  apply List.map_congr_left
  intro row _
  by_cases hrow : key row = k
  · simp only [Function.comp_apply, if_pos hrow, h]
  · simp only [Function.comp_apply, if_neg hrow]

theorem countP_update_le {p : α → Bool} {t : Table α key} {k : Nat} {f : α → α}
    {hf : ∀ row, key (f row) = key row} (hfails : ∀ row, p (f row) = true → p row = true) :
    (t.update k f hf).rows.countP p ≤ t.rows.countP p := by
  rw [show (t.update k f hf).rows = t.rows.map fun row => if key row = k then f row else row from rfl,
    List.countP_map]
  apply List.countP_mono_left
  intro row _ hp
  by_cases hkey : key row = k
  · rw [Function.comp_apply, if_pos hkey] at hp
    exact hfails row hp
  · rwa [Function.comp_apply, if_neg hkey] at hp

/-- One fewer, when the changed row satisfied it before. -/
theorem countP_update_lt {p : α → Bool} {t : Table α key} {k : Nat} {f : α → α}
    {hf : ∀ row, key (f row) = key row} (hfails : ∀ row, p (f row) = false) {row : α}
    (hrow : row ∈ t.rows) (hkey : key row = k) (hp : p row = true) :
    (t.update k f hf).rows.countP p < t.rows.countP p := by
  obtain ⟨before, after, hsplit⟩ := List.append_of_mem hrow
  have hle : ∀ rows : List α,
      (rows.map fun row => if key row = k then f row else row).countP p ≤ rows.countP p := by
    intro rows
    rw [List.countP_map]
    apply List.countP_mono_left
    intro other _ hother
    by_cases hother' : key other = k
    · rw [Function.comp_apply, if_pos hother', hfails] at hother
      cases hother
    · rwa [Function.comp_apply, if_neg hother'] at hother
  have hbefore := hle before
  have hafter := hle after
  rw [show (t.update k f hf).rows = t.rows.map fun row => if key row = k then f row else row from rfl,
    hsplit, List.map_append, List.map_cons, List.countP_append, List.countP_append, if_pos hkey,
    List.countP_cons_of_neg (by simp [hfails]), List.countP_cons_of_pos hp]
  omega

theorem find?_update_self {t : Table α key} {k : Nat} {f : α → α}
    {hf : ∀ row, key (f row) = key row} {row : α} (h : t.find? k = some row) :
    (t.update k f hf).find? k = some (f row) := by
  obtain ⟨hmem, hkey⟩ := find?_eq_some.mp h
  exact find?_eq_some.mpr ⟨mem_update.mpr ⟨row, hmem, if_pos hkey⟩, (hf row).trans hkey⟩

theorem find?_update_of_ne {t : Table α key} {k k' : Nat} {f : α → α}
    {hf : ∀ row, key (f row) = key row} (hne : k' ≠ k) :
    (t.update k f hf).find? k' = t.find? k' := by
  ext row
  rw [find?_eq_some, find?_eq_some, mem_update]
  constructor
  · rintro ⟨⟨old, hold, rfl⟩, hkey⟩
    by_cases h : key old = k
    · rw [if_pos h, hf, h] at hkey
      exact absurd hkey.symm hne
    · rw [if_neg h] at hkey ⊢
      exact ⟨hold, hkey⟩
  · rintro ⟨hmem, hkey⟩
    have h : key row ≠ k := fun h => hne (hkey.symm.trans h)
    exact ⟨⟨row, hmem, if_neg h⟩, hkey⟩

theorem mem_delete {t : Table α key} {k : Nat} {row : α} :
    row ∈ (t.delete k).rows ↔ row ∈ t.rows ∧ key row ≠ k := by
  simp only [delete, List.mem_filter, decide_eq_true_eq]

theorem insert?_eq_some {t t' : Table α key} {row : α} (h : t.insert? row = some t') :
    key row ∉ t.rows.map key ∧ t'.rows = row :: t.rows := by
  unfold insert? at h
  split at h
  · cases h
  · rename_i hfresh
    cases h
    exact ⟨hfresh, rfl⟩

theorem insert?_iff {t t' : Table α key} {row : α} :
    t.insert? row = some t' ↔ key row ∉ t.rows.map key ∧ t'.rows = row :: t.rows := by
  constructor
  · exact insert?_eq_some
  · rintro ⟨hfresh, hrows⟩
    rw [insert?, dif_neg hfresh]
    exact congrArg some (ext_rows hrows.symm)

theorem overwrite_of_subset {t : Table α key} {objects : List α}
    (h : ∀ object ∈ objects, object ∈ t.rows) : t.overwrite objects = t := by
  apply ext_rows
  show t.rows.map _ = t.rows
  conv_rhs => rw [← List.map_id t.rows]
  apply List.map_congr_left
  intro row hrow
  cases hfind : objects.find? fun object => key object = key row with
  | none => rfl
  | some object =>
      have hmem : object ∈ t.rows := h object (List.mem_of_find?_eq_some hfind)
      have hkey : key object = key row := by simpa using List.find?_some hfind
      exact List.inj_on_of_nodup_map t.unique hmem hrow hkey

theorem mem_overwrite_singleton {t : Table α key} {object row : α} :
    row ∈ (t.overwrite [object]).rows ↔
      (row = object ∧ key object ∈ t.rows.map key) ∨ (row ∈ t.rows ∧ key row ≠ key object) := by
  have hfind : ∀ old, ([object].find? fun o => key o = key old) =
      if key object = key old then some object else none := by
    intro old
    by_cases h : key object = key old <;> simp [h]
  show row ∈ t.rows.map _ ↔ _
  rw [List.mem_map]
  constructor
  · rintro ⟨old, hold, rfl⟩
    rw [hfind old]
    by_cases h : key object = key old
    · rw [if_pos h]
      exact Or.inl ⟨rfl, h ▸ List.mem_map_of_mem hold⟩
    · rw [if_neg h]
      exact Or.inr ⟨hold, fun h' => h h'.symm⟩
  · rintro (⟨rfl, hkey⟩ | ⟨hmem, hkey⟩)
    · obtain ⟨old, hold, heq⟩ := List.mem_map.mp hkey
      refine ⟨old, hold, ?_⟩
      rw [hfind old, if_pos heq.symm]
      rfl
    · refine ⟨row, hmem, ?_⟩
      rw [hfind row, if_neg fun h => hkey h.symm]
      rfl

/-- One row is new or replaced, the others are as before. -/
def Written (t t' : Table α key) (final : α) : Prop :=
  ∀ row, row ∈ t'.rows ↔ row = final ∨ row ∈ t.rows ∧ key row ≠ key final

theorem written_insert {t t' : Table α key} {row : α} (hfresh : key row ∉ t.rows.map key)
    (hrows : t'.rows = row :: t.rows) : Written t t' row := by
  intro other
  rw [hrows, List.mem_cons]
  constructor
  · rintro (rfl | hother)
    · exact Or.inl rfl
    · refine Or.inr ⟨hother, fun hkey => hfresh ?_⟩
      rw [← hkey]
      exact List.mem_map_of_mem hother
  · rintro (rfl | ⟨hother, -⟩)
    · exact Or.inl rfl
    · exact Or.inr hother

theorem written_overwrite {t : Table α key} {object : α} (h : key object ∈ t.rows.map key) :
    Written t (t.overwrite [object]) object := by
  intro row
  rw [mem_overwrite_singleton]
  constructor
  · rintro (⟨rfl, -⟩ | hold)
    · exact Or.inl rfl
    · exact Or.inr hold
  · rintro (rfl | hold)
    · exact Or.inl ⟨rfl, h⟩
    · exact Or.inr hold

/-- A written row may be overwritten by another one with its key. -/
theorem Written.overwrite {t t' : Table α key} {row final : α} (h : Written t t' row)
    (hkey : key final = key row) : Written t (t'.overwrite [final]) final := by
  have hmem : key final ∈ t'.rows.map key := by
    rw [hkey]
    exact List.mem_map_of_mem ((h row).mpr (Or.inl rfl))
  intro other
  rw [written_overwrite hmem, h, ← hkey]
  constructor
  · rintro (rfl | ⟨rfl | hold, hne⟩)
    · exact Or.inl rfl
    · exact absurd hkey.symm hne
    · exact Or.inr hold
  · rintro (rfl | ⟨hold, hne⟩)
    · exact Or.inl rfl
    · exact Or.inr ⟨Or.inr ⟨hold, hne⟩, hne⟩

end Table

end SphereFx
