import Mathlib.Data.List.AList

/-!
# Tables under row locks

A table whose rows carry exclusive row locks held to the end of a transaction. A row shows every
other transaction its last committed version; the transaction that holds its lock may have written
another one, which it publishes when it commits and drops when it rolls back. A row whose insert is
not committed has no committed version, and exists only for the transaction that inserted it.

The parameters are the transactions `τ`, the primary keys `κ` and the contents `β` of a row.
-/

namespace SphereFx

universe u v w

variable {τ : Type u} {κ : Type v} {β : Type w}

/-- The lock of a row; the owner carries the version it would publish. -/
inductive Lock (τ : Type u) (β : Type w) where
  | free
  | held (owner : τ) (version : β)

/-- A row: what other transactions see of it, and its lock. -/
structure LockRow (τ : Type u) (β : Type w) where
  committed : Option β
  lock : Lock τ β

/-- The versions of a row that exist anywhere, committed or not. -/
def LockRow.versions : LockRow τ β → List β
  | ⟨committed, .free⟩ => committed.toList
  | ⟨committed, .held _ version⟩ => version :: committed.toList

/-- A table of lockable rows by primary key. -/
abbrev LockTable (τ : Type u) (κ : Type v) (β : Type w) := AList (fun _ : κ => LockRow τ β)

namespace LockTable

variable [DecidableEq κ]

/-- The committed version of a row. -/
def committed? (table : LockTable τ κ β) (key : κ) : Option β :=
  (table.lookup key).bind LockRow.committed

/-- The keys and committed versions of the rows that no transaction has locked, which is what a
`READPAST` scan sees. -/
def unlocked (table : LockTable τ κ β) : List (κ × β) :=
  table.entries.filterMap fun entry =>
    match entry.2 with
    | ⟨some version, .free⟩ => some (entry.1, version)
    | _ => none

/-- Every version of every row satisfies a predicate. -/
def allVersions (table : LockTable τ κ β) (p : β → Bool) : Bool :=
  table.entries.all fun entry => entry.2.versions.all p

/-- An insert that has not been committed yet; it needs an unused key. -/
def insertNew (table : LockTable τ κ β) (owner : τ) (key : κ) (version : β) :
    Option (LockTable τ κ β) :=
  if (table.lookup key).isSome then none else some (table.insert key ⟨none, .held owner version⟩)

/-- Lock an unlocked row whose committed version satisfies the predicate (`UPDLOCK`, and the row
lock a conditional `UPDATE` takes before it checks its predicate). -/
def acquire (table : LockTable τ κ β) (owner : τ) (key : κ) (p : β → Bool) :
    Option (LockTable τ κ β) :=
  match table.lookup key with
  | some ⟨some version, .free⟩ =>
      if p version then some (table.insert key ⟨some version, .held owner version⟩) else none
  | _ => none

/-- A statement outside any transaction: it waits for the lock and commits at once. -/
def autocommit (table : LockTable τ κ β) (key : κ) (f : β → β) : Option (LockTable τ κ β) :=
  match table.lookup key with
  | some ⟨some version, .free⟩ => some (table.insert key ⟨some (f version), .free⟩)
  | _ => none

section Owner

variable [DecidableEq τ]

/-- Change the version under the owner's lock. -/
def rewrite (table : LockTable τ κ β) (owner : τ) (key : κ) (f : β → β) :
    Option (LockTable τ κ β) :=
  match table.lookup key with
  | some ⟨committed, .held holder version⟩ =>
      if holder = owner then some (table.insert key ⟨committed, .held owner (f version)⟩) else none
  | _ => none

/-- Publish the owner's version of the row and release the lock. -/
def commit (table : LockTable τ κ β) (owner : τ) (key : κ) : LockTable τ κ β :=
  match table.lookup key with
  | some ⟨_, .held holder version⟩ =>
      if holder = owner then table.insert key ⟨some version, .free⟩ else table
  | _ => table

/-- Drop the owner's version of the row and release the lock. -/
def rollback (table : LockTable τ κ β) (owner : τ) (key : κ) : LockTable τ κ β :=
  match table.lookup key with
  | some ⟨some version, .held holder _⟩ =>
      if holder = owner then table.insert key ⟨some version, .free⟩ else table
  | some ⟨none, .held holder _⟩ => if holder = owner then table.erase key else table
  | _ => table

end Owner

/-! ### What each operation does -/

theorem insertNew_eq_some {table table' : LockTable τ κ β} {owner : τ} {key : κ} {version : β}
    (h : table.insertNew owner key version = some table') :
    table.lookup key = none ∧ table' = table.insert key ⟨none, .held owner version⟩ := by
  unfold insertNew at h
  split at h
  · cases h
  · rename_i hnone
    exact ⟨by simpa using hnone, (Option.some.inj h).symm⟩

theorem acquire_eq_some {table table' : LockTable τ κ β} {owner : τ} {key : κ} {p : β → Bool}
    (h : table.acquire owner key p = some table') :
    ∃ version, table.lookup key = some ⟨some version, .free⟩ ∧ p version = true ∧
      table' = table.insert key ⟨some version, .held owner version⟩ := by
  unfold acquire at h
  split at h
  · rename_i version hrow
    split at h
    · rename_i hp
      exact ⟨version, hrow, hp, (Option.some.inj h).symm⟩
    · cases h
  · cases h

theorem autocommit_eq_some {table table' : LockTable τ κ β} {key : κ} {f : β → β}
    (h : table.autocommit key f = some table') :
    ∃ version, table.lookup key = some ⟨some version, .free⟩ ∧
      table' = table.insert key ⟨some (f version), .free⟩ := by
  unfold autocommit at h
  split at h
  · rename_i version hrow
    exact ⟨version, hrow, (Option.some.inj h).symm⟩
  · cases h

theorem mem_versions_of_lookup {table : LockTable τ κ β} {p : β → Bool}
    (h : table.allVersions p = true) {key : κ} {row : LockRow τ β}
    (hrow : table.lookup key = some row) {version : β} (hv : version ∈ row.versions) :
    p version = true := by
  have hmem : (⟨key, row⟩ : Σ _ : κ, LockRow τ β) ∈ table.entries :=
    AList.mem_lookup_iff.mp hrow
  exact List.all_eq_true.mp (List.all_eq_true.mp h _ hmem) _ hv

theorem mem_versions_insert {table : LockTable τ κ β} {key other : κ} {row found : LockRow τ β}
    {version v : β} (hversions : row.versions = [version])
    (hfound : (table.insert key row).lookup other = some found) (hv : v ∈ found.versions) :
    (other = key ∧ v = version) ∨ table.lookup other = some found := by
  by_cases hkey : other = key
  · subst hkey
    rw [AList.lookup_insert] at hfound
    obtain rfl := Option.some.inj hfound
    rw [hversions] at hv
    exact Or.inl ⟨rfl, List.mem_singleton.mp hv⟩
  · rw [AList.lookup_insert_ne hkey] at hfound
    exact Or.inr hfound

/-! ### What one transaction can do to a table -/

/-- A step of the transaction `owner` that locks only rows satisfying `p` and writes only versions
related to the ones they replace. -/
structure TxnStep (owner : τ) (p : β → Bool) (Same : β → β → Prop) (table table' : LockTable τ κ β) :
    Prop where
  /-- Rows locked by another transaction are untouched. -/
  others : ∀ {key committed holder version},
    table.lookup key = some ⟨committed, .held holder version⟩ → holder ≠ owner →
      table'.lookup key = table.lookup key
  /-- So are unlocked rows whose committed version fails the predicate. -/
  settled : ∀ {key version}, table.lookup key = some ⟨some version, .free⟩ → p version = false →
    table'.lookup key = table.lookup key
  /-- Every version was there before or replaces one that was. -/
  derived : ∀ {key row' version'}, table'.lookup key = some row' → version' ∈ row'.versions →
    ∃ row version, table.lookup key = some row ∧ version ∈ row.versions ∧ Same version version'

variable {p : β → Bool} {Same : β → β → Prop}

theorem TxnStep.refl (hrefl : ∀ v, Same v v) (owner : τ) (table : LockTable τ κ β) :
    TxnStep owner p Same table table where
  others := fun _ _ => rfl
  settled := fun _ _ => rfl
  derived := fun {_ row version} hrow hv => ⟨row, version, hrow, hv, hrefl version⟩

theorem TxnStep.trans (htrans : ∀ u v w, Same u v → Same v w → Same u w) {owner : τ}
    {first second third : LockTable τ κ β} (h : TxnStep owner p Same first second)
    (h' : TxnStep owner p Same second third) : TxnStep owner p Same first third where
  others := fun hrow hne => by
    have hmid := h.others hrow hne
    rw [h'.others (hmid.trans hrow) hne, hmid]
  settled := fun hrow hp => by
    have hmid := h.settled hrow hp
    rw [h'.settled (hmid.trans hrow) hp, hmid]
  derived := fun hrow hv => by
    obtain ⟨row₂, v₂, hrow₂, hv₂, hsame₂⟩ := h'.derived hrow hv
    obtain ⟨row₁, v₁, hrow₁, hv₁, hsame₁⟩ := h.derived hrow₂ hv₂
    exact ⟨row₁, v₁, hrow₁, hv₁, htrans _ _ _ hsame₁ hsame₂⟩

/-- Replacing one row that the transaction may touch is a step of the transaction. -/
theorem TxnStep.of_insert (hrefl : ∀ v, Same v v) {owner : τ} {table : LockTable τ κ β} {key : κ}
    {row row' : LockRow τ β} (hrow : table.lookup key = some row)
    (hfree : ∀ version, row = ⟨some version, .free⟩ → p version = true)
    (hheld : ∀ committed holder version, row = ⟨committed, .held holder version⟩ → holder = owner)
    (hversions : ∀ version' ∈ row'.versions, ∃ version ∈ row.versions, Same version version') :
    TxnStep owner p Same table (table.insert key row') where
  others := fun {other _ _ _} hother hne => by
    by_cases hkey : other = key
    · subst hkey
      exact absurd (hheld _ _ _ (Option.some.inj (hrow.symm.trans hother))) hne
    · exact AList.lookup_insert_ne hkey
  settled := fun {other _} hother hp => by
    by_cases hkey : other = key
    · subst hkey
      rw [hfree _ (Option.some.inj (hrow.symm.trans hother))] at hp
      cases hp
    · exact AList.lookup_insert_ne hkey
  derived := fun {other found version'} hfound hv => by
    by_cases hkey : other = key
    · subst hkey
      rw [AList.lookup_insert] at hfound
      obtain rfl := Option.some.inj hfound
      obtain ⟨version, hmem, hsame⟩ := hversions version' hv
      exact ⟨row, version, hrow, hmem, hsame⟩
    · rw [AList.lookup_insert_ne hkey] at hfound
      exact ⟨found, version', hfound, hv, hrefl version'⟩

theorem acquire_txnStep (hrefl : ∀ v, Same v v) {table table' : LockTable τ κ β} {owner : τ} {key : κ}
    (h : table.acquire owner key p = some table') : TxnStep owner p Same table table' := by
  obtain ⟨version, hrow, hp, rfl⟩ := acquire_eq_some h
  refine TxnStep.of_insert hrefl hrow ?_ ?_ ?_
  · intro v hv
    cases hv
    exact hp
  · intro c holder v hv
    cases hv
  · intro v hv
    have hv : v = version := by simpa [LockRow.versions] using hv
    exact ⟨version, by simp [LockRow.versions], hv ▸ hrefl version⟩

/-! ### What the others see

Only a commit, and a statement outside any transaction, change a committed version. -/

theorem committed?_of_lookup {table : LockTable τ κ β} {key : κ} {committed : Option β}
    {lock : Lock τ β} (h : table.lookup key = some ⟨committed, lock⟩) :
    table.committed? key = committed := by
  rw [committed?, h]
  rfl

theorem committed?_eq_none {table : LockTable τ κ β} {key : κ} (h : table.lookup key = none) :
    table.committed? key = none := by
  rw [committed?, h]
  rfl

theorem committed?_insert (table : LockTable τ κ β) (key : κ) (row : LockRow τ β) :
    committed? (table.insert key row) = Function.update (committed? table) key row.committed := by
  funext other
  by_cases hkey : other = key
  · rw [hkey, Function.update_self, committed?, AList.lookup_insert]
    rfl
  · rw [Function.update_of_ne hkey, committed?, AList.lookup_insert_ne hkey, committed?]

theorem committed?_insert_same {table : LockTable τ κ β} {key : κ} {committed : Option β}
    (h : table.committed? key = committed) (lock : Lock τ β) :
    committed? (table.insert key ⟨committed, lock⟩) = committed? table := by
  rw [committed?_insert, ← h, Function.update_eq_self]

theorem committed?_insertNew {table table' : LockTable τ κ β} {owner : τ} {key : κ} {version : β}
    (h : table.insertNew owner key version = some table') :
    committed? table' = committed? table := by
  obtain ⟨hnone, rfl⟩ := insertNew_eq_some h
  exact committed?_insert_same (committed?_eq_none hnone) _

theorem committed?_acquire {table table' : LockTable τ κ β} {owner : τ} {key : κ} {p : β → Bool}
    (h : table.acquire owner key p = some table') : committed? table' = committed? table := by
  obtain ⟨version, hrow, -, rfl⟩ := acquire_eq_some h
  exact committed?_insert_same (committed?_of_lookup hrow) _

/-! ### A property of every version -/

/-- Every version of every row, committed or not, has the property. -/
def Throughout (P : β → Prop) (table : LockTable τ κ β) : Prop :=
  ∀ key row, table.lookup key = some row → ∀ version ∈ row.versions, P version

section Throughout

variable {P : β → Prop} {table table' : LockTable τ κ β} {owner : τ} {key : κ}

theorem Throughout.empty : Throughout P (∅ : LockTable τ κ β) := fun key row hrow => by simp at hrow

theorem Throughout.committed (h : table.Throughout P) {version : β}
    (hversion : committed? table key = some version) : P version := by
  obtain ⟨⟨committed, lock⟩, hrow, hcommitted⟩ := Option.bind_eq_some_iff.mp hversion
  cases hcommitted
  exact h key _ hrow version (by cases lock <;> simp [LockRow.versions])

theorem Throughout.insert (h : table.Throughout P) (key : κ) (row : LockRow τ β)
    (hversions : ∀ version ∈ row.versions, P version) : Throughout P (table.insert key row) := by
  intro other found hfound version hversion
  by_cases hkey : other = key
  · rw [hkey, AList.lookup_insert] at hfound
    cases hfound
    exact hversions version hversion
  · rw [AList.lookup_insert_ne hkey] at hfound
    exact h other found hfound version hversion

theorem Throughout.insertNew (h : table.Throughout P) {version : β}
    (hinsert : table.insertNew owner key version = some table') (hversion : P version) :
    table'.Throughout P := by
  obtain ⟨-, rfl⟩ := insertNew_eq_some hinsert
  exact h.insert _ _ (by simpa [LockRow.versions] using hversion)

theorem Throughout.acquire (h : table.Throughout P) {p : β → Bool}
    (hacquire : table.acquire owner key p = some table') : table'.Throughout P := by
  obtain ⟨version, hrow, -, rfl⟩ := acquire_eq_some hacquire
  have hversion : P version := h key _ hrow version (by simp [LockRow.versions])
  exact h.insert _ _ (by simpa [LockRow.versions] using hversion)

theorem Throughout.autocommit (h : table.Throughout P) {f : β → β}
    (hwrite : table.autocommit key f = some table') (hf : ∀ version, P version → P (f version)) :
    table'.Throughout P := by
  obtain ⟨version, hrow, rfl⟩ := autocommit_eq_some hwrite
  have hversion : P version := h key _ hrow version (by simp [LockRow.versions])
  exact h.insert _ _ (by simpa [LockRow.versions] using hf version hversion)

end Throughout

variable [DecidableEq τ]

theorem rewrite_eq_some {table table' : LockTable τ κ β} {owner : τ} {key : κ} {f : β → β}
    (h : table.rewrite owner key f = some table') :
    ∃ committed version, table.lookup key = some ⟨committed, .held owner version⟩ ∧
      table' = table.insert key ⟨committed, .held owner (f version)⟩ := by
  unfold rewrite at h
  split at h
  · rename_i committed holder version hrow
    split at h
    · rename_i howner
      subst howner
      exact ⟨committed, version, hrow, (Option.some.inj h).symm⟩
    · cases h
  · cases h

theorem commit_of_held {table : LockTable τ κ β} {owner : τ} {key : κ} {committed : Option β}
    {version : β} (h : table.lookup key = some ⟨committed, .held owner version⟩) :
    table.commit owner key = table.insert key ⟨some version, .free⟩ := by
  unfold commit
  rw [h]
  exact if_pos rfl

theorem rollback_of_held {table : LockTable τ κ β} {owner : τ} {key : κ} {committed version : β}
    (h : table.lookup key = some ⟨some committed, .held owner version⟩) :
    table.rollback owner key = table.insert key ⟨some committed, .free⟩ := by
  unfold rollback
  rw [h]
  exact if_pos rfl

theorem rollback_of_inserted {table : LockTable τ κ β} {owner : τ} {key : κ} {version : β}
    (h : table.lookup key = some ⟨none, .held owner version⟩) :
    table.rollback owner key = table.erase key := by
  unfold rollback
  rw [h]
  exact if_pos rfl

theorem rewrite_txnStep (hrefl : ∀ v, Same v v) {table table' : LockTable τ κ β} {owner : τ} {key : κ}
    {f : β → β} (hf : ∀ v, Same v (f v)) (h : table.rewrite owner key f = some table') :
    TxnStep owner p Same table table' := by
  obtain ⟨committed, version, hrow, rfl⟩ := rewrite_eq_some h
  refine TxnStep.of_insert hrefl hrow ?_ ?_ ?_
  · intro v hv
    cases hv
  · intro c holder v hv
    cases hv
    rfl
  · intro v hv
    rcases List.mem_cons.mp hv with rfl | hv
    · exact ⟨version, List.mem_cons_self, hf version⟩
    · exact ⟨v, List.mem_cons_of_mem _ hv, hrefl v⟩

theorem commit_txnStep (hrefl : ∀ v, Same v v) {table : LockTable τ κ β} {owner : τ} {key : κ}
    {committed : Option β} {version : β}
    (h : table.lookup key = some ⟨committed, .held owner version⟩) :
    TxnStep owner p Same table (table.commit owner key) := by
  rw [commit_of_held h]
  refine TxnStep.of_insert hrefl h ?_ ?_ ?_
  · intro v hv
    cases hv
  · intro c holder v hv
    cases hv
    rfl
  · intro v hv
    have hv : v = version := by simpa [LockRow.versions] using hv
    exact ⟨version, List.mem_cons_self, hv ▸ hrefl version⟩

theorem rollback_txnStep (hrefl : ∀ v, Same v v) {table : LockTable τ κ β} {owner : τ} {key : κ}
    {committed : Option β} {version : β}
    (h : table.lookup key = some ⟨committed, .held owner version⟩) :
    TxnStep owner p Same table (table.rollback owner key) := by
  cases committed with
  | some old =>
      rw [rollback_of_held h]
      refine TxnStep.of_insert hrefl h ?_ ?_ ?_
      · intro v hv
        cases hv
      · intro c holder v hv
        cases hv
        rfl
      · intro v hv
        have hv : v = old := by simpa [LockRow.versions] using hv
        exact ⟨old, by simp [LockRow.versions], hv ▸ hrefl old⟩
  | none =>
      rw [rollback_of_inserted h]
      have herase : ∀ {other : κ}, other ≠ key → (table.erase key).lookup other = table.lookup other :=
        fun hkey => AList.lookup_erase_ne hkey
      refine ⟨?_, ?_, ?_⟩
      · intro other c holder v hother hne
        by_cases hkey : other = key
        · subst hkey
          rw [h] at hother
          cases hother
          exact absurd rfl hne
        · exact herase hkey
      · intro other v hother _
        by_cases hkey : other = key
        · subst hkey
          rw [h] at hother
          cases hother
        · exact herase hkey
      · intro other found v hfound hv
        by_cases hkey : other = key
        · subst hkey
          rw [AList.lookup_erase] at hfound
          cases hfound
        · rw [herase hkey] at hfound
          exact ⟨found, v, hfound, hv, hrefl v⟩

theorem committed?_rewrite {table table' : LockTable τ κ β} {owner : τ} {key : κ} {f : β → β}
    (h : table.rewrite owner key f = some table') : committed? table' = committed? table := by
  obtain ⟨committed, version, hrow, rfl⟩ := rewrite_eq_some h
  exact committed?_insert_same (committed?_of_lookup hrow) _

theorem committed?_rollback {table : LockTable τ κ β} {owner : τ} {key : κ} {committed : Option β}
    {version : β} (h : table.lookup key = some ⟨committed, .held owner version⟩) :
    committed? (table.rollback owner key) = committed? table := by
  cases committed with
  | some old =>
      rw [rollback_of_held h]
      exact committed?_insert_same (committed?_of_lookup h) _
  | none =>
      rw [rollback_of_inserted h]
      funext other
      by_cases hkey : other = key
      · rw [hkey, committed?_of_lookup h, committed?_eq_none (AList.lookup_erase _ _)]
      · rw [committed?, AList.lookup_erase_ne hkey, committed?]

section Throughout

variable {P : β → Prop} {table table' : LockTable τ κ β} {owner : τ} {key : κ}

theorem Throughout.rewrite (h : table.Throughout P) {f : β → β}
    (hrewrite : table.rewrite owner key f = some table')
    (hf : ∀ version, P version → P (f version)) : table'.Throughout P := by
  obtain ⟨committed, version, hrow, rfl⟩ := rewrite_eq_some hrewrite
  have hversions := h key _ hrow
  refine h.insert _ _ fun other hother => ?_
  rcases List.mem_cons.mp hother with rfl | hold
  · exact hf version (hversions version List.mem_cons_self)
  · exact hversions other (List.mem_cons_of_mem _ hold)

theorem Throughout.commit (h : table.Throughout P) (owner : τ) (key : κ) :
    (table.commit owner key).Throughout P := by
  unfold LockTable.commit
  split
  · next committed holder version hrow =>
    split
    · have hversion : P version := h key _ hrow version List.mem_cons_self
      exact h.insert _ _ (by simpa [LockRow.versions] using hversion)
    · exact h
  · exact h

theorem Throughout.rollback (h : table.Throughout P) (owner : τ) (key : κ) :
    (table.rollback owner key).Throughout P := by
  unfold LockTable.rollback
  split
  · next version holder uncommitted hrow =>
    split
    · have hversion : P version := h key _ hrow version (by simp [LockRow.versions])
      exact h.insert _ _ (by simpa [LockRow.versions] using hversion)
    · exact h
  · next holder version hrow =>
    split
    · intro other found hfound
      by_cases hkey : other = key
      · rw [hkey, AList.lookup_erase] at hfound
        cases hfound
      · rw [AList.lookup_erase_ne hkey] at hfound
        exact h other found hfound
    · exact h
  · exact h

end Throughout

end LockTable

end SphereFx
