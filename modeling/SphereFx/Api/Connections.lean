import Mathlib.Logic.Function.Basic
import SphereFx.Base.Slots

/-!
# The connection manager

`ConnectionManager` of `websocket_manager.py`. `active_connections` is a dictionary of sets, and a loop
over one of them holds on to the set itself, so the sets are objects with a number. A handler connects
its socket under the user of the socket.
-/

namespace SphereFx.Api

/-- The key under which sockets subscribe. -/
inductive Job where
  | backtest (run : Nat)
  | account (id : Nat)
  deriving DecidableEq

def Job.isBacktest : Job → Bool
  | .backtest _ => true
  | .account _ => false

/-- `users` maps a user to the set object of the user. -/
structure Manager where
  users : Slots (Nat × Nat)
  sets : Nat → Slots Nat
  nextSet : Nat
  jobs : Job → Option Nat

/-- The slots of the dictionary and of the set after an insertion. -/
structure Layout where
  users : Slots (Nat × Nat)
  set : Slots Nat

namespace Manager

def empty : Manager := ⟨[], fun _ => [], 0, fun _ => none⟩

/-- The set object of a user. -/
def setOf (m : Manager) (user : Nat) : Option Nat :=
  (m.users.elems.find? fun entry => entry.1 = user).map Prod.snd

/-- `connect`, once the socket is accepted. -/
def connect (m : Manager) (socket user : Nat) (layout : Layout) : Manager :=
  match m.setOf user with
  | some set =>
      { m with sets := Function.update m.sets set ((m.sets set).add socket layout.set) }
  | none =>
      { m with
        users := m.users.add (user, m.nextSet) layout.users
        sets := Function.update m.sets m.nextSet (Slots.add [] socket layout.set)
        nextSet := m.nextSet + 1 }

def disconnect (m : Manager) (socket user : Nat) : Manager :=
  match m.setOf user with
  | none => m
  | some set =>
      let sets := Function.update m.sets set ((m.sets set).discard socket)
      if (sets set).elems = [] then { m with users := m.users.discard (user, set), sets := sets }
      else { m with sets := sets }

def subscribeToJob (m : Manager) (user : Nat) (job : Job) : Manager :=
  { m with jobs := Function.update m.jobs job (some user) }

def unsubscribeFromJob (m : Manager) (job : Job) : Manager :=
  { m with jobs := Function.update m.jobs job none }

/-- The socket is in the set of the user. -/
def Registered (m : Manager) (user socket : Nat) : Prop :=
  ∃ set, (user, set) ∈ m.users.elems ∧ socket ∈ (m.sets set).elems

/-- The entries have different users and different sets, no set is empty, and a socket is in no set but
that of its user. -/
structure WellFormed (userOf : Nat → Nat) (m : Manager) : Prop where
  users : (m.users.elems.map Prod.fst).Nodup
  objects : (m.users.elems.map Prod.snd).Nodup
  below : ∀ entry ∈ m.users.elems, entry.2 < m.nextSet
  nonempty : ∀ entry ∈ m.users.elems, (m.sets entry.2).elems ≠ []
  nodup : ∀ set, (m.sets set).elems.Nodup
  placed : ∀ set, ∀ socket ∈ (m.sets set).elems, (userOf socket, set) ∈ m.users.elems

theorem wellFormed_empty (userOf : Nat → Nat) : WellFormed userOf empty where
  users := List.nodup_nil
  objects := List.nodup_nil
  below := List.forall_mem_nil _
  nonempty := List.forall_mem_nil _
  nodup _ := List.nodup_nil
  placed _ := List.forall_mem_nil _

variable {userOf : Nat → Nat} {m : Manager}

theorem setOf_eq_some (hm : WellFormed userOf m) {user set : Nat} :
    m.setOf user = some set ↔ (user, set) ∈ m.users.elems := by
  rw [setOf, Option.map_eq_some_iff]
  constructor
  · rintro ⟨⟨found, object⟩, hfind, rfl⟩
    have huser : found = user := by simpa using List.find?_some hfind
    rw [← huser]
    exact List.mem_of_find?_eq_some hfind
  · intro hmem
    have hsome : (m.users.elems.find? fun entry => entry.1 = user).isSome = true :=
      List.find?_isSome.mpr ⟨_, hmem, decide_eq_true rfl⟩
    obtain ⟨found, hfound⟩ := Option.isSome_iff_exists.mp hsome
    have huser : found.1 = user := by simpa using List.find?_some hfound
    have hsame := List.inj_on_of_nodup_map hm.users (List.mem_of_find?_eq_some hfound) hmem huser
    exact ⟨found, hfound, congrArg Prod.snd hsame⟩

theorem setOf_eq_none (hm : WellFormed userOf m) {user : Nat} (h : m.setOf user = none) (set : Nat) :
    (user, set) ∉ m.users.elems := fun hmem => by
  rw [(setOf_eq_some hm).mpr hmem] at h
  cases h

private theorem elems_of_unused (hm : WellFormed userOf m) {set : Nat} (h : m.nextSet ≤ set) :
    (m.sets set).elems = [] := by
  rw [List.eq_nil_iff_forall_not_mem]
  intro socket hsocket
  exact absurd (hm.below _ (hm.placed set socket hsocket)) (Nat.not_lt.mpr h)

theorem jobs_subscribe_self (m : Manager) (user : Nat) (job : Job) :
    (m.subscribeToJob user job).jobs job = some user := Function.update_self _ _ _

theorem jobs_subscribe_of_ne (m : Manager) (user : Nat) {job job' : Job} (h : job' ≠ job) :
    (m.subscribeToJob user job).jobs job' = m.jobs job' := Function.update_of_ne h _ _

theorem jobs_unsubscribe_self (m : Manager) (job : Job) :
    (m.unsubscribeFromJob job).jobs job = none := Function.update_self _ _ _

theorem jobs_unsubscribe_of_ne (m : Manager) {job job' : Job} (h : job' ≠ job) :
    (m.unsubscribeFromJob job).jobs job' = m.jobs job' := Function.update_of_ne h _ _

theorem WellFormed.withJobs (hm : WellFormed userOf m) (jobs : Job → Option Nat) :
    WellFormed userOf { m with jobs := jobs } :=
  ⟨hm.users, hm.objects, hm.below, hm.nonempty, hm.nodup, hm.placed⟩

theorem jobs_connect (m : Manager) (socket user : Nat) (layout : Layout) :
    (m.connect socket user layout).jobs = m.jobs := by
  unfold connect
  split <;> rfl

theorem jobs_disconnect (m : Manager) (socket user : Nat) :
    (m.disconnect socket user).jobs = m.jobs := by
  unfold disconnect
  split
  · rfl
  · simp only
    split <;> rfl

/-! ### What the two calls change -/

/-- The set a socket of the user goes to. -/
def target (m : Manager) (user : Nat) : Nat := (m.setOf user).getD m.nextSet

theorem elems_users_connect (m : Manager) (socket user : Nat) (layout : Layout) {entry : Nat × Nat} :
    entry ∈ (m.connect socket user layout).users.elems ↔
      entry ∈ m.users.elems ∨ m.setOf user = none ∧ entry = (user, m.nextSet) := by
  unfold connect
  cases m.setOf user with
  | some set => simp
  | none =>
      show entry ∈ (m.users.add (user, m.nextSet) layout.users).elems ↔ _
      rw [Slots.mem_add, or_comm, and_iff_right rfl]

theorem sets_connect_of_ne {socket user set : Nat} (layout : Layout) (h : set ≠ m.target user) :
    (m.connect socket user layout).sets set = m.sets set := by
  unfold connect
  unfold target at h
  cases hset : m.setOf user with
  | some object =>
      rw [hset] at h
      exact Function.update_of_ne h _ _
  | none =>
      rw [hset] at h
      exact Function.update_of_ne h _ _

private theorem sets_connect_target (hm : WellFormed userOf m) (socket user : Nat) (layout : Layout)
    {other : Nat} : other ∈ ((m.connect socket user layout).sets (m.target user)).elems ↔
      other = socket ∨ other ∈ (m.sets (m.target user)).elems := by
  unfold connect target
  cases m.setOf user with
  | some object =>
      simp only [Option.getD_some, Function.update_self]
      exact Slots.mem_add
  | none =>
      simp only [Option.getD_none, Function.update_self, elems_of_unused hm (Nat.le_refl _)]
      exact Slots.mem_add (s := [])

theorem mem_sets_connect (hm : WellFormed userOf m) (socket user : Nat) (layout : Layout)
    {set other : Nat} : other ∈ ((m.connect socket user layout).sets set).elems ↔
      other ∈ (m.sets set).elems ∨ other = socket ∧ set = m.target user := by
  by_cases h : set = m.target user
  · rw [h, sets_connect_target hm socket user layout, or_comm, and_iff_left rfl]
  · rw [sets_connect_of_ne layout h]
    exact ⟨Or.inl, fun h' => h'.elim id fun h' => absurd h'.2 h⟩

private theorem target_mem (hm : WellFormed userOf m) (socket user : Nat) (layout : Layout) :
    (user, m.target user) ∈ (m.connect socket user layout).users.elems := by
  rw [elems_users_connect]
  unfold target
  cases hset : m.setOf user with
  | some object => exact Or.inl ((setOf_eq_some hm).mp hset)
  | none => exact Or.inr ⟨rfl, rfl⟩

theorem WellFormed.connect (hm : WellFormed userOf m) (socket : Nat) (layout : Layout) :
    WellFormed userOf (m.connect socket (userOf socket) layout) where
  users := by
    unfold Manager.connect
    cases hset : m.setOf (userOf socket) with
    | some set => exact hm.users
    | none =>
        have hfresh := setOf_eq_none hm hset
        refine (((Slots.elems_add_perm layout.users (hfresh _)).map Prod.fst).nodup_iff).mpr ?_
        refine List.nodup_cons.mpr ⟨fun hmem => ?_, hm.users⟩
        obtain ⟨⟨user, set⟩, hentry, rfl⟩ := List.mem_map.mp hmem
        exact hfresh set hentry
  objects := by
    unfold Manager.connect
    cases hset : m.setOf (userOf socket) with
    | some set => exact hm.objects
    | none =>
        have hfresh := setOf_eq_none hm hset
        refine (((Slots.elems_add_perm layout.users (hfresh _)).map Prod.snd).nodup_iff).mpr ?_
        refine List.nodup_cons.mpr ⟨fun hmem => ?_, hm.objects⟩
        obtain ⟨entry, hentry, heq⟩ := List.mem_map.mp hmem
        exact absurd (hm.below entry hentry) (heq ▸ Nat.lt_irrefl _)
  below := by
    intro entry hentry
    rcases (elems_users_connect m socket (userOf socket) layout).mp hentry with hold | ⟨hset, rfl⟩
    · have hlt := hm.below entry hold
      unfold Manager.connect
      cases m.setOf (userOf socket) with
      | some set => exact hlt
      | none => exact Nat.lt_succ_of_lt hlt
    · simp only [Manager.connect, hset]
      exact Nat.lt_succ_self _
  nonempty := by
    intro entry hentry
    rcases (elems_users_connect m socket (userOf socket) layout).mp hentry with hold | ⟨hset, rfl⟩
    · obtain ⟨other, hother⟩ := List.exists_mem_of_ne_nil _ (hm.nonempty entry hold)
      exact List.ne_nil_of_mem ((mem_sets_connect hm socket _ layout).mpr (Or.inl hother))
    · have htarget : m.nextSet = m.target (userOf socket) := by rw [target, hset]; rfl
      exact List.ne_nil_of_mem
        ((mem_sets_connect hm socket _ layout).mpr (Or.inr ⟨rfl, htarget⟩))
  nodup := by
    intro set
    by_cases h : set = m.target (userOf socket)
    · unfold Manager.connect
      unfold target at h
      cases hset : m.setOf (userOf socket) with
      | some object =>
          rw [hset] at h
          simp only [h, Option.getD_some, Function.update_self]
          exact Slots.nodup_add (hm.nodup object) socket _
      | none =>
          rw [hset] at h
          simp only [h, Option.getD_none, Function.update_self]
          exact Slots.nodup_add (s := []) List.nodup_nil socket _
    · rw [sets_connect_of_ne layout h]
      exact hm.nodup set
  placed := by
    intro set other hother
    rcases (mem_sets_connect hm socket _ layout).mp hother with hold | ⟨rfl, rfl⟩
    · exact (elems_users_connect m socket _ layout).mpr (Or.inl (hm.placed set other hold))
    · exact target_mem hm _ _ layout

theorem registered_iff (hm : WellFormed userOf m) {user socket : Nat} :
    m.Registered user socket ↔ user = userOf socket ∧ ∃ set, socket ∈ (m.sets set).elems := by
  constructor
  · rintro ⟨set, hentry, hsocket⟩
    have hplaced := hm.placed set socket hsocket
    exact ⟨congrArg Prod.fst (List.inj_on_of_nodup_map hm.objects hentry hplaced rfl), set, hsocket⟩
  · rintro ⟨rfl, set, hsocket⟩
    exact ⟨set, hm.placed set socket hsocket, hsocket⟩

theorem registered_connect (hm : WellFormed userOf m) (socket : Nat) (layout : Layout)
    {user other : Nat} : (m.connect socket (userOf socket) layout).Registered user other ↔
      m.Registered user other ∨ user = userOf socket ∧ other = socket := by
  rw [registered_iff (hm.connect socket layout), registered_iff hm]
  constructor
  · rintro ⟨rfl, set, hother⟩
    rcases (mem_sets_connect hm socket _ layout).mp hother with hold | ⟨rfl, -⟩
    · exact Or.inl ⟨rfl, set, hold⟩
    · exact Or.inr ⟨rfl, rfl⟩
  · rintro (⟨rfl, set, hother⟩ | ⟨rfl, rfl⟩)
    · exact ⟨rfl, set, (mem_sets_connect hm socket _ layout).mpr (Or.inl hother)⟩
    · exact ⟨rfl, _, (mem_sets_connect hm other _ layout).mpr (Or.inr ⟨rfl, rfl⟩)⟩

/-- After a disconnect the socket is in no set, and the other sockets are where they were. -/
theorem mem_sets_disconnect (hm : WellFormed userOf m) (socket : Nat) {set other : Nat} :
    other ∈ ((m.disconnect socket (userOf socket)).sets set).elems ↔
      other ∈ (m.sets set).elems ∧ other ≠ socket := by
  have hsets : ∀ object, m.setOf (userOf socket) = some object →
      (m.disconnect socket (userOf socket)).sets =
        Function.update m.sets object ((m.sets object).discard socket) := by
    intro object hset
    simp only [disconnect, hset]
    split <;> rfl
  have hplaced : socket ∈ (m.sets set).elems → m.setOf (userOf socket) = some set :=
    fun hsocket => (setOf_eq_some hm).mpr (hm.placed set socket hsocket)
  have hkept : m.setOf (userOf socket) ≠ some set →
      (other ∈ (m.sets set).elems ↔ other ∈ (m.sets set).elems ∧ other ≠ socket) :=
    fun hset => ⟨fun h => ⟨h, fun heq => hset (hplaced (heq ▸ h))⟩, And.left⟩
  cases hset : m.setOf (userOf socket) with
  | none =>
      simp only [disconnect, hset]
      exact hkept (hset ▸ fun h => by cases h)
  | some object =>
      rw [hsets object hset]
      by_cases hobject : set = object
      · rw [hobject, Function.update_self]
        exact Slots.mem_discard
      · rw [Function.update_of_ne hobject]
        exact hkept fun h => hobject (Option.some.inj (h.symm.trans hset))

/-- The entry of the user goes with the last socket. -/
theorem elems_users_disconnect (hm : WellFormed userOf m) (socket : Nat) {entry : Nat × Nat} :
    entry ∈ (m.disconnect socket (userOf socket)).users.elems ↔
      entry ∈ m.users.elems ∧
        ((m.disconnect socket (userOf socket)).sets entry.2).elems ≠ [] := by
  cases hset : m.setOf (userOf socket) with
  | none =>
      simp only [disconnect, hset]
      exact ⟨fun h => ⟨h, hm.nonempty entry h⟩, And.left⟩
  | some object =>
      have hobject := (setOf_eq_some hm).mp hset
      simp only [disconnect, hset]
      split
      · rename_i hempty
        rw [Slots.mem_discard]
        refine and_congr_right fun hentry => ?_
        by_cases hsame : entry.2 = object
        · have heq : entry = (userOf socket, object) :=
            List.inj_on_of_nodup_map hm.objects hentry hobject hsame
          rw [heq]
          exact iff_of_false (fun h => h rfl) fun h => h hempty
        · simp only [Function.update_of_ne hsame]
          exact iff_of_true (fun heq => hsame (congrArg Prod.snd heq)) (hm.nonempty entry hentry)
      · rename_i hleft
        refine ⟨fun hentry => ⟨hentry, ?_⟩, And.left⟩
        by_cases hsame : entry.2 = object
        · rw [hsame]
          exact hleft
        · simp only [Function.update_of_ne hsame]
          exact hm.nonempty entry hentry

private theorem nextSet_disconnect (m : Manager) (socket user : Nat) :
    (m.disconnect socket user).nextSet = m.nextSet := by
  unfold disconnect
  split
  · rfl
  · simp only
    split <;> rfl

theorem keeps_users_disconnect (m : Manager) (socket user : Nat) :
    Slots.Keeps m.users (m.disconnect socket user).users := by
  unfold disconnect
  split
  · exact Slots.Keeps.refl _
  · simp only
    split
    · exact Slots.keeps_discard _ _
    · exact Slots.Keeps.refl _

theorem keeps_sets_disconnect (m : Manager) (socket user set : Nat) :
    Slots.Keeps (m.sets set) ((m.disconnect socket user).sets set) := by
  have hupdate : ∀ object, Slots.Keeps (m.sets set)
      (Function.update m.sets object ((m.sets object).discard socket) set) := by
    intro object
    by_cases hobject : set = object
    · rw [hobject, Function.update_self]
      exact Slots.keeps_discard _ _
    · rw [Function.update_of_ne hobject]
      exact Slots.Keeps.refl _
  unfold disconnect
  split
  · exact Slots.Keeps.refl _
  · simp only
    split <;> exact hupdate _

theorem WellFormed.disconnect (hm : WellFormed userOf m) (socket : Nat) :
    WellFormed userOf (m.disconnect socket (userOf socket)) where
  users := by
    unfold Manager.disconnect
    split
    · exact hm.users
    · simp only
      split
      · rw [Slots.elems_discard]
        exact hm.users.sublist (List.filter_sublist.map _)
      · exact hm.users
  objects := by
    unfold Manager.disconnect
    split
    · exact hm.objects
    · simp only
      split
      · rw [Slots.elems_discard]
        exact hm.objects.sublist (List.filter_sublist.map _)
      · exact hm.objects
  below entry hentry := by
    rw [nextSet_disconnect]
    exact hm.below entry ((elems_users_disconnect hm socket).mp hentry).1
  nonempty entry hentry := ((elems_users_disconnect hm socket).mp hentry).2
  nodup set := by
    unfold Manager.disconnect
    split
    · exact hm.nodup set
    · rename_i object _
      have hnodup : (Function.update m.sets object ((m.sets object).discard socket) set).elems.Nodup := by
        by_cases hobject : set = object
        · rw [hobject, Function.update_self]
          exact Slots.nodup_discard (hm.nodup object) socket
        · rw [Function.update_of_ne hobject]
          exact hm.nodup set
      simp only
      split <;> exact hnodup
  placed set other hother :=
    (elems_users_disconnect hm socket).mpr
      ⟨hm.placed set other ((mem_sets_disconnect hm socket).mp hother).1, List.ne_nil_of_mem hother⟩

theorem registered_disconnect (hm : WellFormed userOf m) (socket : Nat) {user other : Nat} :
    (m.disconnect socket (userOf socket)).Registered user other ↔
      m.Registered user other ∧ other ≠ socket := by
  simp only [registered_iff (hm.disconnect socket), registered_iff hm, mem_sets_disconnect hm socket]
  constructor
  · rintro ⟨huser, set, hother, hne⟩
    exact ⟨⟨huser, set, hother⟩, hne⟩
  · rintro ⟨⟨huser, set, hother⟩, hne⟩
    exact ⟨huser, set, hother, hne⟩

end Manager

end SphereFx.Api
