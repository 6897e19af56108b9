import Mathlib.Data.Prod.Lex
import SphereFx.Base.Run
import SphereFx.Api.Connections

/-!
# Sending to the connected sockets

`broadcast` and `send_to_user` with the connects and disconnects that fall between their sends. A loop
awaits each send in the middle of its iteration, and an iteration raises at its next step when the size
of the dictionary or set has changed since it began. That of the dictionary also counts its entries: it
raises when it meets one more than the dictionary had.
-/

namespace SphereFx.Api

/-- The iteration of a broadcast over the dictionary: the position of the entry, the size the dictionary
had, and how many entries are still expected. -/
structure Outer where
  position : Nat
  size : Nat
  left : Nat

/-- A loop that awaits a send: the set it goes through, the next slot, and the size the set had. -/
structure Loop where
  outer : Option Outer
  set : Nat
  index : Nat
  size : Nat

/-- What a loop does when it goes on. -/
inductive LoopStep where
  | sends (socket : Nat) (loop : Loop)
  | finished
  | raised

inductive SendStage where
  | idle
  | waiting (loop : Loop)
  | finished
  | raised

/-- A call, with the sockets it has sent to and, of those it was meant for, the ones that have been
registered ever since. -/
structure Send where
  stage : SendStage
  sent : List Nat
  loyal : List Nat

namespace Manager

/-- The outer loop over the slots from a position on. An empty set gives the inner loop nothing to do. -/
def enterSlots (m : Manager) (size : Nat) : Slots (Nat × Nat) → Nat → Nat → LoopStep
  | [], _, _ => .finished
  | none :: rest, position, left => m.enterSlots size rest (position + 1) left
  | some _ :: _, _, 0 => .raised
  | some entry :: rest, position, left + 1 =>
      match (m.sets entry.2).nextFrom 0 with
      | none => m.enterSlots size rest (position + 1) left
      | some (index, socket) =>
          .sends socket
            ⟨some ⟨position, size, left⟩, entry.2, index + 1, (m.sets entry.2).elems.length⟩

/-- The outer loop from a position on. -/
def enter (m : Manager) (size position left : Nat) : LoopStep :=
  m.enterSlots size (m.users.drop position) position left

/-- `broadcast` up to its first `await`. -/
def startBroadcast (m : Manager) : LoopStep :=
  m.enter m.users.elems.length 0 m.users.elems.length

/-- `send_to_user` up to its first `await`. -/
def startSend (m : Manager) (user : Nat) : LoopStep :=
  match m.setOf user with
  | none => .finished
  | some set =>
      match (m.sets set).nextFrom 0 with
      | none => .finished
      | some (index, socket) => .sends socket ⟨none, set, index + 1, (m.sets set).elems.length⟩

/-- A loop whose send has come back. -/
def goOn (m : Manager) (loop : Loop) : LoopStep :=
  if (m.sets loop.set).elems.length ≠ loop.size then .raised
  else
    match (m.sets loop.set).nextFrom loop.index with
    | some (index, socket) => .sends socket { loop with index := index + 1 }
    | none =>
        match loop.outer with
        | none => .finished
        | some outer =>
            if m.users.elems.length ≠ outer.size then .raised
            else m.enter outer.size (outer.position + 1) outer.left

/-- Every registered socket. -/
def sockets (m : Manager) : List Nat :=
  m.users.elems.flatMap fun entry => (m.sets entry.2).elems

def userSockets (m : Manager) (user : Nat) : List Nat :=
  match m.setOf user with
  | none => []
  | some set => (m.sets set).elems

end Manager

def Send.after (send : Send) : LoopStep → Send
  | .sends socket loop => { send with stage := .waiting loop, sent := socket :: send.sent }
  | .finished => { send with stage := .finished }
  | .raised => { send with stage := .raised }

structure Sends where
  manager : Manager
  sends : Nat → Send

inductive SendEvent where
  | connect (socket : Nat) (layout : Layout)
  | disconnect (socket : Nat)
  | broadcast (id : Nat)
  | sendToUser (id user : Nat)
  /-- The awaited send comes back, or raises inside its own `try`. -/
  | resume (id : Nat)

namespace Sends

def initial : Sends := ⟨.empty, fun _ => ⟨.idle, [], []⟩⟩

def setSend (s : Sends) (id : Nat) (send : Send) : Sends :=
  { s with sends := Function.update s.sends id send }

variable (userOf : Nat → Nat)

def step (s : Sends) : SendEvent → Sends
  | .connect socket layout =>
      { s with manager := s.manager.connect socket (userOf socket) layout }
  | .disconnect socket =>
      { manager := s.manager.disconnect socket (userOf socket)
        sends := fun id => { s.sends id with loyal := (s.sends id).loyal.filter (· ≠ socket) } }
  | .broadcast id =>
      match (s.sends id).stage with
      | .idle => s.setSend id (Send.after ⟨.idle, [], s.manager.sockets⟩ s.manager.startBroadcast)
      | _ => s
  | .sendToUser id user =>
      match (s.sends id).stage with
      | .idle =>
          s.setSend id
            (Send.after ⟨.idle, [], s.manager.userSockets user⟩ (s.manager.startSend user))
      | _ => s
  | .resume id =>
      match (s.sends id).stage with
      | .waiting loop => s.setSend id ((s.sends id).after (s.manager.goOn loop))
      | _ => s

/-- No loop goes on after the set it goes through, or at its end the dictionary, has changed its size, or
to an entry more than the dictionary had, and no connect lays out either of them anew. -/
def Undisturbed (s : Sends) : SendEvent → Prop
  | .connect socket layout =>
      ∀ id loop, (s.sends id).stage = .waiting loop →
        Slots.Keeps (s.manager.sets loop.set)
          ((s.manager.connect socket (userOf socket) layout).sets loop.set) ∧
        (loop.outer.isSome = true →
          Slots.Keeps s.manager.users (s.manager.connect socket (userOf socket) layout).users)
  | .resume id =>
      ∀ loop, (s.sends id).stage = .waiting loop →
        (s.manager.sets loop.set).elems.length = loop.size ∧
        ((s.manager.sets loop.set).nextFrom loop.index = none →
          ∀ outer, loop.outer = some outer →
            s.manager.users.elems.length = outer.size ∧
            (outer.left = 0 → s.manager.users.nextFrom (outer.position + 1) = none))
  | _ => True

end Sends

/-! ### What a loop has behind it -/

namespace Manager

variable {userOf : Nat → Nat} {m : Manager}

/-- The socket is in a slot of a set in a slot of the dictionary. -/
structure At (m : Manager) (userOf : Nat → Nat) (socket position set index : Nat) : Prop where
  entry : m.users[position]? = some (some (userOf socket, set))
  slot : (m.sets set)[index]? = some (some socket)

theorem exists_at (hm : WellFormed userOf m) {set socket : Nat} (h : socket ∈ (m.sets set).elems) :
    ∃ position index, m.At userOf socket position set index := by
  obtain ⟨index, hindex⟩ := Slots.mem_elems.mp h
  obtain ⟨position, hposition⟩ := Slots.mem_elems.mp (hm.placed set socket h)
  exact ⟨position, index, hposition, hindex⟩

private theorem enterSlots_of_none {slots : Slots (Nat × Nat)} {i : Nat}
    (h : Slots.scan slots i = none) (size left : Nat) : m.enterSlots size slots i left = .finished := by
  induction slots generalizing i with
  | nil => rfl
  | cons slot rest ih =>
      cases slot with
      | none => exact ih h
      | some entry => cases h

private theorem enterSlots_zero {slots : Slots (Nat × Nat)} {i : Nat} {found : Nat × Nat × Nat}
    (h : Slots.scan slots i = some found) (size : Nat) : m.enterSlots size slots i 0 = .raised := by
  induction slots generalizing i with
  | nil => cases h
  | cons slot rest ih =>
      cases slot with
      | none => exact ih h
      | some entry => rfl

private theorem enterSlots_succ {slots : Slots (Nat × Nat)} {i at' index socket : Nat}
    {entry : Nat × Nat} (h : Slots.scan slots i = some (at', entry))
    (hfirst : (m.sets entry.2).nextFrom 0 = some (index, socket)) (size left : Nat) :
    m.enterSlots size slots i (left + 1) = .sends socket
      ⟨some ⟨at', size, left⟩, entry.2, index + 1, (m.sets entry.2).elems.length⟩ := by
  induction slots generalizing i with
  | nil => cases h
  | cons slot rest ih =>
      cases slot with
      | none => exact ih h
      | some found =>
          obtain ⟨rfl, rfl⟩ := Prod.mk.inj (Option.some.inj h)
          simp only [enterSlots, hfirst]

theorem enter_of_none {position : Nat} (h : m.users.nextFrom position = none) (size left : Nat) :
    m.enter size position left = .finished :=
  enterSlots_of_none h size left

/-- The outer loop at the next entry, which has a socket: it goes there if it expects one. -/
theorem enter_of_some (hm : WellFormed userOf m) {position at' : Nat} {entry : Nat × Nat}
    (h : m.users.nextFrom position = some (at', entry)) (size left : Nat) :
    (left = 0 ∧ m.enter size position left = .raised) ∨
    (left ≠ 0 ∧ ∃ index socket, (m.sets entry.2).nextFrom 0 = some (index, socket) ∧
      m.enter size position left = .sends socket
        ⟨some ⟨at', size, left - 1⟩, entry.2, index + 1, (m.sets entry.2).elems.length⟩) := by
  have hmem : entry ∈ m.users.elems := Slots.mem_elems.mpr ⟨at', (Slots.nextFrom_eq_some h).2⟩
  obtain ⟨⟨index, socket⟩, hfirst⟩ :=
    Option.isSome_iff_exists.mp (Slots.nextFrom_isSome (hm.nonempty entry hmem))
  cases left with
  | zero => exact Or.inl ⟨rfl, enterSlots_zero h size⟩
  | succ left =>
      exact Or.inr ⟨Nat.succ_ne_zero left, index, socket, hfirst, enterSlots_succ h hfirst size left⟩

theorem set_unique (hm : WellFormed userOf m) {socket set set' : Nat}
    (h : socket ∈ (m.sets set).elems) (h' : socket ∈ (m.sets set').elems) : set = set' := by
  have hentry := hm.placed set socket h
  have hentry' := hm.placed set' socket h'
  exact congrArg Prod.snd (List.inj_on_of_nodup_map hm.users hentry hentry' rfl)

private theorem position_unique (hm : WellFormed userOf m) {position position' set : Nat}
    {user user' : Nat} (h : m.users[position]? = some (some (user, set)))
    (h' : m.users[position']? = some (some (user', set))) : position = position' ∧ user = user' := by
  have hsame := List.inj_on_of_nodup_map hm.objects (Slots.mem_elems.mpr ⟨position, h⟩)
    (Slots.mem_elems.mpr ⟨position', h'⟩) rfl
  rw [← hsame] at h'
  exact ⟨Slots.slot_unique (List.Nodup.of_map Prod.fst hm.users) h h', congrArg Prod.fst hsame⟩

/-- The socket has had the message if its set is behind the position. -/
def MetEntries (m : Manager) (userOf : Nat → Nat) (sent : List Nat) (position socket : Nat) : Prop :=
  ∃ at' set index, m.At userOf socket at' set index ∧ Slots.MetOnce sent at' position socket

/-- The socket has had the message if its slot in the loop's set, or the slot of its own set, is behind
the loop. -/
def MetLoop (m : Manager) (userOf : Nat → Nat) (loop : Loop) (sent : List Nat) (socket : Nat) : Prop :=
  ∃ position set index, m.At userOf socket position set index ∧
    ((set = loop.set ∧ (∀ outer, loop.outer = some outer → position = outer.position) ∧
        Slots.MetOnce sent index loop.index socket) ∨
      (set ≠ loop.set ∧ ∃ outer, loop.outer = some outer ∧ position ≠ outer.position ∧
        Slots.MetOnce sent position outer.position socket))

/-- What a step of a loop leaves true of a socket it was meant for. -/
def Served (m : Manager) (userOf : Nat → Nat) (sent : List Nat) (socket : Nat) : LoopStep → Prop
  | .sends next loop => m.MetLoop userOf loop (next :: sent) socket
  | .finished => sent.count socket = 1
  | .raised => False

theorem metOnce_cons_of_ne {sent : List Nat} {socket next slot cursor slot' cursor' : Nat}
    (hne : next ≠ socket) (hmet : Slots.MetOnce sent slot cursor socket)
    (hside : slot < cursor ↔ slot' < cursor') :
    Slots.MetOnce (next :: sent) slot' cursor' socket := by
  unfold Slots.MetOnce at hmet ⊢
  rw [List.count_cons_of_ne hne, hmet]
  simp only [hside]

/-- The outer loop finds the next set and sends to its first socket. -/
theorem served_enter (hm : WellFormed userOf m) {sent : List Nat} {socket position left : Nat}
    (size : Nat) (hleft : left = 0 → m.users.nextFrom position = none)
    (h : m.MetEntries userOf sent position socket) :
    m.Served userOf sent socket (m.enter size position left) := by
  obtain ⟨at', set, index, hat, hmet⟩ := h
  cases hnext : m.users.nextFrom position with
  | none =>
      rw [enter_of_none hnext]
      exact hmet.trans (if_pos (Slots.lt_of_nextFrom_none hnext hat.entry))
  | some found =>
      obtain ⟨position', entry⟩ := found
      obtain ⟨hle, hentry⟩ := Slots.nextFrom_eq_some hnext
      rcases enter_of_some hm hnext size left with ⟨hzero, -⟩ | ⟨-, index', first, hfirst, henter⟩
      · rw [hleft hzero] at hnext
        cases hnext
      rw [henter]
      refine ⟨at', set, index, hat, ?_⟩
      by_cases hset : set = entry.2
      · have hsame : at' = position' := (position_unique hm (hset ▸ hat.entry) hentry).1
        have hunmet : Slots.MetOnce sent index 0 socket := by
          unfold Slots.MetOnce at hmet ⊢
          rw [hmet, if_neg (by omega), if_neg (Nat.not_lt_zero index)]
        refine Or.inl ⟨hset, fun outer houter => ?_, ?_⟩
        · rw [hsame]
          exact congrArg Outer.position (Option.some.inj houter)
        · exact Slots.metOnce_next (hm.nodup entry.2) hfirst (hset ▸ hat.slot) hunmet
      · have hne : at' ≠ position' := by
          rintro rfl
          have hsame := Option.some.inj (Option.some.inj (hat.entry.symm.trans hentry))
          exact hset (congrArg Prod.snd hsame)
        have hother : first ≠ socket := by
          rintro rfl
          exact hset (set_unique hm (Slots.mem_elems.mpr ⟨index, hat.slot⟩)
            (Slots.mem_elems.mpr ⟨index', (Slots.nextFrom_eq_some hfirst).2⟩))
        have hside : at' < position ↔ at' < position' := by
          rcases Slots.nextFrom_cases hnext hat.entry with hbefore | hhere | hahead <;> omega
        exact Or.inr ⟨hset, _, rfl, hne, metOnce_cons_of_ne hother hmet hside⟩

/-- A loop that goes on undisturbed sends to the next socket or ends with all of them served. -/
private theorem served_goOn (hm : WellFormed userOf m) {loop : Loop} {sent : List Nat} {socket : Nat}
    (h : m.MetLoop userOf loop sent socket) (hsize : (m.sets loop.set).elems.length = loop.size)
    (hdict : (m.sets loop.set).nextFrom loop.index = none → ∀ outer, loop.outer = some outer →
      m.users.elems.length = outer.size ∧
        (outer.left = 0 → m.users.nextFrom (outer.position + 1) = none)) :
    m.Served userOf sent socket (m.goOn loop) := by
  obtain ⟨position, set, index, hat, hmet⟩ := h
  unfold goOn
  rw [if_neg (not_not.mpr hsize)]
  cases hnext : (m.sets loop.set).nextFrom loop.index with
  | some found =>
      obtain ⟨index', next⟩ := found
      refine ⟨position, set, index, hat, ?_⟩
      rcases hmet with ⟨hset, hposition, hmet⟩ | ⟨hset, outer, houter, hne, hmet⟩
      · exact Or.inl ⟨hset, hposition,
          Slots.metOnce_next (hm.nodup loop.set) hnext (hset ▸ hat.slot) hmet⟩
      · have hother : next ≠ socket := by
          rintro rfl
          exact hset (set_unique hm (Slots.mem_elems.mpr ⟨index, hat.slot⟩)
            (Slots.mem_elems.mpr ⟨index', (Slots.nextFrom_eq_some hnext).2⟩))
        exact Or.inr ⟨hset, outer, houter, hne, metOnce_cons_of_ne hother hmet Iff.rfl⟩
  | none =>
      cases houter : loop.outer with
      | none =>
          rcases hmet with ⟨hset, -, hmet⟩ | ⟨-, outer, houter', -⟩
          · exact Slots.count_of_exhausted hnext (hset ▸ hat.slot) hmet
          · rw [houter] at houter'
            cases houter'
      | some outer =>
          obtain ⟨hdict, hleft⟩ := hdict hnext outer houter
          simp only [hdict, ne_eq, not_true_eq_false, if_false]
          refine served_enter hm outer.size hleft ⟨position, set, index, hat, ?_⟩
          unfold Slots.MetOnce
          rcases hmet with ⟨hset, hposition, hmet⟩ | ⟨-, outer', houter', hne, hmet⟩
          · rw [Slots.count_of_exhausted hnext (hset ▸ hat.slot) hmet,
              if_pos (by rw [hposition outer houter]; exact Nat.lt_succ_self outer.position)]
          · obtain rfl : outer = outer' := Option.some.inj (houter.symm.trans houter')
            have hside : position < outer.position ↔ position < outer.position + 1 := by omega
            rw [hmet]
            simp only [hside]

theorem metOnce_nil (slot socket : Nat) : Slots.MetOnce [] slot 0 socket := by
  rw [Slots.MetOnce, if_neg (Nat.not_lt_zero slot), List.count_nil]

private theorem served_startBroadcast (hm : WellFormed userOf m) {socket : Nat} (h : socket ∈ m.sockets) :
    m.Served userOf [] socket m.startBroadcast := by
  obtain ⟨entry, -, hsocket⟩ := List.mem_flatMap.mp h
  obtain ⟨position, index, hat⟩ := exists_at hm hsocket
  refine served_enter hm _ (fun hempty => ?_)
    ⟨position, entry.2, index, hat, metOnce_nil position socket⟩
  rw [List.length_eq_zero_iff, List.eq_nil_iff_forall_not_mem] at hempty
  exact absurd (Slots.mem_elems.mpr ⟨position, hat.entry⟩) (hempty _)

private theorem served_startSend (hm : WellFormed userOf m) {user socket : Nat}
    (h : socket ∈ m.userSockets user) : m.Served userOf [] socket (m.startSend user) := by
  unfold userSockets at h
  unfold startSend
  cases hset : m.setOf user with
  | none =>
      rw [hset] at h
      cases h
  | some set =>
      rw [hset] at h
      obtain ⟨position, index, hat⟩ := exists_at hm h
      obtain ⟨⟨index', first⟩, hfirst⟩ :=
        Option.isSome_iff_exists.mp (Slots.nextFrom_isSome (List.ne_nil_of_mem h))
      simp only [hfirst]
      exact ⟨position, set, index, hat, Or.inl ⟨rfl, fun _ h => (by cases h),
        Slots.metOnce_next (hm.nodup set) hfirst hat.slot (metOnce_nil index socket)⟩⟩

/-- What others do to the manager while a loop waits. -/
theorem MetLoop.of_keeps {m' : Manager} {loop : Loop} {sent : List Nat} {socket : Nat}
    (h : m.MetLoop userOf loop sent socket)
    (hstays : ∀ set, socket ∈ (m.sets set).elems →
      socket ∈ (m'.sets set).elems ∧ (userOf socket, set) ∈ m'.users.elems)
    (hset : Slots.Keeps (m.sets loop.set) (m'.sets loop.set))
    (hdict : loop.outer.isSome = true → Slots.Keeps m.users m'.users) :
    m'.MetLoop userOf loop sent socket := by
  obtain ⟨position, set, index, hat, hmet⟩ := h
  obtain ⟨hmem, hentry⟩ := hstays set (Slots.mem_elems.mpr ⟨index, hat.slot⟩)
  rcases hmet with ⟨rfl, hposition, hmet⟩ | ⟨hne, outer, houter, hat', hmet⟩
  · have hslot := hset.slot index socket hat.slot hmem
    cases houter : loop.outer with
    | none =>
        obtain ⟨position', hposition'⟩ := Slots.mem_elems.mp hentry
        exact ⟨position', loop.set, index, ⟨hposition', hslot⟩,
          Or.inl ⟨rfl, fun _ h => (by rw [houter] at h; cases h), hmet⟩⟩
    | some outer =>
        have hkeeps := hdict (by rw [houter]; rfl)
        exact ⟨position, loop.set, index, ⟨hkeeps.slot position _ hat.entry hentry, hslot⟩,
          Or.inl ⟨rfl, hposition, hmet⟩⟩
  · have hkeeps := hdict (by rw [houter]; rfl)
    obtain ⟨index', hindex'⟩ := Slots.mem_elems.mp hmem
    exact ⟨position, set, index', ⟨hkeeps.slot position _ hat.entry hentry, hindex'⟩,
      Or.inr ⟨hne, outer, houter, hat', hmet⟩⟩

/-! ### How far a loop has come -/

private theorem startBroadcast_ne_raised (hm : WellFormed userOf m) : m.startBroadcast ≠ .raised := by
  unfold startBroadcast
  cases hnext : m.users.nextFrom 0 with
  | none =>
      rw [enter_of_none hnext]
      exact fun h => by cases h
  | some found =>
      have hmem : found.2 ∈ m.users.elems :=
        Slots.mem_elems.mpr ⟨found.1, (Slots.nextFrom_eq_some hnext).2⟩
      rcases enter_of_some hm hnext m.users.elems.length m.users.elems.length with
        ⟨hzero, -⟩ | ⟨-, index, socket, -, henter⟩
      · rw [List.length_eq_zero_iff] at hzero
        rw [hzero] at hmem
        cases hmem
      · rw [henter]
        exact fun h => by cases h

/-- A loop raises exactly when it meets a changed size, or an entry that it does not expect. -/
theorem goOn_eq_raised (hm : WellFormed userOf m) (loop : Loop) :
    m.goOn loop = .raised ↔ (m.sets loop.set).elems.length ≠ loop.size ∨
      (m.sets loop.set).nextFrom loop.index = none ∧ ∃ outer, loop.outer = some outer ∧
        (m.users.elems.length ≠ outer.size ∨
          outer.left = 0 ∧ m.users.nextFrom (outer.position + 1) ≠ none) := by
  unfold goOn
  by_cases hsize : (m.sets loop.set).elems.length ≠ loop.size
  · rw [if_pos hsize]
    exact iff_of_true rfl (Or.inl hsize)
  · rw [if_neg hsize, or_iff_right hsize]
    cases hnext : (m.sets loop.set).nextFrom loop.index with
    | some found => exact iff_of_false (fun h => by cases h) fun h => by cases h.1
    | none =>
        rw [and_iff_right rfl]
        cases houter : loop.outer with
        | none => exact iff_of_false (fun h => by cases h) fun ⟨_, h, _⟩ => by cases h
        | some outer =>
            have hsome : ∀ P : Outer → Prop, (∃ other, some outer = some other ∧ P other) ↔ P outer :=
              fun P => ⟨fun ⟨_, heq, h⟩ => Option.some.inj heq ▸ h, fun h => ⟨outer, rfl, h⟩⟩
            rw [hsome]
            dsimp only
            by_cases hdict : m.users.elems.length ≠ outer.size
            · rw [if_pos hdict]
              exact iff_of_true rfl (Or.inl hdict)
            · rw [if_neg hdict, or_iff_right hdict]
              cases hfound : m.users.nextFrom (outer.position + 1) with
              | none =>
                  rw [enter_of_none hfound]
                  exact iff_of_false (fun h => by cases h) fun h => h.2 rfl
              | some found =>
                  rcases enter_of_some hm hfound outer.size outer.left with
                    ⟨hzero, henter⟩ | ⟨hleft, index, socket, -, henter⟩
                  · rw [henter]
                    exact iff_of_true rfl ⟨hzero, fun h => by cases h⟩
                  · rw [henter]
                    exact iff_of_false (fun h => by cases h) fun h => hleft h.1

private theorem startSend_ne_raised (m : Manager) (user : Nat) : m.startSend user ≠ .raised := by
  unfold startSend
  split
  · exact fun h => by cases h
  · split <;> exact fun h => by cases h

/-- The entries that the outer loop has not come to, and the slots left in the loop's set. -/
def rank (m : Manager) (loop : Loop) : ℕ ×ₗ ℕ :=
  toLex ((loop.outer.map fun outer => m.users.length - outer.position).getD 0,
    (m.sets loop.set).length - loop.index)

private theorem rank_goOn (hm : WellFormed userOf m) {loop loop' : Loop} {socket : Nat}
    (h : m.goOn loop = .sends socket loop') : m.rank loop' < m.rank loop := by
  unfold goOn at h
  split at h
  · cases h
  · split at h
    · rename_i index next hnext
      obtain ⟨-, rfl⟩ := LoopStep.sends.inj h
      obtain ⟨hle, hslot⟩ := Slots.nextFrom_eq_some hnext
      have hlt : index < (m.sets loop.set).length := (List.getElem?_eq_some_iff.mp hslot).1
      refine Prod.Lex.toLex_lt_toLex.mpr (Or.inr ⟨rfl, ?_⟩)
      show (m.sets loop.set).length - (index + 1) < (m.sets loop.set).length - loop.index
      omega
    · split at h
      · cases h
      · rename_i outer houter
        split at h
        · cases h
        · cases hnext : m.users.nextFrom (outer.position + 1) with
          | none =>
              rw [enter_of_none hnext] at h
              cases h
          | some found =>
              rcases enter_of_some hm hnext outer.size outer.left with
                ⟨-, henter⟩ | ⟨-, index, first, -, henter⟩
              · rw [henter] at h
                cases h
              · rw [henter] at h
                obtain ⟨-, rfl⟩ := LoopStep.sends.inj h
                obtain ⟨hle, hslot⟩ := Slots.nextFrom_eq_some hnext
                have hlt : found.1 < m.users.length := (List.getElem?_eq_some_iff.mp hslot).1
                refine Prod.Lex.toLex_lt_toLex.mpr (Or.inl ?_)
                rw [houter]
                show m.users.length - found.1 < m.users.length - outer.position
                omega

end Manager

/-! ### Schedules -/

namespace Sends

variable {userOf : Nat → Nat} {s : Sends}

/-- A call so far: it has not raised, its loop serves the sockets it is meant for, and once it has
finished each of them has had the message once. -/
def SendOk (userOf : Nat → Nat) (m : Manager) (send : Send) : Prop :=
  match send.stage with
  | .idle => True
  | .waiting loop => ∀ socket ∈ send.loyal, m.MetLoop userOf loop send.sent socket
  | .finished => ∀ socket ∈ send.loyal, send.sent.count socket = 1
  | .raised => False

structure Ok (userOf : Nat → Nat) (s : Sends) : Prop where
  wellFormed : s.manager.WellFormed userOf
  sends : ∀ id, SendOk userOf s.manager (s.sends id)

private theorem ok_initial (userOf : Nat → Nat) : initial.Ok userOf :=
  ⟨Manager.wellFormed_empty userOf, fun _ => trivial⟩

theorem sendOk_after {m : Manager} {send : Send} {next : LoopStep} (hraised : next ≠ .raised)
    (h : ∀ socket ∈ send.loyal, m.Served userOf send.sent socket next) :
    SendOk userOf m (send.after next) := by
  cases next with
  | sends socket loop => exact h
  | finished => exact h
  | raised => exact absurd rfl hraised

theorem sends_setSend_self (s : Sends) (id : Nat) (send : Send) :
    (s.setSend id send).sends id = send := Function.update_self _ _ _

theorem sends_setSend_of_ne (s : Sends) {id other : Nat} (send : Send) (h : other ≠ id) :
    (s.setSend id send).sends other = s.sends other := Function.update_of_ne h _ _

theorem Ok.setSend (hs : s.Ok userOf) {id : Nat} {send : Send}
    (h : SendOk userOf s.manager send) : (s.setSend id send).Ok userOf := by
  refine ⟨hs.wellFormed, fun other => ?_⟩
  by_cases hsame : other = id
  · rw [hsame, sends_setSend_self]
    exact h
  · rw [sends_setSend_of_ne s send hsame]
    exact hs.sends other

/-- A change of the manager that keeps the places of what the loops go through. -/
theorem sendOk_of_keeps {m m' : Manager} {send send' : Send} (h : SendOk userOf m send)
    (hstage : send'.stage = send.stage) (hsent : send'.sent = send.sent)
    (hloyal : ∀ socket ∈ send'.loyal, socket ∈ send.loyal ∧ ∀ set, socket ∈ (m.sets set).elems →
      socket ∈ (m'.sets set).elems ∧ (userOf socket, set) ∈ m'.users.elems)
    (hkeeps : ∀ loop, send.stage = .waiting loop →
      Slots.Keeps (m.sets loop.set) (m'.sets loop.set) ∧
        (loop.outer.isSome = true → Slots.Keeps m.users m'.users)) :
    SendOk userOf m' send' := by
  unfold SendOk at h ⊢
  rw [hstage]
  cases hcase : send.stage with
  | idle => exact trivial
  | waiting loop =>
      rw [hcase] at h
      intro socket hsocket
      rw [hsent]
      obtain ⟨hold, hstays⟩ := hloyal socket hsocket
      obtain ⟨hset, hdict⟩ := hkeeps loop hcase
      exact (h socket hold).of_keeps hstays hset hdict
  | finished =>
      rw [hcase] at h
      intro socket hsocket
      rw [hsent]
      exact h socket (hloyal socket hsocket).1
  | raised =>
      rw [hcase] at h
      exact h

theorem Ok.step (hs : s.Ok userOf) {event : SendEvent} (h : s.Undisturbed userOf event) :
    (s.step userOf event).Ok userOf := by
  have hm := hs.wellFormed
  cases event with
  | connect socket layout =>
      refine ⟨hm.connect socket layout, fun id => ?_⟩
      refine sendOk_of_keeps (hs.sends id) rfl rfl (fun other hother => ⟨hother, ?_⟩) (h id)
      intro set hmem
      exact ⟨(Manager.mem_sets_connect hm socket _ layout).mpr (Or.inl hmem),
        (Manager.elems_users_connect _ socket _ layout).mpr (Or.inl (hm.placed set other hmem))⟩
  | disconnect socket =>
      have hm' := hm.disconnect socket
      refine ⟨hm', fun id => ?_⟩
      refine @sendOk_of_keeps _ _ _ (s.sends id) _ (hs.sends id) rfl rfl (fun other hother => ?_)
        fun loop _ => ?_
      · obtain ⟨hold, hne⟩ := List.mem_filter.mp hother
        refine ⟨hold, fun set hmem => ?_⟩
        have hmem' := (Manager.mem_sets_disconnect hm socket).mpr ⟨hmem, of_decide_eq_true hne⟩
        exact ⟨hmem', hm'.placed set other hmem'⟩
      · exact ⟨Manager.keeps_sets_disconnect _ socket _ _,
          fun _ => Manager.keeps_users_disconnect _ socket _⟩
  | broadcast id =>
      simp only [Sends.step]
      split
      · exact hs.setSend (sendOk_after (Manager.startBroadcast_ne_raised hm) fun socket hsocket =>
          Manager.served_startBroadcast hm hsocket)
      · exact hs
  | sendToUser id user =>
      simp only [Sends.step]
      split
      · exact hs.setSend (sendOk_after (Manager.startSend_ne_raised _ user) fun socket hsocket =>
          Manager.served_startSend hm hsocket)
      · exact hs
  | resume id =>
      simp only [Sends.step]
      split
      · rename_i loop hstage
        obtain ⟨hsize, hdict⟩ := h loop hstage
        have hok := hs.sends id
        rw [SendOk, hstage] at hok
        refine hs.setSend (sendOk_after ?_ fun socket hsocket =>
          Manager.served_goOn hm (hok socket hsocket) hsize hdict)
        rw [ne_eq, Manager.goOn_eq_raised hm]
        rintro (hsize' | ⟨hnext, outer, houter, hdict' | ⟨hzero, hfound⟩⟩)
        · exact hsize' hsize
        · exact hdict' (hdict hnext outer houter).1
        · exact hfound ((hdict hnext outer houter).2 hzero)
      · exact hs

/-! ### Every call ends -/

def Busy (id : Nat) (s : Sends) : Prop := ∃ loop, (s.sends id).stage = .waiting loop

def rank (id : Nat) (s : Sends) : ℕ ×ₗ ℕ :=
  match (s.sends id).stage with
  | .waiting loop => s.manager.rank loop
  | _ => toLex (0, 0)

theorem rank_of_waiting {id : Nat} {loop : Loop} (h : (s.sends id).stage = .waiting loop) :
    rank id s = s.manager.rank loop := by
  rw [rank, h]

private theorem rank_resume (hm : s.manager.WellFormed userOf) {id : Nat} (hbusy : Busy id s)
    (hnext : Busy id (s.step userOf (.resume id))) :
    rank id (s.step userOf (.resume id)) < rank id s := by
  obtain ⟨loop, hloop⟩ := hbusy
  obtain ⟨loop', hloop'⟩ := hnext
  rw [rank_of_waiting hloop, rank_of_waiting hloop']
  simp only [step, hloop, sends_setSend_self] at hloop' ⊢
  cases hgo : s.manager.goOn loop with
  | sends socket following =>
      rw [hgo] at hloop'
      obtain rfl := SendStage.waiting.inj hloop'
      exact Manager.rank_goOn hm hgo
  | finished =>
      rw [hgo] at hloop'
      cases hloop'
  | raised =>
      rw [hgo] at hloop'
      cases hloop'

theorem rank_of_keeps {m m' : Manager} {loop : Loop}
    (hset : Slots.Keeps (m.sets loop.set) (m'.sets loop.set))
    (hdict : loop.outer.isSome = true → Slots.Keeps m.users m'.users) : m'.rank loop = m.rank loop := by
  unfold Manager.rank
  rw [hset.length]
  cases houter : loop.outer with
  | none => rfl
  | some outer => rw [(hdict (by rw [houter]; rfl)).length]

/-- The step of another: the loop waits where it waited. -/
private theorem rank_of_other {id : Nat} {event : SendEvent} (h : s.Undisturbed userOf event)
    (hevent : event ≠ .resume id) (hbusy : Busy id s) :
    Busy id (s.step userOf event) ∧ rank id (s.step userOf event) = rank id s := by
  obtain ⟨loop, hloop⟩ := hbusy
  have hsame : ∀ {other : Nat} {send : Send}, id ≠ other →
      Busy id (s.setSend other send) ∧ rank id (s.setSend other send) = rank id s := by
    intro other send hne
    have hstage : ((s.setSend other send).sends id).stage = .waiting loop := by
      rw [sends_setSend_of_ne s send hne]
      exact hloop
    exact ⟨⟨loop, hstage⟩, by rw [rank_of_waiting hloop, rank_of_waiting hstage]; rfl⟩
  have hself : Busy id s ∧ rank id s = rank id s := ⟨⟨loop, hloop⟩, rfl⟩
  cases event with
  | connect socket layout =>
      have hstage : ((s.step userOf (.connect socket layout)).sends id).stage = .waiting loop := hloop
      obtain ⟨hset, hdict⟩ := h id loop hloop
      refine ⟨⟨loop, hstage⟩, ?_⟩
      rw [rank_of_waiting hloop, rank_of_waiting hstage]
      exact rank_of_keeps hset hdict
  | disconnect socket =>
      have hstage : ((s.step userOf (.disconnect socket)).sends id).stage = .waiting loop := hloop
      refine ⟨⟨loop, hstage⟩, ?_⟩
      rw [rank_of_waiting hloop, rank_of_waiting hstage]
      exact rank_of_keeps (Manager.keeps_sets_disconnect _ socket _ _)
        fun _ => Manager.keeps_users_disconnect _ socket _
  | broadcast other =>
      simp only [step]
      split
      · rename_i hidle
        refine hsame ?_
        rintro rfl
        cases hloop.symm.trans hidle
      · exact hself
  | sendToUser other user =>
      simp only [step]
      split
      · rename_i hidle
        refine hsame ?_
        rintro rfl
        cases hloop.symm.trans hidle
      · exact hself
  | resume other =>
      simp only [step]
      split
      · exact hsame fun heq => hevent (heq ▸ rfl)
      · exact hself

/-- A call that has begun does not begin again. -/
private theorem stage_step_ne_idle {id : Nat} (h : (s.sends id).stage ≠ .idle) (event : SendEvent) :
    ((s.step userOf event).sends id).stage ≠ .idle := by
  have hafter : ∀ (send : Send) (next : LoopStep), (send.after next).stage ≠ .idle := by
    intro send next
    cases next <;> exact fun h => by cases h
  have hset : ∀ {other : Nat} {send : Send}, send.stage ≠ .idle →
      ((s.setSend other send).sends id).stage ≠ .idle := by
    intro other send hsend
    by_cases hsame : id = other
    · rw [hsame, sends_setSend_self]
      exact hsend
    · rw [sends_setSend_of_ne s send hsame]
      exact h
  cases event with
  | connect socket layout => exact h
  | disconnect socket => exact h
  | broadcast other =>
      simp only [step]
      split
      · exact hset (hafter _ _)
      · exact h
  | sendToUser other user =>
      simp only [step]
      split
      · exact hset (hafter _ _)
      · exact h
  | resume other =>
      simp only [step]
      split
      · exact hset (hafter _ _)
      · exact h

/-- If nothing disturbs the loops no call raises, a call that has finished has sent the message
once to each of its sockets that has stayed, and a call whose sends come back finishes. -/
theorem sends_reach (userOf : Nat → Nat) (schedule : Nat → SendEvent)
    (h : ∀ n, (trace (step userOf) initial schedule n).Undisturbed userOf (schedule n)) (n id : Nat) :
    ((trace (step userOf) initial schedule n).sends id).stage ≠ .raised ∧
    (((trace (step userOf) initial schedule n).sends id).stage = .finished →
      ∀ socket ∈ ((trace (step userOf) initial schedule n).sends id).loyal,
        ((trace (step userOf) initial schedule n).sends id).sent.count socket = 1) ∧
    (Busy id (trace (step userOf) initial schedule n) →
      (∀ k, ∃ m ≥ k, schedule m = .resume id) →
      ∃ k ≥ n, ((trace (step userOf) initial schedule k).sends id).stage = .finished) := by
  have hok : ∀ k, (trace (step userOf) initial schedule k).Ok userOf :=
    trace_of_steps (fun hs hevent => hs.step hevent) (ok_initial userOf) h
  have hraised : ∀ k, ((trace (step userOf) initial schedule k).sends id).stage ≠ .raised := by
    intro k hstage
    have hsend := (hok k).sends id
    rw [SendOk, hstage] at hsend
    exact hsend
  refine ⟨hraised n, fun hstage => ?_, fun hbusy hoften => ?_⟩
  · have hsend := (hok n).sends id
    rw [SendOk, hstage] at hsend
    exact hsend
  · have hstarted : ∀ k ≥ n, ((trace (step userOf) initial schedule k).sends id).stage ≠ .idle := by
      intro k hk
      induction k, hk using Nat.le_induction with
      | base =>
          obtain ⟨loop, hloop⟩ := hbusy
          rw [hloop]
          exact fun h => by cases h
      | succ k _ ih => exact stage_step_ne_idle ih (schedule k)
    obtain ⟨k, hk, hidle⟩ := trace_eventually (wellFounded_lt : WellFounded (α := ℕ ×ₗ ℕ) (· < ·))
      (Busy id) (rank id) (fun event => event = .resume id)
      (fun k hk hturn hnext => by
        simp only [trace, hturn] at hnext ⊢
        exact rank_resume (hok _).wellFormed hk hnext)
      (fun k hk hturn _ => (rank_of_other (h k) hturn hk).2) hoften n
    refine ⟨k, hk, ?_⟩
    cases hstage : ((trace (step userOf) initial schedule k).sends id).stage with
    | idle => exact absurd hstage (hstarted k hk)
    | waiting loop => exact absurd ⟨loop, hstage⟩ hidle
    | finished => rfl
    | raised => exact absurd hstage (hraised k)

/-- Two sockets of two users, and a broadcast that nothing disturbs. -/
def calmSchedule : Nat → SendEvent
  | 0 => .connect 1 ⟨[], []⟩
  | 1 => .connect 2 ⟨[], []⟩
  | 2 => .broadcast 0
  | _ => .resume 0

private theorem stage_calmSchedule (n : Nat) :
    ((trace (step id) initial calmSchedule (n + 5)).sends 0).stage = .finished := by
  induction n with
  | zero => rfl
  | succ n ih =>
      show ((step id (trace (step id) initial calmSchedule (n + 5)) (.resume 0)).sends 0).stage = _
      simp only [step, ih]

private theorem undisturbed_calmSchedule (n : Nat) :
    (trace (step id) initial calmSchedule n).Undisturbed id (calmSchedule n) := by
  match n with
  | 0 => exact fun _ _ h => by cases h
  | 1 => exact fun _ _ h => by cases h
  | 2 => exact trivial
  | 3 =>
      intro loop hstage
      cases hstage
      exact ⟨rfl, fun _ _ h => by cases h; exact ⟨rfl, by simp⟩⟩
  | 4 =>
      intro loop hstage
      cases hstage
      exact ⟨rfl, fun _ _ h => by cases h; exact ⟨rfl, fun _ => rfl⟩⟩
  | n + 5 =>
      intro loop hstage
      rw [stage_calmSchedule] at hstage
      cases hstage

theorem sends_reach_calmSchedule :
    let send := (trace (step id) initial calmSchedule 5).sends 0
    send.stage ≠ .raised ∧ send.sent.count 1 = 1 ∧ send.sent.count 2 = 1 :=
  have h := sends_reach id calmSchedule undisturbed_calmSchedule 5 0
  ⟨h.1, h.2.1 rfl 1 (by decide), h.2.1 rfl 2 (by decide)⟩

/-- The first socket disconnects while the broadcast awaits the send to it. -/
def hastySchedule : Nat → SendEvent
  | 0 => .connect 1 ⟨[], []⟩
  | 1 => .connect 2 ⟨[], []⟩
  | 2 => .broadcast 0
  | 3 => .disconnect 1
  | _ => .resume 0

/-- The broadcast raises, and the socket that has stayed gets nothing. -/
theorem broadcast_raises :
    ¬ ∀ (userOf : Nat → Nat) (schedule : Nat → SendEvent) (n i : Nat),
      ((trace (step userOf) initial schedule n).sends i).stage ≠ .raised :=
  fun h => h id hastySchedule 5 0 rfl

/-- The broadcast is at its last user when the first one goes and another comes. -/
def replacedSchedule : Nat → SendEvent
  | 0 => .connect 1 ⟨[], []⟩
  | 1 => .connect 2 ⟨[], []⟩
  | 2 => .broadcast 0
  | 3 => .resume 0
  | 4 => .disconnect 1
  | 5 => .connect 3 ⟨[], []⟩
  | _ => .resume 0

-- The dictionary has its old size, and an entry that the iteration does not expect.
example : ((trace (step id) initial replacedSchedule 7).sends 0).stage = .raised := rfl

end Sends

end SphereFx.Api
