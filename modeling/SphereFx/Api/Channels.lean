import SphereFx.Base.Check
import SphereFx.Base.Owned
import SphereFx.Api.Models

/-!
# Telegram channels

The handlers of `routes/v1/channels.py`. A channel belongs to the user who added it, and its Telegram
id is unique among all users.
-/

namespace SphereFx.Api

structure TelegramChannel where
  id : Nat
  telegramChannelId : String
  name : String
  isActive : Bool
  addedBy : Nat

abbrev ChannelTable := Table TelegramChannel TelegramChannel.id

abbrev ChannelSession := Session TelegramChannel TelegramChannel.id

structure ChannelCreate where
  telegramChannelId : String
  name : String
  isActive : Bool

/-- An update: a field that was not set is `none`, an explicit null is `some none`. -/
structure ChannelUpdate where
  name : Option (Option String)
  isActive : Option (Option Bool)
  telegramChannelId : Option (Option String)

inductive ChannelCall where
  | create (data : ChannelCreate)
  | update (id : Nat) (data : ChannelUpdate)
  | delete (id : Nat)

/-- A call by a user, with the next identity value and whether the handler's commit and the one at the
end are accepted. -/
structure ChannelRequest where
  userId : Nat
  call : ChannelCall
  newId : Nat
  commits : Bool
  teardownCommits : Bool

/-! ### The handlers -/

def ownChannel (table : ChannelTable) (userId id : Nat) : Option TelegramChannel :=
  (table.find? id).filter fun channel => channel.addedBy = userId

def channelNotFound (id : Nat) : ApiError := .notFound ("Channel " ++ toString id ++ " not found")

/-- A commit that writes channels, under the unique Telegram ids. -/
def commitChannels (session : ChannelSession) (accepted : Bool) : Option ChannelSession :=
  (session.commit accepted).filter fun session =>
    (session.table.rows.map TelegramChannel.telegramChannelId).Nodup

def newChannel (request : ChannelRequest) (data : ChannelCreate) : TelegramChannel where
  id := request.newId
  telegramChannelId := data.telegramChannelId
  name := data.name
  isActive := data.isActive
  addedBy := request.userId

def createChannel (request : ChannelRequest) (data : ChannelCreate) (session : ChannelSession) :
    Except ApiError (List TelegramChannel) × ChannelSession :=
  if session.table.rows.any fun row => row.telegramChannelId = data.telegramChannelId then
    (.error (.conflict "Channel with this telegram_channel_id already exists"), session)
  else
    match commitChannels (session.add (newChannel request data)) request.commits with
    | none => (.error (.unhandled "commit failed"), session)
    | some session => (.ok [newChannel request data], session)

def assignChannel (data : ChannelUpdate) (channel : TelegramChannel) :
    Except ApiError TelegramChannel := do
  let name ← notNull data.name
  let isActive ← notNull data.isActive
  let telegramChannelId ← notNull data.telegramChannelId
  return { channel with
    telegramChannelId := telegramChannelId.getD channel.telegramChannelId
    name := name.getD channel.name
    isActive := isActive.getD channel.isActive }

def updateChannel (request : ChannelRequest) (id : Nat) (data : ChannelUpdate)
    (session : ChannelSession) : Except ApiError (List TelegramChannel) × ChannelSession :=
  match ownChannel session.table request.userId id with
  | none => (.error (channelNotFound id), session)
  | some channel =>
      match assignChannel data channel with
      | .error err => (.error err, session.load channel)
      | .ok channel' =>
          match commitChannels ((session.load channel).modify id fun _ => channel') request.commits with
          | none => (.error (.unhandled "commit failed"), session)
          | some session => (.ok [channel'], session)

def deleteChannel (request : ChannelRequest) (id : Nat) (session : ChannelSession) :
    Except ApiError (List TelegramChannel) × ChannelSession :=
  match ownChannel session.table request.userId id with
  | none => (.error (channelNotFound id), session)
  | some channel =>
      match ((session.load channel).remove id).commit request.commits with
      | none => (.error (.unhandled "commit failed"), session)
      | some session => (.ok [], session)

def handleChannel (request : ChannelRequest) (session : ChannelSession) :
    Except ApiError (List TelegramChannel) × ChannelSession :=
  match request.call with
  | .create data => createChannel request data session
  | .update id data => updateChannel request id data session
  | .delete id => deleteChannel request id session

def ChannelTable.step (table : ChannelTable) (request : ChannelRequest) : ChannelTable :=
  Session.teardown request.teardownCommits (handleChannel request (Session.start table))

/-! ### What they touch -/

open Session (Within)

theorem ownChannel_eq_some {t : ChannelTable} {userId id : Nat} {channel : TelegramChannel}
    (h : ownChannel t userId id = some channel) :
    channel ∈ t.rows ∧ channel.id = id ∧ channel.addedBy = userId := by
  obtain ⟨hfind, howner⟩ := Option.filter_eq_some_iff.mp h
  obtain ⟨hmem, hid⟩ := Table.find?_eq_some.mp hfind
  exact ⟨hmem, hid, of_decide_eq_true howner⟩

private theorem assignChannel_eq_ok {data : ChannelUpdate} {channel channel' : TelegramChannel}
    (h : assignChannel data channel = .ok channel') :
    channel'.id = channel.id ∧ channel'.addedBy = channel.addedBy := by
  simp only [assignChannel, bind_eq_ok, pure_eq_ok] at h
  obtain ⟨_, -, _, -, _, -, rfl⟩ := h
  exact ⟨rfl, rfl⟩

theorem within_commitChannels {user : Nat} {t : ChannelTable} {session session' : ChannelSession}
    {accepted : Bool} (h : Within TelegramChannel.addedBy user t session)
    (hcommit : commitChannels session accepted = some session') :
    Within TelegramChannel.addedBy user t session' :=
  h.commit (Option.filter_eq_some_iff.mp hcommit).1

/-- The session of a request holds nothing but channels of its user. -/
private theorem within_handleChannel (t : ChannelTable) (request : ChannelRequest) :
    Within TelegramChannel.addedBy request.userId t (handleChannel request (Session.start t)).2 := by
  have hstart : Within TelegramChannel.addedBy request.userId t (Session.start t) :=
    Session.within_start t
  unfold handleChannel
  cases request.call with
  | create data =>
      simp only [createChannel]
      split
      · exact hstart
      · split
        · exact hstart
        · rename_i session hcommit
          exact within_commitChannels (hstart.add rfl) hcommit
  | update id data =>
      simp only [updateChannel]
      split
      · exact hstart
      · rename_i channel hown
        obtain ⟨hmem, hid, howner⟩ := ownChannel_eq_some hown
        have hload := hstart.load hmem howner
        split
        · exact hload
        · rename_i channel' hassign
          obtain ⟨hid', howner'⟩ := assignChannel_eq_ok hassign
          split
          · exact hstart
          · rename_i session hcommit
            exact within_commitChannels
              (hload.modify fun _ _ _ => ⟨hid'.trans hid, howner'.trans howner⟩) hcommit
  | delete id =>
      simp only [deleteChannel]
      split
      · exact hstart
      · rename_i channel hown
        obtain ⟨hmem, rfl, howner⟩ := ownChannel_eq_some hown
        split
        · exact hstart
        · rename_i session hcommit
          exact ((hstart.load hmem howner).remove hmem howner).commit hcommit

theorem ownedBy_stepChannels (t : ChannelTable) (request : ChannelRequest) {other : Nat}
    (hother : other ≠ request.userId) :
    (ChannelTable.step t request).ownedBy TelegramChannel.addedBy other =
      t.ownedBy TelegramChannel.addedBy other :=
  (within_handleChannel t request).teardown request.teardownCommits _ hother

end SphereFx.Api
