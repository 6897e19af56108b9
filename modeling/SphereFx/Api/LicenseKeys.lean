import SphereFx.Base.Base64
import SphereFx.Api.LicenseRuns

/-!
# The spellings of a licence key

`validate_license_key` verifies the decoded signature and payload of a key, and the table keeps the hash
of its text. The decoder reads many texts as the same bytes, so the unique constraint on the hash does
not see a second activation of the same signed licence under another spelling.
-/

namespace SphereFx.Api

open Base64 (Byte)

/-! ### Keys -/

/-- The signature and the signed payload. -/
abbrev SignedPair := List Byte × List Byte

def decodeKey (key : String) : Option SignedPair :=
  match key.toList.splitOn '.' with
  | [signature, payload] => do
      let signature ← Base64.decode (signature ++ ['=', '='])
      let payload ← Base64.decode (payload ++ ['=', '='])
      return (signature, payload)
  | _ => none

/-- The payload of a key with a valid signature. `verify` is the check under the public key, and `loads`
reads the fields of the payload. -/
def signedPayload (verify : List Byte → List Byte → Bool) (loads : List Byte → Option LicensePayload)
    (key : String) : Option LicensePayload := do
  let pair ← decodeKey key
  if verify pair.1 pair.2 then loads pair.2 else none

/-- The spelling without padding, foreign characters and loose bits. -/
def spell (pair : SignedPair) : String :=
  String.ofList (Base64.encode pair.1 ++ '.' :: Base64.encode pair.2)

/-- How the bytes of a key are spelled canonically. -/
def canonicalSpelling (key : String) : Option String := (decodeKey key).map spell

def Canonical (key : String) : Prop := canonicalSpelling key = some key

theorem dot_not_mem_encode (bytes : List Byte) : '.' ∉ Base64.encode bytes := by
  intro h
  obtain ⟨d, hd⟩ := Base64.mem_encode h
  have hletter : ∀ d, '.' ≠ Base64.letter d := by decide
  exact hletter d hd

theorem decodeKey_spell (pair : SignedPair) : decodeKey (spell pair) = some pair := by
  have hsplit : (spell pair).toList.splitOn '.' =
      [Base64.encode pair.1, Base64.encode pair.2] := by
    rw [spell, String.toList_ofList,
      List.splitOn_append_cons_self_of_not_mem (dot_not_mem_encode pair.1),
      List.splitOn_eq_singleton (dot_not_mem_encode pair.2)]
  simp only [decodeKey, hsplit, Base64.decode_encode]
  rfl

private theorem spell_injective : Function.Injective spell := by
  intro pair pair' h
  have hdecode := congrArg decodeKey h
  rw [decodeKey_spell, decodeKey_spell] at hdecode
  exact Option.some.inj hdecode

/-- Two keys carry the same bytes exactly if they have the same canonical spelling. -/
theorem canonicalSpelling_eq_iff {key key' : String} :
    canonicalSpelling key' = canonicalSpelling key ↔ decodeKey key' = decodeKey key :=
  (Option.map_injective spell_injective).eq_iff

theorem Canonical.eq_of_decodeKey {key key' : String} (h : Canonical key) (h' : Canonical key')
    (hdecode : decodeKey key' = decodeKey key) : key' = key := by
  have hspelling := canonicalSpelling_eq_iff.mpr hdecode
  rw [h, h'] at hspelling
  exact Option.some.inj hspelling

private theorem decodeKey_discard {c : Char} (hsymbol : Base64.symbol c = .other) (hascii : c.toNat < 128)
    (hdot : c ≠ '.') (key : String) :
    decodeKey (String.ofList (c :: key.toList)) = decodeKey key := by
  have hdot' : (c == '.') = false := beq_eq_false_iff_ne.mpr hdot
  unfold decodeKey
  rw [String.toList_ofList, List.splitOn_cons_eq_if_modifyHead, hdot']
  cases hsplit : key.toList.splitOn '.' with
  | nil => exact absurd hsplit (List.splitOn_ne_nil _ _)
  | cons first rest =>
      cases rest with
      | nil => rfl
      | cons second rest =>
          cases rest with
          | nil =>
              have hfirst : Base64.decode ((c :: first) ++ ['=', '=']) =
                  Base64.decode (first ++ ['=', '=']) :=
                Base64.decode_discard hsymbol hascii [] _
              simp only [Bool.false_eq_true, if_false, List.modifyHead_cons, hfirst]
          | cons third rest => rfl

private theorem licenseKeyHash_activateDraft {payloadOf : String → Option LicensePayload}
    {hash : String → Int} {now user : Nat} {key : String} {draft : LicenseDraft}
    (h : activateDraft payloadOf hash now user key = .ok draft) : draft.licenseKeyHash = hash key := by
  unfold activateDraft at h
  split at h
  · cases h
  · obtain ⟨u, -, hdraft⟩ := bind_eq_ok.mp h
    cases hdraft
    rfl

private theorem licenseKeyHash_settingDraft {payloadOf : String → Option LicensePayload}
    {hash : String → Int} {setting : Option String} {now user : Nat} {draft : LicenseDraft}
    (h : settingDraft payloadOf hash setting now user = some draft) :
    ∃ key ∈ setting, draft.licenseKeyHash = hash key := by
  obtain ⟨key, hkey, h⟩ := Option.bind_eq_some_iff.mp h
  obtain ⟨payload, -, h⟩ := Option.bind_eq_some_iff.mp h
  refine ⟨key, (Option.filter_eq_some_iff.mp hkey).1, ?_⟩
  split at h
  · exact congrArg LicenseDraft.licenseKeyHash (Option.some.inj h).symm
  · cases h

/-! ### One row for each signed licence -/

/-- Two rows whose keys carry the same bytes are the same row. -/
def OneRowPerPair (hash : String → Int) (table : LicenseTable) : Prop :=
  ∀ row ∈ table.rows, ∀ row' ∈ table.rows, ∀ key key' pair, hash key = row.licenseKeyHash →
    hash key' = row'.licenseKeyHash → decodeKey key = some pair → decodeKey key' = some pair →
    row = row'

theorem OneRowPerPair.switchOff {hash : String → Int} {table : LicenseTable}
    (h : OneRowPerPair hash table) (id : Nat) : OneRowPerPair hash (switchOff id table) := by
  intro row hrow row' hrow' key key' pair hkey hkey' hpair hpair'
  obtain ⟨old, hold, rfl⟩ := Table.mem_update.mp hrow
  obtain ⟨old', hold', rfl⟩ := Table.mem_update.mp hrow'
  have hhash : ∀ other : License,
      (if other.id = id then { other with isActive := false } else other).licenseKeyHash =
        other.licenseKeyHash := fun other => by split <;> rfl
  rw [hhash] at hkey hkey'
  rw [h old hold old' hold' key key' pair hkey hkey' hpair hpair']

namespace LicenseSystem

variable {verify : List Byte → List Byte → Bool} {loads : List Byte → Option LicensePayload}
variable {hash : String → Int} {setting : Option String}

/-- The insert of a key is committed while a row is there for another text with the same canonical
spelling. -/
def Respells (hash : String → Int) (s : LicenseSystem) : LicenseEvent → Prop
  | .commit r id true => ∃ draft key, s.InsertAt r id draft ∧ hash key = draft.licenseKeyHash ∧
      decodeKey key ≠ none ∧ ∃ row ∈ s.licenses.rows, ∃ other, hash other = row.licenseKeyHash ∧
        other ≠ key ∧ canonicalSpelling other = canonicalSpelling key
  | _ => False

theorem oneRowPerPair_step {s : LicenseSystem} {event : LicenseEvent}
    (h : OneRowPerPair hash s.licenses) (hevent : ¬ s.Respells hash event) :
    OneRowPerPair hash
      (s.step (signedPayload verify loads) (fun _ => hash) setting event).licenses := by
  rcases @licenses_step (signedPayload verify loads) (fun _ => hash) setting s event with
    hsame | ⟨id, hoff⟩ | ⟨r, id, draft, rfl, hinsert, hrows⟩
  · rw [hsame]
    exact h
  · rw [hoff]
    exact h.switchOff id
  · -- The new row has the bytes of an old one only if its key is another spelling.
    have hnew : ∀ row ∈ s.licenses.rows, ∀ key other pair, hash key = draft.licenseKeyHash →
        hash other = row.licenseKeyHash → decodeKey key = some pair →
        decodeKey other = some pair → False := by
      intro row hrow key other pair hkey hother hpair hpair'
      refine hevent ⟨draft, key, hinsert, hkey, hpair ▸ Option.some_ne_none pair, row, hrow, other,
        hother, ?_, canonicalSpelling_eq_iff.mpr (hpair'.trans hpair.symm)⟩
      rintro rfl
      exact hinsert.2.1 (hkey ▸ hother ▸ List.mem_map_of_mem hrow)
    intro row hrow row' hrow' key key' pair hkey hkey' hpair hpair'
    rw [hrows] at hrow hrow'
    rcases List.mem_cons.mp hrow with rfl | hrow
    · rcases List.mem_cons.mp hrow' with rfl | hrow'
      · rfl
      · exact (hnew row' hrow' key key' pair hkey hkey' hpair hpair').elim
    · rcases List.mem_cons.mp hrow' with rfl | hrow'
      · exact (hnew row hrow key' key pair hkey' hkey hpair' hpair).elim
      · exact h row hrow row' hrow' key key' pair hkey hkey' hpair hpair'

private theorem not_respells_of_oneRowPerPair {s : LicenseSystem} {event : LicenseEvent}
    (h : OneRowPerPair hash
      (s.step (signedPayload verify loads) (fun _ => hash) setting event).licenses) :
    ¬ s.Respells hash event := by
  intro hrespells
  match event with
  | .commit r id true =>
      obtain ⟨draft, key, hinsert, hkey, hsome, row, hrow, other, hother, -, hspelling⟩ := hrespells
      obtain ⟨pair, hpair⟩ := Option.ne_none_iff_exists'.mp hsome
      have hpair' : decodeKey other = some pair :=
        (canonicalSpelling_eq_iff.mp hspelling).trans hpair
      rw [OneRowPerPair, licenses_insertAt hinsert] at h
      have hsame := h _ List.mem_cons_self row (List.mem_cons_of_mem _ hrow) key other pair hkey
        hother hpair hpair'
      exact hinsert.2.2 (List.mem_map.mpr ⟨row, hrow, (congrArg License.id hsame).symm⟩)

/-! ### Canonical keys -/

/-- The row a request is going to insert. -/
def draftOf : LicenseStage → Option LicenseDraft
  | .validated draft => some draft
  | .inserting draft => some draft
  | _ => none

/-- A request comes to its row by the key it was sent, or by the configured one. -/
private theorem draftOf_step {payloadOf : String → Option LicensePayload} {s : LicenseSystem}
    {event : LicenseEvent} {r : Nat} {draft : LicenseDraft}
    (h : draftOf ((s.step payloadOf (fun _ => hash) setting event).requests r) = some draft) :
    draftOf (s.requests r) = some draft ∨
      (∃ user process key, event = .activate r user process key ∧
        activateDraft payloadOf hash s.clock user key = .ok draft) ∨
      ∃ user, settingDraft payloadOf hash setting s.clock user = some draft := by
  rcases @requests_step payloadOf (fun _ => hash) setting s event r with ⟨hkept, -⟩ | hidle |
    ⟨user, process, key, validated, hevent, hdraft, hvalidated⟩ | ⟨due, -, hdue, hqueried⟩ |
    ⟨_, hchecking⟩ | ⟨process, user, asOf, -, -, hqueried⟩ | ⟨_, hdeactivating⟩
  · exact Or.inl (hkept ▸ h)
  · rw [hidle] at h
    cases h
  · rw [hvalidated] at h
    cases h
    exact Or.inr (Or.inl ⟨user, process, key, hevent, hdraft⟩)
  · rw [hqueried] at h
    unfold afterActivateQuery at h
    split at h
    · exact Or.inl (hdue ▸ h)
    · cases h
  · rw [hchecking] at h
    cases h
  · rw [hqueried] at h
    unfold afterRequireQuery at h
    split at h
    · cases hsetting : settingDraft payloadOf hash setting s.clock user with
      | none =>
          rw [hsetting] at h
          cases h
      | some found =>
          rw [hsetting] at h
          cases h
          exact Or.inr (Or.inr ⟨user, hsetting⟩)
    · cases h
  · rw [hdeactivating] at h
    cases h

/-- Every row, and every row that is going to be inserted, is for a canonical key. -/
structure Spelled (hash : String → Int) (s : LicenseSystem) : Prop where
  rows : ∀ row ∈ s.licenses.rows, ∃ key, Canonical key ∧ hash key = row.licenseKeyHash
  drafts : ∀ r draft, draftOf (s.requests r) = some draft →
    ∃ key, Canonical key ∧ hash key = draft.licenseKeyHash

def SendsCanonical : LicenseEvent → Prop
  | .activate _ _ _ key => Canonical key
  | _ => True

theorem Spelled.step {payloadOf : String → Option LicensePayload} {s : LicenseSystem}
    {event : LicenseEvent} (h : s.Spelled hash) (hsetting : ∀ key ∈ setting, Canonical key)
    (hevent : SendsCanonical event) :
    (s.step payloadOf (fun _ => hash) setting event).Spelled hash where
  rows := by
    intro row hrow
    rcases @licenses_step payloadOf (fun _ => hash) setting s event with
      hsame | ⟨id, hoff⟩ | ⟨r, id, draft, rfl, hinsert, hrows⟩
    · exact h.rows row (hsame ▸ hrow)
    · rw [hoff] at hrow
      obtain ⟨old, hold, rfl⟩ := Table.mem_update.mp hrow
      obtain ⟨key, hkey, hhash⟩ := h.rows old hold
      refine ⟨key, hkey, hhash.trans ?_⟩
      split <;> rfl
    · rcases List.mem_cons.mp (hrows ▸ hrow) with rfl | hold
      · exact h.drafts r draft (congrArg draftOf hinsert.1)
      · exact h.rows row hold
  drafts := by
    intro r draft hdraft
    rcases draftOf_step hdraft with hbefore | ⟨user, process, key, rfl, hkey⟩ | ⟨user, hconfigured⟩
    · exact h.drafts r draft hbefore
    · exact ⟨key, hevent, (licenseKeyHash_activateDraft hkey).symm⟩
    · obtain ⟨key, hmem, hkey⟩ := licenseKeyHash_settingDraft hconfigured
      exact ⟨key, hsetting key hmem, hkey.symm⟩

theorem Spelled.not_respells (hhash : Function.Injective hash) {s : LicenseSystem}
    (h : s.Spelled hash) (event : LicenseEvent) : ¬ s.Respells hash event := by
  intro hrespells
  match event with
  | .commit r id true =>
      obtain ⟨draft, key, hinsert, hkey, -, row, hrow, other, hother, hne, hspelling⟩ := hrespells
      obtain ⟨key', hcanonical, hkey'⟩ := h.drafts r draft (congrArg draftOf hinsert.1)
      obtain ⟨other', hcanonical', hother'⟩ := h.rows row hrow
      obtain rfl := hhash (hkey.trans hkey'.symm)
      obtain rfl := hhash (hother.trans hother'.symm)
      exact hne (hcanonical.eq_of_decodeKey hcanonical' (canonicalSpelling_eq_iff.mp hspelling))

/-- In every state of a run there is at most one row for each signature and payload, exactly if no
insert of a key is committed beside a row for another spelling of it. A run whose keys are all
canonical is such a run. -/
theorem oneRowPerPair_iff (verify : List Byte → List Byte → Bool)
    (loads : List Byte → Option LicensePayload) (hash : String → Int) (setting : Option String)
    (events : List LicenseEvent) (hhash : Function.Injective hash) :
    ((∀ s ∈ visited (step (signedPayload verify loads) (fun _ => hash) setting) initial events,
        OneRowPerPair hash s.licenses) ↔
      Along (step (signedPayload verify loads) (fun _ => hash) setting)
        (fun s event => ¬ s.Respells hash event) initial events) ∧
    ((∀ key ∈ setting, Canonical key) →
      Along (step (signedPayload verify loads) (fun _ => hash) setting)
        (fun _ event => SendsCanonical event) initial events →
      ∀ s ∈ visited (step (signedPayload verify loads) (fun _ => hash) setting) initial events,
        OneRowPerPair hash s.licenses) := by
  have hempty : OneRowPerPair hash initial.licenses := fun _ h => (by cases h)
  refine ⟨?_, fun hsetting hcanonical => ?_⟩
  · exact visited_iff_along (fun s : LicenseSystem => OneRowPerPair hash s.licenses)
      (fun s : LicenseSystem => OneRowPerPair hash s.licenses) (fun h => h) oneRowPerPair_step
      (fun _ hnext => not_respells_of_oneRowPerPair hnext) hempty
  · have hstart : initial.Spelled hash := ⟨fun _ h => (by cases h), fun _ _ h => by cases h⟩
    intro s hs
    exact (@visited_of_along _ _ (step (signedPayload verify loads) (fun _ => hash) setting) _
      (fun s => s.Spelled hash ∧ OneRowPerPair hash s.licenses)
      (fun h hevent => ⟨h.1.step hsetting hevent,
        oneRowPerPair_step h.2 (h.1.not_respells hhash _)⟩) _ _ ⟨hstart, hempty⟩ hcanonical s hs).2

end LicenseSystem

/-! ### Two spellings of one key -/

/-- A hash without collisions: the digits of a number are the characters of the text. -/
def textNumber (text : String) : Int :=
  ((text.toList.foldr (fun c n => 2 ^ 21 * n + (c.toNat + 1)) 0 : Nat) : Int)

theorem textNumber_injective : Function.Injective textNumber := by
  have hbound : ∀ c : Char, c.toNat + 1 < 2 ^ 21 := by
    intro c
    have hvalid : c.toNat.isValidChar := c.valid
    unfold Nat.isValidChar at hvalid
    omega
  have hlist : ∀ l l' : List Char, l.foldr (fun c n => 2 ^ 21 * n + (c.toNat + 1)) 0 =
      l'.foldr (fun c n => 2 ^ 21 * n + (c.toNat + 1)) 0 → l = l' := by
    intro l
    induction l with
    | nil =>
        intro l' h
        cases l' with
        | nil => rfl
        | cons c' rest' =>
            rw [List.foldr_nil, List.foldr_cons] at h
            omega
    | cons c rest ih =>
        intro l' h
        cases l' with
        | nil =>
            rw [List.foldr_nil, List.foldr_cons] at h
            omega
        | cons c' rest' =>
            rw [List.foldr_cons, List.foldr_cons] at h
            have hc := hbound c
            have hc' := hbound c'
            have hrest := ih rest' (by omega)
            have hchar : c.toNat = c'.toNat := by omega
            rw [hrest, Char.toNat_inj.mp hchar]
  intro text text' h
  exact String.toList_injective (hlist _ _ (Int.ofNat.inj h))

def bytesOf (text : List Char) : List Byte :=
  text.map fun c => ⟨c.toNat % 256, Nat.mod_lt _ (by decide)⟩

def soldPair : SignedPair :=
  (bytesOf (List.replicate 64 'S'),
    bytesOf "\x7b\"expires_at\":\"2030-01-01T00:00:00\"\x7d".toList)

def soldKey : String := spell soldPair

def respeltKey : String := String.ofList ('!' :: soldKey.toList)

def soldOnly (signature payload : List Byte) : Bool := (signature, payload) = soldPair

/-- A payload that names no user. -/
def anyUser (_ : List Byte) : Option LicensePayload := some ⟨.null, .obj [], 100⟩

def soldTwice : List LicenseEvent :=
  [.activate 1 1 0 soldKey, .activateQuery 1, .commit 1 1 true,
    .activate 2 2 0 respeltKey, .activateQuery 2, .commit 2 2 true]

theorem decodeKey_respeltKey : decodeKey respeltKey = some soldPair :=
  (decodeKey_discard (by decide) (by decide) (by decide) soldKey).trans
    (decodeKey_spell soldPair)

private theorem respeltKey_ne : respeltKey ≠ soldKey := by
  intro h
  have hlist := congrArg String.toList h
  rw [respeltKey, String.toList_ofList] at hlist
  exact absurd hlist (List.cons_ne_self _ _)

/-- The sold key is valid in either spelling. -/
theorem activateDraft_sold {key : String} (hkey : decodeKey key = some soldPair) (user : Nat) :
    activateDraft (signedPayload soldOnly anyUser) textNumber 0 user key =
      .ok ⟨textNumber key, user, .obj [], 100⟩ := by
  have hsold : soldOnly soldPair.1 soldPair.2 = true := decide_eq_true rfl
  have hpayload : signedPayload soldOnly anyUser key = some ⟨.null, .obj [], 100⟩ := by
    simp only [signedPayload, hkey, Option.bind_eq_bind, Option.bind_some, if_pos hsold]
    rfl
  simp only [activateDraft, validateLicenseKey, hpayload]
  rfl

theorem soldTwice_rows :
    (soldTwice.foldl (LicenseSystem.step (signedPayload soldOnly anyUser) (fun _ => textNumber) none)
      LicenseSystem.initial).licenses.rows.map (fun row => (row.id, row.licenseKeyHash)) =
        [(2, textNumber respeltKey), (1, textNumber soldKey)] := by
  have hkey : decodeKey soldKey = some soldPair := decodeKey_spell soldPair
  let firstDraft : LicenseDraft := ⟨textNumber soldKey, 1, .obj [], 100⟩
  let secondDraft : LicenseDraft := ⟨textNumber respeltKey, 2, .obj [], 100⟩
  obtain ⟨first, hfirst, hrows⟩ := exists_insertLicense (firstDraft.row 1)
    LicenseSystem.initial.licenses List.not_mem_nil List.not_mem_nil
  have hfresh : textNumber respeltKey ∉ first.rows.map License.licenseKeyHash := by
    rw [hrows]
    exact fun h => respeltKey_ne (textNumber_injective (List.mem_singleton.mp h))
  have hid : 2 ∉ first.rows.map License.id := by
    rw [hrows]
    decide
  obtain ⟨second, hsecond, hrows'⟩ := exists_insertLicense (secondDraft.row 2) first hfresh hid
  have hnone : activeRows first 2 = [] := by
    rw [activeRows_insert hrows]
    rfl
  let afterFirst : LicenseSystem := (((LicenseSystem.initial.move 1 (.validated firstDraft)).move 1
    (.inserting firstDraft)).move 1 .idle).withLicenses first
  have hfirstRun : [.activate 1 1 0 soldKey, .activateQuery 1, .commit 1 1 true].foldl
      (LicenseSystem.step (signedPayload soldOnly anyUser) (fun _ => textNumber) none)
        LicenseSystem.initial = afterFirst :=
    LicenseSystem.foldl_activate rfl (activateDraft_sold hkey 1) rfl hfirst
  have hclock : afterFirst.clock = 0 := rfl
  have hdraft : activateDraft (signedPayload soldOnly anyUser) textNumber afterFirst.clock 2
      respeltKey = .ok secondDraft := by
    rw [hclock]
    exact activateDraft_sold decodeKey_respeltKey 2
  have hsplit : soldTwice = [.activate 1 1 0 soldKey, .activateQuery 1, .commit 1 1 true] ++
    [.activate 2 2 0 respeltKey, .activateQuery 2, .commit 2 2 true] := rfl
  rw [hsplit, List.foldl_append, hfirstRun,
    @LicenseSystem.foldl_activate _ (fun _ => textNumber) _ afterFirst 2 2 0 2 _ _ _ rfl hdraft hnone
      hsecond]
  show second.rows.map _ = _
  rw [hrows', hrows]
  rfl

namespace LicenseSystem

theorem oneRowPerPair_iff_soldTwice :
    ((∀ s ∈ visited (step (signedPayload soldOnly anyUser) (fun _ => textNumber) none) initial
        soldTwice, OneRowPerPair textNumber s.licenses) ↔
      Along (step (signedPayload soldOnly anyUser) (fun _ => textNumber) none)
        (fun s event => ¬ s.Respells textNumber event) initial soldTwice) ∧
    ((∀ key ∈ (none : Option String), Canonical key) →
      Along (step (signedPayload soldOnly anyUser) (fun _ => textNumber) none)
        (fun _ event => SendsCanonical event) initial soldTwice →
      ∀ s ∈ visited (step (signedPayload soldOnly anyUser) (fun _ => textNumber) none) initial
        soldTwice, OneRowPerPair textNumber s.licenses) :=
  oneRowPerPair_iff soldOnly anyUser textNumber none soldTwice textNumber_injective

/-- Two users activate one signed key. -/
theorem second_spelling_stored :
    ¬ ∀ (verify : List Byte → List Byte → Bool) (loads : List Byte → Option LicensePayload)
      (hash : String → Int) (events : List LicenseEvent), Function.Injective hash →
      ∀ s ∈ visited (step (signedPayload verify loads) (fun _ => hash) none) initial events,
        OneRowPerPair hash s.licenses := by
  intro h
  have hlast := h soldOnly anyUser textNumber soldTwice textNumber_injective _
    (foldl_mem_visited _ _ _)
  obtain ⟨second, hsecond, hvalues⟩ :=
    List.mem_map.mp (soldTwice_rows ▸ List.mem_cons_self : (2, textNumber respeltKey) ∈ _)
  obtain ⟨first, hfirst, hvalues'⟩ := List.mem_map.mp
    (soldTwice_rows ▸ List.mem_cons_of_mem _ (List.mem_singleton_self _) :
      (1, textNumber soldKey) ∈ _)
  have hsame := hlast second hsecond first hfirst respeltKey soldKey soldPair
    (congrArg Prod.snd hvalues).symm (congrArg Prod.snd hvalues').symm decodeKey_respeltKey
    (decodeKey_spell soldPair)
  have hid : second.id = 2 := congrArg Prod.fst hvalues
  have hid' : first.id = 1 := congrArg Prod.fst hvalues'
  rw [hsame, hid'] at hid
  cases hid

end LicenseSystem

end SphereFx.Api
