import Misty.Crypto.Canonical
import Misty.Sync.Engine

/- The roster on the wire: which roster a client adopts, and what a chain of adoptions
   says about the devices it ends with.

   What is proved:
     1. `checkSuccessor_ok` — a roster that may replace the trusted one is signed by a
        device that is in both under one key.
     2. `listed_of_trusts` — a device that is in a trusted roster was in the anchor, or was
        put in by a member of the roster trusted just before.
     3. `roster_chains_to_anchor` — so a device whose record no trusted key signed is in no
        adopted roster, and no envelope is accepted as its own.

   Correspondence (Rust ↔ Lean):
     `roster::{open_roster, check_successor}`  ↔ `openRoster`, `checkSuccessor`
   The CBOR reader of a roster is a parameter, and what the holder of a key signed a set of
   messages: all that verify under the key are in it. -/
namespace Misty

variable (E : Externals) (fromCbor : Bytes → Option Roster)

def checkSuccessor (P : Primitives) (current next : Roster) : Except SyncError Unit := do
  let signer ← (next.verify P).mapError (fun error => match error with
    | .rosterUnsigned => SyncError.rosterRejected .unsigned
    | _ => SyncError.rosterRejected .signatureInvalid)
  match current.contains signer.deviceId with
  | none => throw (.rosterRejected .signerNotTrusted)
  | some known =>
    -- A device whose key changed is a different device wearing the same id.
    if known.ed25519Pub ≠ signer.ed25519Pub then throw (.rosterRejected .signerNotTrusted)

def openRoster (envelopeBytes : Bytes) (itemId : ItemId) (vaultKey : ByteArr 32) (trusted : Roster) :
    Except SyncError Roster := do
  let address ← rosterItemId E vaultKey
  if itemId ≠ address then throw (.rosterRejected .wrongAddress)
  let parsed ← (Envelope.parse envelopeBytes).mapError SyncError.crypto
  if parsed.header.kind ≠ .deviceRoster then throw (.rosterRejected .wrongKind)
  -- Roster membership, then signature, then decryption.
  (parsed.verify E.prims itemId trusted).mapError SyncError.crypto
  let key ← (epochKey E.prims vaultKey parsed.header.epoch).mapError SyncError.crypto
  let payload ← (parsed.decrypt E.prims itemId key).mapError SyncError.crypto
  if MAX_ROSTER_PAYLOAD_LEN < payload.length then
    throw (.envelopeTooLarge payload.length MAX_ROSTER_PAYLOAD_LEN)
  let next ← required "open roster" "roster" (fromCbor payload)
  checkSuccessor E.prims trusted next
  return next

/-! ## A successor -/

/-- The roster lists a device under a key. -/
def Roster.Lists (self : Roster) (id : DeviceId) (key : ByteArr 32) : Prop :=
  ∃ record ∈ self.devices, record.deviceId = id ∧ record.ed25519Pub = key

theorem Roster.lists_of_contains {roster : Roster} {id : DeviceId} {record : DeviceRecord}
    (h : roster.contains id = some record) : record ∈ roster.devices ∧ record.deviceId = id :=
  ⟨List.mem_of_find?_eq_some h, by simpa using List.find?_some h⟩

/-- The roster is signed by a device of the one before it, under the key it has there. -/
def Roster.Succeeds (P : Primitives) (current next : Roster) : Prop :=
  ∃ (signer : DeviceId) (signature : ByteArr 64) (known : DeviceRecord), next.signedBy = some signer ∧
    current.contains signer = some known ∧ next.Lists signer known.ed25519Pub ∧
    P.verifyStrict known.ed25519Pub (next.signingBytes signer) signature = true

variable {P : Primitives} {E fromCbor}

theorem Roster.verify_ok {roster : Roster} {record : DeviceRecord} (h : roster.verify P = .ok record) :
    roster.validate P = .ok () ∧ ∃ signer signature, roster.signedBy = some signer ∧
      roster.contains signer = some record ∧
      P.verifyStrict record.ed25519Pub (roster.signingBytes signer) signature = true := by
  obtain ⟨_, hvalid, h⟩ := bind_eq_ok.mp h
  refine ⟨hvalid, ?_⟩
  split at h
  · next signer signature hsigner hsignature =>
    split at h
    · cases h
    next found hfound =>
      dsimp only at h
      split at h
      · cases h
      split at h
      · cases h
      next hverify =>
        cases h
        exact ⟨signer, signature, hsigner, hfound, by simpa using hverify⟩
  · cases h

theorem checkSuccessor_ok {current next : Roster} (h : checkSuccessor P current next = .ok ()) :
    next.validate P = .ok () ∧ current.Succeeds P next := by
  obtain ⟨own, hverify, h⟩ := bind_eq_ok.mp h
  obtain ⟨hvalid, signer, signature, hsigner, hown, hsigned⟩ := Roster.verify_ok (mapError_eq_ok.mp hverify)
  obtain ⟨hmem, hid⟩ := Roster.lists_of_contains hown
  split at h
  · cases h
  next known hknown =>
    split at h
    · cases h
    next hkey =>
      rw [not_not] at hkey
      refine ⟨hvalid, signer, signature, known, hsigner, ?_, ⟨own, hmem, hid, hkey.symm⟩, ?_⟩
      · rw [← hid]
        exact hknown
      · rw [hkey]
        exact hsigned

theorem openRoster_ok {envelopeBytes : Bytes} {itemId : ItemId} {vaultKey : ByteArr 32} {trusted next : Roster}
    (h : openRoster E fromCbor envelopeBytes itemId vaultKey trusted = .ok next) :
    checkSuccessor E.prims trusted next = .ok () := by
  obtain ⟨address, _, h⟩ := bind_eq_ok.mp h
  split at h
  · cases h
  obtain ⟨parsed, _, h⟩ := bind_eq_ok.mp h
  split at h
  · cases h
  obtain ⟨_, _, h⟩ := bind_eq_ok.mp h
  obtain ⟨key, _, h⟩ := bind_eq_ok.mp h
  obtain ⟨payload, _, h⟩ := bind_eq_ok.mp h
  split at h
  · cases h
  obtain ⟨read, _, h⟩ := bind_eq_ok.mp h
  obtain ⟨_, hcheck, h⟩ := bind_eq_ok.mp h
  cases h
  exact hcheck

/-! ## Chains -/

variable (E fromCbor)

/-- A client that trusts one roster adopts another. -/
def Adopts (current next : Roster) : Prop :=
  checkSuccessor E.prims current next = .ok () ∨
    ∃ envelopeBytes itemId vaultKey, openRoster E fromCbor envelopeBytes itemId vaultKey current = .ok next

/-- The rosters a client has trusted since the anchor, the newest first. -/
inductive Trusts (anchor : Roster) : List Roster → Prop
  | anchor : Trusts anchor [anchor]
  | adopted {current next : Roster} {before : List Roster} : Trusts anchor (current :: before) →
      Adopts E fromCbor current next → Trusts anchor (next :: current :: before)

/-- What the holder of each key signed. -/
def Unforgeable (P : Primitives) (signs : ByteArr 32 → Set Bytes) : Prop :=
  ∀ key message signature, P.verifyStrict key message signature = true → message ∈ signs key

/-- The holder of a key, as a device, signed a roster, and what it signed is no other roster. -/
def SignedRoster (P : Primitives) (signs : ByteArr 32 → Set Bytes) (signer : DeviceId) (key : ByteArr 32)
    (roster : Roster) : Prop :=
  roster.validate P = .ok () ∧ roster.signingBytes signer ∈ signs key ∧
    ∀ (other : Roster) (as : DeviceId), other.validate P = .ok () → other.signingBytes as = roster.signingBytes signer →
      other.devices = roster.devices ∧ as = signer

/-- A device put into a roster that a member of the one before it signed, under the key it has in both. -/
structure PutIn (P : Primitives) (signs : ByteArr 32 → Set Bytes) (before after : Roster) (id : DeviceId)
    (key : ByteArr 32) : Prop where
  absent : ¬ before.Lists id key
  present : after.Lists id key
  signed : ∃ (signer : DeviceId) (known : DeviceRecord), after.signedBy = some signer ∧
    before.contains signer = some known ∧ after.Lists signer known.ed25519Pub ∧
    SignedRoster P signs signer known.ed25519Pub after

variable {E fromCbor}

theorem Adopts.ok {current next : Roster} (h : Adopts E fromCbor current next) :
    next.validate E.prims = .ok () ∧ current.Succeeds E.prims next := by
  rcases h with hcheck | ⟨_, _, _, hopen⟩
  · exact checkSuccessor_ok hcheck
  · exact checkSuccessor_ok (openRoster_ok hopen)

variable {signs : ByteArr 32 → Set Bytes} {anchor : Roster}

theorem Adopts.signed (hsigns : Unforgeable E.prims signs) {current next : Roster} (h : Adopts E fromCbor current next) :
    ∃ (signer : DeviceId) (known : DeviceRecord), next.signedBy = some signer ∧
      current.contains signer = some known ∧ next.Lists signer known.ed25519Pub ∧
      SignedRoster E.prims signs signer known.ed25519Pub next := by
  obtain ⟨hvalid, signer, signature, known, hsigner, hknown, hlists, hverify⟩ := h.ok
  refine ⟨signer, known, hsigner, hknown, hlists, hvalid, hsigns _ _ _ hverify, ?_⟩
  intro other as hother hbytes
  exact Roster.signingBytes_inj hother hvalid hbytes

/-- A device of a trusted roster was in the anchor, or a member put it in. -/
theorem listed_of_trusts (hsigns : Unforgeable E.prims signs) {rosters : List Roster}
    (h : Trusts E fromCbor anchor rosters) {id : DeviceId} {key : ByteArr 32} :
    ∀ roster ∈ rosters, roster.Lists id key → anchor.Lists id key ∨
      ∃ later after before earlier, rosters = later ++ after :: before :: earlier ∧
        PutIn E.prims signs before after id key := by
  induction h with
  | anchor =>
    intro roster hmem hlists
    rw [List.mem_singleton.mp hmem] at hlists
    exact .inl hlists
  | @adopted current next before _ hadopts ih =>
    -- what holds of the rosters so far, one roster later
    have hbefore : ∀ roster ∈ current :: before, roster.Lists id key → anchor.Lists id key ∨
        ∃ later after earlier rest, next :: current :: before = later ++ after :: earlier :: rest ∧
          PutIn E.prims signs earlier after id key := by
      intro roster hmem hlists
      rcases ih roster hmem hlists with hanchor | ⟨later, after, earlier, rest, heq, hput⟩
      · exact .inl hanchor
      · exact .inr ⟨next :: later, after, earlier, rest, by rw [heq]; rfl, hput⟩
    intro roster hmem hlists
    rcases List.mem_cons.mp hmem with rfl | hmem
    · by_cases hcurrent : current.Lists id key
      · exact hbefore current List.mem_cons_self hcurrent
      · exact .inr ⟨[], roster, current, before, rfl, hcurrent, hlists, hadopts.signed hsigns⟩
    · exact hbefore roster hmem hlists

theorem nodup_of_trusts {rosters : List Roster} (h : Trusts E fromCbor anchor rosters) :
    ∀ roster ∈ rosters.dropLast, (roster.devices.map DeviceRecord.deviceId).Nodup := by
  induction h with
  | anchor =>
    intro roster hmem
    cases hmem
  | @adopted current next before _ hadopts ih =>
    intro roster hmem
    rw [List.dropLast_cons_cons] at hmem
    rcases List.mem_cons.mp hmem with rfl | hmem
    · exact (Roster.validateDevices_ok hadopts.ok.1).2
    · exact ih roster hmem

/-- An accepted envelope is signed by the holder of the key its signer is listed under. -/
theorem signed_of_verify (hsigns : Unforgeable E.prims signs) {envelope : Envelope} {itemId : ItemId} {roster : Roster}
    (h : envelope.verify E.prims itemId roster = .ok ()) : ∃ record ∈ roster.devices,
      record.deviceId = envelope.header.signer ∧ envelope.signedMessage itemId ∈ signs record.ed25519Pub := by
  simp only [Envelope.verify] at h
  split at h
  · cases h
  next record hrecord =>
    obtain ⟨hmem, hid⟩ := Roster.lists_of_contains hrecord
    obtain ⟨signature, _, h⟩ := bind_eq_ok.mp h
    dsimp only at h
    split at h
    · cases h
    split at h
    · cases h
    next hverify => exact ⟨record, hmem, hid, hsigns _ _ _ (by simpa using hverify)⟩

/-- Roster trust chains to the anchor. Every device of a roster trusted since was in the anchor under its key, or was put
in by a roster that a member of the one trusted just before signed; no id repeats in a roster that was adopted. So a
device that was not in the anchor, and is in no roster signed under a key that was trusted, is in none of them, and an
envelope they accept is signed by the holder of another device's key. -/
theorem roster_chains_to_anchor (E : Externals) (fromCbor : Bytes → Option Roster) (signs : ByteArr 32 → Set Bytes)
    (hsigns : Unforgeable E.prims signs) {anchor : Roster} {rosters : List Roster}
    (h : Trusts E fromCbor anchor rosters) :
    (∀ roster ∈ rosters, ∀ id key, roster.Lists id key → anchor.Lists id key ∨
      ∃ later after before earlier, rosters = later ++ after :: before :: earlier ∧
        PutIn E.prims signs before after id key) ∧
    (∀ roster ∈ rosters.dropLast, (roster.devices.map DeviceRecord.deviceId).Nodup) ∧
    ∀ id key, ¬ anchor.Lists id key →
      (∀ roster ∈ rosters, ∀ signer trusted, roster.Lists signer trusted → ∀ other : Roster,
        other.validate E.prims = .ok () → other.Lists id key → other.signingBytes signer ∉ signs trusted) →
      ∀ roster ∈ rosters, ¬ roster.Lists id key ∧ ∀ (envelope : Envelope) (itemId : ItemId),
        envelope.verify E.prims itemId roster = .ok () → ∃ record ∈ roster.devices,
          record.deviceId = envelope.header.signer ∧ envelope.signedMessage itemId ∈ signs record.ed25519Pub ∧
          ¬ (record.deviceId = id ∧ record.ed25519Pub = key) := by
  have hlisted : ∀ roster ∈ rosters, ∀ id key, roster.Lists id key → anchor.Lists id key ∨
      ∃ later after before earlier, rosters = later ++ after :: before :: earlier ∧
        PutIn E.prims signs before after id key :=
    fun roster hmem id key hlists => listed_of_trusts hsigns h roster hmem hlists
  refine ⟨hlisted, nodup_of_trusts h, ?_⟩
  intro id key hanchor hnever roster hmem
  have hnot : ¬ roster.Lists id key := by
    intro hlists
    rcases hlisted roster hmem id key hlists with hin | ⟨later, after, before, earlier, heq, hput⟩
    · exact hanchor hin
    · -- whoever put it in signed its record under a trusted key
      obtain ⟨signer, known, _, hknown, _, hvalid, hsaid, _⟩ := hput.signed
      obtain ⟨hrecord, hid⟩ := Roster.lists_of_contains hknown
      have hbefore : before ∈ rosters := by
        rw [heq]
        simp
      exact hnever before hbefore signer known.ed25519Pub ⟨known, hrecord, hid, rfl⟩ after hvalid hput.present hsaid
  refine ⟨hnot, ?_⟩
  intro envelope itemId hverify
  obtain ⟨record, hrecord, hsigner, hsaid⟩ := signed_of_verify hsigns hverify
  exact ⟨record, hrecord, hsigner, hsaid, fun hsame => hnot ⟨record, hrecord, hsame.1, hsame.2⟩⟩

/-- Device 1 puts device 2 in. -/
theorem roster_chains_to_anchor_second :
    (Roster.sample [1]).Lists (DeviceIdentity.sample 2).deviceId (ByteArr.repeated 32 2) ∨
      ∃ later after before earlier, [Roster.sample [1, 2], Roster.sample [1]] = later ++ after :: before :: earlier ∧
        PutIn .sample (fun key => {message | ∃ signature, Primitives.sample.verifyStrict key message signature = true})
          before after (DeviceIdentity.sample 2).deviceId (ByteArr.repeated 32 2) := by
  have hsigns : Unforgeable Primitives.sample
      (fun key => {message | ∃ signature, Primitives.sample.verifyStrict key message signature = true}) :=
    fun key message signature hverify => ⟨signature, hverify⟩
  have hcheck : checkSuccessor .sample (Roster.sample [1]) (Roster.sample [1, 2]) = .ok () := by
    have hany : (checkSuccessor .sample (Roster.sample [1]) (Roster.sample [1, 2])).toOption.any (fun _ => true) = true := by
      decide +kernel
    obtain ⟨_, hok, _⟩ := exists_of_toOption_any hany
    exact hok
  have htrusts : Trusts (.sample [] []) (fun _ => none) (Roster.sample [1]) [Roster.sample [1, 2], Roster.sample [1]] :=
    .adopted .anchor (.inl hcheck)
  refine (roster_chains_to_anchor (.sample [] []) _ _ hsigns htrusts).1 (Roster.sample [1, 2]) List.mem_cons_self _ _ ?_
  exact ⟨.sample 2, List.mem_cons_of_mem _ List.mem_cons_self, rfl, rfl⟩

end Misty
