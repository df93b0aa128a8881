import Misty.Sync.Wire
import Misty.Vault.Sync
import Misty.Lib.Calls

/- The sync engine. It is a program that calls three things outside itself: the
   vault, the store of its own state, and the server (`Query`). What it holds is
   `SyncEngine`; every await is a call, and so is every step of the vault and of the
   state store, so a run that is cut short at any of them is a prefix of its calls.

   Correspondence (Rust ↔ Lean):
     `state::{Fingerprint, KnownRow, SyncState}` ↔ `Fingerprint`, `KnownRow`, `SyncState`
     `Vault`, `StateStore`, `Transport`        ↔ `Query`, with the answers `Answer`
     `SyncClient::{changes, put_item, delete_item}` ↔ `changes`, `putItem`, `deleteItem`
     `SyncEngine::pending`                     ↔ `pending`, over the rows `pendingOf`
     `sync_once`, `push_deletes`, `pull`, `push_writes` ↔ the same names
     `apply_page`                              ↔ `sortPage`, `applyPage`, `recordPage`
     `push_one`, `resolve_conflict`            ↔ the same names
     `verify_change`, `verify_conflict`        ↔ the same names
     `push_roster`, `revoke_device`, `rotate_step`, `reset` ↔ the same names
   A request stands for itself and for what `send` does around it (a session opened or
   renewed); what fails there is an error of the request. -/
namespace Misty

open Std (ExtTreeMap)

/-! ## The durable state -/

abbrev Fingerprint := ByteArr 32

def FINGERPRINT_SALT : Bytes := asciiBytes "misty/sync/fingerprint/v1"

variable (E : Externals)

def Fingerprint.of (envelope : Bytes) : Except SyncError Fingerprint :=
  (hkdfSha512 E.prims envelope FINGERPRINT_SALT [] 32).mapError .crypto

/-- The fingerprint there always is: the output asked for is short enough. -/
def fingerprint (envelope : Bytes) : Fingerprint := E.prims.hkdf envelope FINGERPRINT_SALT [] 32

@[simp] theorem Fingerprint.of_eq (envelope : Bytes) : Fingerprint.of E envelope = .ok (fingerprint E envelope) :=
  rfl

/-- What the server last confirmed about one item. -/
structure KnownRow where
  kind : Byte
  fingerprint : Option Fingerprint
  version : Option ServerVersion
  seq : Option I64
  deriving DecidableEq

def KnownRow.isDeletable (self : KnownRow) : Bool :=
  match EnvelopeKind.fromU8 self.kind with
  | .ok .item | .ok .group => true
  | _ => false

/-- What the engine remembers across a restart. -/
structure SyncState where
  cursor : Option I64
  known : ExtTreeMap ItemId KnownRow
  rotation : Option U32
  deriving DecidableEq

namespace SyncState

def new : SyncState := ⟨none, ∅, none⟩

def versionOf (self : SyncState) (item : ItemId) : Option ServerVersion :=
  self.known[item]?.bind KnownRow.version

/-- The server is known to hold these bytes for the item. -/
def confirmed (self : SyncState) (item : ItemId) (fingerprint : Fingerprint) : Bool :=
  match self.known[item]? with
  | some known => known.fingerprint = some fingerprint
  | none => false

def insert (self : SyncState) (item : ItemId) (row : KnownRow) : SyncState :=
  { self with known := self.known.insert item row }

def remove (self : SyncState) (item : ItemId) : SyncState :=
  { self with known := self.known.erase item }

@[simp] theorem known_insert (s : SyncState) (item i : ItemId) (row : KnownRow) :
    (s.insert item row).known[i]? = if item = i then some row else s.known[i]? :=
  OrdMap.getElem?_insert ..

@[simp] theorem known_remove (s : SyncState) (item i : ItemId) :
    (s.remove item).known[i]? = if item = i then none else s.known[i]? :=
  OrdMap.getElem?_erase ..

@[simp] theorem cursor_insert (s : SyncState) (item : ItemId) (row : KnownRow) :
    (s.insert item row).cursor = s.cursor := rfl

@[simp] theorem cursor_remove (s : SyncState) (item : ItemId) : (s.remove item).cursor = s.cursor := rfl

end SyncState

/-- Why a change was not merged. -/
inductive Rejection where
  | malformed
  | tooLarge
  | unknownSigner
  | signatureInvalid
  deriving DecidableEq

inductive PendingAction where
  | put
  | delete
  deriving DecidableEq

/-- One item the server does not have this device's version of. -/
structure PendingWrite where
  itemId : ItemId
  action : PendingAction
  deriving DecidableEq

/-- The derived order: by item, a put before a delete. -/
def PendingWrite.le (a b : PendingWrite) : Bool :=
  a.itemId < b.itemId || (a.itemId = b.itemId && (a.action = .put || b.action = .delete))

structure SyncReport where
  pages : Nat
  changesSeen : Nat
  applied : Nat
  ignored : Nat
  rejected : List Rejection
  pushed : Nat
  deleted : Nat
  conflictsResolved : Nat
  pendingAfter : Nat
  cursor : Option I64
  conflicts : List Conflict
  rosterUpdate : Option (ItemId × Bytes)
  deriving DecidableEq

/-- `SyncReport::default`. -/
def SyncReport.new : SyncReport := ⟨0, 0, 0, 0, [], 0, 0, 0, 0, none, [], none⟩

/-- The loops that add the conflicts not reported yet. -/
def SyncReport.addConflicts (self : SyncReport) (conflicts : List Conflict) : SyncReport :=
  { self with conflicts := conflicts.foldl (fun seen c => if c ∈ seen then seen else seen ++ [c]) self.conflicts }

/-- The engine between two calls: its state, the report it is filling in, and the
identity and the page size its client was built with. -/
structure SyncEngine where
  state : SyncState
  report : SyncReport
  identity : DeviceIdentity
  pageLimit : Nat

/-! ## Calls -/

/-- A request to the server. -/
inductive Request where
  | changes (since : Option I64) (limit : Nat)
  | put (itemId : ItemId) (envelope : Bytes) (version : Option ServerVersion)
  | delete (itemId : ItemId) (version : Option ServerVersion)
  deriving DecidableEq

/-- What the engine calls: the vault, the state store, the server. -/
inductive Query where
  | loadAll
  | stored (itemId : ItemId)
  | mergeRemote (changes : List RemoteChange)
  | epoch
  | rotateEpoch
  | rewrap (limit : Nat)
  | save (state : SyncState)
  | send (request : Request)

/-- What it is told. -/
abbrev Answer : Query → Type
  | .loadAll => Result (List StoredEnvelope)
  | .stored _ => Result (Option StoredEnvelope)
  | .mergeRemote _ => Result MergeReport
  | .epoch => U32
  | .rotateEpoch => Result U32
  | .rewrap _ => Result RewrapProgress
  | .save _ => Except SyncError Unit
  | .send _ => Except SyncError Response

/-- A method of the engine. -/
abbrev Sync (α : Type) := Prog Query Answer SyncError SyncEngine α

/-- A step of the vault, its error reported under the operation. -/
def onVault {α : Type} (operation : String) (r : Result α) : Sync α :=
  Prog.ofExcept (r.mapError (.vault operation))

/-- `vault.store().load_all()`. -/
def loadAll : Sync (List StoredEnvelope) := do
  let rows ← Prog.call .loadAll
  onVault "read the vault" rows

def stored (itemId : ItemId) : Sync (Option StoredEnvelope) := do
  let row ← Prog.call (.stored itemId)
  onVault "read the item" row

def mergeRemote (operation : String) (changes : List RemoteChange) : Sync MergeReport := do
  let merged ← Prog.call (.mergeRemote changes)
  onVault operation merged

def save : Sync Unit := do
  let self ← get
  let saved ← Prog.call (.save self.state)
  Prog.ofExcept saved

/-- `SyncClient::send`. -/
def send (request : Request) : Sync Response := do
  let response ← Prog.call (.send request)
  Prog.ofExcept response

/-- What `changes` makes of an answer. -/
def readChanges (response : Response) : Except SyncError ChangeFeed :=
  if response.isSuccess then decodeChangeFeed response.body
  else .error (.server "changes" response.status)

/-- `SyncClient::changes`. -/
def changes (since : Option I64) (limit : Nat) : Sync ChangeFeed := do
  let response ← send (.changes since (max limit 1))
  Prog.ofExcept (readChanges response)

/-- What `put_item` makes of an answer. -/
def readPut (envelope : Bytes) (response : Response) : Except SyncError PutOutcome :=
  match response.status with
  | 200 | 201 | 204 => decodePutApplied response.body
  | 409 => decodeConflict response.body
  | 413 => .error (.envelopeTooLarge envelope.length MAX_ENVELOPE_LEN)
  | 507 => .error (.quotaExhausted "put item")
  | status => .error (.server "put item" status)

/-- `SyncClient::put_item`. -/
def putItem (itemId : ItemId) (envelope : Bytes) (version : Option ServerVersion) : Sync PutOutcome := do
  if MAX_ENVELOPE_LEN < envelope.length then
    throw (.envelopeTooLarge envelope.length MAX_ENVELOPE_LEN)
  let response ← send (.put itemId envelope version)
  Prog.ofExcept (readPut envelope response)

/-- What `delete_item` makes of an answer. -/
def readDelete (response : Response) : Except SyncError Unit :=
  if response.isSuccess || response.status = 404 || response.status = 410 then .ok ()
  else .error (.server "delete item" response.status)

/-- `SyncClient::delete_item`. -/
def deleteItem (itemId : ItemId) (version : Option ServerVersion) : Sync Unit := do
  let response ← send (.delete itemId version)
  Prog.ofExcept (readDelete response)

/-- `self.state` replaced. -/
def setState (f : SyncState → SyncState) : Sync Unit :=
  modify fun self => { self with state := f self.state }

/-- A field of the report replaced. -/
def setReport (f : SyncReport → SyncReport) : Sync Unit :=
  modify fun self => { self with report := f self.report }

/-! ## The queue -/

/-- The rows of `pending` that are not confirmed. -/
def pendingPuts (state : SyncState) : List StoredEnvelope → Except SyncError (List PendingWrite)
  | [] => .ok []
  | row :: rest => do
    let fingerprint ← Fingerprint.of E row.envelope
    let out ← pendingPuts state rest
    return if state.confirmed row.itemId fingerprint then out else ⟨row.itemId, .put⟩ :: out

/-- The known rows of `pending` the vault does not have. -/
def pendingDeletes (state : SyncState) (rows : List StoredEnvelope) : List PendingWrite :=
  (state.known.toList.filter (fun p => p.2.isDeletable && !rows.any (fun row => row.itemId = p.1))).map
    (fun p => ⟨p.1, .delete⟩)

/-- What `pending` makes of the rows. -/
def pendingOf (state : SyncState) (rows : List StoredEnvelope) : Except SyncError (List PendingWrite) := do
  let puts ← pendingPuts E state rows
  return (puts ++ pendingDeletes state rows).insertionSort (fun a b => a.le b)

/-- `SyncEngine::pending`. -/
def pending : Sync (List PendingWrite) := do
  let rows ← loadAll
  let self ← get
  Prog.ofExcept (pendingOf E self.state rows)

/-! ## Pulling -/

def verifyChange (roster : Roster) (itemId : ItemId) (envelope : Bytes) : Except Rejection EnvelopeKind := do
  if MAX_ENVELOPE_LEN < envelope.length then throw .tooLarge
  let parsed ← (Envelope.parse envelope).mapError (fun _ => Rejection.malformed)
  (parsed.verify E.prims itemId roster).mapError (fun error => match error with
    | .unknownSigner _ => Rejection.unknownSigner
    | .signatureInvalid | .badVerifyingKey => .signatureInvalid
    | _ => .malformed)
  return parsed.header.kind

def verifyConflict (roster : Roster) (itemId : ItemId) (envelope : Bytes) : Except SyncError EnvelopeKind := do
  if MAX_ENVELOPE_LEN < envelope.length then
    throw (.envelopeTooLarge envelope.length MAX_ENVELOPE_LEN)
  let parsed ← (Envelope.parse envelope).mapError .crypto
  (parsed.verify E.prims itemId roster).mapError (fun error => match error with
    | .unknownSigner signer => SyncError.unknownSigner signer
    | other => .crypto other)
  return parsed.header.kind

def isRosterChange (change : FeedChange) : Bool :=
  match change.envelope with
  | none => false
  | some envelope =>
    match Envelope.parse envelope with
    | .ok parsed => parsed.header.kind = .deviceRoster
    | .error _ => false

/-- The kinds the vault models. -/
def isMerged (kind : EnvelopeKind) : Bool := kind = .item || kind = .group

/-- A change as the vault takes it. -/
def FeedChange.toRemote (change : FeedChange) (envelope : Bytes) : RemoteChange where
  itemId := change.itemId
  seq := some change.seq
  version := change.version.map ServerVersion.toBytes
  envelope := envelope

/-- What the first loop of `apply_page` makes of a page. -/
structure SortedPage where
  batch : List RemoteChange
  accepted : List (FeedChange × Option EnvelopeKind)
  rejected : List Rejection
  ignored : Nat
  rosterUpdate : Option (ItemId × Bytes)

/-- One change of the first loop of `apply_page`. -/
def SortedPage.take (roster : Roster) (self : SortedPage) (change : FeedChange) : SortedPage :=
  match change.envelope with
  | none => { self with accepted := self.accepted ++ [(change, none)] }
  | some envelope =>
    match verifyChange E roster change.itemId envelope with
    | .error reason => { self with rejected := self.rejected ++ [reason] }
    | .ok kind =>
      let self := { self with accepted := self.accepted ++ [(change, some kind)] }
      if isMerged kind then { self with batch := self.batch ++ [change.toRemote envelope] }
      else { self with
        ignored := self.ignored + 1
        rosterUpdate := if kind = .deviceRoster then some (change.itemId, envelope) else self.rosterUpdate }

/-- The first loop of `apply_page`. -/
def sortPage (roster : Roster) (page : List FeedChange) : SortedPage :=
  page.foldl (SortedPage.take E roster) ⟨[], [], [], 0, none⟩

/-- One accepted change of the last loop of `apply_page`. -/
def recordChange (change : FeedChange) (kind : Option EnvelopeKind) : Sync Unit := do
  let fingerprint ← Prog.ofExcept (optional (Fingerprint.of E) change.envelope)
  setState fun state => state.insert change.itemId {
    kind := match kind with
      | some kind => kind.asU8
      | none => ((state.known[change.itemId]?).map KnownRow.kind).getD 0
    fingerprint := fingerprint
    version := change.version
    seq := some change.seq }

/-- The last loop of `apply_page`. -/
def recordPage : List (FeedChange × Option EnvelopeKind) → Sync Unit
  | [] => pure ()
  | (change, kind) :: rest => do
    recordChange E change kind
    recordPage rest

def applyPage (roster : Roster) (page : List FeedChange) : Sync Unit := do
  let sorted := sortPage E roster page
  setReport fun report => { report with
    rejected := report.rejected ++ sorted.rejected
    ignored := report.ignored + sorted.ignored
    rosterUpdate := sorted.rosterUpdate <|> report.rosterUpdate }
  if ¬ sorted.batch.isEmpty then
    let merged ← mergeRemote "merge remote changes" sorted.batch
    setReport fun report => { report.addConflicts merged.conflicts with
      applied := report.applied + merged.applied
      ignored := report.ignored + merged.ignored }
  recordPage E sorted.accepted

/-- A failure that a smaller page may cure. -/
def SyncError.pageTooLarge : SyncError → Bool
  | .responseTooLarge _ _ | .envelopeTooLarge _ _ => true
  | _ => false

/-- The checks of a page against the cursor. -/
def checkPage (cursor : Int) (feed : ChangeFeed) : Except SyncError Unit :=
  match feed.changes.find? (fun change => change.seq.val ≤ cursor) with
  | some change => .error (.seqRollback change.seq.val cursor)
  | none => if feed.nextSeq.val < cursor then .error (.seqRollback feed.nextSeq.val cursor) else .ok ()

/-- The part of a page up to a roster, and where the cursor goes. -/
def haltPage (feed : ChangeFeed) : Bool × List FeedChange × I64 :=
  match feed.changes.findIdx? isRosterChange with
  | some i => (true, feed.changes.take (i + 1), ((feed.changes[i]?).map FeedChange.seq).getD feed.nextSeq)
  | none => (false, feed.changes, feed.nextSeq)

/-- The loop of `pull`, with the pages that are left. -/
def pullLoop (roster : Roster) (left limit : Nat) : Sync Unit :=
  match left with
  | 0 => throw (.feedTooLong MAX_PAGES_PER_SYNC)
  | left + 1 => do
    let self ← get
    let cursor := (self.state.cursor.map Subtype.val).getD 0
    match ← (changes self.state.cursor limit).attempt with
    | .error error =>
      -- Nothing was read, so this is no page.
      if h : error.pageTooLarge ∧ 1 < limit then pullLoop roster (left + 1) (max (limit / 2) 1)
      else throw error
    | .ok feed =>
      setReport fun report => { report with
        pages := report.pages + 1
        changesSeen := report.changesSeen + feed.changes.length }
      Prog.ofExcept (checkPage cursor feed)
      let (halted, page, nextCursor) := haltPage feed
      applyPage E roster page
      setState fun state => { state with cursor := some nextCursor }
      save
      if halted then return
      if ¬ feed.hasMore ∨ (feed.changes.isEmpty ∧ feed.nextSeq.val ≤ cursor) then return
      pullLoop roster left limit
termination_by left + limit

def pull (roster : Roster) : Sync Unit := do
  let self ← get
  pullLoop E roster MAX_PAGES_PER_SYNC (max self.pageLimit 1)

/-! ## Pushing -/

/-- The loop of `push_deletes`. -/
def deleteLoop : List PendingWrite → Sync Unit
  | [] => pure ()
  | write :: rest => do
    if write.action = .delete then
      let self ← get
      deleteItem write.itemId (self.state.versionOf write.itemId)
      setState fun state => state.remove write.itemId
      save
      setReport fun report => { report with deleted := report.deleted + 1 }
    deleteLoop rest

def pushDeletes : Sync Unit := do
  let writes ← pending E
  deleteLoop writes

def resolveConflict (roster : Roster) (itemId : ItemId) (version : Option ServerVersion)
    (envelope : Option Bytes) : Sync Unit := do
  match envelope with
  | none =>
    match version with
    | none => setState fun state => state.remove itemId
    | some version => setState fun state => state.insert itemId {
        kind := ((state.known[itemId]?).map KnownRow.kind).getD 0
        fingerprint := none
        version := some version
        seq := none }
  | some envelope =>
    let kind ← Prog.ofExcept (verifyConflict E roster itemId envelope)
    let fingerprint ← Prog.ofExcept (Fingerprint.of E envelope)
    let self ← get
    if self.state.confirmed itemId fingerprint ∧ self.state.versionOf itemId = version then
      throw (.conflictLoop MAX_CONFLICT_RETRIES)
    setState fun state => state.insert itemId {
      kind := kind.asU8
      fingerprint := some fingerprint
      version := version
      seq := none }
    if isMerged kind then
      let merged ← mergeRemote "merge a conflicting write" [⟨itemId, none, none, envelope⟩]
      setReport fun report => report.addConflicts merged.conflicts
  save
  setReport fun report => { report with conflictsResolved := report.conflictsResolved + 1 }

/-- The loop of `push_one`, with the attempts that are left. -/
def pushLoop (roster : Roster) (itemId : ItemId) : Nat → Sync Unit
  | 0 => throw (.conflictLoop MAX_CONFLICT_RETRIES)
  | left + 1 => do
    match ← stored itemId with
    | none => return
    | some row =>
      let fingerprint ← Prog.ofExcept (Fingerprint.of E row.envelope)
      let self ← get
      if self.state.confirmed itemId fingerprint then return
      match ← putItem itemId row.envelope (self.state.versionOf itemId) with
      | .applied seq version =>
        setState fun state => state.insert itemId {
          kind := row.kind.asU8
          fingerprint := some fingerprint
          version := some version
          seq := some seq }
        save
        setReport fun report => { report with pushed := report.pushed + 1 }
      | .conflict version envelope =>
        resolveConflict E roster itemId version envelope
        pushLoop roster itemId left

def pushOne (roster : Roster) (itemId : ItemId) : Sync Unit :=
  pushLoop E roster itemId (MAX_CONFLICT_RETRIES + 1)

/-- The loop of `push_writes`. -/
def writeLoop (roster : Roster) : List PendingWrite → Sync Unit
  | [] => pure ()
  | write :: rest => do
    if write.action = .put then pushOne E roster write.itemId
    writeLoop roster rest

def pushWrites (roster : Roster) : Sync Unit := do
  let writes ← pending E
  writeLoop E roster writes

/-- `SyncEngine::sync_once`. -/
def syncOnce (roster : Roster) : Sync SyncReport := do
  setReport fun _ => .new
  pushDeletes E
  pull E roster
  pushWrites E roster
  let self ← get
  setReport fun report => { report with cursor := self.state.cursor }
  let writes ← pending E
  setReport fun report => { report with pendingAfter := writes.length }
  let self ← get
  return self.report

/-! ## Rosters and rotation -/

def ROSTER_ID_SALT : Bytes := asciiBytes "misty/roster-id/v1"

def rosterItemId (vaultKey : ByteArr 32) : Except SyncError ItemId :=
  ((hkdfSha512 E.prims vaultKey.val ROSTER_ID_SALT [] 16).mapError .crypto).map ItemId.mk

/-- `encode_roster`, over the CBOR of a roster. -/
def encodeRoster (cbor : Roster → Option Bytes) (roster : Roster) : Except SyncError Bytes := do
  let payload ← required "encode roster" "roster" (cbor roster)
  if MAX_ROSTER_PAYLOAD_LEN < payload.length then
    throw (.envelopeTooLarge payload.length MAX_ROSTER_PAYLOAD_LEN)
  return payload

def sealRoster (cbor : Roster → Option Bytes) (draw : SealDraw) (roster : Roster) (vaultKey : ByteArr 32)
    (epoch : U32) (identity : DeviceIdentity) : Except SyncError (ItemId × Bytes) := do
  let signer ← (roster.verify E.prims).mapError SyncError.crypto
  if signer.deviceId ≠ identity.deviceId then throw (.rosterRejected .signerNotTrusted)
  let itemId ← rosterItemId E vaultKey
  let payload ← encodeRoster cbor roster
  let key ← (epochKey E.prims vaultKey epoch).mapError SyncError.crypto
  let bytes ← (sealEnvelope E.prims .deviceRoster epoch itemId payload key identity draw).mapError
    SyncError.crypto
  return (itemId, bytes)

/-- What `push_roster` did. -/
inductive RosterPush where
  | applied
  | superseded (itemId : ItemId) (envelope : Bytes)

/-- What `revoke_device` did. -/
inductive Revocation where
  | revoked (removed : Bool) (roster : Roster) (epoch : U32)
  | rosterSuperseded (itemId : ItemId) (envelope : Bytes)

variable (cbor : Roster → Option Bytes) (draw : SealDraw)

/-- `SyncEngine::push_roster`. -/
def pushRoster (roster : Roster) (vaultKey : ByteArr 32) : Sync RosterPush := do
  let epoch ← Prog.call .epoch
  let self ← get
  let (itemId, bytes) ← Prog.ofExcept (sealRoster E cbor draw roster vaultKey epoch self.identity)
  match ← putItem itemId bytes (self.state.versionOf itemId) with
  | .applied seq version =>
    let fingerprint ← Prog.ofExcept (Fingerprint.of E bytes)
    setState fun state => state.insert itemId {
      kind := EnvelopeKind.deviceRoster.asU8
      fingerprint := some fingerprint
      version := some version
      seq := some seq }
    save
    return .applied
  | .conflict version envelope =>
    let fingerprint ← Prog.ofExcept (optional (Fingerprint.of E) envelope)
    setState fun state => state.insert itemId {
      kind := EnvelopeKind.deviceRoster.asU8
      fingerprint := fingerprint
      version := version
      seq := none }
    save
    return .superseded itemId (envelope.getD [])

/-- `SyncEngine::revoke_device`. -/
def revokeDevice (roster : Roster) (revoked : DeviceId) (vaultKey : ByteArr 32) : Sync Revocation := do
  let (successor, removed) := roster.remove revoked
  let self ← get
  let successor ← Prog.ofExcept ((successor.sign E.prims self.identity).mapError SyncError.crypto)
  match ← pushRoster E cbor draw successor vaultKey with
  | .superseded itemId envelope => return .rosterSuperseded itemId envelope
  | .applied =>
    let epoch ← Prog.call .rotateEpoch
    let epoch ← onVault "rotate the epoch" epoch
    setState fun state => { state with rotation := some epoch }
    save
    return .revoked removed successor epoch

/-- `SyncEngine::rotate_step`. -/
def rotateStep (limit : Nat) : Sync RewrapProgress := do
  let progress ← Prog.call (.rewrap limit)
  let progress ← onVault "re-seal for the new epoch" progress
  let self ← get
  if progress.remaining = 0 ∧ self.state.rotation.isSome then
    setState fun state => { state with rotation := none }
    save
  return progress

/-- `SyncEngine::reset`. -/
def reset : Sync Unit := do
  setState fun _ => .new
  save

end Misty
