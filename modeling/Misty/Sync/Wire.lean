import Misty.Error

/- What the server says and how it is read: version tokens, the change feed, the
   answers to a write, with the checks of `misty_sync::wire` in their order.

   Correspondence (Rust ↔ Lean):
     `wire::ServerVersion`                     ↔ `ServerVersion`
     `wire::{FeedChange, ChangeFeed, PutOutcome}` ↔ the same names
     `wire::{RawVersion, RawChange, …}`        ↔ `RawVersion`, `RawChange`, `RawBody`
     `wire::{decode_change_feed, decode_put_applied, decode_conflict}` ↔ the same names
     `limits::…`, `error::SyncError`           ↔ the same names
   A body is taken as what its JSON text says, field by field, and a base64 or hex
   field as what it decodes to: the text itself is read by other crates. One record
   has the fields of every body, since unknown fields are ignored. -/
namespace Misty

def MAX_ENVELOPE_LEN : Nat := 528 * 1024
def MAX_RESPONSE_BODY_LEN : Nat := 8 * 1024 * 1024
def MAX_CHANGES_PER_PAGE : Nat := 512
def MAX_PAGES_PER_SYNC : Nat := 4096
def MAX_CONFLICT_RETRIES : Nat := 8

/-- Exclusive upper bound on a `seq`. -/
def MAX_SEQ : Int := 2 ^ 48

def MAX_VERSION_LEN : Nat := 128
def MAX_ROSTER_PAYLOAD_LEN : Nat := 64 * 1024

/-- `RosterRejection`: why a fetched roster was refused. -/
inductive RosterRejection where
  | unsigned
  | signatureInvalid
  | signerNotTrusted
  | wrongAddress
  | wrongKind
  deriving DecidableEq

/-- `misty_sync::SyncError`, the variants a modelled function can return. -/
inductive SyncError where
  | crypto (error : CryptoError)
  | vault (operation : String) (source : VaultError)
  | transport (operation : String)
  | server (operation : String) (status : Nat)
  | authRefused (operation : String)
  | malformed (operation field : String)
  | responseTooLarge (operation : String) (max : Nat)
  | envelopeTooLarge (len max : Nat)
  | seqRollback (offered cursor : Int)
  | feedOutOfOrder (offered previous : Int)
  | seqOutOfRange (offered max : Int)
  | feedTooLong (max : Nat)
  | unknownSigner (signer : DeviceId)
  | rosterRejected (reason : RosterRejection)
  | conflictLoop (max : Nat)
  | conflictWithoutEnvelope
  | unusableVersionToken
  | quotaExhausted (operation : String)
  | stateStore (operation : String)
  | timeNonceMismatch
  | timeSignatureInvalid
  | timeWentBackwards (offered previous : I64)
  deriving DecidableEq

/-! ## Version tokens -/

def isAsciiGraphic (c : Char) : Bool := 33 ≤ c.toNat && c.toNat ≤ 126

/-- `ServerVersion`: an opaque token. -/
structure ServerVersion where
  token : Text
  deriving DecidableEq

/-- `strip_prefix('"').and_then(|rest| rest.strip_suffix('"'))`. -/
def stripQuotes (text : Text) : Option Text :=
  match text with
  | '"' :: rest => if rest.getLast? = some '"' then some rest.dropLast else none
  | _ => none

namespace ServerVersion

def parse (token : Text) : Except SyncError ServerVersion :=
  let token := (stripQuotes token).getD token
  if token ≠ [] ∧ Text.utf8Len token ≤ MAX_VERSION_LEN ∧
      token.all (fun c => isAsciiGraphic c && c ≠ '"') then .ok ⟨token⟩
  else .error .unusableVersionToken

def meansAbsent (self : ServerVersion) : Bool := self.token = ['0']

def toBytes (self : ServerVersion) : Bytes := self.token.utf8

end ServerVersion

/-! ## Bodies -/

/-- `RawVersion`: a string or a number. -/
inductive RawVersion where
  | token (text : Text)
  | number (value : I64)
  deriving DecidableEq

def RawVersion.intoToken : RawVersion → Except SyncError ServerVersion
  | token text => ServerVersion.parse text
  | number value => ServerVersion.parse (toString value.val).toList

/-- A base64 field: longer than any envelope, not base64, or some bytes. -/
inductive RawBlob where
  | long
  | garbled
  | bytes (b : Bytes)
  deriving DecidableEq

/-- An entry of the feed. An id that is not sixteen bytes of hex is `some none`. -/
structure RawChange where
  itemId : Option (Option ItemId)
  seq : Option I64
  version : Option RawVersion
  envelope : Option RawBlob
  deleted : Option Bool
  deriving DecidableEq

/-- The fields of a body. -/
structure RawBody where
  changes : Option (List RawChange)
  nextSeq : Option I64
  hasMore : Option Bool
  seq : Option I64
  version : Option RawVersion
  envelope : Option RawBlob
  deriving DecidableEq

/-- A body: over the length limit, not JSON of the shape asked for, or its fields. -/
inductive Body where
  | long
  | garbled
  | fields (raw : RawBody)
  deriving DecidableEq

/-- A body without a field. -/
def RawBody.empty : RawBody := ⟨none, none, none, none, none, none⟩

/-- An answer of the server. -/
structure Response where
  status : Nat
  body : Body
  deriving DecidableEq

/-- `SyncResponse::is_success`. -/
def Response.isSuccess (self : Response) : Bool := 200 ≤ self.status && self.status < 300

/-! ## Decoding -/

/-- One object of the feed. -/
structure FeedChange where
  itemId : ItemId
  seq : I64
  version : Option ServerVersion
  envelope : Option Bytes
  deleted : Bool
  deriving DecidableEq

/-- One page of the feed. -/
structure ChangeFeed where
  changes : List FeedChange
  nextSeq : I64
  hasMore : Bool
  deriving DecidableEq

/-- What a `PUT` came to. -/
inductive PutOutcome where
  | applied (seq : I64) (version : ServerVersion)
  | conflict (version : Option ServerVersion) (envelope : Option Bytes)
  deriving DecidableEq

def json (operation : String) : Body → Except SyncError RawBody
  | .long => .error (.responseTooLarge operation MAX_RESPONSE_BODY_LEN)
  | .garbled => .error (.malformed operation "body")
  | .fields raw => .ok raw

def required {α : Type} (operation field : String) : Option α → Except SyncError α
  | some a => .ok a
  | none => .error (.malformed operation field)

def base64Field (operation field : String) (max : Nat) : RawBlob → Except SyncError Bytes
  | .long => .error (.responseTooLarge operation max)
  | .garbled => .error (.malformed operation field)
  | .bytes b => if max < b.length then .error (.responseTooLarge operation max) else .ok b

def checkedSeq (offered : I64) : Except SyncError I64 :=
  if 0 ≤ offered.val ∧ offered.val < MAX_SEQ then .ok offered
  else .error (.seqOutOfRange offered.val MAX_SEQ)

/-- `map_err` of the envelope of an entry. -/
def SyncError.ofEntry : SyncError → SyncError
  | .responseTooLarge _ max => .envelopeTooLarge (max + 1) max
  | other => other

/-- The optional fields of an entry, each through its decoder. -/
def optional {α β : Type} (decode : α → Except SyncError β) : Option α → Except SyncError (Option β)
  | none => .ok none
  | some a => (decode a).map some

/-- One entry of `decode_change_feed`, after the entry at `previous`. -/
def decodeEntry (previous : Option I64) (entry : RawChange) : Except SyncError FeedChange := do
  let seq ← checkedSeq (← required "changes" "seq" entry.seq)
  match previous with
  | some previous => if seq.val ≤ previous.val then throw (.feedOutOfOrder seq.val previous.val)
  | none => pure ()
  let envelope ← (optional (base64Field "changes" "envelope" MAX_ENVELOPE_LEN) entry.envelope).mapError .ofEntry
  let itemId ← required "changes" "item_id" (← required "changes" "item_id" entry.itemId)
  let version ← optional RawVersion.intoToken entry.version
  return ⟨itemId, seq, version, envelope, entry.deleted.getD false⟩

/-- The loop of `decode_change_feed`. -/
def decodeEntries : Option I64 → List RawChange → Except SyncError (List FeedChange)
  | _, [] => .ok []
  | previous, entry :: rest => do
    let change ← decodeEntry previous entry
    let changes ← decodeEntries (some change.seq) rest
    return change :: changes

def decodeChangeFeed (body : Body) : Except SyncError ChangeFeed := do
  let raw ← json "changes" body
  let entries := raw.changes.getD []
  if MAX_CHANGES_PER_PAGE < entries.length then
    throw (.responseTooLarge "changes" MAX_CHANGES_PER_PAGE)
  let changes ← decodeEntries none entries
  let nextSeq ← checkedSeq (← required "changes" "next_seq" raw.nextSeq)
  match changes.getLast? with
  | some last => if nextSeq.val < last.seq.val then throw (.feedOutOfOrder nextSeq.val last.seq.val)
  | none => pure ()
  return ⟨changes, nextSeq, raw.hasMore.getD false⟩

def decodePutApplied (body : Body) : Except SyncError PutOutcome := do
  let raw ← json "put item" body
  let seq ← checkedSeq (← required "put item" "seq" raw.seq)
  let version ← (← required "put item" "version" raw.version).intoToken
  return .applied seq version

/-- `decode_conflict`. The token `0` stands for no version. -/
def decodeConflict (body : Body) : Except SyncError PutOutcome := do
  let raw ← json "resolve conflict" body
  let envelope ← optional (base64Field "resolve conflict" "envelope" MAX_ENVELOPE_LEN) raw.envelope
  let version ← optional RawVersion.intoToken raw.version
  let version := version.filter (fun version => !version.meansAbsent)
  if envelope.isNone && version.isNone then throw .conflictWithoutEnvelope
  return .conflict version envelope

end Misty
