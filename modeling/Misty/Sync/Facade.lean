import Misty.Crypto.Enrollment
import Misty.Sync.Engine

/- The facade: the task that owns the vault, the engine and the roster, and runs one
   command after another. Three of its commands reach the server's roster: a sync, the
   revocation of a device, and the approval of an enrollment.

   Correspondence (Rust ↔ Lean):
     `facade::{Core, Lifecycle}`, `FacadeError` ↔ `Facade`, `Lifecycle`, `FacadeError`
     `Core::{drive_sync, do_revoke_device, do_approve_enrollment, reopen_under}` ↔ the same names
     `SyncEngine::approve_enrollment`, `Approval` ↔ `approveEnrollment`, `Approval`
     `enroll::record_for`, `Roster::add`       ↔ `recordFor`, `Roster.add`
   What the facade does outside its engine is a call too: a request fetched from the
   relay, a grant sealed and delivered, the vault opened again. Deadlines and the codes
   of errors are left out. -/
namespace Misty

/-- `Lifecycle`. The vault of an unlocked facade answers its calls. -/
inductive Lifecycle where
  | locked
  | unlocked
  | poisoned
  deriving DecidableEq

/-- `Core`. -/
structure Facade where
  lifecycle : Lifecycle
  engine : SyncEngine
  roster : Roster

inductive FacadeError where
  | locked
  | notFound (message : String)
  | invalidField (message : String)
  | internal (message : String)
  | otp (error : OtpError)
  | sync (error : SyncError)
  | vault (error : VaultError)
  deriving DecidableEq

/-! ## Calls -/

/-- What the facade calls: what its engine does, the relay of enrollments, and what
opens a vault. -/
inductive FacadeQuery where
  | engine (q : Query)
  /-- `enroll_poll` and `decode_request`. -/
  | fetch (enrollId : EnrollId)
  /-- `PendingApproval::seal`. -/
  | sealGrant (request : EnrollmentRequest) (typedCode : Text) (epoch : U32) (serverUrl : Text) (roster : Roster)
  /-- `PendingApproval::deliver`. -/
  | deliver (enrollId : EnrollId) (grant : Bytes)
  /-- `Vault::open` on the store of the vault. -/
  | reopen (roster : Roster)

/-- What it is told. -/
abbrev FacadeQuery.Answer : FacadeQuery → Type
  | .engine q => Misty.Answer q
  | .fetch _ => Except SyncError (Option EnrollmentRequest)
  | .sealGrant _ _ _ _ _ => Except SyncError Bytes
  | .deliver _ _ => Except SyncError Unit
  | .reopen _ => Result Unit

/-- What a facade does next. -/
abbrev FacadeCalls (α : Type) := Calls FacadeQuery FacadeQuery.Answer FacadeError Facade α

/-- A method of the facade. -/
abbrev Command (α : Type) := Prog FacadeQuery FacadeQuery.Answer FacadeError Facade α

/-- The calls of the engine, while the facade waits for it. -/
def Calls.within {α : Type} (lifecycle : Lifecycle) (roster : Roster) :
    Calls Query Answer SyncError SyncEngine α → FacadeCalls α
  | ok a s => ok a ⟨lifecycle, s, roster⟩
  | error e s => error (.sync e) ⟨lifecycle, s, roster⟩
  | call q s k => call (.engine q) ⟨lifecycle, s, roster⟩ (fun a => (k a).within lifecycle roster)

/-- A method of the engine. -/
def onEngine {α : Type} (x : Sync α) : Command α := fun s => (x s.engine).within s.lifecycle s.roster

/-- A call that is about the server. -/
def onRelay {α : Type} (r : Except SyncError α) : Command α := Prog.ofExcept (r.mapError .sync)

/-- A step of the vault. -/
def onOpened {α : Type} (r : Result α) : Command α := Prog.ofExcept (r.mapError .vault)

/-- `let Lifecycle::Unlocked { .. } = … else`. -/
def requireUnlocked : Command Unit := do
  let self ← get
  if self.lifecycle ≠ .unlocked then throw .locked

/-! ## Approving a device -/

/-- The record of a request. -/
def EnrollmentRequest.record (self : EnrollmentRequest) (enrolledAt : I64) (enrolledBy : DeviceId) : DeviceRecord :=
  ⟨self.deviceId, self.ed25519Pub, self.name, self.platform, enrolledAt, some enrolledBy⟩

def recordFor (P : Primitives) (request : EnrollmentRequest) (enrolledAt : I64) (enrolledBy : DeviceId) :
    Except CryptoError DeviceRecord := do
  let record := request.record enrolledAt enrolledBy
  record.validate P
  return record

def Roster.add (P : Primitives) (self : Roster) (record : DeviceRecord) : Except CryptoError Roster := do
  record.validate P
  if (self.contains record.deviceId).isSome then throw (.duplicateDevice record.deviceId)
  return ⟨self.devices ++ [record], none, none⟩

inductive Approval where
  | approved (roster : Roster) (record : DeviceRecord)
  | rosterSuperseded (itemId : ItemId) (envelope : Bytes)

variable (E : Externals) (cbor : Roster → Option Bytes) (vaultKey : ByteArr 32)

/-- `SyncEngine::approve_enrollment`. The grant is sealed first, the roster goes before the grant. -/
def approveEnrollment (draw : SealDraw) (roster : Roster) (request : EnrollmentRequest)
    (typedCode serverUrl : Text) (enrolledAt : I64) : Command Approval := do
  let self ← get
  let identity := self.engine.identity
  let record ← onRelay ((recordFor E.prims request enrolledAt identity.deviceId).mapError .crypto)
  let successor ← onRelay ((roster.add E.prims record).mapError .crypto)
  let successor ← onRelay ((successor.sign E.prims identity).mapError .crypto)
  let epoch ← onEngine (Prog.call .epoch)
  let sealed ← Prog.call (.sealGrant request typedCode epoch serverUrl successor)
  let grant ← onRelay sealed
  match ← onEngine (pushRoster E cbor draw successor vaultKey) with
  | .superseded itemId envelope => return .rosterSuperseded itemId envelope
  | .applied =>
    let delivered ← Prog.call (.deliver request.enrollId grant)
    onRelay delivered
    return .approved successor record

/-- `PendingApproval::fetch`. -/
def fetchApproval (enrollId : EnrollId) : Command (Option EnrollmentRequest) := do
  let answer ← Prog.call (.fetch enrollId)
  match ← onRelay answer with
  | none => return none
  | some request =>
    if request.enrollId ≠ enrollId then throw (.sync (.crypto .enrollIdMismatch))
    return some request

/-! ## Commands -/

/-- `reopen_under`. The roster is the new one also when the vault does not open under it. -/
def reopenUnder (roster : Roster) : Command Unit := do
  requireUnlocked
  modify fun self => { self with lifecycle := .poisoned, roster := roster }
  let reopened ← Prog.call (.reopen roster)
  onOpened reopened
  modify fun self => { self with lifecycle := .unlocked }

def SUPERSEDED : String := "another device published a roster first; re-sync and retry"

/-- The loop over `rotate_step`, with the steps it takes before its task is stopped. -/
def drain : Nat → Command Unit
  | 0 => throw (.internal "core task stopped")
  | left + 1 => do
    let progress ← onEngine (rotateStep 100)
    if progress.remaining ≠ 0 then drain left

/-- `drive_sync`. The report goes to the caller, with the roster update in it. -/
def driveSync : Command Unit := do
  requireUnlocked
  let self ← get
  let _ ← onEngine (syncOnce E self.roster)

def doRevokeDevice (draw : SealDraw) (steps : Nat) (revoked : DeviceId) : Command Unit := do
  requireUnlocked
  let self ← get
  match ← onEngine (revokeDevice E cbor draw self.roster revoked vaultKey) with
  | .revoked _ roster _ =>
    drain steps
    reopenUnder roster
  | .rosterSuperseded _ _ => throw (.internal SUPERSEDED)

def doApproveEnrollment (draw : SealDraw) (enrollId : EnrollId) (typedCode serverUrl : Text) (enrolledAt : I64) :
    Command Unit := do
  match ← fetchApproval enrollId with
  | none => throw (.notFound "no pending enrollment")
  | some request =>
    requireUnlocked
    let self ← get
    match ← approveEnrollment E cbor vaultKey draw self.roster request typedCode serverUrl enrolledAt with
    | .approved roster _ => reopenUnder roster
    | .rosterSuperseded _ _ => throw (.internal SUPERSEDED)

/-- `Command`, the three that reach the roster, with what they draw. -/
inductive FacadeCommand where
  | syncOnce
  | revokeDevice (draw : SealDraw) (steps : Nat) (revoked : DeviceId)
  | approveEnrollment (draw : SealDraw) (enrollId : EnrollId) (typedCode serverUrl : Text) (enrolledAt : I64)

/-- The method that runs a command. -/
def FacadeCommand.run : FacadeCommand → Command Unit
  | .syncOnce => driveSync E
  | .revokeDevice draw steps revoked => doRevokeDevice E cbor vaultKey draw steps revoked
  | .approveEnrollment draw enrollId typedCode serverUrl enrolledAt =>
    doApproveEnrollment E cbor vaultKey draw enrollId typedCode serverUrl enrolledAt

end Misty
