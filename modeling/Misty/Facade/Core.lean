import Misty.Facade.Input
import Misty.Vault.Operation

/- The core of the facade: the task that owns the vault and the engine, and what each
   command does to it. A command is a program that calls the host's clock, what a vault
   draws, the generator of codes, and through the engine the state store and the server;
   the vault itself is the core's own.

   Correspondence (Rust ↔ Lean):
     `LifecycleEvent`, `LockState`             ↔ the same names
     `Lifecycle`, `Core`                       ↔ `Core.Lifecycle`, `Core.Session`, `Core`
     `Command`                                 ↔ `Core.Command`
     `Core::{check_deadline, extend_deadline, relock, apply_lifecycle, lock_state}`
                                               ↔ the same names, over a reading of the clock
     `Core::{unlock, do_*, reopen_under}`      ↔ the same names, in `Core`
     the arm of `Core::run` for a command      ↔ `Core.answer`
   What an answer carries besides success, the lock state or an error is left out: what
   a reader returns is the vault's. -/
namespace Misty

open Dto (NewItemInput EditInput)

def I64.saturatingAdd (a b : I64) : I64 := I64.saturate (a.val + b.val)

inductive LifecycleEvent where
  | backgrounded
  | screenLocked
  | willSleep
  | userActivity
  deriving DecidableEq

structure LockState where
  locked : Bool
  deriving DecidableEq

/-- What `Lifecycle::Unlocked` holds. -/
structure Core.Session (S : Type) where
  vault : Vault S
  vaultKey : ByteArr 32
  deadlineMs : I64

inductive Core.Lifecycle (S : Type) where
  | locked (store : S)
  | unlocked (session : Core.Session S)
  | poisoned

structure Core (S : Type) where
  lifecycle : Core.Lifecycle S
  engine : SyncEngine
  device : DeviceIdentity
  roster : Roster
  timeoutMs : I64
  lastNowMs : I64

inductive SortKey where
  | manual
  | issuer
  | lastUsed
  | mostUsed
  | created
  deriving DecidableEq

namespace Core

/-- `Command`, without where the reply goes. -/
inductive Command where
  | unlock (keyMaterial : Bytes)
  | lock
  | lockStatus
  | poll
  | reportLifecycle (event : LifecycleEvent)
  | list
  | get (id : Text)
  | item (id : Text)
  | add (input : NewItemInput)
  | generateCode (id : Text)
  | syncOnce
  | search (query : Text)
  | sorted (key : SortKey)
  | trash
  | groups
  | group (id : Text)
  | conflicts
  | trashItem (id : Text)
  | restoreItem (id : Text)
  | deleteItem (id : Text)
  | recordUse (id : Text)
  | addGroup (name : Text)
  | deleteGroup (id : Text)
  | update (id : Text) (edit : EditInput)
  | repairSecret (id : Text) (secret : Bytes)
  | advanceHotpCounter (id : Text)
  | setHotpCounter (id : Text) (counter : U64)
  | sweepTrash
  | purgeTombstones
  | mergeDuplicate (existing : Text) (input : NewItemInput)
  | revokeDevice (deviceId : Text)
  | approveEnrollment (enrollId typedCode serverUrl : Text) (enrolledAt : I64)
  | shutdown

/-- What a reply carries. -/
inductive Reply where
  | done
  | state (state : LockState)
  | result (r : Except FacadeError Unit)
  deriving DecidableEq

/-! ## Lock state -/

variable {S : Type}

/-- The vault is open. -/
def Unlocked (self : Core S) : Prop := ∃ session, self.lifecycle = .unlocked session

def lockState (self : Core S) : LockState where
  locked := match self.lifecycle with
    | .unlocked _ => false
    | _ => true

def relock (self : Core S) : Core S :=
  match self.lifecycle with
  | .unlocked session => { self with lifecycle := .locked session.vault.store }
  | _ => self

/-- `check_deadline`, on a reading of the host's clock. -/
def checkDeadline (now : I64) (self : Core S) : Core S :=
  let checked := { self with lastNowMs := now }
  match self.lifecycle with
  | .unlocked session =>
    -- a clock that ran backwards is fail-closed, not clamped
    if now.val < self.lastNowMs.val ∨ session.deadlineMs.val ≤ now.val then checked.relock else checked
  | _ => checked

/-- `extend_deadline`, on a reading of the host's clock. -/
def extendDeadline (now : I64) (self : Core S) : Core S :=
  match self.lifecycle with
  | .unlocked session =>
    { self with
      lifecycle := .unlocked { session with deadlineMs := I64.saturatingAdd now self.timeoutMs } }
  | _ => self

/-- The vault of an unlocked core, replaced. -/
def withVault (self : Core S) (vault : Vault S) : Core S :=
  match self.lifecycle with
  | .unlocked session => { self with lifecycle := .unlocked { session with vault := vault } }
  | _ => self

/-- `Lifecycle::Unlocked` over a vault just opened. -/
def opened (self : Core S) (vault : Vault S) (vaultKey : ByteArr 32) (now : I64) : Core S :=
  { self with lifecycle := .unlocked ⟨vault, vaultKey, I64.saturatingAdd now self.timeoutMs⟩ }

theorem not_unlocked_relock (core : Core S) : ¬ core.relock.Unlocked := by
  intro h
  obtain ⟨session, h⟩ := h
  unfold relock at h
  split at h
  · cases h
  · next hne => exact hne session h

theorem unlocked_extendDeadline {core : Core S} {now : I64} : (core.extendDeadline now).Unlocked ↔ core.Unlocked := by
  unfold extendDeadline
  cases h : core.lifecycle with
  | unlocked session => simp [Unlocked, h]
  | locked store => simp [Unlocked, h]
  | poisoned => simp [Unlocked, h]

/-- A checked core is the one it was, but for the reading it has seen, or a locked one. -/
theorem lifecycle_checkDeadline {core : Core S} {now : I64} {session : Session S}
    (h : (core.checkDeadline now).lifecycle = .unlocked session) :
    core.lifecycle = .unlocked session ∧ core.lastNowMs.val ≤ now.val ∧ now.val < session.deadlineMs.val := by
  unfold checkDeadline at h
  cases hl : core.lifecycle with
  | unlocked held =>
    simp only [hl] at h
    split at h
    · exact absurd ⟨session, h⟩ (not_unlocked_relock _)
    · next hlive =>
      cases h
      exact ⟨rfl, by omega, by omega⟩
  | locked store => simp [hl] at h
  | poisoned => simp [hl] at h

/-! ## Calls -/

/-- What a command calls. -/
inductive Ask (S : Type) where
  /-- `self.host.now_ms()`. -/
  | now
  /-- What one call of the vault draws: readings of its clock, random bytes. -/
  | ambient
  /-- What sealing a roster draws. -/
  | seal
  /-- How many times the loop over `rotate_step` goes round before its task is stopped. -/
  | turns
  /-- `Vault::open`. -/
  | openVault (store : S) (vaultKey : ByteArr 32) (device : DeviceIdentity) (roster : Roster)
  /-- `OtpConfig::generate`. -/
  | generate (otp : OtpConfig)
  /-- The state store, the server and the relay of enrollments. -/
  | outside (q : FacadeQuery)

/-- What it is told. -/
abbrev Ask.Answer : Ask S → Type
  | .now => I64
  | .ambient => Ambient
  | .seal => SealDraw
  | .turns => Nat
  | .openVault _ _ _ _ => Result (Vault S)
  | .generate _ => Except OtpError Unit
  | .outside q => q.Answer

/-- What a core does next. -/
abbrev Steps (S α : Type) := Calls (Ask S) Ask.Answer FacadeError (Core S) α

/-- A method of the core. -/
abbrev Act (S α : Type) := Prog (Ask S) Ask.Answer FacadeError (Core S) α

def nowMs : Act S I64 := Prog.call Ask.now

/-- `Vault::open`, with this device's identity. -/
def openVault (store : S) (vaultKey : ByteArr 32) (roster : Roster) : Act S (Vault S) := do
  let self ← get
  let opened : Result (Vault S) ← Prog.call (Ask.openVault store vaultKey self.device roster)
  Prog.ofExcept (opened.mapError .vault)

/-- `self.extend_deadline()`. -/
def extend : Act S Unit := do
  let now ← nowMs
  modify (extendDeadline now)

/-- `self.check_deadline()`. -/
def check : Act S Unit := do
  let now ← nowMs
  modify (checkDeadline now)

/-- `let Lifecycle::Unlocked { .. } = … else`, and `self.vault()?`. -/
def session : Act S (Session S) := do
  let self ← get
  match self.lifecycle with
  | .unlocked session => return session
  | _ => throw .locked

/-- What a read of the vault says. -/
def reading {α : Type} (f : Vault S → Result α) : Act S α := do
  let session ← session
  Prog.ofExcept ((f session.vault).mapError .vault)

/-- A call of the vault with its outcome as a value. The vault a failure leaves is kept. -/
def asking {α : Type} (x : Ambient → Io (Vault S) α) : Act S (Result α) := do
  let session ← session
  let amb : Ambient ← Prog.call Ask.ambient
  match x amb session.vault with
  | .ok a vault =>
    modify fun self => self.withVault vault
    return .ok a
  | .error e vault =>
    modify fun self => self.withVault vault
    return .error e

/-- `self.vault_mut()?.f(..)?`. -/
def calling {α : Type} (x : Ambient → Io (Vault S) α) : Act S α := do
  let r ← asking x
  Prog.ofExcept (r.mapError .vault)

section Engine

variable [VaultStore S] (E : Externals)

/-- What the core does for a call of its engine: the vault is its own, the rest is outside. -/
def answering : (q : FacadeQuery) → Act S q.Answer
  | .engine .loadAll => asking fun _ => Vault.onStore VaultStore.loadAll
  | .engine (.stored itemId) => asking fun _ => Vault.onStore (VaultStore.get itemId)
  | .engine (.mergeRemote changes) => asking fun amb => Vault.mergeRemote E amb changes
  | .engine .epoch => do
    let session ← session
    return session.vault.epoch
  | .engine .rotateEpoch => asking fun _ => Vault.rotateEpoch
  | .engine (.rewrap limit) => asking fun amb => Vault.rewrapToCurrentEpoch E amb limit
  | .engine (.save state) => Prog.call (Ask.outside (.engine (.save state)))
  | .engine (.send request) => Prog.call (Ask.outside (.engine (.send request)))
  | .fetch enrollId => Prog.call (Ask.outside (.fetch enrollId))
  | .sealGrant request typedCode epoch serverUrl roster =>
    Prog.call (Ask.outside (.sealGrant request typedCode epoch serverUrl roster))
  | .deliver enrollId grant => Prog.call (Ask.outside (.deliver enrollId grant))
  | .reopen roster => Prog.call (Ask.outside (.reopen roster))

/-- The core as its engine's methods see it. -/
def facade (self : Core S) : Facade where
  lifecycle := match self.lifecycle with
    | .locked _ => .locked
    | .unlocked _ => .unlocked
    | .poisoned => .poisoned
  engine := self.engine
  roster := self.roster

/-- A method that reaches the server. -/
def onFacade {α : Type} (x : Misty.Command α) : Act S α := fun self =>
  (x self.facade).handle (answering E) (fun s self => { self with engine := s.engine }) self

end Engine

/-! ## Unlocking -/

def unlock (keyMaterial : Bytes) : Act S Unit := do
  let self ← get
  match self.lifecycle with
  | .unlocked _ => extend
  | .poisoned => throw (.internal "facade in a poisoned state")
  | .locked store =>
    if h : keyMaterial.length = 32 then
      let vaultKey : ByteArr 32 := ⟨keyMaterial, h⟩
      let vault ← openVault store vaultKey self.roster
      let now ← nowMs
      modify fun self => self.opened vault vaultKey now
    else throw (.internal "vault key must be 32 bytes")

/-- `reopen_under`. The roster is the new one also when the vault does not open under it. -/
def reopenUnder (roster : Roster) : Act S Unit := do
  let session ← session
  modify fun self => { self with lifecycle := .poisoned, roster := roster }
  let vault ← openVault session.vault.store session.vaultKey roster
  let now ← nowMs
  modify fun self => self.opened vault session.vaultKey now

/-! ## Answers -/

def applyLifecycle : LifecycleEvent → Act S Unit
  | .backgrounded | .screenLocked | .willSleep => modify relock
  | .userActivity => extend

/-- An answer that carries a result. -/
def replying (x : Act S Unit) : Act S Reply := do
  let r ← x.attempt
  return .result r

/-- `lock_state`, as an answer. -/
def stating : Act S Reply := do
  let self ← get
  return .state self.lockState

/-! ## Readers -/

/-- A reader: what it returns is the vault's, and whether it fails. -/
def reads (f : Vault S → Result Unit) : Act S Unit := do
  reading f
  extend

def doList : Act S Unit := reads fun _ => .ok ()

def doGet (id : Text) : Act S Unit := do
  let _ ← Prog.ofExcept (parseItemId id)
  reads fun _ => .ok ()

def doItem (id : Text) : Act S Unit := do
  let iid ← Prog.ofExcept (parseItemId id)
  reads fun v => (v.item iid).map (fun _ => ())

def doGenerate (id : Text) : Act S Unit := do
  let iid ← Prog.ofExcept (parseItemId id)
  let x ← reading fun v => v.item iid
  let otp ← Prog.ofExcept (x.otp.mapError .otp)
  let code : Except OtpError Unit ← Prog.call (Ask.generate otp)
  Prog.ofExcept (code.mapError .otp)
  extend

def doSearch (_query : Text) : Act S Unit := reads fun _ => .ok ()

def doSorted (_key : SortKey) : Act S Unit := reads fun _ => .ok ()

def doTrash : Act S Unit := reads fun _ => .ok ()

def doGroups : Act S Unit := reads fun _ => .ok ()

def doGroup (id : Text) : Act S Unit := do
  let gid ← Prog.ofExcept (parseGroupId id)
  reads fun v => (v.group gid).map (fun _ => ())

def doConflicts : Act S Unit := reads fun _ => .ok ()

/-! ## Writers -/

/-- A writer. -/
def writes {α : Type} (x : Ambient → Io (Vault S) α) : Act S Unit := do
  let _ ← calling x
  extend

/-- A writer of one item. -/
def writesItem {α : Type} (id : Text) (x : ItemId → Ambient → Io (Vault S) α) : Act S Unit := do
  let iid ← Prog.ofExcept (parseItemId id)
  writes (x iid)

/-- `for x in xs`. -/
def each (f : Text → Act S Unit) : List Text → Act S Unit
  | [] => pure ()
  | x :: rest => do
    f x
    each f rest

/-- A set replaced: what it holds now is compared as strings with what is wanted. -/
def replacing (iid : ItemId) (desired : Option (List Text)) (current : Item → List Text)
    (add remove : Text → Act S Unit) : Act S Unit :=
  match desired with
  | none => pure ()
  | some desired => do
    let held ← reading fun v => (v.item iid).map current
    each add (stringDiff held desired).1
    each remove (stringDiff held desired).2

section Writers

variable [VaultStore S] (E : Externals)

def doAdd (input : NewItemInput) : Act S Unit := do
  let new ← Prog.ofExcept (buildNewItem E.toLowercase input)
  writes fun amb => Vault.add E amb new

def doTrashItem (id : Text) : Act S Unit := writesItem id fun iid amb => Vault.trashItem E amb iid

def doRestoreItem (id : Text) : Act S Unit := writesItem id fun iid amb => Vault.restoreItem E amb iid

def doDeleteItem (id : Text) : Act S Unit := writesItem id fun iid amb => Vault.deleteItem E amb iid

def doRecordUse (id : Text) : Act S Unit := writesItem id fun iid amb => Vault.recordUse E amb iid

def doAddGroup (name : Text) : Act S Unit := writes fun amb => Vault.addGroup E amb name

def doDeleteGroup (id : Text) : Act S Unit := do
  let gid ← Prog.ofExcept (parseGroupId id)
  writes fun amb => Vault.deleteGroup E amb gid

def doRepairSecret (id : Text) (secret : Bytes) : Act S Unit :=
  writesItem id fun iid amb => Vault.repairSecret E amb iid ⟨secret⟩

def doAdvanceHotp (id : Text) : Act S Unit := writesItem id fun iid amb => Vault.advanceHotpCounter E amb iid

def doSetHotp (id : Text) (counter : U64) : Act S Unit :=
  writesItem id fun iid amb => Vault.setHotpCounter E amb iid counter

def doSweepTrash : Act S Unit := writes fun amb => Vault.sweepTrash E amb

def doPurgeTombstones : Act S Unit := writes fun amb => Vault.purgeTombstones amb

def doMergeDuplicate (existing : Text) (input : NewItemInput) : Act S Unit := do
  let iid ← Prog.ofExcept (parseItemId existing)
  let new ← Prog.ofExcept (buildNewItem E.toLowercase input)
  writes fun amb => Vault.mergeDuplicate E amb iid new

/-! ### Editing -/

/-- `self.vault_mut()?.add_to_group(&iid, parse_group_id(&g)?)?`. -/
def addGroupText (iid : ItemId) (g : Text) : Act S Unit := do
  let gid ← Prog.ofExcept (parseGroupId g)
  calling fun amb => Vault.addToGroup E amb iid gid

/-- `self.vault_mut()?.remove_from_group(&iid, parse_group_id(&g)?)?`. -/
def removeGroupText (iid : ItemId) (g : Text) : Act S Unit := do
  let gid ← Prog.ofExcept (parseGroupId g)
  calling fun amb => Vault.removeFromGroup E amb iid gid

def doUpdate (id : Text) (edit : EditInput) : Act S Unit := do
  let iid ← Prog.ofExcept (parseItemId id)
  let built ← Prog.ofExcept (buildEdit edit)
  calling fun amb => Vault.update E amb iid built
  replacing iid edit.groups (fun x => x.groups.iter.map GroupId.toHex) (addGroupText E iid) (removeGroupText E iid)
  replacing iid edit.tags (fun x => x.tags.iter) (fun t => calling fun amb => Vault.addTag E amb iid t)
    (fun t => calling fun amb => Vault.removeTag E amb iid t)
  replacing iid edit.origins (fun x => x.origins.iter) (fun o => calling fun amb => Vault.addOrigin E amb iid o)
    (fun o => calling fun amb => Vault.removeOrigin E amb iid o)
  extend

/-! ## Devices -/

variable (cbor : Roster → Option Bytes)

def doRevokeDevice (deviceId : Text) : Act S Unit := do
  let revoked ← Prog.ofExcept (parseDeviceId deviceId)
  let session ← session
  let self ← get
  let draw : SealDraw ← Prog.call Ask.seal
  match ← onFacade E (onEngine (Misty.revokeDevice E cbor draw self.roster revoked session.vaultKey)) with
  | .revoked _ successor _ =>
    let turns : Nat ← Prog.call Ask.turns
    onFacade E (drain turns)
    reopenUnder successor
    extend
  | .rosterSuperseded _ _ => throw (.internal SUPERSEDED)

def doApproveEnrollment (enrollId typedCode serverUrl : Text) (enrolledAt : I64) : Act S Unit := do
  let eid ← Prog.ofExcept (parseEnrollId enrollId)
  match ← onFacade E (fetchApproval ⟨eid⟩) with
  | none => throw (.notFound "no pending enrollment")
  | some approval =>
    let session ← session
    let self ← get
    let draw : SealDraw ← Prog.call Ask.seal
    match ← onFacade E (approveEnrollment E cbor session.vaultKey draw self.roster approval typedCode serverUrl
        enrolledAt) with
    | .approved successor _ =>
      reopenUnder successor
      extend
    | .rosterSuperseded _ _ => throw (.internal SUPERSEDED)

/-! ## Commands -/

/-- The arm of `run` for a command. A sync is answered here only when the vault is locked. -/
def answer : Command → Act S Reply
  | .unlock keyMaterial => replying (unlock keyMaterial)
  | .lock => do
    modify relock
    return .done
  | .lockStatus | .poll => stating
  | .reportLifecycle event => do
    applyLifecycle event
    stating
  | .list => replying doList
  | .get id => replying (doGet id)
  | .item id => replying (doItem id)
  | .add input => replying (doAdd E input)
  | .generateCode id => replying (doGenerate id)
  | .syncOnce => return .result (.error .locked)
  | .search query => replying (doSearch query)
  | .sorted key => replying (doSorted key)
  | .trash => replying doTrash
  | .groups => replying doGroups
  | .group id => replying (doGroup id)
  | .conflicts => replying doConflicts
  | .trashItem id => replying (doTrashItem E id)
  | .restoreItem id => replying (doRestoreItem E id)
  | .deleteItem id => replying (doDeleteItem E id)
  | .recordUse id => replying (doRecordUse E id)
  | .addGroup name => replying (doAddGroup E name)
  | .deleteGroup id => replying (doDeleteGroup E id)
  | .update id edit => replying (doUpdate E id edit)
  | .repairSecret id secret => replying (doRepairSecret E id secret)
  | .advanceHotpCounter id => replying (doAdvanceHotp E id)
  | .setHotpCounter id counter => replying (doSetHotp E id counter)
  | .sweepTrash => replying (doSweepTrash E)
  | .purgeTombstones => replying doPurgeTombstones
  | .mergeDuplicate existing input => replying (doMergeDuplicate E existing input)
  | .revokeDevice deviceId => replying (doRevokeDevice E cbor deviceId)
  | .approveEnrollment enrollId typedCode serverUrl enrolledAt =>
    replying (doApproveEnrollment E cbor enrollId typedCode serverUrl enrolledAt)
  | .shutdown => return .done

end Writers

end Core

end Misty
