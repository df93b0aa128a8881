import Misty.Vault.Write

/- Merging what a peer wrote, and rotating the epoch.

   `merge_remote` verifies and decodes the whole batch, merges it into copies,
   prepares the rows, and only then opens its transaction: `mergeStaged` is the
   first three phases, and the rest is `settle`.

   Correspondence (Rust ↔ Lean):
     `sync::{RemoteChange, MergeReport, RewrapProgress}` ↔ the same names
     `Vault::merge_remote`, phase 1            ↔ `decodeChange`, `decodeChanges`
       phase 2                                 ↔ `Merging`, `mergeDecoded`
       phase 3, `Vault::records_for`           ↔ `recordsFor`
       phase 4                                 ↔ `adoptMerge`
     `Vault::rotate_epoch`                     ↔ `rotateEpoch`
     `Vault::rewrap_to_current_epoch`          ↔ `rewrapToCurrentEpoch` -/
namespace Misty

variable {S : Type} (E : Externals)

/-- One object as the server sent it. -/
structure RemoteChange where
  itemId : ItemId
  seq : Option I64
  version : Option Bytes
  envelope : Bytes
  deriving DecidableEq

/-- What a merge did. -/
structure MergeReport where
  applied : Nat
  ignored : Nat
  itemsWritten : List ItemId
  groupsWritten : List GroupId
  conflicts : List Conflict
  deriving DecidableEq

/-- How far a rewrap has come. -/
structure RewrapProgress where
  rewrapped : Nat
  remaining : Nat
  deriving DecidableEq

/-! ## Verifying and decoding -/

/-- One change of phase 1: what it carries, or nothing for a kind the vault does not
model. The kind is looked at before the signature. -/
def decodeChange (vaultKey : ByteArr 32) (roster : Roster) (change : RemoteChange) :
    Result (Option Decoded) := do
  let envelope ← liftCrypto (Envelope.parse change.envelope)
  let header := envelope.header
  if header.kind ≠ .item ∧ header.kind ≠ .group then return none
  let key ← liftCrypto (epochKey E.prims vaultKey header.epoch)
  let payload ← liftCrypto (Envelope.openWith E.prims change.envelope change.itemId key roster)
  let object ← decodePayload E.cbor header.kind payload
  if object.itemId ≠ change.itemId then throw (.idMismatch change.itemId object.itemId)
  return some object

/-- Phase 1: the decoded changes in order, and how many were ignored. -/
def decodeChanges (vaultKey : ByteArr 32) (roster : Roster) :
    List RemoteChange → Result (List (RemoteChange × Decoded) × Nat)
  | [] => .ok ([], 0)
  | change :: rest => do
    let object ← decodeChange E vaultKey roster change
    let (decoded, ignored) ← decodeChanges vaultKey roster rest
    match object with
    | none => return (decoded, ignored + 1)
    | some o => return ((change, o) :: decoded, ignored)

/-! ## Merging into copies -/

/-- The copies phase 2 works on. -/
structure Merging where
  items : ItemSet
  groups : GroupMap
  conflicts : List Conflict
  touchedItems : List ItemId
  touchedGroups : List GroupId

namespace Merging

/-- One object merged into the copies. -/
def merge (fork : ForkIds) (self : Merging) : Decoded → Result Merging
  | .item x =>
    match self.items.absorb fork x self.conflicts with
    | (.error e, _, _) => .error e
    | (.ok ids, items, conflicts) =>
      .ok { self with items := items, conflicts := conflicts, touchedItems := self.touchedItems ++ ids }
  | .group g =>
    match self.groups.get g.id with
    | some own => do
      let merged ← own.merge g
      return { self with
        groups := self.groups.insert merged
        touchedGroups := self.touchedGroups ++ [g.id] }
    | none =>
      .ok { self with groups := self.groups.insert g, touchedGroups := self.touchedGroups ++ [g.id] }

/-- The model of the copies holds the object. -/
def Holds (self : Merging) : Decoded → Prop
  | .item x => self.items.get x.id = some x
  | .group g => self.groups.get g.id = some g

instance (self : Merging) : (o : Decoded) → Decidable (self.Holds o)
  | .item _ => inferInstanceAs (Decidable (_ = _))
  | .group _ => inferInstanceAs (Decidable (_ = _))

end Merging

/-- Phase 2 over all decoded changes. -/
def mergeDecoded (fork : ForkIds) : List (RemoteChange × Decoded) → Merging → Result Merging
  | [], m => .ok m
  | (_, o) :: rest, m => do
    let m ← m.merge fork o
    mergeDecoded fork rest m

/-- `sort_unstable` and `dedup` of group ids. -/
def sortDedupGroups (ids : List GroupId) : List GroupId :=
  (sortDedup (ids.map GroupId.asItemId)).map GroupId.fromItemId

/-- The touched ids, items first, each with what the copies hold there. -/
def Merging.touched (self : Merging) : List (Result Decoded) :=
  (sortDedup self.touchedItems).map (fun id =>
    match self.items.get id with
    | some x => .ok (.item x)
    | none => .error (.noSuchItem id)) ++
  (sortDedupGroups self.touchedGroups).map (fun id =>
    match self.groups.get id with
    | some g => .ok (.group g)
    | none => .error (.noSuchGroup id))

/-- The change whose envelope can be stored as it is: the last one that carried
exactly what the copies now hold for the object. -/
def verbatim (decoded : List (RemoteChange × Decoded)) (m : Merging) (o : Decoded) : Option RemoteChange :=
  ((decoded.filter (fun p => p.2.kind = o.kind ∧ p.2.itemId = o.itemId ∧ m.Holds p.2)).getLast?).map
    Prod.fst

namespace Vault

variable (amb : Ambient)

/-- The row of one touched object. -/
def recordFor [VaultStore S] (decoded : List (RemoteChange × Decoded)) (m : Merging) (o : Decoded) :
    Io (Vault S) StoredEnvelope :=
  match verbatim decoded m o with
  | some change => pure {
      itemId := o.itemId
      kind := o.kind
      seq := change.seq
      version := change.version
      envelope := change.envelope
      hlcMax := o.maxHlc }
  | none => record E amb o

/-- The loops of `records_for`: the touched objects and their rows. -/
def recordAll [VaultStore S] (decoded : List (RemoteChange × Decoded)) (m : Merging) :
    List (Result Decoded) → Io (Vault S) (List (Decoded × StoredEnvelope))
  | [] => pure []
  | touched :: rest => do
    let o ← liftExcept touched
    let record ← recordFor E amb decoded m o
    let records ← recordAll decoded m rest
    return (o, record) :: records

def recordsFor [VaultStore S] (decoded : List (RemoteChange × Decoded)) (m : Merging) :
    Io (Vault S) (List (Decoded × StoredEnvelope)) :=
  recordAll E amb decoded m m.touched

/-- Phase 4. The clock is pulled past everything that was touched. -/
def adoptMerge (m : Merging) (touched : List Decoded) (self : Vault S) : Vault S :=
  { self with
    hlc := touched.foldl (fun clock o => clock.observeAll o.everyHlc) self.hlc
    items := m.items
    groups := m.groups
    conflicts := m.conflicts.foldl (fun seen c => if c ∈ seen then seen else seen ++ [c]) self.conflicts }

/-- Phases 1 to 3. -/
def mergeStaged [VaultStore S] (changes : List RemoteChange) :
    Io (Vault S) (Staged S × MergeReport) := do
  let self ← get
  let (decoded, ignored) ← liftExcept (decodeChanges E self.vaultKey self.roster changes)
  let m ← liftExcept (mergeDecoded (vaultForkIds E self.vaultKey) decoded
    ⟨self.items, self.groups, [], [], []⟩)
  let records ← recordsFor E amb decoded m
  return (⟨records.map (fun p => .put p.2), adoptMerge m (records.map Prod.fst)⟩, {
    applied := decoded.length
    ignored := ignored
    itemsWritten := sortDedup m.touchedItems
    groupsWritten := sortDedupGroups m.touchedGroups
    conflicts := m.conflicts })

def mergeRemote [VaultStore S] (changes : List RemoteChange) : Io (Vault S) MergeReport := do
  let (staged, report) ← mergeStaged E amb changes
  settle staged
  return report

/-! ## Rotation -/

def rotateEpoch [VaultStore S] : Io (Vault S) U32 := do
  let self ← get
  if h : self.epoch.val + 1 < 2 ^ 32 then
    let next : U32 := ⟨self.epoch.val + 1, h⟩
    onStore (transaction (VaultStore.setEpoch next))
    modify (fun self => { self with epoch := next })
    return next
  else throw .epochExhausted

/-- The rows sealed at another epoch, with the kind in their headers. -/
def staleRows (epoch : U32) : List StoredEnvelope → Result (List (ItemId × EnvelopeKind))
  | [] => .ok []
  | record :: rest => do
    let envelope ← liftCrypto (Envelope.parse record.envelope)
    let stale ← staleRows epoch rest
    return if envelope.header.epoch ≠ epoch then (record.itemId, envelope.header.kind) :: stale else stale

/-- The object a stale row is about: an item, or else a group. -/
def staleObject (self : Vault S) (id : ItemId) (kind : EnvelopeKind) : Result Decoded :=
  if kind = .item then (self.item id).map .item else (self.group (.fromItemId id)).map .group

/-- One row sealed again, in a transaction of its own. The model does not change. -/
def rewrapOne [VaultStore S] (id : ItemId) (kind : EnvelopeKind) : Io (Vault S) Unit := do
  let self ← get
  let o ← liftExcept (self.staleObject id kind)
  let record ← record E amb o
  settle ⟨[.put record], fun self => self⟩

/-- The loop of `rewrap_to_current_epoch`. -/
def rewrapLoop [VaultStore S] : List (ItemId × EnvelopeKind) → Io (Vault S) Unit
  | [] => pure ()
  | (id, kind) :: rest => do
    rewrapOne E amb id kind
    rewrapLoop rest

def rewrapToCurrentEpoch [VaultStore S] (limit : Nat) : Io (Vault S) RewrapProgress := do
  let records ← onStore VaultStore.loadAll
  let self ← get
  let stale ← liftExcept (staleRows self.epoch records)
  let sorted := stale.insertionSort (fun a b => a.1 ≤ b.1)
  let chosen := sorted.take limit
  rewrapLoop E amb chosen
  return ⟨chosen.length, stale.length - chosen.length⟩

end Vault

/-- The object as device `d` of the sample vault seals it at an epoch. -/
def RemoteChange.sample (d : Byte) (epoch : U32) (o : Decoded) : RemoteChange where
  itemId := o.itemId
  seq := none
  version := none
  envelope := ({ Vault.sample () [d] with device := .sample d }.sealObject E (.sample 5) o epoch).toOption.getD []

end Misty
