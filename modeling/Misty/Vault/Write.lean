import Misty.Vault.State

/- Local writes. Each of them works out a changed copy of one object, encodes and
   seals it, stores the row inside a transaction, and only then lets the model have
   the copy. `Staged` is what an operation has in hand when it reaches its
   transaction, and `settle` is the rest: the transaction, then the model.

   Correspondence (Rust ↔ Lean):
     `Vault::{now_ms, tick}`                   ↔ `nowMs`, `tick`
     `Vault::{seal_item, seal_group}`          ↔ `sealItem`, `sealGroup` (`sealObject`)
     `Vault::{item_record, group_record}`      ↔ `itemRecord`, `groupRecord` (`record`)
     `Vault::{commit_item, commit_group}`      ↔ `commitItem`, `commitGroup` (`commit`)
     `Vault::mutate_item`                      ↔ `mutateItem`, up to its commit
       `mutated`
     `check_room`, `Vault::check_same_site`    ↔ `checkRoom`, `checkSameSite`
     the public operations of `write.rs`       ↔ the same names
   Each operation is split where its commit begins: `fooStaged` for what comes
   before, or the copy it commits. -/
namespace Misty

variable {S : Type}

/-- A row written or deleted. -/
inductive Write where
  | put (record : StoredEnvelope)
  | remove (id : ItemId)
  deriving DecidableEq

/-- The store call of one write. -/
def Write.run [VaultStore S] : Write → Io S Unit
  | put r => VaultStore.put r
  | remove id => VaultStore.remove id

/-- A loop of store calls. -/
def writeAll [VaultStore S] : List Write → Io S Unit
  | [] => pure ()
  | w :: rest => do
    w.run
    writeAll rest

/-- What an operation has in hand when it reaches its transaction. -/
structure Staged (S : Type) where
  writes : List Write
  adopt : Vault S → Vault S

/-- `i64::try_from(now).unwrap_or(i64::MAX)`. -/
def nowMs (now : U64) : I64 := I64.saturate now.val

namespace Vault

/-- The transaction, then the model. -/
def settle [VaultStore S] (staged : Staged S) : Io (Vault S) Unit := do
  onStore (transaction (writeAll staged.writes))
  modify staged.adopt

def tick (now : U64) : Io (Vault S) Hlc := fun self =>
  match self.hlc.tick now with
  | .ok (hlc, clock) => .ok hlc { self with hlc := clock }
  | .error e => .error e self

variable (E : Externals) (amb : Ambient)

/-- Encodes and seals an object. -/
def sealObject (self : Vault S) (o : Decoded) (epoch : U32) : Result Bytes := do
  let payload ← o.encode E.cbor
  let key ← liftCrypto (epochKey E.prims self.vaultKey epoch)
  liftCrypto (sealEnvelope E.prims o.kind epoch o.itemId payload key self.device
    (amb.draw o.kind o.itemId))

def sealItem (self : Vault S) (x : Item) (epoch : U32) : Result Bytes :=
  self.sealObject E amb (.item x) epoch

def sealGroup (self : Vault S) (g : Group) (epoch : U32) : Result Bytes :=
  self.sealObject E amb (.group g) epoch

/-- The object in the model, replacing the one under its id. -/
def adopt (o : Decoded) (self : Vault S) : Vault S :=
  match o with
  | .item x => { self with items := self.items.replace x }
  | .group g => { self with groups := self.groups.insert g }

/-- The row of an object sealed now, which keeps the server's coordinates. -/
def record [VaultStore S] (o : Decoded) : Io (Vault S) StoredEnvelope := do
  let previous ← onStore (VaultStore.get o.itemId)
  let self ← get
  let envelope ← liftExcept (self.sealObject E amb o self.epoch)
  return {
    itemId := o.itemId
    kind := o.kind
    seq := previous.bind StoredEnvelope.seq
    version := previous.bind StoredEnvelope.version
    envelope := envelope
    hlcMax := o.maxHlc }

def itemRecord [VaultStore S] (x : Item) : Io (Vault S) StoredEnvelope := record E amb (.item x)

def groupRecord [VaultStore S] (g : Group) : Io (Vault S) StoredEnvelope := record E amb (.group g)

/-- A commit up to its transaction. -/
def staged [VaultStore S] (o : Decoded) : Io (Vault S) (Staged S) := do
  let record ← record E amb o
  return ⟨[.put record], adopt o⟩

/-- Stores an object and adopts it. -/
def commit [VaultStore S] (o : Decoded) : Io (Vault S) Unit := staged E amb o >>= settle

def commitItem [VaultStore S] (x : Item) : Io (Vault S) Unit := commit E amb (.item x)

def commitGroup [VaultStore S] (g : Group) : Io (Vault S) Unit := commit E amb (.group g)

/-- `Vault::mutate_item` up to its commit. -/
def mutated (id : ItemId) (now : U64) (change : Item → Hlc → Result Item) : Io (Vault S) Item := do
  let self ← get
  let x ← liftExcept (self.item id)
  let hlc ← tick now
  liftExcept (change x hlc)

def mutateItem [VaultStore S] (id : ItemId) (now : U64) (change : Item → Hlc → Result Item) : Io (Vault S) Unit := do
  let x ← mutated id now change
  commitItem E amb x

/-! ## Adding and editing -/

def checkSameSite (self : Vault S) (new : NewItem) : Result Unit := do
  let cluster := self.sameSiteCluster E new.issuer new.account
  if let some existing := cluster.find? (fun x => x.secret = new.otp.secret) then
    throw (.duplicateAccount existing.id)
  let wanted := new.nickname.map (fold E.toLowercase)
  if let some existing := cluster.find? (fun x => x.nickname.value.map (fold E.toLowercase) = wanted) then
    throw (.ambiguousAccount existing.id)

/-- The item `add` commits. -/
def added (new : NewItem) : Io (Vault S) Item := do
  liftExcept new.validate
  let self ← get
  liftExcept (self.checkSameSite E new)
  let id ← liftExcept (liftCrypto amb.newId)
  let createdAt := nowMs (amb.clock 0)
  let hlc ← tick (amb.clock 1)
  return Item.create id new hlc createdAt

def add [VaultStore S] (new : NewItem) : Io (Vault S) ItemId := do
  let x ← added E amb new
  commitItem E amb x
  return x.id

/-- What `merge_duplicate` writes into the item. The nickname is set as given. -/
def duplicateChange (new : NewItem) (x : Item) (hlc : Hlc) : Item :=
  { x with
    tags := x.tags.addAll new.tags hlc
    origins := x.origins.addAll new.origins hlc
    groups := x.groups.addAll new.groups hlc
    nickname := x.nickname.setSome (new.nickname.map some) hlc
    note := x.note.setSome (new.note.map some) hlc
    icon := x.icon.setSome new.icon hlc
    color := x.color.setSome (new.color.map some) hlc
    hotpCounter := x.hotpCounter.set new.otp.counter }

/-- The item `merge_duplicate` commits. -/
def duplicated (existing : ItemId) (new : NewItem) : Io (Vault S) Item := do
  liftExcept new.validate
  let self ← get
  let x ← liftExcept (self.item existing)
  if x.secret ≠ new.otp.secret then throw (.secretIsImmutable existing)
  mutated existing (amb.clock 0) (fun x hlc => .ok (duplicateChange new x hlc))

def mergeDuplicate [VaultStore S] (existing : ItemId) (new : NewItem) : Io (Vault S) Unit := do
  let x ← duplicated amb existing new
  commitItem E amb x

/-- The item `update` commits. The check is made on the edited copy. -/
def updated (id : ItemId) (edit : Edit) : Io (Vault S) Item := do
  let candidate ← mutated id (amb.clock 0) (fun x hlc => edit.apply x hlc)
  let self ← get
  let cluster := self.sameSiteCluster E candidate.issuer.value candidate.account.value
  if let some other := cluster.find? (fun other => other.id ≠ candidate.id ∧
      other.nickname.value.map (fold E.toLowercase) =
        candidate.nickname.value.map (fold E.toLowercase)) then
    throw (.ambiguousAccount other.id)
  return candidate

def update [VaultStore S] (id : ItemId) (edit : Edit) : Io (Vault S) Unit := do
  let x ← updated E amb id edit
  commitItem E amb x

/-! ## Sets -/

def checkRoom (field : String) (stored : Nat) (alreadyPresent : Bool) : Result Unit :=
  if alreadyPresent ∨ stored < MAX_SET_ENTRIES then .ok ()
  else .error (.tooManyElements field MAX_SET_ENTRIES stored)

/-- The item `add_tag` commits. -/
def tagAdded (id : ItemId) (tag : Text) : Io (Vault S) Item := do
  liftExcept (checkRequiredLabel "tags" tag MAX_TAG_LEN)
  mutated id (amb.clock 0) (fun x hlc => do
    checkRoom "tags" x.tags.storedLen (x.tags.contains tag)
    return { x with tags := x.tags.add tag hlc })

def addTag [VaultStore S] (id : ItemId) (tag : Text) : Io (Vault S) Unit := do
  let x ← tagAdded amb id tag
  commitItem E amb x

def removeTag [VaultStore S] (id : ItemId) (tag : Text) : Io (Vault S) Unit :=
  mutateItem E amb id (amb.clock 0) (fun x hlc => .ok { x with tags := x.tags.remove tag hlc })

/-- The item `add_origin` commits. -/
def originAdded (id : ItemId) (origin : Text) : Io (Vault S) Item := do
  let origin := E.toLowercase (trim origin)
  liftExcept (checkRequiredLabel "origins" origin MAX_ORIGIN_LEN)
  mutated id (amb.clock 0) (fun x hlc => do
    checkRoom "origins" x.origins.storedLen (x.origins.contains origin)
    return { x with origins := x.origins.add origin hlc })

def addOrigin [VaultStore S] (id : ItemId) (origin : Text) : Io (Vault S) Unit := do
  let x ← originAdded E amb id origin
  commitItem E amb x

def removeOrigin [VaultStore S] (id : ItemId) (origin : Text) : Io (Vault S) Unit :=
  let origin := E.toLowercase (trim origin)
  mutateItem E amb id (amb.clock 0) (fun x hlc => .ok { x with origins := x.origins.remove origin hlc })

/-- The item `add_to_group` commits. -/
def groupAdded (id : ItemId) (g : GroupId) : Io (Vault S) Item := do
  let self ← get
  let _ ← liftExcept (self.group g)
  mutated id (amb.clock 0) (fun x hlc => do
    checkRoom "groups" x.groups.storedLen (x.groups.contains g)
    return { x with groups := x.groups.add g hlc })

def addToGroup [VaultStore S] (id : ItemId) (g : GroupId) : Io (Vault S) Unit := do
  let x ← groupAdded amb id g
  commitItem E amb x

def removeFromGroup [VaultStore S] (id : ItemId) (g : GroupId) : Io (Vault S) Unit :=
  mutateItem E amb id (amb.clock 0) (fun x hlc => .ok { x with groups := x.groups.remove g hlc })

/-! ## Use and counters, which carry no clock -/

/-- The item `record_use` commits. -/
def used (id : ItemId) : Io (Vault S) Item := do
  let now := nowMs (amb.clock 0)
  let self ← get
  let x ← liftExcept (self.item id)
  return { x with
    usage := x.usage.increment self.hlc.deviceId 1
    lastUsedAt := x.lastUsedAt.set (now : WithBot I64) }

def recordUse [VaultStore S] (id : ItemId) : Io (Vault S) Unit := do
  let x ← used amb id
  commitItem E amb x

/-- The item `set_hotp_counter` commits. -/
def counterSet (id : ItemId) (counter : U64) : Io (Vault S) Item := do
  let self ← get
  let x ← liftExcept (self.item id)
  return { x with hotpCounter := x.hotpCounter.set counter }

/-- The item `advance_hotp_counter` commits, and the counter it asks for. -/
def counterAdvanced (id : ItemId) : Io (Vault S) (Item × U64) := do
  let self ← get
  let x ← liftExcept (self.item id)
  let next := U64.saturatingAdd x.hotpCounter.value 1
  return ({ x with hotpCounter := x.hotpCounter.set next }, next)

def advanceHotpCounter [VaultStore S] (id : ItemId) : Io (Vault S) U64 := do
  let (x, next) ← counterAdvanced id
  commitItem E amb x
  return next

def setHotpCounter [VaultStore S] (id : ItemId) (counter : U64) : Io (Vault S) U64 := do
  let x ← counterSet id counter
  commitItem E amb x
  return x.hotpCounter.value

/-- The item `repair_secret` commits. -/
def secretRepaired (id : ItemId) (secret : SecretBytes) : Io (Vault S) Item := do
  let self ← get
  let x ← liftExcept (self.item id)
  let probe ← liftExcept (liftOtp x.otp)
  let _ ← liftExcept (liftOtp (probe.setSecret secret))
  return { x with secret := secret }

def repairSecret [VaultStore S] (id : ItemId) (secret : SecretBytes) : Io (Vault S) Unit := do
  let x ← secretRepaired id secret
  commitItem E amb x

/-! ## Trash and deletion -/

def trashItem [VaultStore S] (id : ItemId) : Io (Vault S) Unit :=
  let now := nowMs (amb.clock 0)
  mutateItem E amb id (amb.clock 1) (fun x hlc => .ok { x with trashedAt := x.trashedAt.set (some now) hlc })

def restoreItem [VaultStore S] (id : ItemId) : Io (Vault S) Unit :=
  mutateItem E amb id (amb.clock 0) (fun x hlc => .ok { x with trashedAt := x.trashedAt.set none hlc })

/-- What a delete writes: the tombstone replaces whatever was there. -/
def buried (reason : TombstoneReason) (x : Item) (hlc : Hlc) : Item :=
  { x with deleted := some ⟨hlc, reason⟩ }

def deleteItem [VaultStore S] (id : ItemId) : Io (Vault S) Unit :=
  mutateItem E amb id (amb.clock 0) (fun x hlc => .ok (buried .user x hlc))

/-- The loop of `sweep_trash`. -/
def sweepLoop [VaultStore S] : List ItemId → Nat → Io (Vault S) Unit
  | [], _ => pure ()
  | id :: rest, reading => do
    mutateItem E amb id (amb.clock reading) (fun x hlc => .ok (buried .trashExpired x hlc))
    sweepLoop rest (reading + 1)

def sweepTrash [VaultStore S] : Io (Vault S) (List ItemId) := do
  let now := nowMs (amb.clock 0)
  let self ← get
  let expired := (self.items.iter.filter (fun x => x.isTrashed && x.trashExpired now)).map Item.id
  sweepLoop E amb expired 1
  return expired

/-- The tombstone is old enough to drop. -/
def purgeable (now : U64) (isDeleted : Bool) (deleted : Option Tombstone) : Bool :=
  isDeleted && deleted.any (fun stone => stone.isPurgeable now TOMBSTONE_RETENTION_MS)

/-- The items `purge_tombstones` drops. -/
def purgeableItems (self : Vault S) (now : U64) : List ItemId :=
  (self.items.iter.filter (fun x => purgeable now x.isDeleted x.deleted)).map Item.id

/-- The groups `purge_tombstones` drops. -/
def purgeableGroups (self : Vault S) (now : U64) : List GroupId :=
  (self.groups.values.filter (fun g => purgeable now g.isDeleted g.deleted)).map Group.id

/-- `purge_tombstones` up to its transaction. -/
def purgeStaged : Io (Vault S) (Staged S) := do
  let self ← get
  let items := self.purgeableItems (amb.clock 0)
  let groups := self.purgeableGroups (amb.clock 0)
  return {
    writes := items.map .remove ++ groups.map (fun id => .remove id.asItemId)
    adopt := fun self => { self with
      items := items.foldl ItemSet.purge self.items
      groups := groups.foldl GroupMap.remove self.groups } }

def purgeTombstones [VaultStore S] : Io (Vault S) (List ItemId) := do
  let self ← get
  let staged ← purgeStaged amb
  settle staged
  return self.purgeableItems (amb.clock 0)

/-! ## Groups -/

/-- The group `add_group` commits. -/
def groupCreated (name : Text) : Io (Vault S) Group := do
  liftExcept (checkRequiredLabel "group.name" name MAX_GROUP_NAME_LEN)
  let id ← liftExcept (liftCrypto amb.newId)
  let createdAt := nowMs (amb.clock 0)
  let hlc ← tick (amb.clock 1)
  return Group.create (.fromItemId id) name hlc createdAt

def addGroup [VaultStore S] (name : Text) : Io (Vault S) GroupId := do
  let g ← groupCreated amb name
  commitGroup E amb g
  return g.id

/-- The group `update_group` commits. -/
def groupUpdated (id : GroupId) (name : Option Text) (color : Option (Option U32))
    (manualOrder : Option (Option I64)) : Io (Vault S) Group := do
  liftExcept (checkSome (fun name => checkRequiredLabel "group.name" name MAX_GROUP_NAME_LEN) name)
  let self ← get
  let g ← liftExcept (self.group id)
  let hlc ← tick (amb.clock 0)
  return { g with
    name := g.name.setSome name hlc
    color := g.color.setSome color hlc
    manualOrder := g.manualOrder.setSome manualOrder hlc }

def updateGroup [VaultStore S] (id : GroupId) (name : Option Text) (color : Option (Option U32))
    (manualOrder : Option (Option I64)) : Io (Vault S) Unit := do
  let g ← groupUpdated amb id name color manualOrder
  commitGroup E amb g

/-- The group `delete_group` commits. -/
def groupDeleted (id : GroupId) : Io (Vault S) Group := do
  let self ← get
  let g ← liftExcept (self.group id)
  let hlc ← tick (amb.clock 0)
  return { g with deleted := some ⟨hlc, .user⟩ }

def deleteGroup [VaultStore S] (id : GroupId) : Io (Vault S) Unit := do
  let g ← groupDeleted amb id
  commitGroup E amb g

end Vault

end Misty
