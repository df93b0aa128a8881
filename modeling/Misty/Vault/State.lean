import Misty.Vault.Store
import Misty.Vault.Codec
import Misty.Vault.Edit
import Misty.Vault.Merge

/- The vault handle: its state, how `open` builds it from the rows of a store, and
   the lookups the operations share.

   Correspondence (Rust ↔ Lean):
     `vault::Vault`                            ↔ `Vault`
     `sync::Decoded`                           ↔ `Decoded`
     `Vault::load`, one record of its loop     ↔ `loadRecords`, `decodeRecord`
     `Vault::check_identity`                   ↔ `checkIdentity`
     `Vault::open`                             ↔ `Vault.open`
     `Vault::{item, group, same_site_cluster}` ↔ `Vault.item`, `.group`, `.sameSiteCluster`
     `BTreeMap<GroupId, Group>`                ↔ `GroupMap`
     `merge::VaultForkIds`                     ↔ `vaultForkIds`
   The key of an epoch is derived for each record; the source keeps the ones it has
   derived, and the derivation is a function. Host readings, fresh ids and the bytes
   `seal` draws are inputs, `Ambient`. -/
namespace Misty

open Std (ExtTreeMap)

/-- What the crate takes from its dependencies. -/
structure Externals where
  prims : Primitives
  cbor : Cbor
  toLowercase : Text → Text

/-- Groups under their own ids. -/
structure GroupMap where
  groups : ExtTreeMap GroupId Group
  keyed : ∀ (id : GroupId) (g : Group), groups[id]? = some g → g.id = id

namespace GroupMap

/-- `BTreeMap::new`. -/
def new : GroupMap := ⟨∅, by simp⟩

/-- `BTreeMap::get`. -/
def get (self : GroupMap) (id : GroupId) : Option Group := self.groups[id]?

/-- `BTreeMap::values`. -/
def values (self : GroupMap) : List Group := self.groups.toList.map Prod.snd

/-- `BTreeMap::insert` under the group's id. -/
def insert (self : GroupMap) (group : Group) : GroupMap where
  groups := self.groups.insert group.id group
  keyed id g h := by
    rw [OrdMap.getElem?_insert] at h
    split at h
    · next hi =>
      cases h
      exact hi
    · exact self.keyed id g h

/-- `BTreeMap::remove`. -/
def remove (self : GroupMap) (id : GroupId) : GroupMap where
  groups := self.groups.erase id
  keyed i g h := by
    rw [OrdMap.getElem?_erase] at h
    split at h
    · cases h
    · exact self.keyed i g h

@[simp] theorem get_insert (m : GroupMap) (g : Group) (i : GroupId) :
    (m.insert g).get i = if g.id = i then some g else m.get i :=
  OrdMap.getElem?_insert ..

@[simp] theorem get_remove (m : GroupMap) (id i : GroupId) :
    (m.remove id).get i = if id = i then none else m.get i :=
  OrdMap.getElem?_erase ..

@[simp] theorem get_new (i : GroupId) : new.get i = none := by simp [new, get]

theorem holds_insert (m : GroupMap) (g y : Group) :
    (m.insert g).get y.id = some y ↔ y = g ∨ m.get y.id = some y ∧ y.id ≠ g.id := by
  rw [get_insert]
  split
  · next hid => simp [hid, eq_comm]
  · next hid =>
    constructor
    · intro h
      exact .inr ⟨h, Ne.symm hid⟩
    · rintro (rfl | h)
      · exact absurd rfl hid
      · exact h.1

theorem id_of_get {m : GroupMap} {i : GroupId} {g : Group} (h : m.get i = some g) : g.id = i :=
  m.keyed i g h

theorem ext_get {a b : GroupMap} (h : ∀ i, a.get i = b.get i) : a = b := by
  cases a
  cases b
  simp only [GroupMap.mk.injEq]
  exact OrdMap.ext h

instance : DecidableEq GroupMap := fun a b =>
  decidable_of_iff (a.groups = b.groups)
    ⟨fun h => by cases a; cases b; cases h; rfl, congrArg groups⟩

theorem mem_values {m : GroupMap} {g : Group} : g ∈ m.values ↔ m.get g.id = some g := by
  constructor
  · intro h
    obtain ⟨⟨i, g'⟩, hmem, rfl⟩ := List.mem_map.mp h
    have hget := OrdMap.mem_toList.mp hmem
    rw [m.keyed i g' hget]
    exact hget
  · intro h
    exact List.mem_map.mpr ⟨(g.id, g), OrdMap.mem_toList.mpr h, rfl⟩

end GroupMap

/-! ## What a row is about -/

/-- An item or a group. -/
inductive Decoded where
  | item (x : Item)
  | group (g : Group)
  deriving DecidableEq

namespace Decoded

/-- The kind its envelope carries. -/
def kind : Decoded → EnvelopeKind
  | item _ => .item
  | group _ => .group

/-- The id it is stored under. -/
def itemId : Decoded → ItemId
  | item x => x.id
  | group g => g.id.asItemId

/-- Its `hlc_max` column. -/
def maxHlc : Decoded → Hlc
  | item x => x.maxHlc
  | group g => g.maxHlc

/-- Every clock it carries. -/
def everyHlc : Decoded → List Hlc
  | item x => x.everyHlc
  | group g => g.everyHlc

/-- `encode_item`, `encode_group`. -/
def encode (C : Cbor) : Decoded → Result Bytes
  | item x => encodeItem C x
  | group g => encodeGroup C g

end Decoded

/-- `decode_item` for an item, `decode_group` for anything else. -/
def decodePayload (C : Cbor) (kind : EnvelopeKind) (payload : Bytes) : Result Decoded :=
  if kind = .item then (decodeItem C payload).map .item else (decodeGroup C payload).map .group

theorem decodePayload_encode {C : Cbor} (hC : C.Faithful) {o : Decoded} {payload : Bytes}
    (h : o.encode C = .ok payload) : decodePayload C o.kind payload = .ok o := by
  cases o with
  | item x =>
    show (decodeItem C payload).map Decoded.item = _
    rw [decodeItem_encodeItem hC h]
    rfl
  | group g =>
    show (decodeGroup C payload).map Decoded.group = _
    rw [decodeGroup_encodeGroup hC h]
    rfl

theorem kind_of_decodePayload {C : Cbor} {kind : EnvelopeKind} {payload : Bytes} {o : Decoded}
    (hk : kind = .item ∨ kind = .group) (h : decodePayload C kind payload = .ok o) :
    o.kind = kind := by
  unfold decodePayload at h
  rcases hk with rfl | rfl
  · cases hx : decodeItem C payload with
    | error e => simp [hx, Except.map] at h
    | ok x =>
      simp [hx, Except.map] at h
      cases h
      rfl
  · cases hx : decodeGroup C payload with
    | error e => simp [hx, Except.map] at h
    | ok x =>
      simp [hx, Except.map] at h
      cases h
      rfl

/-! ## Loading -/

/-- The part of a vault that `load` fills in. -/
structure Loaded where
  hlc : HlcClock
  items : ItemSet
  groups : GroupMap

/-- A loop of `observe`. -/
def HlcClock.observeAll (self : HlcClock) (hlcs : List Hlc) : HlcClock := hlcs.foldl observe self

/-- A failure reported against a record. -/
def corruptAt {α : Type} (id : ItemId) (x : Result α) : Result α := x.mapError (VaultError.corrupt id)

/-- `Vault::check_identity`. -/
def checkIdentity (storageKey payloadId : ItemId) (payloadHlcMax storedHlcMax : Hlc) : Result Unit :=
  if payloadId ≠ storageKey then .error (.corrupt storageKey (.idMismatch storageKey payloadId))
  else if payloadHlcMax ≠ storedHlcMax then
    .error (.corrupt storageKey
      (.storage "hlc_max column does not match the authenticated payload"))
  else .ok ()

variable (E : Externals)

/-- One record of the loop of `load`: what it holds, or nothing for a kind the vault
does not model. -/
def decodeRecord (vaultKey : ByteArr 32) (roster : Roster) (record : StoredEnvelope) :
    Result (Option Decoded) := do
  let id := record.itemId
  let envelope ← corruptAt id (liftCrypto (Envelope.parse record.envelope))
  let header := envelope.header
  -- The kind column is compared with the header before any signature is checked.
  if header.kind ≠ record.kind then
    throw (.corrupt id
      (.kindMismatch "the authenticated envelope kind" "the stored kind column"))
  if header.kind ≠ .item ∧ header.kind ≠ .group then return none
  let key ← liftCrypto (epochKey E.prims vaultKey header.epoch)
  let payload ← corruptAt id (liftCrypto (Envelope.openWith E.prims record.envelope id key roster))
  let object ← corruptAt id (decodePayload E.cbor header.kind payload)
  checkIdentity id object.itemId object.maxHlc record.hlcMax
  return some object

/-- What the loop of `load` does with a decoded record. -/
def Loaded.take (self : Loaded) : Option Decoded → Result Loaded
  | none => .ok self
  | some (.item x) => do
    let items ← self.items.insert x
    return ⟨self.hlc.observeAll x.everyHlc, items, self.groups⟩
  | some (.group g) =>
    .ok ⟨self.hlc.observeAll g.everyHlc, self.items, self.groups.insert g⟩

/-- The loop of `load`. -/
def loadRecords (vaultKey : ByteArr 32) (roster : Roster) : List StoredEnvelope → Loaded → Result Loaded
  | [], loaded => .ok loaded
  | record :: rest, loaded => do
    let object ← decodeRecord E vaultKey roster record
    let loaded ← loaded.take object
    loadRecords vaultKey roster rest loaded

/-! ## The handle -/

/-- An open vault. -/
structure Vault (S : Type) where
  store : S
  vaultKey : ByteArr 32
  device : DeviceIdentity
  roster : Roster
  epoch : U32
  hlc : HlcClock
  items : ItemSet
  groups : GroupMap
  conflicts : List Conflict

/-- What the host supplies while one operation runs: the readings of its clock in
the order they are taken, a random id, and the bytes each `seal` draws. -/
structure Ambient where
  clock : Nat → U64
  newId : Except CryptoError ItemId
  draw : EnvelopeKind → ItemId → SealDraw

variable {S : Type}

/-- A store call whose error gives up the store. -/
def runStore {α : Type} (x : Io S α) (store : S) : Result (α × S) :=
  match x store with
  | .ok a store => .ok (a, store)
  | .error e _ => .error e

def Vault.open [VaultStore S] (store : S) (vaultKey : ByteArr 32) (device : DeviceIdentity)
    (roster : Roster) : Result (Vault S) := do
  let _ ← liftCrypto (roster.verify E.prims)
  if (roster.contains device.deviceId).isNone then throw (.deviceNotInRoster device.deviceId)
  let (epoch, store) ← runStore VaultStore.epoch store
  let (records, store) ← runStore VaultStore.loadAll store
  let loaded ← loadRecords E vaultKey roster records ⟨.new device.deviceId, .new, .new⟩
  return {
    store, vaultKey, device, roster, epoch
    hlc := loaded.hlc
    items := loaded.items
    groups := loaded.groups
    conflicts := [] }

def FORK_ID_SALT : Bytes := asciiBytes "misty/vault/fork-id/v1"

def vaultForkIds (vaultKey : ByteArr 32) : ForkIds := fun original secret =>
  liftCrypto ((hkdfSha512 E.prims vaultKey.val FORK_ID_SALT (original.bytes.val ++ secret.bytes) 16).map
    ItemId.mk)

namespace Vault

/-- A store call. -/
def onStore {α : Type} (x : Io S α) : Io (Vault S) α := fun self =>
  match x self.store with
  | .ok a store => .ok a { self with store := store }
  | .error e store => .error e { self with store := store }

def item (self : Vault S) (id : ItemId) : Result Item :=
  match self.items.get id with
  | some x => .ok x
  | none => .error (.noSuchItem id)

def group (self : Vault S) (id : GroupId) : Result Group :=
  match self.groups.get id with
  | some g => .ok g
  | none => .error (.noSuchGroup id)

/-- The model holds the object. -/
def Holds (self : Vault S) : Decoded → Prop
  | .item x => self.items.get x.id = some x
  | .group g => self.groups.get g.id = some g

def clusterKey (x : Item) : Text ×ₗ Text ×ₗ Text :=
  let site := x.sameSiteKey E.toLowercase
  toLex (site.1, toLex (site.2, (x.nickname.value.map (fold E.toLowercase)).getD []))

def sameSiteCluster (self : Vault S) (issuer account : Text) : List Item :=
  let wanted := (fold E.toLowercase issuer, fold E.toLowercase account)
  (self.items.iter.filter (fun x => x.isLive && x.sameSiteKey E.toLowercase = wanted)).insertionSort
    (fun x y => clusterKey E x ≤ clusterKey E y)

theorem mem_sameSiteCluster {self : Vault S} {issuer account : Text} {x : Item} :
    x ∈ self.sameSiteCluster E issuer account ↔ self.items.get x.id = some x ∧ x.isLive = true ∧
      x.sameSiteKey E.toLowercase = (fold E.toLowercase issuer, fold E.toLowercase account) := by
  unfold sameSiteCluster
  rw [List.mem_insertionSort, List.mem_filter, ItemSet.mem_iter]
  simp

end Vault

/-! ## Values for the worked instances -/

/-- A fresh group, created at the reading `n` of device `d`. -/
def Group.fresh (id : Byte) (n : U16) (d : Byte) : Group :=
  Group.create (.fromItemId ⟨ByteArr.repeated 16 id⟩) ['g'] (Hlc.early n d) (I64.saturate 0)

/-- Externals over a table of records, with the lowercase of unaccented letters. -/
def Externals.sample (items : List Item) (groups : List Group) : Externals where
  prims := .sample
  cbor := .table (items.map .fromItem) (groups.map .fromGroup)
  toLowercase text := text.map Char.toLower

/-- The device of sixteen bytes `d`. -/
def DeviceIdentity.sample (d : Byte) : DeviceIdentity :=
  ⟨⟨ByteArr.repeated 16 d⟩, ByteArr.repeated 32 d⟩

/-- What the roster says of it. -/
def DeviceRecord.sample (d : Byte) : DeviceRecord where
  deviceId := (DeviceIdentity.sample d).deviceId
  ed25519Pub := (DeviceIdentity.sample d).ed25519Public .sample
  name := []
  platform := []
  enrolledAt := I64.saturate 0
  enrolledBy := none

/-- A roster of the devices, signed by device 1. -/
def Roster.sample (devices : List Byte) : Roster :=
  let roster : Roster := ⟨devices.map .sample, none, none⟩
  { roster with
    signedBy := some (DeviceIdentity.sample 1).deviceId
    signature := some ((DeviceIdentity.sample 1).sign .sample
      (roster.signingBytes (DeviceIdentity.sample 1).deviceId)) }

/-- A host whose clock stands at the start of the window, and whose fresh id and item
keys are all `n`. -/
def Ambient.sample (n : Byte) : Ambient where
  clock _ := ⟨MIN_WALL_MS, MIN_WALL_MS_lt⟩
  newId := .ok ⟨ByteArr.repeated 16 n⟩
  draw _ _ := ⟨.ok (ByteArr.repeated 32 n), .ok (ByteArr.repeated 24 n, ByteArr.repeated 24 n)⟩

/-- Device 1's vault over a store, before anything is loaded. -/
def Vault.sample {S : Type} (store : S) (devices : List Byte) : Vault S where
  store := store
  vaultKey := ByteArr.repeated 32 0
  device := .sample 1
  roster := .sample devices
  epoch := 0
  hlc := .new (DeviceIdentity.sample 1).deviceId
  items := .new
  groups := .new
  conflicts := []

end Misty
