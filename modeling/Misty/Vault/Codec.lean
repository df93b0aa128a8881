import Misty.Vault.Model

/- The payload codec: the wire records of items and groups, what is checked when
   they are read back, and that everything `encode` accepts decodes to the object
   it was given (`decodeItem_encodeItem`, `decodeGroup_encodeGroup`).

   CBOR itself is a dependency. `Cbor` holds its calls and `Cbor.Faithful` is its
   contract: a record that was written reads back as itself.

   Correspondence (Rust ↔ Lean):
     `ciborium::{into_writer, from_reader}`    ↔ the fields of `Cbor`
     `codec::item::{ItemWire, from_item, into_item}` ↔ `ItemWire`, `.fromItem`, `.intoItem`
     `{kind, algorithm}_{to, from}_wire`       ↔ `OtpKind.toWire`, `kindFromWire`, …
     `set_{to, from}_wire`                     ↔ `setToWire`, `setFromWire`
     `codec::{encode, decode}_{item, group}`   ↔ `encodeItem`, `decodeItem`, … -/
namespace Misty

open Std (ExtTreeMap)

def ITEM_FORMAT_VERSION : Byte := 1
def GROUP_FORMAT_VERSION : Byte := 1

/-! ## Wire records -/

/-- An element of an OR-Set on the wire. -/
abbrev SetEntry (T : Type) := T × Hlc × WithBot Hlc

/-- An item payload, before CBOR. -/
structure ItemWire where
  v : Byte
  id : ItemId
  sec : Bytes
  knd : Lww Byte
  alg : Lww Byte
  dig : Lww Byte
  per : Lww U16
  pin : Lww (Option Bytes)
  cnt : MaxWins U64
  isr : Lww Text
  acc : Lww Text
  nck : Lww (Option Text)
  nte : Lww (Option Text)
  grp : List (SetEntry GroupId)
  tag : List (SetEntry Text)
  org : List (SetEntry Text)
  icn : Lww IconRef
  col : Lww (Option U32)
  fav : Lww Bool
  ord : Lww (Option I64)
  arc : Lww Bool
  hid : Lww Bool
  rva : Lww Bool
  trs : Lww (Option I64)
  usg : List (DeviceId × U64)
  lus : MaxWins (WithBot I64)
  crt : MinWins I64
  del : Option Tombstone
  deriving DecidableEq

/-- A group payload, before CBOR. -/
structure GroupWire where
  v : Byte
  id : GroupId
  nam : Lww Text
  col : Lww (Option U32)
  ord : Lww (Option I64)
  crt : MinWins I64
  del : Option Tombstone
  deriving DecidableEq

/-- The CBOR reader and writer. `readVersion` is the tolerant pass that looks at the
key `v` only. -/
structure Cbor where
  writeItem : ItemWire → Except String Bytes
  readItem : Bytes → Except String ItemWire
  writeGroup : GroupWire → Except String Bytes
  readGroup : Bytes → Except String GroupWire
  readVersion : Bytes → Except String Byte

/-- What was written reads back. -/
structure Cbor.Faithful (C : Cbor) : Prop where
  item : ∀ wire payload, C.writeItem wire = .ok payload →
    C.readItem payload = .ok wire ∧ C.readVersion payload = .ok wire.v
  group : ∀ wire payload, C.writeGroup wire = .ok payload →
    C.readGroup payload = .ok wire ∧ C.readVersion payload = .ok wire.v

/-- `kind_to_wire`. -/
def OtpKind.toWire : OtpKind → Byte
  | totp => 1
  | hotp => 2
  | steam => 3
  | motp => 4
  | blizzard => 5
  | yandex => 6

def kindFromWire (byte : Byte) : Result OtpKind :=
  if byte = 1 then .ok .totp
  else if byte = 2 then .ok .hotp
  else if byte = 3 then .ok .steam
  else if byte = 4 then .ok .motp
  else if byte = 5 then .ok .blizzard
  else if byte = 6 then .ok .yandex
  else .error (.unknownEnumValue "otp.kind" byte.val)

/-- `algorithm_to_wire`. -/
def HashAlg.toWire : HashAlg → Byte
  | sha1 => 1
  | sha256 => 2
  | sha512 => 3

def algorithmFromWire (byte : Byte) : Result HashAlg :=
  if byte = 1 then .ok .sha1
  else if byte = 2 then .ok .sha256
  else if byte = 3 then .ok .sha512
  else .error (.unknownEnumValue "otp.algorithm" byte.val)

@[simp] theorem kindFromWire_toWire (k : OtpKind) : kindFromWire k.toWire = .ok k := by
  cases k <;> rfl

@[simp] theorem algorithmFromWire_toWire (a : HashAlg) : algorithmFromWire a.toWire = .ok a := by
  cases a <;> rfl

/-- A loop of `BTreeMap::insert` that refuses a key it has seen. -/
def collectEntries {κ ν : Type} [LinearOrder κ] (field : String) :
    List (κ × ν) → ExtTreeMap κ ν → Result (ExtTreeMap κ ν)
  | [], map => .ok map
  | (key, value) :: rest, map =>
    if map[key]?.isSome then .error (.duplicateKey field)
    else collectEntries field rest (map.insert key value)

/-- Entries whose keys are distinct and new are all taken over. -/
theorem collectEntries_ok {κ ν : Type} [LinearOrder κ] (field : String) :
    ∀ (l : List (κ × ν)) (m : ExtTreeMap κ ν), l.Pairwise (fun a b => a.1 ≠ b.1) →
      (∀ p ∈ l, m[p.1]? = none) →
      ∃ m', collectEntries field l m = .ok m' ∧
        ∀ (k : κ) (v : ν), m'[k]? = some v ↔ (k, v) ∈ l ∨ m[k]? = some v
  | [], m, _, _ => ⟨m, rfl, by simp⟩
  | (key, value) :: rest, m, hl, hm => by
    rw [List.pairwise_cons] at hl
    have hkey : m[key]? = none := hm (key, value) List.mem_cons_self
    have hrest : ∀ p ∈ rest, (m.insert key value)[p.1]? = none := by
      intro p hp
      rw [OrdMap.getElem?_insert, if_neg (hl.1 p hp)]
      exact hm p (List.mem_cons_of_mem _ hp)
    obtain ⟨m', hok, hmem⟩ := collectEntries_ok field rest (m.insert key value) hl.2 hrest
    refine ⟨m', by simp [collectEntries, hkey, hok], fun k v => ?_⟩
    rw [hmem, OrdMap.getElem?_insert, List.mem_cons, Prod.mk.injEq]
    by_cases hk : key = k
    · subst hk
      simp [hkey, eq_comm, or_comm]
    · simp [hk, Ne.symm hk]

theorem collectEntries_toList {κ ν : Type} [LinearOrder κ] (field : String) (m : ExtTreeMap κ ν) :
    collectEntries field m.toList ∅ = .ok m := by
  obtain ⟨m', hok, hmem⟩ := collectEntries_ok field m.toList ∅ (OrdMap.nodup_keys m) (by simp)
  rw [hok]
  congr 1
  apply OrdMap.ext
  intro k
  apply Option.ext
  intro v
  rw [hmem, OrdMap.mem_toList]
  simp

def setToWire {T : Type} [LinearOrder T] (set : OrSet T) : List (SetEntry T) :=
  set.entries.toList.map (fun p => (p.1, p.2.added, p.2.removed))

def setFromWire {T : Type} [LinearOrder T] (field : String) (entries : List (SetEntry T)) :
    Result (OrSet T) := do
  if MAX_DECODED_SET_ENTRIES < entries.length then
    throw (.tooManyElements field MAX_DECODED_SET_ENTRIES entries.length)
  let map ← collectEntries field (entries.map (fun p => (p.1, OrSetEntry.mk p.2.1 p.2.2))) ∅
  return ⟨map⟩

theorem setFromWire_setToWire {T : Type} [LinearOrder T] (field : String) (set : OrSet T)
    (h : set.storedLen ≤ MAX_DECODED_SET_ENTRIES) : setFromWire field (setToWire set) = .ok set := by
  have hlen : (setToWire set).length = set.storedLen := by
    rw [setToWire, List.length_map, ExtTreeMap.length_toList]
    rfl
  have hmap : (setToWire set).map (fun p => (p.1, OrSetEntry.mk p.2.1 p.2.2)) = set.entries.toList := by
    rw [setToWire, List.map_map]
    exact List.map_id _
  unfold setFromWire
  rw [hmap, hlen, if_neg (not_lt.mpr h), collectEntries_toList]
  rfl

def ItemWire.fromItem (item : Item) : ItemWire where
  v := ITEM_FORMAT_VERSION
  id := item.id
  sec := item.secret.bytes
  knd := ⟨item.kind.value.toWire, item.kind.hlc⟩
  alg := ⟨item.algorithm.value.toWire, item.algorithm.hlc⟩
  dig := item.digits
  per := item.period
  pin := ⟨item.pin.value.map SecretBytes.bytes, item.pin.hlc⟩
  cnt := item.hotpCounter
  isr := item.issuer
  acc := item.account
  nck := item.nickname
  nte := item.note
  grp := setToWire item.groups
  tag := setToWire item.tags
  org := setToWire item.origins
  icn := item.icon
  col := item.color
  fav := item.favorite
  ord := item.manualOrder
  arc := item.archived
  hid := item.hidden
  rva := item.requiresRevealAuth
  trs := item.trashedAt
  usg := item.usage.perDevice.toList
  lus := item.lastUsedAt
  crt := item.createdAt
  del := item.deleted

def ItemWire.intoItem (self : ItemWire) : Result Item := do
  if MAX_USAGE_DEVICES < self.usg.length then
    throw (.tooManyElements "usage" MAX_USAGE_DEVICES self.usg.length)
  let usage ← collectEntries "usage" self.usg ∅
  let kind ← kindFromWire self.knd.value
  let algorithm ← algorithmFromWire self.alg.value
  let groups ← setFromWire "groups" self.grp
  let tags ← setFromWire "tags" self.tag
  let origins ← setFromWire "origins" self.org
  return {
    id := self.id
    secret := ⟨self.sec⟩
    kind := ⟨kind, self.knd.hlc⟩
    algorithm := ⟨algorithm, self.alg.hlc⟩
    digits := self.dig
    period := self.per
    pin := ⟨self.pin.value.map SecretBytes.mk, self.pin.hlc⟩
    hotpCounter := self.cnt
    issuer := self.isr
    account := self.acc
    nickname := self.nck
    note := self.nte
    groups, tags, origins
    icon := self.icn
    color := self.col
    favorite := self.fav
    manualOrder := self.ord
    archived := self.arc
    hidden := self.hid
    requiresRevealAuth := self.rva
    trashedAt := self.trs
    usage := ⟨usage⟩
    lastUsedAt := self.lus
    createdAt := self.crt
    deleted := self.del }

theorem intoItem_fromItem {item : Item} (husage : item.usage.len ≤ MAX_USAGE_DEVICES)
    (hgroups : item.groups.storedLen ≤ MAX_DECODED_SET_ENTRIES)
    (htags : item.tags.storedLen ≤ MAX_DECODED_SET_ENTRIES)
    (horigins : item.origins.storedLen ≤ MAX_DECODED_SET_ENTRIES) :
    (ItemWire.fromItem item).intoItem = .ok item := by
  have hlen : item.usage.perDevice.toList.length = item.usage.len := ExtTreeMap.length_toList
  have hpin : (item.pin.value.map SecretBytes.bytes).map SecretBytes.mk = item.pin.value := by
    rw [Option.map_map]
    exact Option.map_id' ..
  simp only [ItemWire.intoItem, ItemWire.fromItem, hlen, not_lt.mpr husage, if_false,
    collectEntries_toList, kindFromWire_toWire, algorithmFromWire_toWire,
    setFromWire_setToWire _ _ hgroups, setFromWire_setToWire _ _ htags,
    setFromWire_setToWire _ _ horigins, hpin, bind, Except.bind]
  rfl

/-! ## Encoding and decoding -/

variable (C : Cbor)

def cborError {α : Type} (operation : String) (x : Except String α) : Result α :=
  x.mapError (.cbor operation)

def checkVersion (context : String) (payload : Bytes) (supported : Byte) : Result Unit := do
  let v ← cborError "decode" (C.readVersion payload)
  if v = supported then return
  throw (.unsupportedFormatVersion context v.val supported.val)

def checkPayloadLen (context : String) (len max : Nat) : Result Unit :=
  if max < len then .error (.payloadTooLarge context len max) else .ok ()

def encodeItem (item : Item) : Result Bytes := do
  item.validate
  let buf ← cborError "encode" (C.writeItem (.fromItem item))
  checkPayloadLen "item" buf.length MAX_ITEM_PAYLOAD_LEN
  return buf

def decodeItem (payload : Bytes) : Result Item := do
  checkPayloadLen "item" payload.length MAX_ITEM_PAYLOAD_LEN
  checkVersion C "item" payload ITEM_FORMAT_VERSION
  let wire ← cborError "decode" (C.readItem payload)
  let item ← wire.intoItem
  item.validate
  return item

/-- The wire record of a group. -/
def GroupWire.fromGroup (group : Group) : GroupWire where
  v := GROUP_FORMAT_VERSION
  id := group.id
  nam := group.name
  col := group.color
  ord := group.manualOrder
  crt := group.createdAt
  del := group.deleted

/-- The group of a wire record. -/
def GroupWire.intoGroup (wire : GroupWire) : Group where
  id := wire.id
  name := wire.nam
  color := wire.col
  manualOrder := wire.ord
  createdAt := wire.crt
  deleted := wire.del

def encodeGroup (group : Group) : Result Bytes := do
  group.validate
  let buf ← cborError "encode" (C.writeGroup (.fromGroup group))
  checkPayloadLen "group" buf.length MAX_GROUP_PAYLOAD_LEN
  return buf

def decodeGroup (payload : Bytes) : Result Group := do
  checkPayloadLen "group" payload.length MAX_GROUP_PAYLOAD_LEN
  checkVersion C "group" payload GROUP_FORMAT_VERSION
  let wire ← cborError "decode" (C.readGroup payload)
  let group := wire.intoGroup
  group.validate
  return group

/-! ## What was encoded decodes -/

theorem checkSetLen_eq_ok {field : String} {found : Nat} {u : Unit} :
    checkSetLen field found = .ok u ↔ found ≤ MAX_DECODED_SET_ENTRIES := by
  unfold checkSetLen
  split
  · next h => simp [not_le.mpr h]
  · next h => simp [not_lt.mp h]

/-- The counts a valid item is within, which are the ones the decoder checks again. -/
theorem Item.counts_of_validate {item : Item} (h : item.validate = .ok ()) :
    item.usage.len ≤ MAX_USAGE_DEVICES ∧ item.groups.storedLen ≤ MAX_DECODED_SET_ENTRIES ∧
      item.tags.storedLen ≤ MAX_DECODED_SET_ENTRIES ∧
      item.origins.storedLen ≤ MAX_DECODED_SET_ENTRIES := by
  unfold Item.validate at h
  simp only [bind_eq_ok, checkSetLen_eq_ok] at h
  obtain ⟨_, -, _, -, _, -, _, -, _, -, _, htags, _, horigins, _, hgroups, _, -, _, -, h⟩ := h
  refine ⟨?_, hgroups, htags, horigins⟩
  by_contra hlen
  rw [not_le] at hlen
  simp [hlen, throw, throwThe, MonadExceptOf.throw, bind, Except.bind] at h

theorem checkPayloadLen_eq_ok {context : String} {len max : Nat} {u : Unit} :
    checkPayloadLen context len max = .ok u ↔ len ≤ max := by
  unfold checkPayloadLen
  split
  · next h => simp [not_le.mpr h]
  · next h => simp [not_lt.mp h]

variable {C}

theorem validate_of_encodeItem {item : Item} {payload : Bytes} (h : encodeItem C item = .ok payload) :
    item.validate = .ok () := by
  unfold encodeItem at h
  obtain ⟨_, hval, -⟩ := bind_eq_ok.mp h
  exact hval

/-- A payload this device writes is one it reads back. -/
theorem decodeItem_encodeItem (hC : C.Faithful) {item : Item} {payload : Bytes}
    (h : encodeItem C item = .ok payload) : decodeItem C payload = .ok item := by
  have hval := validate_of_encodeItem h
  obtain ⟨husage, hgroups, htags, horigins⟩ := Item.counts_of_validate hval
  simp only [encodeItem, bind_eq_ok, cborError, mapError_eq_ok, checkPayloadLen_eq_ok] at h
  obtain ⟨_, -, buf, hbuf, _, hlen, hret⟩ := h
  cases hret
  obtain ⟨hread, hver⟩ := hC.item _ _ hbuf
  have hinto := intoItem_fromItem husage hgroups htags horigins
  have hfits : checkPayloadLen "item" payload.length MAX_ITEM_PAYLOAD_LEN = .ok () :=
    checkPayloadLen_eq_ok.mpr hlen
  have hcheck : checkVersion C "item" payload ITEM_FORMAT_VERSION = .ok () := by
    simp only [checkVersion, cborError, hver, Except.mapError, bind, Except.bind]
    rfl
  simp only [decodeItem, hfits, hcheck, cborError, hread, Except.mapError,
    hinto, hval, bind, Except.bind]
  rfl

theorem decodeGroup_encodeGroup (hC : C.Faithful) {group : Group} {payload : Bytes}
    (h : encodeGroup C group = .ok payload) : decodeGroup C payload = .ok group := by
  simp only [encodeGroup, bind_eq_ok, cborError, mapError_eq_ok, checkPayloadLen_eq_ok] at h
  obtain ⟨_, hval, buf, hbuf, _, hlen, hret⟩ := h
  cases hret
  obtain ⟨hread, hver⟩ := hC.group _ _ hbuf
  have hfits : checkPayloadLen "group" payload.length MAX_GROUP_PAYLOAD_LEN = .ok () :=
    checkPayloadLen_eq_ok.mpr hlen
  have hcheck : checkVersion C "group" payload GROUP_FORMAT_VERSION = .ok () := by
    simp only [checkVersion, cborError, hver, Except.mapError, bind, Except.bind]
    rfl
  have hinto : (GroupWire.fromGroup group).intoGroup = group := rfl
  simp only [decodeGroup, hfits, hcheck, cborError, hread, Except.mapError,
    hinto, hval, bind, Except.bind]
  rfl

theorem validate_of_decodeItem {item : Item} {payload : Bytes} (h : decodeItem C payload = .ok item) :
    item.validate = .ok () := by
  simp only [decodeItem, bind_eq_ok] at h
  obtain ⟨_, -, _, -, _, -, x, -, _, hval, hret⟩ := h
  cases hret
  exact hval

theorem validate_of_decodeGroup {group : Group} {payload : Bytes}
    (h : decodeGroup C payload = .ok group) : group.validate = .ok () := by
  simp only [decodeGroup, bind_eq_ok] at h
  obtain ⟨_, -, _, -, w, -, _, hval, hret⟩ := h
  cases hret
  exact hval

/-! ## Values for the worked instances -/

/-- The position of a record in a list, after its version byte. -/
def tablePayload {W : Type} [DecidableEq W] (table : List W) (version : Byte) (w : W) :
    Except String Bytes :=
  if w ∈ table then .ok (version :: List.replicate (table.idxOf w) 0) else .error "not in the table"

/-- The record at the position a payload gives. -/
def tableRecord {W : Type} (table : List W) (payload : Bytes) : Except String W :=
  match table[payload.length - 1]? with
  | some w => .ok w
  | none => .error "not in the table"

theorem tableRecord_tablePayload {W : Type} [DecidableEq W] {table : List W} {version : Byte} {w : W}
    {payload : Bytes} (h : tablePayload table version w = .ok payload) :
    tableRecord table payload = .ok w ∧ payload.head? = some version := by
  unfold tablePayload at h
  split at h
  · next hw =>
    cases h
    have hget : table[table.idxOf w]? = some w := List.getElem?_idxOf hw
    simp [tableRecord, hget]
  · cases h

/-- A writer for the records of two lists. -/
def Cbor.table (items : List ItemWire) (groups : List GroupWire) : Cbor where
  writeItem w := tablePayload items w.v w
  readItem := tableRecord items
  writeGroup w := tablePayload groups w.v w
  readGroup := tableRecord groups
  readVersion payload := (payload.head?.map Except.ok).getD (.error "empty")

theorem Cbor.table_faithful (items : List ItemWire) (groups : List GroupWire) :
    (Cbor.table items groups).Faithful where
  item wire payload h := by
    obtain ⟨hread, hhead⟩ := tableRecord_tablePayload h
    exact ⟨hread, by simp [table, hhead]⟩
  group wire payload h := by
    obtain ⟨hread, hhead⟩ := tableRecord_tablePayload h
    exact ⟨hread, by simp [table, hhead]⟩

end Misty
