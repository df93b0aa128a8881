import Misty.Vault.Crdt
import Misty.Vault.Text
import Misty.Otp.Config

/- Items and groups: every field in the replicated type that carries its merge
   rule, the derived predicates over the clocks, validation, and the merge of two
   versions of one object.

   Correspondence (Rust ↔ Lean):
     `model::{IconRef, Tombstone}`             ↔ `IconRef`, `Tombstone`
     `tombstone::{merge_tombstone, tombstone_wins}` ↔ `mergeTombstone`, `tombstoneWins`
     `model::{Item, Group}`                    ↔ `Item`, `Group`
     `Item::{otp, max_field_hlc, max_hlc, is_deleted, is_trashed, is_live,
       trash_expired, same_site_key, validate, every_hlc}` ↔ the same names
     `Item::merge`                             ↔ `Item.merge`, with its value part
       `Item.joined` and its report `Item.pinReport`
     `Item::rebind`, `Group::merge`            ↔ `Item.rebind`, `Group.merge`
   `Register` names the seventeen last-writer-wins fields of an item, so that a
   statement about all of them is one statement. -/
namespace Misty

open Std (ExtTreeMap)

/-! ## Icons and tombstones -/

/-- What is shown beside an item. -/
inductive IconRef where
  | bundled (slug : Text)
  | custom (blob : BlobId)
  | initials (color : U32)
  deriving DecidableEq

def IconRef.validate : IconRef → Result Unit
  | bundled slug => checkRequiredLabel "icon.slug" slug MAX_ICON_SLUG_LEN
  | custom _ | initials _ => .ok ()

/-- Why an object was deleted. -/
inductive TombstoneReason where
  | user
  | trashExpired
  deriving DecidableEq

/-- A record that an object was deleted, and when. -/
structure Tombstone where
  hlc : Hlc
  reason : TombstoneReason
  deriving DecidableEq

def Tombstone.isPurgeable (self : Tombstone) (nowMs : U64) (retentionMs : Nat) : Bool :=
  retentionMs ≤ nowMs.val - self.hlc.wallMs.val

/-- `merge_tombstone`: the later one, and one's own when the clocks are equal. -/
def mergeTombstone : Option Tombstone → Option Tombstone → Option Tombstone
  | some mine, some theirs => if mine.hlc < theirs.hlc then some theirs else some mine
  | none, some theirs => some theirs
  | mine, none => mine

def tombstoneWins (tombstone : Option Tombstone) (maxFieldHlc : Hlc) : Bool :=
  tombstone.any (fun stone => maxFieldHlc < stone.hlc)

/-- The clock of a tombstone, `⊥` where there is none. -/
def stoneClock (t : Option Tombstone) : WithBot Hlc := t.map Tombstone.hlc

/-- Equal tombstone clocks carry equal reasons. -/
def StonesAgree (a b : Option Tombstone) : Prop :=
  stoneClock a = stoneClock b → a = b

instance (a b : Option Tombstone) : Decidable (StonesAgree a b) :=
  inferInstanceAs (Decidable (_ → _))

@[simp] theorem stoneClock_merge (a b : Option Tombstone) :
    stoneClock (mergeTombstone a b) = max (stoneClock a) (stoneClock b) := by
  cases a with
  | none =>
    cases b with
    | none => rfl
    | some u => exact (max_eq_right bot_le).symm
  | some t =>
    cases b with
    | none => exact (max_eq_left bot_le).symm
    | some u =>
      simp only [mergeTombstone]
      split
      · next h => exact (max_eq_right (WithBot.coe_le_coe.mpr h.le)).symm
      · next h => exact (max_eq_left (WithBot.coe_le_coe.mpr (not_lt.mp h))).symm

theorem mergeTombstone_eq_or (a b : Option Tombstone) :
    mergeTombstone a b = a ∨ mergeTombstone a b = b := by
  cases a with
  | none =>
    cases b with
    | none => exact .inl rfl
    | some u => exact .inr rfl
  | some t =>
    cases b with
    | none => exact .inl rfl
    | some u =>
      simp only [mergeTombstone]
      split
      · exact .inr rfl
      · exact .inl rfl

/-- A tombstone register as a bound: below itself and below any later clock. -/
structure Stone where
  stone : Option Tombstone

namespace Stone

instance : PartialOrder Stone where
  le a b := a = b ∨ stoneClock a.stone < stoneClock b.stone
  le_refl a := .inl rfl
  le_trans a b c := by
    rintro (rfl | hab) (rfl | hbc)
    · exact .inl rfl
    · exact .inr hbc
    · exact .inr hab
    · exact .inr (hab.trans hbc)
  le_antisymm a b := by
    rintro (rfl | hab) (h | hba)
    · rfl
    · rfl
    · exact h.symm
    · exact absurd hab hba.not_gt

theorem clock_mono {a b : Stone} (h : a ≤ b) : stoneClock a.stone ≤ stoneClock b.stone := by
  rcases h with rfl | h
  · exact le_rfl
  · exact h.le

theorem merge_le_iff {a b : Option Tombstone} (h : StonesAgree a b) (z : Stone) :
    Stone.mk (mergeTombstone a b) ≤ z ↔ Stone.mk a ≤ z ∧ Stone.mk b ≤ z := by
  have hle : ∀ {c d : Option Tombstone}, stoneClock c < stoneClock d → Stone.mk d ≤ z →
      Stone.mk c ≤ z :=
    fun hcd hdz => .inr (hcd.trans_le (clock_mono hdz))
  have hclock := stoneClock_merge a b
  rcases lt_trichotomy (stoneClock a) (stoneClock b) with hlt | heq | hgt
  · rcases mergeTombstone_eq_or a b with hm | hm
    · rw [hm, max_eq_right hlt.le] at hclock
      exact absurd hclock hlt.ne
    · rw [hm]
      exact ⟨fun hb => ⟨hle hlt hb, hb⟩, fun hab => hab.2⟩
  · have hab := h heq
    subst hab
    rcases mergeTombstone_eq_or a a with hm | hm <;> rw [hm] <;> simp
  · rcases mergeTombstone_eq_or a b with hm | hm
    · rw [hm]
      exact ⟨fun ha => ⟨ha, hle hgt ha⟩, fun hab => hab.1⟩
    · rw [hm, max_eq_left hgt.le] at hclock
      exact absurd hclock.symm hgt.ne'

end Stone

/-! ## Items -/

/-- One stored credential. -/
structure Item where
  id : ItemId
  secret : SecretBytes
  kind : Lww OtpKind
  algorithm : Lww HashAlg
  digits : Lww Byte
  period : Lww U16
  pin : Lww (Option SecretBytes)
  hotpCounter : MaxWins U64
  issuer : Lww Text
  account : Lww Text
  nickname : Lww (Option Text)
  note : Lww (Option Text)
  groups : OrSet GroupId
  tags : OrSet Text
  origins : OrSet Text
  icon : Lww IconRef
  color : Lww (Option U32)
  favorite : Lww Bool
  manualOrder : Lww (Option I64)
  archived : Lww Bool
  hidden : Lww Bool
  requiresRevealAuth : Lww Bool
  trashedAt : Lww (Option I64)
  usage : UsageCounter
  lastUsedAt : MaxWins (WithBot I64)
  createdAt : MinWins I64
  deleted : Option Tombstone
  deriving DecidableEq

/-- The last-writer-wins fields of an item. -/
inductive Register where
  | kind
  | algorithm
  | digits
  | period
  | pin
  | issuer
  | account
  | nickname
  | note
  | icon
  | color
  | favorite
  | manualOrder
  | archived
  | hidden
  | requiresRevealAuth
  | trashedAt
  deriving DecidableEq

/-- What a register holds. -/
def Register.Value : Register → Type
  | kind => OtpKind
  | algorithm => HashAlg
  | digits => Byte
  | period => U16
  | pin => Option SecretBytes
  | issuer | account => Text
  | nickname | note => Option Text
  | icon => IconRef
  | color => Option U32
  | favorite | archived | hidden | requiresRevealAuth => Bool
  | manualOrder | trashedAt => Option I64

/-- The field name a collision in the register is reported under. -/
def Register.name : Register → String
  | kind => "otp.kind"
  | algorithm => "otp.algorithm"
  | digits => "otp.digits"
  | period => "otp.period"
  | pin => "otp.pin"
  | issuer => "issuer"
  | account => "account"
  | nickname => "nickname"
  | note => "note"
  | icon => "icon"
  | color => "color"
  | favorite => "favorite"
  | manualOrder => "manual_order"
  | archived => "archived"
  | hidden => "hidden"
  | requiresRevealAuth => "requires_reveal_auth"
  | trashedAt => "trashed_at"

/-- What a merge had to report to the user. -/
inductive Conflict where
  | divergentSecret (kept forked : ItemId)
  | divergentPin (item : ItemId)
  deriving DecidableEq

namespace Item

/-- The registers of an item. -/
def register (x : Item) : (r : Register) → Lww r.Value
  | .kind => x.kind
  | .algorithm => x.algorithm
  | .digits => x.digits
  | .period => x.period
  | .pin => x.pin
  | .issuer => x.issuer
  | .account => x.account
  | .nickname => x.nickname
  | .note => x.note
  | .icon => x.icon
  | .color => x.color
  | .favorite => x.favorite
  | .manualOrder => x.manualOrder
  | .archived => x.archived
  | .hidden => x.hidden
  | .requiresRevealAuth => x.requiresRevealAuth
  | .trashedAt => x.trashedAt

/-- `Item::otp`: the configuration reassembled from the registers. -/
def otp (self : Item) : Except OtpError OtpConfig :=
  OtpConfigBuilder.build {
    kind := self.kind.value
    secret := self.secret
    algorithm := some self.algorithm.value
    digits := some self.digits.value
    period := some self.period.value
    counter := self.hotpCounter.value
    pin := self.pin.value }

/-- The clocks of the registers, in the order the source lists them. -/
def registerHlcs (self : Item) : List Hlc :=
  [self.kind.hlc, self.algorithm.hlc, self.digits.hlc, self.period.hlc, self.pin.hlc,
    self.issuer.hlc, self.account.hlc, self.nickname.hlc, self.note.hlc, self.icon.hlc,
    self.color.hlc, self.favorite.hlc, self.manualOrder.hlc, self.archived.hlc, self.hidden.hlc,
    self.requiresRevealAuth.hlc, self.trashedAt.hlc]

/-- `Item::max_field_hlc`: the tombstone, the counter and the usage are not edits. -/
def maxFieldHlc (self : Item) : Hlc :=
  let fromRegisters := self.registerHlcs.foldl max self.issuer.hlc
  ([self.groups.maxHlc, self.tags.maxHlc, self.origins.maxHlc].filterMap (fun h => h)).foldl max fromRegisters

/-- `Item::max_hlc`, the `hlc_max` column. -/
def maxHlc (self : Item) : Hlc :=
  match self.deleted with
  | some stone => max self.maxFieldHlc stone.hlc
  | none => self.maxFieldHlc

def isDeleted (self : Item) : Bool := tombstoneWins self.deleted self.maxFieldHlc

def isTrashed (self : Item) : Bool := self.trashedAt.value.isSome && !self.isDeleted

def isLive (self : Item) : Bool := !self.isDeleted && !self.isTrashed

def trashExpired (self : Item) (nowMs : I64) : Bool :=
  self.trashedAt.value.any (fun at' => TRASH_RETENTION_MS ≤ (I64.saturatingSub nowMs at').val)

def sameSiteKey (toLowercase : Text → Text) (self : Item) : Text × Text :=
  (fold toLowercase self.issuer.value, fold toLowercase self.account.value)

/-- The clocks inside one OR-Set, in element order. -/
def setHlcs {T : Type} [LinearOrder T] (s : OrSet T) : List Hlc :=
  s.entries.toList.flatMap (fun p => p.2.added :: p.2.removed.toList)

def everyHlc (self : Item) : List Hlc :=
  self.registerHlcs ++ setHlcs self.groups ++ setHlcs self.tags ++ setHlcs self.origins ++
    self.deleted.toList.map Tombstone.hlc

end Item

def checkSetLen (field : String) (found : Nat) : Result Unit :=
  if MAX_DECODED_SET_ENTRIES < found then
    .error (.tooManyElements field MAX_DECODED_SET_ENTRIES found)
  else .ok ()

/-- The loop `for hlc in every_hlc() { Hlc::new(..)? }`. -/
def checkHlcs : List Hlc → Result Unit
  | [] => .ok ()
  | h :: rest => do
    let _ ← Hlc.new h.wallMs h.counter h.deviceId
    checkHlcs rest

/-- A loop of `check_required_label` over labels of one field. -/
def checkLabels (field : String) (max : Nat) : List Text → Result Unit
  | [] => .ok ()
  | label :: rest => do
    checkRequiredLabel field label max
    checkLabels field max rest

def Item.validate (self : Item) : Result Unit := do
  checkRequiredLabel "issuer" self.issuer.value MAX_ISSUER_LEN
  checkRequiredLabel "account" self.account.value MAX_ACCOUNT_LEN
  checkSome (fun nickname => checkRequiredLabel "nickname" nickname MAX_NICKNAME_LEN)
    self.nickname.value
  checkSome (fun note => checkProse "note" note MAX_NOTE_LEN) self.note.value
  self.icon.value.validate
  checkSetLen "tags" self.tags.storedLen
  checkSetLen "origins" self.origins.storedLen
  checkSetLen "groups" self.groups.storedLen
  checkLabels "tags" MAX_TAG_LEN self.tags.entries.keys
  checkLabels "origins" MAX_ORIGIN_LEN self.origins.entries.keys
  if MAX_USAGE_DEVICES < self.usage.len then
    throw (.tooManyElements "usage" MAX_USAGE_DEVICES self.usage.len)
  checkHlcs self.everyHlc
  let _ ← liftOtp self.otp

namespace Item

/-- The value `Item::merge` leaves in `self`, or its error. -/
def joined (self remote : Item) : Result Item := do
  if self.id ≠ remote.id then throw (.idMismatch self.id remote.id)
  if self.secret ≠ remote.secret then throw (.secretIsImmutable self.id)
  let kind ← self.kind.merge remote.kind "otp.kind"
  let algorithm ← self.algorithm.merge remote.algorithm "otp.algorithm"
  let digits ← self.digits.merge remote.digits "otp.digits"
  let period ← self.period.merge remote.period "otp.period"
  let pin ← self.pin.merge remote.pin "otp.pin"
  let issuer ← self.issuer.merge remote.issuer "issuer"
  let account ← self.account.merge remote.account "account"
  let nickname ← self.nickname.merge remote.nickname "nickname"
  let note ← self.note.merge remote.note "note"
  let icon ← self.icon.merge remote.icon "icon"
  let color ← self.color.merge remote.color "color"
  let favorite ← self.favorite.merge remote.favorite "favorite"
  let manualOrder ← self.manualOrder.merge remote.manualOrder "manual_order"
  let archived ← self.archived.merge remote.archived "archived"
  let hidden ← self.hidden.merge remote.hidden "hidden"
  let requiresRevealAuth ←
    self.requiresRevealAuth.merge remote.requiresRevealAuth "requires_reveal_auth"
  let trashedAt ← self.trashedAt.merge remote.trashedAt "trashed_at"
  return {
    id := self.id
    secret := self.secret
    kind, algorithm, digits, period, pin, issuer, account, nickname, note, icon, color, favorite,
    manualOrder, archived, hidden, requiresRevealAuth, trashedAt
    hotpCounter := self.hotpCounter.merge remote.hotpCounter
    lastUsedAt := self.lastUsedAt.merge remote.lastUsedAt
    createdAt := self.createdAt.merge remote.createdAt
    usage := self.usage.merge remote.usage
    groups := self.groups.merge remote.groups
    tags := self.tags.merge remote.tags
    origins := self.origins.merge remote.origins
    deleted := mergeTombstone self.deleted remote.deleted }

/-- The report `Item::merge` appends before it merges any register. -/
def pinReport (self remote : Item) : List Conflict :=
  if self.id = remote.id ∧ self.secret = remote.secret ∧ self.pin.value ≠ remote.pin.value then
    [.divergentPin self.id]
  else []

/-- `Item::merge`, with the conflict list it appends to. -/
def merge (self remote : Item) (conflicts : List Conflict) : Result Item × List Conflict :=
  (self.joined remote, conflicts ++ self.pinReport remote)

def rebind (self : Item) (id : ItemId) : Item := { self with id := id }

end Item

/-! ## Groups -/

/-- A named collection of items. -/
structure Group where
  id : GroupId
  name : Lww Text
  color : Lww (Option U32)
  manualOrder : Lww (Option I64)
  createdAt : MinWins I64
  deleted : Option Tombstone
  deriving DecidableEq

namespace Group

def create (id : GroupId) (name : Text) (hlc : Hlc) (createdAtMs : I64) : Group where
  id := id
  name := ⟨name, hlc⟩
  color := ⟨none, hlc⟩
  manualOrder := ⟨none, hlc⟩
  createdAt := ⟨createdAtMs⟩
  deleted := none

def maxFieldHlc (self : Group) : Hlc := max (max self.name.hlc self.color.hlc) self.manualOrder.hlc

def maxHlc (self : Group) : Hlc :=
  match self.deleted with
  | some stone => max self.maxFieldHlc stone.hlc
  | none => self.maxFieldHlc

def isDeleted (self : Group) : Bool := tombstoneWins self.deleted self.maxFieldHlc

def everyHlc (self : Group) : List Hlc :=
  [self.name.hlc, self.color.hlc, self.manualOrder.hlc] ++ self.deleted.toList.map Tombstone.hlc

def validate (self : Group) : Result Unit := do
  checkRequiredLabel "group.name" self.name.value MAX_GROUP_NAME_LEN
  checkHlcs self.everyHlc

def merge (self remote : Group) : Result Group := do
  if self.id ≠ remote.id then throw (.idMismatch self.id.asItemId remote.id.asItemId)
  let name ← self.name.merge remote.name "group.name"
  let color ← self.color.merge remote.color "group.color"
  let manualOrder ← self.manualOrder.merge remote.manualOrder "group.manual_order"
  return {
    id := self.id
    name, color, manualOrder
    createdAt := self.createdAt.merge remote.createdAt
    deleted := mergeTombstone self.deleted remote.deleted }

end Group

end Misty
