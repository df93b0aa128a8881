import Misty.Vault.Model

/- What a user asks for: a new item, and a set of field edits.

   Correspondence (Rust ↔ Lean):
     `edit::{NewItem, Edit}`                   ↔ `NewItem`, `Edit`
     `NewItem::validate`, `check_added_len`    ↔ `NewItem.validate`, `checkAddedLen`
     `Item::create`                            ↔ `Item.create`
     `Edit::{is_empty, apply}`                 ↔ `Edit.isEmpty`, `Edit.apply`
   The builder methods only fill in a record, so the records are given directly. -/
namespace Misty

/-- Everything needed to create one item. -/
structure NewItem where
  otp : OtpConfig
  issuer : Text
  account : Text
  nickname : Option Text := none
  note : Option Text := none
  tags : List Text := []
  origins : List Text := []
  groups : List GroupId := []
  icon : Option IconRef := none
  color : Option U32 := none
  favorite : Bool := false
  requiresRevealAuth : Bool := false

def checkAddedLen (field : String) (len : Nat) : Result Unit :=
  if MAX_SET_ENTRIES < len then .error (.tooManyElements field MAX_SET_ENTRIES len) else .ok ()

def NewItem.validate (self : NewItem) : Result Unit := do
  checkRequiredLabel "issuer" self.issuer MAX_ISSUER_LEN
  checkRequiredLabel "account" self.account MAX_ACCOUNT_LEN
  checkSome (fun nickname => checkRequiredLabel "nickname" nickname MAX_NICKNAME_LEN) self.nickname
  checkSome (fun note => checkProse "note" note MAX_NOTE_LEN) self.note
  checkSome IconRef.validate self.icon
  checkLabels "tags" MAX_TAG_LEN self.tags
  checkLabels "origins" MAX_ORIGIN_LEN self.origins
  checkAddedLen "tags" self.tags.length
  checkAddedLen "origins" self.origins.length
  checkAddedLen "groups" self.groups.length

def IconRef.default : IconRef := .initials 0

/-- A loop of `OrSet::add` under one clock. -/
def OrSet.addAll {T : Type} [LinearOrder T] (self : OrSet T) (elements : List T) (hlc : Hlc) : OrSet T :=
  elements.foldl (fun s e => s.add e hlc) self

theorem OrSet.view_le_addAll {T : Type} [LinearOrder T] (hlc : Hlc) (elements : List T) :
    ∀ self : OrSet T, self.view ≤ (self.addAll elements hlc).view := by
  induction elements with
  | nil => exact fun self => le_refl _
  | cons e rest ih => exact fun self => (self.view_le_add e hlc).trans (ih (self.add e hlc))

/-- `Item::create`: every field under the same clock. -/
def Item.create (id : ItemId) (new : NewItem) (hlc : Hlc) (createdAtMs : I64) : Item where
  id := id
  secret := new.otp.secret
  kind := ⟨new.otp.kind, hlc⟩
  algorithm := ⟨new.otp.algorithm, hlc⟩
  digits := ⟨new.otp.digits, hlc⟩
  period := ⟨new.otp.period, hlc⟩
  pin := ⟨new.otp.pin, hlc⟩
  hotpCounter := ⟨new.otp.counter⟩
  issuer := ⟨new.issuer, hlc⟩
  account := ⟨new.account, hlc⟩
  nickname := ⟨new.nickname, hlc⟩
  note := ⟨new.note, hlc⟩
  groups := OrSet.new.addAll new.groups hlc
  tags := OrSet.new.addAll new.tags hlc
  origins := OrSet.new.addAll new.origins hlc
  icon := ⟨new.icon.getD IconRef.default, hlc⟩
  color := ⟨new.color, hlc⟩
  favorite := ⟨new.favorite, hlc⟩
  manualOrder := ⟨none, hlc⟩
  archived := ⟨false, hlc⟩
  hidden := ⟨false, hlc⟩
  requiresRevealAuth := ⟨new.requiresRevealAuth, hlc⟩
  trashedAt := ⟨none, hlc⟩
  usage := UsageCounter.new
  lastUsedAt := ⟨⊥⟩
  createdAt := ⟨createdAtMs⟩
  deleted := none

/-- `NewItem::new` over `OtpConfig::totp`: the parameters every issuer defaults to. -/
def NewItem.totp (secret : SecretBytes) (issuer account : Text) : NewItem where
  otp := ⟨.totp, secret, .sha1, 6, 30, 0, none⟩
  issuer := issuer
  account := account

/-- A set of field edits. `some none` clears an optional field. -/
structure Edit where
  issuer : Option Text := none
  account : Option Text := none
  nickname : Option (Option Text) := none
  note : Option (Option Text) := none
  icon : Option IconRef := none
  color : Option (Option U32) := none
  favorite : Option Bool := none
  manualOrder : Option (Option I64) := none
  archived : Option Bool := none
  hidden : Option Bool := none
  requiresRevealAuth : Option Bool := none
  kind : Option OtpKind := none
  algorithm : Option HashAlg := none
  digits : Option Byte := none
  period : Option U16 := none
  pin : Option (Option SecretBytes) := none
  deriving DecidableEq

def Edit.isEmpty (self : Edit) : Bool := self = {}

/-- A register under an edit that may leave it alone. -/
def Lww.setSome {T : Type} (self : Lww T) (value : Option T) (hlc : Hlc) : Lww T :=
  match value with
  | some v => self.set v hlc
  | none => self

theorem Lww.hlc_le_setSome {T : Type} (self : Lww T) (value : Option T) (hlc : Hlc) :
    self.hlc ≤ (self.setSome value hlc).hlc := by
  cases value with
  | none => exact le_refl _
  | some v => exact Lww.hlc_mono (Lww.le_set self v hlc)

/-- The probe of `Edit::apply`: whether the edited parameters still make a usable
configuration. -/
def Edit.probe (self : Edit) (item : Item) : Except OtpError Unit := do
  let probe ← item.otp
  let probe ← match self.kind with
    | some kind => OtpConfigBuilder.build {
        kind := kind
        secret := probe.secret
        algorithm := some probe.algorithm
        digits := some probe.digits
        period := some probe.period
        counter := probe.counter
        pin := probe.pin }
    | none => pure probe
  let probe := match self.algorithm with
    | some algorithm => probe.setAlgorithm algorithm
    | none => probe
  let probe ← match self.digits with
    | some digits => probe.setDigits digits
    | none => pure probe
  let _ ← match self.period with
    | some period => probe.setPeriod period
    | none => pure probe

/-- The checks of `Edit::apply`, all made before any field moves. -/
def Edit.check (self : Edit) (item : Item) : Result Unit := do
  checkSome (fun issuer => checkRequiredLabel "issuer" issuer MAX_ISSUER_LEN) self.issuer
  checkSome (fun account => checkRequiredLabel "account" account MAX_ACCOUNT_LEN) self.account
  checkSome (checkSome (fun nickname => checkRequiredLabel "nickname" nickname MAX_NICKNAME_LEN))
    self.nickname
  checkSome (checkSome (fun note => checkProse "note" note MAX_NOTE_LEN)) self.note
  checkSome IconRef.validate self.icon
  liftOtp (self.probe item)

/-- The writes of `Edit::apply`, all under one clock. -/
def Edit.write (self : Edit) (item : Item) (hlc : Hlc) : Item :=
  { item with
    issuer := item.issuer.setSome self.issuer hlc
    account := item.account.setSome self.account hlc
    nickname := item.nickname.setSome self.nickname hlc
    note := item.note.setSome self.note hlc
    icon := item.icon.setSome self.icon hlc
    color := item.color.setSome self.color hlc
    favorite := item.favorite.setSome self.favorite hlc
    manualOrder := item.manualOrder.setSome self.manualOrder hlc
    archived := item.archived.setSome self.archived hlc
    hidden := item.hidden.setSome self.hidden hlc
    requiresRevealAuth := item.requiresRevealAuth.setSome self.requiresRevealAuth hlc
    kind := item.kind.setSome self.kind hlc
    algorithm := item.algorithm.setSome self.algorithm hlc
    digits := item.digits.setSome self.digits hlc
    period := item.period.setSome self.period hlc
    pin := item.pin.setSome self.pin hlc }

def Edit.apply (self : Edit) (item : Item) (hlc : Hlc) : Result Item := do
  self.check item
  return self.write item hlc

/-! ## Values for the worked instances -/

/-- The `n`-th reading of the first millisecond, by the device of sixteen bytes `d`. -/
def Hlc.early (n : U16) (d : Byte) : Hlc := ⟨⟨MIN_WALL_MS, MIN_WALL_MS_lt⟩, n, ⟨ByteArr.repeated 16 d⟩⟩

/-- A fresh token with a one-byte secret, created at the reading `n` of device `d`. -/
def Item.fresh (id secret : Byte) (n : U16) (d : Byte) : Item :=
  Item.create ⟨ByteArr.repeated 16 id⟩ (.totp ⟨[secret]⟩ ['i'] ['a']) (Hlc.early n d) (I64.saturate 0)

end Misty
