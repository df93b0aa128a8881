import Misty.Lib.Hex
import Misty.Sync.Facade
import Misty.Vault.Edit

/- What comes over the boundary of the facade, and how it is read: ids in hexadecimal,
   a new item, a sparse edit.

   Correspondence (Rust ↔ Lean):
     `parse_item_id`, `parse_device_id`, `parse_enroll_id`, `parse_group_id`
                                               ↔ the same names, over `parseId`
     `dto::{IconRef, NewItemInput, EditInput, ClearableField}` ↔ the same names, in `Dto`
     `icon_to_core`, `build_new_item`, `build_edit`, `string_diff` ↔ the same names
     `edit::{normalise_newlines, normalise_origin}` ↔ the same names
   The DTO's kinds and hashes are those of `misty-otp` under other names. -/
namespace Misty

/-! ## Ids -/

/-- Sixteen bytes in hexadecimal, with the error of each way they can be wrong. -/
def parseId (malformed unknown : FacadeError) (hexId : Text) : Except FacadeError (ByteArr 16) :=
  match hexDecode hexId with
  | none => .error malformed
  | some bytes => if h : bytes.length = 16 then .ok ⟨bytes, h⟩ else .error unknown

def parseItemId (hexId : Text) : Except FacadeError ItemId :=
  (parseId (.notFound "malformed item id") (.notFound "unknown item id") hexId).map ItemId.mk

def parseDeviceId (hexId : Text) : Except FacadeError DeviceId :=
  (parseId (.notFound "malformed device id") (.notFound "unknown device id") hexId).map DeviceId.mk

def parseEnrollId (hexId : Text) : Except FacadeError (ByteArr 16) :=
  parseId (.notFound "malformed enroll id") (.notFound "unknown enroll id") hexId

def parseGroupId (hexId : Text) : Except FacadeError GroupId :=
  (parseId (.invalidField "malformed group id") (.invalidField "group id must be 16 bytes") hexId).map
    (fun bytes => .fromItemId ⟨bytes⟩)

def GroupId.toHex (self : GroupId) : Text := hexEncode self.id.bytes.val

theorem parseId_hexEncode (malformed unknown : FacadeError) (id : ByteArr 16) :
    parseId malformed unknown (hexEncode id.val) = .ok id := by
  unfold parseId
  rw [hexDecode_hexEncode]
  exact dif_pos id.property

@[simp] theorem parseGroupId_toHex (g : GroupId) : parseGroupId g.toHex = .ok g := by
  unfold parseGroupId GroupId.toHex
  rw [parseId_hexEncode]
  rfl

/-! ## Items and edits -/

namespace Dto

inductive IconRef where
  | bundled (slug : Text)
  | custom (blobId : Text)
  | initials (color : U32)
  deriving DecidableEq

structure NewItemInput where
  kind : OtpKind
  algorithm : HashAlg
  digits : Byte
  period : U16
  hotpCounter : U64
  secret : Bytes
  pin : Option Bytes
  issuer : Text
  account : Text
  nickname : Option Text
  note : Option Text
  groups : List Text
  tags : List Text
  origins : List Text
  icon : Option IconRef
  color : Option U32
  favorite : Bool

inductive ClearableField where
  | nickname
  | note
  | color
  | manualOrder
  | pin
  deriving DecidableEq

structure EditInput where
  issuer : Option Text := none
  account : Option Text := none
  nickname : Option Text := none
  note : Option Text := none
  groups : Option (List Text) := none
  tags : Option (List Text) := none
  origins : Option (List Text) := none
  icon : Option IconRef := none
  color : Option U32 := none
  manualOrder : Option I64 := none
  favorite : Option Bool := none
  archived : Option Bool := none
  hidden : Option Bool := none
  requiresRevealAuth : Option Bool := none
  pin : Option Bytes := none
  clear : List ClearableField := []

end Dto

open Dto (NewItemInput EditInput ClearableField)

def iconToCore : Dto.IconRef → Except FacadeError IconRef
  | .bundled slug => .ok (.bundled slug)
  | .initials color => .ok (.initials color)
  | .custom blobId =>
    (parseId (.invalidField "malformed blob id") (.invalidField "blob id must be 16 bytes") blobId).map
      (fun bytes => .custom ⟨⟨bytes⟩⟩)

/-- An optional value read by a function that may refuse it. -/
def readSome {α β : Type} (f : α → Except FacadeError β) : Option α → Except FacadeError (Option β)
  | some a => (f a).map some
  | none => .ok none

def normaliseNewlines : Text → Text
  | '\r' :: '\n' :: rest | '\r' :: rest => '\n' :: normaliseNewlines rest
  | ch :: rest => ch :: normaliseNewlines rest
  | [] => []

def normaliseOrigin (toLowercase : Text → Text) (origin : Text) : Text := toLowercase (trim origin)

/-- `build_new_item`, with what `NewItem::{note, origin}` do to the note and the origins. -/
def buildNewItem (toLowercase : Text → Text) (input : NewItemInput) : Except FacadeError NewItem := do
  let builder : OtpConfigBuilder := {
    kind := input.kind
    secret := ⟨input.secret⟩
    algorithm := some input.algorithm
    digits := some input.digits
    period := some input.period
    counter := input.hotpCounter
    pin := input.pin.map SecretBytes.mk }
  let otp ← builder.build.mapError .otp
  let groups ← input.groups.mapM parseGroupId
  let icon ← readSome iconToCore input.icon
  return {
    otp := otp
    issuer := input.issuer
    account := input.account
    nickname := input.nickname
    note := input.note.map normaliseNewlines
    tags := input.tags
    origins := input.origins.map (normaliseOrigin toLowercase)
    groups := groups
    icon := icon
    color := input.color
    favorite := input.favorite }

/-- A field that an edit can set or reset to absent; the reset wins. -/
def clearing {α : Type} (clear : Bool) (value : Option α) : Option (Option α) :=
  if clear then some none else value.map some

def buildEdit (edit : EditInput) : Except FacadeError Edit := do
  let clears (f : ClearableField) : Bool := edit.clear.contains f
  let icon ← readSome iconToCore edit.icon
  return {
    issuer := edit.issuer
    account := edit.account
    nickname := clearing (clears .nickname) edit.nickname
    note := clearing (clears .note) (edit.note.map normaliseNewlines)
    color := clearing (clears .color) edit.color
    manualOrder := clearing (clears .manualOrder) edit.manualOrder
    pin := clearing (clears .pin) (edit.pin.map SecretBytes.mk)
    icon := icon
    favorite := edit.favorite
    archived := edit.archived
    hidden := edit.hidden
    requiresRevealAuth := edit.requiresRevealAuth }

/-- `string_diff`: what to add and what to remove to turn `current` into `desired`. -/
def stringDiff (current desired : List Text) : List Text × List Text :=
  (desired.filter (fun s => s ∉ current), current.filter (fun s => s ∉ desired))

end Misty
