import Misty.Importers.Protobuf
import Misty.Otp.Uri

/- What an importer reads inside of and what it produces: limits, rows, items, outcomes
   and errors.

   Correspondence (Rust ↔ Lean):
     `context::{Limits, DuplicatePolicy}`      ↔ `Limits`, `DuplicatePolicy`
     `error::{ImportError, RowError}`          ↔ the same names
     `model::{SourceFormat, ImportedItem}`     ↔ the same names
     `outcome::{RowId, RowOutcome, SkipReason, ImportWarning, BatchPart, ImportReport}` ↔ the same names
     `text::{decode, is_forbidden, check_field, non_empty}` ↔ the same names
   A warning of the URI parser is kept as it is and not as its text. Of the errors those
   that the modelled importers can return are here. -/
namespace Misty.Importers

open Misty.Protobuf (ProtobufError)

/-- `Limits`, less the bounds of a key derivation. -/
structure Limits where
  maxInputBytes : Nat
  maxRows : Nat
  maxTextFieldBytes : Nat
  maxNoteBytes : Nat
  maxCsvColumns : Nat
  maxTags : Nat
  deriving DecidableEq

def Limits.default : Limits where
  maxInputBytes := 32 * 1024 * 1024
  maxRows := 20000
  maxTextFieldBytes := 4096
  maxNoteBytes := 16 * 1024
  maxCsvColumns := 256
  maxTags := 64

inductive DuplicatePolicy where
  | skip
  | keep
  deriving DecidableEq

inductive SourceFormat where
  | otpauth
  | googleMigration
  | aegis
  | twoFas
  | andOtp
  | freeOtp
  | freeOtpPlus
  | bitwarden
  | enteAuth
  | raivo
  | lastPass
  | protonPass
  | keePassXcXml
  | authy
  | csv
  | json
  deriving DecidableEq

inductive RowError where
  | missingField (field : String)
  | invalidField (field : String)
  | fieldTooLong (field : String) (len max : Nat)
  | wrongShape (format : SourceFormat)
  | otp (error : OtpError)
  | protobuf (error : ProtobufError)
  | notUtf8 (field : String)
  deriving DecidableEq

inductive ImportError where
  | unrecognizedFormat
  | empty
  | inputTooLarge (len max : Nat)
  | notUtf8
  | base64 (field : String)
  | missingField (field : String)
  | invalidField (field : String)
  | protobuf (error : ProtobufError)
  | mappingRequired
  | mappedColumnMissing (field : String)
  | tooManyRows (max : Nat)
  | rowTooLarge (row : Nat) (limit : String) (max : Nat)
  deriving DecidableEq

inductive SkipReason where
  | duplicateOfExisting
  | duplicateInBatch
  | noOtpSecret
  | unsupportedAlgorithm (name : Text)
  | unsupportedType (name : Text)
  | encryptedSecret
  | deleted
  deriving DecidableEq

inductive ImportWarning where
  | assumedDefault (field : String)
  | normalizedParam (field : String)
  | droppedField (field : String)
  | collidesWithExisting
  | duplicateOfExisting
  | secretPrefixUsed (used : Nat)
  | uri (warning : UriWarning)
  | importedAsArchived
  deriving DecidableEq

structure ImportedItem where
  otp : OtpConfig
  issuer : Option Text
  account : Text
  nickname : Option Text
  note : Option Text
  groups : List Text
  tags : List Text
  favorite : Bool
  archived : Bool
  origins : List Text
  source : SourceFormat
  deriving DecidableEq

def ImportedItem.new (source : SourceFormat) (otp : OtpConfig) (issuer : Option Text) (account : Text) : ImportedItem where
  otp := otp
  issuer := issuer.filter (fun issuer => issuer ≠ [])
  account := account
  nickname := none
  note := none
  groups := []
  tags := []
  favorite := false
  archived := false
  origins := []
  source := source

def ImportedItem.fromUri (source : SourceFormat) (uri : OtpUri) : ImportedItem := .new source uri.config uri.issuer uri.account

def ImportedItem.asOtpUri (self : ImportedItem) : OtpUri := .new self.otp self.issuer self.account

def ImportedItem.toUri (self : ImportedItem) : Text := self.asOtpUri.toUri

/-! ## Rows -/

structure RowId where
  index : Nat
  line : Option Nat
  label : Option Text
  deriving DecidableEq

def MAX_LABEL : Nat := 96

/-- The last offset at which a character begins that is not past the limit. -/
def lastOffset (max : Nat) : Text → Nat → Nat → Nat
  | [], _, last => last
  | ch :: rest, offset, last => if offset ≤ max then lastOffset max rest (offset + ch.utf8Size) offset else last

/-- `String::truncate`, at an offset where a character begins. -/
def truncateAt (cut : Nat) : Text → Nat → Text
  | [], _ => []
  | ch :: rest, offset => if offset < cut then ch :: truncateAt cut rest (offset + ch.utf8Size) else []

namespace RowId

/-- `RowId::at`. -/
def atIndex (index : Nat) : RowId := ⟨index, none, none⟩

def atLine (index line : Nat) : RowId := ⟨index, some line, none⟩

def labelled (self : RowId) (issuer : Option Text) (account : Text) : RowId :=
  let front := match issuer.filter (fun issuer => issuer ≠ []) with
    | some issuer => issuer ++ (if account ≠ [] then [':', ' '] else [])
    | none => []
  let label := front ++ account
  let label := if MAX_LABEL < label.utf8Len then truncateAt (lastOffset MAX_LABEL label 0 0) label 0 ++ ['…'] else label
  { self with label := some label |>.filter (fun label => label ≠ []) }

end RowId

inductive RowOutcome where
  | imported (row : RowId) (item : Nat) (warnings : List ImportWarning)
  | skipped (row : RowId) (reason : SkipReason)
  | failed (row : RowId) (error : RowError)
  deriving DecidableEq

def RowOutcome.row : RowOutcome → RowId
  | imported row _ _ => row
  | skipped row _ => row
  | failed row _ => row

structure BatchPart where
  index : U32
  total : U32
  deriving DecidableEq

structure ImportReport where
  items : List ImportedItem
  outcomes : List RowOutcome
  format : SourceFormat
  batchParts : List BatchPart
  deriving DecidableEq

/-! ## Text -/

/-- `text::decode`. -/
def decodeText (input : Bytes) (limits : Limits) : Except ImportError Text :=
  if input = [] then .error .empty
  else if limits.maxInputBytes < input.length then .error (.inputTooLarge input.length limits.maxInputBytes)
  else match fromUtf8 input with
    | none => .error .notUtf8
    | some text =>
      match text with
      | ch :: rest => .ok (if ch.toNat = 0xfeff then rest else ch :: rest)
      | [] => .ok []

def isForbidden (ch : Char) (allowNewlines : Bool) : Bool :=
  let c := ch.toNat
  if allowNewlines && (c = 0xa || c = 0xd || c = 0x9) then false
  else isControl ch || (0x202a ≤ c && c ≤ 0x202e) || (0x2066 ≤ c && c ≤ 0x2069) || (0x200b ≤ c && c ≤ 0x200f) ||
    (0x2060 ≤ c && c ≤ 0x2064) || c = 0xfeff

def checkField (field : String) (value : Text) (max : Nat) (allowNewlines : Bool) : Except RowError Unit :=
  if max < value.utf8Len then .error (.fieldTooLong field value.utf8Len max)
  else if value.any (fun ch => isForbidden ch allowNewlines) then .error (.invalidField field)
  else .ok ()

def nonEmpty (value : Option Text) : Option Text := (value.map trim).filter (fun value => value ≠ [])

end Misty.Importers
