import Misty.Importers.Model

/- Which column of a file holds which field.

   Correspondence (Rust ↔ Lean):
     `mapping::ColumnMapping`                  ↔ `ColumnMapping`, its fields named by `Slot`
     `ColumnMapping::{new, slot, slot_mut, is_empty, infer_from_header}` ↔ the same names
     `ColumnMapping::CANDIDATES`               ↔ `CANDIDATES`
   `slot_mut` is `setSlot`: what is written through it is the value it is given. -/
namespace Misty.Importers

/-- The fields a mapping can name. -/
inductive Slot where
  | uri
  | secret
  | issuer
  | account
  | kind
  | algorithm
  | digits
  | period
  | counter
  | pin
  | note
  | tags
  | group
  | url
  deriving DecidableEq

structure ColumnMapping where
  uri : Option Text
  secret : Option Text
  issuer : Option Text
  account : Option Text
  kind : Option Text
  algorithm : Option Text
  digits : Option Text
  period : Option Text
  counter : Option Text
  pin : Option Text
  note : Option Text
  tags : Option Text
  group : Option Text
  url : Option Text
  hasHeader : Bool
  delimiter : Byte
  listSeparator : Char
  arrayPath : Option Text
  deriving DecidableEq

/-- `ColumnMapping::CANDIDATES`. The first spelling present in the header wins. -/
def CANDIDATES : List (Slot × List String) :=
  [(.uri, ["otpauth", "otpauth_url", "otp_url", "uri", "url_otp", "link"]),
   (.secret, ["secret", "seed", "secret_key", "totp_secret", "key", "otp_secret"]),
   (.issuer, ["issuer", "service", "provider", "site", "organisation", "organization", "name", "title"]),
   (.account, ["account", "username", "user", "login", "email", "account_name", "label"]),
   (.kind, ["kind", "type", "otp_type", "token_type", "tokentype"]),
   (.algorithm, ["algorithm", "algo", "hash", "hmac"]),
   (.digits, ["digits", "length", "code_length", "digit_count"]),
   (.period, ["period", "timestep", "time_step", "interval", "timer", "step"]),
   (.counter, ["counter", "hotp_counter"]),
   (.pin, ["pin", "motp_pin"]),
   (.note, ["note", "notes", "comment", "description"]),
   (.tags, ["tags", "tag", "labels"]),
   (.group, ["group", "folder", "category", "collection"]),
   (.url, ["url", "website", "origin", "domain"])]

namespace ColumnMapping

def new : ColumnMapping where
  uri := none
  secret := none
  issuer := none
  account := none
  kind := none
  algorithm := none
  digits := none
  period := none
  counter := none
  pin := none
  note := none
  tags := none
  group := none
  url := none
  hasHeader := true
  delimiter := 0x2c
  listSeparator := ','
  arrayPath := none

def mistyPlaintextJson : ColumnMapping :=
  { new with
    arrayPath := some "items".toList
    uri := some "uri".toList
    issuer := some "issuer".toList
    account := some "account".toList
    note := some "note".toList }

def slot (self : ColumnMapping) : Slot → Option Text
  | .uri => self.uri
  | .secret => self.secret
  | .issuer => self.issuer
  | .account => self.account
  | .kind => self.kind
  | .algorithm => self.algorithm
  | .digits => self.digits
  | .period => self.period
  | .counter => self.counter
  | .pin => self.pin
  | .note => self.note
  | .tags => self.tags
  | .group => self.group
  | .url => self.url

/-- `ColumnMapping::slot_mut`, written through. -/
def setSlot (self : ColumnMapping) (field : Slot) (value : Option Text) : ColumnMapping :=
  match field with
  | .uri => { self with uri := value }
  | .secret => { self with secret := value }
  | .issuer => { self with issuer := value }
  | .account => { self with account := value }
  | .kind => { self with kind := value }
  | .algorithm => { self with algorithm := value }
  | .digits => { self with digits := value }
  | .period => { self with period := value }
  | .counter => { self with counter := value }
  | .pin => { self with pin := value }
  | .note => { self with note := value }
  | .tags => { self with tags := value }
  | .group => { self with group := value }
  | .url => { self with url := value }

def isEmpty (self : ColumnMapping) : Bool :=
  self.uri.isNone && self.secret.isNone && self.issuer.isNone && self.account.isNone && self.kind.isNone &&
    self.algorithm.isNone && self.digits.isNone && self.period.isNone && self.counter.isNone && self.pin.isNone &&
    self.note.isNone && self.tags.isNone && self.group.isNone && self.url.isNone

/-- A header name as the candidates spell theirs. -/
def normalized (name : Text) : Text :=
  let name := ((trim name).dropWhile (fun ch => ch.toNat = 0xfeff)).map toAsciiLowercase
  name.map (fun ch => if ch = ' ' || ch = '-' then '_' else ch)

/-- The column a candidate list finds. -/
def foundIn (header : List Text) (candidates : List String) : Option Text :=
  candidates.findSome? (fun candidate => header.find? (fun name => normalized name = candidate.toList))

/-- One field of `infer_from_header`. What the caller named is left as it is. -/
def inferSlot (header : List Text) (self : ColumnMapping) (candidate : Slot × List String) : ColumnMapping :=
  if (self.slot candidate.1).isSome then self
  else match foundIn header candidate.2 with
    | some name => self.setSlot candidate.1 (some name)
    | none => self

def inferFromHeader (self : ColumnMapping) (header : List Text) : ColumnMapping × Bool :=
  let filled := CANDIDATES.foldl (inferSlot header) self
  (filled, filled.uri.isSome || filled.secret.isSome)

end ColumnMapping

end Misty.Importers
