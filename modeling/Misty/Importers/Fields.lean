import Misty.Importers.Collect

/- From the fields of a row to a configuration, and from one URI to an item.

   Correspondence (Rust ↔ Lean):
     `build::{kind_from_str, decode_secret, OtpFields, config}` ↔ `kindFromStr`, `decodeSecret`, `OtpFields`, `OtpFields.config`
     `SecretBytes::from_base32`                ↔ `SecretBytes.fromBase32`
     `text::{split_list, split_label, origin_of}` ↔ the same names
     `otpauth::{item_from_uri, is_uri_line}`   ↔ the same names
     `str::parse` of an unsigned type          ↔ `parseBelow`, with its bound -/
namespace Misty.Importers

/-! ## Text -/

/-- `str::parse` of an unsigned number below a bound. -/
def parseBelow (bound : Nat) (value : Text) : Option (Fin bound) :=
  match parseDecimal value with
  | some n => if h : n.val < bound then some ⟨n.val, h⟩ else none
  | none => none

def splitList (value : Text) (separator : Char) (max : Nat) : List Text :=
  (((splitAll separator value).map trim).filter (fun part => part ≠ [])).take max

def splitLabel (label : Text) : Option Text × Text :=
  match splitOnce [':'] label with
  | some (issuer, account) => ((some (trim issuer)).filter (fun issuer => issuer ≠ []), trim account)
  | none => (none, trim label)

def originOf (url : Text) : Option Text :=
  let rest := trim (match splitOnce [':', '/', '/'] url with
    | some (_, rest) => rest
    | none => url)
  let authority := rest.takeWhile (fun ch => ch ≠ '/' && ch ≠ '?' && ch ≠ '#')
  let host := (authority.reverse.takeWhile (fun ch => ch ≠ '@')).reverse.takeWhile (fun ch => ch ≠ ':')
  if host ≠ [] ∧ Text.utf8Len host ≤ 253 ∧ '.' ∈ host ∧ ¬ host.any (fun ch => isWhitespace ch || isForbidden ch false) then
    some (host.map toAsciiLowercase)
  else none

/-! ## A configuration -/

/-- The spellings `kind_from_str` knows. -/
def KIND_SPELLINGS : List (String × OtpKind) :=
  [("totp", .totp), ("time", .totp), ("time-based", .totp), ("otp", .totp),
   ("hotp", .hotp), ("counter", .hotp), ("counter-based", .hotp),
   ("steam", .steam), ("steamguard", .steam), ("steam-totp", .steam),
   ("motp", .motp), ("mobile-otp", .motp), ("mobileotp", .motp),
   ("yandex", .yandex), ("yaotp", .yandex), ("yandex.key", .yandex),
   ("blizzard", .blizzard), ("battle.net", .blizzard), ("battlenet", .blizzard), ("bnet", .blizzard)]

def kindFromStr (value : Text) : Option OtpKind :=
  (KIND_SPELLINGS.find? (fun spelling => spelling.1.toList = (trim value).map toAsciiLowercase)).map Prod.snd

def SecretBytes.fromBase32 (encoded : Text) : Except OtpError SecretBytes := do
  let bytes ← (Base32.decode encoded).mapError .base32
  (SecretBytes.checkLen ⟨bytes⟩).map (fun _ => ⟨bytes⟩)

def decodeSecret (kind : OtpKind) (raw : Text) : Except RowError SecretBytes :=
  (match kind.secretEncoding with
    | .base32 => SecretBytes.fromBase32 raw
    | .hex => SecretBytes.fromHex raw
    | .text => .ok ⟨raw.utf8⟩).mapError .otp

structure OtpFields where
  kind : Option Text
  defaultKind : OtpKind
  secret : Option Text
  secretBytes : Option Bytes
  algorithm : Option Text
  digits : Option Byte
  period : Option U16
  counter : Option U64
  pin : Option Text

namespace OtpFields

/-- The kind of the fields. -/
def readKind (fields : OtpFields) : Except RowError OtpKind :=
  match fields.kind with
  | some raw =>
    match kindFromStr raw with
    | some kind => .ok kind
    | none => .error (.invalidField "type")
  | none => .ok fields.defaultKind

/-- The secret of the fields. -/
def readSecret (fields : OtpFields) (kind : OtpKind) : Except RowError SecretBytes :=
  match fields.secretBytes, fields.secret with
  | some bytes, _ => .ok ⟨bytes⟩
  | none, some raw => decodeSecret kind raw
  | none, none => .error (.missingField "secret")

/-- The algorithm of the fields. -/
def readAlgorithm (fields : OtpFields) : Except RowError (Option HashAlg) :=
  match fields.algorithm with
  | some raw => ((HashAlg.fromStr raw).mapError (fun _ => RowError.invalidField "algorithm")).map some
  | none => .ok none

/-- A parameter that was given and is not the one that is fixed, or was not given and is
assumed. -/
def noted {α : Type} [DecidableEq α] (field : String) (given fixed : Option α) (assumed : Bool) : List ImportWarning :=
  match given with
  | some _ => if differs given fixed then [.normalizedParam field] else []
  | none => if assumed then [.assumedDefault field] else []

/-- What the kind makes of the counter. -/
def notedCounter (kind : OtpKind) (counter : Option U64) : List ImportWarning :=
  if kind.usesCounter then (if counter.isNone then [.assumedDefault "counter"] else [])
  else if counter.any (fun counter => counter ≠ 0) then [.normalizedParam "counter"]
  else []

/-- What the kind makes of the PIN. -/
def notedPin (kind : OtpKind) (pin : Option Text) : List ImportWarning :=
  match kind.usesPin, pin with
  | true, none => [.assumedDefault "pin"]
  | false, some _ => [.normalizedParam "pin"]
  | _, _ => []

def config (fields : OtpFields) : Except RowError (OtpConfig × List ImportWarning) := do
  let kind ← fields.readKind
  let secret ← fields.readSecret kind
  let algorithm ← fields.readAlgorithm
  let built ← (OtpConfigBuilder.build
    { kind := kind
      secret := secret
      algorithm := algorithm
      digits := fields.digits
      period := fields.period
      counter := if kind.usesCounter then fields.counter.getD 0 else 0
      pin := if kind.usesPin then fields.pin.map (fun pin => ⟨pin.utf8⟩) else none }).mapError .otp
  return (built,
    noted "algorithm" algorithm kind.fixedAlgorithm kind.fixedAlgorithm.isNone ++
    noted "digits" fields.digits kind.fixedDigits kind.fixedDigits.isNone ++
    noted "period" fields.period kind.fixedPeriod (kind.fixedPeriod.isNone && kind.isTimeBased) ++
    notedCounter kind fields.counter ++ notedPin kind fields.pin)

end OtpFields

/-! ## One URI -/

/-- A warning of the parser, as an importer reports it. -/
def ofUriWarning : UriWarning → ImportWarning
  | .ignoredParam name => .normalizedParam name
  | other => .uri other

def itemFromUri (source : SourceFormat) (line : Text) : Except RowError (ImportedItem × List ImportWarning × OtpUri) :=
  match OtpUri.parseWithWarnings line with
  | .error error => .error (.otp error)
  | .ok (uri, warnings) =>
    .ok (.fromUri source uri,
      warnings.map ofUriWarning ++ (if uri.extra ≠ [] then [.droppedField "uri parameters"] else []), uri)

def isUriLine (line : Text) : Bool := line ≠ [] && line.head? ≠ some '#'

end Misty.Importers
