import Misty.Lib.Ascii
import Misty.Error
import Misty.Limits

/- The one-time-password configuration of `misty-otp`: the six constructions, the
   parameters each of them fixes, the builder that refuses what cannot generate a
   code, and the setters that keep it so.

   Correspondence (Rust ↔ Lean):
     `HashAlg`, `OtpKind`, `OtpConfig`         ↔ the types of the same names
     `SecretEncoding`                          ↔ `SecretEncoding`
     `OtpConfigBuilder`, `build`               ↔ `OtpConfigBuilder`, `.build`
     `OtpConfig::{totp, hotp, …, set_pin, with_kind}` ↔ the same names
     `check_digits`, `check_period`            ↔ `checkDigits`, `checkPeriod`
     `SecretBytes::check_len`                  ↔ `SecretBytes.checkLen` -/
namespace Misty

/-- The HMAC hash. -/
inductive HashAlg where
  | sha1
  | sha256
  | sha512
  deriving DecidableEq

namespace HashAlg

def asStr : HashAlg → Text
  | sha1 => "SHA1".toList
  | sha256 => "SHA256".toList
  | sha512 => "SHA512".toList

def outputLen : HashAlg → Nat
  | sha1 => 20
  | sha256 => 32
  | sha512 => 64

/-- `HashAlg::from_str`: either case, and the hyphenated spellings. -/
def fromStr (input : Text) : Except OtpError HashAlg :=
  match [("SHA1", sha1), ("SHA-1", sha1), ("SHA256", sha256), ("SHA-256", sha256), ("SHA512", sha512),
      ("SHA-512", sha512)].find? (fun entry => eqIgnoreAsciiCase input entry.1.toList) with
  | some entry => .ok entry.2
  | none => .error (.uri (.invalidParam "algorithm"))

theorem fromStr_asStr : ∀ alg : HashAlg, fromStr alg.asStr = .ok alg
  | sha1 => by rfl
  | sha256 => by rfl
  | sha512 => by rfl

end HashAlg

/-- How a secret or a PIN is written in a URI. -/
inductive SecretEncoding where
  | base32
  | hex
  | text
  deriving DecidableEq

namespace OtpKind

def all : List OtpKind := [totp, hotp, steam, motp, blizzard, yandex]

def uriType : OtpKind → Text
  | totp => "totp".toList
  | hotp => "hotp".toList
  | steam => "steam".toList
  | motp => "motp".toList
  | blizzard => "blizzard".toList
  | yandex => "yaotp".toList

def serializesAs : OtpKind → OtpKind
  | blizzard => totp
  | other => other

def fromUriType (authority : Text) : Option OtpKind :=
  if eqIgnoreAsciiCase authority "yandex".toList then some yandex
  else all.find? (fun kind => eqIgnoreAsciiCase authority kind.uriType)

theorem fromUriType_uriType : ∀ kind : OtpKind, fromUriType kind.uriType = some kind
  | totp => by rfl
  | hotp => by rfl
  | steam => by rfl
  | motp => by rfl
  | blizzard => by rfl
  | yandex => by rfl

def defaultDigits : OtpKind → Byte
  | totp | hotp | motp => 6
  | steam => 5
  | blizzard | yandex => 8

def defaultPeriod : OtpKind → U16
  | motp => 10
  | _ => 30

def defaultAlgorithm : OtpKind → HashAlg
  | yandex => .sha256
  | _ => .sha1

/-- The digit count a construction fixes, if it fixes one. -/
def fixedDigits : OtpKind → Option Byte
  | totp | hotp => none
  | other => some other.defaultDigits

def fixedPeriod : OtpKind → Option U16
  | totp => none
  | other => some other.defaultPeriod

def fixedAlgorithm : OtpKind → Option HashAlg
  | totp | hotp => none
  | other => some other.defaultAlgorithm

def usesCounter (kind : OtpKind) : Bool := kind = hotp

def usesPin (kind : OtpKind) : Bool := kind = motp || kind = yandex

def isTimeBased (kind : OtpKind) : Bool := kind ≠ hotp

def secretEncoding : OtpKind → SecretEncoding
  | motp => .hex
  | _ => .base32

def pinEncoding : OtpKind → SecretEncoding
  | yandex => .base32
  | _ => .text

end OtpKind

def SecretBytes.checkLen (self : SecretBytes) : Except OtpError Unit :=
  if self.bytes = [] then .error .emptySecret
  else if MAX_SECRET_LEN < self.bytes.length then
    .error (.secretTooLong self.bytes.length MAX_SECRET_LEN)
  else .ok ()

def checkDigits (digits : Byte) : Except OtpError Byte :=
  if MIN_DIGITS ≤ digits.val ∧ digits.val ≤ MAX_DIGITS then .ok digits
  else .error (.invalidDigits digits.val)

def checkPeriod (period : U16) : Except OtpError U16 :=
  if MIN_PERIOD ≤ period.val ∧ period.val ≤ MAX_PERIOD then .ok period
  else .error (.invalidPeriod period.val)

/-- A configuration that can generate codes. -/
structure OtpConfig where
  kind : OtpKind
  secret : SecretBytes
  algorithm : HashAlg
  digits : Byte
  period : U16
  counter : U64
  pin : Option SecretBytes
  deriving DecidableEq

/-- The parameters as they were asked for. -/
structure OtpConfigBuilder where
  kind : OtpKind
  secret : SecretBytes
  algorithm : Option HashAlg
  digits : Option Byte
  period : Option U16
  counter : U64
  pin : Option SecretBytes

/-- The PIN a configuration of `kind` keeps. -/
def OtpKind.keptPin (kind : OtpKind) (pin : Option SecretBytes) : Option SecretBytes :=
  if kind.usesPin then pin.filter (fun p => p.bytes ≠ []) else none

/-- `OtpConfigBuilder::build`. What the kind fixes is checked and then replaced. -/
def OtpConfigBuilder.build (self : OtpConfigBuilder) : Except OtpError OtpConfig := do
  self.secret.checkLen
  let digits ← match self.digits with
    | some digits => checkDigits digits
    | none => .ok self.kind.defaultDigits
  let period ← match self.period with
    | some period => checkPeriod period
    | none => .ok self.kind.defaultPeriod
  return {
    kind := self.kind
    secret := self.secret
    algorithm := self.kind.fixedAlgorithm.getD (self.algorithm.getD self.kind.defaultAlgorithm)
    digits := self.kind.fixedDigits.getD digits
    period := self.kind.fixedPeriod.getD period
    counter := if self.kind.usesCounter then self.counter else 0
    pin := self.kind.keptPin self.pin }

def OtpConfigBuilder.new (kind : OtpKind) (secret : SecretBytes) : OtpConfigBuilder where
  kind := kind
  secret := secret
  algorithm := none
  digits := none
  period := none
  counter := 0
  pin := none

namespace OtpConfig

def totp (secret : SecretBytes) : Except OtpError OtpConfig := (OtpConfigBuilder.new .totp secret).build

def totpWith (secret : SecretBytes) (algorithm : HashAlg) (digits : Byte) (period : U16) : Except OtpError OtpConfig :=
  { OtpConfigBuilder.new .totp secret with
    algorithm := some algorithm, digits := some digits, period := some period }.build

def hotp (secret : SecretBytes) (counter : U64) : Except OtpError OtpConfig :=
  { OtpConfigBuilder.new .hotp secret with counter := counter }.build

def hotpWith (secret : SecretBytes) (algorithm : HashAlg) (digits : Byte) (counter : U64) : Except OtpError OtpConfig :=
  { OtpConfigBuilder.new .hotp secret with
    algorithm := some algorithm, digits := some digits, counter := counter }.build

def steam (secret : SecretBytes) : Except OtpError OtpConfig := (OtpConfigBuilder.new .steam secret).build

def motp (secret pin : SecretBytes) : Except OtpError OtpConfig :=
  { OtpConfigBuilder.new .motp secret with pin := some pin }.build

def blizzard (secret : SecretBytes) : Except OtpError OtpConfig := (OtpConfigBuilder.new .blizzard secret).build

def yandex (secret pin : SecretBytes) : Except OtpError OtpConfig :=
  { OtpConfigBuilder.new .yandex secret with pin := some pin }.build

def setDigits (self : OtpConfig) (digits : Byte) : Except OtpError OtpConfig :=
  (checkDigits digits).map (fun d => { self with digits := self.kind.fixedDigits.getD d })

def setPeriod (self : OtpConfig) (period : U16) : Except OtpError OtpConfig :=
  (checkPeriod period).map (fun p => { self with period := self.kind.fixedPeriod.getD p })

def setAlgorithm (self : OtpConfig) (algorithm : HashAlg) : OtpConfig :=
  { self with algorithm := self.kind.fixedAlgorithm.getD algorithm }

def setCounter (self : OtpConfig) (counter : U64) : OtpConfig :=
  if self.kind.usesCounter then { self with counter := counter } else self

def setPin (self : OtpConfig) (pin : Option SecretBytes) : OtpConfig := { self with pin := self.kind.keptPin pin }

def setSecret (self : OtpConfig) (secret : SecretBytes) : Except OtpError OtpConfig :=
  secret.checkLen.map (fun _ => { self with secret := secret })

def withKind (self : OtpConfig) (kind : OtpKind) : OtpConfig where
  kind := kind
  secret := self.secret
  algorithm := kind.fixedAlgorithm.getD self.algorithm
  digits := kind.fixedDigits.getD self.digits
  period := kind.fixedPeriod.getD self.period
  counter := if kind.usesCounter then self.counter else 0
  pin := if kind.usesPin then self.pin else none

end OtpConfig

end Misty
