import Misty.Types

/- The typed errors of `misty-crypto`, `misty-otp` and `misty-vault`, with the
   data each variant carries. Only the variants a modelled function can return
   are listed. -/
namespace Misty

/-- `misty_crypto::Error`. -/
inductive CryptoError where
  | random (code : Nat)
  | truncated (context : String) (needed got : Nat)
  | badEnvelopeMagic
  | unsupportedFormatVersion (context : String) (found supported : Nat)
  | unknownEnvelopeKind (found : Nat)
  | malformedBody (detail : String)
  | epochMismatch (expected found : U32)
  | unknownSigner (signer : DeviceId)
  | signatureInvalid
  | itemKeyUnwrapFailed
  | payloadDecryptFailed
  | badPaddingLength (declared available : Nat)
  | badPadding (detail : String)
  | payloadTooLarge (len max : Nat)
  | kdf (detail : String)
  | aeadEncrypt
  | stringTooLong (field : String) (max : Nat)
  | rosterUnsigned
  | rosterSignerNotInRoster (signer : DeviceId)
  | rosterSignatureInvalid
  | duplicateDevice (device : DeviceId)
  | badVerifyingKey
  | enrollIdMismatch
  | confirmationCodeMismatch
  | nonContributoryKeyExchange
  | enrollmentUnsealFailed
  | enrollmentApproverUnknown
  | enrollmentSignatureInvalid
  | deviceNotInRoster (device : DeviceId)
  | cbor (operation detail : String)
  | badBackupMagic
  | reservedNotZero (context : String)
  | unknownKdfId (found : Nat)
  | kdfParamsRejected (memoryKib iterations parallelism : Nat) (detail : String)
  | inflate (detail : String)
  | inflateLimit (max : Nat)
  | backupDecryptFailed
  | wrongWordCount (expected found : Nat)
  | unknownWord (index : Nat)
  | wordChecksumMismatch
  | badCompactLength (expected found : Nat)
  | badCompactChar (index : Nat)
  | badCompactPadding
  | crc32Mismatch
  deriving DecidableEq

/-- The OTP construction. -/
inductive OtpKind where
  | totp
  | hotp
  | steam
  | motp
  | blizzard
  | yandex
  deriving DecidableEq

inductive Base32Error where
  | invalidChar (ch : Char) (offset : Nat)
  | paddingInMiddle (offset : Nat)
  | invalidLength (chars : Nat)
  | tooLong (len max : Nat)
  deriving DecidableEq

inductive UriError where
  | tooLong (len max : Nat)
  | canonicalTooLong (len max : Nat)
  | notOtpauth
  | migrationUri
  | unknownKind
  | missingParam (name : String)
  | duplicateParam (name : String)
  | invalidParam (name : String)
  | badPercentEscape (offset : Nat)
  | notUtf8
  | controlChar (code : Nat)
  | malformedQuery
  deriving DecidableEq

inductive OtpError where
  | invalidDigits (digits : Nat)
  | invalidPeriod (period : Nat)
  | emptySecret
  | secretTooLong (len max : Nat)
  | missingPin (kind : OtpKind)
  | base32 (error : Base32Error)
  | invalidHexSecret
  | uri (error : UriError)
  | timeOutOfRange (unixMs : Nat)
  | counterExhausted (counter : Nat)
  | internal (detail : String)
  deriving DecidableEq

inductive VaultError where
  | crypto (error : CryptoError)
  | otp (error : OtpError)
  | cbor (operation : String) (detail : String)
  | unsupportedFormatVersion (context : String) (found supported : Nat)
  | payloadTooLarge (context : String) (len max : Nat)
  | stringTooLong (field : String) (max found : Nat)
  | disallowedCharacter (field : String) (code index : Nat)
  | emptyField (field : String)
  | tooManyElements (field : String) (max found : Nat)
  | duplicateKey (field : String)
  | unknownEnumValue (field : String) (found : Nat)
  | hlcOutOfRange (wallMs min max : Nat)
  | clockExhausted
  | clockCollision (field : String)
  | idMismatch (expected found : ItemId)
  | kindMismatch (expected found : String)
  | secretIsImmutable (item : ItemId)
  | noSuchItem (id : ItemId)
  | noSuchGroup (id : GroupId)
  | itemExists (id : ItemId)
  | ambiguousAccount (existing : ItemId)
  | duplicateAccount (existing : ItemId)
  | mergeDidNotSettle (max : Nat)
  | corruptRecord (itemId : ItemId) (source : VaultError)
  | deviceNotInRoster (device : DeviceId)
  | storage (detail : String)
  | noTransaction
  | epochExhausted
  deriving DecidableEq

def VaultError.corrupt (id : ItemId) (source : VaultError) : VaultError := .corruptRecord id source

abbrev Result (α : Type) := Except VaultError α

/-- A crypto failure as the vault reports it. -/
def liftCrypto {α : Type} (x : Except CryptoError α) : Result α := x.mapError .crypto

/-- An OTP failure as the vault reports it. -/
def liftOtp {α : Type} (x : Except OtpError α) : Result α := x.mapError .otp

/-! ## Results that are `Ok` -/

theorem bind_eq_ok {ε α β : Type} {x : Except ε α} {f : α → Except ε β} {b : β} :
    x >>= f = .ok b ↔ ∃ a, x = .ok a ∧ f a = .ok b := by
  constructor
  · intro h
    cases x with
    | error e => cases h
    | ok a => exact ⟨a, rfl, h⟩
  · rintro ⟨a, rfl, hb⟩
    exact hb

/-- A check, then the rest: as a `do` block writes `if … then throw …`. -/
theorem guard_eq_ok {ε β : Type} {c : Prop} [Decidable c] {e : ε} {rest : Unit → Except ε β} {b : β} :
    (have jp := rest
     if c then (throw e : Except ε Unit) >>= jp else jp ()) = .ok b ↔ ¬ c ∧ rest () = .ok b := by
  by_cases h : c
  · simp only [h, if_true, not_true_eq_false, false_and, iff_false]
    exact nofun
  · simp only [h, if_false, not_false_eq_true, true_and]

theorem error_of_not_ok {ε α : Type} {x : Except ε α} (h : ∀ a, x ≠ .ok a) : ∃ e, x = .error e := by
  cases x with
  | ok a => exact absurd rfl (h a)
  | error e => exact ⟨e, rfl⟩

theorem mapError_eq_ok {ε ε' α : Type} {x : Except ε α} {f : ε → ε'} {a : α} :
    x.mapError f = .ok a ↔ x = .ok a := by
  cases x <;> simp [Except.mapError]

end Misty
