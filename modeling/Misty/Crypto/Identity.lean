import Misty.Error
import Misty.Lib.Bytes

/- Device identities and the roster, over the cryptographic primitives the crate
   takes from its dependencies.

   Correspondence (Rust ↔ Lean):
     `aead::{encrypt, decrypt}`, `SigningKey::sign`, `VerifyingKey::{from_bytes,
       verify_strict}`, `Hkdf::expand`         ↔ the fields of `Primitives`
     `derive::{hkdf_sha512, epoch_key}`        ↔ `hkdfSha512`, `epochKey`
     `identity::{DeviceIdentity, DeviceRecord, Roster}` ↔ the same names
     `Roster::{contains, remove, sign, verify, validate, signing_bytes}` ↔ the same
   The primitives are parameters; `Primitives.Correct` is what their
   documentation promises of them. -/
namespace Misty

/-- The operations of the cryptographic dependencies. -/
structure Primitives where
  aeadEncrypt : ByteArr 32 → ByteArr 24 → Bytes → Bytes → Option Bytes
  aeadDecrypt : ByteArr 32 → ByteArr 24 → Bytes → Bytes → Option Bytes
  /-- The public half of a signing key. -/
  publicOf : ByteArr 32 → ByteArr 32
  sign : ByteArr 32 → Bytes → ByteArr 64
  /-- `VerifyingKey::from_bytes` accepts the bytes. -/
  validKey : ByteArr 32 → Bool
  verifyStrict : ByteArr 32 → Bytes → ByteArr 64 → Bool
  /-- HKDF-SHA-512: input key material, salt, info. -/
  hkdf : Bytes → Bytes → Bytes → (n : Nat) → ByteArr n

/-- Decryption inverts encryption and the tag is sixteen bytes; a signature verifies
under the public half of the key that made it. -/
structure Primitives.Correct (P : Primitives) : Prop where
  decrypt_encrypt : ∀ key nonce aad plaintext ciphertext,
    P.aeadEncrypt key nonce aad plaintext = some ciphertext →
      P.aeadDecrypt key nonce aad ciphertext = some plaintext ∧
        ciphertext.length = plaintext.length + 16
  validKey_publicOf : ∀ secret, P.validKey (P.publicOf secret) = true
  verify_sign : ∀ secret message,
    P.verifyStrict (P.publicOf secret) message (P.sign secret message) = true

variable (P : Primitives)

def U32.toLeBytes (n : U32) : ByteArr 4 := ⟨toLe 4 n.val, length_toLe 4 _⟩

def U32.fromLeBytes (bytes : ByteArr 4) : U32 :=
  ⟨ofLe bytes.val, by
    have h := ofLe_lt bytes.val
    rw [bytes.property] at h
    exact lt_of_lt_of_eq h (by decide)⟩

@[simp] theorem U32.fromLeBytes_toLeBytes (n : U32) : U32.fromLeBytes n.toLeBytes = n := by
  apply Fin.ext
  exact ofLe_toLe 4 n.val (lt_of_lt_of_eq n.isLt (by decide))

/-- A byte string literal of the source. -/
def asciiBytes (s : String) : Bytes := s.toList.map (fun c => Fin.ofNat 256 c.toNat)

def hkdfSha512 (ikm salt info : Bytes) (n : Nat) : Except CryptoError (ByteArr n) :=
  if 255 * 64 < n then .error (.kdf "HKDF-SHA-512 cannot produce an output that long")
  else .ok (P.hkdf ikm salt info n)

/-- The key of one epoch. -/
structure EpochKey where
  epoch : U32
  key : ByteArr 32

def epochKey (vaultKey : ByteArr 32) (epoch : U32) : Except CryptoError EpochKey :=
  (hkdfSha512 P vaultKey.val (asciiBytes "misty/epoch/v1") epoch.toLeBytes.val 32).map
    (fun key => ⟨epoch, key⟩)

theorem epochKey_eq (vaultKey : ByteArr 32) (epoch : U32) :
    epochKey P vaultKey epoch =
      .ok ⟨epoch, P.hkdf vaultKey.val (asciiBytes "misty/epoch/v1") epoch.toLeBytes.val 32⟩ := rfl

/-! ## Devices -/

/-- A device's own keys. -/
structure DeviceIdentity where
  deviceId : DeviceId
  signing : ByteArr 32

def DeviceIdentity.ed25519Public (self : DeviceIdentity) : ByteArr 32 := P.publicOf self.signing

def DeviceIdentity.sign (self : DeviceIdentity) (message : Bytes) : ByteArr 64 :=
  P.sign self.signing message

/-- What the roster says about one device. -/
structure DeviceRecord where
  deviceId : DeviceId
  ed25519Pub : ByteArr 32
  name : Text
  platform : Text
  enrolledAt : I64
  enrolledBy : Option DeviceId
  deriving DecidableEq

def MAX_NAME_LEN : Nat := 64
def MAX_PLATFORM_LEN : Nat := 32

def DeviceRecord.validate (self : DeviceRecord) : Except CryptoError Unit :=
  if MAX_NAME_LEN < self.name.utf8Len then .error (.stringTooLong "device name" MAX_NAME_LEN)
  else if MAX_PLATFORM_LEN < self.platform.utf8Len then
    .error (.stringTooLong "device platform" MAX_PLATFORM_LEN)
  else if P.validKey self.ed25519Pub then .ok ()
  else .error .badVerifyingKey

/-- `append_str`: a length and the bytes. -/
def strBytes (value : Text) : Bytes :=
  let bytes := value.utf8
  toLe 4 (min bytes.length (2 ^ 32 - 1)) ++ bytes

/-- `DeviceRecord::append_signing_bytes`. -/
def DeviceRecord.signingBytes (self : DeviceRecord) : Bytes :=
  self.deviceId.bytes.val ++ self.ed25519Pub.val ++ strBytes self.name ++
    strBytes self.platform ++ toLe 8 (self.enrolledAt.val % 2 ^ 64).toNat ++
    match self.enrolledBy with
    | none => [0]
    | some id => 1 :: id.bytes.val

/-! ## The roster -/

/-- The devices a vault trusts, signed by one of them. -/
structure Roster where
  devices : List DeviceRecord
  signedBy : Option DeviceId
  signature : Option (ByteArr 64)
  deriving DecidableEq

namespace Roster

def contains (self : Roster) (id : DeviceId) : Option DeviceRecord :=
  self.devices.find? (fun record => record.deviceId = id)

/-- `Roster::remove`: the roster without the device, and whether it was there. -/
def remove (self : Roster) (id : DeviceId) : Roster × Bool :=
  let devices := self.devices.filter (fun record => record.deviceId ≠ id)
  (⟨devices, none, none⟩, self.devices.length ≠ devices.length)

def signingBytes (self : Roster) (signer : DeviceId) : Bytes :=
  asciiBytes "misty/roster/v1" ++ toLe 4 (min self.devices.length (2 ^ 32 - 1)) ++
    signer.bytes.val ++ self.devices.flatMap DeviceRecord.signingBytes

/-- The loop of `Roster::validate`. -/
def validateDevices : List DeviceRecord → Except CryptoError Unit
  | [] => .ok ()
  | record :: rest => do
    record.validate P
    if rest.any (fun other => other.deviceId = record.deviceId) then
      throw (.duplicateDevice record.deviceId)
    validateDevices rest

def validate (self : Roster) : Except CryptoError Unit := validateDevices P self.devices

def sign (self : Roster) (identity : DeviceIdentity) : Except CryptoError Roster := do
  self.validate P
  match self.contains identity.deviceId with
  | none => throw (.rosterSignerNotInRoster identity.deviceId)
  | some record =>
    if record.ed25519Pub ≠ identity.ed25519Public P then throw .rosterSignatureInvalid
    return { self with
      signedBy := some identity.deviceId
      signature := some (identity.sign P (self.signingBytes identity.deviceId)) }

def verify (self : Roster) : Except CryptoError DeviceRecord := do
  self.validate P
  match self.signedBy, self.signature with
  | some signer, some signature =>
    match self.contains signer with
    | none => throw (.rosterSignerNotInRoster signer)
    | some record =>
      if P.validKey record.ed25519Pub = false then throw .badVerifyingKey
      if P.verifyStrict record.ed25519Pub (self.signingBytes signer) signature = false then
        throw .rosterSignatureInvalid
      return record
  | _, _ => throw .rosterUnsigned

end Roster

/-! ## Values for the worked instances -/

/-- A checksum of bytes. -/
def checksum (bytes : Bytes) : Nat := bytes.foldl (fun h b => h * 257 + b.val + 1) 7

/-- Primitives that can be run: an empty cipher with a tag of zeros, and a signature
that names its key and a checksum of the message. -/
def Primitives.sample : Primitives where
  aeadEncrypt _ _ _ plaintext := some (plaintext ++ List.replicate 16 0)
  aeadDecrypt _ _ _ ciphertext := some (ciphertext.take (ciphertext.length - 16))
  publicOf secret := secret
  sign secret message := ⟨secret.val ++ toLe 32 (checksum message),
    by rw [List.length_append, secret.property, length_toLe]⟩
  validKey _ := true
  verifyStrict key message signature := signature.val = key.val ++ toLe 32 (checksum message)
  hkdf ikm salt info n := ⟨toLe n (checksum (ikm ++ salt ++ info)), length_toLe n _⟩

theorem Primitives.sample_correct : Primitives.sample.Correct where
  decrypt_encrypt := by
    intro key nonce aad plaintext ciphertext h
    cases h
    simp [sample]
  validKey_publicOf _ := rfl
  verify_sign _ _ := by simp [sample]

end Misty
