import Misty.Crypto.Canonical
import Misty.Crypto.Envelope

/- Enrollment: what a new device asks for, and what an approving device seals for it.

   Correspondence (Rust ↔ Lean):
     `EnrollmentRequest::{canonical_bytes, confirmation_code, validate}` ↔ the same names
     `seal_aad`, `SealedEnrollment::{aad, signed_message}` ↔ `sealAad`, the same names
     `GrantContents`, `GrantWire`, `EnrollmentGrant` ↔ `EnrollmentGrant`: the three have the
       same fields
     `NewDeviceEnrollment::{begin, open}`      ↔ the same names
     `approve`, `constant_time_code_eq`        ↔ `approve`, `constantTimeCodeEq`
     `derive::enrollment_sealing_key`          ↔ `enrollmentSealingKey`
   What is encoded says what it was made of: `EnrollmentRequest.canonicalBytes_inj`,
   `SealedEnrollment.signedMessage_inj`.
   X25519, BLAKE2b-256 and the CBOR of a grant are fields of `EnrollmentPrims`. What a
   function draws is an argument. -/
namespace Misty

open Framing

def CONFIRMATION_CODE_DIGITS : Nat := 6
def REQUEST_CONTEXT : Bytes := asciiBytes "misty/enroll-request/v1"
def SEAL_CONTEXT : Bytes := asciiBytes "misty/enroll-seal/v1"
def ENROLLMENT_INFO_PREFIX : Bytes := asciiBytes "misty/enroll/v1"
def MAX_SERVER_URL_LEN : Nat := 512

/-- `EnrollmentRequest`: what the new device shows. -/
structure EnrollmentRequest where
  enrollId : EnrollId
  deviceId : DeviceId
  x25519Pub : ByteArr 32
  ed25519Pub : ByteArr 32
  name : Text
  platform : Text
  deriving DecidableEq

/-- `EnrollmentGrant`: what the new device gets. -/
structure EnrollmentGrant where
  vaultId : VaultId
  vaultKey : ByteArr 32
  epoch : U32
  serverUrl : Text
  roster : Roster
  deriving DecidableEq

structure SealedEnrollment where
  enrollId : EnrollId
  approverDeviceId : DeviceId
  approverX25519Pub : ByteArr 32
  newDeviceX25519Pub : ByteArr 32
  nonce : ByteArr 24
  ciphertext : Bytes
  signature : ByteArr 64

/-- The operations enrollment takes from its dependencies. -/
structure EnrollmentPrims where
  prims : Primitives
  /-- The public half of an X25519 secret. -/
  x25519Public : ByteArr 32 → ByteArr 32
  /-- The secret shared with the owner of a public half. -/
  diffieHellman : ByteArr 32 → ByteArr 32 → ByteArr 32
  /-- `SharedSecret::was_contributory`. -/
  wasContributory : ByteArr 32 → Bool
  blake2b256 : Bytes → ByteArr 32
  /-- `ciborium::into_writer` and `from_reader`, with the text of the error. -/
  intoWriter : EnrollmentGrant → Except String Bytes
  fromReader : Bytes → Except String EnrollmentGrant

/-! ## What is encoded -/

def EnrollmentRequest.canonicalBytes (self : EnrollmentRequest) : Bytes :=
  REQUEST_CONTEXT ++ self.enrollId.bytes.val ++ self.deviceId.bytes.val ++ self.x25519Pub.val ++ self.ed25519Pub.val ++
    [self.name, self.platform].flatMap (fun field =>
      let bytes := field.utf8
      toLe 4 (min bytes.length (2 ^ 32 - 1)) ++ bytes)

def EnrollmentRequest.validate (self : EnrollmentRequest) : Except CryptoError Unit :=
  if MAX_NAME_LEN < self.name.utf8Len then .error (.stringTooLong "device name" MAX_NAME_LEN)
  else if MAX_PLATFORM_LEN < self.platform.utf8Len then .error (.stringTooLong "device platform" MAX_PLATFORM_LEN)
  else .ok ()

def sealAad (enrollId : EnrollId) (approverDeviceId : DeviceId) (approverX25519Pub newDeviceX25519Pub : ByteArr 32)
    (nonce : ByteArr 24) : Bytes :=
  SEAL_CONTEXT ++ enrollId.bytes.val ++ approverDeviceId.bytes.val ++ approverX25519Pub.val ++ newDeviceX25519Pub.val ++
    nonce.val

namespace SealedEnrollment

def aad (self : SealedEnrollment) : Bytes :=
  sealAad self.enrollId self.approverDeviceId self.approverX25519Pub self.newDeviceX25519Pub self.nonce

def signedMessage (self : SealedEnrollment) : Bytes := self.aad ++ self.ciphertext

end SealedEnrollment

theorem EnrollmentRequest.measured_of_validate {request : EnrollmentRequest} (h : request.validate = .ok ()) :
    request.name.utf8Len < 2 ^ 32 ∧ request.platform.utf8Len < 2 ^ 32 := by
  unfold EnrollmentRequest.validate at h
  split at h
  · cases h
  next hname =>
    split at h
    · cases h
    next hplatform =>
      unfold MAX_NAME_LEN at hname
      unfold MAX_PLATFORM_LEN at hplatform
      omega

/-- Four parts of fixed widths, then two strings with their lengths. -/
theorem EnrollmentRequest.canonicalBytes_inj {a b : EnrollmentRequest} (ha : a.validate = .ok ()) (hb : b.validate = .ok ())
    (h : a.canonicalBytes = b.canonicalBytes) : a = b := by
  simp only [canonicalBytes, List.append_assoc, List.flatMap_cons, List.flatMap_nil] at h
  have hids := List.append_cancel_left h
  obtain ⟨hid, hdevices⟩ := (delimits_byteArr 16).inj trivial trivial hids
  obtain ⟨hdevice, hkeys⟩ := delimits_deviceId.inj trivial trivial hdevices
  obtain ⟨hx25519, hkeys'⟩ := (delimits_byteArr 32).inj trivial trivial hkeys
  obtain ⟨hed25519, hnames⟩ := (delimits_byteArr 32).inj trivial trivial hkeys'
  have hnames' : strBytes a.name ++ strBytes a.platform = strBytes b.name ++ strBytes b.platform := by
    simpa only [strBytes, List.append_assoc, List.append_nil] using hnames
  obtain ⟨hname, hplatforms⟩ := delimits_strBytes.inj (measured_of_validate ha).1 (measured_of_validate hb).1 hnames'
  obtain ⟨hplatform, -⟩ := delimits_strBytes.inj (s := []) (t := []) (measured_of_validate ha).2 (measured_of_validate hb).2
    (by simpa only [List.append_nil] using hplatforms)
  obtain ⟨⟨_⟩, _, _, _, _, _⟩ := a
  obtain ⟨⟨_⟩, _, _, _, _, _⟩ := b
  simp_all

/-- Five parts of fixed widths, then the ciphertext to the end. -/
theorem SealedEnrollment.signedMessage_inj {a b : SealedEnrollment} (h : a.signedMessage = b.signedMessage) :
    a.enrollId = b.enrollId ∧ a.approverDeviceId = b.approverDeviceId ∧ a.approverX25519Pub = b.approverX25519Pub ∧
      a.newDeviceX25519Pub = b.newDeviceX25519Pub ∧ a.nonce = b.nonce ∧ a.ciphertext = b.ciphertext := by
  simp only [signedMessage, aad, sealAad, List.append_assoc] at h
  have hids := List.append_cancel_left h
  obtain ⟨hid, hdevices⟩ := (delimits_byteArr 16).inj trivial trivial hids
  obtain ⟨hdevice, hkeys⟩ := delimits_deviceId.inj trivial trivial hdevices
  obtain ⟨happrover, hkeys'⟩ := (delimits_byteArr 32).inj trivial trivial hkeys
  obtain ⟨hnew, hnonces⟩ := (delimits_byteArr 32).inj trivial trivial hkeys'
  obtain ⟨hnonce, hciphertext⟩ := (delimits_byteArr 24).inj trivial trivial hnonces
  refine ⟨?_, hdevice, happrover, hnew, hnonce, hciphertext⟩
  obtain ⟨⟨_⟩, _, _, _, _, _, _⟩ := a
  obtain ⟨⟨_⟩, _, _, _, _, _, _⟩ := b
  simp_all

/-! ## The two sides -/

variable (X : EnrollmentPrims)

/-- `EnrollmentRequest::confirmation_code`: a number in six digits. -/
def EnrollmentRequest.confirmationCode (self : EnrollmentRequest) : Text :=
  let head := (X.blake2b256 self.canonicalBytes).val.take 4
  let value := ofLe head.reverse % 10 ^ CONFIRMATION_CODE_DIGITS
  let digits := Nat.toDigits 10 value
  List.replicate (CONFIRMATION_CODE_DIGITS - digits.length) '0' ++ digits

def constantTimeCodeEq (left right : Text) : Bool :=
  if left.utf8Len ≠ right.utf8Len then false else left.utf8 = right.utf8

def enrollmentSealingKey (sharedSecret : ByteArr 32) (enrollId : EnrollId)
    (approverX25519Pub newDeviceX25519Pub : ByteArr 32) : Except CryptoError (ByteArr 32) :=
  hkdfSha512 X.prims sharedSecret.val enrollId.bytes.val
    (ENROLLMENT_INFO_PREFIX ++ approverX25519Pub.val ++ newDeviceX25519Pub.val) 32

structure NewDeviceEnrollment where
  request : EnrollmentRequest
  ephemeral : ByteArr 32

/-- `NewDeviceEnrollment::begin`, over the two values it draws. -/
def NewDeviceEnrollment.begin (identity : DeviceIdentity) (name platform : Text)
    (drawnEphemeral : Except CryptoError (ByteArr 32)) (drawnId : Except CryptoError EnrollId) :
    Except CryptoError NewDeviceEnrollment := do
  let ephemeral ← drawnEphemeral
  let enrollId ← drawnId
  let request : EnrollmentRequest :=
    ⟨enrollId, identity.deviceId, X.x25519Public ephemeral, identity.ed25519Public X.prims, name, platform⟩
  request.validate
  return ⟨request, ephemeral⟩

def NewDeviceEnrollment.open (self : NewDeviceEnrollment) (sealed : SealedEnrollment) :
    Except CryptoError EnrollmentGrant := do
  if sealed.enrollId ≠ self.request.enrollId then throw .enrollIdMismatch
  if sealed.newDeviceX25519Pub ≠ self.request.x25519Pub then throw .enrollmentUnsealFailed
  let shared := X.diffieHellman self.ephemeral sealed.approverX25519Pub
  if X.wasContributory shared = false then throw .nonContributoryKeyExchange
  let key ← enrollmentSealingKey X shared sealed.enrollId sealed.approverX25519Pub self.request.x25519Pub
  match X.prims.aeadDecrypt key sealed.nonce sealed.aad sealed.ciphertext with
  | none => throw .enrollmentUnsealFailed
  | some plaintext =>
    let wire ← (X.fromReader plaintext).mapError (CryptoError.cbor "decode")
    if MAX_SERVER_URL_LEN < wire.serverUrl.utf8Len then throw (.stringTooLong "server_url" MAX_SERVER_URL_LEN)
    wire.roster.validate X.prims
    match wire.roster.contains sealed.approverDeviceId with
    | none => throw .enrollmentApproverUnknown
    | some approver =>
      if X.prims.validKey approver.ed25519Pub = false then throw .badVerifyingKey
      if X.prims.verifyStrict approver.ed25519Pub sealed.signedMessage sealed.signature = false then
        throw .enrollmentSignatureInvalid
      let _ ← wire.roster.verify X.prims
      match wire.roster.contains self.request.deviceId with
      | none => throw (.deviceNotInRoster self.request.deviceId)
      | some own =>
        if own.ed25519Pub ≠ self.request.ed25519Pub then throw (.deviceNotInRoster self.request.deviceId)
        return wire

/-- `approve`, over the two values it draws. -/
def approve (request : EnrollmentRequest) (confirmationCode : Text) (grant : EnrollmentGrant) (approver : DeviceIdentity)
    (drawnEphemeral : Except CryptoError (ByteArr 32)) (drawnNonce : Except CryptoError (ByteArr 24)) :
    Except CryptoError SealedEnrollment := do
  request.validate
  if constantTimeCodeEq (trim confirmationCode) (request.confirmationCode X) = false then throw .confirmationCodeMismatch
  if MAX_SERVER_URL_LEN < grant.serverUrl.utf8Len then throw (.stringTooLong "server_url" MAX_SERVER_URL_LEN)
  let signer ← grant.roster.verify X.prims
  if signer.deviceId ≠ approver.deviceId then throw (.rosterSignerNotInRoster approver.deviceId)
  match grant.roster.contains request.deviceId with
  | none => throw (.deviceNotInRoster request.deviceId)
  | some enrolled =>
    if enrolled.ed25519Pub ≠ request.ed25519Pub then throw (.deviceNotInRoster request.deviceId)
    let ephemeral ← drawnEphemeral
    let approverX25519Pub := X.x25519Public ephemeral
    let shared := X.diffieHellman ephemeral request.x25519Pub
    if X.wasContributory shared = false then throw .nonContributoryKeyExchange
    let key ← enrollmentSealingKey X shared request.enrollId approverX25519Pub request.x25519Pub
    let encoded ← (X.intoWriter grant).mapError (CryptoError.cbor "encode")
    let nonce ← drawnNonce
    let aad := sealAad request.enrollId approver.deviceId approverX25519Pub request.x25519Pub nonce
    match X.prims.aeadEncrypt key nonce aad encoded with
    | none => throw .aeadEncrypt
    | some ciphertext =>
      return ⟨request.enrollId, approver.deviceId, approverX25519Pub, request.x25519Pub, nonce, ciphertext,
        approver.sign X.prims (aad ++ ciphertext)⟩

end Misty
