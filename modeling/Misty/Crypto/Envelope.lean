import Misty.Crypto.Identity

/- The envelope format: a 74-byte header, the wrapped item key, the padded and
   encrypted payload and a signature over all of it and the item id.

   What is proved:
     1. `unpad_pad` and `Header.parse_toBytes` — the two inner formats invert.
     2. `seal_sealed` — a sealed envelope parses back to the kind, epoch and signer it
        was sealed with.
     3. `Sealed.opens` — under a roster that carries the sealing device's key, opening
        a sealed envelope returns the payload.

   Correspondence (Rust ↔ Lean):
     `envelope::pad::{padded_len, pad, unpad}` ↔ `paddedLen`, `pad`, `unpad`
     `EnvelopeKind`, `Header`, `Header::{to_bytes, parse}` ↔ the same names
     `envelope::{seal, seal_with, open}`       ↔ `sealEnvelope`, `sealWith`, `Envelope.openWith`
     `Envelope::{parse, verify, aad, signed_message}` ↔ the same names
     `Verified::open`                          ↔ `Envelope.decrypt`
   `SealDraw` holds the random bytes one `seal` draws. -/
namespace Misty

def ENVELOPE_MAGIC : Bytes := asciiBytes "MSTY"
def ENVELOPE_FORMAT_VERSION : Byte := 1
def HEADER_LEN : Nat := 74
def WRAPPED_ITEM_KEY_LEN : Nat := 48
def SIGNATURE_LEN : Nat := 64
def TAG_LEN : Nat := 16
def PAD_BLOCK : Nat := 256
def MAX_PAYLOAD_LEN : Nat := 16 * 1024 * 1024
def MIN_ENVELOPE_LEN : Nat := HEADER_LEN + WRAPPED_ITEM_KEY_LEN + PAD_BLOCK + TAG_LEN + SIGNATURE_LEN

/-! ## Padding -/

/-- `padded_len`: the least multiple of the block that holds the prefix and `len` bytes. -/
def paddedLen (len : Nat) : Nat := (len + 4 + (PAD_BLOCK - 1)) / PAD_BLOCK * PAD_BLOCK

def pad (payload : Bytes) : Except CryptoError Bytes :=
  if MAX_PAYLOAD_LEN < payload.length then .error (.payloadTooLarge payload.length MAX_PAYLOAD_LEN)
  else
    .ok (toLe 4 payload.length ++ payload ++
      List.replicate (paddedLen payload.length - (4 + payload.length)) 0)

def unpad (padded : Bytes) : Except CryptoError Bytes :=
  if padded = [] ∨ padded.length % PAD_BLOCK ≠ 0 then
    .error (.badPadding "padded length is not a positive multiple of 256")
  else match slice padded 0 4 with
    | none => .error (.badPadding "padded buffer is shorter than its length prefix")
    | some lengthBytes =>
      let declared := ofLe lengthBytes
      let available := padded.length - 4
      if available < declared then .error (.badPaddingLength declared available)
      else if MAX_PAYLOAD_LEN < declared then .error (.payloadTooLarge declared MAX_PAYLOAD_LEN)
      else if paddedLen declared ≠ padded.length then
        .error (.badPadding "padding is not the minimal amount for the declared length")
      else
        let payload := (padded.drop 4).take declared
        let filler := (padded.drop 4).drop declared
        if filler.any (fun byte => byte ≠ 0) then .error (.badPadding "padding bytes are not zero")
        else .ok payload

theorem paddedLen_mod (n : Nat) : paddedLen n % PAD_BLOCK = 0 := Nat.mul_mod_left _ _

theorem le_paddedLen (n : Nat) : n + 4 ≤ paddedLen n := by
  unfold paddedLen PAD_BLOCK
  omega

theorem unpad_pad {payload padded : Bytes} (h : pad payload = .ok padded) :
    unpad padded = .ok payload ∧ padded.length = paddedLen payload.length ∧
      payload.length ≤ MAX_PAYLOAD_LEN := by
  unfold pad at h
  split at h
  · cases h
  next hmax =>
  cases h
  have hle := le_paddedLen payload.length
  have hmod := paddedLen_mod payload.length
  have hlen : (toLe 4 payload.length ++ payload ++
      List.replicate (paddedLen payload.length - (4 + payload.length)) (0 : Byte)).length =
      paddedLen payload.length := by
    simp only [List.length_append, length_toLe, List.length_replicate]
    omega
  have hslice : slice (toLe 4 payload.length ++ payload ++
      List.replicate (paddedLen payload.length - (4 + payload.length)) (0 : Byte)) 0 4 =
      some (toLe 4 payload.length) := by
    have := slice_append [] (toLe 4 payload.length) (payload ++
      List.replicate (paddedLen payload.length - (4 + payload.length)) (0 : Byte)) rfl
      (length_toLe 4 payload.length)
    simpa [List.append_assoc] using this
  have hdecl : ofLe (toLe 4 payload.length) = payload.length := by
    apply ofLe_toLe
    unfold MAX_PAYLOAD_LEN at hmax
    omega
  have hdrop : (toLe 4 payload.length ++ payload ++
      List.replicate (paddedLen payload.length - (4 + payload.length)) (0 : Byte)).drop 4 =
      payload ++ List.replicate (paddedLen payload.length - (4 + payload.length)) (0 : Byte) := by
    rw [List.append_assoc, List.drop_left' (length_toLe 4 _)]
  have hne : toLe 4 payload.length ++ payload ++
      List.replicate (paddedLen payload.length - (4 + payload.length)) (0 : Byte) ≠ [] := by
    intro hnil
    rw [hnil, List.length_nil] at hlen
    omega
  refine ⟨?_, hlen, not_lt.mp hmax⟩
  unfold unpad
  simp only [hslice, hlen, hdecl, hmod, hne, hdrop, List.take_left, List.drop_left]
  rw [if_neg (by simp), if_neg (by omega), if_neg hmax, if_neg (by simp), if_neg (by simp)]

/-! ## The header -/

/-- What an envelope holds. -/
inductive EnvelopeKind where
  | item
  | deviceRoster
  | settings
  | group
  | customIcon
  deriving DecidableEq

namespace EnvelopeKind

def asU8 : EnvelopeKind → Byte
  | item => 1
  | deviceRoster => 2
  | settings => 3
  | group => 4
  | customIcon => 5

def fromU8 (byte : Byte) : Except CryptoError EnvelopeKind :=
  match byte.val with
  | 1 => .ok item
  | 2 => .ok deviceRoster
  | 3 => .ok settings
  | 4 => .ok group
  | 5 => .ok customIcon
  | found => .error (.unknownEnvelopeKind found)

@[simp] theorem fromU8_asU8 (kind : EnvelopeKind) : fromU8 kind.asU8 = .ok kind := by
  cases kind <;> rfl

end EnvelopeKind

/-- The authenticated prefix of an envelope. -/
structure Header where
  kind : EnvelopeKind
  epoch : U32
  signer : DeviceId
  wikNonce : ByteArr 24
  payloadNonce : ByteArr 24
  deriving DecidableEq

def take (bytes : Bytes) (offset len : Nat) (context : String) : Except CryptoError Bytes :=
  match slice bytes offset len with
  | some part => .ok part
  | none => .error (.truncated context (offset + len) bytes.length)

def byteAt (bytes : Bytes) (offset : Nat) : Except CryptoError Byte :=
  match bytes[offset]? with
  | some b => .ok b
  | none => .error (.truncated "envelope header" (offset + 1) bytes.length)

def arrayAt (n : Nat) (bytes : Bytes) (offset : Nat) : Except CryptoError (ByteArr n) :=
  match h : slice bytes offset n with
  | some part => .ok ⟨part, length_of_slice h⟩
  | none => .error (.truncated "envelope header" (offset + n) bytes.length)

theorem take_append (front mid back : Bytes) (context : String) {offset len : Nat}
    (ho : front.length = offset) (hl : mid.length = len) :
    take (front ++ mid ++ back) offset len context = .ok mid := by
  rw [take, slice_append front mid back ho hl]

theorem arrayAt_append {n : Nat} (front : Bytes) (mid : ByteArr n) (back : Bytes) {k : Nat}
    (ho : front.length = k) : arrayAt n (front ++ mid.val ++ back) k = .ok mid := by
  have hs := slice_append front mid.val back ho mid.property
  unfold arrayAt
  split
  · next part h =>
    rw [hs] at h
    cases h
    rfl
  · next h =>
    rw [hs] at h
    cases h

theorem byteAt_append (front : Bytes) (b : Byte) (back : Bytes) {k : Nat}
    (ho : front.length = k) : byteAt (front ++ [b] ++ back) k = .ok b := by
  subst ho
  simp [byteAt]

namespace Header

def toBytes (self : Header) : Bytes :=
  ENVELOPE_MAGIC ++ [ENVELOPE_FORMAT_VERSION] ++ [self.kind.asU8] ++ self.epoch.toLeBytes.val ++
    self.signer.bytes.val ++ self.wikNonce.val ++ self.payloadNonce.val

def parse (bytes : Bytes) : Except CryptoError Header := do
  let header ← take bytes 0 HEADER_LEN "envelope header"
  let magic ← take header 0 4 "envelope magic"
  if magic ≠ ENVELOPE_MAGIC then throw .badEnvelopeMagic
  let formatVersion ← byteAt header 4
  if formatVersion ≠ ENVELOPE_FORMAT_VERSION then
    throw (.unsupportedFormatVersion "envelope" formatVersion.val ENVELOPE_FORMAT_VERSION.val)
  let kind ← EnvelopeKind.fromU8 (← byteAt header 5)
  let epoch ← arrayAt 4 header 6
  let signer ← arrayAt 16 header 10
  let wikNonce ← arrayAt 24 header 26
  let payloadNonce ← arrayAt 24 header 50
  return ⟨kind, U32.fromLeBytes epoch, ⟨signer⟩, wikNonce, payloadNonce⟩

@[simp] theorem length_toBytes (h : Header) : h.toBytes.length = HEADER_LEN := by
  simp only [toBytes, List.length_append, List.length_cons, List.length_nil,
    h.epoch.toLeBytes.property, h.signer.bytes.property, h.wikNonce.property,
    h.payloadNonce.property]
  rfl

theorem parse_toBytes (h : Header) (rest : Bytes) : parse (h.toBytes ++ rest) = .ok h := by
  have hmagic : ENVELOPE_MAGIC.length = 4 := rfl
  have he := h.epoch.toLeBytes.property
  have hs := h.signer.bytes.property
  have hw := h.wikNonce.property
  have hhead : take (h.toBytes ++ rest) 0 HEADER_LEN "envelope header" = .ok h.toBytes := by
    simpa using take_append [] h.toBytes rest "envelope header" rfl (length_toBytes h)
  have h1 : take h.toBytes 0 4 "envelope magic" = .ok ENVELOPE_MAGIC := by
    simpa [toBytes, List.append_assoc] using take_append [] ENVELOPE_MAGIC
      ([ENVELOPE_FORMAT_VERSION] ++ [h.kind.asU8] ++ h.epoch.toLeBytes.val ++ h.signer.bytes.val ++
        h.wikNonce.val ++ h.payloadNonce.val) "envelope magic" rfl hmagic
  have h2 : byteAt h.toBytes 4 = .ok ENVELOPE_FORMAT_VERSION := by
    simpa [toBytes, List.append_assoc] using byteAt_append ENVELOPE_MAGIC ENVELOPE_FORMAT_VERSION
      ([h.kind.asU8] ++ h.epoch.toLeBytes.val ++ h.signer.bytes.val ++ h.wikNonce.val ++
        h.payloadNonce.val) hmagic
  have h3 : byteAt h.toBytes 5 = .ok h.kind.asU8 := by
    simpa [toBytes, List.append_assoc] using byteAt_append
      (ENVELOPE_MAGIC ++ [ENVELOPE_FORMAT_VERSION]) h.kind.asU8
      (h.epoch.toLeBytes.val ++ h.signer.bytes.val ++ h.wikNonce.val ++ h.payloadNonce.val)
      (k := 5) rfl
  have h4 : arrayAt 4 h.toBytes 6 = .ok h.epoch.toLeBytes := by
    simpa [toBytes, List.append_assoc] using arrayAt_append
      (ENVELOPE_MAGIC ++ [ENVELOPE_FORMAT_VERSION] ++ [h.kind.asU8]) h.epoch.toLeBytes
      (h.signer.bytes.val ++ h.wikNonce.val ++ h.payloadNonce.val) (k := 6) rfl
  have h5 : arrayAt 16 h.toBytes 10 = .ok h.signer.bytes := by
    simpa [toBytes, List.append_assoc] using arrayAt_append
      (ENVELOPE_MAGIC ++ [ENVELOPE_FORMAT_VERSION] ++ [h.kind.asU8] ++ h.epoch.toLeBytes.val)
      h.signer.bytes (h.wikNonce.val ++ h.payloadNonce.val) (k := 10)
      (by simp only [List.length_append, hmagic, he, List.length_cons, List.length_nil])
  have h6 : arrayAt 24 h.toBytes 26 = .ok h.wikNonce := by
    simpa [toBytes, List.append_assoc] using arrayAt_append
      (ENVELOPE_MAGIC ++ [ENVELOPE_FORMAT_VERSION] ++ [h.kind.asU8] ++ h.epoch.toLeBytes.val ++
        h.signer.bytes.val) h.wikNonce h.payloadNonce.val (k := 26)
      (by simp only [List.length_append, hmagic, he, hs, List.length_cons, List.length_nil])
  have h7 : arrayAt 24 h.toBytes 50 = .ok h.payloadNonce := by
    simpa [toBytes, List.append_assoc] using arrayAt_append
      (ENVELOPE_MAGIC ++ [ENVELOPE_FORMAT_VERSION] ++ [h.kind.asU8] ++ h.epoch.toLeBytes.val ++
        h.signer.bytes.val ++ h.wikNonce.val) h.payloadNonce [] (k := 50)
      (by simp only [List.length_append, hmagic, he, hs, hw, List.length_cons, List.length_nil])
  unfold parse
  simp only [hhead, h1, h2, h3, h4, h5, h6, h7, EnvelopeKind.fromU8_asU8,
    U32.fromLeBytes_toLeBytes, bind, Except.bind, ne_eq, not_true_eq_false, if_false]
  rfl

end Header

/-! ## Envelopes -/

/-- A parsed envelope: the header and the parts of the bytes. -/
structure Envelope where
  header : Header
  headerBytes : Bytes
  wrappedItemKey : Bytes
  ciphertext : Bytes
  signature : Bytes
  deriving DecidableEq

/-- The random bytes one `seal` draws. Drawing may fail. -/
structure SealDraw where
  itemKey : Except CryptoError (ByteArr 32)
  nonces : Except CryptoError (ByteArr 24 × ByteArr 24)

variable (P : Primitives)

def sealWith (header : Header) (itemId : ItemId) (key : ByteArr 32) (itemKey : ByteArr 32)
    (identity : DeviceIdentity) (paddedPayload : Bytes) : Except CryptoError Bytes :=
  let aad := header.toBytes ++ itemId.bytes.val
  match P.aeadEncrypt key header.wikNonce aad itemKey.val with
  | none => .error .aeadEncrypt
  | some wrappedItemKey =>
    match P.aeadEncrypt itemKey header.payloadNonce aad paddedPayload with
    | none => .error .aeadEncrypt
    | some ciphertext =>
      let signature := identity.sign P (aad ++ wrappedItemKey ++ ciphertext)
      .ok (header.toBytes ++ wrappedItemKey ++ ciphertext ++ signature.val)

/-- `envelope::seal`. -/
def sealEnvelope (kind : EnvelopeKind) (epoch : U32) (itemId : ItemId) (payload : Bytes)
    (key : EpochKey) (identity : DeviceIdentity) (draw : SealDraw) : Except CryptoError Bytes := do
  if epoch ≠ key.epoch then throw (.epochMismatch key.epoch epoch)
  let itemKey ← draw.itemKey
  let padded ← pad payload
  let nonces ← draw.nonces
  sealWith P ⟨kind, key.epoch, identity.deviceId, nonces.1, nonces.2⟩ itemId key.key itemKey
    identity padded

namespace Envelope

def parse (bytes : Bytes) : Except CryptoError Envelope := do
  if bytes.length < MIN_ENVELOPE_LEN then
    throw (.truncated "envelope" MIN_ENVELOPE_LEN bytes.length)
  let header ← Header.parse bytes
  let ciphertextLen := bytes.length - (HEADER_LEN + WRAPPED_ITEM_KEY_LEN + SIGNATURE_LEN)
  if (ciphertextLen - TAG_LEN) % PAD_BLOCK ≠ 0 then
    throw (.malformedBody "ciphertext length is not a multiple of 256 plus a 16-byte tag")
  let headerBytes ← take bytes 0 HEADER_LEN "envelope header"
  let wrappedItemKey ← take bytes HEADER_LEN WRAPPED_ITEM_KEY_LEN "wrapped item key"
  let ciphertext ← take bytes (HEADER_LEN + WRAPPED_ITEM_KEY_LEN) ciphertextLen "ciphertext"
  let signature ←
    take bytes (HEADER_LEN + WRAPPED_ITEM_KEY_LEN + ciphertextLen) SIGNATURE_LEN "signature"
  return ⟨header, headerBytes, wrappedItemKey, ciphertext, signature⟩

def aad (self : Envelope) (itemId : ItemId) : Bytes := self.headerBytes ++ itemId.bytes.val

def signedMessage (self : Envelope) (itemId : ItemId) : Bytes :=
  self.aad itemId ++ self.wrappedItemKey ++ self.ciphertext

def verifyWithSigner (self : Envelope) (itemId : ItemId) (signerPublicKey : ByteArr 32) :
    Except CryptoError Unit := do
  let signature ← arrayAt 64 self.signature 0
  if P.validKey signerPublicKey = false then throw .badVerifyingKey
  if P.verifyStrict signerPublicKey (self.signedMessage itemId) signature = false then
    throw .signatureInvalid

def verify (self : Envelope) (itemId : ItemId) (roster : Roster) : Except CryptoError Unit :=
  match roster.contains self.header.signer with
  | none => .error (.unknownSigner self.header.signer)
  | some record => self.verifyWithSigner P itemId record.ed25519Pub

/-- `Verified::open`. -/
def decrypt (self : Envelope) (itemId : ItemId) (key : EpochKey) : Except CryptoError Bytes :=
  if self.header.epoch ≠ key.epoch then .error (.epochMismatch key.epoch self.header.epoch)
  else match P.aeadDecrypt key.key self.header.wikNonce (self.aad itemId) self.wrappedItemKey with
    | none => .error .itemKeyUnwrapFailed
    | some unwrapped =>
      if h : unwrapped.length = 32 then
        match P.aeadDecrypt ⟨unwrapped, h⟩ self.header.payloadNonce (self.aad itemId)
            self.ciphertext with
        | none => .error .payloadDecryptFailed
        | some padded => unpad padded
      else .error .itemKeyUnwrapFailed

/-- `envelope::open`. -/
def openWith (bytes : Bytes) (itemId : ItemId) (key : EpochKey) (roster : Roster) :
    Except CryptoError Bytes := do
  let envelope ← parse bytes
  envelope.verify P itemId roster
  envelope.decrypt P itemId key

end Envelope

/-! ## Sealing and opening -/

theorem parse_parts (header : Header) (wrapped ciphertext : Bytes) (signature : ByteArr 64)
    (hw : wrapped.length = WRAPPED_ITEM_KEY_LEN) {n : Nat} (hn : 0 < n)
    (hc : ciphertext.length = n * PAD_BLOCK + TAG_LEN) :
    Envelope.parse (header.toBytes ++ wrapped ++ ciphertext ++ signature.val) =
      .ok ⟨header, header.toBytes, wrapped, ciphertext, signature.val⟩ := by
  have hh := Header.length_toBytes header
  have hs : signature.val.length = SIGNATURE_LEN := signature.property
  have hlen : (header.toBytes ++ wrapped ++ ciphertext ++ signature.val).length =
      HEADER_LEN + WRAPPED_ITEM_KEY_LEN + ciphertext.length + SIGNATURE_LEN := by
    simp only [List.length_append, hh, hw, hs]
  have hctlen : (header.toBytes ++ wrapped ++ ciphertext ++ signature.val).length -
      (HEADER_LEN + WRAPPED_ITEM_KEY_LEN + SIGNATURE_LEN) = ciphertext.length := by
    rw [hlen]
    omega
  have hparse : Header.parse (header.toBytes ++ wrapped ++ ciphertext ++ signature.val) =
      .ok header := by
    simpa [List.append_assoc] using
      Header.parse_toBytes header (wrapped ++ ciphertext ++ signature.val)
  -- the four cuts, each at the end of the one before it
  have h1 : take (header.toBytes ++ wrapped ++ ciphertext ++ signature.val) 0 HEADER_LEN
      "envelope header" = .ok header.toBytes := by
    simpa [List.append_assoc] using take_append [] header.toBytes
      (wrapped ++ ciphertext ++ signature.val) "envelope header" rfl hh
  have h2 : take (header.toBytes ++ wrapped ++ ciphertext ++ signature.val) HEADER_LEN
      WRAPPED_ITEM_KEY_LEN "wrapped item key" = .ok wrapped := by
    simpa [List.append_assoc] using take_append header.toBytes wrapped
      (ciphertext ++ signature.val) "wrapped item key" hh hw
  have h3 : take (header.toBytes ++ wrapped ++ ciphertext ++ signature.val)
      (HEADER_LEN + WRAPPED_ITEM_KEY_LEN) ciphertext.length "ciphertext" = .ok ciphertext := by
    refine take_append (header.toBytes ++ wrapped) ciphertext signature.val "ciphertext" ?_ rfl
    rw [List.length_append, hh, hw]
  have h4 : take (header.toBytes ++ wrapped ++ ciphertext ++ signature.val)
      (HEADER_LEN + WRAPPED_ITEM_KEY_LEN + ciphertext.length) SIGNATURE_LEN "signature" =
      .ok signature.val := by
    have := take_append (header.toBytes ++ wrapped ++ ciphertext) signature.val [] "signature"
      (by rw [List.length_append, List.length_append, hh, hw]) hs
    simpa using this
  have hmin : ¬ (header.toBytes ++ wrapped ++ ciphertext ++ signature.val).length <
      MIN_ENVELOPE_LEN := by
    rw [hlen, hc]
    unfold MIN_ENVELOPE_LEN PAD_BLOCK
    omega
  have hmod : (ciphertext.length - TAG_LEN) % PAD_BLOCK = 0 := by
    rw [hc, Nat.add_sub_cancel]
    exact Nat.mul_mod_left _ _
  unfold Envelope.parse
  simp only [hmin, if_false, hparse, hctlen, hmod, h1, h2, h3, h4, bind, Except.bind, ne_eq,
    not_true_eq_false]
  rfl

/-- What a successful `seal` produced. -/
structure Sealed (P : Primitives) (kind : EnvelopeKind) (itemId : ItemId) (payload : Bytes)
    (key : EpochKey) (identity : DeviceIdentity) (bytes : Bytes) (env : Envelope) : Prop where
  parses : Envelope.parse bytes = .ok env
  kind_eq : env.header.kind = kind
  epoch_eq : env.header.epoch = key.epoch
  signer_eq : env.header.signer = identity.deviceId
  signature_eq : env.signature = (identity.sign P (env.signedMessage itemId)).val
  decrypts : env.decrypt P itemId key = .ok payload

variable {P}

/-- A sealed envelope parses, carries the header it was sealed with and opens to the
payload. -/
theorem seal_sealed (hP : P.Correct) {kind : EnvelopeKind} {epoch : U32} {itemId : ItemId}
    {payload : Bytes} {key : EpochKey} {identity : DeviceIdentity} {draw : SealDraw} {bytes : Bytes}
    (h : sealEnvelope P kind epoch itemId payload key identity draw = .ok bytes) :
    ∃ env, Sealed P kind itemId payload key identity bytes env := by
  unfold sealEnvelope at h
  by_cases hepoch : epoch = key.epoch
  swap
  · simp [hepoch] at h
    cases h
  cases hik : draw.itemKey with
  | error e =>
    simp [hepoch, hik] at h
    cases h
  | ok itemKey =>
  cases hpad : pad payload with
  | error e =>
    simp [hepoch, hik, hpad] at h
    cases h
  | ok padded =>
  cases hno : draw.nonces with
  | error e =>
    simp [hepoch, hik, hpad, hno] at h
    cases h
  | ok nonces =>
  obtain ⟨hunpad, hplen, -⟩ := unpad_pad hpad
  simp only [hepoch, hik, hpad, hno, ne_eq, not_true_eq_false, if_false, bind, Except.bind] at h
  unfold sealWith at h
  simp only at h
  split at h
  · cases h
  next wrapped hwrap =>
  split at h
  · cases h
  next ciphertext hct =>
  cases h
  -- what was encrypted decrypts again: the item key, and then the padded payload under it
  obtain ⟨hdw, hwlen⟩ := hP.decrypt_encrypt _ _ _ _ _ hwrap
  obtain ⟨hdc, hclen⟩ := hP.decrypt_encrypt _ _ _ _ _ hct
  rw [itemKey.property] at hwlen
  rw [hplen] at hclen
  have hblocks : 0 < (payload.length + 4 + (PAD_BLOCK - 1)) / PAD_BLOCK := by
    unfold PAD_BLOCK
    omega
  refine ⟨_, ⟨parse_parts _ wrapped ciphertext _ hwlen hblocks hclen, rfl, rfl, rfl, rfl, ?_⟩⟩
  unfold Envelope.decrypt
  simp only [ne_eq, not_true_eq_false, if_false, Envelope.aad, hdw, itemKey.property, dite_true,
    Subtype.coe_eta, hdc, hunpad]

namespace Roster

/-- The roster knows the device under the key it signs with. -/
def Knows (P : Primitives) (roster : Roster) (identity : DeviceIdentity) : Prop :=
  ∃ record, roster.contains identity.deviceId = some record ∧
    record.ed25519Pub = identity.ed25519Public P

end Roster

theorem Sealed.verifies (hP : P.Correct) {kind : EnvelopeKind} {itemId : ItemId} {payload : Bytes}
    {key : EpochKey} {identity : DeviceIdentity} {bytes : Bytes} {env : Envelope}
    (h : Sealed P kind itemId payload key identity bytes env) {roster : Roster}
    (hr : roster.Knows P identity) : env.verify P itemId roster = .ok () := by
  obtain ⟨record, hrec, hpub⟩ := hr
  have hsig : arrayAt 64 env.signature 0 = .ok (identity.sign P (env.signedMessage itemId)) := by
    rw [h.signature_eq]
    simpa using arrayAt_append [] (identity.sign P (env.signedMessage itemId)) [] rfl
  have hvalid : P.validKey record.ed25519Pub = true := by
    rw [hpub]
    exact hP.validKey_publicOf _
  have hverify : P.verifyStrict record.ed25519Pub (env.signedMessage itemId)
      (identity.sign P (env.signedMessage itemId)) = true := by
    rw [hpub]
    exact hP.verify_sign _ _
  unfold Envelope.verify Envelope.verifyWithSigner
  simp only [h.signer_eq, hrec, hsig, hvalid, hverify, bind, Except.bind, Bool.true_eq_false,
    if_false]
  rfl

theorem Sealed.opens (hP : P.Correct) {kind : EnvelopeKind} {itemId : ItemId} {payload : Bytes}
    {key : EpochKey} {identity : DeviceIdentity} {bytes : Bytes} {env : Envelope}
    (h : Sealed P kind itemId payload key identity bytes env) {roster : Roster}
    (hr : roster.Knows P identity) : Envelope.openWith P bytes itemId key roster = .ok payload := by
  unfold Envelope.openWith
  simp [h.parses, h.verifies hP hr, h.decrypts, bind, Except.bind]

end Misty
