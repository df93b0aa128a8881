import Misty.Crypto.Envelope

/- What an envelope is, exactly, and what its signature holds together.

   What is proved:
     1. `Envelope.parse_eq_ok` — the byte strings that parse are a header, a wrapped key of
        48 bytes, a ciphertext of a positive number of blocks and a tag, and a signature,
        one after another with nothing between or after.
     2. `Envelope.signedMessage_inj` — the message that is signed says all of an envelope
        and the item id: the parts in front of the ciphertext have fixed lengths.
     3. `envelope_round_trip` — what is sealed opens, and a signature that is bound to its
        message is refused with any other item id, header, wrapped key or ciphertext.

   The signature is ideal in what is asked of it: the one at hand stands for one message
   (`Primitives.Binds`). No scheme of 64 bytes does so for all messages at once. -/
namespace Misty

/-! ## Slices -/

section Slices

variable {α : Type} {bytes x y : List α} {offset m n : Nat}

theorem slice_join (hx : slice bytes offset m = some x) (hy : slice bytes (offset + m) n = some y) :
    slice bytes offset (m + n) = some (x ++ y) := by
  unfold slice at hx hy ⊢
  split at hy
  · next hle =>
    rw [if_pos (by omega)] at hx ⊢
    cases hx
    cases hy
    rw [List.take_add, List.drop_drop]
  · cases hy

theorem eq_of_slice_all (h : slice bytes 0 n = some x) (hlen : bytes.length = n) : x = bytes := by
  unfold slice at h
  split at h
  · cases h
    rw [List.drop_zero, ← hlen, List.take_length]
  · cases h

theorem slice_of_take {bytes part : Bytes} {offset len : Nat} {context : String}
    (h : take bytes offset len context = .ok part) : slice bytes offset len = some part := by
  unfold take at h
  split at h
  · next hs =>
    cases h
    exact hs
  · cases h

theorem slice_of_byteAt {bytes : Bytes} {offset : Nat} {b : Byte} (h : byteAt bytes offset = .ok b) :
    slice bytes offset 1 = some [b] := by
  unfold byteAt at h
  split at h
  · next c hget =>
    cases h
    obtain ⟨hlt, hb⟩ := List.getElem?_eq_some_iff.mp hget
    unfold slice
    rw [if_pos (by omega), List.drop_eq_getElem_cons hlt, List.take_succ_cons, List.take_zero, hb]
  · cases h

theorem slice_of_arrayAt {n : Nat} {bytes : Bytes} {offset : Nat} {a : ByteArr n} (h : arrayAt n bytes offset = .ok a) :
    slice bytes offset n = some a.val := by
  unfold arrayAt at h
  split at h
  · next part hs =>
    cases h
    exact hs
  · cases h

end Slices

/-! ## What parses -/

theorem U32.toLeBytes_fromLeBytes (bytes : ByteArr 4) : (U32.fromLeBytes bytes).toLeBytes = bytes := by
  apply Subtype.ext
  show toLe 4 (ofLe bytes.val) = bytes.val
  have h := toLe_ofLe bytes.val
  rwa [bytes.property] at h

theorem EnvelopeKind.asU8_of_fromU8 {byte : Byte} {kind : EnvelopeKind} (h : fromU8 byte = .ok kind) :
    kind.asU8 = byte := by
  unfold fromU8 at h
  split at h
  all_goals first
    | cases h
      apply Fin.ext
      simp_all [asU8]
    | cases h

theorem Header.parse_eq_ok {bytes : Bytes} {header : Header} :
    Header.parse bytes = .ok header ↔ ∃ rest, bytes = header.toBytes ++ rest := by
  constructor
  · intro h
    unfold Header.parse at h
    obtain ⟨front, hfront, h₁⟩ := bind_eq_ok.mp h
    obtain ⟨magic, hmagic, h₂⟩ := bind_eq_ok.mp h₁
    split at h₂
    · cases h₂
    next hsame =>
    obtain ⟨version, hversion, h₃⟩ := bind_eq_ok.mp h₂
    split at h₃
    · cases h₃
    next hsupported =>
    obtain ⟨byte, hbyte, h₄⟩ := bind_eq_ok.mp h₃
    obtain ⟨kind, hkind, h₅⟩ := bind_eq_ok.mp h₄
    obtain ⟨epoch, hepoch, h₆⟩ := bind_eq_ok.mp h₅
    obtain ⟨signer, hsigner, h₇⟩ := bind_eq_ok.mp h₆
    obtain ⟨wikNonce, hwikNonce, h₈⟩ := bind_eq_ok.mp h₇
    obtain ⟨payloadNonce, hpayloadNonce, h₉⟩ := bind_eq_ok.mp h₈
    cases h₉
    rw [ne_eq, not_not] at hsame hsupported
    subst hsame hsupported
    have hcut := slice_of_take hfront
    have hlen : front.length = HEADER_LEN := length_of_slice hcut
    have hall := slice_join (slice_join (slice_join (slice_join (slice_join (slice_join (slice_of_take hmagic)
      (slice_of_byteAt hversion)) (slice_of_byteAt hbyte)) (slice_of_arrayAt hepoch)) (slice_of_arrayAt hsigner))
      (slice_of_arrayAt hwikNonce)) (slice_of_arrayAt hpayloadNonce)
    have hbytes := eq_of_slice_all hall hlen
    rw [← EnvelopeKind.asU8_of_fromU8 hkind, ← U32.toLeBytes_fromLeBytes epoch] at hbytes
    refine ⟨bytes.drop HEADER_LEN, ?_⟩
    unfold slice at hcut
    split at hcut
    · cases hcut
      calc bytes = bytes.take HEADER_LEN ++ bytes.drop HEADER_LEN := (List.take_append_drop ..).symm
        _ = _ := by rw [List.drop_zero] at hbytes; rw [← hbytes]; rfl
    · cases hcut
  · intro h
    obtain ⟨rest, rfl⟩ := h
    exact Header.parse_toBytes header rest

theorem Header.toBytes_inj {a b : Header} (h : a.toBytes = b.toBytes) : a = b := by
  have ha := Header.parse_toBytes a []
  rw [h, Header.parse_toBytes b []] at ha
  exact (Except.ok.inj ha).symm

/-- The parts of an envelope, of the sizes its format gives them. -/
structure Envelope.Formed (env : Envelope) : Prop where
  header : env.headerBytes = env.header.toBytes
  wrapped : env.wrappedItemKey.length = WRAPPED_ITEM_KEY_LEN
  ciphertext : ∃ n, 0 < n ∧ env.ciphertext.length = n * PAD_BLOCK + TAG_LEN
  signature : env.signature.length = SIGNATURE_LEN

/-- The parts one after another. -/
def Envelope.bytes (self : Envelope) : Bytes :=
  self.headerBytes ++ self.wrappedItemKey ++ self.ciphertext ++ self.signature

theorem Envelope.parse_eq_ok {bytes : Bytes} {env : Envelope} :
    Envelope.parse bytes = .ok env ↔ env.Formed ∧ bytes = env.bytes := by
  constructor
  · intro h
    unfold Envelope.parse at h
    dsimp only at h
    split at h
    · cases h
    next hmin =>
    obtain ⟨header, hheader, h₁⟩ := bind_eq_ok.mp h
    split at h₁
    · cases h₁
    next hblocks =>
    obtain ⟨front, hfront, h₂⟩ := bind_eq_ok.mp h₁
    obtain ⟨wrapped, hwrapped, h₃⟩ := bind_eq_ok.mp h₂
    obtain ⟨ciphertext, hciphertext, h₄⟩ := bind_eq_ok.mp h₃
    obtain ⟨signature, hsignature, h₅⟩ := bind_eq_ok.mp h₄
    cases h₅
    rw [ne_eq, not_not] at hblocks
    obtain ⟨rest, rfl⟩ := Header.parse_eq_ok.mp hheader
    -- the four takes tile the bytes: each begins where the one before it ended
    have hcut := slice_of_take hfront
    have hsame : front = header.toBytes := by
      have h := slice_append [] header.toBytes rest rfl (Header.length_toBytes header)
      rw [List.nil_append] at h
      exact Option.some.inj (hcut.symm.trans h)
    generalize hsize : (header.toBytes ++ rest).length - (HEADER_LEN + WRAPPED_ITEM_KEY_LEN + SIGNATURE_LEN) = size at *
    have hclen := length_of_slice (slice_of_take hciphertext)
    have hwrapped' := slice_of_take hwrapped
    rw [← Nat.zero_add HEADER_LEN] at hwrapped'
    have hfront' := slice_join hcut hwrapped'
    have hciphertext' := slice_of_take hciphertext
    rw [← Nat.zero_add (HEADER_LEN + WRAPPED_ITEM_KEY_LEN)] at hciphertext'
    have hbody := slice_join hfront' hciphertext'
    have hsignature' := slice_of_take hsignature
    rw [← Nat.zero_add (HEADER_LEN + WRAPPED_ITEM_KEY_LEN + size)] at hsignature'
    have htiles := eq_of_slice_all (slice_join hbody hsignature') (by unfold MIN_ENVELOPE_LEN at hmin; omega)
    refine ⟨⟨hsame, length_of_slice (slice_of_take hwrapped), ?_, length_of_slice (slice_of_take hsignature)⟩, htiles.symm⟩
    -- the length check leaves at least one block of padding
    obtain ⟨n, hn⟩ := Nat.dvd_of_mod_eq_zero hblocks
    dsimp only
    rw [hclen]
    unfold MIN_ENVELOPE_LEN at hmin
    have hlarge : HEADER_LEN + WRAPPED_ITEM_KEY_LEN + SIGNATURE_LEN + (PAD_BLOCK + TAG_LEN) ≤
        (header.toBytes ++ rest).length := by omega
    refine ⟨n, ?_, ?_⟩
    · by_contra hzero
      rw [show n = 0 by omega] at hn
      unfold PAD_BLOCK at hlarge hn
      omega
    · rw [Nat.mul_comm]
      omega
  · intro h
    obtain ⟨⟨hheader, hwrapped, ⟨n, hn, hciphertext⟩, hsignature⟩, rfl⟩ := h
    obtain ⟨header, front, wrapped, ciphertext, signature⟩ := env
    dsimp only at hheader hwrapped hciphertext hsignature
    subst hheader
    exact parse_parts header wrapped ciphertext ⟨signature, hsignature⟩ hwrapped hn hciphertext

theorem header_of_parse {header : Header} {rest : Bytes} {env : Envelope}
    (h : Envelope.parse (header.toBytes ++ rest) = .ok env) : env.header = header := by
  unfold Envelope.parse at h
  dsimp only at h
  split at h
  · cases h
  obtain ⟨parsed, hparsed, h₁⟩ := bind_eq_ok.mp h
  split at h₁
  · cases h₁
  obtain ⟨_, -, h₂⟩ := bind_eq_ok.mp h₁
  obtain ⟨_, -, h₃⟩ := bind_eq_ok.mp h₂
  obtain ⟨_, -, h₄⟩ := bind_eq_ok.mp h₃
  obtain ⟨_, -, h₅⟩ := bind_eq_ok.mp h₄
  cases h₅
  rw [Header.parse_toBytes] at hparsed
  exact (Except.ok.inj hparsed).symm

/-! ## Sealing -/

/-- The cipher encrypts anything of a payload's size. -/
def Primitives.Encrypts (P : Primitives) : Prop :=
  ∀ key nonce aad plaintext, plaintext.length < 2 ^ 32 → (P.aeadEncrypt key nonce aad plaintext).isSome

theorem pad_eq_ok {payload : Bytes} (h : payload.length ≤ MAX_PAYLOAD_LEN) :
    ∃ padded, pad payload = .ok padded ∧ padded.length < 2 ^ 32 := by
  refine ⟨_, if_neg (not_lt.mpr h), ?_⟩
  unfold MAX_PAYLOAD_LEN at h
  simp only [List.length_append, length_toLe, List.length_replicate, paddedLen, PAD_BLOCK]
  omega

theorem sealEnvelope_ok {P : Primitives} (hencrypts : P.Encrypts) (kind : EnvelopeKind) (itemId : ItemId)
    {payload : Bytes} (hlen : payload.length ≤ MAX_PAYLOAD_LEN) (key : EpochKey) (identity : DeviceIdentity)
    (itemKey : ByteArr 32) (nonces : ByteArr 24 × ByteArr 24) :
    ∃ rest, sealEnvelope P kind key.epoch itemId payload key identity ⟨.ok itemKey, .ok nonces⟩ =
      .ok ((Header.mk kind key.epoch identity.deviceId nonces.1 nonces.2).toBytes ++ rest) := by
  obtain ⟨padded, hpad, hpadded⟩ := pad_eq_ok hlen
  let header : Header := ⟨kind, key.epoch, identity.deviceId, nonces.1, nonces.2⟩
  obtain ⟨wrapped, hwrapped⟩ := Option.isSome_iff_exists.mp
    (hencrypts key.key nonces.1 (header.toBytes ++ itemId.bytes.val) itemKey.val (by rw [itemKey.property]; decide))
  obtain ⟨ciphertext, hciphertext⟩ := Option.isSome_iff_exists.mp
    (hencrypts itemKey nonces.2 (header.toBytes ++ itemId.bytes.val) padded hpadded)
  refine ⟨wrapped ++ ciphertext ++
    (identity.sign P (header.toBytes ++ itemId.bytes.val ++ wrapped ++ ciphertext)).val, ?_⟩
  simp only [sealEnvelope, sealWith, hpad, bind, Except.bind, ne_eq, not_true_eq_false, if_false]
  rw [show P.aeadEncrypt key.key nonces.1 _ itemKey.val = some wrapped from hwrapped]
  dsimp only
  rw [show P.aeadEncrypt itemKey nonces.2 _ padded = some ciphertext from hciphertext]
  simp only [header, List.append_assoc]

/-! ## Binding -/

/-- The signature stands for one message, whatever key it is checked with. -/
def Primitives.Binds (P : Primitives) (message : Bytes) (signature : ByteArr 64) : Prop :=
  ∀ key other, P.verifyStrict key other signature = true → other = message

/-- The message that is signed says the item id and every part but the signature. -/
theorem Envelope.signedMessage_inj {env other : Envelope} (henv : env.Formed) (hother : other.Formed) {x y : ItemId}
    (h : env.signedMessage x = other.signedMessage y) :
    env.headerBytes = other.headerBytes ∧ x = y ∧ env.wrappedItemKey = other.wrappedItemKey ∧
      env.ciphertext = other.ciphertext := by
  unfold signedMessage aad at h
  obtain ⟨hfront, hciphertext⟩ := List.append_inj h (by
    simp only [List.length_append, henv.header, hother.header, Header.length_toBytes, henv.wrapped, hother.wrapped,
      x.bytes.property, y.bytes.property])
  obtain ⟨haad, hwrapped⟩ := List.append_inj hfront (by
    simp only [List.length_append, henv.header, hother.header, Header.length_toBytes, x.bytes.property, y.bytes.property])
  obtain ⟨hheader, hid⟩ := List.append_inj haad (by
    simp only [henv.header, hother.header, Header.length_toBytes])
  refine ⟨hheader, ?_, hwrapped, hciphertext⟩
  cases x
  cases y
  simpa using Subtype.ext hid

theorem verify_ok {P : Primitives} {env : Envelope} {itemId : ItemId} {roster : Roster}
    (h : env.verify P itemId roster = .ok ()) (hlen : env.signature.length = SIGNATURE_LEN) :
    ∃ record, roster.contains env.header.signer = some record ∧
      P.verifyStrict record.ed25519Pub (env.signedMessage itemId) ⟨env.signature, hlen⟩ = true := by
  unfold Envelope.verify at h
  split at h
  · cases h
  next record hrecord =>
  refine ⟨record, hrecord, ?_⟩
  unfold Envelope.verifyWithSigner at h
  obtain ⟨signature, hsignature, h₁⟩ := bind_eq_ok.mp h
  have hsame : signature = ⟨env.signature, hlen⟩ :=
    Subtype.ext (eq_of_slice_all (slice_of_arrayAt hsignature) hlen)
  rw [← hsame]
  cases hvalid : P.validKey record.ed25519Pub with
  | false =>
    simp only [hvalid, if_true] at h₁
    cases h₁
  | true =>
    cases htrue : P.verifyStrict record.ed25519Pub (env.signedMessage itemId) signature with
    | false =>
      simp only [hvalid, htrue, if_true] at h₁
      cases h₁
    | true => rfl

/-- Nothing but the envelope is accepted under its signature, and for nothing but its item id, by any roster. -/
theorem eq_of_verify {P : Primitives} {env other : Envelope} {bytes otherBytes : Bytes} {x y : ItemId} {roster : Roster}
    (henv : Envelope.parse bytes = .ok env) (hother : Envelope.parse otherBytes = .ok other) {signature : ByteArr 64}
    (hbinds : P.Binds (env.signedMessage x) signature) (hsigned : env.signature = signature.val)
    (hsignature : other.signature = env.signature) (hverify : other.verify P y roster = .ok ()) :
    y = x ∧ otherBytes = bytes := by
  obtain ⟨hformed, rfl⟩ := Envelope.parse_eq_ok.mp henv
  obtain ⟨hformed', rfl⟩ := Envelope.parse_eq_ok.mp hother
  obtain ⟨record, -, htrue⟩ := verify_ok hverify hformed'.signature
  have hsame : (⟨other.signature, hformed'.signature⟩ : ByteArr 64) = signature :=
    Subtype.ext (hsignature.trans hsigned)
  have hmessage : other.signedMessage y = env.signedMessage x := hbinds record.ed25519Pub _ (hsame ▸ htrue)
  obtain ⟨hheader, hid, hwrapped, hciphertext⟩ := Envelope.signedMessage_inj hformed' hformed hmessage
  refine ⟨hid, ?_⟩
  unfold Envelope.bytes
  rw [hheader, hwrapped, hciphertext, hsignature]

/-- An envelope is sealed, opens to its payload and carries what it was sealed with; what parses is exactly the header and
the three parts one after another; and an envelope whose signature is bound to its message is refused with any other item
id, header, wrapped key or ciphertext. -/
theorem envelope_round_trip {P : Primitives} (hP : P.Correct) (hencrypts : P.Encrypts) :
    (∀ (kind : EnvelopeKind) (itemId : ItemId) (payload : Bytes) (key : EpochKey) (identity : DeviceIdentity)
      (itemKey : ByteArr 32) (nonces : ByteArr 24 × ByteArr 24) (roster : Roster), payload.length ≤ MAX_PAYLOAD_LEN →
      roster.Knows P identity →
      ∃ bytes env, sealEnvelope P kind key.epoch itemId payload key identity ⟨.ok itemKey, .ok nonces⟩ = .ok bytes ∧
        Envelope.openWith P bytes itemId key roster = .ok payload ∧ Envelope.parse bytes = .ok env ∧
        env.header = ⟨kind, key.epoch, identity.deviceId, nonces.1, nonces.2⟩ ∧
        (P.Binds (env.signedMessage itemId) (identity.sign P (env.signedMessage itemId)) →
          ∀ (roster : Roster) (other : Envelope) (otherBytes : Bytes) (otherId : ItemId),
            Envelope.parse otherBytes = .ok other → other.signature = env.signature →
            other.verify P otherId roster = .ok () → otherId = itemId ∧ otherBytes = bytes)) ∧
    ∀ (bytes : Bytes) (env : Envelope), Envelope.parse bytes = .ok env ↔ env.Formed ∧ bytes = env.bytes := by
  refine ⟨?_, fun _ _ => Envelope.parse_eq_ok⟩
  intro kind itemId payload key identity itemKey nonces roster hlen hknows
  obtain ⟨rest, hseal⟩ := sealEnvelope_ok hencrypts kind itemId hlen key identity itemKey nonces
  obtain ⟨env, hsealed⟩ := seal_sealed hP hseal
  refine ⟨_, env, hseal, hsealed.opens hP hknows, hsealed.parses, header_of_parse hsealed.parses, ?_⟩
  intro hbinds roster other otherBytes otherId hother hsignature hverify
  exact eq_of_verify hsealed.parses hother hbinds hsealed.signature_eq hsignature hverify

/-! ## A worked instance -/

theorem Primitives.sample_encrypts : Primitives.sample.Encrypts := fun _ _ _ _ _ => rfl

/-- The sample primitives with a signature that says which of two messages it was made for: the marked one, or another. -/
def Primitives.marked (message : Bytes) : Primitives :=
  { Primitives.sample with
    sign := fun _ other => if other = message then ⟨List.replicate 64 1, rfl⟩ else ⟨List.replicate 64 0, rfl⟩
    verifyStrict := fun _ other signature =>
      signature.val = if other = message then List.replicate 64 1 else List.replicate 64 0 }

theorem Primitives.marked_correct (message : Bytes) : (Primitives.marked message).Correct where
  decrypt_encrypt := Primitives.sample_correct.decrypt_encrypt
  validKey_publicOf _ := rfl
  verify_sign _ other := by
    by_cases h : other = message
    · simp [marked, h]
    · simp [marked, h]

theorem Primitives.marked_binds (message : Bytes) (secret : ByteArr 32) :
    (Primitives.marked message).Binds message ((Primitives.marked message).sign secret message) := by
  intro key other h
  by_contra hne
  simp only [marked, if_neg hne, decide_eq_true_eq] at h
  exact absurd h (by decide)

/-- A device, alone in its roster, and the header and message of an empty payload it seals with zeros. -/
def DeviceIdentity.alone : DeviceIdentity := ⟨⟨.repeated 16 1⟩, .repeated 32 7⟩

def Roster.alone : Roster := ⟨[⟨⟨.repeated 16 1⟩, .repeated 32 7, ['a'], ['b'], ⟨0, I64.zero_mem⟩, none⟩], none, none⟩

def Header.alone : Header :=
  ⟨.item, 1, ⟨.repeated 16 1⟩, .repeated 24 0, .repeated 24 0⟩

def Envelope.sampleMessage : Bytes :=
  Header.alone.toBytes ++ List.replicate 16 0 ++ List.replicate 48 0 ++ List.replicate 272 0

/-- The empty payload sealed by the sample device: under a signature of its own, nothing else is accepted. -/
theorem envelope_round_trip_marked : ∃ bytes env,
    sealEnvelope (Primitives.marked Envelope.sampleMessage) .item 1 ⟨.repeated 16 0⟩ [] ⟨1, .repeated 32 0⟩ .alone
      ⟨.ok (.repeated 32 0), .ok (.repeated 24 0, .repeated 24 0)⟩ = .ok bytes ∧ Envelope.parse bytes = .ok env ∧
    ∀ (roster : Roster) (other : Envelope) (otherBytes : Bytes) (otherId : ItemId),
      Envelope.parse otherBytes = .ok other → other.signature = env.signature →
      other.verify (Primitives.marked Envelope.sampleMessage) otherId roster = .ok () →
      otherId = ⟨.repeated 16 0⟩ ∧ otherBytes = bytes := by
  obtain ⟨bytes, env, hseal, -, hparse, -, hbinds⟩ :=
    (envelope_round_trip (Primitives.marked_correct Envelope.sampleMessage) Primitives.sample_encrypts).1
      .item ⟨.repeated 16 0⟩ [] ⟨1, .repeated 32 0⟩ .alone (.repeated 32 0) (.repeated 24 0, .repeated 24 0) .alone
      (by decide) ⟨_, rfl, rfl⟩
  refine ⟨bytes, env, hseal, hparse, hbinds ?_⟩
  have hbytes : bytes = Header.alone.toBytes ++ List.replicate 48 0 ++ List.replicate 272 0 ++ List.replicate 64 1 := by
    refine (Except.ok.inj (hseal.symm.trans ?_))
    decide +kernel
  have henv : env = ⟨Header.alone, Header.alone.toBytes, List.replicate 48 0, List.replicate 272 0, List.replicate 64 1⟩ := by
    rw [hbytes] at hparse
    exact Except.ok.inj (hparse.symm.trans
      (parse_parts Header.alone (List.replicate 48 0) (List.replicate 272 0) (.repeated 64 1) (by decide)
        Nat.one_pos (by decide +kernel)))
  have hmessage : env.signedMessage ⟨.repeated 16 0⟩ = Envelope.sampleMessage := by
    rw [henv]
    rfl
  rw [hmessage]
  exact Primitives.marked_binds Envelope.sampleMessage _

end Misty
