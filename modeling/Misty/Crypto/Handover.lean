import Misty.Crypto.Enrollment
import Misty.Crypto.Canonical
import Misty.Crypto.Sealing

/- What enrollment hands over, and to whom.

   What is proved:
     1. `open_eq_ok` — an answer is opened to a grant exactly when each of nine things
        holds of the two (`Unseals`).
     2. `approve_ok` — what a sealed answer is made of (`Approves`).
     3. `enrollment_hands_over` — the request that was begun opens the answer that was
        approved exactly when the roster in it has the approver under the key the approver
        signs with; and whatever is opened was signed for this request.

   `approve` compares the ids of the roster's signer and of the approver, and not the keys,
   as `Roster::sign` does. -/
namespace Misty

variable {X : EnrollmentPrims}

/-- What the three dependencies promise: what is encrypted, signed and written is decrypted, verified and read; a shared
secret is the same from both sides; a signature verifies under the key of the one who made it and no other. -/
structure EnrollmentPrims.Ideal (X : EnrollmentPrims) : Prop where
  correct : X.prims.Correct
  agree : ∀ a b, X.diffieHellman a (X.x25519Public b) = X.diffieHellman b (X.x25519Public a)
  reads_back : ∀ grant bytes, X.intoWriter grant = .ok bytes → X.fromReader bytes = .ok grant
  own_key : ∀ key secret message, X.prims.verifyStrict key message (X.prims.sign secret message) = true →
    key = X.prims.publicOf secret

/-- The key an answer is sealed with. -/
def EnrollmentPrims.sealingKey (X : EnrollmentPrims) (shared : ByteArr 32) (enrollId : EnrollId)
    (approverX25519Pub newDeviceX25519Pub : ByteArr 32) : ByteArr 32 :=
  X.prims.hkdf shared.val enrollId.bytes.val (ENROLLMENT_INFO_PREFIX ++ approverX25519Pub.val ++ newDeviceX25519Pub.val) 32

theorem enrollmentSealingKey_eq (shared : ByteArr 32) (enrollId : EnrollId) (a b : ByteArr 32) :
    enrollmentSealingKey X shared enrollId a b = .ok (X.sealingKey shared enrollId a b) := rfl

/-! ## What is opened -/

/-- What an answer that is opened has passed. -/
structure Unseals (X : EnrollmentPrims) (enrollment : NewDeviceEnrollment) (answer : SealedEnrollment)
    (grant : EnrollmentGrant) : Prop where
  enrollId : answer.enrollId = enrollment.request.enrollId
  newPub : answer.newDeviceX25519Pub = enrollment.request.x25519Pub
  contributory : X.wasContributory (X.diffieHellman enrollment.ephemeral answer.approverX25519Pub) = true
  unsealed : ∃ plaintext, X.prims.aeadDecrypt
    (X.sealingKey (X.diffieHellman enrollment.ephemeral answer.approverX25519Pub) answer.enrollId answer.approverX25519Pub
      enrollment.request.x25519Pub) answer.nonce answer.aad answer.ciphertext = some plaintext ∧
    X.fromReader plaintext = .ok grant
  url : grant.serverUrl.utf8Len ≤ MAX_SERVER_URL_LEN
  valid : grant.roster.validate X.prims = .ok ()
  approver : ∃ record, grant.roster.contains answer.approverDeviceId = some record ∧
    X.prims.validKey record.ed25519Pub = true ∧
    X.prims.verifyStrict record.ed25519Pub answer.signedMessage answer.signature = true
  signer : ∃ record, grant.roster.verify X.prims = .ok record
  own : ∃ record, grant.roster.contains enrollment.request.deviceId = some record ∧
    record.ed25519Pub = enrollment.request.ed25519Pub

theorem open_eq_ok {enrollment : NewDeviceEnrollment} {answer : SealedEnrollment} {grant : EnrollmentGrant} :
    enrollment.open X answer = .ok grant ↔ Unseals X enrollment answer grant := by
  constructor
  · intro h
    -- the checks in the order the code makes them
    unfold NewDeviceEnrollment.open at h
    obtain ⟨hid, h₁⟩ := guard_eq_ok.mp h
    obtain ⟨hpub, h₂⟩ := guard_eq_ok.mp h₁
    obtain ⟨hcontributory, h₃⟩ := guard_eq_ok.mp h₂
    obtain ⟨key, hkey, h₄⟩ := bind_eq_ok.mp h₃
    cases hkey
    split at h₄
    · cases h₄
    next plaintext hplaintext =>
    obtain ⟨wire, hwire, h₅⟩ := bind_eq_ok.mp h₄
    obtain ⟨hurl, h₆⟩ := guard_eq_ok.mp h₅
    obtain ⟨_, hvalid, h₇⟩ := bind_eq_ok.mp h₆
    split at h₇
    · cases h₇
    next approver happrover =>
    obtain ⟨hparsed, h₈⟩ := guard_eq_ok.mp h₇
    obtain ⟨hsigned, h₉⟩ := guard_eq_ok.mp h₈
    obtain ⟨signer, hsigner, h₁₀⟩ := bind_eq_ok.mp h₉
    split at h₁₀
    · cases h₁₀
    next own hown =>
    obtain ⟨hsame, h₁₁⟩ := guard_eq_ok.mp h₁₀
    cases h₁₁
    exact ⟨not_not.mp hid, not_not.mp hpub, by simpa using hcontributory, ⟨plaintext, hplaintext, mapError_eq_ok.mp hwire⟩,
      not_lt.mp hurl, hvalid, ⟨approver, happrover, by simpa using hparsed, by simpa using hsigned⟩, ⟨signer, hsigner⟩,
      ⟨own, hown, not_not.mp hsame⟩⟩
  · intro h
    obtain ⟨plaintext, hplaintext, hread⟩ := h.unsealed
    obtain ⟨approver, happrover, hkey, hsigned⟩ := h.approver
    obtain ⟨signer, hsigner⟩ := h.signer
    obtain ⟨own, hown, hsame⟩ := h.own
    unfold NewDeviceEnrollment.open
    refine guard_eq_ok.mpr ⟨not_not.mpr h.enrollId, guard_eq_ok.mpr ⟨not_not.mpr h.newPub,
      guard_eq_ok.mpr ⟨by simp [h.contributory], bind_eq_ok.mpr ⟨_, enrollmentSealingKey_eq .., ?_⟩⟩⟩⟩
    rw [hplaintext]
    refine bind_eq_ok.mpr ⟨grant, mapError_eq_ok.mpr hread, guard_eq_ok.mpr ⟨not_lt.mpr h.url, bind_eq_ok.mpr ⟨_, h.valid, ?_⟩⟩⟩
    rw [happrover]
    refine guard_eq_ok.mpr ⟨by simp [hkey], guard_eq_ok.mpr ⟨by simp [hsigned], bind_eq_ok.mpr ⟨signer, hsigner, ?_⟩⟩⟩
    rw [hown]
    exact guard_eq_ok.mpr ⟨not_not.mpr hsame, rfl⟩

/-! ## What is approved -/

/-- What a sealed answer is made of. -/
structure Approves (X : EnrollmentPrims) (request : EnrollmentRequest) (grant : EnrollmentGrant) (approver : DeviceIdentity)
    (ephemeral : ByteArr 32) (encoded : Bytes) (answer : SealedEnrollment) : Prop where
  url : grant.serverUrl.utf8Len ≤ MAX_SERVER_URL_LEN
  signer : ∃ record, grant.roster.verify X.prims = .ok record ∧ record.deviceId = approver.deviceId
  enrolled : ∃ record, grant.roster.contains request.deviceId = some record ∧ record.ed25519Pub = request.ed25519Pub
  contributory : X.wasContributory (X.diffieHellman ephemeral request.x25519Pub) = true
  written : X.intoWriter grant = .ok encoded
  enrollId : answer.enrollId = request.enrollId
  device : answer.approverDeviceId = approver.deviceId
  approverPub : answer.approverX25519Pub = X.x25519Public ephemeral
  newPub : answer.newDeviceX25519Pub = request.x25519Pub
  encrypted : X.prims.aeadEncrypt
    (X.sealingKey (X.diffieHellman ephemeral request.x25519Pub) answer.enrollId answer.approverX25519Pub request.x25519Pub)
    answer.nonce answer.aad encoded = some answer.ciphertext
  signature : answer.signature = approver.sign X.prims answer.signedMessage

theorem approve_ok {request : EnrollmentRequest} {code : Text} {grant : EnrollmentGrant} {approver : DeviceIdentity}
    {drawnEphemeral : Except CryptoError (ByteArr 32)} {drawnNonce : Except CryptoError (ByteArr 24)}
    {answer : SealedEnrollment} (h : approve X request code grant approver drawnEphemeral drawnNonce = .ok answer) :
    ∃ ephemeral encoded, Approves X request grant approver ephemeral encoded answer := by
  unfold approve at h
  obtain ⟨_, -, h₁⟩ := bind_eq_ok.mp h
  obtain ⟨-, h₂⟩ := guard_eq_ok.mp h₁
  obtain ⟨hurl, h₃⟩ := guard_eq_ok.mp h₂
  obtain ⟨signer, hsigner, h₄⟩ := bind_eq_ok.mp h₃
  obtain ⟨hid, h₅⟩ := guard_eq_ok.mp h₄
  split at h₅
  · cases h₅
  next enrolled henrolled =>
  obtain ⟨hsame, h₆⟩ := guard_eq_ok.mp h₅
  obtain ⟨ephemeral, -, h₇⟩ := bind_eq_ok.mp h₆
  obtain ⟨hcontributory, h₈⟩ := guard_eq_ok.mp h₇
  obtain ⟨key, hkey, h₉⟩ := bind_eq_ok.mp h₈
  cases hkey
  obtain ⟨encoded, hencoded, h₁₀⟩ := bind_eq_ok.mp h₉
  obtain ⟨nonce, -, h₁₁⟩ := bind_eq_ok.mp h₁₀
  dsimp only at h₁₁
  split at h₁₁
  · cases h₁₁
  next ciphertext hciphertext =>
  cases h₁₁
  exact ⟨ephemeral, encoded, not_lt.mp hurl, ⟨signer, hsigner, not_not.mp hid⟩, ⟨enrolled, henrolled, not_not.mp hsame⟩,
    by simpa using hcontributory, mapError_eq_ok.mp hencoded, rfl, rfl, rfl, rfl, hciphertext, rfl⟩

/-! ## From one to the other -/

theorem begin_ok {identity : DeviceIdentity} {name platform : Text} {drawnEphemeral : Except CryptoError (ByteArr 32)}
    {drawnId : Except CryptoError EnrollId} {enrollment : NewDeviceEnrollment}
    (h : NewDeviceEnrollment.begin X identity name platform drawnEphemeral drawnId = .ok enrollment) :
    enrollment.request.x25519Pub = X.x25519Public enrollment.ephemeral := by
  unfold NewDeviceEnrollment.begin at h
  obtain ⟨ephemeral, -, h₁⟩ := bind_eq_ok.mp h
  obtain ⟨enrollId, -, h₂⟩ := bind_eq_ok.mp h₁
  obtain ⟨_, -, h₃⟩ := bind_eq_ok.mp h₂
  cases h₃
  rfl

theorem Roster.verify_eq_ok {P : Primitives} {roster : Roster} {record : DeviceRecord}
    (h : roster.verify P = .ok record) :
    roster.validate P = .ok () ∧ roster.contains record.deviceId = some record ∧ P.validKey record.ed25519Pub = true := by
  unfold Roster.verify at h
  obtain ⟨_, hvalid, h₁⟩ := bind_eq_ok.mp h
  split at h₁
  · next signer signature hsignedBy hsignature =>
    split at h₁
    · cases h₁
    next found hfound =>
    obtain ⟨hkey, h₂⟩ := guard_eq_ok.mp h₁
    obtain ⟨-, h₃⟩ := guard_eq_ok.mp h₂
    cases h₃
    have hid : record.deviceId = signer := by simpa using List.find?_some hfound
    exact ⟨hvalid, hid ▸ hfound, by simpa using hkey⟩
  · cases h₁

/-- The one who began opens what was approved when the roster has the approver's own key. -/
theorem opens_approved (hX : X.Ideal) {enrollment : NewDeviceEnrollment} {grant : EnrollmentGrant}
    {approver : DeviceIdentity} {ephemeral : ByteArr 32} {encoded : Bytes} {answer : SealedEnrollment}
    (hpub : enrollment.request.x25519Pub = X.x25519Public enrollment.ephemeral)
    (h : Approves X enrollment.request grant approver ephemeral encoded answer) :
    enrollment.open X answer = .ok grant ↔ grant.roster.Knows X.prims approver := by
  obtain ⟨signer, hsigner, hid⟩ := h.signer
  obtain ⟨hvalid, hcontains, hkey⟩ := Roster.verify_eq_ok hsigner
  rw [hid] at hcontains
  have hshared : X.diffieHellman enrollment.ephemeral answer.approverX25519Pub =
      X.diffieHellman ephemeral enrollment.request.x25519Pub := by
    rw [h.approverPub, hpub]
    exact hX.agree enrollment.ephemeral ephemeral
  rw [open_eq_ok]
  constructor
  · intro hopens
    obtain ⟨record, hrecord, -, hsigned⟩ := hopens.approver
    rw [h.device] at hrecord
    refine ⟨record, hrecord, ?_⟩
    rw [h.signature] at hsigned
    exact hX.own_key record.ed25519Pub approver.signing answer.signedMessage hsigned
  · intro hknows
    obtain ⟨record, hrecord, hsame⟩ := hknows
    have hrecord' : signer = record := Option.some.inj (hcontains.symm.trans hrecord)
    refine ⟨h.enrollId, h.newPub, ?_, ⟨encoded, ?_, hX.reads_back grant encoded h.written⟩, h.url, hvalid,
      ⟨record, ?_, hrecord' ▸ hkey, ?_⟩, ⟨signer, hsigner⟩, h.enrolled⟩
    · rw [hshared]
      exact h.contributory
    · rw [hshared]
      exact (hX.correct.decrypt_encrypt _ _ _ _ _ h.encrypted).1
    · rw [h.device]
      exact hrecord
    · rw [h.signature, hsame]
      exact hX.correct.verify_sign approver.signing answer.signedMessage

/-! ## What may be relied on -/

/-- What the owner of a request may rely on in the roster it was handed. -/
structure Vouched (X : EnrollmentPrims) (request : EnrollmentRequest) (answer : SealedEnrollment) (roster : Roster) :
    Prop where
  /-- The roster is signed by one of its own. -/
  signer : ∃ record ∈ roster.devices, roster.verify X.prims = .ok record
  /-- The approver is in it and signed for this enrollment and both ephemeral keys. -/
  approver : ∃ record, roster.contains answer.approverDeviceId = some record ∧
    X.prims.verifyStrict record.ed25519Pub
      (sealAad request.enrollId answer.approverDeviceId answer.approverX25519Pub request.x25519Pub answer.nonce ++
        answer.ciphertext) answer.signature = true
  /-- So is the new device, under its own key. -/
  own : ∃ record, roster.contains request.deviceId = some record ∧ record.ed25519Pub = request.ed25519Pub
  /-- A signature that stands for an answer made elsewhere is not accepted here. -/
  made : ∀ made : SealedEnrollment, X.prims.Binds made.signedMessage answer.signature →
    made.enrollId = request.enrollId ∧ made.approverX25519Pub = answer.approverX25519Pub ∧
      made.newDeviceX25519Pub = request.x25519Pub

theorem Unseals.vouched {enrollment : NewDeviceEnrollment} {answer : SealedEnrollment} {grant : EnrollmentGrant}
    (h : Unseals X enrollment answer grant) : Vouched X enrollment.request answer grant.roster := by
  obtain ⟨signer, hsigner⟩ := h.signer
  obtain ⟨record, hrecord, -, hsigned⟩ := h.approver
  obtain ⟨-, hcontains, -⟩ := Roster.verify_eq_ok hsigner
  refine ⟨⟨signer, List.mem_of_find?_eq_some hcontains, hsigner⟩, ⟨record, hrecord, ?_⟩, h.own, ?_⟩
  · rw [← h.enrollId, ← h.newPub]
    exact hsigned
  · intro made hbinds
    have hsame : answer.signedMessage = made.signedMessage := hbinds record.ed25519Pub _ hsigned
    obtain ⟨hid, -, happrover, hnew, -, -⟩ := SealedEnrollment.signedMessage_inj hsame
    exact ⟨hid.symm.trans h.enrollId, happrover.symm, hnew.symm.trans h.newPub⟩

/-- The device that began an enrollment opens what was approved for it exactly when the roster has the approver under the
approver's own key; and what it opens was meant for it. -/
theorem enrollment_hands_over (hX : X.Ideal) {identity : DeviceIdentity} {name platform : Text}
    {drawnEphemeral : Except CryptoError (ByteArr 32)} {drawnId : Except CryptoError EnrollId}
    {enrollment : NewDeviceEnrollment}
    (hbegin : NewDeviceEnrollment.begin X identity name platform drawnEphemeral drawnId = .ok enrollment) :
    (∀ (code : Text) (grant : EnrollmentGrant) (approver : DeviceIdentity)
      (drawnEphemeral : Except CryptoError (ByteArr 32)) (drawnNonce : Except CryptoError (ByteArr 24))
      (answer : SealedEnrollment),
      approve X enrollment.request code grant approver drawnEphemeral drawnNonce = .ok answer →
      (enrollment.open X answer = .ok grant ↔ grant.roster.Knows X.prims approver)) ∧
    ∀ (answer : SealedEnrollment) (grant : EnrollmentGrant), enrollment.open X answer = .ok grant →
      Vouched X enrollment.request answer grant.roster := by
  constructor
  · intro code grant approver drawnEphemeral drawnNonce answer h
    obtain ⟨ephemeral, encoded, happroves⟩ := approve_ok h
    exact opens_approved hX (begin_ok hbegin) happroves
  · intro answer grant h
    exact (open_eq_ok.mp h).vouched

/-! ## A worked instance -/

/-- Primitives that can be run: a shared secret is the sum of the two, and one grant can be written. -/
def EnrollmentPrims.sample (grant : EnrollmentGrant) : EnrollmentPrims where
  prims := .sample
  x25519Public secret := secret
  diffieHellman secret theirs := ⟨List.zipWith (· + ·) secret.val theirs.val, by
    rw [List.length_zipWith, secret.property, theirs.property, Nat.min_self]⟩
  wasContributory _ := true
  blake2b256 bytes := ⟨toLe 32 (checksum bytes), length_toLe 32 _⟩
  intoWriter other := if other = grant then .ok [1] else .error "another grant"
  fromReader bytes := if bytes = [1] then .ok grant else .error "not the grant"

theorem EnrollmentPrims.sample_ideal (grant : EnrollmentGrant) : (EnrollmentPrims.sample grant).Ideal where
  correct := Primitives.sample_correct
  agree a b := by
    apply Subtype.ext
    exact List.zipWith_comm_of_comm (fun x y => add_comm x y)
  reads_back other bytes h := by
    by_cases hsame : other = grant
    · simp only [sample, hsame, if_true, Except.ok.injEq] at h
      simp only [sample, ← h, if_true, hsame]
    · simp only [sample, hsame, if_false, reduceCtorEq] at h
  own_key key secret message h := by
    have hsign : secret.val ++ toLe 32 (checksum message) = key.val ++ toLe 32 (checksum message) := by
      simpa [sample, Primitives.sample] using h
    exact Subtype.ext (List.append_inj_left hsign (by rw [secret.property, key.property])).symm

/-- A roster of two, signed by the first under the key `seven`. -/
def EnrollmentGrant.sample : EnrollmentGrant :=
  let devices : List DeviceRecord := [⟨⟨.repeated 16 1⟩, .repeated 32 7, ['a'], ['b'], ⟨0, I64.zero_mem⟩, none⟩,
    ⟨⟨.repeated 16 2⟩, .repeated 32 8, ['c'], ['d'], ⟨0, I64.zero_mem⟩, none⟩]
  ⟨⟨.repeated 16 5⟩, .repeated 32 6, 1, ['u'],
    ⟨devices, some ⟨.repeated 16 1⟩,
      some (Primitives.sample.sign (.repeated 32 7) (Roster.signingBytes ⟨devices, none, none⟩ ⟨.repeated 16 1⟩))⟩⟩

/-- The second device asks for it. -/
def NewDeviceEnrollment.sample : NewDeviceEnrollment :=
  ⟨⟨⟨.repeated 16 3⟩, ⟨.repeated 16 2⟩, .repeated 32 4, .repeated 32 8, ['c'], ['d']⟩, .repeated 32 4⟩

/-- The code of its request, and an approver by its key. -/
def NewDeviceEnrollment.sampleCode : Text :=
  NewDeviceEnrollment.sample.request.confirmationCode (.sample .sample)

/-- What the first device sends back, if it signs with `key`. -/
def SealedEnrollment.sample (key : Byte) : Except CryptoError SealedEnrollment :=
  approve (.sample .sample) NewDeviceEnrollment.sample.request NewDeviceEnrollment.sampleCode .sample
    ⟨⟨.repeated 16 1⟩, .repeated 32 key⟩ (.ok (.repeated 32 9)) (.ok (.repeated 24 0))

/-- A device that is in the roster under another key than it signs with approves, and the new device refuses the answer. -/
theorem enrollment_refuses_other_key : ∃ answer, SealedEnrollment.sample 9 = .ok answer ∧
    NewDeviceEnrollment.sample.open (.sample .sample) answer = .error .enrollmentSignatureInvalid := by
  have hrefused : (SealedEnrollment.sample 9).toOption.any (fun answer =>
      NewDeviceEnrollment.sample.open (.sample .sample) answer = .error .enrollmentSignatureInvalid) = true := by
    decide +kernel
  cases h : SealedEnrollment.sample 9 with
  | error e =>
    rw [h] at hrefused
    cases hrefused
  | ok answer =>
    rw [h] at hrefused
    exact ⟨answer, rfl, of_decide_eq_true hrefused⟩

/-- The one that signs with its own key is answered. -/
theorem enrollment_hands_over_seven : ∃ answer, SealedEnrollment.sample 7 = .ok answer ∧
    NewDeviceEnrollment.sample.open (.sample .sample) answer = .ok .sample := by
  have happroved : (SealedEnrollment.sample 7).toOption.isSome = true := by decide +kernel
  cases h : SealedEnrollment.sample 7 with
  | error e =>
    rw [h] at happroved
    cases happroved
  | ok answer =>
    have hbegin : NewDeviceEnrollment.begin (.sample .sample) ⟨⟨.repeated 16 2⟩, .repeated 32 8⟩ ['c'] ['d']
        (.ok (.repeated 32 4)) (.ok ⟨.repeated 16 3⟩) = .ok NewDeviceEnrollment.sample := rfl
    exact ⟨answer, rfl, ((enrollment_hands_over (EnrollmentPrims.sample_ideal .sample) hbegin).1 _ _ _ _ _ answer h).mpr
      ⟨_, rfl, rfl⟩⟩

end Misty
