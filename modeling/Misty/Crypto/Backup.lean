import Misty.Crypto.Sealing

/- The backup file: a 70-byte header in the clear and the compressed payload under a key
   of its own passphrase.

   Correspondence (Rust ↔ Lean):
     `kdf::{KdfParams, KdfTier, KdfParams::validate, KdfTier::params}` ↔ the same names
     `KdfParams::derive_key`                   ↔ `KdfParams.deriveKey`
     `backup::{BackupHeader, BackupHeader::new, to_bytes, parse}` ↔ the same names
     `backup::{seal_bytes, seal_bytes_with, open_bytes, inflate, inflate_with_limit}` ↔ the same names
   Argon2id and DEFLATE are parameters; `BackupPrims.Lossless` is what the compressor's
   documentation promises. `BackupDraw` holds the random bytes one `seal_bytes` draws.

   Results:
   - a file that was written is read back exactly when the payload is within the bound of
     the reader, and a header is read exactly when it is one that a build writes with costs
     it would run (`backup_reads_back_iff`). -/
namespace Misty

/-! ## Costs -/

def MIN_MEMORY_KIB : Nat := 8
def MAX_MEMORY_KIB : Nat := 2 * 1024 * 1024
def MAX_ITERATIONS : Nat := 16
def MAX_PARALLELISM : Nat := 16

structure KdfParams where
  memoryKib : U32
  iterations : U32
  parallelism : U32
  deriving DecidableEq

def KdfParams.validate (self : KdfParams) : Except CryptoError Unit :=
  let reject (detail : String) : Except CryptoError Unit :=
    .error (.kdfParamsRejected self.memoryKib.val self.iterations.val self.parallelism.val detail)
  if self.memoryKib.val < MIN_MEMORY_KIB then reject "memory cost below the minimum"
  else if MAX_MEMORY_KIB < self.memoryKib.val then reject "memory cost above the maximum this build will allocate"
  else if self.iterations.val = 0 then reject "iteration count must be at least 1"
  else if MAX_ITERATIONS < self.iterations.val then reject "iteration count above the maximum this build will run"
  else if self.parallelism.val = 0 then reject "parallelism must be at least 1"
  else if MAX_PARALLELISM < self.parallelism.val then reject "parallelism above the maximum this build will run"
  else if self.memoryKib.val < min (self.parallelism.val * 8) (2 ^ 32 - 1) then
    reject "memory cost must be at least 8 KiB per lane"
  else .ok ()

inductive KdfTier where
  | interactive
  | moderate
  | sensitive
  deriving DecidableEq

def KdfTier.params : KdfTier → KdfParams
  | interactive => ⟨64 * 1024, 3, 4⟩
  | moderate => ⟨256 * 1024, 3, 4⟩
  | sensitive => ⟨1024 * 1024, 4, 4⟩

theorem KdfTier.validate_params (tier : KdfTier) : tier.params.validate = .ok () := by
  cases tier
  all_goals rfl

/-! ## The dependencies -/

/-- Why an inflater stopped. -/
inductive InflateStatus where
  | hasMoreOutput
  | failed
  deriving DecidableEq

/-- The operations a backup takes from its dependencies, beside the cipher. -/
structure BackupPrims where
  /-- Argon2id at these costs: passphrase and salt. -/
  argon2 : KdfParams → Bytes → Bytes → Except String (ByteArr 32)
  /-- `compress_to_vec` at the level of the crate. -/
  deflate : Bytes → Bytes
  /-- `decompress_to_vec_with_limit`. -/
  inflate : Bytes → Nat → Except InflateStatus Bytes

/-- What was compressed is decompressed, up to the limit that is asked for. -/
structure BackupPrims.Lossless (B : BackupPrims) : Prop where
  inflate_deflate : ∀ payload max, payload.length ≤ max → B.inflate (B.deflate payload) max = .ok payload
  inflate_stops : ∀ payload max, max < payload.length → B.inflate (B.deflate payload) max = .error .hasMoreOutput

variable (P : Primitives) (B : BackupPrims)

def KdfParams.deriveKey (self : KdfParams) (passphrase salt : Bytes) : Except CryptoError (ByteArr 32) := do
  self.validate
  (B.argon2 self passphrase salt).mapError .kdf

/-! ## The header -/

def BACKUP_MAGIC : Bytes := asciiBytes "MISTYBAK"
def BACKUP_FORMAT_VERSION : Byte := 1
def KDF_ID_ARGON2ID : Byte := 1
def BACKUP_HEADER_LEN : Nat := 70
def RESERVED_LEN : Nat := 8
def MAX_DECOMPRESSED_LEN : Nat := 64 * 1024 * 1024

structure BackupHeader where
  formatVersion : Byte
  kdfId : Byte
  params : KdfParams
  salt : ByteArr 16
  nonce : ByteArr 24
  deriving DecidableEq

namespace BackupHeader

def new (params : KdfParams) (salt : ByteArr 16) (nonce : ByteArr 24) : BackupHeader :=
  ⟨BACKUP_FORMAT_VERSION, KDF_ID_ARGON2ID, params, salt, nonce⟩

def toBytes (self : BackupHeader) : Bytes :=
  BACKUP_MAGIC ++ [self.formatVersion] ++ [self.kdfId] ++ self.params.memoryKib.toLeBytes.val ++
    self.params.iterations.toLeBytes.val ++ self.params.parallelism.toLeBytes.val ++ self.salt.val ++ self.nonce.val ++
    List.replicate RESERVED_LEN 0

/-- `field`: a part of the header. -/
def field (header : Bytes) (offset n : Nat) : Except CryptoError (ByteArr n) :=
  match h : slice header offset n with
  | some part => .ok ⟨part, length_of_slice h⟩
  | none => .error (.truncated "backup header" (offset + n) header.length)

/-- The byte of a part of one byte. -/
def firstByte (part : ByteArr 1) : Byte := part.val.head?.getD 0

def parse (bytes : Bytes) : Except CryptoError BackupHeader := do
  let header ← field bytes 0 BACKUP_HEADER_LEN
  let magic ← field header.val 0 8
  if magic.val ≠ BACKUP_MAGIC then throw .badBackupMagic
  let formatVersion ← field header.val 8 1
  if firstByte formatVersion ≠ BACKUP_FORMAT_VERSION then
    throw (.unsupportedFormatVersion "backup" (firstByte formatVersion).val BACKUP_FORMAT_VERSION.val)
  let kdfId ← field header.val 9 1
  if firstByte kdfId ≠ KDF_ID_ARGON2ID then throw (.unknownKdfId (firstByte kdfId).val)
  let reserved ← field header.val 62 RESERVED_LEN
  if reserved.val.any (fun byte => byte ≠ 0) then throw (.reservedNotZero "backup header")
  let memoryKib ← field header.val 10 4
  let iterations ← field header.val 14 4
  let parallelism ← field header.val 18 4
  KdfParams.validate ⟨.fromLeBytes memoryKib, .fromLeBytes iterations, .fromLeBytes parallelism⟩
  let salt ← field header.val 22 16
  let nonce ← field header.val 38 24
  return ⟨firstByte formatVersion, firstByte kdfId,
    ⟨.fromLeBytes memoryKib, .fromLeBytes iterations, .fromLeBytes parallelism⟩, salt, nonce⟩

end BackupHeader

/-! ## The file -/

/-- The random bytes of one `seal_bytes`. -/
structure BackupDraw where
  salt : ByteArr 16
  nonce : ByteArr 24

def sealBytesWith (passphrase : Bytes) (params : KdfParams) (salt : ByteArr 16) (nonce : ByteArr 24) (payload : Bytes) :
    Except CryptoError Bytes := do
  let header := (BackupHeader.new params salt nonce).toBytes
  let key ← params.deriveKey B passphrase salt.val
  match P.aeadEncrypt key nonce header (B.deflate payload) with
  | none => throw .aeadEncrypt
  | some ciphertext => return header ++ ciphertext

def sealBytes (draw : BackupDraw) (passphrase : Bytes) (tier : KdfTier) (payload : Bytes) : Except CryptoError Bytes :=
  sealBytesWith P B passphrase tier.params draw.salt draw.nonce payload

def inflateWithLimit (compressed : Bytes) (max : Nat) : Except CryptoError Bytes :=
  match B.inflate compressed max with
  | .ok plain => .ok plain
  | .error .hasMoreOutput => .error (.inflateLimit max)
  | .error .failed => .error (.inflate "not a valid DEFLATE stream")

def openBytes (passphrase file : Bytes) : Except CryptoError Bytes := do
  let header ← BackupHeader.parse file
  let headerBytes ← BackupHeader.field file 0 BACKUP_HEADER_LEN
  let body := file.drop BACKUP_HEADER_LEN
  if body.length < TAG_LEN then throw (.truncated "backup body" (BACKUP_HEADER_LEN + TAG_LEN) file.length)
  let key ← header.params.deriveKey B passphrase header.salt.val
  match P.aeadDecrypt key header.nonce headerBytes.val body with
  | none => throw .backupDecryptFailed
  | some compressed => inflateWithLimit B compressed MAX_DECOMPRESSED_LEN

/-! ## What a header is -/

namespace BackupHeader

@[simp] theorem length_toBytes (self : BackupHeader) : self.toBytes.length = BACKUP_HEADER_LEN := by
  have hmagic : BACKUP_MAGIC.length = 8 := by decide
  simp [toBytes, hmagic, U32.toLeBytes, RESERVED_LEN, BACKUP_HEADER_LEN, self.salt.property, self.nonce.property]

theorem slice_of_field {header : Bytes} {offset n : Nat} {part : ByteArr n} (h : field header offset n = .ok part) :
    slice header offset n = some part.val := by
  unfold field at h
  split at h
  · next part hs =>
    cases h
    exact hs
  · cases h

/-- The parts a header is written as. -/
def parts (self : BackupHeader) : List Bytes :=
  [BACKUP_MAGIC, [self.formatVersion], [self.kdfId], self.params.memoryKib.toLeBytes.val, self.params.iterations.toLeBytes.val,
    self.params.parallelism.toLeBytes.val, self.salt.val, self.nonce.val, List.replicate RESERVED_LEN 0]

theorem toBytes_eq (self : BackupHeader) : self.toBytes = self.parts.flatten := by
  simp [toBytes, parts, List.append_assoc]

theorem field_part {self : BackupHeader} {offset n : Nat} (k : Nat) {part : ByteArr n} (hpart : self.parts[k]? = some part.val)
    (hoffset : ((self.parts.take k).map List.length).sum = offset) : field self.toBytes offset n = .ok part := by
  obtain ⟨hk, heq⟩ := List.getElem?_eq_some_iff.mp hpart
  have hsplit : self.toBytes = (self.parts.take k).flatten ++ part.val ++ (self.parts.drop (k + 1)).flatten := by
    calc self.toBytes = (self.parts.take k ++ self.parts.drop k).flatten := by rw [toBytes_eq, List.take_append_drop]
      _ = (self.parts.take k).flatten ++ part.val ++ (self.parts.drop (k + 1)).flatten := by
        rw [List.drop_eq_getElem_cons hk, heq]
        simp
  have hslice : slice self.toBytes offset n = some part.val := by
    rw [hsplit]
    exact slice_append _ _ _ (List.length_flatten.trans hoffset) part.property
  unfold field
  split
  · next found hfound => exact congrArg _ (Subtype.ext (Option.some.inj (hfound.symm.trans hslice)))
  · next hnone =>
    rw [hslice] at hnone
    cases hnone

theorem field_front {bytes rest : Bytes} {n : Nat} (h : bytes.length = n) : field (bytes ++ rest) 0 n = .ok ⟨bytes, h⟩ := by
  have hslice : slice (bytes ++ rest) 0 n = some bytes := slice_append [] bytes rest rfl h
  unfold field
  split
  · next found hfound => exact congrArg _ (Subtype.ext (Option.some.inj (hfound.symm.trans hslice)))
  · next hnone =>
    rw [hslice] at hnone
    cases hnone

/-- A header this build writes is read back, when it would run the costs. -/
theorem parse_toBytes {params : KdfParams} {salt : ByteArr 16} {nonce : ByteArr 24} (h : params.validate = .ok ()) (rest : Bytes) :
    parse ((new params salt nonce).toBytes ++ rest) = .ok (new params salt nonce) := by
  have hmagic : BACKUP_MAGIC.length = 8 := by decide
  have hword : ∀ n : U32, n.toLeBytes.val.length = 4 := fun n => n.toLeBytes.property
  have hfront : field ((new params salt nonce).toBytes ++ rest) 0 BACKUP_HEADER_LEN =
      .ok ⟨(new params salt nonce).toBytes, length_toBytes _⟩ := field_front (length_toBytes _)
  generalize hself : new params salt nonce = self at hfront ⊢
  have h₀ : field self.toBytes 0 8 = .ok ⟨BACKUP_MAGIC, hmagic⟩ := field_part 0 rfl rfl
  have h₁ : field self.toBytes 8 1 = .ok ⟨[self.formatVersion], rfl⟩ := field_part 1 rfl (by simp [parts, hmagic])
  have h₂ : field self.toBytes 9 1 = .ok ⟨[self.kdfId], rfl⟩ := field_part 2 rfl (by simp [parts, hmagic])
  have h₃ : field self.toBytes 10 4 = .ok self.params.memoryKib.toLeBytes := field_part 3 rfl (by simp [parts, hmagic])
  have h₄ : field self.toBytes 14 4 = .ok self.params.iterations.toLeBytes :=
    field_part 4 rfl (by simp [parts, hmagic, hword])
  have h₅ : field self.toBytes 18 4 = .ok self.params.parallelism.toLeBytes :=
    field_part 5 rfl (by simp [parts, hmagic, hword])
  have h₆ : field self.toBytes 22 16 = .ok self.salt := field_part 6 rfl (by simp [parts, hmagic, hword])
  have h₇ : field self.toBytes 38 24 = .ok self.nonce := field_part 7 rfl (by simp [parts, hmagic, hword, self.salt.property])
  have h₈ : field self.toBytes 62 RESERVED_LEN = .ok ⟨List.replicate RESERVED_LEN 0, List.length_replicate⟩ :=
    field_part 8 rfl (by simp [parts, hmagic, hword, self.salt.property, self.nonce.property])
  subst hself
  unfold parse
  simp only [hfront, h₀, h₁, h₂, h₃, h₄, h₅, h₆, h₇, h₈, bind, Except.bind, firstByte, List.head?_cons, Option.getD_some]
  simp [new, h, RESERVED_LEN, pure, Except.pure]

/-- A header is read where the bytes of one are in front that this build writes, with
costs it would run. -/
theorem parse_eq_ok {bytes : Bytes} {header : BackupHeader} :
    parse bytes = .ok header ↔ ∃ params salt nonce, params.validate = .ok () ∧ header = new params salt nonce ∧
      ∃ rest, bytes = header.toBytes ++ rest := by
  constructor
  · intro h
    unfold parse at h
    obtain ⟨front, hfront, h₁⟩ := bind_eq_ok.mp h
    obtain ⟨magic, hmagic, h₂⟩ := bind_eq_ok.mp h₁
    split at h₂
    · cases h₂
    next hsame =>
    obtain ⟨version, hversion, h₃⟩ := bind_eq_ok.mp h₂
    split at h₃
    · cases h₃
    next hsupported =>
    obtain ⟨kdf, hkdf, h₄⟩ := bind_eq_ok.mp h₃
    split at h₄
    · cases h₄
    next hknown =>
    obtain ⟨reserved, hreserved, h₅⟩ := bind_eq_ok.mp h₄
    split at h₅
    · cases h₅
    next hclear =>
    obtain ⟨memoryKib, hmemory, h₆⟩ := bind_eq_ok.mp h₅
    obtain ⟨iterations, hiterations, h₇⟩ := bind_eq_ok.mp h₆
    obtain ⟨parallelism, hparallelism, h₈⟩ := bind_eq_ok.mp h₇
    obtain ⟨⟨⟩, hvalid, h₉⟩ := bind_eq_ok.mp h₈
    obtain ⟨salt, hsalt, h₁₀⟩ := bind_eq_ok.mp h₉
    obtain ⟨nonce, hnonce, h₁₁⟩ := bind_eq_ok.mp h₁₀
    cases h₁₁
    rw [ne_eq, not_not] at hsame hsupported hknown
    refine ⟨_, salt, nonce, hvalid, by rw [hsupported, hknown]; rfl, bytes.drop BACKUP_HEADER_LEN, ?_⟩
    -- The parts that were read lie one after another from the first byte to the last.
    have hall := slice_join (slice_join (slice_join (slice_join (slice_join (slice_join (slice_join (slice_join
      (slice_of_field hmagic) (slice_of_field hversion)) (slice_of_field hkdf)) (slice_of_field hmemory))
      (slice_of_field hiterations)) (slice_of_field hparallelism)) (slice_of_field hsalt)) (slice_of_field hnonce))
      (slice_of_field hreserved)
    have hbytes := eq_of_slice_all hall front.property
    have hzero : reserved.val = List.replicate RESERVED_LEN 0 := by
      refine List.eq_replicate_iff.mpr ⟨reserved.property, ?_⟩
      intro byte hbyte
      by_contra hne
      exact hclear (List.any_eq_true.mpr ⟨byte, hbyte, by simpa using hne⟩)
    have hone : ∀ a : ByteArr 1, a.val = [firstByte a] := by
      intro a
      obtain ⟨b, hb⟩ := List.length_eq_one_iff.mp a.property
      unfold firstByte
      rw [hb]
      rfl
    have hcut := slice_of_field hfront
    unfold slice at hcut
    split at hcut
    · have htake := Option.some.inj hcut
      rw [List.drop_zero] at htake
      calc bytes = bytes.take BACKUP_HEADER_LEN ++ bytes.drop BACKUP_HEADER_LEN := (List.take_append_drop ..).symm
        _ = _ := by
          rw [htake, ← hbytes, hsame, hzero, hone version, hone kdf]
          simp only [toBytes, U32.toLeBytes_fromLeBytes]
    · cases hcut
  · rintro ⟨params, salt, nonce, hvalid, rfl, rest, rfl⟩
    exact parse_toBytes hvalid rest

end BackupHeader

/-! ## What was written is read -/

variable {P B}

theorem sealBytes_eq_ok {draw : BackupDraw} {passphrase payload file : Bytes} {tier : KdfTier} :
    sealBytes P B draw passphrase tier payload = .ok file ↔
      ∃ key ciphertext, tier.params.deriveKey B passphrase draw.salt.val = .ok key ∧
        P.aeadEncrypt key draw.nonce (BackupHeader.new tier.params draw.salt draw.nonce).toBytes (B.deflate payload) = some ciphertext ∧
        file = (BackupHeader.new tier.params draw.salt draw.nonce).toBytes ++ ciphertext := by
  unfold sealBytes sealBytesWith
  dsimp only
  constructor
  · intro h
    obtain ⟨key, hkey, h⟩ := bind_eq_ok.mp h
    split at h
    · cases h
    · next ciphertext hencrypt =>
      cases h
      exact ⟨key, ciphertext, hkey, hencrypt, rfl⟩
  · rintro ⟨key, ciphertext, hkey, hencrypt, rfl⟩
    rw [hkey]
    simp only [bind, Except.bind, hencrypt]
    rfl

/-- Reading a file that was written comes down to inflating what was deflated. -/
theorem openBytes_sealed (hP : P.Correct) {draw : BackupDraw} {passphrase payload file : Bytes} {tier : KdfTier}
    (h : sealBytes P B draw passphrase tier payload = .ok file) :
    openBytes P B passphrase file = inflateWithLimit B (B.deflate payload) MAX_DECOMPRESSED_LEN := by
  obtain ⟨key, ciphertext, hkey, hencrypt, rfl⟩ := sealBytes_eq_ok.mp h
  obtain ⟨hdecrypt, hlength⟩ := hP.decrypt_encrypt _ _ _ _ _ hencrypt
  have hparse := @BackupHeader.parse_toBytes _ draw.salt draw.nonce tier.validate_params ciphertext
  have hfront := @BackupHeader.field_front _ ciphertext _ (BackupHeader.length_toBytes (.new tier.params draw.salt draw.nonce))
  have hbody := @List.drop_left' _ _ ciphertext _ (BackupHeader.length_toBytes (.new tier.params draw.salt draw.nonce))
  have hlong : ¬ ciphertext.length < TAG_LEN := by
    rw [hlength, TAG_LEN]
    omega
  unfold openBytes
  simp only [hparse, hfront, hbody, hlong, if_false, bind, Except.bind]
  have hderive : (BackupHeader.new tier.params draw.salt draw.nonce).params.deriveKey B passphrase
      (BackupHeader.new tier.params draw.salt draw.nonce).salt.val = .ok key := hkey
  rw [hderive]
  simp only [BackupHeader.new] at hdecrypt ⊢
  rw [hdecrypt]

/-- A backup that was written opens exactly when its payload is within the reader's bound;
a header is read exactly when it is one this build writes with costs it would run. -/
theorem backup_reads_back_iff (hP : P.Correct) (hB : B.Lossless) :
    (∀ draw passphrase tier payload file, sealBytes P B draw passphrase tier payload = .ok file →
      (openBytes P B passphrase file = .ok payload ↔ payload.length ≤ MAX_DECOMPRESSED_LEN)) ∧
    (∀ bytes header, bytes.length = BACKUP_HEADER_LEN →
      (BackupHeader.parse bytes = .ok header ↔
        ∃ params salt nonce, params.validate = .ok () ∧ header = .new params salt nonce ∧ bytes = header.toBytes)) := by
  refine ⟨?_, ?_⟩
  · intro draw passphrase tier payload file h
    rw [openBytes_sealed hP h]
    unfold inflateWithLimit
    constructor
    · intro hopen
      by_contra hlong
      rw [hB.inflate_stops payload MAX_DECOMPRESSED_LEN (by omega)] at hopen
      cases hopen
    · intro hshort
      rw [hB.inflate_deflate payload MAX_DECOMPRESSED_LEN hshort]
  · intro bytes header hlength
    rw [BackupHeader.parse_eq_ok]
    constructor
    · rintro ⟨params, salt, nonce, hvalid, rfl, rest, rfl⟩
      rw [List.length_append, BackupHeader.length_toBytes] at hlength
      have hrest : rest = [] := List.length_eq_zero_iff.mp (by omega)
      exact ⟨params, salt, nonce, hvalid, rfl, by rw [hrest, List.append_nil]⟩
    · rintro ⟨params, salt, nonce, hvalid, rfl, rfl⟩
      exact ⟨params, salt, nonce, hvalid, rfl, [], (List.append_nil _).symm⟩

/-- A derivation that mixes nothing, and a compressor that stores. -/
def BackupPrims.sample : BackupPrims where
  argon2 _ _ _ := .ok (.repeated 32 7)
  deflate payload := payload
  inflate compressed max := if compressed.length ≤ max then .ok compressed else .error .hasMoreOutput

theorem BackupPrims.sample_lossless : BackupPrims.sample.Lossless where
  inflate_deflate _ _ h := if_pos h
  inflate_stops _ _ h := if_neg (not_le.mpr h)

theorem sealBytes_sample (payload : Bytes) :
    ∃ file, sealBytes .sample .sample ⟨.repeated 16 1, .repeated 24 2⟩ [3] .interactive payload = .ok file :=
  ⟨_, sealBytes_eq_ok.mpr ⟨_, _, rfl, rfl, rfl⟩⟩

/-- Four bytes. -/
theorem backup_reads_back_iff_sample :
    ∃ file, sealBytes .sample .sample ⟨.repeated 16 1, .repeated 24 2⟩ [3] .interactive [1, 2, 3, 4] = .ok file ∧
      openBytes .sample .sample [3] file = .ok [1, 2, 3, 4] := by
  obtain ⟨file, hfile⟩ := sealBytes_sample [1, 2, 3, 4]
  have hshort : [1, 2, 3, (4 : Byte)].length ≤ MAX_DECOMPRESSED_LEN := by
    rw [MAX_DECOMPRESSED_LEN]
    simp
  exact ⟨file, hfile, ((backup_reads_back_iff Primitives.sample_correct BackupPrims.sample_lossless).1 _ _ _ _ _ hfile).mpr hshort⟩

theorem unreadable_of_long {payload : Bytes} (h : MAX_DECOMPRESSED_LEN < payload.length) :
    ∃ file, sealBytes .sample .sample ⟨.repeated 16 1, .repeated 24 2⟩ [3] .interactive payload = .ok file ∧
      openBytes .sample .sample [3] file = .error (.inflateLimit MAX_DECOMPRESSED_LEN) := by
  obtain ⟨file, hfile⟩ := sealBytes_sample payload
  refine ⟨file, hfile, ?_⟩
  rw [openBytes_sealed Primitives.sample_correct hfile]
  unfold inflateWithLimit
  rw [BackupPrims.sample_lossless.inflate_stops _ _ h]

/-- A payload of a byte more than the reader inflates: it is written, and never read. -/
theorem large_backup_unreadable :
    ∃ file, sealBytes .sample .sample ⟨.repeated 16 1, .repeated 24 2⟩ [3] .interactive
        (List.replicate (MAX_DECOMPRESSED_LEN + 1) 0) = .ok file ∧
      openBytes .sample .sample [3] file = .error (.inflateLimit MAX_DECOMPRESSED_LEN) := by
  apply unreadable_of_long
  rw [List.length_replicate]
  exact Nat.lt_succ_self _

end Misty
