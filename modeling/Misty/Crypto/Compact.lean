import Misty.Crypto.Identity
import Misty.Lib.Bits
import Misty.Lib.Crc

/- The compact code of a recovery key: base 32 of the key and its CRC-32, in characters a
   transcriber may confuse.

   What is proved:
     1. `fromCompact_eq_ok`, `fromCompact_folded` — a text is read as a key exactly when its
        significant characters have the values of the key's code: fold to its symbols.
     2. `codes_window` — two codes that differ in two neighbouring places at most are the
        same: the difference is a burst to the CRC, and where it reaches into the CRC
        itself, the last octet of the CRC gives it away.
     3. `changed_rejected`, `swapped_rejected` — so one changed character, or two
        neighbours exchanged, are refused.

   Correspondence (Rust ↔ Lean):
     `crc32::crc32`, `u32::to_be_bytes`        ↔ `crc32`, `toBeBytes`
     `compact::{symbol, value_of, payload}`    ↔ `symbol`, `valueOf`, `compactPayload`
     `compact::{to_compact, from_compact}`     ↔ `toCompact`, `fromCompact`
     the loop of `from_compact`, its `while`   ↔ `decodeChars`, `drainBits`
   The checksum is a `BitVec 32`, and the buffer a number below 2^64. -/
namespace Misty

open Bits

abbrev RecoveryKey := ByteArr 32

/-! ## The checksum -/

def POLYNOMIAL : BitVec 32 := 0xEDB88320

def crc32 (data : Bytes) : BitVec 32 :=
  ~~~ (data.foldl (fun crc byte =>
    (List.range 8).foldl (fun crc _ =>
      let mask := if crc &&& 1 = 0 then 0 else POLYNOMIAL
      (crc >>> 1) ^^^ mask) (crc ^^^ BitVec.ofNat 32 byte.val)) 0xFFFFFFFF)

def toBeBytes (n : BitVec 32) : Bytes :=
  [Fin.ofNat 256 (n >>> 24).toNat, Fin.ofNat 256 (n >>> 16).toNat, Fin.ofNat 256 (n >>> 8).toNat, Fin.ofNat 256 n.toNat]

/-! ## The code -/

def COMPACT_ALPHABET : Bytes := asciiBytes "0123456789ABCDEFGHJKMNPQRSTVWXYZ"
def COMPACT_GROUP_LEN : Nat := 8
def COMPACT_CHAR_COUNT : Nat := 58
def PAYLOAD_LEN : Nat := 32 + 4

def symbol (value : Nat) : Char :=
  match COMPACT_ALPHABET[value]? with
  | some byte => Char.ofNat byte.val
  | none => '0'

def toAsciiUppercase (ch : Char) : Char :=
  if 'a' ≤ ch ∧ ch ≤ 'z' then Char.ofNat (ch.toNat - 32) else ch

/-- `u8::try_from(upper).unwrap_or(0xff)`. -/
def byteOfChar (ch : Char) : Nat := if ch.toNat < 256 then ch.toNat else 0xff

def valueOf (character : Char) : Option Nat :=
  let upper := toAsciiUppercase character
  if upper = 'O' then some 0
  else if upper = 'I' ∨ upper = 'L' then some 1
  else COMPACT_ALPHABET.findIdx? (fun symbol => symbol.val = byteOfChar upper)

/-- `payload`. -/
def compactPayload (key : RecoveryKey) : Bytes := key.val ++ toBeBytes (crc32 key.val)

/-- What the encoder shifts in at a position. -/
def compactBit (bytes : Bytes) (position : Nat) : Nat :=
  if position < PAYLOAD_LEN * 8 then bitAt bytes position else 0

def toCompact (key : RecoveryKey) : Text :=
  (List.range COMPACT_CHAR_COUNT).flatMap (fun index =>
    (if 0 < index ∧ index % COMPACT_GROUP_LEN = 0 then ['-'] else []) ++
      [symbol (groupAt 5 (compactBit (compactPayload key)) index)])

/-- A character that is not a separator. -/
def isSignificant (character : Char) : Bool :=
  !isWhitespace character && character ≠ '-' && character ≠ '_'

/-- The characters that are read. -/
def significant (text : Text) : List Char := text.filter isSignificant

/-- The inner `while`: whole octets leave the buffer. -/
def drainBits (buffer : Nat) : Nat → Bytes → Nat × Bytes
  | pendingBits + 8, bytes => drainBits buffer pendingBits (bytes ++ [Fin.ofNat 256 (buffer >>> pendingBits)])
  | pendingBits, bytes => (pendingBits, bytes)

/-- The loop over the significant characters: the buffer, how many of its bits are pending, and the octets. -/
def decodeChars : List Char → Nat → Nat → Nat → Bytes → Except CryptoError (Nat × Nat × Bytes)
  | [], _, buffer, pendingBits, bytes => .ok (buffer, pendingBits, bytes)
  | character :: rest, index, buffer, pendingBits, bytes =>
    match valueOf character with
    | none => .error (.badCompactChar index)
    | some value =>
      let buffer := (buffer <<< 5 ||| value) % 2 ^ 64
      let drained := drainBits buffer (pendingBits + 5) bytes
      decodeChars rest (index + 1) buffer drained.1 drained.2

def fromCompact (text : Text) : Except CryptoError RecoveryKey := do
  let significant := significant text
  if significant.length ≠ COMPACT_CHAR_COUNT then
    throw (.badCompactLength COMPACT_CHAR_COUNT significant.length)
  let (buffer, pendingBits, bytes) ← decodeChars significant 0 0 0 []
  if buffer &&& (1 <<< pendingBits) - 1 ≠ 0 then throw .badCompactPadding
  if h : bytes.length = PAYLOAD_LEN then
    let keyBytes : RecoveryKey := ⟨bytes.take 32, by rw [List.length_take, h]; rfl⟩
    if toBeBytes (crc32 keyBytes.val) ≠ bytes.drop 32 then throw .crc32Mismatch
    return keyBytes
  else throw (.badCompactLength COMPACT_CHAR_COUNT significant.length)

/-! ## The checksum as a remainder -/

theorem crc32_shift (crc : BitVec 32) :
    ((crc >>> 1) ^^^ if crc &&& 1 = 0 then 0 else POLYNOMIAL) = Crc.shift POLYNOMIAL crc := by
  have hand : crc &&& 1 = BitVec.setWidth 32 (BitVec.ofBool (crc.getLsbD 0)) :=
    BitVec.and_one_eq_setWidth_ofBool_getLsbD
  rw [hand, Crc.shift]
  cases crc.getLsbD 0 with
  | true => rfl
  | false => exact BitVec.xor_zero

theorem crc32_shifts (crc : BitVec 32) : ∀ n : Nat, (List.range n).foldl (fun (crc : BitVec 32) _ =>
    let mask := if crc &&& 1 = 0 then 0 else POLYNOMIAL
    (crc >>> 1) ^^^ mask) crc = Crc.shifts POLYNOMIAL n crc
  | 0 => rfl
  | n + 1 => by
    rw [List.range_succ, List.foldl_append, crc32_shifts crc n, Crc.shifts_add (n := 1)]
    exact crc32_shift _

theorem crc32_eq (data : Bytes) : crc32 data = ~~~ (data.foldl (Crc.step POLYNOMIAL) 0xFFFFFFFF) := by
  unfold crc32
  congr 2
  funext crc byte
  exact crc32_shifts _ 8

theorem polynomial_top : POLYNOMIAL.getLsbD 31 = true := by decide

@[simp] theorem length_toBeBytes (n : BitVec 32) : (toBeBytes n).length = 4 := rfl

theorem toBeBytes_inj {m n : BitVec 32} (h : toBeBytes m = toBeBytes n) : m = n := by
  have hm := m.isLt
  have hn := n.isLt
  apply BitVec.eq_of_toNat_eq
  simp only [toBeBytes, List.cons.injEq, Fin.ext_iff, Fin.val_ofNat, BitVec.toNat_ushiftRight, Nat.shiftRight_eq_div_pow,
    and_true] at h
  omega

/-- The low octet of the remainder of one octet is clear only for the octet 0. -/
theorem low_of_shifts : ∀ e : Byte, (Crc.shifts POLYNOMIAL 8 (BitVec.ofNat 32 e.val)).setWidth 8 = 0#8 → e = 0 := by
  decide +kernel

theorem last_octet {front : Bytes} {x y : Byte}
    (h : (crc32 (front ++ [x])).setWidth 8 = (crc32 (front ++ [y])).setWidth 8) : x = y := by
  rw [crc32_eq, crc32_eq, List.foldl_append, List.foldl_append, BitVec.setWidth_not (by decide), BitVec.setWidth_not (by decide),
    BitVec.not_inj] at h
  simp only [List.foldl_cons, List.foldl_nil] at h
  generalize front.foldl (Crc.step POLYNOMIAL) 0xFFFFFFFF = c at h
  have hxor : Crc.step POLYNOMIAL c x ^^^ Crc.step POLYNOMIAL c y =
      Crc.shifts POLYNOMIAL 8 (BitVec.ofNat 32 (x.val ^^^ y.val)) := by
    rw [Crc.step_xor, BitVec.xor_self, BitVec.zero_xor, BitVec.ofNat_xor]
  have hlow := congrArg (BitVec.setWidth 8) hxor
  rw [BitVec.setWidth_xor, h, BitVec.xor_self] at hlow
  have hzero := low_of_shifts ⟨x.val ^^^ y.val, Nat.xor_lt_two_pow (n := 8) x.isLt y.isLt⟩ hlow.symm
  exact Fin.ext (Nat.xor_eq_zero_iff.mp (congrArg Fin.val hzero))

/-! ## Characters and their values -/

/-- The character a transcriber's one is read as. -/
def folded (character : Char) : Char :=
  let upper := toAsciiUppercase character
  if upper = 'O' then '0' else if upper = 'I' ∨ upper = 'L' then '1' else upper

theorem value_of_symbol : ∀ v < 32, COMPACT_ALPHABET.findIdx? (fun s => s.val = byteOfChar (symbol v)) = some v := by
  decide

theorem symbol_plain : ∀ v < 32, folded (symbol v) = symbol v ∧ isSignificant (symbol v) = true ∧
    symbol v ≠ 'O' ∧ symbol v ≠ 'I' ∧ symbol v ≠ 'L' := by
  decide

theorem symbol_alphabet : ∀ v < 32, ∃ b : Byte, COMPACT_ALPHABET[v]? = some b ∧ symbol v = Char.ofNat b.val ∧ b.val < 255 := by
  decide +kernel

theorem valueOf_eq {c : Char} {v : Nat} : valueOf c = some v ↔ v < 32 ∧ folded c = symbol v := by
  unfold valueOf folded
  dsimp only
  generalize toAsciiUppercase c = upper
  -- the letters that are read as digits come first
  by_cases hO : upper = 'O'
  · rw [if_pos hO, if_pos hO]
    constructor
    · intro h
      cases h
      decide
    · intro h
      have hzero : ∀ v < 32, '0' = symbol v → some 0 = some v := by decide
      exact hzero v h.1 h.2
  · rw [if_neg hO, if_neg hO]
    by_cases hI : upper = 'I' ∨ upper = 'L'
    · rw [if_pos hI, if_pos hI]
      constructor
      · intro h
        cases h
        decide
      · intro h
        have hone : ∀ v < 32, '1' = symbol v → some 1 = some v := by decide
        exact hone v h.1 h.2
    · rw [if_neg hI, if_neg hI]
      constructor
      · intro h
        obtain ⟨hv, hbyte, -⟩ := List.findIdx?_eq_some_iff_getElem.mp h
        have hlt : v < 32 := hv
        refine ⟨hlt, ?_⟩
        obtain ⟨b, hb, hsymbol, hsmall⟩ := symbol_alphabet v hlt
        rw [List.getElem?_eq_getElem hv, Option.some.injEq] at hb
        rw [hb, decide_eq_true_eq] at hbyte
        rw [hsymbol, hbyte, byteOfChar]
        rw [byteOfChar] at hbyte
        split at hbyte
        · next hfits => rw [if_pos hfits, Char.ofNat_toNat]
        · omega
      · intro h
        rw [h.2]
        exact value_of_symbol v h.1

/-! ## Reading -/

/-- Moving whole octets out of the buffer leaves the stream as it is. -/
theorem drainBits_spec (buffer pendingBits : Nat) (bytes : Bytes) :
    (drainBits buffer pendingBits bytes).1 < 8 ∧
      octets (drainBits buffer pendingBits bytes).2 ++ bitsBe (drainBits buffer pendingBits bytes).1 buffer =
        octets bytes ++ bitsBe pendingBits buffer := by
  fun_induction drainBits buffer pendingBits bytes with
  | case1 pendingBits bytes ih =>
    refine ⟨ih.1, ?_⟩
    have hone : octets [Fin.ofNat 256 (buffer >>> pendingBits)] = bitsBe 8 (buffer >>> pendingBits) := by
      simp only [octets, List.map_cons, List.map_nil, stream_cons, stream_nil, List.append_nil, Fin.val_ofNat]
      exact bitsBe_mod (n := 8) (m := 8) le_rfl
    have hsplit : bitsBe (pendingBits + 8) buffer = bitsBe 8 (buffer >>> pendingBits) ++ bitsBe pendingBits buffer := by
      rw [Nat.add_comm, bitsBe_add]
    rw [ih.2, octets_append, hone, List.append_assoc]
    exact congrArg (octets bytes ++ ·) hsplit.symm
  | case2 pendingBits bytes h =>
    refine ⟨?_, rfl⟩
    by_contra hge
    obtain ⟨k, hk⟩ := Nat.exists_eq_add_of_le (not_lt.mp hge)
    exact h k (by omega)

theorem decodeChars_spec : ∀ (chars : List Char) (values : List Nat), chars.map valueOf = values.map some →
    ∀ (index buffer pendingBits : Nat) (bytes : Bytes), pendingBits < 8 →
      ∃ buffer' pendingBits' bytes', decodeChars chars index buffer pendingBits bytes = .ok (buffer', pendingBits', bytes') ∧
        pendingBits' < 8 ∧ octets bytes' ++ bitsBe pendingBits' buffer' =
          octets bytes ++ bitsBe pendingBits buffer ++ stream 5 values
  | [], [], _, _, buffer, pendingBits, bytes, hp => ⟨buffer, pendingBits, bytes, rfl, hp, by simp⟩
  | [], _ :: _, h, _, _, _, _, _ => by simp at h
  | _ :: _, [], h, _, _, _, _, _ => by simp at h
  | c :: chars, v :: values, h, index, buffer, pendingBits, bytes, hp => by
    rw [List.map_cons, List.map_cons, List.cons.injEq] at h
    have hv : v < 2 ^ 5 := (valueOf_eq.mp h.1).1
    obtain ⟨hsmall, hdrain⟩ := drainBits_spec ((buffer <<< 5 ||| v) % 2 ^ 64) (pendingBits + 5) bytes
    obtain ⟨buffer', pendingBits', bytes', hok, hp', hstream⟩ := decodeChars_spec chars values h.2 (index + 1)
      ((buffer <<< 5 ||| v) % 2 ^ 64) _ (drainBits ((buffer <<< 5 ||| v) % 2 ^ 64) (pendingBits + 5) bytes).2 hsmall
    refine ⟨buffer', pendingBits', bytes', ?_, hp', ?_⟩
    · rw [decodeChars, h.1]
      exact hok
    -- The buffer is cut at 64 bits and never holds more than twelve that count.
    · rw [hstream, hdrain, bitsBe_mod (by omega), bitsBe_push hv, stream_cons]
      simp only [List.append_assoc]

theorem decodeChars_values : ∀ (chars : List Char) (index buffer pendingBits : Nat) (bytes : Bytes) (r : Nat × Nat × Bytes),
    decodeChars chars index buffer pendingBits bytes = .ok r →
      ∃ values : List Nat, chars.map valueOf = values.map some
  | [], _, _, _, _, _, _ => ⟨[], rfl⟩
  | c :: chars, index, buffer, pendingBits, bytes, r, h => by
    rw [decodeChars] at h
    split at h
    · cases h
    · next v hv =>
      obtain ⟨values, hvalues⟩ := decodeChars_values chars _ _ _ _ r h
      exact ⟨v :: values, by rw [List.map_cons, hv, hvalues, List.map_cons]⟩

/-- The values of a key's code. -/
def codes (key : RecoveryKey) : List Nat :=
  (List.range COMPACT_CHAR_COUNT).map (groupAt 5 (compactBit (compactPayload key)))

theorem compactBit_lt (bytes : Bytes) (position : Nat) : compactBit bytes position < 2 := by
  unfold compactBit
  split
  · exact bitAt_lt bytes position
  · exact Nat.two_pos

theorem codes_lt (key : RecoveryKey) : ∀ v ∈ codes key, v < 2 ^ 5 := by
  intro v hv
  obtain ⟨index, -, rfl⟩ := List.mem_map.mp hv
  exact groupAt_lt (compactBit_lt _) index

theorem length_codes (key : RecoveryKey) : (codes key).length = COMPACT_CHAR_COUNT := by
  rw [codes, List.length_map, List.length_range]

theorem length_compactPayload (key : RecoveryKey) : (compactPayload key).length = PAYLOAD_LEN := by
  rw [compactPayload, List.length_append, key.property, length_toBeBytes]
  rfl

/-- The code is the payload and two clear bits. -/
theorem stream_codes (key : RecoveryKey) : stream 5 (codes key) = octets (compactPayload key) ++ [false, false] := by
  have hsplit : COMPACT_CHAR_COUNT * 5 = 8 * PAYLOAD_LEN + 2 := rfl
  have hlen := length_compactPayload key
  rw [codes, stream_groups (compactBit_lt _), hsplit, List.range_add, List.map_append, ← hlen, ← bits_octets, hlen]
  refine congrArg₂ (· ++ ·) ?_ ?_
  · apply List.map_congr_left
    intro p hp
    rw [compactBit, if_pos (by have := List.mem_range.mp hp; omega)]
  · rw [List.map_map]
    have hclear : ∀ p, (compactBit (compactPayload key) (8 * PAYLOAD_LEN + p)).testBit 0 = false := by
      intro p
      rw [compactBit, if_neg (by omega), Nat.zero_testBit]
    exact (List.map_congr_left (fun p _ => hclear p) : _ = (List.range 2).map (fun _ => false))

/-- 58 characters that have values are read as 36 octets and two bits more. -/
theorem decodeChars_all {chars : List Char} {values : List Nat} (hvalues : chars.map valueOf = values.map some)
    (hcount : chars.length = COMPACT_CHAR_COUNT) :
    ∃ buffer bytes, decodeChars chars 0 0 0 [] = .ok (buffer, 2, bytes) ∧ bytes.length = PAYLOAD_LEN ∧
      octets bytes ++ bitsBe 2 buffer = stream 5 values := by
  obtain ⟨buffer, pendingBits, bytes, hread, hp, hstream⟩ := decodeChars_spec chars values hvalues 0 0 0 [] (by decide)
  have hlen := congrArg List.length hvalues
  have hbits := congrArg List.length hstream
  simp only [List.length_append, List.length_map, length_octets, length_bitsBe, length_stream, List.length_nil] at hlen hbits
  have hchars : COMPACT_CHAR_COUNT = 58 := rfl
  have hpayload : PAYLOAD_LEN = 36 := rfl
  obtain rfl : pendingBits = 2 := by omega
  exact ⟨buffer, bytes, hread, by omega, hstream⟩

theorem padding_clear {buffer : Nat} : buffer &&& (1 <<< 2) - 1 = 0 ↔ bitsBe 2 buffer = [false, false] := by
  have hmask : buffer &&& (1 <<< 2) - 1 = buffer % 2 ^ 2 := Nat.and_two_pow_sub_one_eq_mod buffer 2
  rw [hmask, bitsBe, bitsBe, bitsBe]
  constructor
  · intro h
    have hbit : ∀ i < 2, buffer.testBit i = false := by
      intro i hi
      have hmod := Nat.testBit_mod_two_pow buffer 2 i
      rw [h, decide_eq_true hi, Bool.true_and, Nat.zero_testBit] at hmod
      exact hmod.symm
    rw [hbit 1 (by decide), hbit 0 (by decide)]
  · intro h
    simp only [List.cons.injEq, and_true, Nat.testBit_eq_decide_div_mod_eq, decide_eq_false_iff_not] at h
    omega

/-- A text is read as a key exactly when its significant characters have the values of the key's code. -/
theorem fromCompact_eq_ok {text : Text} {key : RecoveryKey} :
    fromCompact text = .ok key ↔ (significant text).map valueOf = (codes key).map some := by
  unfold fromCompact
  constructor
  · intro h
    obtain ⟨hcount, h⟩ := guard_eq_ok.mp h
    obtain ⟨r, hread, h⟩ := bind_eq_ok.mp h
    obtain ⟨values, hvalues⟩ := decodeChars_values _ _ _ _ _ _ hread
    obtain ⟨buffer, bytes, hread', hbytes, hstream⟩ := decodeChars_all hvalues (not_not.mp hcount)
    rw [hread, Except.ok.injEq] at hread'
    subst hread'
    obtain ⟨hpadding, h⟩ := guard_eq_ok.mp h
    rw [dif_pos hbytes] at h
    obtain ⟨hcrc, h⟩ := guard_eq_ok.mp h
    cases h
    -- the checksum that was read is the one the key has
    have hpayload : compactPayload ⟨bytes.take 32, by rw [List.length_take, hbytes]; rfl⟩ = bytes := by
      rw [compactPayload, not_not.mp hcrc, List.take_append_drop]
    -- both are five bits a character of the same stream
    have hcodes : values = codes ⟨bytes.take 32, by rw [List.length_take, hbytes]; rfl⟩ := by
      apply stream_inj (n := 5) (by decide) _ (codes_lt _)
      · rw [stream_codes, hpayload, ← padding_clear.mp (not_not.mp hpadding), hstream]
      · intro v hv
        have hmem : some v ∈ (significant text).map valueOf := by
          rw [hvalues]
          exact List.mem_map_of_mem hv
        obtain ⟨c, -, hc⟩ := List.mem_map.mp hmem
        exact (valueOf_eq.mp hc).1
    rw [hvalues, hcodes]
  · intro h
    -- the other way: the characters are the key's own
    have hcount : (significant text).length = COMPACT_CHAR_COUNT := by
      have hlen := congrArg List.length h
      rwa [List.length_map, List.length_map, length_codes] at hlen
    obtain ⟨buffer, bytes, hread, hbytes, hstream⟩ := decodeChars_all h hcount
    rw [stream_codes] at hstream
    obtain ⟨hoctets, hpadding⟩ := List.append_inj hstream
      (by rw [length_octets, length_octets, hbytes, length_compactPayload])
    have hpayload := octets_inj hoctets
    refine guard_eq_ok.mpr ⟨not_not.mpr hcount, bind_eq_ok.mpr ⟨_, hread, guard_eq_ok.mpr ⟨?_, ?_⟩⟩⟩
    · exact not_not.mpr (padding_clear.mpr hpadding)
    · rw [dif_pos hbytes]
      have hkey : bytes.take 32 = key.val := by
        rw [hpayload, compactPayload, List.take_append_of_le_length (le_of_eq key.property.symm),
          List.take_of_length_le (le_of_eq key.property)]
      have hsum : bytes.drop 32 = toBeBytes (crc32 key.val) := by
        rw [hpayload, compactPayload, List.drop_left' key.property]
      refine guard_eq_ok.mpr ⟨?_, ?_⟩
      · have hcrc : toBeBytes (crc32 (bytes.take 32)) = bytes.drop 32 := by rw [hkey, hsum]
        exact not_not.mpr hcrc
      · exact congrArg Except.ok (Subtype.ext hkey)

/-! ## What is written -/

theorem significant_append (l r : Text) : significant (l ++ r) = significant l ++ significant r :=
  List.filter_append l r

theorem significant_toCompact (key : RecoveryKey) : significant (toCompact key) = (codes key).map symbol := by
  have hgroup : ∀ index, significant ((if 0 < index ∧ index % COMPACT_GROUP_LEN = 0 then ['-'] else []) ++
      [symbol (groupAt 5 (compactBit (compactPayload key)) index)]) =
        [symbol (groupAt 5 (compactBit (compactPayload key)) index)] := by
    intro index
    have hkept : isSignificant (symbol (groupAt 5 (compactBit (compactPayload key)) index)) = true :=
      (symbol_plain _ (groupAt_lt (compactBit_lt _) index)).2.1
    have hdash : significant (if 0 < index ∧ index % COMPACT_GROUP_LEN = 0 then ['-'] else []) = [] := by
      split
      · decide
      · rfl
    rw [significant_append, hdash, List.nil_append, significant, List.filter_cons_of_pos hkept, List.filter_nil]
  have hall : ∀ l : List Nat, significant (l.flatMap (fun index =>
      (if 0 < index ∧ index % COMPACT_GROUP_LEN = 0 then ['-'] else []) ++
        [symbol (groupAt 5 (compactBit (compactPayload key)) index)])) =
          (l.map (groupAt 5 (compactBit (compactPayload key)))).map symbol := by
    intro l
    induction l with
    | nil => rfl
    | cons index l ih =>
      rw [List.flatMap_cons, significant_append, hgroup, ih, List.map_cons, List.map_cons, List.singleton_append]
  exact hall _

theorem map_eq_map {α β γ δ : Type} {f : α → γ} {g : β → γ} {f' : α → δ} {g' : β → δ} : ∀ {l : List α} {r : List β},
    (∀ a, ∀ b ∈ r, f a = g b ↔ f' a = g' b) → (l.map f = r.map g ↔ l.map f' = r.map g')
  | [], [], _ => by simp
  | [], _ :: _, _ => by simp
  | _ :: _, [], _ => by simp
  | a :: l, b :: r, h => by
    have ih := map_eq_map (l := l) (fun x y hy => h x y (List.mem_cons_of_mem b hy))
    simp only [List.map_cons, List.cons.injEq, h a b List.mem_cons_self, ih]

/-- Values are those of a key's code exactly when the characters fold to its symbols. -/
theorem values_folded {chars : List Char} {values : List Nat} (hvalues : ∀ v ∈ values, v < 2 ^ 5) :
    chars.map valueOf = values.map some ↔ chars.map folded = values.map symbol := by
  apply map_eq_map
  intro c v hv
  rw [valueOf_eq]
  exact and_iff_right (hvalues v hv)

theorem fromCompact_folded {text : Text} {key : RecoveryKey} :
    fromCompact text = .ok key ↔ (significant text).map folded = significant (toCompact key) := by
  rw [fromCompact_eq_ok, significant_toCompact, values_folded (codes_lt key)]

theorem from_to_compact (key : RecoveryKey) : fromCompact (toCompact key) = .ok key := by
  rw [fromCompact_folded, significant_toCompact, List.map_map]
  apply List.map_congr_left
  intro v hv
  exact (symbol_plain v (codes_lt key v hv)).1

/-! ## Transcription errors -/

theorem octets_take (bytes : Bytes) (n : Nat) : (octets bytes).take (8 * n) = octets (bytes.take n) := by
  have hsplit : octets bytes = octets (bytes.take n) ++ octets (bytes.drop n) := by
    rw [← octets_append, List.take_append_drop]
  rcases Nat.le_total n bytes.length with hn | hn
  · rw [hsplit, List.take_left' (by rw [length_octets, List.length_take, Nat.min_eq_left hn, Nat.mul_comm])]
  · rw [List.take_of_length_le hn, List.take_of_length_le (by rw [length_octets]; omega)]

theorem octets_drop (bytes : Bytes) (n : Nat) : (octets bytes).drop (8 * n) = octets (bytes.drop n) := by
  have hsplit : octets bytes = octets (bytes.take n) ++ octets (bytes.drop n) := by
    rw [← octets_append, List.take_append_drop]
  rcases Nat.le_total n bytes.length with hn | hn
  · rw [hsplit, List.drop_left' (by rw [length_octets, List.length_take, Nat.min_eq_left hn, Nat.mul_comm])]
  · rw [List.drop_of_length_le hn, List.drop_of_length_le (by rw [length_octets]; omega)]
    rfl

/-- Byte strings whose bits agree outside a stretch agree outside the octets it touches. -/
theorem octets_outside {l r : Bytes} {tail front mid mid' back : List Bool} (hl : octets l ++ tail = front ++ mid ++ back)
    (hr : octets r ++ tail = front ++ mid' ++ back) (hlen : l.length = r.length) (hmid : mid.length = mid'.length)
    {m n : Nat} (hm : 8 * m ≤ front.length) (hfits : m ≤ l.length)
    (hn : front.length + mid.length ≤ 8 * n) : l.take m = r.take m ∧ l.drop n = r.drop n := by
  have hbits : ∀ x : Bytes, x.length = l.length → 8 * m ≤ (octets x).length := by
    intro x hx
    rw [length_octets, hx]
    omega
  refine ⟨?_, ?_⟩
  · apply octets_inj
    have hl' := congrArg (List.take (8 * m)) hl
    have hr' := congrArg (List.take (8 * m)) hr
    rw [List.append_assoc, List.take_append_of_le_length hm, List.take_append_of_le_length (hbits l rfl), octets_take] at hl'
    rw [List.append_assoc, List.take_append_of_le_length hm, List.take_append_of_le_length (hbits r hlen.symm), octets_take]
      at hr'
    rw [hl', hr']
  · have hdrop : ∀ (x : Bytes) (mid : List Bool), octets x ++ tail = front ++ mid ++ back → x.length = l.length →
        front.length + mid.length ≤ 8 * n → octets (x.drop n) ++ tail.drop (8 * n - (octets x).length) =
          back.drop (8 * n - (front.length + mid.length)) := by
      intro x mid hx _ hle
      have hcut := congrArg (List.drop (8 * n)) hx
      have hgone : (front ++ mid).drop (8 * n) = [] := List.drop_of_length_le (by rwa [List.length_append])
      rwa [List.drop_append, octets_drop, List.drop_append, hgone, List.nil_append, List.length_append] at hcut
    have hl' := hdrop l mid hl rfl hn
    have hr' := hdrop r mid' hr hlen.symm (by omega)
    have hsame : (octets l).length = (octets r).length := by rw [length_octets, length_octets, hlen]
    rw [hsame, hmid, ← hr'] at hl'
    exact octets_inj (List.append_cancel_right hl')

/-- Keys whose payloads agree outside a window of three octets are the same, when the window ends inside the key,
starts behind it, or reaches over its last octet. -/
theorem payload_window {key key' : RecoveryKey} {lo hi : Nat} (hlo : (compactPayload key).take lo = (compactPayload key').take lo)
    (hhi : (compactPayload key).drop hi = (compactPayload key').drop hi) (hwidth : hi ≤ lo + 3)
    (hend : hi ≤ 32 ∨ 32 ≤ lo ∨ lo = 31 ∧ hi ≤ 34) : key = key' := by
  have hkey : ∀ k : RecoveryKey, (compactPayload k).take 32 = k.val := fun k => List.take_left' k.property
  have hsum : ∀ k : RecoveryKey, (compactPayload k).drop 32 = toBeBytes (crc32 k.val) := fun k => List.drop_left' k.property
  apply Subtype.ext
  rcases hend with hend | hend | ⟨rfl, hend⟩
  -- The checksums are the same, and the window is a burst in the key.
  · have hcrc : toBeBytes (crc32 key.val) = toBeBytes (crc32 key'.val) := by
      have hcut := congrArg (List.drop (32 - hi)) hhi
      rwa [List.drop_drop, List.drop_drop, Nat.add_sub_cancel' hend, hsum, hsum] at hcut
    have hfold := toBeBytes_inj hcrc
    rw [crc32_eq, crc32_eq, BitVec.not_inj] at hfold
    have hfront : key.val.take (min lo hi) = key'.val.take (min lo hi) := by
      have hcut := congrArg (List.take (min lo hi)) hlo
      rwa [List.take_take, List.take_take, Nat.min_eq_left (Nat.min_le_left lo hi), compactPayload, compactPayload,
        List.take_append_of_le_length (by rw [key.property]; omega),
        List.take_append_of_le_length (by rw [key'.property]; omega)] at hcut
    have hback : key.val.drop hi = key'.val.drop hi := by
      rw [compactPayload, compactPayload, List.drop_append_of_le_length (by rw [key.property]; exact hend),
        List.drop_append_of_le_length (by rw [key'.property]; exact hend), hcrc] at hhi
      exact List.append_cancel_right hhi
    have hparts : ∀ k : RecoveryKey, k.val = k.val.take (min lo hi) ++
        ((k.val.drop (min lo hi)).take (hi - min lo hi) ++ k.val.drop hi) := by
      intro k
      have hrest : k.val.drop hi = (k.val.drop (min lo hi)).drop (hi - min lo hi) := by
        rw [List.drop_drop, Nat.add_sub_cancel' (Nat.min_le_right lo hi)]
      rw [hrest, List.take_append_drop, List.take_append_drop]
    have hlen : ∀ k : RecoveryKey, ((k.val.drop (min lo hi)).take (hi - min lo hi)).length = hi - min lo hi := by
      intro k
      rw [List.length_take, List.length_drop, k.property]
      omega
    rw [hparts key, hparts key', ← hfront, ← hback] at hfold
    have hmid : (key.val.drop (min lo hi)).take (hi - min lo hi) = (key'.val.drop (min lo hi)).take (hi - min lo hi) := by
      apply Crc.burst (c := (key.val.take (min lo hi)).foldl (Crc.step POLYNOMIAL) 0xFFFFFFFF) (t := key.val.drop hi)
        polynomial_top
      · rw [hlen key]
        omega
      · rw [hlen key, hlen key']
      · rw [← List.foldl_append, ← List.foldl_append]
        exact hfold
    rw [hparts key, hparts key', hmid, hfront, hback]
  -- The window is behind the key.
  · have hcut := congrArg (List.take 32) hlo
    rwa [List.take_take, List.take_take, Nat.min_eq_left hend, hkey, hkey] at hcut
  -- The key differs in its last octet at most, and the last octet of the checksum is the same.
  · have hcut := congrArg (List.take 31) hlo
    rw [compactPayload, compactPayload, List.take_take, List.take_take, Nat.min_self,
      List.take_append_of_le_length (by rw [key.property]; decide),
      List.take_append_of_le_length (by rw [key'.property]; decide)] at hcut
    have hlast : ∀ k : RecoveryKey, ∃ x, k.val = k.val.take 31 ++ [x] := by
      intro k
      obtain ⟨x, hx⟩ := List.length_eq_one_iff.mp (by rw [List.length_drop, k.property] : (k.val.drop 31).length = 1)
      exact ⟨x, by rw [← hx, List.take_append_drop]⟩
    obtain ⟨x, hx⟩ := hlast key
    obtain ⟨y, hy⟩ := hlast key'
    have hlow := congrArg (List.drop (35 - hi)) hhi
    rw [List.drop_drop, List.drop_drop, Nat.add_sub_cancel' (by omega)] at hlow
    have hbyte : ∀ k : RecoveryKey, (compactPayload k).drop 35 = [Fin.ofNat 256 (crc32 k.val).toNat] := by
      intro k
      have hsplit : (compactPayload k).drop 35 = ((compactPayload k).drop 32).drop 3 := by rw [List.drop_drop]
      rw [hsplit, hsum]
      rfl
    rw [hbyte, hbyte, List.cons.injEq, Fin.ext_iff, Fin.val_ofNat, Fin.val_ofNat] at hlow
    rw [← hcut] at hy
    have hxy : x = y := by
      refine @last_octet (key.val.take 31) x y ?_
      rw [← hx, ← hy]
      apply BitVec.eq_of_toNat_eq
      rw [BitVec.toNat_setWidth, BitVec.toNat_setWidth]
      exact hlow.1
    rw [hx, hy, hxy]

theorem codes_eq_filterMap {text : Text} {key : RecoveryKey} (h : fromCompact text = .ok key) :
    codes key = (significant text).filterMap valueOf := by
  have hvalues := congrArg (List.filterMap id) (fromCompact_eq_ok.mp h)
  rwa [List.filterMap_map, List.filterMap_map, Function.id_comp, Function.id_comp, List.filterMap_some, eq_comm] at hvalues

theorem length_significant {text : Text} {key : RecoveryKey} (h : fromCompact text = .ok key) :
    (significant text).length = COMPACT_CHAR_COUNT := by
  have hlen := congrArg List.length (fromCompact_eq_ok.mp h)
  rwa [List.length_map, List.length_map, length_codes] at hlen

theorem codes_window {key key' : RecoveryKey} {front mid mid' back : List Nat} (h : codes key = front ++ mid ++ back)
    (h' : codes key' = front ++ mid' ++ back) (hmid : mid.length ≤ 2) : key = key' := by
  have hcount := congrArg List.length h
  have hcount' := congrArg List.length h'
  have hchars : COMPACT_CHAR_COUNT = 58 := rfl
  have hpayload : PAYLOAD_LEN = 36 := rfl
  simp only [List.length_append, length_codes, hchars] at hcount hcount'
  have hstream := stream_codes key
  have hstream' := stream_codes key'
  rw [h, stream_append, stream_append, eq_comm] at hstream
  rw [h', stream_append, stream_append, eq_comm] at hstream'
  have hfront : (stream 5 front).length = front.length * 5 := length_stream
  have hwidth : (stream 5 mid).length = mid.length * 5 := length_stream
  have hwidth' : (stream 5 mid').length = mid'.length * 5 := length_stream
  obtain ⟨hlo, hhi⟩ := octets_outside hstream hstream' (by rw [length_compactPayload, length_compactPayload])
    (by omega) (m := 5 * front.length / 8) (n := (5 * (front.length + mid.length) + 7) / 8) (by omega)
    (by rw [length_compactPayload, hpayload]; omega) (by omega)
  exact payload_window hlo hhi (by omega) (by omega)

/-- Texts that are read as keys and are the same but for two neighbouring characters have the same values there. -/
theorem window_values {text text' : Text} {key key' : RecoveryKey} {front mid mid' back : List Char}
    (h : fromCompact text = .ok key) (h' : fromCompact text' = .ok key') (hsig : significant text = front ++ mid ++ back)
    (hsig' : significant text' = front ++ mid' ++ back) (hmid : mid.length ≤ 2) : mid.map valueOf = mid'.map valueOf := by
  have hcodes := codes_eq_filterMap h
  have hcodes' := codes_eq_filterMap h'
  rw [hsig, List.filterMap_append, List.filterMap_append] at hcodes
  rw [hsig', List.filterMap_append, List.filterMap_append] at hcodes'
  obtain rfl := codes_window hcodes hcodes' (le_trans (List.length_filterMap_le _ _) hmid)
  have hvalues := (fromCompact_eq_ok.mp h).trans (fromCompact_eq_ok.mp h').symm
  rw [hsig, hsig'] at hvalues
  simp only [List.map_append] at hvalues
  exact List.append_cancel_left (List.append_cancel_right hvalues)

theorem significant_cons_of {c : Char} {r : Text} (h : isSignificant c = true) : significant (c :: r) = c :: significant r :=
  List.filter_cons_of_pos h

theorem changed_rejected {l r : Text} {c c' : Char} {key : RecoveryKey} (h : fromCompact (l ++ c :: r) = .ok key)
    (hc : isSignificant c = true) (hvalue : valueOf c' ≠ valueOf c) : ∃ e, fromCompact (l ++ c' :: r) = .error e := by
  apply error_of_not_ok
  intro key' h'
  have hsig : significant (l ++ c :: r) = significant l ++ [c] ++ significant r := by
    rw [significant_append, significant_cons_of hc, List.append_assoc, List.singleton_append]
  have hsig' : significant (l ++ c' :: r) = significant l ++ significant [c'] ++ significant r := by
    rw [← significant_append, ← significant_append, List.append_assoc, List.singleton_append]
  have hsame := window_values h h' hsig hsig' (Nat.le_succ 1)
  have hlen := congrArg List.length hsame
  cases hsmall : isSignificant c' with
  | false => simp [significant, hsmall] at hlen
  | true =>
    rw [significant_cons_of hsmall, List.map_cons, List.map_cons, List.cons.injEq] at hsame
    exact hvalue hsame.1.symm

/-- Two neighbours of different values, exchanged; what stands between them is not read. -/
theorem swapped_rejected {l m r : Text} {c d : Char} {key : RecoveryKey} (h : fromCompact (l ++ c :: m ++ d :: r) = .ok key)
    (hc : isSignificant c = true) (hd : isSignificant d = true) (hm : significant m = []) (hvalue : valueOf c ≠ valueOf d) :
    ∃ e, fromCompact (l ++ d :: m ++ c :: r) = .error e := by
  apply error_of_not_ok
  intro key' h'
  have hsig : ∀ {a b : Char}, isSignificant a = true → isSignificant b = true →
      significant (l ++ a :: m ++ b :: r) = significant l ++ [a, b] ++ significant r := by
    intro a b ha hb
    simp only [significant_append, significant_cons_of ha, significant_cons_of hb, hm, List.append_assoc, List.cons_append,
      List.nil_append]
  have hsame := window_values h h' (hsig hc hd) (hsig hd hc) le_rfl
  exact hvalue (List.cons.inj hsame).1

end Misty
