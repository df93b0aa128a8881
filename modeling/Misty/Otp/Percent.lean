import Misty.Error
import Misty.Lib.Text

/- Percent coding as a URI of `misty-otp` uses it: every byte but the unreserved ones and
   `@` is escaped, and text that would not be shown as what it is is not read.

   What is proved:
     1. `decode_eq_ok` — what is read is the UTF-8 of the octets, without control or
        spoofing characters.
     2. `decode_encode` — such a text, written, reads back.

   Correspondence (Rust ↔ Lean):
     `SPOOFING_CHARS`                          ↔ `SPOOFING_CHARS`, by their codes
     `percent::decode`, its loop               ↔ `Percent.decode`, `Percent.decodeLoop`
     `percent::{encode, encode_bytes}`         ↔ `Percent.encode`, `Percent.encodeBytes`
     `hex_nibble`, `hex_upper`                 ↔ `hexNibble`, `hexUpper` -/
namespace Misty.Percent

def SPOOFING_CHARS : List Nat :=
  [0x200b, 0x200c, 0x200d, 0x200e, 0x200f, 0x2028, 0x2029, 0x202a, 0x202b, 0x202c, 0x202d, 0x202e,
    0x2066, 0x2067, 0x2068, 0x2069, 0xfeff]

def hexNibble (byte : Byte) : Option Nat :=
  if 48 ≤ byte.val ∧ byte.val ≤ 57 then some (byte.val - 48)
  else if 97 ≤ byte.val ∧ byte.val ≤ 102 then some (byte.val - 97 + 10)
  else if 65 ≤ byte.val ∧ byte.val ≤ 70 then some (byte.val - 65 + 10)
  else none

def hexUpper (nibble : Nat) : Char :=
  if nibble % 16 ≤ 9 then Char.ofNat (48 + nibble % 16) else Char.ofNat (65 + nibble % 16 - 10)

/-- The loop of `decode`. -/
def decodeLoop : Bytes → Nat → Except UriError Bytes
  | [], _ => .ok []
  | byte :: rest, index =>
    if byte.val = 37 then
      match rest with
      | high :: low :: rest =>
        match hexNibble high, hexNibble low with
        | some high, some low => (decodeLoop rest (index + 3)).map (fun bytes => Fin.ofNat 256 (high <<< 4 ||| low) :: bytes)
        | _, _ => .error (.badPercentEscape index)
      | _ => .error (.badPercentEscape index)
    else (decodeLoop rest (index + 1)).map (fun bytes => byte :: bytes)

/-- A character that is not read: it would not be shown as what it is. -/
def isSpoofing (ch : Char) : Bool := isControl ch || ch.toNat ∈ SPOOFING_CHARS

def decode (input : Text) : Except UriError Text := do
  let decoded ← decodeLoop (Text.utf8 input) 0
  match fromUtf8 decoded with
  | none => throw .notUtf8
  | some text =>
    match text.find? isSpoofing with
    | some ch => throw (.controlChar ch.toNat)
    | none => return text

/-- A byte that is written as it is. -/
def isUnreserved (byte : Byte) : Bool := (Char.ofNat byte.val).isAlphanum || byte.val ∈ [45, 46, 95, 126, 64]

/-- The text of one byte. -/
def encodeByte (byte : Byte) : Text :=
  if isUnreserved byte then [Char.ofNat byte.val] else ['%', hexUpper (byte.val >>> 4), hexUpper (byte.val &&& 0x0f)]

def encodeBytes (value : Bytes) : Text := value.flatMap encodeByte

def encode (value : Text) : Text := encodeBytes (Text.utf8 value)

/-- A text that is read as it stands. -/
def Clean (text : Text) : Prop := ∀ ch ∈ text, isSpoofing ch = false

/-! ## Reading -/

theorem decode_eq_ok {input text : Text} : decode input = .ok text ↔ decodeLoop (Text.utf8 input) 0 = .ok text.utf8 ∧ Clean text := by
  have hfind : ∀ t : Text, t.find? isSpoofing = none ↔ Clean t := by
    intro t
    rw [List.find?_eq_none]
    exact forall₂_congr (fun ch _ => Bool.eq_false_iff.symm)
  unfold decode
  rw [bind_eq_ok]
  constructor
  · intro h
    obtain ⟨bytes, hloop, h⟩ := h
    split at h
    · cases h
    · next t ht =>
      split at h
      · cases h
      · next hnone =>
        cases h
        exact ⟨by rw [hloop, fromUtf8_eq_some.mp ht], (hfind text).mp hnone⟩
  · intro h
    refine ⟨_, h.1, ?_⟩
    rw [fromUtf8_eq_some.mpr rfl]
    dsimp only
    rw [(hfind text).mpr h.2]
    rfl

theorem decodeLoop_plain {byte : Byte} (h : byte.val ≠ 37) (rest : Bytes) (index : Nat) :
    decodeLoop (byte :: rest) index = (decodeLoop rest (index + 1)).map (fun bytes => byte :: bytes) := by
  rw [decodeLoop.eq_def]
  exact if_neg h

theorem decodeLoop_ne_nil {byte : Byte} {rest bytes : Bytes} {index : Nat} (h : decodeLoop (byte :: rest) index = .ok bytes) :
    bytes ≠ [] := by
  have hcons : ∀ {x : Except UriError Bytes} {b : Byte}, x.map (fun bytes => b :: bytes) = .ok bytes → bytes ≠ [] := by
    intro x b hx
    cases x with
    | error e => cases hx
    | ok tail =>
      cases hx
      exact List.cons_ne_nil b tail
  unfold decodeLoop at h
  split at h
  · split at h
    · split at h
      · exact hcons h
      · cases h
    · cases h
  · exact hcons h

theorem decode_ne_nil {input text : Text} (h : decode input = .ok text) (hne : input ≠ []) : text ≠ [] := by
  have hloop := (decode_eq_ok.mp h).1
  cases hbytes : Text.utf8 input with
  | nil =>
    have hlen := Text.length_utf8 input
    rw [hbytes] at hlen
    cases input with
    | nil => exact absurd rfl hne
    | cons ch rest =>
      have hpos := ch.utf8Size_pos
      rw [Text.utf8Len, List.map_cons, List.sum_cons, List.length_nil] at hlen
      omega
  | cons byte rest =>
    rw [hbytes] at hloop
    intro hnil
    rw [hnil] at hloop
    exact decodeLoop_ne_nil hloop rfl

/-! ## Writing -/

theorem toNat_byte : ∀ byte : Byte, (Char.ofNat byte.val).toNat = byte.val := by decide +kernel

theorem hexNibble_hexUpper : ∀ n < 16, (hexUpper n).toNat < 128 ∧ hexNibble (Fin.ofNat 256 (hexUpper n).toNat) = some n := by
  decide

theorem unreserved_plain : ∀ byte : Byte, isUnreserved byte = true → byte.val < 128 ∧ byte.val ≠ 37 := by decide +kernel

theorem decodeLoop_encodeByte (byte : Byte) (rest : Bytes) (index : Nat) : ∃ index',
    decodeLoop (Text.utf8 (encodeByte byte) ++ rest) index = (decodeLoop rest index').map (fun bytes => byte :: bytes) := by
  have hb := byte.isLt
  unfold encodeByte
  split
  · next hplain =>
    obtain ⟨hascii, hne⟩ := unreserved_plain byte hplain
    have hone : Fin.ofNat 256 (Char.ofNat byte.val).toNat = byte := by
      rw [toNat_byte]
      exact Fin.ext (Nat.mod_eq_of_lt hb)
    refine ⟨index + 1, ?_⟩
    rw [Text.utf8_ascii (by rw [toNat_byte]; exact hascii), hone, List.singleton_append, decodeLoop_plain hne]
  · have hhigh := hexNibble_hexUpper (byte.val >>> 4) (by rw [Nat.shiftRight_eq_div_pow]; omega)
    have hlow := hexNibble_hexUpper (byte.val &&& 0x0f) (lt_of_le_of_lt Nat.and_le_right (by decide))
    have hbytes : Text.utf8 ['%', hexUpper (byte.val >>> 4), hexUpper (byte.val &&& 0x0f)] =
        [37, Fin.ofNat 256 (hexUpper (byte.val >>> 4)).toNat, Fin.ofNat 256 (hexUpper (byte.val &&& 0x0f)).toNat] := by
      have hcons : ∀ (c : Char) (t : Text), Text.utf8 (c :: t) = Text.utf8 [c] ++ Text.utf8 t :=
        fun c t => Text.utf8_append (t := [c]) (u := t)
      rw [hcons, hcons (hexUpper _), Text.utf8_ascii (by decide), Text.utf8_ascii hhigh.1, Text.utf8_ascii hlow.1]
      rfl
    have hvalue : ∀ b : Byte, Fin.ofNat 256 ((b.val >>> 4) <<< 4 ||| (b.val &&& 0x0f)) = b := by decide +kernel
    refine ⟨index + 3, ?_⟩
    rw [hbytes]
    show decodeLoop (37 :: _ :: _ :: rest) index = _
    rw [decodeLoop, if_pos (by rfl)]
    simp only [hhigh.2, hlow.2, hvalue]

theorem decodeLoop_encodeBytes : ∀ (bytes : Bytes) (index : Nat), decodeLoop (Text.utf8 (encodeBytes bytes)) index = .ok bytes
  | [], _ => rfl
  | byte :: rest, index => by
    obtain ⟨index', hstep⟩ := decodeLoop_encodeByte byte (Text.utf8 (encodeBytes rest)) index
    have hsplit : Text.utf8 (encodeBytes (byte :: rest)) = Text.utf8 (encodeByte byte) ++ Text.utf8 (encodeBytes rest) := by
      rw [encodeBytes, List.flatMap_cons, Text.utf8_append, encodeBytes]
    rw [hsplit, hstep, decodeLoop_encodeBytes rest index']
    rfl

/-- The octets of a clean text, written, are read as the text. -/
theorem decode_encodeBytes {text : Text} (h : Clean text) : decode (encodeBytes text.utf8) = .ok text :=
  decode_eq_ok.mpr ⟨decodeLoop_encodeBytes _ 0, h⟩

theorem decode_encode {text : Text} (h : Clean text) : decode (encode text) = .ok text := decode_encodeBytes h

/-- The characters that are written: letters, digits and those that separate nothing. -/
def isPlain (ch : Char) : Bool := ch.isAlphanum || ch ∈ ['-', '.', '_', '~', '@', '%']

theorem isPlain_of_mem_encodeBytes {bytes : Bytes} {ch : Char} (h : ch ∈ encodeBytes bytes) : isPlain ch = true := by
  have hhex : ∀ n < 16, isPlain (hexUpper n) = true := by decide
  have hunreserved : ∀ byte : Byte, isUnreserved byte = true → isPlain (Char.ofNat byte.val) = true := by decide +kernel
  obtain ⟨byte, -, hmem⟩ := List.mem_flatMap.mp h
  unfold encodeByte at hmem
  split at hmem
  · next hplain =>
    rw [List.mem_singleton.mp hmem]
    exact hunreserved byte hplain
  · have hb := byte.isLt
    simp only [List.mem_cons, List.not_mem_nil, or_false] at hmem
    rcases hmem with rfl | rfl | rfl
    · rfl
    · exact hhex _ (by rw [Nat.shiftRight_eq_div_pow]; omega)
    · exact hhex _ (lt_of_le_of_lt Nat.and_le_right (by decide))

theorem encodeBytes_ne_nil {bytes : Bytes} (h : bytes ≠ []) : encodeBytes bytes ≠ [] := by
  cases bytes with
  | nil => exact absurd rfl h
  | cons byte rest =>
    rw [encodeBytes, List.flatMap_cons, encodeByte]
    split <;> exact List.cons_ne_nil _ _

theorem decode_alphanum {text : Text} (h : ∀ ch ∈ text, ch.isAlphanum = true) : decode text = .ok text := by
  have hcode : ∀ ch : Char, ch.isAlphanum = true → 48 ≤ ch.toNat ∧ ch.toNat < 123 := by
    intro ch hch
    simp only [Char.isAlphanum, Char.isAlpha, Char.isUpper, Char.isLower, Char.isDigit, Bool.or_eq_true, Bool.and_eq_true,
      decide_eq_true_eq, ge_iff_le, UInt32.le_iff_toNat_le] at hch
    show 48 ≤ ch.val.toNat ∧ ch.val.toNat < 123
    rcases hch with (⟨hlo, hhi⟩ | ⟨hlo, hhi⟩) | ⟨hlo, hhi⟩
    · exact ⟨le_trans (by decide) hlo, lt_of_le_of_lt hhi (by decide)⟩
    · exact ⟨le_trans (by decide) hlo, lt_of_le_of_lt hhi (by decide)⟩
    · exact ⟨le_trans (by decide) hlo, lt_of_le_of_lt hhi (by decide)⟩
  have hloop : ∀ (t : Text) (index : Nat), (∀ ch ∈ t, ch.isAlphanum = true) → decodeLoop (Text.utf8 t) index = .ok t.utf8 := by
    intro t
    induction t with
    | nil => exact fun _ _ => rfl
    | cons ch t ih =>
      intro index ht
      obtain ⟨hlo, hhi⟩ := hcode ch (ht ch List.mem_cons_self)
      have hsplit : Text.utf8 (ch :: t) = Fin.ofNat 256 ch.toNat :: Text.utf8 t := by
        rw [← List.singleton_append, Text.utf8_append, Text.utf8_ascii (by omega)]
        rfl
      have hne : (Fin.ofNat 256 ch.toNat).val ≠ 37 := by
        rw [Fin.val_ofNat]
        omega
      rw [hsplit, decodeLoop_plain hne, ih (index + 1) (fun c hc => ht c (List.mem_cons_of_mem ch hc))]
      rfl
  refine decode_eq_ok.mpr ⟨hloop text 0 h, fun ch hch => ?_⟩
  obtain ⟨hlo, hhi⟩ := hcode ch (h ch hch)
  have hspoof : ∀ n, n < 123 → 48 ≤ n → isControl (Char.ofNat n) = false ∧ n ∉ SPOOFING_CHARS := by decide
  have hfacts := hspoof ch.toNat hhi hlo
  rw [Char.ofNat_toNat] at hfacts
  unfold isSpoofing
  rw [hfacts.1, Bool.false_or, decide_eq_false hfacts.2]

end Misty.Percent
