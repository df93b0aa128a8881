import Misty.Lib.Hex
import Misty.Lib.Text
import Misty.Server.Routes

/- The spellings both sides of the wire must agree on: fields in lowercase hex, and the
   version a client hands back in `If-Match`. The two sides share no code.

   What is proved:
     1. `fixedFromWire_eq_some`, `decodeHexFixed_eq_ok`, `challengeNonceFromWire_eq_some`,
        `decodeHex_eq_ok` — each decoder accepts what `hexEncode` writes, and nothing else.
     2. `preconditionOf_ifMatch` — a version issued comes back as itself.
     3. `wire_spellings_agree` — the agreement, on every string and every version.

   Correspondence (Rust ↔ Lean):
     `encoding::{fixed_from_wire, challenge_nonce_from_wire}` ↔ `fixedFromWire`, `challengeNonceFromWire`
     `routes::{decode_hex_fixed, decode_hex, is_lower_hex}` ↔ `decodeHexFixed`, `decodeHex`, `isLowerHex`
     `ServerVersion::from_bytes`               ↔ `ServerVersion.fromBytes`
     `routes::precondition`, from the headers  ↔ `preconditionOf`
   The name of a field is in the text of its error only. -/
namespace Misty

/-! ## The client -/

/-- `hex::decode_to_slice`: the bytes fill the slice. -/
def hexDecodeFixed (n : Nat) (text : Text) : Option (ByteArr n) :=
  match hexDecode text with
  | some bytes => if h : bytes.length = n then some ⟨bytes, h⟩ else none
  | none => none

def fixedFromWire (n : Nat) (text : Text) : Option (ByteArr n) :=
  if text.utf8Len ≠ n * 2 then none
  else if text.any Char.isUpper then none
  else hexDecodeFixed n text

def challengeNonceFromWire (text : Text) : Option Bytes :=
  if text = [] ∨ text.utf8Len % 2 ≠ 0 then none
  else if text.any Char.isUpper then none
  else hexDecode text

def ServerVersion.fromBytes (bytes : Bytes) : Except SyncError ServerVersion :=
  match fromUtf8 bytes with
  | some text => parse text
  | none => .error .unusableVersionToken

/-! ## The server -/

def isLowerHex (text : Text) : Bool := text.all (fun c => c.isDigit || ('a' ≤ c && c ≤ 'f'))

def decodeHexFixed (n : Nat) (text : Text) : Except ApiError (ByteArr n) :=
  if text.utf8Len ≠ n * 2 ∨ isLowerHex text = false then .error .badRequest
  else match hexDecodeFixed n text with
    | some bytes => .ok bytes
    | none => .error .badRequest

def decodeHex (text : Text) (max : Nat) : Except ApiError Bytes :=
  if text = [] ∨ max * 2 < text.utf8Len ∨ text.utf8Len % 2 ≠ 0 ∨ isLowerHex text = false then .error .badRequest
  else match hexDecode text with
    | some bytes => .ok bytes
    | none => .error .badRequest

/-- `HeaderValue::to_str`, and `trim`. -/
def headerText (value : Text) : Option Text :=
  if value.all (fun c => (32 ≤ c.toNat && c.toNat < 127) || c = '\t') then some (trim value) else none

/-- `precondition`, from the headers themselves. -/
def preconditionOf (ifMatch ifNoneMatch : Option Text) : Except ApiError Nat :=
  if ifMatch.isSome ∧ ifNoneMatch.isSome then .error .badRequest
  else match ifNoneMatch, ifMatch with
    | some value, _ =>
      match headerText value with
      | some text => precondition none (some text)
      | none => .error .badRequest
    | none, some value =>
      match headerText value with
      | some text => precondition (some text) none
      | none => .error .badRequest
    | none, none => precondition none none

/-! ## Hex fields -/

theorem isLowerHex_iff {text : Text} : isLowerHex text = true ↔ ∀ c ∈ text, c ∈ HEX_DIGITS := by
  have hall : ∀ n < 128, (Char.ofNat n).isDigit = true ∨ ('a' ≤ Char.ofNat n ∧ Char.ofNat n ≤ 'f') → Char.ofNat n ∈ HEX_DIGITS := by
    decide
  have hback : HEX_DIGITS.all (fun c => c.isDigit || ('a' ≤ c && c ≤ 'f')) = true := by decide
  unfold isLowerHex
  rw [List.all_eq_true]
  constructor
  · intro h c hc
    have hdigit := h c hc
    simp only [Bool.or_eq_true, Bool.and_eq_true, decide_eq_true_eq] at hdigit
    have hascii : c.toNat < 128 := by
      rcases hdigit with hd | hl
      · exact lt_of_le_of_lt (toNat_of_isDigit hd).2 (by decide)
      · have hle : c.toNat ≤ 102 := hl.2
        omega
    have hmem := hall c.toNat hascii
    rw [Char.ofNat_toNat] at hmem
    exact hmem hdigit
  · intro h c hc
    exact List.all_eq_true.mp hback c (h c hc)

theorem utf8Len_of_hex {text : Text} (h : ∀ c ∈ text, c ∈ HEX_DIGITS) : text.utf8Len = text.length := by
  have hall : HEX_DIGITS.all (fun c => c.toNat < 128) = true := by decide
  exact Text.utf8Len_ascii (fun c hc => of_decide_eq_true (List.all_eq_true.mp hall c (h c hc)))

theorem utf8Len_hexEncode (bytes : Bytes) : (hexEncode bytes).utf8Len = 2 * bytes.length := by
  rw [utf8Len_of_hex (fun c hc => mem_hexEncode hc), length_hexEncode]

theorem not_isUpper_of_any {text : Text} (h : ¬ text.any Char.isUpper = true) : ∀ c ∈ text, c.isUpper = false := by
  intro c hc
  exact Bool.eq_false_iff.mpr (fun hup => h (List.any_eq_true.mpr ⟨c, hc, hup⟩))

theorem not_any_isUpper (bytes : Bytes) : ¬ (hexEncode bytes).any Char.isUpper = true := by
  intro h
  obtain ⟨c, hc, hup⟩ := List.any_eq_true.mp h
  rw [isUpper_of_hex (mem_hexEncode hc)] at hup
  cases hup

theorem hexDecodeFixed_eq_some {n : Nat} {text : Text} {bytes : ByteArr n} (hlower : ∀ c ∈ text, c.isUpper = false) :
    hexDecodeFixed n text = some bytes ↔ text = hexEncode bytes.val := by
  rw [← hexDecode_eq_some hlower]
  unfold hexDecodeFixed
  constructor
  · intro h
    split at h
    · next found heq =>
      split at h
      · rw [heq, ← Option.some.inj h]
      · cases h
    · cases h
  · intro h
    rw [h]
    exact dif_pos bytes.property

theorem hexValue_of_hex : ∀ c ∈ HEX_DIGITS, ∃ v, hexValue c = some v := by
  have hall : HEX_DIGITS.all (fun c => (hexValue c).isSome) = true := by decide
  intro c hc
  exact Option.isSome_iff_exists.mp (List.all_eq_true.mp hall c hc)

theorem exists_hexEncode : ∀ (text : Text) (n : Nat), text.length = 2 * n → (∀ c ∈ text, c ∈ HEX_DIGITS) →
    ∃ bytes : ByteArr n, text = hexEncode bytes.val
  | [], 0, _, _ => ⟨⟨[], rfl⟩, rfl⟩
  | a :: b :: rest, n + 1, hlen, hhex => by
    rw [List.length_cons, List.length_cons] at hlen
    obtain ⟨tail, htail⟩ := exists_hexEncode rest n (by omega)
      (fun c hc => hhex c (List.mem_cons_of_mem a (List.mem_cons_of_mem b hc)))
    obtain ⟨high, hhigh⟩ := hexValue_of_hex a (hhex a List.mem_cons_self)
    obtain ⟨low, hlow⟩ := hexValue_of_hex b (hhex b (List.mem_cons_of_mem a List.mem_cons_self))
    have hread : hexDecode (a :: b :: rest) = some (Fin.ofNat 256 (16 * high + low) :: tail.val) := by
      rw [hexDecode, hhigh, hlow, htail, hexDecode_hexEncode]
      rfl
    have hlower : ∀ c ∈ a :: b :: rest, c.isUpper = false := fun c hc => isUpper_of_hex (hhex c hc)
    exact ⟨⟨_, by rw [List.length_cons, tail.property]⟩, (hexDecode_eq_some hlower).mp hread⟩
  | [_], n, hlen, _ => absurd hlen (by rw [List.length_singleton]; omega)
  | [], n + 1, hlen, _ => absurd hlen (by rw [List.length_nil]; omega)
  | _ :: _ :: _, 0, hlen, _ => absurd hlen (by rw [List.length_cons]; omega)

theorem fixedFromWire_eq_some {n : Nat} {text : Text} {bytes : ByteArr n} :
    fixedFromWire n text = some bytes ↔ text = hexEncode bytes.val := by
  unfold fixedFromWire
  constructor
  · intro h
    split at h
    · cases h
    split at h
    · cases h
    next hupper =>
    exact (hexDecodeFixed_eq_some (not_isUpper_of_any hupper)).mp h
  · rintro rfl
    have hlen : (hexEncode bytes.val).utf8Len = n * 2 := by rw [utf8Len_hexEncode, bytes.property, Nat.mul_comm]
    rw [if_neg (not_not.mpr hlen), if_neg (not_any_isUpper _)]
    exact (hexDecodeFixed_eq_some (not_isUpper_of_any (not_any_isUpper _))).mpr rfl

theorem isLowerHex_hexEncode (bytes : Bytes) : isLowerHex (hexEncode bytes) = true :=
  isLowerHex_iff.mpr (fun _ hc => mem_hexEncode hc)

theorem not_isUpper_of_lowerHex {text : Text} (h : isLowerHex text = true) : ∀ c ∈ text, c.isUpper = false :=
  fun c hc => isUpper_of_hex (isLowerHex_iff.mp h c hc)

theorem decodeHexFixed_eq_ok {n : Nat} {text : Text} {bytes : ByteArr n} :
    decodeHexFixed n text = .ok bytes ↔ text = hexEncode bytes.val := by
  unfold decodeHexFixed
  constructor
  · intro h
    split at h
    · cases h
    next hgood =>
    have hlower : isLowerHex text = true := Bool.of_not_eq_false (fun hf => hgood (.inr hf))
    split at h
    · next found heq =>
      obtain rfl := Except.ok.inj h
      exact (hexDecodeFixed_eq_some (not_isUpper_of_lowerHex hlower)).mp heq
    · cases h
  · rintro rfl
    have hlen : (hexEncode bytes.val).utf8Len = n * 2 := by rw [utf8Len_hexEncode, bytes.property, Nat.mul_comm]
    have hlower := isLowerHex_hexEncode bytes.val
    rw [if_neg (by rw [hlen, hlower]; simp), (hexDecodeFixed_eq_some (not_isUpper_of_lowerHex hlower)).mpr rfl]

theorem challengeNonceFromWire_eq_some {text : Text} {bytes : Bytes} :
    challengeNonceFromWire text = some bytes ↔ bytes ≠ [] ∧ text = hexEncode bytes := by
  unfold challengeNonceFromWire
  constructor
  · intro h
    split at h
    · cases h
    next hgood =>
    split at h
    · cases h
    next hupper =>
    have htext := (hexDecode_eq_some (not_isUpper_of_any hupper)).mp h
    refine ⟨?_, htext⟩
    rintro rfl
    exact hgood (.inl htext)
  · rintro ⟨hne, rfl⟩
    have hlen := utf8Len_hexEncode bytes
    have hnil : hexEncode bytes ≠ [] := by
      intro heq
      have hzero := length_hexEncode bytes
      rw [heq, List.length_nil] at hzero
      exact hne (List.length_eq_zero_iff.mp (by omega))
    rw [if_neg (by rw [hlen]; exact not_or.mpr ⟨hnil, by omega⟩), if_neg (not_any_isUpper _), hexDecode_hexEncode]

theorem decodeHex_eq_ok {text : Text} {max : Nat} {bytes : Bytes} :
    decodeHex text max = .ok bytes ↔ bytes ≠ [] ∧ bytes.length ≤ max ∧ text = hexEncode bytes := by
  unfold decodeHex
  constructor
  · intro h
    split at h
    · cases h
    next hgood =>
    obtain ⟨hnil, hmax, -, hlower⟩ : text ≠ [] ∧ ¬ max * 2 < text.utf8Len ∧ ¬ text.utf8Len % 2 ≠ 0 ∧ ¬ isLowerHex text = false := by
      simpa only [not_or] using hgood
    split at h
    · next found heq =>
      obtain rfl := Except.ok.inj h
      have htext := (hexDecode_eq_some (not_isUpper_of_lowerHex (Bool.of_not_eq_false hlower))).mp heq
      rw [htext, utf8Len_hexEncode] at hmax
      refine ⟨?_, by omega, htext⟩
      rintro rfl
      exact hnil htext
    · cases h
  · rintro ⟨hne, hmax, rfl⟩
    have hlen := utf8Len_hexEncode bytes
    have hnil : hexEncode bytes ≠ [] := by
      intro heq
      have hzero := length_hexEncode bytes
      rw [heq, List.length_nil] at hzero
      exact hne (List.length_eq_zero_iff.mp (by omega))
    rw [if_neg, hexDecode_hexEncode]
    rw [hlen, isLowerHex_hexEncode]
    exact not_or.mpr ⟨hnil, not_or.mpr ⟨by omega, not_or.mpr ⟨by omega, by decide⟩⟩⟩

/-! ## Versions -/

theorem stripQuotes_quoted (text : Text) : stripQuotes ('"' :: text ++ ['"']) = some text := by
  rw [List.cons_append, stripQuotes, List.getLast?_concat, if_pos rfl, List.dropLast_concat]

theorem parse_quoted {version : Nat} (h : version < 2 ^ 64) :
    ServerVersion.parse ('"' :: versionToken version ++ ['"']) = .ok (.of version) := by
  have hplain := parse_versionToken h
  have hstrip : stripQuotes (versionToken version) = none := by
    cases htoken : versionToken version with
    | nil => rfl
    | cons c rest =>
      have hmem : c ∈ versionToken version := htoken ▸ List.mem_cons_self
      have hquote := ne_quote_of_isDigit (isDigit_of_mem_versionToken hmem)
      unfold stripQuotes
      split
      · next heq => exact absurd (List.cons.inj heq).1 hquote
      · rfl
  unfold ServerVersion.parse at hplain ⊢
  rw [hstrip] at hplain
  rw [stripQuotes_quoted]
  exact hplain

theorem fromBytes_toBytes {version : Nat} (h : version < 2 ^ 64) :
    ServerVersion.fromBytes (ServerVersion.of version).toBytes = .ok (.of version) := by
  have htext : fromUtf8 (ServerVersion.of version).toBytes = some (versionToken version) := fromUtf8_eq_some.mpr rfl
  unfold ServerVersion.fromBytes
  rw [htext]
  exact parse_versionToken h

theorem headerText_toIfMatch (version : Nat) :
    headerText (ServerVersion.of version).toIfMatch = some (ServerVersion.of version).toIfMatch := by
  have hvisible : ((ServerVersion.of version).toIfMatch).all (fun c => (32 ≤ c.toNat && c.toNat < 127) || c = '\t') = true := by
    refine List.all_eq_true.mpr (fun c hc => ?_)
    have hrange : 32 ≤ c.toNat ∧ c.toNat < 127 := by
      rcases List.mem_append.mp hc with hc | hc
      · rcases List.mem_cons.mp hc with rfl | hc
        · decide
        · have hdigit := toNat_of_isDigit (isDigit_of_mem_versionToken hc)
          omega
      · rw [List.mem_singleton.mp hc]
        decide
    simp [hrange]
  have htrim : trim (ServerVersion.of version).toIfMatch = (ServerVersion.of version).toIfMatch := by
    have hquote : isWhitespace '"' = false := by decide
    unfold ServerVersion.toIfMatch trim
    rw [List.cons_append, List.dropWhile_cons_of_neg (by rw [hquote]; exact Bool.false_ne_true), ← List.cons_append,
      List.reverse_append, List.reverse_singleton, List.singleton_append,
      List.dropWhile_cons_of_neg (by rw [hquote]; exact Bool.false_ne_true), List.reverse_cons, List.reverse_reverse]
  unfold headerText
  rw [if_pos hvisible, htrim]

/-- A version issued comes back as itself. -/
theorem preconditionOf_ifMatch {version : Nat} (h : version < 2 ^ 64) :
    preconditionOf (some (ServerVersion.of version).toIfMatch) none = .ok version := by
  unfold preconditionOf
  rw [if_neg (by simp)]
  simp only [headerText_toIfMatch]
  exact putCondition_of h

theorem toIfMatch_injective {a b : Nat} (h : (ServerVersion.of a).toIfMatch = (ServerVersion.of b).toIfMatch) : a = b := by
  have htoken : some (ServerVersion.of a).token = some (ServerVersion.of b).token := by
    rw [← stripQuotes_toIfMatch, h, stripQuotes_toIfMatch]
  exact versionToken_injective (Option.some.inj htoken)

/-- Client and server take the same strings for a field of hex, as the same bytes; and a version of the server, however it reached the
client, goes back as the condition on that version and on no other. -/
theorem wire_spellings_agree :
    (∀ (n : Nat) (text : Text) (bytes : ByteArr n),
      (fixedFromWire n text = some bytes ↔ text = hexEncode bytes.val) ∧ (decodeHexFixed n text = .ok bytes ↔ text = hexEncode bytes.val)) ∧
    (∀ (text : Text) (bytes : Bytes), challengeNonceFromWire text = some bytes ↔ bytes ≠ [] ∧ text = hexEncode bytes) ∧
    (∀ (text : Text) (max : Nat), text.utf8Len ≤ max * 2 → (decodeHex text max).toOption = challengeNonceFromWire text) ∧
    (∀ text : Text, (∀ n, (∃ bytes : ByteArr n, text = hexEncode bytes.val) ↔ text.length = 2 * n ∧ ∀ c ∈ text, c ∈ HEX_DIGITS)) ∧
    (∀ version : U64, 1 ≤ version →
      ∃ stored, ServerVersion.parse (versionToken version.val) = .ok stored ∧
        ServerVersion.parse ('"' :: versionToken version.val ++ ['"']) = .ok stored ∧
        ServerVersion.fromBytes stored.toBytes = .ok stored ∧
        preconditionOf (some stored.toIfMatch) none = .ok version.val ∧
        ∀ (other : U64) (stored' : ServerVersion), ServerVersion.parse (versionToken other.val) = .ok stored' →
          stored'.toIfMatch = stored.toIfMatch → other = version) := by
  refine ⟨fun n text bytes => ⟨fixedFromWire_eq_some, decodeHexFixed_eq_ok⟩, fun text bytes => challengeNonceFromWire_eq_some, ?_, ?_, ?_⟩
  · intro text max hcap
    apply Option.ext
    intro bytes
    have hserver : (decodeHex text max).toOption = some bytes ↔ decodeHex text max = .ok bytes := by
      cases decodeHex text max with
      | ok found => exact ⟨fun h => congrArg Except.ok (Option.some.inj h), fun h => congrArg some (Except.ok.inj h)⟩
      | error e => exact ⟨fun h => (by cases h), fun h => (by cases h)⟩
    rw [hserver, decodeHex_eq_ok, challengeNonceFromWire_eq_some]
    constructor
    · intro h
      exact ⟨h.1, h.2.2⟩
    · intro h
      have hlen := utf8Len_hexEncode bytes
      rw [← h.2] at hlen
      exact ⟨h.1, by omega, h.2⟩
  · intro text n
    constructor
    · rintro ⟨bytes, rfl⟩
      refine ⟨by rw [length_hexEncode, bytes.property], fun c hc => mem_hexEncode hc⟩
    · intro h
      obtain ⟨bytes, hbytes⟩ := exists_hexEncode text n h.1 h.2
      exact ⟨bytes, hbytes⟩
  · intro version _
    refine ⟨.of version.val, parse_versionToken version.isLt, parse_quoted version.isLt, fromBytes_toBytes version.isLt,
      preconditionOf_ifMatch version.isLt, fun other stored' hparse hsame => ?_⟩
    obtain rfl := Except.ok.inj ((parse_versionToken other.isLt).symm.trans hparse)
    exact Fin.ext (toIfMatch_injective hsame)

end Misty
