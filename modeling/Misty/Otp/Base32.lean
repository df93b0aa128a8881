import Misty.Error
import Misty.Lib.Bits
import Misty.Lib.Text

/- Base 32 as `misty-otp` reads and writes it: either case, separators anywhere, padding
   at the end or not at all; written in upper case without padding.

   What is proved:
     1. `decode_eq_ok` — a text is read when it is in order, as the stream of its letters.
     2. `decode_encode` — what is written reads back.
     3. `base32_exact` — the documented grouping and lenience, and no other.

   Correspondence (Rust ↔ Lean):
     `base32::decode`, its loop                ↔ `Base32.decode`, `Base32.decodeLoop`
     `base32::{encode, encode_padded, encode_inner}` ↔ `Base32.encode`, `encodePadded`, `encodeLoop`, `encodeDrain`, `padOut`
     `base32::symbol`, the arms of the match   ↔ `Base32.symbol`, `Base32.classify` -/
namespace Misty.Base32

open Bits

def ALPHABET : Text := "ABCDEFGHIJKLMNOPQRSTUVWXYZ234567".toList
def MAX_INPUT_CHARS : Nat := 4096

/-- What a character is to the decoder. -/
inductive Symbol where
  | value (n : Nat)
  | separator
  | padding
  | invalid
  deriving DecidableEq

/-- The arms of the match. -/
def classify (ch : Char) : Symbol :=
  if 'A' ≤ ch ∧ ch ≤ 'Z' then .value (ch.toNat - 'A'.toNat)
  else if 'a' ≤ ch ∧ ch ≤ 'z' then .value (ch.toNat - 'a'.toNat)
  else if '2' ≤ ch ∧ ch ≤ '7' then .value (ch.toNat - '2'.toNat + 26)
  else if ch.toNat ∈ [0x20, 0x9, 0xa, 0xd, 0xb, 0xc, 0x2d] then .separator
  else if ch = '=' then .padding
  else .invalid

/-- The loop of `decode`: how many characters counted, and the octets. -/
def decodeLoop : Text → Nat → Nat → Nat → Nat → Option Nat → Bytes → Except Base32Error (Nat × Bytes)
  | [], _, _, _, chars, _, out => .ok (chars, out)
  | ch :: rest, offset, acc, bits, chars, paddingAt, out =>
    match classify ch with
    | .separator => decodeLoop rest (offset + ch.utf8Size) acc bits chars paddingAt out
    | .padding => decodeLoop rest (offset + ch.utf8Size) acc bits chars (paddingAt.or (some offset)) out
    | .invalid => .error (.invalidChar ch offset)
    | .value value =>
      if paddingAt.isSome then .error (.paddingInMiddle offset)
      else
        let acc := (acc <<< 5 ||| value) % 2 ^ 12
        let bits := bits + 5
        if 8 ≤ bits then
          decodeLoop rest (offset + ch.utf8Size) acc (bits - 8) (chars + 1) paddingAt
            (out ++ [Fin.ofNat 256 (acc >>> (bits - 8))])
        else decodeLoop rest (offset + ch.utf8Size) acc bits (chars + 1) paddingAt out

def decode (input : Text) : Except Base32Error Bytes := do
  if MAX_INPUT_CHARS < input.utf8Len then throw (.tooLong input.utf8Len MAX_INPUT_CHARS)
  let (chars, out) ← decodeLoop input 0 0 0 0 none []
  if chars % 8 = 1 ∨ chars % 8 = 3 ∨ chars % 8 = 6 then throw (.invalidLength chars)
  return out

def symbol (value : Nat) : Char :=
  (ALPHABET[value % 2 ^ 5]?).getD 'A'

/-- The inner `while` of `encode_inner`. -/
def encodeDrain (acc : Nat) : Nat → Text → Nat × Text
  | bits + 5, out => encodeDrain acc bits (out ++ [symbol (acc >>> bits)])
  | bits, out => (bits, out)

/-- The loop of `encode_inner`. -/
def encodeLoop : Bytes → Nat → Nat → Text → Nat × Nat × Text
  | [], acc, bits, out => (acc, bits, out)
  | byte :: rest, acc, bits, out =>
    let acc := (acc <<< 8 ||| byte.val) % 2 ^ 12
    let drained := encodeDrain acc (bits + 8) out
    encodeLoop rest acc drained.1 drained.2

def encode (bytes : Bytes) : Text :=
  let (acc, bits, out) := encodeLoop bytes 0 0 []
  if 0 < bits then out ++ [symbol (acc <<< (5 - bits))] else out

/-! ## What is written -/

theorem symbol_mod (v : Nat) : symbol (v % 2 ^ 5) = symbol v := by
  rw [symbol, Nat.mod_mod, symbol]

theorem symbol_plain : ∀ v < 2 ^ 5, classify (symbol v) = .value v ∧ (symbol v).isAlphanum = true := by
  decide

/-- A text of symbols, with their values. -/
def Spells (text : Text) (values : List Nat) : Prop := text = values.map symbol ∧ ∀ v ∈ values, v < 2 ^ 5

theorem Spells.concat {text : Text} {values : List Nat} (h : Spells text values) (v : Nat) :
    Spells (text ++ [symbol v]) (values ++ [v % 2 ^ 5]) := by
  refine ⟨by rw [List.map_append, ← h.1, List.map_singleton, symbol_mod], fun w hw => ?_⟩
  rcases List.mem_append.mp hw with hw | hw
  · exact h.2 w hw
  · rw [List.mem_singleton.mp hw]
    exact Nat.mod_lt v (by decide)

theorem stream_concat {n : Nat} {values : List Nat} (v : Nat) : stream n (values ++ [v % 2 ^ n]) = stream n values ++ bitsBe n v := by
  rw [stream_append, stream_cons, stream_nil, List.append_nil, bitsBe_mod le_rfl]

theorem encodeDrain_spec (acc bits : Nat) (out : Text) (values : List Nat) (h : Spells out values) :
    (encodeDrain acc bits out).1 < 5 ∧ ∃ values', Spells (encodeDrain acc bits out).2 values' ∧
      stream 5 values' ++ bitsBe (encodeDrain acc bits out).1 acc = stream 5 values ++ bitsBe bits acc := by
  fun_induction encodeDrain acc bits out generalizing values with
  | case1 bits out ih =>
    obtain ⟨hsmall, values', hspells, hstream⟩ := ih (values ++ [(acc >>> bits) % 2 ^ 5]) (h.concat _)
    refine ⟨hsmall, values', hspells, ?_⟩
    have hsplit : bitsBe (bits + 5) acc = bitsBe 5 (acc >>> bits) ++ bitsBe bits acc := by rw [Nat.add_comm, bitsBe_add]
    rw [hstream, stream_concat, List.append_assoc]
    exact congrArg (stream 5 values ++ ·) hsplit.symm
  | case2 bits out hstop =>
    refine ⟨?_, values, h, rfl⟩
    by_contra hge
    obtain ⟨k, hk⟩ := Nat.exists_eq_add_of_le (not_lt.mp hge)
    exact hstop k (by omega)

/-- The symbols written and the bits pending are the octets read. -/
theorem encodeLoop_spec : ∀ (bytes : Bytes) (acc bits : Nat) (out : Text) (values : List Nat), Spells out values → bits < 5 →
    ∃ acc' bits' values', encodeLoop bytes acc bits out = (acc', bits', values'.map symbol) ∧ bits' < 5 ∧
      (∀ v ∈ values', v < 2 ^ 5) ∧ stream 5 values' ++ bitsBe bits' acc' = stream 5 values ++ bitsBe bits acc ++ octets bytes
  | [], acc, bits, out, values, h, hbits => ⟨acc, bits, values, by rw [encodeLoop, h.1], hbits, h.2, by simp [octets]⟩
  | byte :: rest, acc, bits, out, values, h, hbits => by
    obtain ⟨hsmall, values₁, hspells, hdrain⟩ :=
      encodeDrain_spec ((acc <<< 8 ||| byte.val) % 2 ^ 12) (bits + 8) out values h
    obtain ⟨acc', bits', values', hloop, hbits', hlt, hstream⟩ :=
      encodeLoop_spec rest ((acc <<< 8 ||| byte.val) % 2 ^ 12) _ _ values₁ hspells hsmall
    refine ⟨acc', bits', values', hloop, hbits', hlt, ?_⟩
    have hbyte : octets (byte :: rest) = bitsBe 8 byte.val ++ octets rest := by rw [octets, List.map_cons, stream_cons, octets]
    rw [hstream, hdrain, bitsBe_mod (by omega), bitsBe_push byte.isLt, hbyte]
    simp only [List.append_assoc]

/-- What is written: the octets, and fewer than five clear bits. -/
theorem encode_spec (bytes : Bytes) : ∃ values pad, encode bytes = values.map symbol ∧ (∀ v ∈ values, v < 2 ^ 5) ∧
    pad < 5 ∧ stream 5 values = octets bytes ++ List.replicate pad false := by
  obtain ⟨acc, bits, values, hloop, hbits, hlt, hstream⟩ :=
    encodeLoop_spec bytes 0 0 [] [] ⟨rfl, fun _ h => absurd h List.not_mem_nil⟩ (by decide)
  have hread : stream 5 values ++ bitsBe bits acc = octets bytes := hstream
  unfold encode
  rw [hloop]
  dsimp only
  split
  · next hpos =>
    have hpad : ∀ k, bitsBe k 0 = List.replicate k false := by
      intro k
      induction k with
      | zero => rfl
      | succ k ih => rw [bitsBe, ih, Nat.zero_testBit, List.replicate_succ]
    have hlast : bitsBe 5 (acc <<< (5 - bits)) = bitsBe bits acc ++ List.replicate (5 - bits) false := by
      have hpush := bitsBe_push (m := bits) (n := 5 - bits) (v := acc) (w := 0) (Nat.two_pow_pos _)
      rwa [Nat.or_zero, hpad, Nat.add_sub_cancel' (by omega)] at hpush
    have hspells := Spells.concat ⟨rfl, hlt⟩ (acc <<< (5 - bits))
    refine ⟨values ++ [(acc <<< (5 - bits)) % 2 ^ 5], 5 - bits, hspells.1, hspells.2, by omega, ?_⟩
    rw [stream_concat, hlast, ← List.append_assoc, hread]
  · next hzero =>
    obtain rfl : bits = 0 := by omega
    refine ⟨values, 0, rfl, hlt, by decide, ?_⟩
    rw [← hread, bitsBe, List.append_nil, List.replicate_zero, List.append_nil]

theorem isAlphanum_of_mem_encode {bytes : Bytes} {c : Char} (h : c ∈ encode bytes) : c.isAlphanum = true := by
  obtain ⟨values, pad, hencode, hlt, -⟩ := encode_spec bytes
  rw [hencode] at h
  obtain ⟨v, hv, rfl⟩ := List.mem_map.mp h
  exact (symbol_plain v (hlt v hv)).2

/-! ## What is read -/

/-- The value of a symbol that has one. -/
def Symbol.value? : Symbol → Option Nat
  | .value v => some v
  | _ => none

/-- The values of the letters of a text. -/
def letters (text : Text) : List Nat := text.filterMap (fun ch => (classify ch).value?)

/-- Nothing but letters, separators and padding, and no letter behind padding. -/
def Ordered : Bool → Text → Prop
  | _, [] => True
  | padded, ch :: rest =>
    match classify ch with
    | .value _ => padded = false ∧ Ordered padded rest
    | .separator => Ordered padded rest
    | .padding => Ordered true rest
    | .invalid => False

theorem letters_cons {ch : Char} {rest : Text} : letters (ch :: rest) = (classify ch).value?.toList ++ letters rest := by
  unfold letters
  cases hclass : (classify ch).value? with
  | none => simp only [List.filterMap_cons, hclass, Option.toList_none, List.nil_append]
  | some v => simp only [List.filterMap_cons, hclass, Option.toList_some, List.singleton_append]

theorem classify_lt {ch : Char} {v : Nat} (h : classify ch = .value v) : v < 2 ^ 5 := by
  unfold classify at h
  split at h
  · next hupper =>
    cases h
    have hle : ch.toNat ≤ 'Z'.toNat := hupper.2
    have hge : 'A'.toNat ≤ ch.toNat := hupper.1
    simp only [Char.reduceToNat] at hle hge ⊢
    omega
  split at h
  · next hlower =>
    cases h
    have hle : ch.toNat ≤ 'z'.toNat := hlower.2
    have hge : 'a'.toNat ≤ ch.toNat := hlower.1
    simp only [Char.reduceToNat] at hle hge ⊢
    omega
  split at h
  · next hdigit =>
    cases h
    have hle : ch.toNat ≤ '7'.toNat := hdigit.2
    have hge : '2'.toNat ≤ ch.toNat := hdigit.1
    simp only [Char.reduceToNat] at hle hge ⊢
    omega
  split at h
  · cases h
  split at h <;> cases h

/-- A letter adds its bits to those pending, and a whole octet of them is given out. -/
theorem decodeLoop_value {ch : Char} {v : Nat} (h : classify ch = .value v) (rest : Text) (offset acc chars : Nat) {bits : Nat}
    (out : Bytes) (hbits : bits < 8) :
    ∃ bits' acc' out', decodeLoop (ch :: rest) offset acc bits chars none out =
      decodeLoop rest (offset + ch.utf8Size) acc' bits' (chars + 1) none out' ∧ bits' < 8 ∧
        octets out' ++ bitsBe bits' acc' = octets out ++ bitsBe bits acc ++ bitsBe 5 v := by
  have hpush : bitsBe (bits + 5) ((acc <<< 5 ||| v) % 2 ^ 12) = bitsBe bits acc ++ bitsBe 5 v := by
    rw [bitsBe_mod (by omega), bitsBe_push (classify_lt h)]
  rw [decodeLoop, h]
  simp only [Option.isSome_none, Bool.false_eq_true, if_false]
  generalize (acc <<< 5 ||| v) % 2 ^ 12 = pushed at hpush ⊢
  by_cases hfull : 8 ≤ bits + 5
  · rw [if_pos hfull]
    refine ⟨bits + 5 - 8, pushed, out ++ [Fin.ofNat 256 (pushed >>> (bits + 5 - 8))], rfl, by omega, ?_⟩
    have hone : octets [Fin.ofNat 256 (pushed >>> (bits + 5 - 8))] = bitsBe 8 (pushed >>> (bits + 5 - 8)) := by
      simp only [octets, List.map_cons, List.map_nil, stream_cons, stream_nil, List.append_nil, Fin.val_ofNat]
      exact bitsBe_mod (n := 8) (m := 8) le_rfl
    have hsplit := bitsBe_add (m := 8) (n := bits + 5 - 8) (v := pushed)
    rw [Nat.add_sub_cancel' hfull, hpush] at hsplit
    rw [octets_append, hone, List.append_assoc, ← hsplit, List.append_assoc]
  · rw [if_neg hfull]
    refine ⟨bits + 5, pushed, out, rfl, by omega, ?_⟩
    rw [hpush, List.append_assoc]

/-- What is read of a text in order is the stream of its letters. -/
theorem decodeLoop_ordered : ∀ (text : Text) (offset acc bits chars : Nat) (paddingAt : Option Nat) (out : Bytes), bits < 8 →
    Ordered paddingAt.isSome text →
      ∃ bits' acc' out', decodeLoop text offset acc bits chars paddingAt out = .ok (chars + (letters text).length, out') ∧
        bits' < 8 ∧ octets out' ++ bitsBe bits' acc' = octets out ++ bitsBe bits acc ++ stream 5 (letters text)
  | [], _, acc, bits, _, _, out, hbits, _ => ⟨bits, acc, out, rfl, hbits, by simp [letters]⟩
  | ch :: rest, offset, acc, bits, chars, paddingAt, out, hbits, hordered => by
    rw [Ordered] at hordered
    rw [letters_cons]
    cases hclass : classify ch with
    | invalid =>
      rw [hclass] at hordered
      exact hordered.elim
    | separator =>
      rw [hclass] at hordered
      rw [decodeLoop, hclass]
      exact decodeLoop_ordered rest (offset + ch.utf8Size) acc bits chars paddingAt out hbits hordered
    | padding =>
      rw [hclass] at hordered
      rw [decodeLoop, hclass]
      refine decodeLoop_ordered rest (offset + ch.utf8Size) acc bits chars _ out hbits ?_
      rwa [Option.isSome_or, Option.isSome_some, Bool.or_true]
    | value v =>
      rw [hclass] at hordered
      obtain rfl : paddingAt = none := Option.isSome_eq_false_iff.mp hordered.1 |> Option.isNone_iff_eq_none.mp
      obtain ⟨bits₁, acc₁, out₁, hstep, hbits₁, hstream₁⟩ := decodeLoop_value hclass rest offset acc chars out hbits
      obtain ⟨bits', acc', out', hloop, hbits', hstream⟩ :=
        decodeLoop_ordered rest (offset + ch.utf8Size) acc₁ bits₁ (chars + 1) none out₁ hbits₁ hordered.2
      refine ⟨bits', acc', out', ?_, hbits', ?_⟩
      · rw [hstep, hloop, Symbol.value?, Option.toList_some, List.singleton_append, List.length_cons, Nat.add_assoc, Nat.add_comm 1]
      · rw [hstream, hstream₁, Symbol.value?, Option.toList_some, List.singleton_append, stream_cons, List.append_assoc]

theorem ordered_of_decodeLoop : ∀ {text : Text} {offset acc bits chars : Nat} {paddingAt : Option Nat} {out : Bytes}
    {done : Nat × Bytes}, decodeLoop text offset acc bits chars paddingAt out = .ok done → Ordered paddingAt.isSome text
  | [], _, _, _, _, _, _, _, _ => trivial
  | ch :: rest, offset, acc, bits, chars, paddingAt, out, done, h => by
    rw [decodeLoop] at h
    rw [Ordered]
    cases hclass : classify ch with
    | invalid =>
      rw [hclass] at h
      cases h
    | separator =>
      rw [hclass] at h
      exact ordered_of_decodeLoop h
    | padding =>
      rw [hclass] at h
      have hrest := ordered_of_decodeLoop h
      rwa [Option.isSome_or, Option.isSome_some, Bool.or_true] at hrest
    | value v =>
      rw [hclass] at h
      dsimp only at h ⊢
      split at h
      · cases h
      next hnone =>
      refine ⟨Bool.eq_false_iff.mpr hnone, ?_⟩
      split at h
      · exact ordered_of_decodeLoop h
      · exact ordered_of_decodeLoop h

/-- A number of letters that no whole number of octets has. -/
def Partial (count : Nat) : Prop := count % 8 = 1 ∨ count % 8 = 3 ∨ count % 8 = 6

theorem octets_of_ordered {text : Text} (h : Ordered false text) : ∃ out,
    decodeLoop text 0 0 0 0 none [] = .ok ((letters text).length, out) ∧ out.length = 5 * (letters text).length / 8 ∧
      octets out <+: stream 5 (letters text) := by
  obtain ⟨bits, acc, out, hloop, hbits, hread⟩ := decodeLoop_ordered text 0 0 0 0 none [] (by decide) h
  rw [Nat.zero_add] at hloop
  have hstream : octets out ++ bitsBe bits acc = stream 5 (letters text) := hread
  have hlen := congrArg List.length hstream
  simp only [List.length_append, length_octets, length_bitsBe, length_stream] at hlen
  exact ⟨out, hloop, by omega, hstream ▸ List.prefix_append _ _⟩

/-- A text is read when it is in order and its letters make whole octets; what is read is their stream. -/
theorem decode_eq_ok {text : Text} {bytes : Bytes} : decode text = .ok bytes ↔
    text.utf8Len ≤ MAX_INPUT_CHARS ∧ Ordered false text ∧ ¬ Partial (letters text).length ∧
      bytes.length = 5 * (letters text).length / 8 ∧ octets bytes <+: stream 5 (letters text) := by
  unfold decode
  rw [guard_eq_ok, bind_eq_ok, not_lt]
  constructor
  · intro h
    obtain ⟨hfits, done, hloop, hrest⟩ := h
    have hordered : Ordered false text := ordered_of_decodeLoop hloop
    obtain ⟨out, hloop', hshape⟩ := octets_of_ordered hordered
    obtain rfl := Except.ok.inj (hloop.symm.trans hloop')
    obtain ⟨hwhole, hout⟩ := guard_eq_ok.mp hrest
    obtain rfl := Except.ok.inj hout
    exact ⟨hfits, hordered, hwhole, hshape⟩
  · intro h
    obtain ⟨hfits, hordered, hwhole, hlen, hpre⟩ := h
    obtain ⟨out, hloop, hlen', hpre'⟩ := octets_of_ordered hordered
    have hsame : (octets out).length = (octets bytes).length := by rw [length_octets, length_octets, hlen, hlen']
    have heq : octets out = octets bytes := (List.prefix_of_prefix_length_le hpre' hpre hsame.le).eq_of_length hsame
    exact ⟨hfits, _, hloop, guard_eq_ok.mpr ⟨hwhole, congrArg Except.ok (octets_inj heq)⟩⟩

/-! ## Reading what is written -/

theorem letters_append {text text' : Text} : letters (text ++ text') = letters text ++ letters text' := List.filterMap_append

theorem letters_symbols : ∀ {values : List Nat}, (∀ v ∈ values, v < 2 ^ 5) → letters (values.map symbol) = values
  | [], _ => rfl
  | v :: values, h => by
    have hrest : ∀ w ∈ values, w < 2 ^ 5 := fun w hw => h w (List.mem_cons_of_mem v hw)
    rw [List.map_cons, letters_cons, (symbol_plain v (h v List.mem_cons_self)).1, letters_symbols hrest]
    rfl

theorem ordered_padding : ∀ (n : Nat) (padded : Bool), Ordered padded (List.replicate n '=')
  | 0, _ => trivial
  | n + 1, _ => ordered_padding n true

theorem ordered_symbols : ∀ {values : List Nat}, (∀ v ∈ values, v < 2 ^ 5) → ∀ n : Nat,
    Ordered false (values.map symbol ++ List.replicate n '=')
  | [], _, n => ordered_padding n false
  | v :: values, h, n => by
    have hrest : ∀ w ∈ values, w < 2 ^ 5 := fun w hw => h w (List.mem_cons_of_mem v hw)
    rw [List.map_cons, List.cons_append, Ordered, (symbol_plain v (h v List.mem_cons_self)).1]
    exact ⟨rfl, ordered_symbols hrest n⟩

theorem letters_padding (n : Nat) : letters (List.replicate n '=') = [] := by
  induction n with
  | zero => rfl
  | succ n ih => rw [List.replicate_succ, letters_cons, ih]; rfl

/-- What is written reads back, with padding or without, when it is not longer than any input may be. -/
theorem decode_encode_padding {bytes : Bytes} (n : Nat) (h : (encode bytes ++ List.replicate n '=').utf8Len ≤ MAX_INPUT_CHARS) :
    decode (encode bytes ++ List.replicate n '=') = .ok bytes := by
  obtain ⟨values, pad, hencode, hlt, hpad, hstream⟩ := encode_spec bytes
  have hcount := congrArg List.length hstream
  simp only [List.length_append, length_octets, List.length_replicate, length_stream] at hcount
  have hletters : letters (values.map symbol ++ List.replicate n '=') = values := by
    rw [letters_append, letters_symbols hlt, letters_padding, List.append_nil]
  rw [hencode] at h ⊢
  refine decode_eq_ok.mpr ⟨h, ordered_symbols hlt n, ?_⟩
  rw [hletters]
  unfold Partial
  exact ⟨by omega, by omega, hstream ▸ List.prefix_append _ _⟩

theorem decode_encode {bytes : Bytes} (h : (encode bytes).utf8Len ≤ MAX_INPUT_CHARS) : decode (encode bytes) = .ok bytes := by
  have hread := @decode_encode_padding bytes 0
  rw [List.replicate_zero, List.append_nil] at hread
  exact hread h

/-! ## The documented lenience -/

def SEPARATORS : Text := [' ', '\t', '\n', '\r', Char.ofNat 0x0b, Char.ofNat 0x0c, '-']

/-- A letter of either case and its place in the alphabet. -/
def Stands (ch : Char) (v : Nat) : Prop := ALPHABET[v]? = some ch ∨ (ALPHABET.map toAsciiLowercase)[v]? = some ch

instance (ch : Char) (v : Nat) : Decidable (Stands ch v) := inferInstanceAs (Decidable (_ ∨ _))

/-- The arms of the match are what the documentation says of them, on ASCII. -/
theorem classify_ascii : ∀ n < 128, (∀ v < 32, classify (Char.ofNat n) = .value v ↔ Stands (Char.ofNat n) v) ∧
    (classify (Char.ofNat n) = .separator ↔ Char.ofNat n ∈ SEPARATORS) ∧ (classify (Char.ofNat n) = .padding ↔ n = 61) := by
  decide +kernel

theorem classify_invalid {ch : Char} (h : 128 ≤ ch.toNat) : classify ch = .invalid := by
  have hnot : ∀ {limit : Char}, limit.toNat < 128 → ¬ ch ≤ limit := by
    intro limit hlimit hle
    have hval : ch.toNat ≤ limit.toNat := hle
    omega
  unfold classify
  rw [if_neg (fun hc => hnot (by decide) hc.2), if_neg (fun hc => hnot (by decide) hc.2), if_neg (fun hc => hnot (by decide) hc.2),
    if_neg (by simp only [List.mem_cons, List.not_mem_nil, or_false]; omega), if_neg (fun hc => absurd h (by rw [hc]; decide))]

theorem ascii_of_stands {ch : Char} {v : Nat} (h : Stands ch v) : ch.toNat < 128 ∧ v < 32 := by
  have hupper : ALPHABET.all (fun ch => ch.toNat < 128) = true := by decide
  have hlower : (ALPHABET.map toAsciiLowercase).all (fun ch => ch.toNat < 128) = true := by decide
  rcases h with h | h
  · obtain ⟨hlt, -⟩ := List.getElem?_eq_some_iff.mp h
    exact ⟨of_decide_eq_true (List.all_eq_true.mp hupper ch (List.mem_of_getElem? h)), hlt⟩
  · obtain ⟨hlt, -⟩ := List.getElem?_eq_some_iff.mp h
    exact ⟨of_decide_eq_true (List.all_eq_true.mp hlower ch (List.mem_of_getElem? h)), hlt⟩

theorem classify_value (ch : Char) (v : Nat) : classify ch = .value v ↔ Stands ch v := by
  constructor
  · intro h
    by_cases hascii : ch.toNat < 128
    · have hboth := (classify_ascii ch.toNat hascii).1 v (classify_lt h)
      rw [Char.ofNat_toNat] at hboth
      exact hboth.mp h
    · rw [classify_invalid (not_lt.mp hascii)] at h
      cases h
  · intro h
    obtain ⟨hascii, hv⟩ := ascii_of_stands h
    have hboth := (classify_ascii ch.toNat hascii).1 v hv
    rw [Char.ofNat_toNat] at hboth
    exact hboth.mpr h

theorem classify_separator (ch : Char) : classify ch = .separator ↔ ch ∈ SEPARATORS := by
  by_cases hascii : ch.toNat < 128
  · have hboth := (classify_ascii ch.toNat hascii).2.1
    rwa [Char.ofNat_toNat] at hboth
  · have hall : SEPARATORS.all (fun ch => ch.toNat < 128) = true := by decide
    rw [classify_invalid (not_lt.mp hascii)]
    exact ⟨fun h => (by cases h), fun h => absurd (of_decide_eq_true (List.all_eq_true.mp hall ch h)) hascii⟩

theorem classify_padding (ch : Char) : classify ch = .padding ↔ ch = '=' := by
  by_cases hascii : ch.toNat < 128
  · have hboth := (classify_ascii ch.toNat hascii).2.2
    rw [Char.ofNat_toNat] at hboth
    rw [hboth]
    exact ⟨fun h => by rw [← Char.ofNat_toNat ch, h], fun h => by rw [h]; rfl⟩
  · rw [classify_invalid (not_lt.mp hascii)]
    exact ⟨fun h => (by cases h), fun h => absurd (by rw [h]; decide) hascii⟩

/-- The lenience: letters of either case, separators, hyphens and padding, and no letter behind padding. -/
def Lenient (text : Text) : Prop :=
  (∀ ch ∈ text, (∃ v, Stands ch v) ∨ ch ∈ SEPARATORS ∨ ch = '=') ∧
  ∀ front back, text = front ++ '=' :: back → ∀ ch ∈ back, ∀ v, ¬ Stands ch v

theorem Lenient.cons {ch : Char} {rest : Text} (hch : (∃ v, Stands ch v) ∨ ch ∈ SEPARATORS) :
    Lenient (ch :: rest) ↔ Lenient rest := by
  have hne : ch ≠ '=' := by
    intro heq
    have hpad := (classify_padding ch).mpr heq
    rcases hch with ⟨v, hv⟩ | hsep
    · rw [(classify_value ch v).mpr hv] at hpad
      cases hpad
    · rw [(classify_separator ch).mpr hsep] at hpad
      cases hpad
  constructor
  · intro h
    refine ⟨fun c hc => h.1 c (List.mem_cons_of_mem ch hc), fun front back heq => ?_⟩
    exact h.2 (ch :: front) back (by rw [heq, List.cons_append])
  · intro h
    refine ⟨fun c hc => ?_, fun front back heq => ?_⟩
    · rcases List.mem_cons.mp hc with rfl | hc
      · exact hch.imp_right Or.inl
      · exact h.1 c hc
    · cases front with
      | nil => exact absurd (List.cons.inj heq).1 hne
      | cons c front => exact h.2 front back (List.cons.inj heq).2

theorem ordered_true : ∀ {text : Text}, Ordered true text ↔ ∀ ch ∈ text, ch ∈ SEPARATORS ∨ ch = '='
  | [] => ⟨fun _ ch hch => absurd hch List.not_mem_nil, fun _ => trivial⟩
  | ch :: rest => by
    rw [Ordered, List.forall_mem_cons]
    cases hclass : classify ch with
    | value v =>
      refine ⟨fun h => absurd h.1 Bool.true_eq_false.mp, fun h => ?_⟩
      rcases h.1 with hsep | hpad
      · rw [(classify_separator ch).mpr hsep] at hclass
        cases hclass
      · rw [(classify_padding ch).mpr hpad] at hclass
        cases hclass
    | separator => exact ordered_true.trans (and_iff_right (.inl ((classify_separator ch).mp hclass))).symm
    | padding => exact ordered_true.trans (and_iff_right (.inr ((classify_padding ch).mp hclass))).symm
    | invalid =>
      refine ⟨fun h => h.elim, fun h => ?_⟩
      rcases h.1 with hsep | hpad
      · rw [(classify_separator ch).mpr hsep] at hclass
        cases hclass
      · rw [(classify_padding ch).mpr hpad] at hclass
        cases hclass

theorem not_stands {ch : Char} (h : ch ∈ SEPARATORS ∨ ch = '=') (v : Nat) : ¬ Stands ch v := by
  intro hv
  have hclass := (classify_value ch v).mpr hv
  rcases h with hsep | hpad
  · rw [(classify_separator ch).mpr hsep] at hclass
    cases hclass
  · rw [(classify_padding ch).mpr hpad] at hclass
    cases hclass

theorem ordered_iff : ∀ {text : Text}, Ordered false text ↔ Lenient text
  | [] => ⟨fun _ => ⟨fun _ h => absurd h List.not_mem_nil, fun front back h => absurd h.symm (by simp)⟩, fun _ => trivial⟩
  | ch :: rest => by
    rw [Ordered]
    cases hclass : classify ch with
    | value v =>
      rw [Lenient.cons (.inl ⟨v, (classify_value ch v).mp hclass⟩)]
      exact (and_iff_right rfl).trans ordered_iff
    | separator =>
      rw [Lenient.cons (.inr ((classify_separator ch).mp hclass))]
      exact ordered_iff
    | padding =>
      obtain rfl := (classify_padding ch).mp hclass
      refine ordered_true.trans ⟨fun h => ⟨fun c hc => ?_, fun front back heq => ?_⟩, fun h c hc => ?_⟩
      · rcases List.mem_cons.mp hc with rfl | hc
        · exact .inr (.inr rfl)
        · exact .inr (h c hc)
      · -- Whatever padding is meant, all that is behind it is behind the first.
        intro c hc
        refine not_stands (h c ?_)
        cases front with
        | nil => exact (List.cons.inj heq).2 ▸ hc
        | cons first front =>
          rw [(List.cons.inj heq).2]
          exact List.mem_append_right _ (List.mem_cons_of_mem _ hc)
      · rcases h.1 c (List.mem_cons_of_mem _ hc) with ⟨v, hv⟩ | hrest
        · exact absurd hv (h.2 [] rest rfl c hc v)
        · exact hrest
    | invalid =>
      refine ⟨fun h => h.elim, fun h => ?_⟩
      rcases h.1 ch List.mem_cons_self with ⟨v, hv⟩ | hsep | hpad
      · rw [(classify_value ch v).mpr hv] at hclass
        cases hclass
      · rw [(classify_separator ch).mpr hsep] at hclass
        cases hclass
      · rw [(classify_padding ch).mpr hpad] at hclass
        cases hclass

theorem utf8Len_concat (out : Text) : Text.utf8Len (out ++ ['=']) = out.utf8Len + 1 := utf8Len_concat_char out '='

/-- The `while` of `encode_inner` that pads. -/
def padOut (out : Text) : Text := if out.utf8Len % 8 = 0 then out else padOut (out ++ ['='])
termination_by (8 - out.utf8Len % 8) % 8
decreasing_by
  rw [utf8Len_concat]
  omega

def encodePadded (bytes : Bytes) : Text := padOut (encode bytes)

theorem padOut_eq (out : Text) : padOut out = out ++ List.replicate ((8 - out.utf8Len % 8) % 8) '=' := by
  fun_induction padOut out with
  | case1 out h => rw [h, Nat.sub_zero, Nat.mod_self, List.replicate_zero, List.append_nil]
  | case2 out h ih =>
    have hcount : (8 - out.utf8Len % 8) % 8 = (8 - (out.utf8Len + 1) % 8) % 8 + 1 := by omega
    rw [ih, utf8Len_concat, hcount, List.replicate_succ, List.append_assoc, List.singleton_append]

theorem utf8Len_encode (bytes : Bytes) : (encode bytes).utf8Len = (encode bytes).length := by
  refine Text.utf8Len_ascii (fun ch hch => ?_)
  obtain ⟨values, pad, hencode, hlt, -⟩ := encode_spec bytes
  rw [hencode] at hch
  obtain ⟨v, hv, rfl⟩ := List.mem_map.mp hch
  exact (ascii_of_stands ((classify_value _ v).mp (symbol_plain v (hlt v hv)).1)).1

theorem length_encode (bytes : Bytes) : (encode bytes).length = (8 * bytes.length + 4) / 5 := by
  obtain ⟨values, pad, hencode, -, hpad, hstream⟩ := encode_spec bytes
  have hcount := congrArg List.length hstream
  simp only [List.length_append, length_octets, List.length_replicate, length_stream] at hcount
  rw [hencode, List.length_map]
  omega

theorem getElem_symbol : ∀ v < 2 ^ 5, ALPHABET[v]? = some (symbol v) := by decide

/-- Base 32 is the standard grouping of bits, with the documented lenience and no other: a text is read when it is in order and its
letters can be whole octets, and what is read is the first bits of their values, whatever the case, separators and padding. -/
theorem base32_exact :
    (∀ bytes : Bytes, ∃ values pad, encode bytes = values.map symbol ∧ (∀ v ∈ values, ALPHABET[v]? = some (symbol v)) ∧
      pad < 5 ∧ stream 5 values = octets bytes ++ List.replicate pad false) ∧
    (∀ bytes : Bytes, bytes.length ≤ 2560 → decode (encode bytes) = .ok bytes) ∧
    (∀ bytes : Bytes, encodePadded bytes = encode bytes ++ List.replicate ((8 - (encode bytes).length % 8) % 8) '=' ∧
      ((encodePadded bytes).utf8Len ≤ MAX_INPUT_CHARS → decode (encodePadded bytes) = .ok bytes)) ∧
    (∀ ch v, (classify ch).value? = some v ↔ Stands ch v) ∧
    (∀ text : Text, text.utf8Len ≤ MAX_INPUT_CHARS →
      ((∃ bytes, decode text = .ok bytes) ↔ Lenient text ∧ (letters text).length % 8 ∉ [1, 3, 6])) ∧
    (∀ (text : Text) (bytes : Bytes), decode text = .ok bytes →
      bytes.length = 5 * (letters text).length / 8 ∧ octets bytes <+: stream 5 (letters text) ∧
      ∀ text' : Text, text'.utf8Len ≤ MAX_INPUT_CHARS → Lenient text' → letters text' = letters text → decode text' = .ok bytes) := by
  have hpartial : ∀ n : Nat, n % 8 ∉ [1, 3, 6] ↔ ¬ Partial n := by
    intro n
    unfold Partial
    simp only [List.mem_cons, List.not_mem_nil, or_false]
  refine ⟨?_, ?_, ?_, ?_, ?_, ?_⟩
  · intro bytes
    obtain ⟨values, pad, hencode, hlt, hpad, hstream⟩ := encode_spec bytes
    exact ⟨values, pad, hencode, fun v hv => getElem_symbol v (hlt v hv), hpad, hstream⟩
  · intro bytes hle
    refine decode_encode ?_
    rw [utf8Len_encode, length_encode]
    unfold MAX_INPUT_CHARS
    omega
  · intro bytes
    have heq : encodePadded bytes = encode bytes ++ List.replicate ((8 - (encode bytes).length % 8) % 8) '=' := by
      rw [encodePadded, padOut_eq, utf8Len_encode]
    refine ⟨heq, fun hfits => ?_⟩
    rw [heq] at hfits ⊢
    exact decode_encode_padding _ hfits
  · intro ch v
    rw [← classify_value]
    cases classify ch with
    | value w => simp only [Symbol.value?, Option.some.injEq, Symbol.value.injEq]
    | separator => simp only [Symbol.value?, reduceCtorEq]
    | padding => simp only [Symbol.value?, reduceCtorEq]
    | invalid => simp only [Symbol.value?, reduceCtorEq]
  · intro text hfits
    rw [← ordered_iff, hpartial]
    constructor
    · intro h
      obtain ⟨bytes, hread⟩ := h
      exact ⟨(decode_eq_ok.mp hread).2.1, (decode_eq_ok.mp hread).2.2.1⟩
    · intro h
      obtain ⟨out, -, hshape⟩ := octets_of_ordered h.1
      exact ⟨out, decode_eq_ok.mpr ⟨hfits, h.1, h.2, hshape⟩⟩
  · intro text bytes hread
    obtain ⟨-, -, hwhole, hlen, hpre⟩ := decode_eq_ok.mp hread
    refine ⟨hlen, hpre, fun text' hfits hlenient hsame => ?_⟩
    rw [← hsame] at hwhole hlen hpre
    exact decode_eq_ok.mpr ⟨hfits, ordered_iff.mpr hlenient, hwhole, hlen, hpre⟩

end Misty.Base32
