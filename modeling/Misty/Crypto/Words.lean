import Misty.Crypto.Compact
import Misty.Lib.Text

/- The 24 words of a recovery key: the key and the first octet of its digest, eleven bits
   a word.

   What is proved:
     1. `fromIndices_eq_ok` — indices are read as a key exactly when they are the key's.
     2. `fromWords_eq_ok` — and words exactly when, trimmed and in lower case, they are
        the words of the key.
     3. `recovery_kit_codecs` — both codes of a key read back, nothing else is read, and a
        changed or a swapped character of the compact one is refused.

   Correspondence (Rust ↔ Lean):
     `WORDS`, `INDEX`                          ↔ the parameter `words`, `indexOf`
     `words::{word_at, index_of}`              ↔ `wordAt`, `indexOf`
     `words::{checksummed, to_words}`          ↔ `checksummed`, `toWords`
     `words::{from_words, from_indices}`       ↔ `fromWords`, `resolveWords`; `fromIndices`, `packIndices`
   The word list and SHA-256 are parameters. -/
namespace Misty

open Bits

def WORDLIST_LEN : Nat := 2048
def RECOVERY_WORD_COUNT : Nat := 24
def BITS_PER_WORD : Nat := 11

/-- `word.trim().to_ascii_lowercase()`. -/
def normalised (word : Text) : Text := (trim word).map toAsciiLowercase

/-- What the list is taken to be: 2048 distinct words of lower-case letters. -/
structure Wordlist (words : List Text) : Prop where
  length_eq : words.length = WORDLIST_LEN
  distinct : words.Nodup
  lowercase : ∀ word ∈ words, word ≠ [] ∧ ∀ ch ∈ word, 'a' ≤ ch ∧ ch ≤ 'z'

section Wordlist

variable (words : List Text) (sha256 : Bytes → ByteArr 32)

def wordAt (index : Nat) : Option Text := words[index]?

/-- `index_of`: of two places of a word the later one was collected last. -/
def indexOf (word : Text) : Option Nat :=
  (words.zipIdx.reverse.find? (fun entry => entry.1 = normalised word)).map Prod.snd

def checksummed (key : RecoveryKey) : Bytes := key.val ++ [(sha256 key.val).val.head?.getD 0]

def toWords (key : RecoveryKey) : List Text :=
  (List.range RECOVERY_WORD_COUNT).map (fun wordIndex =>
    (wordAt words (groupAt BITS_PER_WORD (bitAt (checksummed sha256 key)) wordIndex)).getD
      "abandon".toList)

/-- The loops of `from_indices`. -/
def packIndices (indices : List Nat) : Bytes :=
  indices.zipIdx.foldl (fun bytes entry =>
    (List.range BITS_PER_WORD).foldl (fun bytes offset =>
      if (entry.1 >>> (BITS_PER_WORD - 1 - offset)) &&& 1 = 1 then setBit bytes (entry.2 * BITS_PER_WORD + offset)
      else bytes) bytes) (List.replicate 33 0)

def fromIndices (indices : List Nat) : Except CryptoError RecoveryKey := do
  let bytes := packIndices indices
  let key : RecoveryKey := ⟨bytes.takeD 32 0, List.takeD_length _ _ _⟩
  let expected := (sha256 key.val).val.head?.getD 0
  if bytes[32]? ≠ some expected then throw .wordChecksumMismatch
  return key

/-- The loop of `from_words`, from a position on. -/
def resolveWords : List Text → Nat → Except CryptoError (List Nat)
  | [], _ => .ok []
  | word :: rest, position =>
    match indexOf words word with
    | none => .error (.unknownWord position)
    | some index => do
      let indices ← resolveWords rest (position + 1)
      return (if index < 2 ^ 16 then index else 0) :: indices

def fromWords (typed : List Text) : Except CryptoError RecoveryKey := do
  if typed.length ≠ RECOVERY_WORD_COUNT then throw (.wrongWordCount RECOVERY_WORD_COUNT typed.length)
  let indices ← resolveWords words typed 0
  fromIndices sha256 indices

end Wordlist

variable {words : List Text} {sha256 : Bytes → ByteArr 32} {key : RecoveryKey}

/-! ## The list -/

theorem indexOf_eq (hwords : Wordlist words) {word : Text} {index : Nat} :
    indexOf words word = some index ↔ words[index]? = some (normalised word) := by
  have hplace : ∀ entry ∈ words.zipIdx.reverse, words[entry.2]? = some entry.1 := by
    intro entry hentry
    exact List.mem_zipIdx_iff_getElem?.mp (List.mem_reverse.mp hentry)
  unfold indexOf
  constructor
  · intro h
    obtain ⟨entry, hfound, rfl⟩ := Option.map_eq_some_iff.mp h
    have hword : entry.1 = normalised word := by simpa using List.find?_some hfound
    rw [hplace entry (List.mem_of_find?_eq_some hfound), hword]
  · intro h
    have hmem : (normalised word, index) ∈ words.zipIdx.reverse :=
      List.mem_reverse.mpr (List.mem_zipIdx_iff_getElem?.mpr h)
    have hsome : (words.zipIdx.reverse.find? (fun entry => entry.1 = normalised word)).isSome :=
      List.find?_isSome.mpr ⟨_, hmem, decide_eq_true rfl⟩
    obtain ⟨entry, hfound⟩ := Option.isSome_iff_exists.mp hsome
    have hword : entry.1 = normalised word := by simpa using List.find?_some hfound
    have hentry := hplace entry (List.mem_of_find?_eq_some hfound)
    rw [hword, ← h] at hentry
    obtain ⟨hlt, -⟩ := List.getElem?_eq_some_iff.mp h
    rw [hfound, Option.map_some, (List.getElem?_inj hlt hwords.distinct).mp hentry.symm]

theorem index_lt (hwords : Wordlist words) {word : Text} {index : Nat} (h : indexOf words word = some index) :
    index < 2 ^ BITS_PER_WORD := by
  obtain ⟨hlt, -⟩ := List.getElem?_eq_some_iff.mp ((indexOf_eq hwords).mp h)
  rw [hwords.length_eq] at hlt
  exact hlt

/-! ## Indices -/

/-- The indices of a key's words. -/
def wordCodes (sha256 : Bytes → ByteArr 32) (key : RecoveryKey) : List Nat :=
  (List.range RECOVERY_WORD_COUNT).map (groupAt BITS_PER_WORD (bitAt (checksummed sha256 key)))

theorem wordCodes_lt : ∀ v ∈ wordCodes sha256 key, v < 2 ^ BITS_PER_WORD := by
  intro v hv
  obtain ⟨index, -, rfl⟩ := List.mem_map.mp hv
  exact groupAt_lt (bitAt_lt _) index

theorem length_wordCodes : (wordCodes sha256 key).length = RECOVERY_WORD_COUNT := by
  rw [wordCodes, List.length_map, List.length_range]

theorem length_checksummed : (checksummed sha256 key).length = 33 := by
  rw [checksummed, List.length_append, key.property]
  rfl

theorem stream_wordCodes : stream BITS_PER_WORD (wordCodes sha256 key) = octets (checksummed sha256 key) := by
  rw [wordCodes, stream_groups (bitAt_lt _), ← bits_octets, length_checksummed]
  rfl

/-- Behind the words already written, the loop writes the others in order. -/
theorem fold_words : ∀ (indices : List Nat) (done : Nat) (front : List Bool) (bytes : Bytes) (r : Nat),
    front.length = done * BITS_PER_WORD → octets bytes = front ++ List.replicate (indices.length * BITS_PER_WORD + r) false →
      octets ((indices.zipIdx done).foldl (fun bytes entry =>
        (List.range BITS_PER_WORD).foldl (fun bytes offset =>
          if (entry.1 >>> (BITS_PER_WORD - 1 - offset)) &&& 1 = 1 then setBit bytes (entry.2 * BITS_PER_WORD + offset)
          else bytes) bytes) bytes) = front ++ stream BITS_PER_WORD indices ++ List.replicate r false
  | [], _, front, bytes, r, _, h => by simpa using h
  | value :: indices, done, front, bytes, r, hdone, h => by
    have hbit : ∀ offset, (value >>> (BITS_PER_WORD - 1 - offset)) &&& 1 = 1 ↔
        value.testBit (BITS_PER_WORD - 1 - offset) = true := by
      intro offset
      rw [Nat.testBit_eq_decide_div_mod_eq, decide_eq_true_eq, Nat.and_one_is_mod, Nat.shiftRight_eq_div_pow]
    have hroom : octets bytes = front ++ List.replicate (BITS_PER_WORD + (indices.length * BITS_PER_WORD + r)) false := by
      rw [h, List.length_cons, Nat.succ_mul, Nat.add_comm (indices.length * BITS_PER_WORD), Nat.add_assoc]
    have hword := octets_setBits (fun offset => value.testBit (BITS_PER_WORD - 1 - offset)) BITS_PER_WORD hroom
    rw [← bitsBe_eq_map, hdone] at hword
    have hrest := fold_words indices (done + 1) (front ++ bitsBe BITS_PER_WORD value) _ r
      (by rw [List.length_append, length_bitsBe, hdone, Nat.succ_mul]) hword
    simp only [List.zipIdx_cons, List.foldl_cons, hbit, stream_cons]
    rw [List.append_assoc front] at hrest
    exact hrest

theorem octets_packIndices {indices : List Nat} (hcount : indices.length = RECOVERY_WORD_COUNT) :
    octets (packIndices indices) = stream BITS_PER_WORD indices := by
  have hzero : octets (List.replicate 33 0) = [] ++ List.replicate (indices.length * BITS_PER_WORD + 0) false := by
    rw [hcount]
    decide +kernel
  have hbits := fold_words indices 0 [] (List.replicate 33 0) 0 rfl hzero
  rwa [List.nil_append, List.replicate_zero, List.append_nil] at hbits

/-- Indices are read as a key exactly when they are the indices of its words. -/
theorem fromIndices_eq_ok {indices : List Nat} (hcount : indices.length = RECOVERY_WORD_COUNT)
    (hlt : ∀ v ∈ indices, v < 2 ^ BITS_PER_WORD) : fromIndices sha256 indices = .ok key ↔ indices = wordCodes sha256 key := by
  have hbits := octets_packIndices hcount
  have hlen : (packIndices indices).length = 33 := by
    have hcut := congrArg List.length hbits
    have htotal : RECOVERY_WORD_COUNT * BITS_PER_WORD = 33 * 8 := rfl
    rw [length_octets, length_stream, hcount, htotal] at hcut
    omega
  -- twenty-four words of eleven bits are the key and one byte of its digest
  have hwhole : packIndices indices = checksummed sha256 key ↔ indices = wordCodes sha256 key := by
    constructor
    · intro h
      rw [h, ← stream_wordCodes] at hbits
      exact (stream_inj (by decide) wordCodes_lt hlt hbits).symm
    · intro h
      apply octets_inj
      rw [hbits, h, stream_wordCodes]
  rw [← hwhole]
  unfold fromIndices
  dsimp only
  have htake : (packIndices indices).takeD 32 0 = (packIndices indices).take 32 := List.takeD_eq_take 0 (by omega)
  constructor
  · intro h
    obtain ⟨hsum, h⟩ := guard_eq_ok.mp h
    have hkey : (packIndices indices).takeD 32 0 = key.val := congrArg Subtype.val (Except.ok.inj h)
    rw [hkey] at hsum htake
    obtain ⟨hlast, hbyte⟩ := List.getElem?_eq_some_iff.mp (not_not.mp hsum)
    have hdrop : (packIndices indices).drop 32 = [(packIndices indices)[32]] := by
      rw [List.drop_eq_getElem_cons hlast, List.drop_of_length_le (by omega)]
    calc packIndices indices
        = (packIndices indices).take 32 ++ (packIndices indices).drop 32 := (List.take_append_drop 32 _).symm
      _ = checksummed sha256 key := by rw [hdrop, hbyte, ← htake, checksummed]
  · intro h
    have hkey : (packIndices indices).takeD 32 0 = key.val := by
      rw [htake, h, checksummed, List.take_left' key.property]
    have hlast : (packIndices indices)[32]? = some ((sha256 key.val).val.head?.getD 0) := by
      rw [h, checksummed, List.getElem?_append_right (le_of_eq key.property), key.property]
      rfl
    refine guard_eq_ok.mpr ⟨?_, ?_⟩
    · rw [hlast, hkey]
      exact not_not.mpr rfl
    · exact congrArg Except.ok (Subtype.ext hkey)

/-! ## Words -/

theorem resolveWords_eq_ok (hwords : Wordlist words) : ∀ {typed : List Text} {position : Nat} {indices : List Nat},
    resolveWords words typed position = .ok indices ↔ typed.map (indexOf words) = indices.map some
  | [], position, indices => by
    rw [resolveWords]
    cases indices <;> simp
  | word :: typed, position, indices => by
    rw [resolveWords]
    cases hindex : indexOf words word with
    | none => cases indices <;> simp [hindex]
    | some index =>
      have hsmall : index < 2 ^ 16 := lt_trans (index_lt hwords hindex) (by decide)
      dsimp only
      rw [bind_eq_ok, if_pos hsmall]
      constructor
      · intro h
        obtain ⟨rest, hrest, h⟩ := h
        cases h
        rw [List.map_cons, hindex, (resolveWords_eq_ok hwords).mp hrest, List.map_cons]
      · intro h
        cases indices with
        | nil => cases h
        | cons found rest =>
          rw [List.map_cons, List.map_cons, hindex, List.cons.injEq, Option.some.injEq] at h
          obtain ⟨rfl, hrest⟩ := h
          exact ⟨rest, (resolveWords_eq_ok hwords).mpr hrest, rfl⟩

theorem toWords_eq (hwords : Wordlist words) :
    (wordCodes sha256 key).map (fun index => words[index]?) = (toWords words sha256 key).map some := by
  rw [toWords, wordCodes, List.map_map, List.map_map]
  apply List.map_congr_left
  intro index _
  have hlt : groupAt BITS_PER_WORD (bitAt (checksummed sha256 key)) index < words.length := by
    rw [hwords.length_eq]
    exact groupAt_lt (bitAt_lt _) index
  simp only [Function.comp_apply, wordAt, List.getElem?_eq_getElem hlt, Option.getD_some]

theorem length_toWords : (toWords words sha256 key).length = RECOVERY_WORD_COUNT := by
  rw [toWords, List.length_map, List.length_range]

/-- Words are read as a key exactly when, trimmed and in lower case, they are its words. -/
theorem fromWords_eq_ok (hwords : Wordlist words) {typed : List Text} :
    fromWords words sha256 typed = .ok key ↔ typed.map normalised = toWords words sha256 key := by
  have hplaces : typed.map (indexOf words) = (wordCodes sha256 key).map some ↔ typed.map normalised = toWords words sha256 key := by
    have hall : typed.map (indexOf words) = (wordCodes sha256 key).map some ↔
        typed.map (fun word => some (normalised word)) = (wordCodes sha256 key).map (fun index => words[index]?) := by
      apply map_eq_map
      intro word index _
      rw [indexOf_eq hwords, eq_comm]
    rw [hall, toWords_eq hwords, ← Function.comp_def, ← List.map_map]
    exact (List.map_injective_iff.mpr (Option.some_injective Text)).eq_iff
  rw [← hplaces]
  unfold fromWords
  constructor
  · intro h
    obtain ⟨hcount, h⟩ := guard_eq_ok.mp h
    obtain ⟨indices, hread, h⟩ := bind_eq_ok.mp h
    have hindices := (resolveWords_eq_ok hwords).mp hread
    have hlen := congrArg List.length hindices
    rw [List.length_map, List.length_map] at hlen
    rw [(fromIndices_eq_ok (by rw [← hlen, not_not.mp hcount]) ?_).mp h] at hindices
    · exact hindices
    · intro v hv
      have hmem : some v ∈ typed.map (indexOf words) := by
        rw [hindices]
        exact List.mem_map_of_mem hv
      obtain ⟨word, -, hword⟩ := List.mem_map.mp hmem
      exact index_lt hwords hword
  · intro h
    have hlen := congrArg List.length h
    rw [List.length_map, List.length_map, length_wordCodes] at hlen
    refine guard_eq_ok.mpr ⟨not_not.mpr hlen, bind_eq_ok.mpr ⟨_, (resolveWords_eq_ok hwords).mpr h, ?_⟩⟩
    exact (fromIndices_eq_ok length_wordCodes wordCodes_lt).mpr rfl

theorem dropWhile_plain {p : Char → Bool} : ∀ {l : List Char}, (∀ ch ∈ l, p ch = false) → l.dropWhile p = l
  | [], _ => rfl
  | ch :: l, h => by rw [List.dropWhile_cons_of_neg (by simp [h ch List.mem_cons_self])]

theorem normalised_word (hwords : Wordlist words) {word : Text} (h : word ∈ words) : normalised word = word := by
  have hletters := (hwords.lowercase word h).2
  have hspace : ∀ ch ∈ word, isWhitespace ch = false := by
    intro ch hch
    obtain ⟨hlo, hhi⟩ := hletters ch hch
    have hlo : 97 ≤ ch.toNat := hlo
    have hhi : ch.toNat ≤ 122 := hhi
    simp only [isWhitespace, Bool.or_eq_false_iff, Bool.and_eq_false_iff, decide_eq_false_iff_not]
    omega
  have htrim : trim word = word := by
    rw [trim, dropWhile_plain hspace, dropWhile_plain (fun ch hch => hspace ch (List.mem_reverse.mp hch)), List.reverse_reverse]
  have hlower : ∀ ch ∈ word, toAsciiLowercase ch = ch := by
    intro ch hch
    have hlo : 97 ≤ ch.toNat := (hletters ch hch).1
    rw [toAsciiLowercase, if_neg]
    intro hupper
    have hhi : ch.toNat ≤ 90 := hupper.2
    omega
  rw [normalised, htrim]
  calc word.map toAsciiLowercase = word.map id := List.map_congr_left hlower
    _ = word := List.map_id word

theorem from_to_words (hwords : Wordlist words) (key : RecoveryKey) :
    fromWords words sha256 (toWords words sha256 key) = .ok key := by
  rw [fromWords_eq_ok hwords]
  have hmem : ∀ word ∈ toWords words sha256 key, word ∈ words := by
    intro word hword
    have hsome : some word ∈ (wordCodes sha256 key).map (fun index => words[index]?) := by
      rw [toWords_eq hwords]
      exact List.mem_map_of_mem hword
    obtain ⟨index, -, hindex⟩ := List.mem_map.mp hsome
    exact List.mem_of_getElem? hindex
  calc (toWords words sha256 key).map normalised
      = (toWords words sha256 key).map id := List.map_congr_left (fun word hword => normalised_word hwords (hmem word hword))
    _ = toWords words sha256 key := List.map_id _

/-! ## Both codes -/

/-- The codes of a recovery kit: what is written reads back, only what could have been written is read, and a compact code
with one character changed or two neighbours exchanged is refused. -/
theorem recovery_kit_codecs (hwords : Wordlist words) :
    (∀ key, fromWords words sha256 (toWords words sha256 key) = .ok key ∧ fromCompact (toCompact key) = .ok key) ∧
    (∀ typed key, fromWords words sha256 typed = .ok key ↔ typed.map normalised = toWords words sha256 key) ∧
    (∀ key, (toWords words sha256 key).length = RECOVERY_WORD_COUNT ∧
      (significant (toCompact key)).length = COMPACT_CHAR_COUNT) ∧
    (∀ text key, fromCompact text = .ok key ↔ (significant text).map folded = significant (toCompact key)) ∧
    (∀ l c r c' key, fromCompact (l ++ c :: r) = .ok key → isSignificant c = true → valueOf c' ≠ valueOf c →
      ∃ e, fromCompact (l ++ c' :: r) = .error e) ∧
    (∀ l c m d r key, fromCompact (l ++ c :: m ++ d :: r) = .ok key → isSignificant c = true → isSignificant d = true →
      significant m = [] → valueOf c ≠ valueOf d → ∃ e, fromCompact (l ++ d :: m ++ c :: r) = .error e) := by
  refine ⟨?_, ?_, ?_, ?_, ?_, ?_⟩
  · exact fun key => ⟨from_to_words hwords key, from_to_compact key⟩
  · exact fun typed key => fromWords_eq_ok hwords
  · exact fun key => ⟨length_toWords, length_significant (from_to_compact key)⟩
  · exact fun text key => fromCompact_folded
  · exact fun l c r c' key h hc hvalue => changed_rejected h hc hvalue
  · exact fun l c m d r key h hc hd hm hvalue => swapped_rejected h hc hd hm hvalue

/-- A letter by its place. -/
def letter (i : Nat) : Char := Char.ofNat (97 + i)

/-- 2048 words of three letters. -/
def Wordlist.sample : List Text :=
  (List.range WORDLIST_LEN).map (fun i => [letter (i / 676), letter (i / 26 % 26), letter (i % 26)])

theorem Wordlist.sample_lawful : Wordlist Wordlist.sample := by
  have hletter : ∀ i < 26, 'a' ≤ letter i ∧ letter i ≤ 'z' ∧ (letter i).toNat = 97 + i := by decide
  have hinj : ∀ i < 26, ∀ j < 26, letter i = letter j → i = j := by
    intro i hi j hj h
    have hnat := congrArg Char.toNat h
    rw [(hletter i hi).2.2, (hletter j hj).2.2] at hnat
    omega
  have hsmall : ∀ i ∈ List.range WORDLIST_LEN, i / 676 < 26 := by
    intro i hi
    have hlt : i < 2048 := List.mem_range.mp hi
    omega
  refine ⟨?_, ?_, ?_⟩
  · rw [sample, List.length_map, List.length_range]
  · apply List.Nodup.map_on _ List.nodup_range
    intro i hi j hj h
    simp only [List.cons.injEq, and_true] at h
    have hfirst := hinj _ (hsmall i hi) _ (hsmall j hj) h.1
    have hsecond := hinj _ (by omega) _ (by omega) h.2.1
    have hthird := hinj _ (by omega) _ (by omega) h.2.2
    omega
  · intro word hword
    obtain ⟨i, hi, rfl⟩ := List.mem_map.mp hword
    refine ⟨List.cons_ne_nil _ _, fun ch hch => ?_⟩
    have hrange : ∀ k < 26, ch = letter k → 'a' ≤ ch ∧ ch ≤ 'z' := by
      intro k hk heq
      rw [heq]
      exact ⟨(hletter k hk).1, (hletter k hk).2.1⟩
    simp only [List.mem_cons, List.not_mem_nil, or_false] at hch
    rcases hch with h | h | h
    · exact hrange _ (hsmall i hi) h
    · exact hrange _ (by omega) h
    · exact hrange _ (by omega) h

/-- The key of 32 clear octets under a digest that is clear. -/
theorem recovery_kit_codecs_sample :
    fromWords Wordlist.sample (fun _ => ByteArr.repeated 32 0)
        (toWords Wordlist.sample (fun _ => ByteArr.repeated 32 0) (ByteArr.repeated 32 0)) = .ok (ByteArr.repeated 32 0) ∧
      fromCompact (toCompact (ByteArr.repeated 32 0)) = .ok (ByteArr.repeated 32 0) :=
  (recovery_kit_codecs Wordlist.sample_lawful).1 (ByteArr.repeated 32 0)

end Misty
