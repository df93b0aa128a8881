import Misty.Crypto.Envelope
import Mathlib.Order.Bounds.Defs

/- The padding of a payload, as a format: a length of four bytes, the payload and the least
   filler of zeros that makes whole blocks.

   What is proved:
     1. `pad_of_unpad` — what is read back is what would be written.
     2. `paddedLen_least` — the length written is the least positive number of blocks.
     3. `unpad_error` — what is turned away is turned away for a declared reason, and the
        two reads that could leave the buffer never do.
     4. `padding_exact` — the three together. -/
namespace Misty

/-- The whole blocks that hold the length and so many bytes. -/
def buckets (len : Nat) : Set Nat := { total | 0 < total ∧ PAD_BLOCK ∣ total ∧ len + 4 ≤ total }

theorem paddedLen_least (len : Nat) : IsLeast (buckets len) (paddedLen len) := by
  have hle := le_paddedLen len
  refine ⟨⟨by omega, Dvd.intro_left _ rfl, hle⟩, ?_⟩
  intro total htotal
  obtain ⟨-, hblocks, hfits⟩ := htotal
  obtain ⟨blocks, rfl⟩ := hblocks
  unfold paddedLen PAD_BLOCK at *
  omega

theorem paddedLen_eq_iff (len len' : Nat) : paddedLen len = paddedLen len' ↔ buckets len = buckets len' := by
  constructor
  · intro heq
    ext total
    have hleast := paddedLen_least len
    have hleast' := paddedLen_least len'
    constructor
    · intro htotal
      have hbound := hleast.2 htotal
      have hfits := hleast'.1.2.2
      exact ⟨htotal.1, htotal.2.1, by omega⟩
    · intro htotal
      have hbound := hleast'.2 htotal
      have hfits := hleast.1.2.2
      exact ⟨htotal.1, htotal.2.1, by omega⟩
  · intro hsame
    have hleast := paddedLen_least len
    rw [hsame] at hleast
    exact hleast.unique (paddedLen_least len')

theorem length_of_pad {payload padded : Bytes} (h : pad payload = .ok padded) : padded.length = paddedLen payload.length :=
  (unpad_pad h).2.1

theorem slice_declared {padded : Bytes} (h : ¬ (padded = [] ∨ padded.length % PAD_BLOCK ≠ 0)) :
    4 ≤ padded.length ∧ slice padded 0 4 = some (padded.take 4) := by
  have hpos : 0 < padded.length := List.length_pos_iff.mpr (fun hnil => h (.inl hnil))
  have hmod : padded.length % PAD_BLOCK = 0 := not_not.mp (fun hne => h (.inr hne))
  have hfour : 4 ≤ padded.length := by
    unfold PAD_BLOCK at hmod
    omega
  refine ⟨hfour, ?_⟩
  unfold slice
  rw [if_pos (by omega), List.drop_zero]

theorem eq_replicate_of_zero {filler : Bytes} (h : ¬ filler.any (fun byte => byte ≠ 0) = true) :
    filler = List.replicate filler.length 0 := by
  refine List.eq_replicate_iff.mpr ⟨rfl, ?_⟩
  intro byte hbyte
  by_contra hne
  exact h (List.any_eq_true.mpr ⟨byte, hbyte, decide_eq_true hne⟩)

/-- What is read back is what would be written. -/
theorem pad_of_unpad {padded payload : Bytes} (h : unpad padded = .ok payload) :
    payload.length ≤ MAX_PAYLOAD_LEN ∧ pad payload = .ok padded := by
  unfold unpad at h
  by_cases hblocks : padded = [] ∨ padded.length % PAD_BLOCK ≠ 0
  · rw [if_pos hblocks] at h
    cases h
  obtain ⟨hfour, hslice⟩ := slice_declared hblocks
  rw [if_neg hblocks, hslice] at h
  dsimp only at h
  split at h
  · cases h
  next havailable =>
  split at h
  · cases h
  next hmax =>
  split at h
  · cases h
  next hminimal =>
  split at h
  · cases h
  next hzeros =>
  cases h
  have hlen : ((padded.drop 4).take (ofLe (padded.take 4))).length = ofLe (padded.take 4) := by
    rw [List.length_take, List.length_drop]
    omega
  have hprefix : toLe 4 (ofLe (padded.take 4)) = padded.take 4 := by
    have hback := toLe_ofLe (padded.take 4)
    rwa [List.length_take, Nat.min_eq_left hfour] at hback
  have hfiller := eq_replicate_of_zero hzeros
  have hcount : ((padded.drop 4).drop (ofLe (padded.take 4))).length =
      paddedLen (ofLe (padded.take 4)) - (4 + ofLe (padded.take 4)) := by
    rw [List.length_drop, List.length_drop]
    omega
  refine ⟨by omega, ?_⟩
  unfold pad
  rw [hlen, if_neg hmax, hprefix, ← hcount, ← hfiller, List.append_assoc, List.take_append_drop, List.take_append_drop]

/-- The reasons to turn a buffer away. -/
def UnpadRejects (padded : Bytes) : CryptoError → Prop
  | .badPadding detail =>
    (detail = "padded length is not a positive multiple of 256" ∧ (padded = [] ∨ ¬ PAD_BLOCK ∣ padded.length)) ∨
    (detail = "padding is not the minimal amount for the declared length" ∧ paddedLen (ofLe (padded.take 4)) ≠ padded.length) ∨
    (detail = "padding bytes are not zero" ∧ ∃ byte ∈ padded.drop (4 + ofLe (padded.take 4)), byte ≠ 0)
  | .badPaddingLength declared available =>
    declared = ofLe (padded.take 4) ∧ available = padded.length - 4 ∧ available < declared
  | .payloadTooLarge len max => len = ofLe (padded.take 4) ∧ max = MAX_PAYLOAD_LEN ∧ max < len
  | _ => False

theorem unpad_error {padded : Bytes} {error : CryptoError} (h : unpad padded = .error error) : UnpadRejects padded error := by
  unfold unpad at h
  by_cases hblocks : padded = [] ∨ padded.length % PAD_BLOCK ≠ 0
  · rw [if_pos hblocks] at h
    cases h
    exact .inl ⟨rfl, hblocks.imp_right (fun hmod hdvd => hmod (Nat.mod_eq_zero_of_dvd hdvd))⟩
  obtain ⟨hfour, hslice⟩ := slice_declared hblocks
  rw [if_neg hblocks, hslice] at h
  dsimp only at h
  split at h
  · next havailable =>
    cases h
    exact ⟨rfl, rfl, havailable⟩
  split at h
  · next hmax =>
    cases h
    exact ⟨rfl, rfl, hmax⟩
  split at h
  · next hminimal =>
    cases h
    exact .inr (.inl ⟨rfl, hminimal⟩)
  split at h
  · next hzeros =>
    cases h
    obtain ⟨byte, hbyte, hne⟩ := List.any_eq_true.mp hzeros
    rw [List.drop_drop] at hbyte
    exact .inr (.inr ⟨rfl, byte, hbyte, of_decide_eq_true hne⟩)
  · cases h

/-- Padding is a bijection onto its image, its length is the least number of whole blocks, and whatever is not in the image is
turned away for a declared reason with every read inside the buffer. -/
theorem padding_exact (padded payload : Bytes) :
    (unpad padded = .ok payload ↔ payload.length ≤ MAX_PAYLOAD_LEN ∧ pad payload = .ok padded) ∧
    (pad payload = .ok padded → IsLeast (buckets payload.length) padded.length ∧
      ∀ other written, pad other = .ok written →
        (written.length = padded.length ↔ buckets other.length = buckets payload.length)) ∧
    (payload.length ≤ MAX_PAYLOAD_LEN → ∃ written, pad payload = .ok written) ∧
    (∀ error, unpad padded = .error error → UnpadRejects padded error) ∧
    (padded ≠ [] → PAD_BLOCK ∣ padded.length → 4 ≤ padded.length ∧ slice padded 0 4 = some (padded.take 4) ∧
      ∀ declared ≤ padded.length - 4, slice padded 4 declared = some ((padded.drop 4).take declared)) := by
  refine ⟨⟨pad_of_unpad, ?_⟩, ?_, ?_, fun error => unpad_error, ?_⟩
  · intro hpad
    exact (unpad_pad hpad.2).1
  · intro hpad
    rw [length_of_pad hpad]
    refine ⟨paddedLen_least payload.length, fun other written hother => ?_⟩
    rw [length_of_pad hother]
    exact paddedLen_eq_iff other.length payload.length
  · intro hmax
    unfold pad
    rw [if_neg (not_lt.mpr hmax)]
    exact ⟨_, rfl⟩
  · intro hne hblocks
    have hgood : ¬ (padded = [] ∨ padded.length % PAD_BLOCK ≠ 0) :=
      not_or.mpr ⟨hne, not_not.mpr (Nat.mod_eq_zero_of_dvd hblocks)⟩
    obtain ⟨hfour, hslice⟩ := slice_declared hgood
    refine ⟨hfour, hslice, ?_⟩
    intro declared hdeclared
    unfold slice
    rw [if_pos (by omega)]

end Misty
