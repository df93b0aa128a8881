import Misty.Lib.BigEndian
import Misty.Vault.Hlc

/- The bytes a reading is stored and sorted under: the wall time and the counter in
   big-endian order and the device id, so that the database's order of byte strings is the
   order of the clock.

   What is proved:
     1. `toSortBytes_lt_iff` — byte order is clock order.
     2. `fromSlice_eq_ok` — what is read is what a reading of the window is written as.
     3. `sort_bytes_isomorphism` — both, with the round trip.

   Correspondence (Rust ↔ Lean):
     `Hlc::{to_sort_bytes, from_sort_bytes, from_slice}` ↔ `Hlc.toSortBytes`, `fromSortBytes`, `fromSlice`
     `HLC_LEN`                                 ↔ `HLC_LEN` -/
namespace Misty

def HLC_LEN : Nat := 26

namespace Hlc

def toSortBytes (self : Hlc) : ByteArr HLC_LEN :=
  ⟨toBe 8 self.wallMs.val ++ (toBe 2 self.counter.val ++ self.deviceId.bytes.val), by
    rw [List.length_append, List.length_append, length_toBe, length_toBe, self.deviceId.bytes.property]
    rfl⟩

def fromSortBytes (bytes : ByteArr HLC_LEN) : Result Hlc :=
  let wall := bytes.val.take 8
  let rest := bytes.val.drop 8
  let counter := rest.take 2
  let device : ByteArr 16 := ⟨rest.drop 2, by rw [List.length_drop, List.length_drop, bytes.property]; rfl⟩
  new (Fin.ofNat (2 ^ 64) (ofBe wall)) (Fin.ofNat (2 ^ 16) (ofBe counter)) ⟨device⟩

def fromSlice (bytes : Bytes) : Result Hlc :=
  if h : bytes.length = HLC_LEN then fromSortBytes ⟨bytes, h⟩
  else .error (.storage s!"hlc_max is {bytes.length} bytes, expected {HLC_LEN}")

/-! ## Order -/

theorem lt_def (a b : Hlc) : a < b ↔ a.wallMs < b.wallMs ∨ a.wallMs = b.wallMs ∧
    (a.counter < b.counter ∨ a.counter = b.counter ∧ a.deviceId.bytes.val < b.deviceId.bytes.val) := by
  show a.key < b.key ↔ _
  unfold key
  rw [Prod.Lex.toLex_lt_toLex, Prod.Lex.toLex_lt_toLex]
  exact Iff.rfl

theorem wallMs_fits (h : Hlc) : h.wallMs.val < 256 ^ 8 := h.wallMs.isLt

theorem counter_fits (h : Hlc) : h.counter.val < 256 ^ 2 := h.counter.isLt

/-- Byte order is clock order. -/
theorem toSortBytes_lt_iff (a b : Hlc) : a.toSortBytes < b.toSortBytes ↔ a < b := by
  show a.toSortBytes.val < b.toSortBytes.val ↔ a < b
  unfold toSortBytes
  rw [append_lt_append_iff (by rw [length_toBe, length_toBe]), append_lt_append_iff (by rw [length_toBe, length_toBe]),
    toBe_lt_iff a.wallMs_fits b.wallMs_fits, toBe_inj a.wallMs_fits b.wallMs_fits, toBe_lt_iff a.counter_fits b.counter_fits,
    toBe_inj a.counter_fits b.counter_fits, lt_def, Fin.lt_def, Fin.lt_def, Fin.ext_iff, Fin.ext_iff]

theorem toSortBytes_injective : Function.Injective toSortBytes := by
  intro a b h
  rcases lt_trichotomy a b with hlt | heq | hgt
  · exact absurd (h ▸ (toSortBytes_lt_iff a b).mpr hlt) (lt_irrefl _)
  · exact heq
  · exact absurd (h ▸ (toSortBytes_lt_iff b a).mpr hgt) (lt_irrefl _)

/-! ## Round trip -/

theorem new_eq_ok {wallMs : U64} {counter : U16} {deviceId : DeviceId} {h : Hlc} :
    new wallMs counter deviceId = .ok h ↔ inWindow wallMs = true ∧ h = ⟨wallMs, counter, deviceId⟩ := by
  unfold new
  split
  · next hin => exact ⟨fun heq => ⟨hin, (Except.ok.inj heq).symm⟩, fun heq => by rw [heq.2]⟩
  · next hout => exact ⟨fun heq => (by cases heq), fun heq => absurd heq.1 hout⟩

theorem fromSortBytes_toSortBytes (a : Hlc) : fromSortBytes a.toSortBytes = new a.wallMs a.counter a.deviceId := by
  have hwall : a.toSortBytes.val.take 8 = toBe 8 a.wallMs.val := List.take_left' (length_toBe 8 _)
  have hrest : a.toSortBytes.val.drop 8 = toBe 2 a.counter.val ++ a.deviceId.bytes.val := List.drop_left' (length_toBe 8 _)
  have hcounter : (a.toSortBytes.val.drop 8).take 2 = toBe 2 a.counter.val := by rw [hrest, List.take_left' (length_toBe 2 _)]
  have hdevice : (a.toSortBytes.val.drop 8).drop 2 = a.deviceId.bytes.val := by rw [hrest, List.drop_left' (length_toBe 2 _)]
  unfold fromSortBytes
  dsimp only
  have hw : Fin.ofNat (2 ^ 64) (ofBe (a.toSortBytes.val.take 8)) = a.wallMs := by
    rw [hwall, ofBe_toBe a.wallMs_fits]
    exact Fin.ext (Nat.mod_eq_of_lt a.wallMs.isLt)
  have hc : Fin.ofNat (2 ^ 16) (ofBe ((a.toSortBytes.val.drop 8).take 2)) = a.counter := by
    rw [hcounter, ofBe_toBe a.counter_fits]
    exact Fin.ext (Nat.mod_eq_of_lt a.counter.isLt)
  rw [hw, hc]
  exact congrArg (fun bytes => new a.wallMs a.counter ⟨bytes⟩) (Subtype.ext hdevice)

/-- Twenty-six bytes are those of a reading. -/
theorem exists_toSortBytes (bytes : ByteArr HLC_LEN) : ∃ a : Hlc, a.toSortBytes = bytes ∧ a.wallMs.val = ofBe (bytes.val.take 8) := by
  have hlen : bytes.val.length = 26 := bytes.property
  have hw : (bytes.val.take 8).length = 8 := by rw [List.length_take, hlen]; rfl
  have hc : ((bytes.val.drop 8).take 2).length = 2 := by rw [List.length_take, List.length_drop, hlen]; rfl
  have hd : ((bytes.val.drop 8).drop 2).length = 16 := by rw [List.length_drop, List.length_drop, hlen]
  have hwall : ofBe (bytes.val.take 8) < 2 ^ 64 := by
    have hlt := ofBe_lt (bytes.val.take 8)
    rw [hw] at hlt
    exact hlt
  have hcounter : ofBe ((bytes.val.drop 8).take 2) < 2 ^ 16 := by
    have hlt := ofBe_lt ((bytes.val.drop 8).take 2)
    rw [hc] at hlt
    exact hlt
  refine ⟨⟨⟨_, hwall⟩, ⟨_, hcounter⟩, ⟨⟨(bytes.val.drop 8).drop 2, hd⟩⟩⟩, Subtype.ext ?_, rfl⟩
  show toBe 8 (ofBe (bytes.val.take 8)) ++ (toBe 2 (ofBe ((bytes.val.drop 8).take 2)) ++ (bytes.val.drop 8).drop 2) = bytes.val
  rw [toBe_ofBe hw, toBe_ofBe hc, List.take_append_drop, List.take_append_drop]

theorem fromSlice_eq_ok {bytes : Bytes} {a : Hlc} :
    fromSlice bytes = .ok a ↔ a.toSortBytes.val = bytes ∧ inWindow a.wallMs = true := by
  unfold fromSlice
  constructor
  · intro h
    split at h
    · next hlen =>
      obtain ⟨b, hb, -⟩ := exists_toSortBytes ⟨bytes, hlen⟩
      rw [← hb, fromSortBytes_toSortBytes] at h
      obtain ⟨hin, rfl⟩ := new_eq_ok.mp h
      exact ⟨congrArg Subtype.val hb, hin⟩
    · cases h
  · intro h
    obtain ⟨rfl, hin⟩ := h
    rw [dif_pos a.toSortBytes.property]
    exact (fromSortBytes_toSortBytes a).trans (new_eq_ok.mpr ⟨hin, rfl⟩)

/-- Sort bytes are an order isomorphism of the readings with the strings of twenty-six bytes, and inside the window reading them
inverts writing them. -/
theorem sort_bytes_isomorphism :
    (∀ a b : Hlc, (a.toSortBytes.val < b.toSortBytes.val ↔ a < b) ∧ (a.toSortBytes.val = b.toSortBytes.val ↔ a = b)) ∧
    (∀ a b : Hlc, a < b ↔ a.wallMs < b.wallMs ∨ a.wallMs = b.wallMs ∧
      (a.counter < b.counter ∨ a.counter = b.counter ∧ a.deviceId.bytes.val < b.deviceId.bytes.val)) ∧
    (∀ a : Hlc, MIN_WALL_MS ≤ a.wallMs.val ∧ a.wallMs.val < MAX_WALL_MS → fromSortBytes a.toSortBytes = .ok a) ∧
    (∀ bytes : Bytes, (∃ a, fromSlice bytes = .ok a) ↔
      bytes.length = HLC_LEN ∧ MIN_WALL_MS ≤ ofBe (bytes.take 8) ∧ ofBe (bytes.take 8) < MAX_WALL_MS) ∧
    (∀ (bytes : Bytes) (a : Hlc), fromSlice bytes = .ok a → a.toSortBytes.val = bytes) := by
  have hwindow : ∀ wallMs : U64, inWindow wallMs = true ↔ MIN_WALL_MS ≤ wallMs.val ∧ wallMs.val < MAX_WALL_MS := by
    intro wallMs
    unfold inWindow
    rw [Bool.and_eq_true, decide_eq_true_iff, decide_eq_true_iff]
  refine ⟨fun a b => ⟨toSortBytes_lt_iff a b, ?_⟩, lt_def, ?_, ?_, fun bytes a h => (fromSlice_eq_ok.mp h).1⟩
  · rw [← Subtype.ext_iff, toSortBytes_injective.eq_iff]
  · intro a h
    rw [fromSortBytes_toSortBytes]
    exact new_eq_ok.mpr ⟨(hwindow a.wallMs).mpr h, rfl⟩
  · intro bytes
    constructor
    · intro h
      obtain ⟨a, hread⟩ := h
      obtain ⟨rfl, hin⟩ := fromSlice_eq_ok.mp hread
      have htake : a.toSortBytes.val.take 8 = toBe 8 a.wallMs.val := List.take_left' (length_toBe 8 _)
      rw [htake, ofBe_toBe a.wallMs_fits]
      exact ⟨a.toSortBytes.property, (hwindow a.wallMs).mp hin⟩
    · intro h
      obtain ⟨hlen, hin⟩ := h
      obtain ⟨a, hbytes, hwall⟩ := exists_toSortBytes ⟨bytes, hlen⟩
      refine ⟨a, fromSlice_eq_ok.mpr ⟨congrArg Subtype.val hbytes, (hwindow a.wallMs).mpr ?_⟩⟩
      rw [hwall]
      exact hin

end Hlc

end Misty
