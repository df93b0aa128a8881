import Misty.Crypto.Identity
import Misty.Lib.Framing
import Misty.Lib.Text

/- The bytes a roster signature covers say which roster they are of: two rosters whose
   strings are of a length a roster may have, signed as the same bytes, have the same
   signer and the same devices (`Roster.signingBytes_inj`). The length prefixes of the
   strings are what makes it so; the count in front is not needed, since a record says
   where it ends. -/
namespace Misty

open Framing

theorem toLe_inj {k m n : Nat} (hm : m < 256 ^ k) (hn : n < 256 ^ k) (h : toLe k m = toLe k n) : m = n := by
  rw [← ofLe_toLe k m hm, ← ofLe_toLe k n hn, h]

/-! ## A record -/

theorem delimits_deviceId : Delimits (fun _ => True) (fun id : DeviceId => id.bytes.val) := by
  refine .of_width (fun id _ => id.bytes.property) ?_
  intro a b _ _ h
  cases a
  cases b
  simpa using Subtype.ext h

theorem delimits_byteArr (n : Nat) : Delimits (fun _ => True) (fun a : ByteArr n => a.val) :=
  .of_width (fun a _ => a.property) (fun _ _ _ _ h => Subtype.ext h)

theorem delimits_i64 : Delimits (fun _ => True) (fun z : I64 => toLe 8 (z.val % 2 ^ 64).toNat) := by
  refine .of_width (fun z _ => length_toLe 8 _) ?_
  intro a b _ _ h
  have hrange : ∀ z : I64, (z.val % 2 ^ 64).toNat < 256 ^ 8 := by
    intro z
    omega
  have hsame := toLe_inj (hrange a) (hrange b) h
  have ha := a.property
  have hb := b.property
  apply Subtype.ext
  omega

theorem delimits_strBytes : Delimits (fun t : Text => t.utf8Len < 2 ^ 32) strBytes := by
  refine ⟨?_⟩
  intro a b s t ha hb h
  have hlen : ∀ c : Text, c.utf8Len < 2 ^ 32 → min c.utf8.length (2 ^ 32 - 1) = c.utf8Len := by
    intro c hc
    rw [Text.length_utf8]
    omega
  simp only [strBytes, hlen a ha, hlen b hb, List.append_assoc] at h
  obtain ⟨hleft, hrest⟩ := List.append_inj h (by rw [length_toLe, length_toLe])
  have hsize : a.utf8Len = b.utf8Len := by
    refine toLe_inj ?_ ?_ hleft
    · omega
    · omega
  obtain ⟨htext, hst⟩ := List.append_inj hrest (by rw [Text.length_utf8, Text.length_utf8, hsize])
  exact ⟨Text.utf8_inj htext, hst⟩

theorem delimits_enrolledBy : Delimits (fun _ => True) (fun sponsor : Option DeviceId => match sponsor with
    | none => ([0] : Bytes)
    | some id => 1 :: id.bytes.val) := by
  refine ⟨?_⟩
  intro a b s t _ _ h
  cases a with
  | none =>
    cases b with
    | none => exact ⟨rfl, by simpa using h⟩
    | some id => simp at h
  | some id =>
    cases b with
    | none => simp at h
    | some other =>
      rw [List.cons_append, List.cons_append, List.cons.injEq] at h
      obtain ⟨hid, hst⟩ := delimits_deviceId.inj trivial trivial h.2
      exact ⟨congrArg some hid, hst⟩

/-- The strings of a record are short enough to be measured. -/
def DeviceRecord.Measured (record : DeviceRecord) : Prop :=
  record.name.utf8Len < 2 ^ 32 ∧ record.platform.utf8Len < 2 ^ 32

theorem DeviceRecord.delimits_signingBytes : Delimits DeviceRecord.Measured DeviceRecord.signingBytes := by
  refine .of_parts (fun record => (((((record.deviceId, record.ed25519Pub), record.name), record.platform),
      record.enrolledAt), record.enrolledBy))
    (((((delimits_deviceId.pair (delimits_byteArr 32)).pair delimits_strBytes).pair
      delimits_strBytes).pair delimits_i64).pair delimits_enrolledBy) ?_ (fun _ _ => rfl) ?_
  · intro record hmeasured
    exact ⟨⟨⟨⟨⟨trivial, trivial⟩, hmeasured.1⟩, hmeasured.2⟩, trivial⟩, trivial⟩
  · intro a b h
    cases a
    cases b
    simpa [and_assoc] using h

theorem DeviceRecord.signingBytes_ne_nil (record : DeviceRecord) : record.signingBytes ≠ [] := by
  intro h
  have hlength := congrArg List.length h
  simp only [signingBytes, List.length_append, record.deviceId.bytes.property, List.length_nil] at hlength
  omega

/-! ## A roster -/

variable {P : Primitives}

theorem DeviceRecord.measured_of_validate {record : DeviceRecord} (h : record.validate P = .ok ()) :
    record.Measured := by
  unfold DeviceRecord.validate at h
  split at h
  · cases h
  next hname =>
    split at h
    · cases h
    next hplatform =>
      unfold MAX_NAME_LEN at hname
      unfold MAX_PLATFORM_LEN at hplatform
      constructor
      · omega
      · omega

namespace Roster

/-- What `validate` checks: each record, and that no id repeats. -/
theorem validateDevices_ok : ∀ {devices : List DeviceRecord}, validateDevices P devices = .ok () →
    (∀ record ∈ devices, record.validate P = .ok ()) ∧ (devices.map DeviceRecord.deviceId).Nodup
  | [], _ => ⟨by simp, List.nodup_nil⟩
  | record :: rest, h => by
    obtain ⟨_, hrecord, h⟩ := bind_eq_ok.mp h
    split at h
    · cases h
    next hany =>
      obtain ⟨hall, hnodup⟩ := validateDevices_ok h
      refine ⟨?_, ?_⟩
      · intro r hr
        rcases List.mem_cons.mp hr with rfl | hr
        · exact hrecord
        · exact hall r hr
      · rw [List.map_cons, List.nodup_cons]
        refine ⟨?_, hnodup⟩
        intro hmem
        obtain ⟨other, hother, hid⟩ := List.mem_map.mp hmem
        exact hany (List.any_eq_true.mpr ⟨other, hother, by simpa using hid⟩)

theorem signingBytes_inj {a b : Roster} {s t : DeviceId} (ha : a.validate P = .ok ()) (hb : b.validate P = .ok ())
    (h : a.signingBytes s = b.signingBytes t) : a.devices = b.devices ∧ s = t := by
  simp only [signingBytes, List.append_assoc] at h
  have hrest := List.append_cancel_left h
  obtain ⟨_, hrest⟩ := List.append_inj hrest (by rw [length_toLe, length_toLe])
  obtain ⟨hsigner, hdevices⟩ := delimits_deviceId.inj trivial trivial hrest
  refine ⟨?_, hsigner⟩
  refine DeviceRecord.delimits_signingBytes.flatMap_inj (fun record _ => record.signingBytes_ne_nil) ?_ ?_ hdevices
  · exact fun record hr => DeviceRecord.measured_of_validate ((validateDevices_ok ha).1 record hr)
  · exact fun record hr => DeviceRecord.measured_of_validate ((validateDevices_ok hb).1 record hr)

end Roster

end Misty
