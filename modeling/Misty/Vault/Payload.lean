import Misty.Vault.State

/- What the payload codec keeps. Everything written reads back as it was; what is read is
   valid, and written again it comes back to the same bytes (`payload_codec`). Reading drops
   nothing either: the record of the object read is the record read, up to the order the
   entries of a set or a map stood in (`ItemWire.intoItem_same`). -/
namespace Misty

open Std (ExtTreeMap)

/-! ## Entries -/

/-- A loop that went through saw every key once, and none that was there before. -/
theorem of_collectEntries {κ ν : Type} [LinearOrder κ] {field : String} :
    ∀ {l : List (κ × ν)} {m m' : ExtTreeMap κ ν}, collectEntries field l m = .ok m' →
      l.Pairwise (fun a b => a.1 ≠ b.1) ∧ ∀ p ∈ l, m[p.1]? = none
  | [], m, m', _ => ⟨.nil, by simp⟩
  | (key, value) :: rest, m, m', h => by
    simp only [collectEntries] at h
    split at h
    · cases h
    next hkey =>
      obtain ⟨hpairwise, hnew⟩ := of_collectEntries h
      have hfresh : ∀ p ∈ rest, key ≠ p.1 ∧ m[p.1]? = none := by
        intro p hp
        have hp' := hnew p hp
        rw [OrdMap.getElem?_insert] at hp'
        split at hp'
        · cases hp'
        · next hne => exact ⟨hne, hp'⟩
      refine ⟨.cons (fun p hp => (hfresh p hp).1) hpairwise, ?_⟩
      intro p hp
      cases List.mem_cons.mp hp with
      | inl heq =>
        rw [heq]
        simpa using hkey
      | inr hp => exact (hfresh p hp).2

theorem collectEntries_perm {κ ν : Type} [LinearOrder κ] {field : String} {l : List (κ × ν)} {m : ExtTreeMap κ ν}
    (h : collectEntries field l ∅ = .ok m) : m.toList.Perm l := by
  obtain ⟨hpairwise, hnew⟩ := of_collectEntries h
  obtain ⟨m', hok, hmem⟩ := collectEntries_ok field l ∅ hpairwise hnew
  rw [h] at hok
  cases hok
  have hnodup : l.Nodup := hpairwise.imp fun hne heq => hne (congrArg Prod.fst heq)
  refine (List.perm_ext_iff_of_nodup (OrdMap.nodup_toList m) hnodup).mpr ?_
  intro p
  rw [OrdMap.mem_toList, hmem]
  simp

theorem setFromWire_perm {T : Type} [LinearOrder T] {field : String} {entries : List (SetEntry T)} {set : OrSet T}
    (h : setFromWire field entries = .ok set) : (setToWire set).Perm entries := by
  unfold setFromWire at h
  split at h
  · cases h
  obtain ⟨map, hmap, hret⟩ := bind_eq_ok.mp h
  cases hret
  have hperm := (collectEntries_perm hmap).map fun p : T × OrSetEntry => (p.1, p.2.added, p.2.removed)
  simpa [setToWire, List.map_map, Function.comp_def] using hperm

theorem toWire_of_kindFromWire {byte : Byte} {k : OtpKind} (h : kindFromWire byte = .ok k) : k.toWire = byte := by
  unfold kindFromWire at h
  repeat' split at h
  all_goals cases h
  all_goals
    symm
    assumption

theorem toWire_of_algorithmFromWire {byte : Byte} {a : HashAlg} (h : algorithmFromWire byte = .ok a) :
    a.toWire = byte := by
  unfold algorithmFromWire at h
  repeat' split at h
  all_goals cases h
  all_goals
    symm
    assumption

/-! ## Records -/

/-- The same record, the entries of its sets and of its usage in any order. -/
def ItemWire.Same (a b : ItemWire) : Prop :=
  a.grp.Perm b.grp ∧ a.tag.Perm b.tag ∧ a.org.Perm b.org ∧ a.usg.Perm b.usg ∧
    { a with grp := b.grp, tag := b.tag, org := b.org, usg := b.usg } = b

/-- Reading drops nothing. -/
theorem ItemWire.intoItem_same {wire : ItemWire} {item : Item} (h : wire.intoItem = .ok item) :
    (ItemWire.fromItem item).Same { wire with v := ITEM_FORMAT_VERSION } := by
  unfold ItemWire.intoItem at h
  split at h
  · cases h
  obtain ⟨usage, husage, h₁⟩ := bind_eq_ok.mp h
  obtain ⟨kind, hkind, h₂⟩ := bind_eq_ok.mp h₁
  obtain ⟨algorithm, halgorithm, h₃⟩ := bind_eq_ok.mp h₂
  obtain ⟨groups, hgroups, h₄⟩ := bind_eq_ok.mp h₃
  obtain ⟨tags, htags, h₅⟩ := bind_eq_ok.mp h₄
  obtain ⟨origins, horigins, h₆⟩ := bind_eq_ok.mp h₅
  cases h₆
  refine ⟨setFromWire_perm hgroups, setFromWire_perm htags, setFromWire_perm horigins, collectEntries_perm husage, ?_⟩
  have hpin : (wire.pin.value.map SecretBytes.mk).map SecretBytes.bytes = wire.pin.value := by
    rw [Option.map_map]
    exact Option.map_id' ..
  simp only [ItemWire.fromItem, toWire_of_kindFromWire hkind, toWire_of_algorithmFromWire halgorithm, hpin]

/-! ## Payloads -/

variable {C : Cbor}

/-- What a payload decodes to is the record that was read, turned into a valid item. -/
theorem of_decodeItem {payload : Bytes} {item : Item} (h : decodeItem C payload = .ok item) :
    ∃ wire, C.readItem payload = .ok wire ∧ wire.intoItem = .ok item := by
  simp only [decodeItem, bind_eq_ok, cborError, mapError_eq_ok] at h
  obtain ⟨_, -, _, -, wire, hread, x, hinto, _, -, hret⟩ := h
  cases hret
  exact ⟨wire, hread, hinto⟩

theorem of_decodeGroup {payload : Bytes} {group : Group} (h : decodeGroup C payload = .ok group) :
    ∃ wire, C.readGroup payload = .ok wire ∧ wire.intoGroup = group := by
  simp only [decodeGroup, bind_eq_ok, cborError, mapError_eq_ok] at h
  obtain ⟨_, -, _, -, wire, hread, _, -, hret⟩ := h
  cases hret
  exact ⟨wire, hread, rfl⟩

/-- A valid item whose record fits is encoded as its record. -/
theorem encodeItem_of_fits {item : Item} (hvalid : item.validate = .ok ()) {payload : Bytes}
    (hwrite : C.writeItem (.fromItem item) = .ok payload) (hlen : payload.length ≤ MAX_ITEM_PAYLOAD_LEN) :
    encodeItem C item = .ok payload := by
  have hfits : checkPayloadLen "item" payload.length MAX_ITEM_PAYLOAD_LEN = .ok () := checkPayloadLen_eq_ok.mpr hlen
  simp only [encodeItem, hvalid, cborError, hwrite, Except.mapError, hfits, bind, Except.bind]
  rfl

theorem encodeGroup_of_fits {group : Group} (hvalid : group.validate = .ok ()) {payload : Bytes}
    (hwrite : C.writeGroup (.fromGroup group) = .ok payload) (hlen : payload.length ≤ MAX_GROUP_PAYLOAD_LEN) :
    encodeGroup C group = .ok payload := by
  have hfits : checkPayloadLen "group" payload.length MAX_GROUP_PAYLOAD_LEN = .ok () := checkPayloadLen_eq_ok.mpr hlen
  simp only [encodeGroup, hvalid, cborError, hwrite, Except.mapError, hfits, bind, Except.bind]
  rfl

/-- The payload codec keeps what it is given. What is encoded decodes to itself. What decodes is valid and holds
what the payload held, and where its own record fits it encodes to it, which is a fixpoint of decoding and encoding. -/
theorem payload_codec (C : Cbor) (hC : C.Faithful) :
    (∀ (item : Item) (payload : Bytes), encodeItem C item = .ok payload → decodeItem C payload = .ok item) ∧
    (∀ (payload : Bytes) (item : Item), decodeItem C payload = .ok item → item.validate = .ok () ∧
      (∃ wire, C.readItem payload = .ok wire ∧ (ItemWire.fromItem item).Same { wire with v := ITEM_FORMAT_VERSION }) ∧
      ∀ canonical, C.writeItem (.fromItem item) = .ok canonical → canonical.length ≤ MAX_ITEM_PAYLOAD_LEN →
        encodeItem C item = .ok canonical ∧ (decodeItem C canonical >>= encodeItem C) = .ok canonical) ∧
    (∀ (group : Group) (payload : Bytes), encodeGroup C group = .ok payload → decodeGroup C payload = .ok group) ∧
    (∀ (payload : Bytes) (group : Group), decodeGroup C payload = .ok group → group.validate = .ok () ∧
      (∃ wire, C.readGroup payload = .ok wire ∧ GroupWire.fromGroup group = { wire with v := GROUP_FORMAT_VERSION }) ∧
      ∀ canonical, C.writeGroup (.fromGroup group) = .ok canonical → canonical.length ≤ MAX_GROUP_PAYLOAD_LEN →
        encodeGroup C group = .ok canonical ∧ (decodeGroup C canonical >>= encodeGroup C) = .ok canonical) := by
  refine ⟨fun item payload h => decodeItem_encodeItem hC h, ?_, fun group payload h => decodeGroup_encodeGroup hC h, ?_⟩
  · intro payload item h
    have hvalid := validate_of_decodeItem h
    obtain ⟨wire, hread, hinto⟩ := of_decodeItem h
    refine ⟨hvalid, ⟨wire, hread, ItemWire.intoItem_same hinto⟩, ?_⟩
    intro canonical hwrite hlen
    have hencode := encodeItem_of_fits hvalid hwrite hlen
    refine ⟨hencode, ?_⟩
    rw [decodeItem_encodeItem hC hencode]
    exact hencode
  · intro payload group h
    have hvalid := validate_of_decodeGroup h
    obtain ⟨wire, hread, hinto⟩ := of_decodeGroup h
    refine ⟨hvalid, ⟨wire, hread, by rw [← hinto]; rfl⟩, ?_⟩
    intro canonical hwrite hlen
    have hencode := encodeGroup_of_fits hvalid hwrite hlen
    refine ⟨hencode, ?_⟩
    rw [decodeGroup_encodeGroup hC hencode]
    exact hencode

/-- A fresh token, written and read back. -/
theorem payload_codec_fresh : ∃ payload, encodeItem (Cbor.table [.fromItem (.fresh 1 9 0 4)] []) (.fresh 1 9 0 4) =
      .ok payload ∧ decodeItem (Cbor.table [.fromItem (.fresh 1 9 0 4)] []) payload = .ok (.fresh 1 9 0 4) := by
  have hok : (encodeItem (Cbor.table [.fromItem (.fresh 1 9 0 4)] []) (.fresh 1 9 0 4)).isOk = true := by decide
  cases h : encodeItem (Cbor.table [.fromItem (.fresh 1 9 0 4)] []) (.fresh 1 9 0 4) with
  | error e =>
    rw [h] at hok
    cases hok
  | ok payload => exact ⟨payload, rfl, (payload_codec _ (Cbor.table_faithful _ _)).1 _ _ h⟩

end Misty
