import Misty.Vault.State

/- What `load` makes of rows with distinct ids: it returns exactly when every row
   decodes, and then it holds what the rows decode to (`loadRecords_holds`). -/
namespace Misty

variable {E : Externals} {vaultKey : ByteArr 32} {roster : Roster}

/-- The loaded model holds the object. -/
def Loaded.Holds (self : Loaded) : Decoded → Prop
  | .item x => self.items.get x.id = some x
  | .group g => self.groups.get g.id = some g

theorem eq_of_holds {items items' : ItemSet} {groups groups' : GroupMap}
    (hi : ∀ x : Item, items.get x.id = some x ↔ items'.get x.id = some x)
    (hg : ∀ g : Group, groups.get g.id = some g ↔ groups'.get g.id = some g) :
    items = items' ∧ groups = groups' := by
  constructor
  · refine ItemSet.ext_get (fun i => Option.ext (fun x => ?_))
    constructor
    · intro h
      have hid := ItemSet.id_of_get h
      rw [← hid] at h ⊢
      exact (hi x).mp h
    · intro h
      have hid := ItemSet.id_of_get h
      rw [← hid] at h ⊢
      exact (hi x).mpr h
  · refine GroupMap.ext_get (fun i => Option.ext (fun g => ?_))
    constructor
    · intro h
      have hid := GroupMap.id_of_get h
      rw [← hid] at h ⊢
      exact (hg g).mp h
    · intro h
      have hid := GroupMap.id_of_get h
      rw [← hid] at h ⊢
      exact (hg g).mpr h

/-- What a row reads as. -/
inductive Reads (E : Externals) (vaultKey : ByteArr 32) (roster : Roster) (r : StoredEnvelope) :
    Option Decoded → Prop
  | skipped {env : Envelope} : Envelope.parse r.envelope = .ok env → env.header.kind = r.kind →
      r.kind ≠ .item → r.kind ≠ .group → Reads E vaultKey roster r none
  | object {env : Envelope} {key : EpochKey} {payload : Bytes} {o : Decoded} :
      Envelope.parse r.envelope = .ok env → env.header.kind = r.kind → r.kind = .item ∨ r.kind = .group →
      epochKey E.prims vaultKey env.header.epoch = .ok key →
      Envelope.openWith E.prims r.envelope r.itemId key roster = .ok payload →
      decodePayload E.cbor r.kind payload = .ok o → o.itemId = r.itemId → o.maxHlc = r.hlcMax →
      Reads E vaultKey roster r (some o)

theorem checkIdentity_eq_ok {key id : ItemId} {payload stored : Hlc} :
    checkIdentity key id payload stored = .ok () ↔ id = key ∧ payload = stored := by
  unfold checkIdentity
  split
  · next h => simp [h]
  · next h =>
    rw [not_not.mp h]
    split
    · next h' => simp [h']
    · next h' => simp [not_not.mp h']

theorem decodeRecord_eq_ok {r : StoredEnvelope} {o : Option Decoded} :
    decodeRecord E vaultKey roster r = .ok o ↔ Reads E vaultKey roster r o := by
  constructor
  · intro h
    unfold decodeRecord at h
    obtain ⟨env, henv, h⟩ := bind_eq_ok.mp h
    have hparse := mapError_eq_ok.mp (mapError_eq_ok.mp henv)
    by_cases hkind : env.header.kind = r.kind
    swap
    · simp only [ne_eq, hkind, not_false_eq_true, if_true] at h
      cases h
    simp only [hkind, ne_eq, not_true_eq_false, if_false] at h
    by_cases hskip : r.kind ≠ .item ∧ r.kind ≠ .group
    · simp only [hskip, not_false_eq_true, and_self, if_true] at h
      cases h
      exact .skipped hparse hkind hskip.1 hskip.2
    · simp only [hskip, if_false] at h
      obtain ⟨key, hkey, h⟩ := bind_eq_ok.mp h
      obtain ⟨payload, hopen, h⟩ := bind_eq_ok.mp h
      obtain ⟨object, hobject, h⟩ := bind_eq_ok.mp h
      obtain ⟨_, hcheck, h⟩ := bind_eq_ok.mp h
      cases h
      obtain ⟨hid, hmax⟩ := checkIdentity_eq_ok.mp hcheck
      exact .object hparse hkind (by tauto) (mapError_eq_ok.mp hkey)
        (mapError_eq_ok.mp (mapError_eq_ok.mp hopen)) (mapError_eq_ok.mp hobject) hid hmax
  · intro h
    cases h with
    | skipped hparse hkind h1 h2 =>
      refine bind_eq_ok.mpr ⟨_, mapError_eq_ok.mpr (mapError_eq_ok.mpr hparse), ?_⟩
      simp only [hkind, ne_eq, not_true_eq_false, if_false, h1, h2, not_false_eq_true, and_self, if_true]
      rfl
    | object hparse hkind hk hkey hopen hobject hid hmax =>
      have hskip : ¬ (r.kind ≠ .item ∧ r.kind ≠ .group) := by tauto
      refine bind_eq_ok.mpr ⟨_, mapError_eq_ok.mpr (mapError_eq_ok.mpr hparse), ?_⟩
      simp only [hkind, ne_eq, not_true_eq_false, if_false, hskip]
      refine bind_eq_ok.mpr ⟨_, mapError_eq_ok.mpr hkey, ?_⟩
      refine bind_eq_ok.mpr ⟨_, mapError_eq_ok.mpr (mapError_eq_ok.mpr hopen), ?_⟩
      refine bind_eq_ok.mpr ⟨_, mapError_eq_ok.mpr hobject, ?_⟩
      exact bind_eq_ok.mpr ⟨_, checkIdentity_eq_ok.mpr ⟨hid, hmax⟩, rfl⟩

theorem itemId_of_decodeRecord {r : StoredEnvelope} {o : Decoded}
    (h : decodeRecord E vaultKey roster r = .ok (some o)) : o.itemId = r.itemId := by
  cases decodeRecord_eq_ok.mp h with
  | object _ _ _ _ _ _ hid _ => exact hid

theorem Loaded.take_some {l : Loaded} {o : Decoded} (hfresh : ∀ o', l.Holds o' → o'.itemId ≠ o.itemId) :
    ∃ l', l.take (some o) = .ok l' ∧ ∀ o', l'.Holds o' ↔ o' = o ∨ l.Holds o' := by
  cases o with
  | item x =>
    have hnone : l.items.get x.id = none := by
      cases hget : l.items.get x.id with
      | none => rfl
      | some y =>
        have hid := ItemSet.id_of_get hget
        exact absurd hid (hfresh (.item y) (by rw [← hid] at hget; exact hget))
    refine ⟨⟨l.hlc.observeAll x.everyHlc, l.items.replace x, l.groups⟩, ?_, ?_⟩
    · show (l.items.insert x >>= fun items => _) = _
      rw [ItemSet.insert, hnone]
      rfl
    · intro o'
      cases o' with
      | item y =>
        show (l.items.replace x).get y.id = some y ↔ Decoded.item y = .item x ∨ l.items.get y.id = some y
        have hne : l.items.get y.id = some y → y.id ≠ x.id := hfresh (.item y)
        rw [ItemSet.holds_replace, Decoded.item.injEq, and_iff_left_of_imp hne]
      | group g =>
        show l.groups.get g.id = some g ↔ Decoded.group g = .item x ∨ l.groups.get g.id = some g
        simp
  | group g =>
    refine ⟨⟨l.hlc.observeAll g.everyHlc, l.items, l.groups.insert g⟩, rfl, ?_⟩
    intro o'
    cases o' with
    | item y =>
      show l.items.get y.id = some y ↔ Decoded.item y = .group g ∨ l.items.get y.id = some y
      simp
    | group y =>
      show (l.groups.insert g).get y.id = some y ↔ Decoded.group y = .group g ∨ l.groups.get y.id = some y
      have hne : l.groups.get y.id = some y → y.id ≠ g.id :=
        fun h hid => hfresh (.group y) h (congrArg GroupId.asItemId hid)
      rw [GroupMap.holds_insert, Decoded.group.injEq, and_iff_left_of_imp hne]

/-- Rows with distinct ids that all decode are loaded. -/
theorem loadRecords_holds : ∀ (rows : List StoredEnvelope) (l : Loaded),
    (rows.map StoredEnvelope.itemId).Nodup →
    (∀ r ∈ rows, ∀ o, l.Holds o → o.itemId ≠ r.itemId) →
    (∀ r ∈ rows, ∃ o, decodeRecord E vaultKey roster r = .ok o) →
    ∃ l', loadRecords E vaultKey roster rows l = .ok l' ∧
      ∀ o, l'.Holds o ↔ l.Holds o ∨ ∃ r ∈ rows, decodeRecord E vaultKey roster r = .ok (some o)
  | [], l, _, _, _ => ⟨l, rfl, by simp⟩
  | r :: rows, l, hnodup, hfresh, hdec => by
    obtain ⟨hr, hnodup⟩ := List.nodup_cons.mp hnodup
    obtain ⟨o?, ho⟩ := hdec r (by simp)
    have htake : ∃ l₁, l.take o? = .ok l₁ ∧ ∀ o, l₁.Holds o ↔ o? = some o ∨ l.Holds o := by
      cases o? with
      | none => exact ⟨l, rfl, by simp⟩
      | some o =>
        obtain ⟨l₁, h₁, hholds⟩ := Loaded.take_some (l := l) (o := o) (by
          rw [itemId_of_decodeRecord ho]
          exact hfresh r (by simp))
        exact ⟨l₁, h₁, fun o' => by rw [hholds, Option.some.injEq, eq_comm]⟩
    obtain ⟨l₁, htake, hholds⟩ := htake
    have hfresh₁ : ∀ r' ∈ rows, ∀ o, l₁.Holds o → o.itemId ≠ r'.itemId := by
      intro r' hr' o hh
      rcases (hholds o).mp hh with rfl | hh
      · rw [itemId_of_decodeRecord ho]
        intro e
        exact hr (e ▸ List.mem_map_of_mem hr')
      · exact hfresh r' (by simp [hr']) o hh
    obtain ⟨l', hload, hall⟩ := loadRecords_holds rows l₁ hnodup hfresh₁
      (fun r' hr' => hdec r' (by simp [hr']))
    refine ⟨l', ?_, ?_⟩
    · simp only [loadRecords, ho, htake, bind, Except.bind]
      exact hload
    · intro o
      rw [hall, hholds, List.exists_mem_cons_iff, ho, Except.ok.injEq, ← or_assoc, or_comm (a := l.Holds o)]

theorem decodes_of_loadRecords : ∀ (rows : List StoredEnvelope) (l l' : Loaded),
    loadRecords E vaultKey roster rows l = .ok l' →
    ∀ r ∈ rows, ∃ o, decodeRecord E vaultKey roster r = .ok o
  | [], _, _, _, r, hr => by cases hr
  | r₀ :: rows, l, l', h, r, hr => by
    unfold loadRecords at h
    obtain ⟨o, ho, h⟩ := bind_eq_ok.mp h
    obtain ⟨l₁, -, h⟩ := bind_eq_ok.mp h
    rcases List.mem_cons.mp hr with rfl | hr
    · exact ⟨o, ho⟩
    · exact decodes_of_loadRecords rows l₁ l' h r hr

/-! ## The rows of a store -/

/-- A load from nothing. -/
abbrev Loaded.start (device : DeviceId) : Loaded := ⟨.new device, .new, .new⟩

theorem Loaded.not_holds_start (device : DeviceId) (o : Decoded) : ¬ (start device).Holds o := by
  cases o with
  | item x =>
    show ItemSet.new.get x.id ≠ some x
    simp [ItemSet.new, ItemSet.get]
  | group g =>
    show GroupMap.new.get g.id ≠ some g
    simp

/-- The rows of a store load exactly when each of them decodes. -/
theorem loadRecords_image (image : Image) (device : DeviceId) :
    (∃ l, loadRecords E vaultKey roster image.records (.start device) = .ok l) ↔
      ∀ (id : ItemId) (r : StoredEnvelope), image.rows[id]? = some r →
        ∃ o, decodeRecord E vaultKey roster r = .ok o := by
  have hrows : ∀ r, r ∈ image.records ↔ ∃ id : ItemId, image.rows[id]? = some r := by
    intro r
    rw [Image.mem_records]
    constructor
    · intro h
      exact ⟨_, h⟩
    · intro h
      obtain ⟨id, h⟩ := h
      rw [image.keyed id r h]
      exact h
  constructor
  · intro h id r hr
    obtain ⟨l, hload⟩ := h
    exact decodes_of_loadRecords _ _ _ hload r ((hrows r).mpr ⟨id, hr⟩)
  · intro h
    obtain ⟨l, hload, -⟩ := loadRecords_holds image.records (.start device) image.nodup_records
      (fun _ _ o ho => absurd ho (Loaded.not_holds_start device o)) (fun r hr => by
        obtain ⟨id, hr⟩ := (hrows r).mp hr
        exact h id r hr)
    exact ⟨l, hload⟩

theorem holds_of_loadRecords {image : Image} {device : DeviceId} {l : Loaded}
    (h : loadRecords E vaultKey roster image.records (.start device) = .ok l) (o : Decoded) :
    l.Holds o ↔ ∃ r, image.rows[o.itemId]? = some r ∧ decodeRecord E vaultKey roster r = .ok (some o) := by
  obtain ⟨l', hload, hholds⟩ := loadRecords_holds image.records (.start device) image.nodup_records
    (fun _ _ o ho => absurd ho (Loaded.not_holds_start device o)) (decodes_of_loadRecords _ _ _ h)
  rw [h] at hload
  cases hload
  rw [hholds, or_iff_right (Loaded.not_holds_start device o)]
  constructor
  · intro h
    obtain ⟨r, hr, hdec⟩ := h
    refine ⟨r, ?_, hdec⟩
    rw [itemId_of_decodeRecord hdec]
    exact Image.mem_records.mp hr
  · intro h
    obtain ⟨r, hr, hdec⟩ := h
    refine ⟨r, Image.mem_records.mpr ?_, hdec⟩
    rw [← itemId_of_decodeRecord hdec]
    exact hr

/-! ## Opening -/

section Opening

variable {S : Type} [LawfulStore S]

open LawfulStore (view Accepts)

/-- A vault as `open` returns it. -/
structure Opened (E : Externals) (store : S) (vaultKey : ByteArr 32) (device : DeviceIdentity)
    (roster : Roster) (v : Vault S) : Prop where
  load : loadRecords E vaultKey roster (view store).image.records (.start device.deviceId) =
    .ok ⟨v.hlc, v.items, v.groups⟩
  vaultKey : v.vaultKey = vaultKey
  device : v.device = device
  roster : v.roster = roster
  epoch : v.epoch = (view store).image.epoch
  view : view v.store = view store
  accepts : ∀ c, Accepts c store → Accepts c v.store

omit [LawfulStore S] in
theorem runStore_eq_ok {α : Type} {x : Io S α} {store s : S} {a : α} :
    runStore x store = .ok (a, s) ↔ x store = .ok a s := by
  unfold runStore
  cases x store with
  | ok b s' => simp
  | error e s' => simp

theorem opened_of_open {store : S} {device : DeviceIdentity} {v : Vault S}
    (h : Vault.open E store vaultKey device roster = .ok v) :
    Opened E store vaultKey device roster v := by
  unfold Vault.open at h
  obtain ⟨_, -, h⟩ := bind_eq_ok.mp h
  split at h
  · cases h
  obtain ⟨⟨epoch, s₁⟩, hepoch, h⟩ := bind_eq_ok.mp h
  obtain ⟨⟨records, s₂⟩, hrecords, h⟩ := bind_eq_ok.mp h
  obtain ⟨loaded, hload, h⟩ := bind_eq_ok.mp h
  cases h
  obtain ⟨hv₁, rfl, ha₁⟩ := (LawfulStore.epoch_spec store).of_ok (runStore_eq_ok.mp hepoch)
  obtain ⟨hv₂, rfl, ha₂⟩ := (LawfulStore.loadAll_spec s₁).of_ok (runStore_eq_ok.mp hrecords)
  rw [hv₁] at hload
  exact ⟨hload, rfl, rfl, rfl, rfl, hv₂.trans hv₁, fun c hc => ha₂ c (ha₁ c hc)⟩

end Opening

end Misty
