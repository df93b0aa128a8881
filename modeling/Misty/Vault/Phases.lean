import Misty.Vault.Sync
import Misty.Vault.Load

/- The phases of a merge: what a decoded change carries (`Carries`), what an object
merged into the copies does to them, and what the whole of phase 2 leaves
(`Merged`): untouched ids as they were, and nothing anywhere the objects held or
arriving do not lead to. -/
namespace Misty

open Std (ExtTreeMap)

variable {E : Externals} {vaultKey : ByteArr 32} {roster : Roster}

/-! ## Phase 1 -/

/-- What a change carries. -/
inductive Carries (E : Externals) (vaultKey : ByteArr 32) (roster : Roster) (change : RemoteChange) :
    Option Decoded → Prop
  | ignored {env : Envelope} : Envelope.parse change.envelope = .ok env → env.header.kind ≠ .item →
      env.header.kind ≠ .group → Carries E vaultKey roster change none
  | object {env : Envelope} {key : EpochKey} {payload : Bytes} {o : Decoded} :
      Envelope.parse change.envelope = .ok env → env.header.kind = .item ∨ env.header.kind = .group →
      epochKey E.prims vaultKey env.header.epoch = .ok key →
      Envelope.openWith E.prims change.envelope change.itemId key roster = .ok payload →
      decodePayload E.cbor env.header.kind payload = .ok o → o.itemId = change.itemId →
      Carries E vaultKey roster change (some o)

theorem decodeChange_eq_ok {change : RemoteChange} {o : Option Decoded} :
    decodeChange E vaultKey roster change = .ok o ↔ Carries E vaultKey roster change o := by
  constructor
  · intro h
    unfold decodeChange at h
    obtain ⟨env, henv, h⟩ := bind_eq_ok.mp h
    have hparse := mapError_eq_ok.mp henv
    dsimp only at h
    split at h
    · next hskip =>
      cases h
      exact .ignored hparse hskip.1 hskip.2
    · next hskip =>
      obtain ⟨key, hkey, h⟩ := bind_eq_ok.mp h
      obtain ⟨payload, hopen, h⟩ := bind_eq_ok.mp h
      obtain ⟨object, hobject, h⟩ := bind_eq_ok.mp h
      by_cases hid : object.itemId = change.itemId
      · simp only [hid, ne_eq, not_true_eq_false, if_false] at h
        cases h
        exact .object hparse (by tauto) (mapError_eq_ok.mp hkey) (mapError_eq_ok.mp hopen) hobject hid
      · simp only [hid, ne_eq, not_false_eq_true, if_true] at h
        cases h
  · intro h
    cases h with
    | ignored hparse h1 h2 =>
      refine bind_eq_ok.mpr ⟨_, mapError_eq_ok.mpr hparse, ?_⟩
      simp only [ne_eq, h1, h2, not_false_eq_true, and_self, if_true]
      rfl
    | @object env _ _ _ hparse hk hkey hopen hobject hid =>
      have hskip : ¬ (env.header.kind ≠ .item ∧ env.header.kind ≠ .group) := by tauto
      refine bind_eq_ok.mpr ⟨_, mapError_eq_ok.mpr hparse, ?_⟩
      simp only [hskip, if_false]
      refine bind_eq_ok.mpr ⟨_, mapError_eq_ok.mpr hkey, ?_⟩
      refine bind_eq_ok.mpr ⟨_, mapError_eq_ok.mpr hopen, ?_⟩
      refine bind_eq_ok.mpr ⟨_, hobject, ?_⟩
      simp only [hid, ne_eq, not_true_eq_false, if_false]
      rfl

theorem mem_of_decodeChanges : ∀ {changes : List RemoteChange} {decoded : List (RemoteChange × Decoded)}
    {ignored : Nat}, decodeChanges E vaultKey roster changes = .ok (decoded, ignored) →
    ∀ p ∈ decoded, p.1 ∈ changes ∧ decodeChange E vaultKey roster p.1 = .ok (some p.2)
  | [], _, _, h, p, hp => by
    cases h
    cases hp
  | change :: rest, decoded, ignored, h, p, hp => by
    obtain ⟨o, ho, h⟩ := bind_eq_ok.mp h
    obtain ⟨⟨decoded', ignored'⟩, hrest, h⟩ := bind_eq_ok.mp h
    cases o with
    | none =>
      cases h
      obtain ⟨hmem, hdec⟩ := mem_of_decodeChanges hrest p hp
      exact ⟨by simp [hmem], hdec⟩
    | some o =>
      cases h
      rcases List.mem_cons.mp hp with rfl | hp
      · exact ⟨by simp, ho⟩
      · obtain ⟨hmem, hdec⟩ := mem_of_decodeChanges hrest p hp
        exact ⟨by simp [hmem], hdec⟩

/-- Every change of a batch that carries an object is among the decoded ones. -/
theorem mem_decoded_of_mem : ∀ {changes : List RemoteChange} {decoded : List (RemoteChange × Decoded)}
    {ignored : Nat}, decodeChanges E vaultKey roster changes = .ok (decoded, ignored) →
    ∀ c ∈ changes, ∃ o, decodeChange E vaultKey roster c = .ok o ∧ ∀ o', o = some o' → (c, o') ∈ decoded
  | [], _, _, _, c, hc => by cases hc
  | change :: rest, decoded, ignored, h, c, hc => by
    obtain ⟨o, ho, h⟩ := bind_eq_ok.mp h
    obtain ⟨⟨decoded', ignored'⟩, hrest, h⟩ := bind_eq_ok.mp h
    have hsub : ∀ p ∈ decoded', p ∈ decoded := by
      intro p hp
      cases o with
      | none =>
        cases h
        exact hp
      | some o =>
        cases h
        exact List.mem_cons_of_mem _ hp
    rcases List.mem_cons.mp hc with rfl | hc
    · refine ⟨o, ho, ?_⟩
      rintro o' rfl
      cases h
      simp
    · obtain ⟨o', ho', hmem⟩ := mem_decoded_of_mem hrest c hc
      exact ⟨o', ho', fun x hx => hsub _ (hmem x hx)⟩

/-- The envelope of a change, stored as it is under what it carries, decodes to it. -/
theorem decodeRecord_of_decodeChange {change : RemoteChange} {o : Decoded}
    (h : decodeChange E vaultKey roster change = .ok (some o)) (seq : Option I64) (version : Option Bytes) :
    decodeRecord E vaultKey roster ⟨o.itemId, o.kind, seq, version, change.envelope, o.maxHlc⟩ =
      .ok (some o) := by
  cases decodeChange_eq_ok.mp h with
  | object hparse hk hkey hopen hobject hid =>
    have hkind := kind_of_decodePayload hk hobject
    rw [← hkind] at hk hobject
    rw [← hid] at hopen
    exact decodeRecord_eq_ok.mpr (.object hparse hkind.symm hk hkey hopen hobject rfl rfl)

/-! ## Phase 2 -/

theorem mergeDecoded_induct {fork : ForkIds} {P : Merging → Prop} :
    ∀ (decoded : List (RemoteChange × Decoded)) (m m' : Merging),
      (∀ p ∈ decoded, ∀ m m', P m → m.merge fork p.2 = .ok m' → P m') → P m →
      mergeDecoded fork decoded m = .ok m' → P m'
  | [], m, m', _, hm, h => by
    cases h
    exact hm
  | p :: rest, m, m', hstep, hm, h => by
    obtain ⟨m₁, h₁, h⟩ := bind_eq_ok.mp h
    refine mergeDecoded_induct rest m₁ m' (fun q hq => hstep q (by simp [hq])) ?_ h
    exact hstep p (by simp) m m₁ hm h₁

namespace Merging

variable {fork : ForkIds}

/-- What an object merged into the copies does to them. -/
inductive Step (fork : ForkIds) (m : Merging) : Decoded → Merging → Prop
  | item {x : Item} {ids : List ItemId} {items : ItemSet} {conflicts : List Conflict} :
      m.items.absorb fork x m.conflicts = (.ok ids, items, conflicts) →
      Step fork m (.item x) { m with
        items := items, conflicts := conflicts, touchedItems := m.touchedItems ++ ids }
  | group {g w : Group} : w.id = g.id →
      (m.groups.get g.id = none ∧ w = g ∨ ∃ own, m.groups.get g.id = some own ∧ own.merge g = .ok w) →
      Step fork m (.group g) { m with
        groups := m.groups.insert w, touchedGroups := m.touchedGroups ++ [g.id] }

theorem step_of_merge {m m' : Merging} {o : Decoded} (h : m.merge fork o = .ok m') :
    m.Step fork o m' := by
  cases o with
  | item x =>
    simp only [merge] at h
    split at h
    · cases h
    · next ids items conflicts habs =>
      cases h
      exact .item habs
  | group g =>
    simp only [merge] at h
    split at h
    · next own hown =>
      obtain ⟨w, hw, h⟩ := bind_eq_ok.mp h
      cases h
      obtain ⟨hid, -, rfl⟩ := Group.merge_eq_ok hw
      exact .group hid (.inr ⟨own, hown, hw⟩)
    · next hnone =>
      cases h
      exact .group rfl (.inl ⟨hnone, rfl⟩)

/-- The items held or arriving. -/
def incomingItems (items : ItemSet) (decoded : List (RemoteChange × Decoded)) : Set Item :=
  {x | items.get x.id = some x ∨ ∃ p ∈ decoded, p.2 = .item x}

/-- The groups held or arriving. -/
def incomingGroups (groups : GroupMap) (decoded : List (RemoteChange × Decoded)) : Set Group :=
  {g | groups.get g.id = some g ∨ ∃ p ∈ decoded, p.2 = .group g}

/-- Copies that are as they were where they are not reported as touched, and that hold
nothing the objects held or arriving do not lead to. -/
structure Within (fork : ForkIds) (items : ItemSet) (groups : GroupMap)
    (decoded : List (RemoteChange × Decoded)) (m : Merging) : Prop where
  sameItems : ∀ i ∉ m.touchedItems, m.items.get i = items.get i
  sameGroups : ∀ i ∉ m.touchedGroups, m.groups.get i = groups.get i
  heldItems : ∀ i y, m.items.get i = some y →
    (ItemSet.arena fork).Arrives (incomingItems items decoded) i y.secret
  reportedItems : ∀ i ∈ m.touchedItems,
    ∃ s, (ItemSet.arena fork).Arrives (incomingItems items decoded) i s
  heldGroups : ∀ i y, m.groups.get i = some y → ∃ g ∈ incomingGroups groups decoded, g.id = i
  reportedGroups : ∀ i ∈ m.touchedGroups, ∃ g ∈ incomingGroups groups decoded, g.id = i

theorem Within.start (fork : ForkIds) (items : ItemSet) (groups : GroupMap)
    (decoded : List (RemoteChange × Decoded)) :
    Within fork items groups decoded ⟨items, groups, [], [], []⟩ where
  sameItems _ _ := rfl
  sameGroups _ _ := rfl
  heldItems i y hy := by
    have hid := ItemSet.id_of_get hy
    rw [← hid] at hy
    exact ⟨y, .base (.inl hy), hid, rfl⟩
  reportedItems _ h := by cases h
  heldGroups i y hy := by
    have hid := GroupMap.id_of_get hy
    rw [← hid] at hy
    exact ⟨y, .inl hy, hid⟩
  reportedGroups _ h := by cases h

theorem Within.step {items : ItemSet} {groups : GroupMap} {decoded : List (RemoteChange × Decoded)}
    {m m' : Merging} (h : Within fork items groups decoded m) {p : RemoteChange × Decoded}
    (hp : p ∈ decoded) (hstep : m.Step fork p.2 m') : Within fork items groups decoded m' := by
  obtain ⟨change, o⟩ := p
  cases hstep with
  | @item x ids items' conflicts habs =>
    obtain ⟨t, habsorb, hmem⟩ := ItemSet.absorb_spec habs
    obtain ⟨hheld, hreported⟩ := habsorb.arrives h.heldItems (.inr ⟨_, hp, rfl⟩)
    refine { h with sameItems := ?_, heldItems := hheld, reportedItems := ?_ }
    · intro i hi
      rw [List.mem_append, not_or] at hi
      rw [← h.sameItems i hi.1]
      exact habsorb.unchanged i (fun ht => hi.2 ((hmem i).mpr ht))
    · intro i hi
      rcases List.mem_append.mp hi with hi | hi
      · exact h.reportedItems i hi
      · exact hreported i ((hmem i).mp hi)
  | @group g w hw _ =>
    have hg : g ∈ incomingGroups groups decoded := .inr ⟨_, hp, rfl⟩
    refine { h with sameGroups := ?_, heldGroups := ?_, reportedGroups := ?_ }
    · intro i hi
      rw [List.mem_append, List.mem_singleton, not_or] at hi
      rw [GroupMap.get_insert, hw, if_neg (Ne.symm hi.2)]
      exact h.sameGroups i hi.1
    · intro i y hy
      rw [GroupMap.get_insert] at hy
      split at hy
      · next hi => exact ⟨g, hg, hw.symm.trans hi⟩
      · exact h.heldGroups i y hy
    · intro i hi
      rcases List.mem_append.mp hi with hi | hi
      · exact h.reportedGroups i hi
      · exact ⟨g, hg, (List.mem_singleton.mp hi).symm⟩

theorem within_of_mergeDecoded {items : ItemSet} {groups : GroupMap}
    {decoded : List (RemoteChange × Decoded)} {m : Merging}
    (h : mergeDecoded fork decoded ⟨items, groups, [], [], []⟩ = .ok m) :
    Within fork items groups decoded m :=
  mergeDecoded_induct decoded _ m (fun _ hp _ _ hm hmerge => hm.step hp (step_of_merge hmerge))
    (.start fork items groups decoded) h

theorem holds_unique {m : Merging} {o o' : Decoded} (ho : m.Holds o) (ho' : m.Holds o')
    (hkind : o.kind = o'.kind) (hid : o.itemId = o'.itemId) : o = o' := by
  cases o with
  | item x =>
    cases o' with
    | item x' =>
      have hx : m.items.get x.id = some x := ho
      have hx' : m.items.get x'.id = some x' := ho'
      have hid' : x.id = x'.id := hid
      rw [hid', hx'] at hx
      cases hx
      rfl
    | group g => cases hkind
  | group g =>
    cases o' with
    | item x => cases hkind
    | group g' =>
      have hg : m.groups.get g.id = some g := ho
      have hg' : m.groups.get g'.id = some g' := ho'
      have hid' : g.id = g'.id := congrArg GroupId.fromItemId hid
      rw [hid', hg'] at hg
      cases hg
      rfl

/-- The bytes that are stored as they are carried exactly what the copies hold. -/
theorem mem_of_verbatim {decoded : List (RemoteChange × Decoded)} {m : Merging} {o : Decoded}
    {change : RemoteChange} (h : verbatim decoded m o = some change) (ho : m.Holds o) :
    (change, o) ∈ decoded := by
  obtain ⟨p, hp, rfl⟩ := Option.map_eq_some_iff.mp h
  obtain ⟨hmem, hsame⟩ := List.mem_filter.mp (List.mem_of_getLast? hp)
  obtain ⟨hkind, hid, hholds⟩ := of_decide_eq_true hsame
  rw [← holds_unique hholds ho hkind hid]
  exact hmem

/-- The copies hold something of the object's kind under its id. -/
def Occupied (m : Merging) (o : Decoded) : Prop := ∃ o', m.Holds o' ∧ o'.kind = o.kind ∧ o'.itemId = o.itemId

theorem occupied_item {m : Merging} {x : Item} : m.Occupied (.item x) ↔ ∃ y, m.items.get x.id = some y := by
  constructor
  · intro h
    obtain ⟨o', ho', hkind, hid⟩ := h
    cases o' with
    | item y =>
      have hid' : y.id = x.id := hid
      exact ⟨y, hid'.subst (motive := fun i => m.items.get i = some y) ho'⟩
    | group g => cases hkind
  · intro h
    obtain ⟨y, hy⟩ := h
    have hid := ItemSet.id_of_get hy
    rw [← hid] at hy
    exact ⟨.item y, hy, rfl, hid⟩

theorem occupied_group {m : Merging} {g : Group} : m.Occupied (.group g) ↔ ∃ w, m.groups.get g.id = some w := by
  constructor
  · intro h
    obtain ⟨o', ho', hkind, hid⟩ := h
    cases o' with
    | item x => cases hkind
    | group w =>
      have hid' : w.id = g.id := congrArg GroupId.fromItemId hid
      exact ⟨w, hid'.subst (motive := fun i => m.groups.get i = some w) ho'⟩
  · intro h
    obtain ⟨w, hw⟩ := h
    have hid := GroupMap.id_of_get hw
    rw [← hid] at hw
    exact ⟨.group w, hw, rfl, congrArg GroupId.asItemId hid⟩

/-- An object merged has its place afterwards, and no place is given up. -/
theorem Step.occupied {m m' : Merging} {o : Decoded} (h : m.Step fork o m') :
    m'.Occupied o ∧ ∀ p, m.Occupied p → m'.Occupied p := by
  cases h with
  | @item x ids items conflicts habs =>
    obtain ⟨t, habsorb, -⟩ := ItemSet.absorb_spec habs
    refine ⟨occupied_item.mpr habsorb.occupied.2, ?_⟩
    intro p hp
    cases p with
    | item y =>
      obtain ⟨z, hz⟩ := occupied_item.mp hp
      obtain ⟨z', hz', -⟩ := habsorb.rank_le y.id z hz
      exact occupied_item.mpr ⟨z', hz'⟩
    | group g =>
      obtain ⟨w, hw⟩ := occupied_group.mp hp
      exact occupied_group.mpr ⟨w, hw⟩
  | @group g w hw _ =>
    refine ⟨occupied_group.mpr ⟨w, by simp [hw]⟩, ?_⟩
    intro p hp
    cases p with
    | item y =>
      obtain ⟨z, hz⟩ := occupied_item.mp hp
      exact occupied_item.mpr ⟨z, hz⟩
    | group g' =>
      obtain ⟨z, hz⟩ := occupied_group.mp hp
      refine occupied_group.mpr ?_
      by_cases hid : w.id = g'.id
      · exact ⟨w, by simp [hid]⟩
      · exact ⟨z, by simp [hid, hz]⟩

theorem occupied_of_mergeDecoded : ∀ {decoded : List (RemoteChange × Decoded)} {m m' : Merging},
    mergeDecoded fork decoded m = .ok m' →
    (∀ p ∈ decoded, m'.Occupied p.2) ∧ ∀ o, m.Occupied o → m'.Occupied o
  | [], m, m', h => by
    cases h
    exact ⟨by simp, fun _ ho => ho⟩
  | p :: rest, m, m', h => by
    obtain ⟨m₁, h₁, h⟩ := bind_eq_ok.mp h
    obtain ⟨hp, hold⟩ := (step_of_merge h₁).occupied
    obtain ⟨hrest, hold'⟩ := occupied_of_mergeDecoded h
    refine ⟨?_, fun o ho => hold' o (hold o ho)⟩
    intro q hq
    rcases List.mem_cons.mp hq with rfl | hq
    · exact hold' _ hp
    · exact hrest q hq

/-! ## What was touched -/

theorem exists_of_forall₂ {α β : Type} {R : α → β → Prop} {l : List α} {l' : List β}
    (h : List.Forall₂ R l l') : ∀ a ∈ l, ∃ b ∈ l', R a b := by
  induction h with
  | nil => simp
  | cons hab _ ih =>
    intro a ha
    rcases List.mem_cons.mp ha with rfl | ha
    · exact ⟨_, by simp, hab⟩
    · obtain ⟨b, hb, hab⟩ := ih a ha
      exact ⟨b, by simp [hb], hab⟩

/-- The ids of the touched objects, in the order of their rows. -/
def touchedIds (self : Merging) : List ItemId :=
  sortDedup self.touchedItems ++ sortDedup (self.touchedGroups.map GroupId.asItemId)

theorem mem_touched {m : Merging} {o : Decoded} : .ok o ∈ m.touched ↔ m.Holds o ∧
    match o with
    | .item x => x.id ∈ m.touchedItems
    | .group g => g.id ∈ m.touchedGroups := by
  unfold touched
  rw [List.mem_append, List.mem_map, List.mem_map]
  constructor
  · rintro (⟨id, hid, h⟩ | ⟨id, hid, h⟩)
    · split at h
      · next x hx =>
        cases h
        obtain rfl := ItemSet.id_of_get hx
        exact ⟨hx, (mem_sortDedup _ _).mp hid⟩
      · cases h
    · split at h
      · next g hg =>
        cases h
        obtain rfl := GroupMap.id_of_get hg
        refine ⟨hg, ?_⟩
        simpa [sortDedupGroups] using hid
      · cases h
  · intro h
    cases o with
    | item x =>
      obtain ⟨hx, hid⟩ := h
      have hx' : m.items.get x.id = some x := hx
      exact .inl ⟨x.id, (mem_sortDedup _ _).mpr hid, by rw [hx']⟩
    | group g =>
      obtain ⟨hg, hid⟩ := h
      have hg' : m.groups.get g.id = some g := hg
      refine .inr ⟨g.id, ?_, by rw [hg']⟩
      simpa [sortDedupGroups] using hid

theorem forall₂_touchedIds (m : Merging) :
    List.Forall₂ (fun x i => ∀ o, x = .ok o → o.itemId = i) m.touched m.touchedIds := by
  have hmap : ∀ {α : Type} (f : α → Result Decoded) (g : α → ItemId) (ids : List α),
      (∀ i o, f i = .ok o → o.itemId = g i) →
      List.Forall₂ (fun x i => ∀ o, x = .ok o → o.itemId = i) (ids.map f) (ids.map g) := by
    intro α f g ids hfg
    rw [List.forall₂_map_left_iff, List.forall₂_map_right_iff, List.forall₂_same]
    intro i _ o ho
    exact hfg i o ho
  have hgroups : sortDedup (m.touchedGroups.map GroupId.asItemId) =
      (sortDedupGroups m.touchedGroups).map GroupId.asItemId := by
    unfold sortDedupGroups
    rw [List.map_map]
    exact (List.map_id _).symm
  unfold touched touchedIds
  rw [hgroups]
  refine List.rel_append ?_ (hmap _ _ _ ?_)
  · rw [← List.map_id (sortDedup m.touchedItems), List.map_map]
    refine hmap _ _ _ ?_
    intro i o ho
    dsimp only [Function.comp, id] at ho
    split at ho
    · next x hx =>
      cases ho
      exact ItemSet.id_of_get hx
    · cases ho
  · intro i o ho
    split at ho
    · next g hg =>
      cases ho
      exact congrArg GroupId.asItemId (GroupMap.id_of_get hg)
    · cases ho

theorem ids_of_touched {α : Type} {R : Result Decoded → α → Prop} {id : α → ItemId} {m : Merging}
    {rows : List α} (hR : ∀ x a, R x a → ∃ o, x = .ok o ∧ id a = o.itemId)
    (h : List.Forall₂ R m.touched rows) : rows.map id = m.touchedIds := by
  have hall : ∀ (xs : List (Result Decoded)) (ids : List ItemId) (rows : List α),
      List.Forall₂ (fun x i => ∀ o, x = .ok o → o.itemId = i) xs ids → List.Forall₂ R xs rows →
      rows.map id = ids := by
    intro xs ids rows hids
    induction hids generalizing rows with
    | nil =>
      intro h
      cases h
      rfl
    | cons hx _ ih =>
      intro h
      cases h with
      | cons ha hrest =>
        obtain ⟨o, ho, hid⟩ := hR _ _ ha
        rw [List.map_cons, ih _ hrest, hid, hx o ho]
  exact hall _ _ _ m.forall₂_touchedIds h

theorem mem_touchedIds {m : Merging} {i : ItemId} :
    i ∈ m.touchedIds ↔ i ∈ m.touchedItems ∨ GroupId.fromItemId i ∈ m.touchedGroups := by
  simp only [touchedIds, List.mem_append, mem_sortDedup, List.mem_map]
  constructor
  · rintro (h | ⟨g, hg, rfl⟩)
    · exact .inl h
    · exact .inr hg
  · rintro (h | h)
    · exact .inl h
    · exact .inr ⟨_, h, rfl⟩

end Merging

end Misty
