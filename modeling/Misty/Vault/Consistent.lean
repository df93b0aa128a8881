import Misty.Vault.Move
import Misty.Vault.Phases
import Misty.Vault.Backends

/- The model and the store never disagree, as long as the store refuses no commit and
   no rollback and no item and group meet under one id.

   `InStep` says it the way `load` does; `Consistent` says it row by row, and every
   move preserves that (`Move.consistent`). Items and groups are kept apart in the
   model but share the table, so a batch that brings both kinds under one id leaves
   one row for two objects. -/
namespace Misty

variable {S : Type} [LawfulStore S] (E : Externals)

open LawfulStore (view Accepts)

/-- `load` on the rows of the store gives back the vault's items and groups. -/
def InStep (v : Vault S) : Prop :=
  ∃ hlc, loadRecords E v.vaultKey v.roster (view v.store).image.records
    (.start v.device.deviceId) = .ok ⟨hlc, v.items, v.groups⟩

/-- Every row decodes, and the vault holds an object exactly when its row decodes to
it. -/
structure Consistent (v : Vault S) : Prop where
  decodes : ∀ (id : ItemId) (r : StoredEnvelope), (view v.store).image.rows[id]? = some r →
    ∃ o, decodeRecord E v.vaultKey v.roster r = .ok o
  holds_iff : ∀ o : Decoded, v.Holds o ↔ ∃ r, (view v.store).image.rows[o.itemId]? = some r ∧
    decodeRecord E v.vaultKey v.roster r = .ok (some o)

variable {E}

omit [LawfulStore S] in
theorem Vault.holds_iff (v : Vault S) (hlc : HlcClock) (o : Decoded) :
    v.Holds o ↔ (⟨hlc, v.items, v.groups⟩ : Loaded).Holds o := by
  cases o <;> exact Iff.rfl

theorem inStep_iff {v : Vault S} : InStep E v ↔ Consistent E v := by
  constructor
  · intro h
    obtain ⟨hlc, hload⟩ := h
    refine ⟨(loadRecords_image _ _).mp ⟨_, hload⟩, fun o => ?_⟩
    rw [v.holds_iff hlc, holds_of_loadRecords hload]
  · intro h
    obtain ⟨⟨hlc, items, groups⟩, hload⟩ := (loadRecords_image _ v.device.deviceId).mpr h.decodes
    have hsame : ∀ o : Decoded, (⟨hlc, items, groups⟩ : Loaded).Holds o ↔ v.Holds o :=
      fun o => (holds_of_loadRecords hload o).trans (h.holds_iff o).symm
    obtain ⟨rfl, rfl⟩ := eq_of_holds (fun x => hsame (.item x)) (fun g => hsame (.group g))
    exact ⟨hlc, hload⟩

/-! ## Moves -/

/-- Two kinds do not meet under one id. -/
theorem Consistent.unique {v : Vault S} (h : Consistent E v) {o o' : Decoded} (ho : v.Holds o)
    (ho' : v.Holds o') (hid : o.itemId = o'.itemId) : o = o' := by
  obtain ⟨r, hr, hdec⟩ := (h.holds_iff o).mp ho
  obtain ⟨r', hr', hdec'⟩ := (h.holds_iff o').mp ho'
  rw [hid, hr'] at hr
  cases hr
  rw [hdec'] at hdec
  cases hdec
  rfl

theorem Consistent.congr {v w : Vault S} (h : Consistent E v) (hkey : w.vaultKey = v.vaultKey)
    (hroster : w.roster = v.roster) (hrows : (view w.store).image.rows = (view v.store).image.rows)
    (hholds : ∀ o : Decoded, w.Holds o ↔ v.Holds o) : Consistent E w where
  decodes := by
    rw [hkey, hroster, hrows]
    exact h.decodes
  holds_iff o := by
    rw [hkey, hroster, hrows, hholds]
    exact h.holds_iff o

theorem rows_puts {α : Type} (id : α → ItemId) (row : α → StoredEnvelope) :
    ∀ (l : List α) (image : Image), (l.map id).Nodup → (∀ a ∈ l, (row a).itemId = id a) →
      (∀ a ∈ l, ((l.map (fun a => .put (row a))).foldl Write.apply image).rows[id a]? = some (row a)) ∧
      ∀ i ∉ l.map id, ((l.map (fun a => .put (row a))).foldl Write.apply image).rows[i]? = image.rows[i]?
  | [], _, _, _ => ⟨by simp, by simp⟩
  | a :: l, image, hnodup, hid => by
    obtain ⟨ha, hnodup⟩ := List.nodup_cons.mp hnodup
    obtain ⟨hin, hout⟩ := rows_puts id row l (image.put (row a)) hnodup (fun b hb => hid b (by simp [hb]))
    constructor
    · intro b hb
      rcases List.mem_cons.mp hb with rfl | hb
      · show ((l.map _).foldl Write.apply (image.put (row b))).rows[id b]? = _
        rw [hout _ ha, Image.rows_put, if_pos (hid b (by simp))]
      · exact hin b hb
    · intro i hi
      rw [List.map_cons, List.mem_cons, not_or] at hi
      show ((l.map _).foldl Write.apply (image.put (row a))).rows[i]? = _
      rw [hout i hi.2, Image.rows_put, if_neg]
      rw [hid a (by simp)]
      exact Ne.symm hi.1

/-- Objects stored under distinct ids, each in a row that decodes to it, replace what
was held under these ids. -/
theorem Consistent.puts {v w : Vault S} (h : Consistent E v) (hkey : w.vaultKey = v.vaultKey)
    (hroster : w.roster = v.roster) {rows : List (Decoded × StoredEnvelope)}
    (hdec : ∀ p ∈ rows, decodeRecord E v.vaultKey v.roster p.2 = .ok (some p.1))
    (hnodup : (rows.map (fun p => p.1.itemId)).Nodup)
    (himage : (view w.store).image =
      (rows.map (fun p => .put p.2)).foldl Write.apply (view v.store).image)
    (hholds : ∀ o : Decoded, w.Holds o ↔ (∃ p ∈ rows, p.1 = o) ∨
      v.Holds o ∧ o.itemId ∉ rows.map (fun p => p.1.itemId)) : Consistent E w := by
  obtain ⟨hin, hout⟩ := rows_puts (fun p => p.1.itemId) Prod.snd rows (view v.store).image hnodup
    (fun p hp => (itemId_of_decodeRecord (hdec p hp)).symm)
  rw [← himage] at hin hout
  constructor
  · intro id r hr
    rw [hkey, hroster]
    by_cases hid : id ∈ rows.map (fun p => p.1.itemId)
    · obtain ⟨p, hp, rfl⟩ := List.mem_map.mp hid
      rw [hin p hp] at hr
      cases hr
      exact ⟨_, hdec p hp⟩
    · rw [hout id hid] at hr
      exact h.decodes id r hr
  · intro o
    rw [hkey, hroster, hholds]
    by_cases hid : o.itemId ∈ rows.map (fun p => p.1.itemId)
    · obtain ⟨p, hp, hpo⟩ := List.mem_map.mp hid
      rw [← hpo, hin p hp]
      constructor
      · intro ho
        rcases ho with ⟨q, hq, rfl⟩ | ⟨-, ho⟩
        · -- one id, one row
          obtain rfl : p = q := List.inj_on_of_nodup_map hnodup hp hq hpo
          exact ⟨_, rfl, hdec p hp⟩
        · exact absurd (List.mem_map_of_mem hp) ho
      · intro ho
        obtain ⟨r, hr, hro⟩ := ho
        cases hr
        rw [hdec p hp] at hro
        cases hro
        exact .inl ⟨p, hp, rfl⟩
    · rw [hout _ hid, ← h.holds_iff o]
      constructor
      · intro ho
        rcases ho with ⟨q, hq, rfl⟩ | ⟨ho, -⟩
        · exact absurd (List.mem_map_of_mem hq) hid
        · exact ho
      · intro ho
        exact .inr ⟨ho, hid⟩

/-- One object stored and adopted, where nothing of the other kind has its id. -/
theorem Consistent.put {v w : Vault S} (h : Consistent E v) (hkey : w.vaultKey = v.vaultKey)
    (hroster : w.roster = v.roster) {o : Decoded} {r : StoredEnvelope}
    (hdec : decodeRecord E v.vaultKey v.roster r = .ok (some o))
    (himage : (view w.store).image = (view v.store).image.put r)
    (hholds : ∀ o' : Decoded, w.Holds o' ↔ o' = o ∨ v.Holds o' ∧ o'.itemId ≠ o.itemId) :
    Consistent E w := by
  have hrow : ∀ p ∈ [(o, r)], decodeRecord E v.vaultKey v.roster p.2 = .ok (some p.1) := by simpa using hdec
  refine h.puts hkey hroster hrow (by simp) himage (fun o' => ?_)
  rw [hholds o']
  simp [eq_comm]

theorem Consistent.removes {v w : Vault S} (h : Consistent E v) (hkey : w.vaultKey = v.vaultKey)
    (hroster : w.roster = v.roster) {ids : List ItemId}
    (hrows : ∀ i : ItemId, (view w.store).image.rows[i]? =
      if i ∈ ids then none else (view v.store).image.rows[i]?)
    (hholds : ∀ o : Decoded, w.Holds o ↔ v.Holds o ∧ o.itemId ∉ ids) : Consistent E w := by
  constructor
  · intro id r hr
    rw [hkey, hroster]
    rw [hrows] at hr
    split at hr
    · cases hr
    · exact h.decodes id r hr
  · intro o
    rw [hkey, hroster, hholds, hrows, h.holds_iff o]
    split
    · next hid => simp [hid]
    · next hid => simp [hid]

variable {amb : Ambient}

theorem Resealed.decodes {v : Vault S} {o : Decoded} {r : StoredEnvelope} (hP : E.prims.Correct)
    (hC : E.cbor.Faithful) (hknows : v.roster.Knows E.prims v.device) (h : Resealed E amb v o r) :
    decodeRecord E v.vaultKey v.roster r = .ok (some o) := by
  have he := h.envelope
  unfold Vault.sealObject at he
  obtain ⟨payload, hpayload, he⟩ := bind_eq_ok.mp he
  obtain ⟨key, hkey, he⟩ := bind_eq_ok.mp he
  have hkey' := mapError_eq_ok.mp hkey
  obtain ⟨env, hsealed⟩ := seal_sealed hP (mapError_eq_ok.mp he)
  have hepoch : key.epoch = v.epoch := by
    rw [epochKey_eq] at hkey'
    cases hkey'
    rfl
  have hkind : r.kind = .item ∨ r.kind = .group := by
    rw [h.kind]
    cases o with
    | item x => exact .inl rfl
    | group g => exact .inr rfl
  refine decodeRecord_eq_ok.mpr (@Reads.object E _ _ r env key payload o hsealed.parses ?_ hkind ?_ ?_ ?_
    h.itemId.symm h.hlcMax.symm)
  · rw [hsealed.kind_eq, h.kind]
  · rw [hsealed.epoch_eq, hepoch]
    exact hkey'
  · rw [h.itemId]
    exact hsealed.opens hP hknows
  · rw [h.kind]
    exact decodePayload_encode hC hpayload

theorem Recorded.decodes {v : Vault S} {changes : List RemoteChange}
    {decoded : List (RemoteChange × Decoded)} {ignored : Nat} {m : Merging} {x : Result Decoded}
    {p : Decoded × StoredEnvelope} (hP : E.prims.Correct) (hC : E.cbor.Faithful)
    (hknows : v.roster.Knows E.prims v.device)
    (hdec : decodeChanges E v.vaultKey v.roster changes = .ok (decoded, ignored))
    (hx : x ∈ m.touched) (h : Recorded E amb v decoded m x p) :
    x = .ok p.1 ∧ decodeRecord E v.vaultKey v.roster p.2 = .ok (some p.1) := by
  cases h with
  | @verbatim o change hverb =>
    refine ⟨rfl, ?_⟩
    have hmem := Merging.mem_of_verbatim hverb (Merging.mem_touched.mp hx).1
    exact decodeRecord_of_decodeChange (mem_of_decodeChanges hdec _ hmem).2 _ _
  | resealed _ hr => exact ⟨rfl, hr.decodes hP hC hknows⟩

omit [LawfulStore S] in
theorem Vault.adopt_holds {v : Vault S} {o : Decoded}
    (hkinds : ∀ o' : Decoded, v.Holds o' → o'.itemId = o.itemId → o'.kind = o.kind) (o' : Decoded) :
    (v.adopt o).Holds o' ↔ o' = o ∨ v.Holds o' ∧ o'.itemId ≠ o.itemId := by
  cases o with
  | item x =>
    cases o' with
    | item y =>
      show (v.items.replace x).get y.id = some y ↔ Decoded.item y = .item x ∨ v.items.get y.id = some y ∧ y.id ≠ x.id
      rw [ItemSet.holds_replace, Decoded.item.injEq]
    | group g =>
      have hne : v.Holds (.group g) → (Decoded.group g).itemId ≠ (Decoded.item x).itemId :=
        fun h hid => by cases hkinds (.group g) h hid
      rw [and_iff_left_of_imp hne]
      show v.groups.get g.id = some g ↔ Decoded.group g = .item x ∨ v.groups.get g.id = some g
      simp
  | group g =>
    cases o' with
    | item y =>
      have hne : v.Holds (.item y) → (Decoded.item y).itemId ≠ (Decoded.group g).itemId :=
        fun h hid => by cases hkinds (.item y) h hid
      rw [and_iff_left_of_imp hne]
      show v.items.get y.id = some y ↔ Decoded.item y = .group g ∨ v.items.get y.id = some y
      simp
    | group y =>
      have hid : (Decoded.group y).itemId ≠ (Decoded.group g).itemId ↔ y.id ≠ g.id :=
        not_congr ⟨congrArg GroupId.fromItemId, congrArg GroupId.asItemId⟩
      rw [hid, Decoded.group.injEq]
      exact GroupMap.holds_insert ..

variable (E amb)

/-- Items and groups keep apart: a fresh id is not one of the other kind, and of the
objects held or arriving in a batch no item comes to where a group is. -/
def Op.Apart (v : Vault S) : Op → Prop
  | .atomic (.object (.add _)) => ∀ id, amb.newId = .ok id → v.groups.get (.fromItemId id) = none
  | .atomic (.object (.addGroup _)) => ∀ id, amb.newId = .ok id → v.items.get id = none
  | .atomic (.mergeRemote changes) => ∀ decoded ignored,
      decodeChanges E v.vaultKey v.roster changes = .ok (decoded, ignored) →
        ∀ i s, (ItemSet.arena (vaultForkIds E v.vaultKey)).Arrives
          (Merging.incomingItems v.items decoded) i s →
            ∀ g ∈ Merging.incomingGroups v.groups decoded, g.id.asItemId ≠ i
  | _ => True

variable {E amb}

/-- An object an operation is about to commit shares its id with none of the other
kind. -/
theorem Drafted.kinds {v w : Vault S} {op : Op} {objectOp : ObjectOp} {o : Decoded}
    (h : Consistent E v) (hapart : op.Apart E amb v) (hop : op.Commits objectOp)
    (hd : Drafted E amb v w objectOp o) (o' : Decoded) (ho' : v.Holds o') (hid : o'.itemId = o.itemId) :
    o'.kind = o.kind := by
  cases hd with
  | @added new id hlc hnew hnewId _ =>
    cases o' with
    | item y => rfl
    | group g =>
      subst hnew
      cases hop
      have hg : v.groups.get g.id = some g := ho'
      have hg' : g.id = .fromItemId id := congrArg GroupId.fromItemId hid
      rw [hg', hapart id hnewId] at hg
      cases hg
  | @groupAdded name id hlc hnew hnewId =>
    cases o' with
    | group y => rfl
    | item x =>
      subst hnew
      cases hop
      have hx : v.items.get x.id = some x := ho'
      have hx' : x.id = id := hid
      rw [hx', hapart id hnewId] at hx
      cases hx
  | @edited y x hget _ hxid _ _ =>
    have hy : v.Holds (.item y) := hget
    rw [h.unique ho' hy (hid.trans hxid)]
    rfl
  | @groupEdited g g' hget hgid _ =>
    have hg : v.Holds (.group g) := hget
    rw [h.unique ho' hg (hid.trans (congrArg GroupId.asItemId hgid))]
    rfl

theorem ite_mem_cons {α β : Type} [DecidableEq α] (i id : α) (ids : List α) (a : Option β) :
    (if i ∈ ids then none else if id = i then none else a) = if i ∈ id :: ids then none else a := by
  by_cases hid : id = i
  · simp [hid]
  · simp [hid, Ne.symm hid]

theorem rows_removes (i : ItemId) : ∀ (ids : List ItemId) (image : Image),
    ((ids.map .remove).foldl Write.apply image).rows[i]? = if i ∈ ids then none else image.rows[i]?
  | [], _ => by simp
  | id :: ids, image => by
    rw [List.map_cons, List.foldl_cons, rows_removes i ids, ← ite_mem_cons]
    show (if i ∈ ids then none else (image.remove id).rows[i]?) = _
    rw [Image.rows_remove]

theorem ItemSet.get_purges (i : ItemId) : ∀ (ids : List ItemId) (s : ItemSet),
    (ids.foldl ItemSet.purge s).get i = if i ∈ ids then none else s.get i
  | [], _ => by simp
  | id :: ids, s => by
    rw [List.foldl_cons, ItemSet.get_purges i ids, ItemSet.get_purge, ite_mem_cons]

theorem GroupMap.get_removes (i : GroupId) : ∀ (ids : List GroupId) (m : GroupMap),
    (ids.foldl GroupMap.remove m).get i = if i ∈ ids then none else m.get i
  | [], _ => by simp
  | id :: ids, m => by
    rw [List.foldl_cons, GroupMap.get_removes i ids, GroupMap.get_remove, ite_mem_cons]

theorem Consistent.purged {v u w : Vault S} (h : Consistent E v) (hq : Quiet v u) {staged : Staged S}
    (hstaged : Vault.purgeStaged amb v = .ok staged v) (hsettled : Settled staged u w) :
    Consistent E w := by
  cases hstaged
  obtain ⟨s, hview, -, rfl⟩ := hsettled
  -- what is purged is held, so an id names one object of one kind
  have hitem : ∀ i ∈ v.purgeableItems (amb.clock 0), ∃ x : Item, v.Holds (.item x) ∧ x.id = i := by
    intro i hi
    obtain ⟨x, hx, rfl⟩ := List.mem_map.mp hi
    exact ⟨x, ItemSet.mem_iter.mp (List.mem_of_mem_filter hx), rfl⟩
  have hgroup : ∀ i ∈ v.purgeableGroups (amb.clock 0), ∃ g : Group, v.Holds (.group g) ∧ g.id = i := by
    intro i hi
    obtain ⟨g, hg, rfl⟩ := List.mem_map.mp hi
    exact ⟨g, GroupMap.mem_values.mp (List.mem_of_mem_filter hg), rfl⟩
  refine @Consistent.removes S _ E v _ h hq.vaultKey hq.roster (v.purgeableItems (amb.clock 0) ++
    (v.purgeableGroups (amb.clock 0)).map GroupId.asItemId) (fun i => ?_) (fun o => ?_)
  · show (view s).image.rows[i]? = _
    rw [hview, ← hq.view, ← rows_removes, List.map_append, List.map_map]
    rfl
  · cases o with
    | item x =>
      show (List.foldl ItemSet.purge u.items _).get x.id = some x ↔ v.items.get x.id = some x ∧ x.id ∉ _
      rw [ItemSet.get_purges, hq.items, List.mem_append, not_or]
      have hnot : v.items.get x.id = some x →
          x.id ∉ (v.purgeableGroups (amb.clock 0)).map GroupId.asItemId := by
        intro hx hid
        obtain ⟨i, hi, hix⟩ := List.mem_map.mp hid
        obtain ⟨g, hg, rfl⟩ := hgroup i hi
        have hx' : v.Holds (.item x) := hx
        cases h.unique hx' hg hix.symm
      by_cases hid : x.id ∈ v.purgeableItems (amb.clock 0)
      · simp [hid]
      · rw [if_neg hid]
        exact ⟨fun hx => ⟨hx, hid, hnot hx⟩, fun hx => hx.1⟩
    | group g =>
      show (List.foldl GroupMap.remove u.groups _).get g.id = some g ↔
        v.groups.get g.id = some g ∧ g.id.asItemId ∉ _
      rw [GroupMap.get_removes, hq.groups, List.mem_append, not_or]
      have hnot : v.groups.get g.id = some g → g.id.asItemId ∉ v.purgeableItems (amb.clock 0) := by
        intro hg hid
        obtain ⟨x, hx, hxid⟩ := hitem _ hid
        have hg' : v.Holds (.group g) := hg
        cases h.unique hx hg' hxid
      have hmem : g.id.asItemId ∈ (v.purgeableGroups (amb.clock 0)).map GroupId.asItemId ↔
          g.id ∈ v.purgeableGroups (amb.clock 0) := by
        constructor
        · intro hid
          obtain ⟨i, hi, hig⟩ := List.mem_map.mp hid
          obtain rfl : i = g.id := congrArg GroupId.fromItemId hig
          exact hi
        · intro hid
          exact List.mem_map_of_mem hid
      by_cases hid : g.id ∈ v.purgeableGroups (amb.clock 0)
      · simp [hid, hmem]
      · rw [if_neg hid, hmem]
        exact ⟨fun hg => ⟨hg, hnot hg, hid⟩, fun hg => hg.1⟩

/-- A merge replaces what it touched, in the rows as in the model. -/
theorem Consistent.merged {v u w : Vault S} (hP : E.prims.Correct) (hC : E.cbor.Faithful)
    (hknows : v.roster.Knows E.prims v.device) (h : Consistent E v) (hq : Quiet v u)
    {changes : List RemoteChange} {decoded : List (RemoteChange × Decoded)} {ignored : Nat} {m : Merging}
    {rows : List (Decoded × StoredEnvelope)} (hapart : (Op.atomic (.mergeRemote changes)).Apart E amb v)
    (hdec : decodeChanges E v.vaultKey v.roster changes = .ok (decoded, ignored))
    (hm : mergeDecoded (vaultForkIds E v.vaultKey) decoded ⟨v.items, v.groups, [], [], []⟩ = .ok m)
    (hrows : List.Forall₂ (Recorded E amb v decoded m) m.touched rows)
    (hsettled : Settled ⟨rows.map (fun p => .put p.2), Vault.adoptMerge m (rows.map Prod.fst)⟩ u w) :
    Consistent E w := by
  obtain ⟨s, hview, -, rfl⟩ := hsettled
  have hwithin := Merging.within_of_mergeDecoded hm
  have hids : rows.map (fun p => p.1.itemId) = m.touchedIds := by
    refine Merging.ids_of_touched (R := Recorded E amb v decoded m) (fun x p hp => ?_) hrows
    cases hp with
    | verbatim _ | resealed _ _ => exact ⟨_, rfl, rfl⟩
  have hin : ∀ p ∈ rows, .ok p.1 ∈ m.touched ∧
      decodeRecord E v.vaultKey v.roster p.2 = .ok (some p.1) := by
    intro p hp
    obtain ⟨x, hx, hrec⟩ := Merging.exists_of_forall₂ hrows.flip p hp
    obtain ⟨rfl, hdecodes⟩ := hrec.decodes hP hC hknows hdec hx
    exact ⟨hx, hdecodes⟩
  have hout : ∀ o, .ok o ∈ m.touched → ∃ p ∈ rows, p.1 = o := by
    intro o ho
    obtain ⟨p, hp, hrec⟩ := Merging.exists_of_forall₂ hrows _ ho
    obtain ⟨ho', -⟩ := hrec.decodes hP hC hknows hdec ho
    cases ho'
    exact ⟨p, hp, rfl⟩
  -- a touched item is not where a group is, and the other way round
  have happart := hapart decoded ignored hdec
  refine h.puts hq.vaultKey hq.roster (fun p hp => (hin p hp).2) ?_ ?_ ?_
  · rw [hids]
    refine List.nodup_append.mpr ⟨nodup_sortDedup _, nodup_sortDedup _, ?_⟩
    intro i hi j hj
    rw [mem_sortDedup] at hi hj
    obtain ⟨k, hk, rfl⟩ := List.mem_map.mp hj
    obtain ⟨s, hs⟩ := hwithin.reportedItems i hi
    obtain ⟨g, hg, rfl⟩ := hwithin.reportedGroups k hk
    exact (happart i s hs g hg).symm
  · show (view s).image = _
    rw [hview, hq.view]
  · intro o
    rw [hids, Merging.mem_touchedIds]
    have hrow : (∃ p ∈ rows, p.1 = o) ↔ .ok o ∈ m.touched := by
      constructor
      · intro hp
        obtain ⟨p, hp, rfl⟩ := hp
        exact (hin p hp).1
      · exact hout o
    rw [hrow, Merging.mem_touched]
    cases o with
    | item x =>
      show m.items.get x.id = some x ↔ m.items.get x.id = some x ∧ x.id ∈ m.touchedItems ∨
        v.items.get x.id = some x ∧ ¬ (x.id ∈ m.touchedItems ∨ GroupId.fromItemId x.id ∈ m.touchedGroups)
      by_cases hid : x.id ∈ m.touchedItems
      · simp [hid]
      · rw [hwithin.sameItems x.id hid]
        have hnot : v.items.get x.id = some x → GroupId.fromItemId x.id ∉ m.touchedGroups := by
          intro hx hmem
          obtain ⟨g, hg, hgid⟩ := hwithin.reportedGroups _ hmem
          rw [← hwithin.sameItems x.id hid] at hx
          exact happart x.id _ (hwithin.heldItems x.id x hx) g hg (congrArg GroupId.asItemId hgid)
        simp only [hid, and_false, false_or]
        exact ⟨fun hx => ⟨hx, hnot hx⟩, fun hx => hx.1⟩
    | group g =>
      show m.groups.get g.id = some g ↔ m.groups.get g.id = some g ∧ g.id ∈ m.touchedGroups ∨
        v.groups.get g.id = some g ∧ ¬ (g.id.asItemId ∈ m.touchedItems ∨ g.id ∈ m.touchedGroups)
      by_cases hid : g.id ∈ m.touchedGroups
      · simp [hid]
      · rw [hwithin.sameGroups g.id hid]
        have hnot : v.groups.get g.id = some g → g.id.asItemId ∉ m.touchedItems := by
          intro hg hmem
          obtain ⟨s, hs⟩ := hwithin.reportedItems _ hmem
          exact happart _ s hs g (.inl hg) rfl
        simp only [hid, and_false, or_false, false_or]
        exact ⟨fun hg => ⟨hg, hnot hg⟩, fun hg => hg.1⟩

theorem Move.frame {op : Op} {v w : Vault S} (hcommit : Accepts .commit v.store)
    (hrollback : Accepts .rollback v.store) (h : Move E amb op v w) :
    w.vaultKey = v.vaultKey ∧ w.device = v.device ∧ w.roster = v.roster ∧
      ∀ c, Accepts c v.store → Accepts c w.store := by
  cases h with
  | quiet hq => exact ⟨hq.vaultKey, hq.device, hq.roster, hq.accepts⟩
  | @settled u staged hq hp hsettled =>
    obtain ⟨s, -, ha, rfl⟩ := hsettled
    have hacc : ∀ c, Accepts c v.store → Accepts c s := fun c hc => ha c (hq.accepts c hc)
    cases hp with
    | @object _ _ o r _ _ _ => cases o <;> exact ⟨hq.vaultKey, hq.device, hq.roster, hacc⟩
    | purged hstaged =>
      cases hstaged
      exact ⟨hq.vaultKey, hq.device, hq.roster, hacc⟩
    | merged _ _ _ => exact ⟨hq.vaultKey, hq.device, hq.roster, hacc⟩
    | rewrapped _ _ => exact ⟨hq.vaultKey, hq.device, hq.roster, hacc⟩
  | rotated _ _ _ ha hw =>
    subst hw
    exact ⟨rfl, rfl, rfl, ha⟩
  | torn _ hrefused _ => exact absurd (hrefused.resolve_left (not_not.mpr hcommit)) (not_not.mpr hrollback)

/-- A move keeps the rows and the model in step. -/
theorem Move.consistent {op : Op} {v w : Vault S} (hP : E.prims.Correct) (hC : E.cbor.Faithful)
    (hknows : v.roster.Knows E.prims v.device) (hcommit : Accepts .commit v.store)
    (hrollback : Accepts .rollback v.store) (hapart : op.Apart E amb v) (hv : Consistent E v)
    (h : Move E amb op v w) : Consistent E w := by
  cases h with
  | quiet hq =>
    exact hv.congr hq.vaultKey hq.roster (by rw [hq.view]) hq.holds_iff
  | @settled u staged hq hp hsettled =>
    cases hp with
    | @object _ objectOp o r hop hd hr =>
      obtain ⟨s, hview, -, rfl⟩ := hsettled
      -- nothing of another kind has the id, so adopting the object hides nothing
      have hkinds : ∀ o', ({ u with store := s } : Vault S).Holds o' → o'.itemId = o.itemId →
          o'.kind = o.kind :=
        fun o' ho' => hd.kinds hv hapart hop o' ((hq.holds_iff o').mp ho')
      refine hv.put (o := o) (r := r) ?_ ?_ (hr.decodes hP hC hknows) ?_ (fun o' => ?_)
      · cases o <;> exact hq.vaultKey
      · cases o <;> exact hq.roster
      · have hstore : (Vault.adopt o { u with store := s }).store = s := by cases o <;> rfl
        rw [hstore, hview, hq.view]
        rfl
      · rw [Vault.adopt_holds hkinds, ← hq.holds_iff o']
        exact Iff.rfl
    | purged hstaged => exact hv.purged hq hstaged hsettled
    | merged hdec hm hrows => exact hv.merged hP hC hknows hq hapart hdec hm hrows hsettled
    | @rewrapped _ o r ho hr =>
      obtain ⟨s, hview, -, rfl⟩ := hsettled
      refine hv.put (o := o) (r := r) hq.vaultKey hq.roster (hr.decodes hP hC hknows) ?_ (fun o' => ?_)
      · show (view s).image = _
        rw [hview, hq.view]
        rfl
      · show u.Holds o' ↔ _
        rw [hq.holds_iff o']
        constructor
        · intro ho'
          by_cases hid : o'.itemId = o.itemId
          · exact .inl (hv.unique ho' ho hid)
          · exact .inr ⟨ho', hid⟩
        · rintro (rfl | ho')
          · exact ho
          · exact ho'.1
  | rotated _ _ hview _ hw =>
    subst hw
    refine hv.congr rfl rfl ?_ (fun o => ?_)
    · show (view _).image.rows = _
      rw [hview]
      rfl
    · cases o <;> exact Iff.rfl
  -- a store that accepts both commit and rollback tears nothing
  | torn _ hrefused _ => exact absurd (hrefused.resolve_left (not_not.mpr hcommit)) (not_not.mpr hrollback)

/-! ## Runs -/

variable (E) in
/-- A vault reached from `open`, for a device the roster knows, by operations that each
meet a condition. -/
inductive Reached (Cond : Ambient → Op → Vault S → Prop) : Vault S → Prop
  | opened {store : S} {vaultKey : ByteArr 32} {device : DeviceIdentity} {roster : Roster} {v : Vault S} :
      Vault.open E store vaultKey device roster = .ok v → roster.Knows E.prims device → Reached Cond v
  | step {v : Vault S} {amb : Ambient} {op : Op} : Reached Cond v → Cond amb op v →
      Reached Cond (stateAfter (op.run E amb) v)

variable (E) in
/-- The store refuses no commit and no rollback, and no item and group meet under one
id. -/
structure Op.Safe (amb : Ambient) (op : Op) (v : Vault S) : Prop where
  commit : Accepts .commit v.store
  rollback : Accepts .rollback v.store
  apart : op.Apart E amb v

theorem Consistent.of_opened {store : S} {vaultKey : ByteArr 32} {device : DeviceIdentity} {roster : Roster}
    {v : Vault S} (h : Opened E store vaultKey device roster v) : Consistent E v := by
  refine inStep_iff.mp ⟨v.hlc, ?_⟩
  rw [h.vaultKey, h.roster, h.device, h.view]
  exact h.load

/-- After any run of safe operations, failed ones included, `load` on the rows of the
store gives back what the vault holds. -/
theorem model_and_store_agree (hP : E.prims.Correct) (hC : E.cbor.Faithful) (v : Vault S)
    (h : Reached E (Op.Safe E) v) : InStep E v := by
  rw [inStep_iff]
  have hall : Consistent E v ∧ v.roster.Knows E.prims v.device := by
    induction h with
    | opened hopen hknows =>
      have hopened := opened_of_open hopen
      refine ⟨.of_opened hopened, ?_⟩
      rw [hopened.roster, hopened.device]
      exact hknows
    | @step v amb op _ hsafe ih =>
      -- along the moves of the operation, who the vault is and what its store accepts stay
      have hend : Consistent E (stateAfter (op.run E amb) v) ∧
          (stateAfter (op.run E amb) v).roster.Knows E.prims (stateAfter (op.run E amb) v).device ∧
          Accepts .commit (stateAfter (op.run E amb) v).store ∧
          Accepts .rollback (stateAfter (op.run E amb) v).store := by
        refine op.run_induct (P := fun u => Consistent E u ∧ u.roster.Knows E.prims u.device ∧
          Accepts .commit u.store ∧ Accepts .rollback u.store)
          ⟨ih.1, ih.2, hsafe.commit, hsafe.rollback⟩ ?_
        intro u w hu hstart hmove
        obtain ⟨hcon, hknows, hcommit, hrollback⟩ := hu
        obtain ⟨hkey, hdevice, hroster, hacc⟩ := hmove.frame hcommit hrollback
        refine ⟨hmove.consistent hP hC hknows hcommit hrollback ?_ hcon, ?_, hacc _ hcommit,
          hacc _ hrollback⟩
        · cases op with
          | atomic op =>
            rw [hstart trivial]
            exact hsafe.apart
          | sweepTrash | rotateEpoch | rewrapToCurrentEpoch _ => trivial
        · rw [hroster, hdevice]
          exact hknows
      exact ⟨hend.1, hend.2.1⟩
  exact hall.1

theorem knows_sample (d : Byte) (items : List Item) (groups : List Group) :
    (Roster.sample [d]).Knows (Externals.sample items groups).prims (.sample d) :=
  ⟨.sample d, by simp [Roster.sample, Roster.contains, DeviceRecord.sample], rfl⟩

set_option maxRecDepth 4000 in
theorem open_sample (items : List Item) (groups : List Group) :
    Vault.open (.sample items groups) MemoryStore.new (ByteArr.repeated 32 0) (.sample 1) (.sample [1]) =
      .ok (Vault.sample MemoryStore.new [1]) := rfl

theorem reached_sample (items : List Item) (groups : List Group) (Cond : Ambient → Op → Vault MemoryStore → Prop) :
    Reached (.sample items groups) Cond (Vault.sample MemoryStore.new [1]) :=
  .opened (open_sample items groups) (knows_sample 1 _ _)

/-- A vault that has added a group. -/
theorem model_and_store_agree_added :
    InStep (.sample [] [.fresh 5 1 1]) (stateAfter ((Op.atomic (.object (.addGroup ['g']))).run
      (.sample [] [.fresh 5 1 1]) (.sample 5)) (Vault.sample MemoryStore.new [1])) := by
  refine model_and_store_agree Primitives.sample_correct (Cbor.table_faithful _ _) _
    (.step (reached_sample _ _ _) ?_)
  exact ⟨trivial, trivial, fun id _ => by simp [Vault.sample, ItemSet.new, ItemSet.get]⟩

/-- One batch brings an item and a group under one id, and both are accepted. -/
def bothKinds : List RemoteChange :=
  let E := Externals.sample [.fresh 1 9 0 4] [.fresh 1 1 1]
  [.sample E 1 0 (.item (.fresh 1 9 0 4)), .sample E 1 0 (.group (.fresh 1 1 1))]

/-- After that batch the vault holds two objects and the store one row, although the
store refuses nothing. -/
theorem item_and_group_share_a_row :
    let E := Externals.sample [.fresh 1 9 0 4] [.fresh 1 1 1]
    let v := Vault.sample MemoryStore.new [1]
    let w := stateAfter ((Op.atomic (.mergeRemote bothKinds)).run E (.sample 5)) v
    E.prims.Correct ∧ E.cbor.Faithful ∧ Reached E (fun _ _ _ => True) w ∧
      Accepts .commit v.store ∧ Accepts .rollback v.store ∧
      w.items.items.size = 1 ∧ w.groups.groups.size = 1 ∧ (view w.store).image.rows.size = 1 ∧
      ¬ InStep E w := by
  intro E v w
  have hitems : w.items.items.size = 1 := by decide +kernel
  have hgroups : w.groups.groups.size = 1 := by decide +kernel
  have hrows : (view w.store).image.rows.size = 1 := by decide +kernel
  -- the row is the group's, so the load has no item
  have hload : (loadRecords E w.vaultKey w.roster (view w.store).image.records
      (.start w.device.deviceId)).toOption.map (fun l => l.items.items.size) = some 0 := by
    decide +kernel
  refine ⟨Primitives.sample_correct, Cbor.table_faithful _ _, .step (reached_sample _ _ _) trivial,
    trivial, trivial, hitems, hgroups, hrows, ?_⟩
  intro h
  obtain ⟨hlc, h⟩ := h
  rw [h] at hload
  simp only [Except.toOption, Option.map_some, Option.some.injEq] at hload
  rw [hitems] at hload
  cases hload

end Misty
