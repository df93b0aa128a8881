import Misty.Vault.Effect
import Misty.Vault.Join

/- What an operation on one object is about to commit. `ObjectOp.Drafts` says once what
   each operation drafts (`draft_drafts`); what a draft may do to clocks, stamps and sizes
   is read off it, operation by operation. Here (`draft_spec`): a new object under a fresh
   id, or an edited copy of one the model holds. An edit keeps the id and, `repair_secret`
   apart, only moves clocks and counters forward (`Grows`); what the copy is called changes
   in `update` and `merge_duplicate` only (`Names`). -/
namespace Misty

variable {S : Type} [LawfulStore S]

open LawfulStore (view Accepts)
open Vault (duplicateChange checkRoom)

/-- A reading issued between two states of the clock. -/
def Ticked (v w : Vault S) (h : Hlc) : Prop :=
  Hlc.inWindow v.hlc.last.wallMs = true → v.hlc.Issues h ∧ w.hlc.Saw h

/-- A tombstone that is the old one or was written under a new reading. -/
def Restoned (v w : Vault S) (old new : Option Tombstone) : Prop :=
  new = old ∨ ∃ stone, new = some stone ∧ Ticked v w stone.hlc

/-- Every clock and counter but the tombstone's is at least as far. A field that is not
named is as it was. -/
structure Item.Ahead (y x : Item) : Prop where
  registers : ∀ r, (y.register r).hlc ≤ (x.register r).hlc := by exact fun _ => le_refl _
  hotpCounter : y.hotpCounter.value ≤ x.hotpCounter.value := by exact le_refl _
  lastUsedAt : y.lastUsedAt.value ≤ x.lastUsedAt.value := by exact le_refl _
  createdAt : x.createdAt.value ≤ y.createdAt.value := by exact le_refl _
  usage : y.usage.view ≤ x.usage.view := by exact le_refl _
  groups : y.groups.view ≤ x.groups.view := by exact le_refl _
  tags : y.tags.view ≤ x.tags.view := by exact le_refl _
  origins : y.origins.view ≤ x.origins.view := by exact le_refl _

/-- The copy is the same credential, at least as far. -/
structure Grows (v w : Vault S) (y x : Item) : Prop where
  secret : x.secret = y.secret
  ahead : y.Ahead x
  stone : Restoned v w y.deleted x.deleted

/-- The copy is called what the item was called. -/
structure SameNames (y x : Item) : Prop where
  issuer : x.issuer = y.issuer
  account : x.account = y.account
  nickname : x.nickname = y.nickname

/-- What each operation may do to the names of an item. -/
inductive Names (E : Externals) (v : Vault S) (y x : Item) : ObjectOp → Prop
  | same {op} : SameNames y x → Names E v y x op
  | duplicated {existing : ItemId} {new : NewItem} : x.issuer = y.issuer → x.account = y.account →
      (x.nickname = y.nickname ∨ ∃ n, new.nickname = some n ∧ x.nickname.value = some n) →
      Names E v y x (.mergeDuplicate existing new)
  | updated {id : ItemId} {edit : Edit} :
      (∀ o ∈ v.sameSiteCluster E x.issuer.value x.account.value, o.id ≠ x.id →
        o.nickname.value.map (fold E.toLowercase) ≠ x.nickname.value.map (fold E.toLowercase)) →
      Names E v y x (.update id edit)

/-- The copy of a group, at least as far. -/
structure Group.Grows (v w : Vault S) (g g' : Group) : Prop where
  name : g.name.hlc ≤ g'.name.hlc := by exact le_refl _
  color : g.color.hlc ≤ g'.color.hlc := by exact le_refl _
  manualOrder : g.manualOrder.hlc ≤ g'.manualOrder.hlc := by exact le_refl _
  createdAt : g'.createdAt = g.createdAt
  stone : Restoned v w g.deleted g'.deleted

/-- The item an operation edits. -/
def ObjectOp.target : ObjectOp → Option ItemId
  | add _ | addGroup _ | updateGroup .. | deleteGroup _ => none
  | mergeDuplicate id _ | update id _ | addTag id _ | removeTag id _ | addOrigin id _
  | removeOrigin id _ | addToGroup id _ | removeFromGroup id _ | recordUse id
  | advanceHotpCounter id | setHotpCounter id _ | repairSecret id _ | trashItem id
  | restoreItem id | deleteItem id => some id

/-- The operation replaces the secret. -/
def ObjectOp.Repairs : ObjectOp → Prop
  | repairSecret .. => True
  | _ => False

/-- What an operation is about to commit. -/
inductive Drafted (E : Externals) (amb : Ambient) (v w : Vault S) (op : ObjectOp) : Decoded → Prop
  | added {new : NewItem} {id : ItemId} {h : Hlc} : op = .add new → amb.newId = .ok id →
      v.checkSameSite E new = .ok () → Drafted E amb v w op (.item (Item.create id new h (nowMs (amb.clock 0))))
  | edited {y x : Item} : v.items.get y.id = some y → op.target = some y.id → x.id = y.id →
      (Grows v w y x ∨ op.Repairs ∧ x.deleted = y.deleted) → Names E v y x op →
      Drafted E amb v w op (.item x)
  | groupAdded {name : Text} {id : ItemId} {h : Hlc} : op = .addGroup name → amb.newId = .ok id →
      Drafted E amb v w op (.group (Group.create (.fromItemId id) name h (nowMs (amb.clock 0))))
  | groupEdited {g g' : Group} : v.groups.get g.id = some g → g'.id = g.id → Group.Grows v w g g' →
      Drafted E amb v w op (.group g')

/-! ## What each operation drafts -/

namespace ObjectOp

/-- What an operation writes into an item under a new reading. A sweep buries as a delete does, for a reason of its own. -/
inductive Writes (E : Externals) (amb : Ambient) (v : Vault S) (y : Item) (h : Hlc) : ObjectOp → Item → Prop
  | mergeDuplicate {existing : ItemId} {new : NewItem} : new.validate = .ok () → y.secret = new.otp.secret →
      Writes E amb v y h (.mergeDuplicate existing new) (duplicateChange new y h)
  | update {id : ItemId} {edit : Edit} :
      (∀ o ∈ v.sameSiteCluster E (edit.write y h).issuer.value (edit.write y h).account.value, o.id ≠ y.id →
        o.nickname.value.map (fold E.toLowercase) ≠ (edit.write y h).nickname.value.map (fold E.toLowercase)) →
      Writes E amb v y h (.update id edit) (edit.write y h)
  | addTag {id : ItemId} {tag : Text} : checkRoom "tags" y.tags.storedLen (y.tags.contains tag) = .ok () →
      Writes E amb v y h (.addTag id tag) { y with tags := y.tags.add tag h }
  | removeTag {id : ItemId} {tag : Text} :
      Writes E amb v y h (.removeTag id tag) { y with tags := y.tags.remove tag h }
  | addOrigin {id : ItemId} {origin : Text} :
      checkRoom "origins" y.origins.storedLen (y.origins.contains (E.toLowercase (trim origin))) = .ok () →
      Writes E amb v y h (.addOrigin id origin)
        { y with origins := y.origins.add (E.toLowercase (trim origin)) h }
  | removeOrigin {id : ItemId} {origin : Text} :
      Writes E amb v y h (.removeOrigin id origin)
        { y with origins := y.origins.remove (E.toLowercase (trim origin)) h }
  | addToGroup {id : ItemId} {g : GroupId} : checkRoom "groups" y.groups.storedLen (y.groups.contains g) = .ok () →
      Writes E amb v y h (.addToGroup id g) { y with groups := y.groups.add g h }
  | removeFromGroup {id : ItemId} {g : GroupId} :
      Writes E amb v y h (.removeFromGroup id g) { y with groups := y.groups.remove g h }
  | trashItem {id : ItemId} :
      Writes E amb v y h (.trashItem id) { y with trashedAt := y.trashedAt.set (some (nowMs (amb.clock 0))) h }
  | restoreItem {id : ItemId} : Writes E amb v y h (.restoreItem id) { y with trashedAt := y.trashedAt.set none h }
  | deleteItem {id : ItemId} {reason : TombstoneReason} :
      Writes E amb v y h (.deleteItem id) (Vault.buried reason y h)

/-- What an operation changes in an item without a reading. -/
inductive Counts (amb : Ambient) (v : Vault S) (y : Item) : ObjectOp → Item → Prop
  | recordUse {id : ItemId} :
      Counts amb v y (.recordUse id) { y with
        usage := y.usage.increment v.hlc.deviceId 1
        lastUsedAt := y.lastUsedAt.set (nowMs (amb.clock 0) : WithBot I64) }
  | advanceHotpCounter {id : ItemId} :
      Counts amb v y (.advanceHotpCounter id)
        { y with hotpCounter := y.hotpCounter.set (U64.saturatingAdd y.hotpCounter.value 1) }
  | setHotpCounter {id : ItemId} {counter : U64} :
      Counts amb v y (.setHotpCounter id counter) { y with hotpCounter := y.hotpCounter.set counter }
  | repairSecret {id : ItemId} {secret : SecretBytes} :
      Counts amb v y (.repairSecret id secret) { y with secret := secret }

/-- What an operation on one object drafts. -/
inductive Drafts (E : Externals) (amb : Ambient) (v w : Vault S) : ObjectOp → Decoded → Prop
  | added {new : NewItem} {id : ItemId} {h : Hlc} : new.validate = .ok () → v.checkSameSite E new = .ok () →
      amb.newId = .ok id → Ticked v w h →
      Drafts E amb v w (.add new) (.item (Item.create id new h (nowMs (amb.clock 0))))
  | written {op : ObjectOp} {y x : Item} {h : Hlc} : v.items.get y.id = some y → op.target = some y.id →
      op.Writes E amb v y h x → Ticked v w h → Drafts E amb v w op (.item x)
  | counted {op : ObjectOp} {y x : Item} : v.items.get y.id = some y → op.target = some y.id →
      op.Counts amb v y x → Drafts E amb v w op (.item x)
  | groupAdded {name : Text} {id : ItemId} {h : Hlc} : amb.newId = .ok id → Ticked v w h →
      Drafts E amb v w (.addGroup name) (.group (Group.create (.fromItemId id) name h (nowMs (amb.clock 0))))
  | groupUpdated {g : Group} {name : Option Text} {color : Option (Option U32)} {manualOrder : Option (Option I64)}
      {h : Hlc} : v.groups.get g.id = some g → Ticked v w h →
      Drafts E amb v w (.updateGroup g.id name color manualOrder) (.group { g with
        name := g.name.setSome name h
        color := g.color.setSome color h
        manualOrder := g.manualOrder.setSome manualOrder h })
  | groupDeleted {g : Group} {h : Hlc} : v.groups.get g.id = some g → Ticked v w h →
      Drafts E amb v w (.deleteGroup g.id) (.group { g with deleted := some ⟨h, .user⟩ })

end ObjectOp

variable {E : Externals} {amb : Ambient}

omit [LawfulStore S] in
theorem Ticked.mono {v w u : Vault S} {h : Hlc} (ht : Ticked v w h) (hle : w.hlc.time ≤ u.hlc.time) :
    Ticked v u h := by
  intro hwin
  obtain ⟨hissues, hsaw⟩ := ht hwin
  exact ⟨hissues, hsaw.mono hle⟩

omit [LawfulStore S] in
theorem Restoned.mono {v w u : Vault S} {old new : Option Tombstone} (h : Restoned v w old new)
    (hle : w.hlc.time ≤ u.hlc.time) : Restoned v u old new := by
  rcases h with h | ⟨stone, h, ht⟩
  · exact .inl h
  · exact .inr ⟨stone, h, ht.mono hle⟩

omit [LawfulStore S] in
theorem Drafted.mono {v w u : Vault S} {op : ObjectOp} {o : Decoded} (h : Drafted E amb v w op o)
    (hle : w.hlc.time ≤ u.hlc.time) : Drafted E amb v u op o := by
  cases h with
  | added hop hid hsite => exact .added hop hid hsite
  | edited hget htarget hid hgrows hnames =>
    refine .edited hget htarget hid ?_ hnames
    rcases hgrows with h | h
    · exact .inl ⟨h.secret, h.ahead, h.stone.mono hle⟩
    · exact .inr h
  | groupAdded hop hid => exact .groupAdded hop hid
  | groupEdited hget hid h => exact .groupEdited hget hid { h with stone := h.stone.mono hle }

theorem liftExcept_spec {ε σ α : Type} (r : Except ε α) (s : σ) :
    Meets (Misty.liftExcept r : EStateM ε σ α) s (fun a s' => s' = s ∧ r = .ok a) (fun _ s' => s' = s) :=
  Meets.liftExcept (fun _ h => ⟨rfl, h⟩) (fun _ _ => rfl)

omit [LawfulStore S] in
theorem item_eq_ok {v : Vault S} {id : ItemId} {x : Item} (h : v.item id = .ok x) :
    v.items.get x.id = some x ∧ x.id = id := by
  unfold Vault.item at h
  cases hget : v.items.get id with
  | none =>
    rw [hget] at h
    cases h
  | some y =>
    rw [hget] at h
    cases h
    have hid := ItemSet.id_of_get hget
    exact ⟨hid ▸ hget, hid⟩

omit [LawfulStore S] in
theorem group_eq_ok {v : Vault S} {id : GroupId} {g : Group} (h : v.group id = .ok g) :
    v.groups.get g.id = some g ∧ g.id = id := by
  unfold Vault.group at h
  cases hget : v.groups.get id with
  | none =>
    rw [hget] at h
    cases h
  | some y =>
    rw [hget] at h
    cases h
    have hid := GroupMap.id_of_get hget
    exact ⟨hid ▸ hget, hid⟩

/-- `mutate_item` up to its commit: a change of the item the model holds, under a new
reading. -/
theorem mutated_spec (id : ItemId) (now : U64) (change : Item → Hlc → Result Item) (v : Vault S) :
    Meets (Vault.mutated id now change) v
      (fun x w => Quiet v w ∧ ∃ y h, v.items.get y.id = some y ∧ y.id = id ∧ change y h = .ok x ∧
        Ticked v w h)
      (fun _ w => Quiet v w) := by
  apply Meets.bind
  apply Meets.get
  apply Meets.bind
  apply (liftExcept_spec _ v).mono
  · rintro y v' ⟨rfl, hy⟩
    obtain ⟨hget, hid⟩ := item_eq_ok hy
    apply Meets.bind
    apply (tick_spec now v').mono
    · rintro h w ⟨hq, ht⟩
      apply (liftExcept_spec _ w).mono
      · rintro x w' ⟨rfl, hx⟩
        exact ⟨hq, y, h, hget, hid, hx, ht⟩
      · rintro e w' rfl
        exact hq
    · rintro e w rfl
      exact .refl w
  · rintro e w rfl
    exact .refl w

section Checks

variable {α β : Type} {f : α → Io (Vault S) β} {v : Vault S} {Q : β → Vault S → Prop} {Err : VaultError → Vault S → Prop}

omit [LawfulStore S] in
theorem Meets.guard {r : Result α} (he : ∀ e, Err e v) (h : ∀ a, r = .ok a → Meets (f a) v Q Err) :
    Meets (Misty.liftExcept r >>= f) v Q Err := by
  apply Meets.bind
  apply Meets.liftExcept
  · exact h
  · intro e _
    exact he e

theorem Meets.tick {now : U64} {f : Hlc → Io (Vault S) β} (he : ∀ e, Err e v)
    (h : ∀ h w, Quiet v w → Ticked v w h → Meets (f h) w Q Err) : Meets (Vault.tick now >>= f) v Q Err := by
  apply Meets.bind
  apply (tick_spec now v).mono
  · intro hlc w hticked
    exact h hlc w hticked.1 hticked.2
  · rintro e w rfl
    exact he e

end Checks

/-- A copy made by `mutate_item`, from what its change writes. -/
theorem mutated_drafts {op : ObjectOp} {id : ItemId} (htarget : op.target = some id) (now : U64)
    {change : Item → Hlc → Result Item} {v : Vault S}
    (hchange : ∀ y x h, change y h = .ok x → op.Writes E amb v y h x) :
    Meets (Vault.mutated id now change) v
      (fun x w => Quiet v w ∧ op.Drafts E amb v w (.item x)) (fun _ w => Quiet v w) := by
  apply (mutated_spec id now change v).mono
  · rintro x w ⟨hq, y, h, hget, rfl, hx, ht⟩
    exact ⟨hq, .written hget htarget (hchange y x h hx) ht⟩
  · intro e w hq
    exact hq

variable (E amb) in
theorem buried_drafts (id : ItemId) (reason : TombstoneReason) (now : U64) (v : Vault S) :
    Meets (Vault.mutated id now (fun x hlc => .ok (Vault.buried reason x hlc))) v
      (fun x w => Quiet v w ∧ (ObjectOp.deleteItem id).Drafts E amb v w (.item x)) (fun _ w => Quiet v w) := by
  apply mutated_drafts rfl
  rintro y x h ⟨⟩
  exact .deleteItem

/-- What an operation on one object is about to commit. -/
theorem draft_drafts (op : ObjectOp) (v : Vault S) :
    Meets (op.draft E amb) v (fun o w => Quiet v w ∧ op.Drafts E amb v w o) (fun _ w => Quiet v w) := by
  have hquiet : ∀ _ : VaultError, Quiet v v := fun _ => .refl v
  cases op with
  | add new =>
    apply Meets.map
    refine Meets.guard hquiet fun _ hvalid => Meets.bind (Meets.get ?_)
    refine Meets.guard hquiet fun _ hsite => Meets.guard hquiet fun id hid => Meets.tick hquiet fun h w hq ht => ?_
    exact Meets.pure ⟨hq, .added hvalid hsite (mapError_eq_ok.mp hid) ht⟩
  | mergeDuplicate existing new =>
    apply Meets.map
    refine Meets.guard hquiet fun _ hvalid => Meets.bind (Meets.get ?_)
    refine Meets.guard hquiet fun y hy => ?_
    -- another secret is refused, so what is written has the secret that was there
    by_cases hsec : y.secret = new.otp.secret
    · simp only [hsec, ne_eq, not_true_eq_false, if_false]
      apply (mutated_spec existing (amb.clock 0) _ v).mono
      · rintro x w ⟨hq, z, h, hget, hid, ⟨⟩, ht⟩
        obtain rfl : z = y := Option.some.inj (hget.symm.trans ((item_eq_ok hy).2.trans hid.symm ▸ (item_eq_ok hy).1))
        exact ⟨hq, .written hget (by rw [hid]; rfl) (.mergeDuplicate hvalid hsec) ht⟩
      · intro e w hq
        exact hq
    · simp only [hsec, ne_eq, not_false_eq_true, if_true]
      exact .refl v
  | update id edit =>
    apply Meets.map
    apply Meets.bind
    apply (mutated_spec id (amb.clock 0) _ v).mono
    · rintro x w ⟨hq, y, h, hget, rfl, hx, ht⟩
      obtain ⟨_, -, hret⟩ := bind_eq_ok.mp hx
      cases hret
      apply Meets.bind
      apply Meets.get
      -- the clock may have moved, the items have not
      have hcluster : w.sameSiteCluster E (edit.write y h).issuer.value (edit.write y h).account.value =
          v.sameSiteCluster E (edit.write y h).issuer.value (edit.write y h).account.value := by
        unfold Vault.sameSiteCluster
        rw [hq.items]
      simp only [hcluster]
      split
      · exact hq
      · next hnone =>
        refine Meets.pure ⟨hq, .written hget rfl (.update fun o ho hne heq => ?_) ht⟩
        have hnone' := List.find?_eq_none.mp (Option.eq_none_iff_forall_ne_some.mpr hnone)
        exact hnone' o ho (by simp only [decide_eq_true_eq]; exact ⟨hne, heq⟩)
    · intro e w hq
      exact hq
  | addTag id tag =>
    apply Meets.map
    refine Meets.guard hquiet fun _ _ => mutated_drafts rfl _ fun y x h hx => ?_
    obtain ⟨_, hroom, hret⟩ := bind_eq_ok.mp hx
    cases hret
    exact .addTag hroom
  | addOrigin id origin =>
    apply Meets.map
    refine Meets.guard hquiet fun _ _ => mutated_drafts rfl _ fun y x h hx => ?_
    obtain ⟨_, hroom, hret⟩ := bind_eq_ok.mp hx
    cases hret
    exact .addOrigin hroom
  | addToGroup id g =>
    apply Meets.map
    refine Meets.bind (Meets.get (Meets.guard hquiet fun _ _ => mutated_drafts rfl _ fun y x h hx => ?_))
    obtain ⟨_, hroom, hret⟩ := bind_eq_ok.mp hx
    cases hret
    exact .addToGroup hroom
  | removeTag id tag | removeOrigin id origin | removeFromGroup id g | trashItem id | restoreItem id =>
    apply Meets.map
    apply mutated_drafts rfl
    rintro y x h ⟨⟩
    constructor
  | deleteItem id =>
    apply Meets.map
    exact buried_drafts E amb id .user _ v
  | recordUse id | advanceHotpCounter id | setHotpCounter id counter =>
    apply Meets.map
    refine Meets.bind (Meets.get (Meets.guard hquiet fun y hy => ?_))
    obtain ⟨hget, hid⟩ := item_eq_ok hy
    exact Meets.pure ⟨.refl v, .counted hget (by rw [hid]; rfl) (by constructor)⟩
  | repairSecret id secret =>
    apply Meets.map
    refine Meets.bind (Meets.get (Meets.guard hquiet fun y hy => ?_))
    obtain ⟨hget, hid⟩ := item_eq_ok hy
    refine Meets.guard hquiet fun probe _ => Meets.guard hquiet fun _ _ => ?_
    exact Meets.pure ⟨.refl v, .counted hget (by rw [hid]; rfl) .repairSecret⟩
  | addGroup name =>
    apply Meets.map
    refine Meets.guard hquiet fun _ _ => Meets.guard hquiet fun id hid => Meets.tick hquiet fun h w hq ht => ?_
    exact Meets.pure ⟨hq, .groupAdded (mapError_eq_ok.mp hid) ht⟩
  | updateGroup id name color manualOrder =>
    apply Meets.map
    refine Meets.guard hquiet fun _ _ => Meets.bind (Meets.get ?_)
    refine Meets.guard hquiet fun g hg => Meets.tick hquiet fun h w hq ht => ?_
    obtain ⟨hget, rfl⟩ := group_eq_ok hg
    exact Meets.pure ⟨hq, .groupUpdated hget ht⟩
  | deleteGroup id =>
    apply Meets.map
    refine Meets.bind (Meets.get (Meets.guard hquiet fun g hg => Meets.tick hquiet fun h w hq ht => ?_))
    obtain ⟨hget, rfl⟩ := group_eq_ok hg
    exact Meets.pure ⟨hq, .groupDeleted hget ht⟩

/-! ## Drafts grow -/

theorem duplicateChange_nickname (new : NewItem) (y : Item) (h : Hlc) :
    (duplicateChange new y h).nickname = y.nickname ∨
      ∃ n, new.nickname = some n ∧ (duplicateChange new y h).nickname.value = some n := by
  show y.nickname.setSome (new.nickname.map some) h = y.nickname ∨
    ∃ n, new.nickname = some n ∧ (y.nickname.setSome (new.nickname.map some) h).value = some n
  cases hn : new.nickname with
  | none => exact .inl rfl
  | some n =>
    show y.nickname.set (some n) h = y.nickname ∨ ∃ m, some n = some m ∧ (y.nickname.set (some n) h).value = some m
    unfold Lww.set
    split
    · exact .inr ⟨n, rfl, rfl⟩
    · exact .inl rfl

theorem ahead_duplicateChange (new : NewItem) (y : Item) (h : Hlc) :
    y.Ahead (duplicateChange new y h) where
  registers r := by
    cases r <;> first | exact le_refl _ | exact Lww.hlc_le_setSome _ _ _
  hotpCounter := MaxWins.le_set _ _
  groups := OrSet.view_le_addAll _ _ _
  tags := OrSet.view_le_addAll _ _ _
  origins := OrSet.view_le_addAll _ _ _

theorem ahead_write (edit : Edit) (y : Item) (h : Hlc) : y.Ahead (edit.write y h) where
  registers r := by
    cases r <;> first | exact le_refl _ | exact Lww.hlc_le_setSome _ _ _

theorem ahead_trashedAt (y : Item) (value : Option I64) (h : Hlc) :
    y.Ahead { y with trashedAt := y.trashedAt.set value h } where
  registers r := by
    cases r <;> first | exact le_refl _ | exact Lww.hlc_mono (Lww.le_set _ _ _)

omit [LawfulStore S] in
/-- What is written under a reading grows the item, and names it as the operation may. -/
theorem ObjectOp.Writes.drafted {op : ObjectOp} {v : Vault S} {y x : Item} {h : Hlc} (hw : op.Writes E amb v y h x) :
    x.id = y.id ∧ (∀ w, Ticked v w h → Grows v w y x) ∧ Names E v y x op := by
  cases hw with
  | @mergeDuplicate existing new _ _ =>
    exact ⟨rfl, fun w _ => ⟨rfl, ahead_duplicateChange new y h, .inl rfl⟩,
      .duplicated rfl rfl (duplicateChange_nickname new y h)⟩
  | @update id edit hnames => exact ⟨rfl, fun w _ => ⟨rfl, ahead_write edit y h, .inl rfl⟩, .updated hnames⟩
  | addTag _ =>
    exact ⟨rfl, fun w _ => ⟨rfl, { tags := OrSet.view_le_add _ _ _ }, .inl rfl⟩, .same ⟨rfl, rfl, rfl⟩⟩
  | removeTag =>
    exact ⟨rfl, fun w _ => ⟨rfl, { tags := OrSet.view_le_remove _ _ _ }, .inl rfl⟩, .same ⟨rfl, rfl, rfl⟩⟩
  | addOrigin _ =>
    exact ⟨rfl, fun w _ => ⟨rfl, { origins := OrSet.view_le_add _ _ _ }, .inl rfl⟩, .same ⟨rfl, rfl, rfl⟩⟩
  | removeOrigin =>
    exact ⟨rfl, fun w _ => ⟨rfl, { origins := OrSet.view_le_remove _ _ _ }, .inl rfl⟩, .same ⟨rfl, rfl, rfl⟩⟩
  | addToGroup _ =>
    exact ⟨rfl, fun w _ => ⟨rfl, { groups := OrSet.view_le_add _ _ _ }, .inl rfl⟩, .same ⟨rfl, rfl, rfl⟩⟩
  | removeFromGroup =>
    exact ⟨rfl, fun w _ => ⟨rfl, { groups := OrSet.view_le_remove _ _ _ }, .inl rfl⟩, .same ⟨rfl, rfl, rfl⟩⟩
  | trashItem | restoreItem =>
    exact ⟨rfl, fun w _ => ⟨rfl, ahead_trashedAt _ _ _, .inl rfl⟩, .same ⟨rfl, rfl, rfl⟩⟩
  | deleteItem => exact ⟨rfl, fun w ht => ⟨rfl, {}, .inr ⟨_, rfl, ht⟩⟩, .same ⟨rfl, rfl, rfl⟩⟩

omit [LawfulStore S] in
/-- What is changed without a reading grows the item, or repairs its secret. -/
theorem ObjectOp.Counts.drafted {op : ObjectOp} {v : Vault S} {y x : Item} (hc : op.Counts amb v y x) (w : Vault S) :
    x.id = y.id ∧ (Grows v w y x ∨ op.Repairs ∧ x.deleted = y.deleted) ∧ SameNames y x := by
  cases hc with
  | recordUse =>
    exact ⟨rfl, .inl ⟨rfl, { usage := UsageCounter.view_le_increment _ _ _, lastUsedAt := MaxWins.le_set _ _ }, .inl rfl⟩,
      rfl, rfl, rfl⟩
  | advanceHotpCounter | setHotpCounter =>
    exact ⟨rfl, .inl ⟨rfl, { hotpCounter := MaxWins.le_set _ _ }, .inl rfl⟩, rfl, rfl, rfl⟩
  | repairSecret => exact ⟨rfl, .inr ⟨trivial, rfl⟩, rfl, rfl, rfl⟩

omit [LawfulStore S] in
theorem ObjectOp.Drafts.drafted {op : ObjectOp} {v w : Vault S} {o : Decoded} (h : op.Drafts E amb v w o) :
    Drafted E amb v w op o := by
  cases h with
  | added _ hsite hid _ => exact .added rfl hid hsite
  | written hget htarget hwrites ht =>
    obtain ⟨hid, hgrows, hnames⟩ := hwrites.drafted
    exact .edited hget htarget hid (.inl (hgrows w ht)) hnames
  | counted hget htarget hcounts =>
    obtain ⟨hid, hgrows, hnames⟩ := hcounts.drafted w
    exact .edited hget htarget hid hgrows (.same hnames)
  | groupAdded hid _ => exact .groupAdded rfl hid
  | groupUpdated hget _ =>
    exact .groupEdited hget rfl {
      name := Lww.hlc_le_setSome _ _ _
      color := Lww.hlc_le_setSome _ _ _
      manualOrder := Lww.hlc_le_setSome _ _ _
      createdAt := rfl
      stone := .inl rfl }
  | groupDeleted hget ht => exact .groupEdited hget rfl { createdAt := rfl, stone := .inr ⟨_, rfl, ht⟩ }

/-- What every operation on one object is about to commit. -/
theorem draft_spec (op : ObjectOp) (v : Vault S) :
    Meets (op.draft E amb) v (fun o w => Quiet v w ∧ Drafted E amb v w op o) (fun _ w => Quiet v w) :=
  (draft_drafts op v).mono (fun _ _ h => ⟨h.1, h.2.drafted⟩) (fun _ _ hq => hq)

theorem drafted_buried (id : ItemId) (reason : TombstoneReason) (now : U64) (v : Vault S) :
    Meets (Vault.mutated id now (fun x hlc => .ok (Vault.buried reason x hlc))) v
      (fun x w => Quiet v w ∧ Drafted E amb v w (.deleteItem id) (.item x)) (fun _ w => Quiet v w) :=
  (buried_drafts E amb id reason now v).mono (fun _ _ h => ⟨h.1, h.2.drafted⟩) (fun _ _ hq => hq)

end Misty
