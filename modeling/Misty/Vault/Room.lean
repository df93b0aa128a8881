import Misty.Vault.Stamp
import Misty.Vault.Consistent
import Misty.Vault.Backends

/- The mutation limit. This device's own API is to leave at most `MAX_SET_ENTRIES` stored
   entries in each set of an item, removed ones included. `add` bounds the lists it is
   given and `add_tag`, `add_origin` and `add_to_group` call `check_room`; a removal stores
   nothing new. `merge_duplicate` adds whole lists, each bounded by itself only, to sets
   that may hold entries already. The limit is kept along the local operations in which it
   is given lists there is room for (`in_limit_of_local_steps`), and by no other
   `merge_duplicate` that goes through. -/
namespace Misty

open Std (ExtTreeMap)
open LawfulStore (view)

/-! ## Sets -/

namespace OrSet

variable {T : Type} [LinearOrder T]

theorem keys_insert {t : ExtTreeMap T OrSetEntry} {e k : T} {entry : OrSetEntry} :
    k ∈ (t.insert e entry).keys ↔ k = e ∨ k ∈ t.keys := by
  simp only [OrdMap.mem_keys, OrdMap.getElem?_insert]
  split <;> simp_all [eq_comm]

theorem keys_add {s : OrSet T} {e k : T} {h : Hlc} :
    k ∈ (s.add e h).entries.keys ↔ k = e ∨ k ∈ s.entries.keys := by
  unfold add
  split
  · exact keys_insert
  · next entry hentry =>
    split
    · exact keys_insert
    · have he : e ∈ s.entries.keys := OrdMap.mem_keys.mpr ⟨entry, hentry⟩
      constructor
      · exact .inr
      · intro hk
        obtain rfl | hk := hk
        · exact he
        · exact hk

theorem keys_addAll {h : Hlc} {k : T} : ∀ {elements : List T} {s : OrSet T},
    k ∈ (s.addAll elements h).entries.keys ↔ k ∈ s.entries.keys ++ elements
  | [], s => by simp [addAll]
  | e :: rest, s => by
    have ih : k ∈ ((s.add e h).addAll rest h).entries.keys ↔ k ∈ (s.add e h).entries.keys ++ rest := keys_addAll
    rw [List.mem_append, keys_add] at ih
    rw [List.mem_append, List.mem_cons, or_left_comm, ← or_assoc]
    exact ih

theorem keys_remove {s : OrSet T} {e k : T} {h : Hlc} :
    k ∈ (s.remove e h).entries.keys ↔ k ∈ s.entries.keys := by
  unfold remove
  split
  · exact Iff.rfl
  · next entry hentry =>
    split
    · exact Iff.rfl
    · have he : e ∈ s.entries.keys := OrdMap.mem_keys.mpr ⟨entry, hentry⟩
      rw [keys_insert]
      constructor
      · intro hk
        obtain rfl | hk := hk
        · exact he
        · exact hk
      · exact .inr

theorem storedLen_of_keys {s : OrSet T} {ks : List T} (h : ∀ k, k ∈ s.entries.keys ↔ k ∈ ks) :
    s.storedLen = ks.dedup.length := by
  have hperm : s.entries.keys.Perm ks.dedup := by
    rw [List.perm_ext_iff_of_nodup ExtTreeMap.nodup_keys (List.nodup_dedup ks)]
    intro k
    rw [h, List.mem_dedup]
  rw [storedLen, ← ExtTreeMap.length_keys, hperm.length_eq]

theorem storedLen_remove (s : OrSet T) (e : T) (h : Hlc) : (s.remove e h).storedLen = s.storedLen := by
  rw [storedLen_of_keys (fun _ => keys_remove), ← storedLen_of_keys (fun _ => Iff.rfl)]

/-- There is room for the elements: they and what is stored are within the limit. -/
def HasRoom (s : OrSet T) (elements : List T) : Prop :=
  (s.entries.keys ++ elements).dedup.length ≤ MAX_SET_ENTRIES

instance (s : OrSet T) (elements : List T) : Decidable (s.HasRoom elements) := by
  unfold HasRoom
  infer_instance

/-- Adding a list keeps the limit exactly when there is room for it. -/
theorem storedLen_addAll_le {s : OrSet T} {elements : List T} {h : Hlc} :
    (s.addAll elements h).storedLen ≤ MAX_SET_ENTRIES ↔ s.HasRoom elements := by
  rw [storedLen_of_keys (fun _ => keys_addAll), HasRoom]

theorem hasRoom_new {elements : List T} (h : elements.length ≤ MAX_SET_ENTRIES) :
    (new : OrSet T).HasRoom elements := by
  have hkeys : (new : OrSet T).entries.keys = [] := rfl
  rw [HasRoom, hkeys, List.nil_append]
  exact (List.dedup_sublist elements).length_le.trans h

/-- `check_room` lets one element in where there is room for it. -/
theorem storedLen_add_le {s : OrSet T} {e : T} {h : Hlc} {field : String} (hs : s.storedLen ≤ MAX_SET_ENTRIES)
    (hroom : Vault.checkRoom field s.storedLen (s.contains e) = .ok ()) :
    (s.add e h).storedLen ≤ MAX_SET_ENTRIES := by
  have hlen : (s.add e h).storedLen = (e :: s.entries.keys).dedup.length :=
    storedLen_of_keys fun k => keys_add.trans List.mem_cons.symm
  have hold : s.storedLen = s.entries.keys.dedup.length := storedLen_of_keys fun _ => Iff.rfl
  by_cases he : e ∈ s.entries.keys
  · rw [hlen, List.dedup_cons_of_mem he, ← hold]
    exact hs
  · have hfree : s.contains e = false := by
      have hnone : s.entries[e]? = none := by
        by_contra hsome
        obtain ⟨entry, hentry⟩ := Option.ne_none_iff_exists'.mp hsome
        exact he (OrdMap.mem_keys.mpr ⟨entry, hentry⟩)
      simp [contains, hnone]
    unfold Vault.checkRoom at hroom
    split at hroom
    · next hlt =>
      have hlt' : s.storedLen < MAX_SET_ENTRIES := by simpa [hfree] using hlt
      rw [hlen, List.dedup_cons_of_notMem he, List.length_cons, ← hold]
      omega
    · cases hroom

end OrSet

/-! ## Items -/

/-- Each set of the item is within the limit. -/
structure Item.InLimit (x : Item) : Prop where
  tags : x.tags.storedLen ≤ MAX_SET_ENTRIES
  origins : x.origins.storedLen ≤ MAX_SET_ENTRIES
  groups : x.groups.storedLen ≤ MAX_SET_ENTRIES

/-- There is room in the item for the lists a duplicate comes with. -/
structure NewItem.HasRoom (new : NewItem) (y : Item) : Prop where
  tags : y.tags.HasRoom new.tags
  origins : y.origins.HasRoom new.origins
  groups : y.groups.HasRoom new.groups

theorem inLimit_duplicateChange {new : NewItem} {y : Item} {h : Hlc} :
    (Vault.duplicateChange new y h).InLimit ↔ new.HasRoom y := by
  constructor
  · intro hx
    exact ⟨OrSet.storedLen_addAll_le.mp hx.tags, OrSet.storedLen_addAll_le.mp hx.origins,
      OrSet.storedLen_addAll_le.mp hx.groups⟩
  · intro hroom
    exact ⟨OrSet.storedLen_addAll_le.mpr hroom.tags, OrSet.storedLen_addAll_le.mpr hroom.origins,
      OrSet.storedLen_addAll_le.mpr hroom.groups⟩

theorem checkAddedLen_eq_ok {field : String} {len : Nat} : checkAddedLen field len = .ok () ↔ len ≤ MAX_SET_ENTRIES := by
  unfold checkAddedLen
  split
  · next h => simp [Nat.not_le.mpr h]
  · next h => simp [Nat.not_lt.mp h]

theorem inLimit_create {id : ItemId} {new : NewItem} {h : Hlc} {at' : I64} (hvalid : new.validate = .ok ()) :
    (Item.create id new h at').InLimit := by
  unfold NewItem.validate at hvalid
  obtain ⟨_, -, hvalid⟩ := bind_eq_ok.mp hvalid
  obtain ⟨_, -, hvalid⟩ := bind_eq_ok.mp hvalid
  obtain ⟨_, -, hvalid⟩ := bind_eq_ok.mp hvalid
  obtain ⟨_, -, hvalid⟩ := bind_eq_ok.mp hvalid
  obtain ⟨_, -, hvalid⟩ := bind_eq_ok.mp hvalid
  obtain ⟨_, -, hvalid⟩ := bind_eq_ok.mp hvalid
  obtain ⟨_, -, hvalid⟩ := bind_eq_ok.mp hvalid
  obtain ⟨_, htags, hvalid⟩ := bind_eq_ok.mp hvalid
  obtain ⟨_, horigins, hgroups⟩ := bind_eq_ok.mp hvalid
  have hlimit : ∀ {T : Type} [LinearOrder T] {elements : List T}, elements.length ≤ MAX_SET_ENTRIES →
      (OrSet.new.addAll elements h).storedLen ≤ MAX_SET_ENTRIES :=
    fun hlen => OrSet.storedLen_addAll_le.mpr (OrSet.hasRoom_new hlen)
  exact ⟨hlimit (checkAddedLen_eq_ok.mp htags), hlimit (checkAddedLen_eq_ok.mp horigins),
    hlimit (checkAddedLen_eq_ok.mp hgroups)⟩

/-! ## Drafts -/

variable {S : Type}

/-- Every item of the vault is within the limit. -/
def Vault.InLimit (self : Vault S) : Prop := ∀ id x, self.items.get id = some x → x.InLimit

/-- A duplicate that is merged comes with lists there is room for. -/
def Op.HasRoom (v : Vault S) (op : Op) : Prop :=
  ∀ existing new y, op = .atomic (.object (.mergeDuplicate existing new)) → new.validate = .ok () →
    v.items.get existing = some y → y.secret = new.otp.secret → new.HasRoom y

/-- The operations that take nothing from other devices. -/
def Op.IsLocal : Op → Prop
  | .atomic (.mergeRemote _) => False
  | _ => True

theorem Vault.InLimit.of_items {v w : Vault S} (h : v.InLimit) (hitems : w.items = v.items) : w.InLimit := by
  intro id x hx
  rw [hitems] at hx
  exact h id x hx

theorem Vault.InLimit.replace {v w : Vault S} {x : Item} (h : v.InLimit) (hx : x.InLimit)
    (hitems : w.items = v.items.replace x) : w.InLimit := by
  intro id y hy
  rw [hitems, ItemSet.get_replace] at hy
  split at hy
  · cases hy
    exact hx
  · exact h id y hy

/-- What an operation is about to commit is within the limit. -/
def Decoded.InLimit (o : Decoded) : Prop := ∀ x, o = .item x → x.InLimit

theorem Decoded.inLimit_item {x : Item} (h : x.InLimit) : (Decoded.item x).InLimit := by
  intro y hy
  cases hy
  exact h

variable [LawfulStore S] {E : Externals} {amb : Ambient}

omit [LawfulStore S] in
/-- What is written under a reading stays within the limit, a duplicate where there is room for it. -/
theorem ObjectOp.Writes.inLimit {op : ObjectOp} {v : Vault S} {y x : Item} {h : Hlc} (hw : op.Writes E amb v y h x)
    (hy : y.InLimit) (hroom : ∀ existing new, op = .mergeDuplicate existing new → new.validate = .ok () →
      y.secret = new.otp.secret → new.HasRoom y) : x.InLimit := by
  cases hw with
  | mergeDuplicate hvalid hsec => exact inLimit_duplicateChange.mpr (hroom _ _ rfl hvalid hsec)
  | addTag hcheck => exact { hy with tags := OrSet.storedLen_add_le hy.tags hcheck }
  | removeTag => exact { hy with tags := (OrSet.storedLen_remove ..).trans_le hy.tags }
  | addOrigin hcheck => exact { hy with origins := OrSet.storedLen_add_le hy.origins hcheck }
  | removeOrigin => exact { hy with origins := (OrSet.storedLen_remove ..).trans_le hy.origins }
  | addToGroup hcheck => exact { hy with groups := OrSet.storedLen_add_le hy.groups hcheck }
  | removeFromGroup => exact { hy with groups := (OrSet.storedLen_remove ..).trans_le hy.groups }
  | update | trashItem | restoreItem | deleteItem => exact ⟨hy.tags, hy.origins, hy.groups⟩

omit [LawfulStore S] in
theorem ObjectOp.Counts.inLimit {op : ObjectOp} {v : Vault S} {y x : Item} (hc : op.Counts amb v y x) (hy : y.InLimit) :
    x.InLimit := by
  cases hc with
  | recordUse | advanceHotpCounter | setHotpCounter | repairSecret => exact ⟨hy.tags, hy.origins, hy.groups⟩

omit [LawfulStore S] in
theorem ObjectOp.Drafts.inLimit {op : ObjectOp} {v w : Vault S} {o : Decoded} (h : op.Drafts E amb v w o)
    (hv : v.InLimit) (hroom : (Op.atomic (.object op)).HasRoom v) : o.InLimit := by
  cases h with
  | added hvalid _ _ _ => exact Decoded.inLimit_item (inLimit_create hvalid)
  | @written _ y x h hget htarget hwrites _ =>
    refine Decoded.inLimit_item (hwrites.inLimit (hv _ y hget) ?_)
    rintro existing new rfl hvalid hsec
    obtain rfl : existing = y.id := Option.some.inj htarget
    exact hroom _ new y rfl hvalid hget hsec
  | counted hget _ hcounts => exact Decoded.inLimit_item (hcounts.inLimit (hv _ _ hget))
  | groupAdded | groupUpdated | groupDeleted =>
    intro x hx
    cases hx

theorem draft_inLimit {op : ObjectOp} {v : Vault S} (hv : v.InLimit) (hroom : (Op.atomic (.object op)).HasRoom v) :
    Meets (op.draft E amb) v (fun o w => Quiet v w ∧ o.InLimit) (fun _ w => Quiet v w) :=
  (draft_drafts op v).mono (fun _ _ h => ⟨h.1, h.2.inLimit hv hroom⟩) (fun _ _ hq => hq)

/-! ## Runs -/

theorem commit_inLimit {v : Vault S} {o : Decoded} (hv : v.InLimit) (ho : o.InLimit) :
    Meets (Vault.commit E amb o) v (fun _ w => w.InLimit) (fun _ w => w.InLimit) := by
  apply (commit_adopted o v).mono
  · intro _ w hw
    cases o with
    | item x => exact hv.replace (ho x rfl) hw
    | group g => exact hv.of_items hw
  · intro e w hw
    exact hv.of_items hw

theorem ObjectOp.inLimit {op : ObjectOp} {v : Vault S} (hv : v.InLimit) (hroom : (Op.atomic (.object op)).HasRoom v) :
    Meets (op.run E amb) v (fun _ w => w.InLimit) (fun _ w => w.InLimit) := by
  rw [op.run_eq]
  apply Meets.bind
  apply (draft_inLimit hv hroom).mono
  · intro o u h
    exact commit_inLimit (hv.of_items h.1.items) h.2
  · intro e u hq
    exact hv.of_items hq.items

theorem bury_inLimit {id : ItemId} {reason : TombstoneReason} {now : U64} {v : Vault S} (hv : v.InLimit) :
    Meets (Vault.mutateItem E amb id now (fun x hlc => .ok (Vault.buried reason x hlc))) v
      (fun _ w => w.InLimit) (fun _ w => w.InLimit) := by
  apply Meets.bind
  apply (buried_drafts E amb id reason now v).mono
  · intro x u h
    exact commit_inLimit (hv.of_items h.1.items) (h.2.inLimit hv fun _ _ _ hmerge => by cases hmerge)
  · intro e u hq
    exact hv.of_items hq.items

theorem Move.inLimit {op : Op} {v w : Vault S} (hop : ∀ objectOp, ¬ op.Commits objectOp) (hlocal : op.IsLocal)
    (hv : v.InLimit) (hmove : Move E amb op v w) : w.InLimit := by
  cases hmove with
  | quiet hq => exact hv.of_items hq.items
  | @settled u staged hq hp hsettled =>
    obtain ⟨s, -, -, rfl⟩ := hsettled
    cases hp with
    | object hcommits _ _ => exact absurd hcommits (hop _)
    | purged hstaged =>
      cases hstaged
      intro id x hx
      have hx' : (List.foldl ItemSet.purge u.items _).get id = some x := hx
      rw [ItemSet.get_purges] at hx'
      split at hx'
      · cases hx'
      · exact hv id x (hq.items ▸ hx')
    | merged _ _ _ => exact absurd hlocal id
    | rewrapped _ _ => exact hv.of_items hq.items
  | rotated _ _ _ _ hw => exact hv.of_items (by rw [hw])
  | torn hq _ hw => exact hv.of_items (by rw [hw]; exact hq.items)

/-- One local operation, whatever comes of it. -/
inductive LocalStep (E : Externals) (Cond : Op → Vault S → Prop) (v : Vault S) : Vault S → Prop
  | intro {amb : Ambient} {op : Op} : op.IsLocal → Cond op v → LocalStep E Cond v (stateAfter (op.run E amb) v)

theorem Op.inLimit {op : Op} {v : Vault S} (hop : ∀ objectOp, ¬ op.Commits objectOp) (hlocal : op.IsLocal)
    (hv : v.InLimit) : (stateAfter (op.run E amb) v).InLimit := by
  refine Op.run_induct op hv ?_
  intro u w hu _ hmove
  exact hmove.inLimit hop hlocal hu

theorem LocalStep.inLimit {v w : Vault S} (h : LocalStep E (fun op v => op.HasRoom v) v w) (hv : v.InLimit) : w.InLimit := by
  obtain ⟨hlocal, hroom⟩ := h
  rename_i amb op
  cases op with
  | atomic op =>
    cases op with
    | object op =>
      have hrun : Meets (op.run E amb) v (fun _ w => w.InLimit) (fun _ w => w.InLimit) := ObjectOp.inLimit hv hroom
      exact hrun.stateAfter
    | purgeTombstones => exact Op.inLimit (fun _ hcommits => by cases hcommits) hlocal hv
    | mergeRemote changes => exact absurd hlocal id
  | sweepTrash =>
    apply Meets.stateAfter
    apply Meets.bind
    apply (sweep_keeps (fun _ _ _ hv => bury_inLimit hv) hv).mono
    · intro _ w h
      exact Meets.pure h
    · intro e w h
      exact h
  | rotateEpoch => exact Op.inLimit (fun _ hcommits => by cases hcommits) hlocal hv
  | rewrapToCurrentEpoch limit => exact Op.inLimit (fun _ hcommits => by cases hcommits) hlocal hv

/-- A duplicate that was merged and left the item within the limit came with lists there was room for. -/
theorem hasRoom_of_mergeDuplicate {existing : ItemId} {new : NewItem} {v u : Vault S} {y : Item}
    (hget : v.items.get existing = some y) (hrun : Vault.mergeDuplicate E amb existing new v = .ok () u)
    (hu : u.InLimit) : new.HasRoom y := by
  have hspec : Meets ((ObjectOp.mergeDuplicate existing new).run E amb) v
      (fun _ w => ∃ h, w.items = v.items.replace (Vault.duplicateChange new y h)) (fun _ _ => True) := by
    rw [ObjectOp.run_eq]
    apply Meets.bind
    apply (draft_drafts _ v).mono
    · intro o w hdrafts
      obtain ⟨hq, hdrafts⟩ := hdrafts
      cases hdrafts with
      | @written _ z x h hz htarget hwrites _ =>
        obtain rfl : existing = z.id := Option.some.inj htarget
        obtain rfl : z = y := Option.some.inj (hz.symm.trans hget)
        cases hwrites
        apply (commit_items _ w).mono
        · intro _ w' hw
          exact ⟨h, hw.trans (by rw [hq.items])⟩
        · intro e w' _
          trivial
      | counted _ _ hcounts => cases hcounts
    · intro e w _
      trivial
  obtain ⟨h, hitems⟩ := hspec.of_ok hrun
  have hx : u.items.get existing = some (Vault.duplicateChange new y h) := by
    rw [hitems, ItemSet.get_replace]
    exact if_pos (ItemSet.id_of_get hget)
  exact inLimit_duplicateChange.mp (hu existing _ hx)

/-- The mutation limit holds along the local operations, failed ones included, in which every duplicate that is merged
comes with lists there is room for; and a duplicate that is merged keeps it only then. -/
theorem in_limit_of_local_steps (E : Externals) {v w : Vault S}
    (h : Relation.ReflTransGen (LocalStep E (fun op v => op.HasRoom v)) v w) (hv : v.InLimit) : w.InLimit ∧
      ∀ (amb : Ambient) (existing : ItemId) (new : NewItem) (y : Item) (u : Vault S), w.items.get existing = some y →
        Vault.mergeDuplicate E amb existing new w = .ok () u → u.InLimit → new.HasRoom y := by
  refine ⟨?_, fun amb existing new y u hget hrun hu => hasRoom_of_mergeDuplicate hget hrun hu⟩
  induction h with
  | refl => exact hv
  | tail _ hstep ih => exact hstep.inLimit ih

/-! ## A duplicate there is no room for -/

/-- Tags of one character. -/
def tagsFrom (start count : Nat) : List Text := (List.range' start count).map fun n => [Char.ofNat (0x4e00 + n)]

/-- An account with that many tags. -/
def NewItem.tagged (start count : Nat) : NewItem := { NewItem.totp ⟨[1]⟩ ['s'] ['a'] with tags := tagsFrom start count }

/-- What comes of adding it. -/
def Item.tagged : Item :=
  Item.create ⟨ByteArr.repeated 16 5⟩ (.tagged 0 1) (Hlc.early 1 1) (I64.saturate MIN_WALL_MS)

/-- The externals of a vault that adds an account with one tag and merges as many more into it as one list may have. -/
def Externals.tagging : Externals :=
  .sample [.tagged, Vault.duplicateChange (.tagged 1 256) .tagged (Hlc.early 2 1)] []

/-- The account is added to an empty vault. -/
def Vault.tagged : Vault MemoryStore :=
  stateAfter ((Op.atomic (.object (.add (.tagged 0 1)))).run .tagging (.sample 5)) (.sample .new [1])

/-- The same credential with 256 other tags is merged into it. -/
def Vault.crammed : Vault MemoryStore :=
  stateAfter ((Op.atomic (.object (.mergeDuplicate Item.tagged.id (.tagged 1 256)))).run .tagging (.sample 6)) .tagged

theorem Vault.inLimit_empty : (Vault.sample MemoryStore.new [1]).InLimit := by
  intro id x hx
  simp [Vault.sample, ItemSet.new, ItemSet.get] at hx

/-- An account with one tag keeps the limit. -/
theorem in_limit_of_local_steps_tagged : Vault.tagged.InLimit := by
  have hadd : LocalStep .tagging (fun op v => op.HasRoom v) (Vault.sample MemoryStore.new [1]) .tagged :=
    .intro (show (Op.atomic (.object _)).IsLocal from trivial) fun existing new y hop => by cases hop
  exact (in_limit_of_local_steps .tagging (.single hadd) Vault.inLimit_empty).1

set_option maxRecDepth 20000 in
/-- Two local operations on an empty vault, each within every bound that is checked, leave an item with one stored
tag too many. -/
theorem merge_duplicate_over_limit : (Vault.sample MemoryStore.new [1]).InLimit ∧
    Relation.ReflTransGen (LocalStep .tagging (fun _ _ => True)) (.sample .new [1]) Vault.crammed ∧
    ¬ Vault.crammed.InLimit := by
  refine ⟨Vault.inLimit_empty, ?_, ?_⟩
  · have hadd : LocalStep .tagging (fun _ _ => True) (Vault.sample MemoryStore.new [1]) .tagged :=
      LocalStep.intro trivial trivial
    have hmerge : LocalStep .tagging (fun _ _ => True) Vault.tagged .crammed := LocalStep.intro trivial trivial
    exact .tail (.single hadd) hmerge
  · intro h
    have hmany : (Vault.crammed.items.get Item.tagged.id).any (fun x => x.tags.storedLen = 257) = true := by
      decide +kernel
    obtain ⟨x, hx, hlen⟩ := Option.any_eq_true .. |>.mp hmany
    have hle := (h _ x hx).tags
    rw [of_decide_eq_true hlen] at hle
    exact absurd hle (by decide)

end Misty
