import Misty.Vault.Counter
import Misty.Vault.Union

/- Usage counts over runs of any number of replicas of one item. A replica counts under its
   own device, so its own slot is exact (`Counting.own`) and no version anywhere is ahead of
   it (`Counting.behind`); a merge takes the maximum of each slot, so merging what every
   replica holds adds the uses up (`usage_counts_exact`), however often a version comes in.

   Correspondence (Rust ↔ Lean):
     `UsageCounter::total`                     ↔ `UsageCounter.total`
     `Vault::record_use`                       ↔ `Vault.recordUse`, on a vault that holds what
       the replica does
     `Item::merge`                             ↔ `Item.joined`
     `encode_item`, `decode_item`              ↔ `encodeItem`, `decodeItem`, as a restart does -/
namespace Misty

open Std (ExtTreeMap)

namespace OrdMap

variable {α β : Type} [LinearOrder α]

/-- What a map comes to, over any keys beside which it holds nothing of weight. -/
theorem total_eq_sum (f : β → Nat) (t : ExtTreeMap α β) (keys : Finset α)
    (hrest : ∀ k v, t[k]? = some v → k ∉ keys → f v = 0) : total f t = ∑ k ∈ keys, ((t[k]?).map f).getD 0 := by
  have hnodup : (t.toList.map Prod.fst).Nodup := List.pairwise_map.mpr (nodup_keys t)
  have hvalues : t.toList.map (fun p => f p.2) =
      (t.toList.map Prod.fst).map (fun k => ((t[k]?).map f).getD 0) := by
    rw [List.map_map]
    refine List.map_congr_left fun p hp => ?_
    simp [mem_toList.mp hp]
  rw [total, hvalues, ← List.sum_toFinset _ hnodup]
  -- both sums are the one over the keys of either
  have hleft : ∑ k ∈ (t.toList.map Prod.fst).toFinset, ((t[k]?).map f).getD 0 =
      ∑ k ∈ (t.toList.map Prod.fst).toFinset ∪ keys, ((t[k]?).map f).getD 0 := by
    refine Finset.sum_subset Finset.subset_union_left fun k _ hk => ?_
    cases ht : t[k]? with
    | none => rfl
    | some v => exact absurd (List.mem_toFinset.mpr (List.mem_map.mpr ⟨(k, v), mem_toList.mpr ht, rfl⟩)) hk
  have hright : ∑ k ∈ keys, ((t[k]?).map f).getD 0 =
      ∑ k ∈ (t.toList.map Prod.fst).toFinset ∪ keys, ((t[k]?).map f).getD 0 := by
    refine Finset.sum_subset Finset.subset_union_right fun k _ hk => ?_
    cases ht : t[k]? with
    | none => rfl
    | some v => exact hrest k v ht hk
  rw [hleft, hright]

theorem total_mono (f : β → Nat) {s t : ExtTreeMap α β} (h : ∀ k : α, ((s[k]?).map f).getD 0 ≤ ((t[k]?).map f).getD 0) :
    total f s ≤ total f t := by
  have hkeys : ∀ (u : ExtTreeMap α β) k v, u[k]? = some v → k ∈ (u.toList.map Prod.fst).toFinset :=
    fun u k v hk => List.mem_toFinset.mpr (List.mem_map.mpr ⟨(k, v), mem_toList.mpr hk, rfl⟩)
  let keys := (s.toList.map Prod.fst).toFinset ∪ (t.toList.map Prod.fst).toFinset
  have hs := total_eq_sum f s keys fun k v hk hnot => absurd (Finset.mem_union_left _ (hkeys s k v hk)) hnot
  have ht := total_eq_sum f t keys fun k v hk hnot => absurd (Finset.mem_union_right _ (hkeys t k v hk)) hnot
  rw [hs, ht]
  exact Finset.sum_le_sum fun k _ => h k

end OrdMap

namespace UsageCounter

/-- What the devices counted together. -/
def sum (self : UsageCounter) : Nat := OrdMap.total Fin.val self.perDevice

def total (self : UsageCounter) : U64 :=
  self.perDevice.toList.foldl (fun sum p => U64.saturatingAdd sum p.2) 0

theorem val_foldl_saturatingAdd (l : List (DeviceId × U64)) (start : U64) :
    (l.foldl (fun sum p => U64.saturatingAdd sum p.2) start).val =
      min (start.val + (l.map (fun p => p.2.val)).sum) (2 ^ 64 - 1) := by
  induction l generalizing start with
  | nil =>
    have hlt := start.isLt
    simp only [List.foldl_nil, List.map_nil, List.sum_nil]
    omega
  | cons p l ih =>
    rw [List.foldl_cons, ih, U64.val_saturatingAdd, List.map_cons, List.sum_cons]
    omega

theorem val_total (self : UsageCounter) : self.total.val = min self.sum (2 ^ 64 - 1) := by
  have h := val_foldl_saturatingAdd self.perDevice.toList 0
  rw [Fin.val_zero, Nat.zero_add] at h
  exact h

theorem val_forDevice (self : UsageCounter) (d : DeviceId) :
    (self.forDevice d).val = ((self.perDevice[d]?).map Fin.val).getD 0 := by
  unfold forDevice
  cases self.perDevice[d]? <;> rfl

@[simp] theorem forDevice_new (d : DeviceId) : new.forDevice d = 0 := by
  simp [forDevice, new]

@[simp] theorem forDevice_merge (a b : UsageCounter) (d : DeviceId) :
    (a.merge b).forDevice d = max (a.forDevice d) (b.forDevice d) := by
  simp only [forDevice, merge, OrdMap.getElem?_joinWith]
  cases a.perDevice[d]? with
  | none =>
    cases b.perDevice[d]? with
    | none => rfl
    | some n => exact (max_eq_right (Fin.zero_le n)).symm
  | some m =>
    cases b.perDevice[d]? with
    | none => exact (max_eq_left (Fin.zero_le m)).symm
    | some n => rfl

theorem forDevice_increment (self : UsageCounter) (device d : DeviceId) :
    (self.increment device 1).forDevice d =
      if device = d then U64.saturatingAdd (self.forDevice d) 1 else self.forDevice d := by
  rw [increment, if_neg (by decide)]
  simp only [forDevice, OrdMap.getElem?_insert]
  split
  · next h =>
    rw [h]
    rfl
  · rfl

theorem total_mono {a b : UsageCounter} (h : ∀ d, a.forDevice d ≤ b.forDevice d) : a.total ≤ b.total := by
  have hsum : a.sum ≤ b.sum := by
    refine OrdMap.total_mono Fin.val fun d => ?_
    rw [← val_forDevice, ← val_forDevice]
    exact h d
  rw [Fin.le_def, val_total, val_total]
  omega

theorem sum_eq {R : Type} [Fintype R] {device : R → DeviceId} (hdistinct : Function.Injective device)
    {self : UsageCounter} (hothers : ∀ d, (∀ r, device r ≠ d) → self.forDevice d = 0) :
    self.sum = ∑ r, (self.forDevice (device r)).val := by
  have himage : ∑ d ∈ Finset.univ.image device, (self.forDevice d).val = ∑ r, (self.forDevice (device r)).val :=
    Finset.sum_image fun _ _ _ _ h => hdistinct h
  rw [← himage, sum, OrdMap.total_eq_sum Fin.val self.perDevice (Finset.univ.image device)]
  · exact Finset.sum_congr rfl fun d _ => (self.val_forDevice d).symm
  · intro d n hd hnot
    have hzero := hothers d fun r hr => hnot (Finset.mem_image.mpr ⟨r, Finset.mem_univ r, hr⟩)
    rw [forDevice, hd] at hzero
    exact congrArg Fin.val hzero

end UsageCounter

/-! ## One use -/

variable {S : Type} [LawfulStore S] {E : Externals} {amb : Ambient}

/-- A call that returns counted one use under the vault's own device; one that does not left the items as they were. -/
theorem recordUse_spec (id : ItemId) (v : Vault S) :
    Meets (Vault.recordUse E amb id) v
      (fun _ w => ∃ x y : Item, v.items.get id = some x ∧ w.items.get id = some y ∧ y.id = x.id ∧
        y.secret = x.secret ∧ y.usage = x.usage.increment v.hlc.deviceId 1)
      (fun _ w => w.items = v.items) := by
  apply Meets.bind
  apply Meets.bind
  apply Meets.get
  apply Meets.bind
  apply Meets.liftExcept
  · intro x hx
    obtain ⟨hget, hid⟩ := item_eq_ok hx
    apply Meets.pure
    apply (commit_items _ v).mono
    · intro _ w hw
      have hstored := (ItemSet.get_replace v.items { x with
        usage := x.usage.increment v.hlc.deviceId 1
        lastUsedAt := x.lastUsedAt.set (nowMs (amb.clock 0) : WithBot I64) } id).trans (if_pos hid)
      refine ⟨x, { x with
        usage := x.usage.increment v.hlc.deviceId 1
        lastUsedAt := x.lastUsedAt.set (nowMs (amb.clock 0) : WithBot I64) }, hid ▸ hget, ?_, rfl, rfl, rfl⟩
      rw [hw]
      exact hstored
    · intro e w hw
      exact hw
  · intro e _
    rfl

/-! ## Runs -/

/-- The replicas of one item: what each holds, every version there ever was, and the uses each recorded. -/
structure Uses (R : Type) where
  held : R → Option Item
  versions : Set Item
  uses : R → Nat

namespace Uses

variable {R : Type} [DecidableEq R]

/-- One replica holds a version now, and has recorded so many uses. -/
def hold (s : Uses R) (r : R) (x : Option Item) (n : Nat) : Uses R where
  held := Function.update s.held r x
  versions := s.versions ∪ {y | x = some y}
  uses := Function.update s.uses r n

@[simp] theorem held_hold (s : Uses R) (r q : R) (x : Option Item) (n : Nat) :
    (s.hold r x n).held q = if q = r then x else s.held q := Function.update_apply ..

@[simp] theorem uses_hold (s : Uses R) (r q : R) (x : Option Item) (n : Nat) :
    (s.hold r x n).uses q = if q = r then n else s.uses q := Function.update_apply ..

@[simp] theorem mem_versions_hold {s : Uses R} {r : R} {x : Option Item} {n : Nat} {y : Item} :
    y ∈ (s.hold r x n).versions ↔ y ∈ s.versions ∨ x = some y := Iff.rfl

/-- Nobody used the item yet. -/
structure Fresh (id : ItemId) (secret : SecretBytes) (s : Uses R) : Prop where
  held : ∀ r x, s.held r = some x → x ∈ s.versions
  item : ∀ x ∈ s.versions, x.id = id ∧ x.secret = secret
  unused : ∀ x ∈ s.versions, x.usage = .new
  uses : ∀ r, s.uses r = 0

/-- One replica records a use, or is refused one, takes in a version that was held somewhere at some time, or
restarts. -/
inductive Step (S : Type) [LawfulStore S] (E : Externals) (device : R → DeviceId) (id : ItemId) (s : Uses R) :
    Uses R → Prop
  | recorded {r : R} {amb : Ambient} {v w : Vault S} : v.hlc.deviceId = device r → v.items.get id = s.held r →
      Vault.recordUse E amb id v = .ok () w → Step S E device id s (s.hold r (w.items.get id) (s.uses r + 1))
  | refused {r : R} {amb : Ambient} {v w : Vault S} {e : VaultError} : v.hlc.deviceId = device r →
      v.items.get id = s.held r → Vault.recordUse E amb id v = .error e w →
      Step S E device id s (s.hold r (w.items.get id) (s.uses r))
  | received {r : R} {y : Item} : s.held r = none → y ∈ s.versions →
      Step S E device id s (s.hold r (some y) (s.uses r))
  | merged {r : R} {x y z : Item} : s.held r = some x → y ∈ s.versions → x.joined y = .ok z →
      Step S E device id s (s.hold r (some z) (s.uses r))
  | restarted {r : R} {x y : Item} {payload : Bytes} : s.held r = some x → encodeItem E.cbor x = .ok payload →
      decodeItem E.cbor payload = .ok y → Step S E device id s (s.hold r (some y) (s.uses r))

/-- What the versions say of a use, and what each replica says of its own. -/
structure Counting (device : R → DeviceId) (id : ItemId) (secret : SecretBytes) (s : Uses R) : Prop where
  held : ∀ r x, s.held r = some x → x ∈ s.versions
  item : ∀ x ∈ s.versions, x.id = id ∧ x.secret = secret
  behind : ∀ x ∈ s.versions, ∀ r, (x.usage.forDevice (device r)).val ≤ s.uses r
  others : ∀ x ∈ s.versions, ∀ d, (∀ r, device r ≠ d) → x.usage.forDevice d = 0
  own : ∀ r x, s.held r = some x → (x.usage.forDevice (device r)).val = min (s.uses r) (2 ^ 64 - 1)
  absent : ∀ r, s.held r = none → s.uses r = 0

variable {device : R → DeviceId} {id : ItemId} {secret : SecretBytes} {s t : Uses R}

omit [DecidableEq R] in
theorem Fresh.counting (h : s.Fresh id secret) : s.Counting device id secret where
  held := h.held
  item := h.item
  behind x hx r := by
    rw [h.unused x hx, UsageCounter.forDevice_new]
    exact Nat.zero_le _
  others x hx d _ := by rw [h.unused x hx, UsageCounter.forDevice_new]
  own r x hx := by
    rw [h.unused x (h.held r x hx), UsageCounter.forDevice_new, h.uses r]
    rfl
  absent r _ := h.uses r

/-- A replica holds a version that says of its own device what it recorded, and of the others no more than they did. -/
theorem Counting.hold (h : s.Counting device id secret) {r : R} {y : Item} {n : Nat} (hn : s.uses r ≤ n)
    (hitem : y.id = id ∧ y.secret = secret)
    (hbehind : ∀ q, q ≠ r → (y.usage.forDevice (device q)).val ≤ s.uses q)
    (hothers : ∀ d, (∀ q, device q ≠ d) → y.usage.forDevice d = 0)
    (hown : (y.usage.forDevice (device r)).val = min n (2 ^ 64 - 1)) :
    (s.hold r (some y) n).Counting device id secret where
  held q x hx := by
    rw [held_hold] at hx
    split at hx
    · exact .inr hx
    · exact .inl (h.held q x hx)
  item x hx := by
    cases hx with
    | inl hx => exact h.item x hx
    | inr hx => exact Option.some.inj hx ▸ hitem
  behind x hx q := by
    rw [uses_hold]
    split
    · next hq =>
      subst hq
      cases hx with
      | inl hx => exact (h.behind x hx q).trans hn
      | inr hx =>
        rw [← Option.some.inj hx, hown]
        exact min_le_left _ _
    · next hq =>
      cases hx with
      | inl hx => exact h.behind x hx q
      | inr hx => exact Option.some.inj hx ▸ hbehind q hq
  others x hx := by
    cases hx with
    | inl hx => exact h.others x hx
    | inr hx => exact Option.some.inj hx ▸ hothers
  own q x hx := by
    rw [held_hold] at hx
    rw [uses_hold]
    split at hx
    · next hq => rw [if_pos hq, hq, ← Option.some.inj hx, hown]
    · next hq => rw [if_neg hq, h.own q x hx]
  absent q hq := by
    rw [held_hold] at hq
    rw [uses_hold]
    split at hq
    · cases hq
    · next hqr => rw [if_neg hqr, h.absent q hq]

theorem Counting.same (h : s.Counting device id secret) (r : R) :
    (s.hold r (s.held r) (s.uses r)).Counting device id secret := by
  have heq : s.hold r (s.held r) (s.uses r) = { s with versions := s.versions ∪ {y | s.held r = some y} } := by
    simp [Uses.hold]
  have hunion : s.versions ∪ {y | s.held r = some y} = s.versions :=
    Set.union_eq_self_of_subset_right fun y hy => h.held r y hy
  rw [heq, hunion]
  exact h

theorem Counting.step (hdistinct : Function.Injective device) (hC : E.cbor.Faithful) (h : s.Counting device id secret)
    (hstep : Step S E device id s t) : t.Counting device id secret := by
  cases hstep with
  -- only the device's own slot moves, and by one
  | @recorded r amb v w hdevice hheld hok =>
    obtain ⟨x, y, hx, hy, hid, hsecret, husage⟩ := (recordUse_spec id v).of_ok hok
    rw [hheld] at hx
    rw [hdevice] at husage
    have hmem := h.held r x hx
    have hown := h.own r x hx
    rw [hy]
    refine h.hold (Nat.le_succ _) ⟨hid.trans (h.item x hmem).1, hsecret.trans (h.item x hmem).2⟩ ?_ ?_ ?_
    · intro q hq
      rw [husage, UsageCounter.forDevice_increment, if_neg fun heq => hq (hdistinct heq).symm]
      exact h.behind x hmem q
    · intro d hd
      rw [husage, UsageCounter.forDevice_increment, if_neg (hd r)]
      exact h.others x hmem d hd
    · have hone : (1 : U64).val = 1 := rfl
      rw [husage, UsageCounter.forDevice_increment, if_pos rfl, U64.val_saturatingAdd, hown, hone]
      omega
  | @refused r amb v w e hdevice hheld herr =>
    have hitems := (recordUse_spec id v).of_error herr
    rw [hitems, hheld]
    exact h.same r
  -- a replica that starts from another one's item had no uses of its own
  | @received r y hheld hy =>
    have huses := h.absent r hheld
    have hzero := h.behind y hy r
    refine h.hold le_rfl (h.item y hy) (fun q _ => h.behind y hy q) (h.others y hy) ?_
    omega
  | @merged r x y z hheld hy hjoined =>
    obtain ⟨-, -, -, rfl⟩ := Item.joined_eq_ok hjoined
    have hmem := h.held r x hheld
    have hslot : ∀ d, (x.later y).usage.forDevice d = max (x.usage.forDevice d) (y.usage.forDevice d) :=
      UsageCounter.forDevice_merge x.usage y.usage
    have hmax : ∀ d, ((x.later y).usage.forDevice d).val =
        max (x.usage.forDevice d).val (y.usage.forDevice d).val := by
      intro d
      rw [hslot]
      exact Fin.val_strictMono.monotone.map_max
    refine h.hold le_rfl (h.item x hmem) ?_ ?_ ?_
    · intro q _
      have hx := h.behind x hmem q
      have hy' := h.behind y hy q
      rw [hmax]
      omega
    · intro d hd
      rw [hslot, h.others x hmem d hd, h.others y hy d hd, max_self]
    · -- nobody knows more of a device than the device does
      have hown := h.own r x hheld
      have hbehind := h.behind y hy r
      have hlt := (y.usage.forDevice (device r)).isLt
      rw [hmax]
      omega
  -- the payload holds every slot
  | @restarted r x y payload hheld hencode hdecode =>
    rw [decodeItem_encodeItem hC hencode] at hdecode
    rw [← Except.ok.inj hdecode, ← hheld]
    exact h.same r

theorem Counting.run (hdistinct : Function.Injective device) (hC : E.cbor.Faithful) (h : s.Counting device id secret)
    (hrun : Relation.ReflTransGen (Step S E device id) s t) : t.Counting device id secret := by
  induction hrun with
  | refl => exact h
  | tail _ hstep ih => exact ih.step hdistinct hC hstep

/-- No replica loses the item, or counts fewer uses of it. -/
theorem Step.total_le (hC : E.cbor.Faithful) (hstep : Step S E device id s t) (q : R) (x : Item)
    (hx : s.held q = some x) : ∃ y, t.held q = some y ∧ x.usage.total ≤ y.usage.total := by
  -- a replica whose slots do not shrink has no smaller total
  have hput : ∀ {r : R} {z : Item} {n : Nat}, (∀ x, s.held r = some x → ∀ d, x.usage.forDevice d ≤ z.usage.forDevice d) →
      ∃ y, (s.hold r (some z) n).held q = some y ∧ x.usage.total ≤ y.usage.total := by
    intro r z n hle
    rw [held_hold]
    split
    · next hq => exact ⟨z, rfl, UsageCounter.total_mono (hle x (hq ▸ hx))⟩
    · exact ⟨x, hx, le_rfl⟩
  cases hstep with
  | @recorded r amb v w hdevice hheld hok =>
    obtain ⟨x', y, hx', hy, -, -, husage⟩ := (recordUse_spec id v).of_ok hok
    rw [hy]
    refine hput fun z hz d => ?_
    rw [← hheld, hx'] at hz
    rw [← Option.some.inj hz, husage, UsageCounter.forDevice_increment]
    split
    · exact le_saturatingAdd_one _
    · exact le_rfl
  | @refused r amb v w e hdevice hheld herr =>
    rw [(recordUse_spec id v).of_error herr, hheld]
    refine ⟨x, ?_, le_rfl⟩
    rw [held_hold]
    split
    · next hq => exact hq ▸ hx
    · exact hx
  | received hheld _ =>
    refine hput fun z hz => ?_
    rw [hheld] at hz
    cases hz
  | @merged r x' y z hheld _ hjoined =>
    obtain ⟨-, -, -, rfl⟩ := Item.joined_eq_ok hjoined
    refine hput fun z hz d => ?_
    rw [hheld] at hz
    rw [← Option.some.inj hz]
    exact (le_max_left _ _).trans_eq (UsageCounter.forDevice_merge x'.usage y.usage d).symm
  | @restarted r x' y payload hheld hencode hdecode =>
    rw [decodeItem_encodeItem hC hencode] at hdecode
    refine hput fun z hz d => ?_
    rw [hheld] at hz
    rw [← Option.some.inj hz, Except.ok.inj hdecode]

/-- The counts of a merging are the greatest of its versions'. -/
theorem forDevice_run : ∀ {tree : MergeTree} {w : Item}, tree.run = .ok w → ∀ d,
    (∃ x ∈ tree.leaves, w.usage.forDevice d = x.usage.forDevice d) ∧
    ∀ x ∈ tree.leaves, x.usage.forDevice d ≤ w.usage.forDevice d
  | .version x, w, h, d => by
    cases h
    simp [MergeTree.leaves]
  | .merge l r, w, h, d => by
    obtain ⟨a, ha, h₁⟩ := bind_eq_ok.mp h
    obtain ⟨b, hb, hjoined⟩ := bind_eq_ok.mp h₁
    obtain ⟨-, -, -, rfl⟩ := Item.joined_eq_ok hjoined
    obtain ⟨⟨x, hx, hxa⟩, hla⟩ := forDevice_run ha d
    obtain ⟨⟨y, hy, hyb⟩, hlb⟩ := forDevice_run hb d
    have hslot : (a.later b).usage.forDevice d = max (a.usage.forDevice d) (b.usage.forDevice d) :=
      UsageCounter.forDevice_merge a.usage b.usage d
    rw [hslot]
    constructor
    · rcases max_cases (a.usage.forDevice d) (b.usage.forDevice d) with ⟨heq, -⟩ | ⟨heq, -⟩
      · exact ⟨x, List.mem_append_left _ hx, heq.trans hxa⟩
      · exact ⟨y, List.mem_append_right _ hy, heq.trans hyb⟩
    · intro z hz
      cases List.mem_append.mp hz with
      | inl hz => exact (hla z hz).trans (le_max_left _ _)
      | inr hz => exact (hlb z hz).trans (le_max_right _ _)

omit [DecidableEq R] in
/-- What all replicas hold, merged, with any versions there ever were, has counted every use once. -/
theorem Counting.total [Fintype R] (hdistinct : Function.Injective device) (h : s.Counting device id secret)
    {tree : MergeTree} {w : Item} (hrun : tree.run = .ok w) (hall : ∀ r x, s.held r = some x → x ∈ tree.leaves)
    (honly : ∀ x ∈ tree.leaves, x ∈ s.versions) (hfits : ∑ r, s.uses r < 2 ^ 64) :
    w.usage.total.val = ∑ r, s.uses r := by
  have hslot : ∀ r, (w.usage.forDevice (device r)).val = s.uses r := by
    intro r
    obtain ⟨⟨x, hx, heq⟩, hle⟩ := forDevice_run hrun (device r)
    have hbehind := h.behind x (honly x hx) r
    rw [← heq] at hbehind
    have hone : s.uses r ≤ ∑ q, s.uses q := Finset.single_le_sum (fun q _ => Nat.zero_le _) (Finset.mem_univ r)
    cases hheld : s.held r with
    | none =>
      have hzero := h.absent r hheld
      omega
    | some y =>
      have hown := h.own r y hheld
      have hreached : (y.usage.forDevice (device r)).val ≤ (w.usage.forDevice (device r)).val :=
        hle y (hall r y hheld)
      omega
  have hothers : ∀ d, (∀ r, device r ≠ d) → w.usage.forDevice d = 0 := by
    intro d hd
    obtain ⟨⟨x, hx, heq⟩, -⟩ := forDevice_run hrun d
    rw [heq]
    exact h.others x (honly x hx) d hd
  rw [UsageCounter.val_total, UsageCounter.sum_eq hdistinct hothers, Finset.sum_congr rfl fun r _ => hslot r]
  exact min_eq_left (Nat.le_sub_one_of_lt hfits)

end Uses

/-- Usage counts are exact. In every run of any replicas of one item, each recording under a device of its own, no
version says of a device more than it recorded; what all replicas hold, merged in any order and with any other versions,
adds up to the uses recorded, as long as that is a number of 64 bits; and no replica's total falls. -/
theorem usage_counts_exact {S R : Type} [LawfulStore S] [DecidableEq R] [Fintype R] (E : Externals) (hC : E.cbor.Faithful)
    {device : R → DeviceId} (hdistinct : Function.Injective device) {id : ItemId} {secret : SecretBytes}
    {start s : Uses R} (hstart : start.Fresh id secret)
    (hrun : Relation.ReflTransGen (Uses.Step S E device id) start s) :
    (∀ r x, s.held r = some x → (∀ q, (x.usage.forDevice (device q)).val ≤ s.uses q) ∧
      ∀ d, (∀ q, device q ≠ d) → x.usage.forDevice d = 0) ∧
    (∀ (tree : MergeTree) (w : Item), tree.run = .ok w → (∀ r x, s.held r = some x → x ∈ tree.leaves) →
      (∀ x ∈ tree.leaves, x ∈ s.versions) → ∑ r, s.uses r < 2 ^ 64 → w.usage.total.val = ∑ r, s.uses r) ∧
    ∀ t, Relation.ReflTransGen (Uses.Step S E device id) s t → ∀ r x, s.held r = some x →
      ∃ y, t.held r = some y ∧ x.usage.total ≤ y.usage.total := by
  have hcounting : s.Counting device id secret := hstart.counting.run hdistinct hC hrun
  refine ⟨?_, ?_, ?_⟩
  · intro r x hx
    exact ⟨hcounting.behind x (hcounting.held r x hx), hcounting.others x (hcounting.held r x hx)⟩
  · intro tree w htree hall honly hfits
    exact hcounting.total hdistinct htree hall honly hfits
  · intro t hlater r x hx
    induction hlater with
    | refl => exact ⟨x, hx, le_rfl⟩
    | tail _ hstep ih =>
      obtain ⟨y, hy, hle⟩ := ih
      obtain ⟨z, hz, hle'⟩ := hstep.total_le hC r y hy
      exact ⟨z, hz, hle.trans hle'⟩

/-- A fresh token that device `d` used once. -/
def Item.usedOnce (d : Byte) : Item := { Item.fresh 1 9 0 4 with
  usage := UsageCounter.new.increment (DeviceIdentity.sample d).deviceId 1
  lastUsedAt := (Item.fresh 1 9 0 4).lastUsedAt.set (nowMs ((Ambient.sample 5).clock 0) : WithBot I64) }

/-- The vault of device `d`, which holds the token unused. -/
def Vault.unused (d : Byte) : Vault MemoryStore :=
  { Vault.sample MemoryStore.new [1, 2] with
    device := .sample d
    hlc := .new (DeviceIdentity.sample d).deviceId }.adopt (.item (.fresh 1 9 0 4))

/-- The externals that know the two used tokens. -/
def Externals.usedOnce : Externals := .sample [.usedOnce 1, .usedOnce 2] []

theorem recordUse_unused (d : Byte) (hd : d = 1 ∨ d = 2) : ∃ w : Vault MemoryStore,
    Vault.recordUse .usedOnce (.sample 5) (Item.fresh 1 9 0 4).id (.unused d) = .ok () w ∧
    w.items.get (Item.fresh 1 9 0 4).id = some (.usedOnce d) := by
  have hused : ∀ d ∈ ([1, 2] : List Byte),
      (match Vault.recordUse .usedOnce (.sample 5) (Item.fresh 1 9 0 4).id (.unused d) with
      | .ok _ w => decide (w.items.get (Item.fresh 1 9 0 4).id = some (.usedOnce d))
      | .error _ _ => false) = true := by decide +kernel
  have hmem : d ∈ ([1, 2] : List Byte) := by simpa using hd
  have h := hused d hmem
  cases hcall : Vault.recordUse .usedOnce (.sample 5) (Item.fresh 1 9 0 4).id (.unused d) with
  | ok _ w =>
    rw [hcall] at h
    exact ⟨w, rfl, of_decide_eq_true h⟩
  | error e w =>
    rw [hcall] at h
    cases h

/-- Two devices use the token once each, and the first takes the other's version in: together they counted two, with
that version merged in twice over. -/
theorem usage_counts_exact_first : ∃ (v w : Vault MemoryStore) (both again : Item),
    Vault.recordUse .usedOnce (.sample 5) (Item.fresh 1 9 0 4).id (.unused 1) = .ok () v ∧
    Vault.recordUse .usedOnce (.sample 5) (Item.fresh 1 9 0 4).id (.unused 2) = .ok () w ∧
    v.items.get (Item.fresh 1 9 0 4).id = some (.usedOnce 1) ∧
    w.items.get (Item.fresh 1 9 0 4).id = some (.usedOnce 2) ∧
    (Item.usedOnce 1).joined (.usedOnce 2) = .ok both ∧ both.joined (.usedOnce 2) = .ok again ∧
    again.usage.total.val = 2 := by
  obtain ⟨v, hfirst, hv⟩ := recordUse_unused 1 (.inl rfl)
  obtain ⟨w, hsecond, hw⟩ := recordUse_unused 2 (.inr rfl)
  obtain ⟨both, hboth⟩ : ∃ both, (Item.usedOnce 1).joined (.usedOnce 2) = .ok both := ⟨_, rfl⟩
  obtain ⟨again, hagain⟩ : ∃ again, both.joined (.usedOnce 2) = .ok again := by
    cases hboth
    exact ⟨_, rfl⟩
  -- two replicas, which hold the token from the start
  let device : Bool → DeviceId := fun r => (DeviceIdentity.sample (if r then 2 else 1)).deviceId
  let start : Uses Bool := ⟨fun _ => some (.fresh 1 9 0 4), {.fresh 1 9 0 4}, fun _ => 0⟩
  have hfresh : start.Fresh (Item.fresh 1 9 0 4).id (Item.fresh 1 9 0 4).secret := by
    refine ⟨by simp [start], by simp [start], ?_, fun _ => rfl⟩
    intro x hx
    rw [Set.mem_singleton_iff.mp hx]
    rfl
  let used := start.hold false (some (.usedOnce 1)) 1
  let usedTwice := used.hold true (some (.usedOnce 2)) 1
  have hfirstUse : Uses.Step MemoryStore .usedOnce device (Item.fresh 1 9 0 4).id start used := by
    have hstep : Uses.Step MemoryStore .usedOnce device (Item.fresh 1 9 0 4).id start
        (start.hold false (v.items.get (Item.fresh 1 9 0 4).id) 1) := .recorded rfl rfl hfirst
    rwa [hv] at hstep
  have hsecondUse : Uses.Step MemoryStore .usedOnce device (Item.fresh 1 9 0 4).id used usedTwice := by
    have hstep : Uses.Step MemoryStore .usedOnce device (Item.fresh 1 9 0 4).id used
        (used.hold true (w.items.get (Item.fresh 1 9 0 4).id) 1) := .recorded rfl rfl hsecond
    rwa [hw] at hstep
  have hmerged : Uses.Step MemoryStore .usedOnce device (Item.fresh 1 9 0 4).id usedTwice
      (usedTwice.hold false (some both) 1) :=
    .merged rfl (by simp [usedTwice]) hboth
  have hdistinct : Function.Injective device := by decide
  have hcounts := (usage_counts_exact .usedOnce (Cbor.table_faithful _ _) hdistinct hfresh
    (((Relation.ReflTransGen.single hfirstUse).tail hsecondUse).tail hmerged)).2.1
    (.merge (.version both) (.version (.usedOnce 2))) again hagain
  refine ⟨v, w, both, again, hfirst, hsecond, hv, hw, hboth, hagain, ?_⟩
  rw [hcounts]
  · simp [used, usedTwice, start]
  · simp [used, usedTwice, start, MergeTree.leaves]
  · simp [used, usedTwice, MergeTree.leaves]
  · simp [used, usedTwice, start]

end Misty
