import Misty.Vault.Merge
import Misty.Vault.Edit

/- No credential is lost by a merge. Every item of either side is found in the
   result under its own secret, at an id of its own fork chain, with every clock
   and counter at least as far; and an id the merge does not report keeps exactly
   the item it had. No premise on the clocks: a collision makes the merge fail, and
   a failed merge is not a result. -/
namespace Misty

open Std (ExtTreeMap)

/-- The ids an item with this secret can be forked to, starting from one. -/
def ForkChain (fork : ForkIds) (secret : SecretBytes) : ItemId → ItemId → Prop :=
  Relation.ReflTransGen (fun i j => fork i secret = .ok j)

/-- Every add and remove clock of `s` is reached in `t`. -/
def OrSet.Reached {T : Type} [LinearOrder T] (s t : OrSet T) : Prop :=
  ∀ (k : T) (e : OrSetEntry), s.entries[k]? = some e →
    ∃ e', t.entries[k]? = some e' ∧ e.added ≤ e'.added ∧ e.removed ≤ e'.removed

/-- `y` is at least as far as `x` in every clock and counter. -/
structure Item.Dominates (y x : Item) : Prop where
  registers : ∀ r, (x.register r).hlc ≤ (y.register r).hlc
  groups : x.groups.Reached y.groups
  tags : x.tags.Reached y.tags
  origins : x.origins.Reached y.origins
  tombstone : stoneClock x.deleted ≤ stoneClock y.deleted
  hotpCounter : x.hotpCounter.value ≤ y.hotpCounter.value
  lastUsedAt : x.lastUsedAt.value ≤ y.lastUsedAt.value
  usage : ∀ d, x.usage.forDevice d ≤ y.usage.forDevice d
  createdAt : y.createdAt.value ≤ x.createdAt.value

theorem OrSet.reached_of_view_le {T : Type} [LinearOrder T] {s t : OrSet T} (h : s.view ≤ t.view) :
    s.Reached t := by
  intro k e hk
  obtain ⟨e', hk', hle⟩ := OrdMap.getElem?_of_view_le h hk
  exact ⟨e', hk', hle.1, hle.2⟩

theorem UsageCounter.forDevice_mono {a b : UsageCounter} (h : a.view ≤ b.view) (d : DeviceId) :
    a.forDevice d ≤ b.forDevice d := by
  unfold forDevice
  cases ha : a.perDevice[d]? with
  | none => exact Fin.zero_le _
  | some n =>
    obtain ⟨n', hb, hle⟩ := OrdMap.getElem?_of_view_le h ha
    rw [hb]
    exact hle

theorem Item.dominates_of_clocks {x y : Item} (h : x.clocks ≤ y.clocks) : y.Dominates x := by
  simp only [Item.clocks, Prod.mk_le_mk] at h
  obtain ⟨hreg, hctr, hlast, hcreated, husage, hgroups, htags, horigins, hstone⟩ := h
  exact ⟨hreg, OrSet.reached_of_view_le hgroups, OrSet.reached_of_view_le htags,
    OrSet.reached_of_view_le horigins, hstone, hctr, hlast, UsageCounter.forDevice_mono husage,
    OrderDual.toDual_le_toDual.mp hcreated⟩

namespace ItemSet

variable {fork : ForkIds}

/-- The item is found by walking its fork chain, in an item at least as far. -/
abbrev Keeps (fork : ForkIds) (s : ItemSet) (x : Item) : Prop :=
  (arena fork).Settled Item.clocks s.items x

theorem keeps_of_get {s : ItemSet} {x : Item} (h : s.get x.id = some x) : s.Keeps fork x :=
  .here h rfl le_rfl

theorem absorb_keeps {s s' : ItemSet} {x : Item} {cs cs' : List Conflict} {ids : List ItemId}
    (h : s.absorb fork x cs = (.ok ids, s', cs')) :
    s'.Keeps fork x ∧ (∀ u, s.Keeps fork u → s'.Keeps fork u) ∧
      ∀ i ∉ ids, s'.get i = s.get i := by
  obtain ⟨t, habs, hmem⟩ := absorb_spec h
  have hjoin : ∀ a b w : Item, a.joined b = .ok w → a.clocks ≤ w.clocks ∧ b.clocks ≤ w.clocks := by
    intro a b w hw
    rw [(Item.joined_eq_ok hw).2.2.2]
    exact Item.clocks_later a b
  obtain ⟨hx, hold⟩ := habs.settles Item.clocks_rebind hjoin
  refine ⟨hx, hold, ?_⟩
  intro i hi
  exact habs.unchanged i (fun ht => hi ((hmem i).mpr ht))

theorem Keeps.covered {s : ItemSet} {x : Item} (h : s.Keeps fork x) :
    ∃ y ∈ s.iter, y.secret = x.secret ∧ ForkChain fork x.secret x.id y.id ∧ y.Dominates x := by
  obtain ⟨i, y, hy, hsec, hchain, hle⟩ := Arena.Settled.covered Item.clocks_rebind h
  have hid : y.id = i := s.keyed i y hy
  refine ⟨y, mem_iter.mpr (hid ▸ hy), hsec, ?_, Item.dominates_of_clocks hle⟩
  rw [hid]
  refine Relation.ReflTransGen.mono (fun a b hab => ?_) _ _ hchain
  have hab' : (fork a x.secret).toOption = some b := hab
  cases hf : fork a x.secret with
  | error e =>
    rw [hf] at hab'
    cases hab'
  | ok j =>
    rw [hf] at hab'
    exact congrArg Except.ok (Option.some.inj hab')

/-- A merge that returns has lost no credential of either side, and has changed
nothing it does not report. -/
theorem merge_loses_nothing (fork : ForkIds) (a b r : ItemSet) (cs cs' : List Conflict)
    (touched : List ItemId) (h : a.merge fork b cs = (.ok touched, r, cs')) :
    (∀ x, x ∈ a.iter ∨ x ∈ b.iter → ∃ y ∈ r.iter, y.secret = x.secret ∧
      ForkChain fork x.secret x.id y.id ∧ y.Dominates x) ∧
    ∀ i ∉ touched, r.get i = a.get i := by
  obtain ⟨t, ⟨hkept, hframe⟩, hmem⟩ := mergeLoop_induct
    (fun rest s t => (∀ x, x ∈ a.iter ∨ x ∈ b.iter → s.Keeps fork x ∨ x ∈ rest) ∧
      ∀ i ∉ t, s.get i = a.get i)
    (by
      rintro x rest s s' cs cs' t ids ⟨hkept, hframe⟩ habs
      obtain ⟨hx, hold, hsame⟩ := absorb_keeps habs
      refine ⟨?_, ?_⟩
      · intro u hu
        rcases hkept u hu with hu | hu
        · exact .inl (hold u hu)
        · rcases List.mem_cons.mp hu with rfl | hu
          · exact .inl hx
          · exact .inr hu
      · intro i hi
        rw [List.mem_append, not_or] at hi
        rw [hsame i hi.2, hframe i hi.1])
    b.iter a cs [] touched r cs' ⟨by
      rintro x (hx | hx)
      · exact .inl (keeps_of_get (mem_iter.mp hx))
      · exact .inr hx, fun _ _ => rfl⟩ h
  refine ⟨?_, ?_⟩
  · intro x hx
    rcases hkept x hx with hx | hx
    · exact hx.covered
    · cases hx
  · intro i hi
    exact hframe i (fun ht => hi ((hmem i).mpr ht))

/-- Two devices that hold two secrets under one id. -/
def twoSecretsMerged : Result (List ItemId) × ItemSet × List Conflict :=
  (ItemSet.new.replace (Item.fresh 1 9 0 4)).merge forkBySecret
    (ItemSet.new.replace (Item.fresh 1 8 0 5)) []

theorem merge_loses_nothing_two_secrets :
    twoSecretsMerged.1 = .ok [⟨ByteArr.repeated 16 1⟩, ⟨ByteArr.repeated 16 9⟩] ∧
    ∃ y ∈ twoSecretsMerged.2.1.iter, y.secret = (Item.fresh 1 9 0 4).secret ∧
      y.id = ⟨ByteArr.repeated 16 9⟩ ∧ y.Dominates (Item.fresh 1 9 0 4) := by
  have hrun : twoSecretsMerged = (.ok [⟨ByteArr.repeated 16 1⟩, ⟨ByteArr.repeated 16 9⟩],
      twoSecretsMerged.2.1, twoSecretsMerged.2.2) := by
    decide
  refine ⟨congrArg Prod.fst hrun, ?_⟩
  obtain ⟨y, hy, hsec, -, hdom⟩ := (merge_loses_nothing forkBySecret _ _ _ _ _ _ hrun).1
    (Item.fresh 1 9 0 4) (.inl (by decide))
  have hall : ∀ z ∈ twoSecretsMerged.2.1.iter, z.secret = (Item.fresh 1 9 0 4).secret →
      z.id = ⟨ByteArr.repeated 16 9⟩ := by
    decide
  exact ⟨y, hy, hsec, hall y hy hsec, hdom⟩

end ItemSet

end Misty
