import Misty.Vault.MergeOrder

/- Versions of one item merged in any order. `UnionOf` says field by field what the
   versions hold together, `MergeTree` is an order and a grouping, and one that goes
   through ends with a union of its versions (`MergeTree.unionOf`). The tombstone is the one
   field the order can be seen in. -/
namespace Misty

namespace Item

/-! ## The union of a family -/

/-- The fields of an item that are joined: the counters, the creation time, the usage and the sets. -/
def counters (x : Item) : U64 × WithBot I64 × I64ᵒᵈ × (DeviceId → WithBot U64) × (GroupId → WithBot OrSetEntry) ×
    (Text → WithBot OrSetEntry) × (Text → WithBot OrSetEntry) :=
  (x.hotpCounter.value, x.lastUsedAt.value, OrderDual.toDual x.createdAt.value, x.usage.view, x.groups.view,
    x.tags.view, x.origins.view)

theorem counters_later (x y : Item) : (x.later y).counters = x.counters ⊔ y.counters := by
  simp only [counters, later, MaxWins.merge, MinWins.merge, UsageCounter.view_merge, OrSet.view_merge, toDual_min]
  rfl

/-- The item that holds for every field what the versions say of it together: a register and
the tombstone are the latest version's, everything else is the least upper bound. -/
structure UnionOf (family : List Item) (w : Item) : Prop where
  same : ∀ x ∈ family, x.id = w.id ∧ x.secret = w.secret
  register : ∀ r, (∃ x ∈ family, w.register r = x.register r) ∧
    ∀ x ∈ family, (x.register r).hlc ≤ (w.register r).hlc
  deleted : (∃ x ∈ family, w.deleted = x.deleted) ∧ ∀ x ∈ family, stoneClock x.deleted ≤ stoneClock w.deleted
  counters : IsLUB {c | ∃ x ∈ family, c = x.counters} w.counters

namespace UnionOf

theorem single (x : Item) : UnionOf [x] x where
  same := by simp
  register := by simp
  deleted := by simp
  counters := by
    have h : {c | ∃ y ∈ [x], c = y.counters} = {x.counters} := by
      ext c
      simp
    rw [h]
    exact isLUB_singleton

theorem perm {family other : List Item} {w : Item} (h : UnionOf family w) (hperm : family.Perm other) :
    UnionOf other w := by
  have hmem : ∀ x, x ∈ other ↔ x ∈ family := fun x => hperm.mem_iff.symm
  exact ⟨by simpa only [hmem] using h.same, by simpa only [hmem] using h.register,
    by simpa only [hmem] using h.deleted, by simpa only [hmem] using h.counters⟩

theorem later {xs ys : List Item} {a b : Item} (ha : UnionOf xs a) (hb : UnionOf ys b) (hid : a.id = b.id)
    (hsecret : a.secret = b.secret) : UnionOf (xs ++ ys) (a.later b) where
  same x hx := by
    rcases List.mem_append.mp hx with hx | hx
    · exact ha.same x hx
    · exact ⟨(hb.same x hx).1.trans hid.symm, (hb.same x hx).2.trans hsecret.symm⟩
  register r := by
    constructor
    · rw [register_later]
      rcases Lww.later_eq_or (a.register r) (b.register r) with h | h
      · obtain ⟨x, hx, hr⟩ := (ha.register r).1
        exact ⟨x, List.mem_append_left _ hx, h.trans hr⟩
      · obtain ⟨x, hx, hr⟩ := (hb.register r).1
        exact ⟨x, List.mem_append_right _ hx, h.trans hr⟩
    · intro x hx
      rw [register_later, Lww.hlc_later]
      rcases List.mem_append.mp hx with hx | hx
      · exact ((ha.register r).2 x hx).trans (le_max_left ..)
      · exact ((hb.register r).2 x hx).trans (le_max_right ..)
  deleted := by
    constructor
    · rcases mergeTombstone_eq_or a.deleted b.deleted with h | h
      · obtain ⟨x, hx, hd⟩ := ha.deleted.1
        exact ⟨x, List.mem_append_left _ hx, h.trans hd⟩
      · obtain ⟨x, hx, hd⟩ := hb.deleted.1
        exact ⟨x, List.mem_append_right _ hx, h.trans hd⟩
    · intro x hx
      have hclock : stoneClock (a.later b).deleted = max (stoneClock a.deleted) (stoneClock b.deleted) :=
        stoneClock_merge ..
      rw [hclock]
      rcases List.mem_append.mp hx with hx | hx
      · exact (ha.deleted.2 x hx).trans (le_max_left ..)
      · exact (hb.deleted.2 x hx).trans (le_max_right ..)
  counters := by
    -- the union over both lists is the join of the two unions
    have hsplit : {c | ∃ x ∈ xs ++ ys, c = x.counters} =
        {c | ∃ x ∈ xs, c = x.counters} ∪ {c | ∃ x ∈ ys, c = x.counters} := by
      ext c
      simp only [List.mem_append, Set.mem_union, Set.mem_ofPred_eq, or_and_right, exists_or]
    rw [hsplit, counters_later]
    exact ha.counters.union hb.counters

/-- A union is settled by its tombstone, as long as no clock stands for two values. -/
theorem unique {family : List Item} {v w : Item} (hagree : ∀ x ∈ family, ∀ y ∈ family, x.Agrees y)
    (hv : UnionOf family v) (hw : UnionOf family w) (hdeleted : v.deleted = w.deleted) : v = w := by
  obtain ⟨x, hx, -⟩ := hv.deleted.1
  have hregister : ∀ r, v.register r = w.register r := by
    intro r
    obtain ⟨y, hy, hry⟩ := (hv.register r).1
    obtain ⟨z, hz, hrz⟩ := (hw.register r).1
    have hle : (v.register r).hlc ≤ (w.register r).hlc := hry ▸ (hw.register r).2 y hy
    have hge : (w.register r).hlc ≤ (v.register r).hlc := hrz ▸ (hv.register r).2 z hz
    have hclock := le_antisymm hle hge
    rw [hry, hrz] at hclock ⊢
    exact (hagree y hy z hz r).eq hclock
  have hcounters := hv.counters.unique hw.counters
  refine ext_content ((hv.same x hx).1.symm.trans (hw.same x hx).1) ((hv.same x hx).2.symm.trans (hw.same x hx).2) ?_
  simp only [Item.counters, Prod.mk.injEq] at hcounters
  simp only [content, Prod.mk.injEq, hcounters, hdeleted, and_true]
  exact funext hregister

end UnionOf

end Item

/-! ## MergeTree a family -/

/-- An order to merge versions in. -/
inductive MergeTree where
  | version (x : Item)
  | merge (l r : MergeTree)

namespace MergeTree

/-- The versions merged. -/
def leaves : MergeTree → List Item
  | version x => [x]
  | merge l r => l.leaves ++ r.leaves

/-- What `Item::merge` makes of them. -/
def run : MergeTree → Result Item
  | version x => .ok x
  | merge l r => do
    let a ← l.run
    let b ← r.run
    a.joined b

/-- One version first, the others merged into it one after the other. -/
def chain (x : Item) (rest : List Item) : MergeTree := rest.foldl (fun t y => .merge t (.version y)) (.version x)

theorem leaves_foldl (rest : List Item) : ∀ t : MergeTree,
    (rest.foldl (fun t y => MergeTree.merge t (.version y)) t).leaves = t.leaves ++ rest := by
  induction rest with
  | nil => simp
  | cons y rest ih =>
    intro t
    rw [List.foldl_cons, ih, leaves, leaves, List.append_assoc]
    rfl

@[simp] theorem leaves_chain (x : Item) (rest : List Item) : (chain x rest).leaves = x :: rest := by
  rw [chain, leaves_foldl]
  rfl

theorem mergeTombstone_eq_left {a b : Option Tombstone} (h : stoneClock b ≤ stoneClock a) :
    mergeTombstone a b = a := by
  cases a with
  | none =>
    cases b with
    | none => rfl
    | some u => exact absurd h (WithBot.not_coe_le_bot u.hlc)
  | some t =>
    cases b with
    | none => rfl
    | some u => exact if_neg (not_lt.mpr (WithBot.coe_le_coe.mp h))

theorem deleted_foldl (rest : List Item) : ∀ (t : MergeTree) (v : Item),
    (rest.foldl (fun t y => MergeTree.merge t (.version y)) t).run = .ok v →
    ∃ a, t.run = .ok a ∧ ((∀ y ∈ rest, stoneClock y.deleted ≤ stoneClock a.deleted) → v.deleted = a.deleted) := by
  induction rest with
  | nil =>
    intro t v hrun
    exact ⟨v, hrun, fun _ => rfl⟩
  | cons y rest ih =>
    intro t v hrun
    obtain ⟨b, hb, hkeep⟩ := ih _ v hrun
    obtain ⟨a, ha, hb⟩ := bind_eq_ok.mp hb
    obtain ⟨y', hy, hjoined⟩ := bind_eq_ok.mp hb
    cases hy
    refine ⟨a, ha, fun hlatest => ?_⟩
    have hdeleted : b.deleted = a.deleted := by
      rw [(Item.joined_eq_ok hjoined).2.2.2]
      exact mergeTombstone_eq_left (hlatest y List.mem_cons_self)
    rw [hdeleted] at hkeep
    exact hkeep fun z hz => hlatest z (List.mem_cons_of_mem _ hz)

/-- A merging that goes through ends with a union of its versions. -/
theorem unionOf : ∀ {t : MergeTree} {w : Item}, t.run = .ok w → w.UnionOf t.leaves
  | .version x, w, h => by
    cases h
    exact .single x
  | .merge l r, w, h => by
    obtain ⟨a, ha, h₁⟩ := bind_eq_ok.mp h
    obtain ⟨b, hb, hjoined⟩ := bind_eq_ok.mp h₁
    obtain ⟨hid, hsecret, -, rfl⟩ := Item.joined_eq_ok hjoined
    exact (unionOf ha).later (unionOf hb) hid hsecret

end MergeTree

end Misty
