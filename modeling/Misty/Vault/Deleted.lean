import Misty.Vault.Union
import Misty.Vault.Move
import Misty.Vault.Phases

/- Deletion is decided by the latest clocks of all versions. The three lists of clocks the
   source writes out (`max_field_hlc`, `every_hlc` and the merge itself) name the same
   clocks: `fieldClocks` is their common reading, `maxFieldHlc` is its greatest element and
   a merge takes the greater of two (`maxFieldHlc_later`). Using a token touches none of
   them (`Uses`). -/
namespace Misty

open Std (ExtTreeMap)

/-! ## Greatest clocks -/

theorem isGreatest_foldl_max {α : Type*} [LinearOrder α] (l : List α) : ∀ a : α,
    IsGreatest {h | h = a ∨ h ∈ l} (l.foldl max a) := by
  induction l with
  | nil =>
    intro a
    refine ⟨.inl rfl, ?_⟩
    rintro h (rfl | hmem)
    · exact le_rfl
    · simp at hmem
  | cons b rest ih =>
    intro a
    obtain ⟨hmem, hle⟩ := ih (max a b)
    constructor
    · rcases hmem with hmax | hrest
      · rcases max_choice a b with hab | hab
        · exact .inl (hmax.trans hab)
        · exact .inr (List.mem_cons.mpr (.inl (hmax.trans hab)))
      · exact .inr (List.mem_cons_of_mem _ hrest)
    · rintro h (rfl | hmem)
      · exact (le_max_left ..).trans (hle (.inl rfl))
      · rcases List.mem_cons.mp hmem with rfl | hmem
        · exact (le_max_right ..).trans (hle (.inl rfl))
        · exact hle (.inr hmem)

/-- The clocks of an element. -/
def OrSetEntry.Carries (self : OrSetEntry) (h : Hlc) : Prop := h = self.added ∨ self.removed = (h : WithBot Hlc)

theorem OrSetEntry.mem_toList {e : OrSetEntry} {h : Hlc} : h ∈ e.added :: e.removed.toList ↔ e.Carries h := by
  unfold OrSetEntry.Carries
  rw [List.mem_cons]
  cases e.removed with
  | bot => simp [Option.toList]
  | coe r =>
    have hlist : h ∈ (r : WithBot Hlc).toList ↔ h = r := List.mem_singleton
    rw [hlist, WithBot.coe_inj, eq_comm (a := r)]

theorem OrSetEntry.isGreatest_maxHlc (e : OrSetEntry) : IsGreatest {h | e.Carries h} e.maxHlc := by
  obtain ⟨added, removed⟩ := e
  cases removed with
  | bot => exact ⟨.inl rfl, fun h hh => hh.elim (fun h => h.le) (fun h => absurd h.symm WithBot.coe_ne_bot)⟩
  | coe r =>
    have hmax : OrSetEntry.maxHlc ⟨added, r⟩ = max added r := OrSetEntry.if_lt_eq_max added r
    rw [hmax]
    constructor
    · rcases max_choice added r with h | h
      · exact .inl h
      · exact .inr (congrArg _ h.symm)
    · intro h hh
      rcases hh with hh | hh
      · exact hh ▸ le_max_left ..
      · exact WithBot.coe_inj.mp hh ▸ le_max_right ..

theorem Item.mem_setHlcs {T : Type} [LinearOrder T] {s : OrSet T} {h : Hlc} :
    h ∈ Item.setHlcs s ↔ ∃ (k : T) (e : OrSetEntry), s.entries[k]? = some e ∧ e.Carries h := by
  unfold Item.setHlcs
  rw [List.mem_flatMap]
  constructor
  · intro hmem
    obtain ⟨p, hp, hh⟩ := hmem
    exact ⟨p.1, p.2, OrdMap.mem_toList.mp hp, OrSetEntry.mem_toList.mp hh⟩
  · intro hmem
    obtain ⟨k, e, hget, hh⟩ := hmem
    exact ⟨(k, e), OrdMap.mem_toList.mpr hget, OrSetEntry.mem_toList.mpr hh⟩

/-- The clock of a set is the greatest of its elements' clocks, and there is none where there are no elements. -/
theorem OrSet.maxHlc_eq_none {T : Type} [LinearOrder T] {s : OrSet T} (h : s.maxHlc = none) :
    ∀ hlc, hlc ∉ Item.setHlcs s := by
  intro hlc hmem
  obtain ⟨k, e, hget, -⟩ := Item.mem_setHlcs.mp hmem
  unfold OrSet.maxHlc at h
  rw [List.max?_eq_none_iff, List.map_eq_nil_iff] at h
  have hp := OrdMap.mem_toList.mpr hget
  rw [h] at hp
  cases hp

theorem OrSet.maxHlc_eq_some {T : Type} [LinearOrder T] {s : OrSet T} {m : Hlc} (h : s.maxHlc = some m) :
    IsGreatest {hlc | hlc ∈ Item.setHlcs s} m := by
  unfold OrSet.maxHlc at h
  rw [List.max?_eq_some_iff] at h
  obtain ⟨hmem, hle⟩ := h
  obtain ⟨p, hp, rfl⟩ := List.mem_map.mp hmem
  constructor
  · exact Item.mem_setHlcs.mpr ⟨p.1, p.2, OrdMap.mem_toList.mp hp, p.2.isGreatest_maxHlc.1⟩
  · intro hlc hh
    obtain ⟨k, e, hget, hcarries⟩ := Item.mem_setHlcs.mp hh
    exact (e.isGreatest_maxHlc.2 hcarries).trans
      (hle _ (List.mem_map.mpr ⟨(k, e), OrdMap.mem_toList.mpr hget, rfl⟩))

/-- The clocks of a merged set are clocks of the two, and none of theirs is above all of its own. -/
theorem OrSet.setHlcs_merge {T : Type} [LinearOrder T] {a b : OrSet T} {h : Hlc}
    (hmem : h ∈ Item.setHlcs (a.merge b)) : h ∈ Item.setHlcs a ∨ h ∈ Item.setHlcs b := by
  obtain ⟨k, e, hget, hcarries⟩ := Item.mem_setHlcs.mp hmem
  unfold OrSet.merge at hget
  rw [OrdMap.getElem?_joinWith] at hget
  rcases OrdMap.meet_eq_some hget with hk | hk | ⟨f, g, hf, hg, rfl⟩
  · exact .inl (Item.mem_setHlcs.mpr ⟨k, e, hk, hcarries⟩)
  · exact .inr (Item.mem_setHlcs.mpr ⟨k, e, hk, hcarries⟩)
  · have hside : f.Carries h ∨ g.Carries h := by
      unfold OrSetEntry.Carries OrSetEntry.merge at *
      dsimp only at hcarries
      rcases hcarries with hadded | hremoved
      · split at hadded
        · exact .inr (.inl hadded)
        · exact .inl (.inl hadded)
      · split at hremoved
        · exact .inr (.inr hremoved)
        · exact .inl (.inr hremoved)
    rcases hside with hside | hside
    · exact .inl (Item.mem_setHlcs.mpr ⟨k, f, hf, hside⟩)
    · exact .inr (Item.mem_setHlcs.mpr ⟨k, g, hg, hside⟩)

theorem OrSet.setHlcs_mono {T : Type} [LinearOrder T] {a b : OrSet T} (hle : a.view ≤ b.view) {h : Hlc}
    (hmem : h ∈ Item.setHlcs a) : ∃ h' ∈ Item.setHlcs b, h ≤ h' := by
  obtain ⟨k, e, hget, hcarries⟩ := Item.mem_setHlcs.mp hmem
  obtain ⟨f, hf, hef⟩ := OrdMap.getElem?_of_view_le hle hget
  obtain ⟨hadded, hremoved⟩ := OrSetEntry.le_def.mp hef
  rcases hcarries with rfl | hr
  · exact ⟨f.added, Item.mem_setHlcs.mpr ⟨k, f, hf, .inl rfl⟩, hadded⟩
  · rw [hr] at hremoved
    cases hfr : f.removed with
    | bot =>
      rw [hfr] at hremoved
      exact absurd hremoved (WithBot.not_coe_le_bot h)
    | coe r =>
      rw [hfr] at hremoved
      exact ⟨r, Item.mem_setHlcs.mpr ⟨k, f, hf, .inr hfr⟩, WithBot.coe_le_coe.mp hremoved⟩

/-! ## The clocks of an item -/

namespace Item

/-- The clocks of the fields: of every register, and of every element of the three sets. -/
def fieldClocks (x : Item) : Set Hlc :=
  {h | (∃ r, h = (x.register r).hlc) ∨ h ∈ setHlcs x.groups ∨ h ∈ setHlcs x.tags ∨ h ∈ setHlcs x.origins}

theorem mem_registerHlcs {x : Item} {h : Hlc} : h ∈ x.registerHlcs ↔ ∃ r, h = (x.register r).hlc := by
  constructor
  · intro hmem
    simp only [registerHlcs, List.mem_cons, List.not_mem_nil, or_false] at hmem
    rcases hmem with h | h | h | h | h | h | h | h | h | h | h | h | h | h | h | h | h
    exacts [⟨.kind, h⟩, ⟨.algorithm, h⟩, ⟨.digits, h⟩, ⟨.period, h⟩, ⟨.pin, h⟩, ⟨.issuer, h⟩, ⟨.account, h⟩,
      ⟨.nickname, h⟩, ⟨.note, h⟩, ⟨.icon, h⟩, ⟨.color, h⟩, ⟨.favorite, h⟩, ⟨.manualOrder, h⟩, ⟨.archived, h⟩,
      ⟨.hidden, h⟩, ⟨.requiresRevealAuth, h⟩, ⟨.trashedAt, h⟩]
  · intro hr
    obtain ⟨r, rfl⟩ := hr
    cases r <;> simp [registerHlcs, register]

/-- `max_field_hlc` is the greatest clock of the fields. -/
theorem isGreatest_maxFieldHlc (x : Item) : IsGreatest x.fieldClocks x.maxFieldHlc := by
  have hregisters := isGreatest_foldl_max x.registerHlcs x.issuer.hlc
  have hall := isGreatest_foldl_max ([x.groups.maxHlc, x.tags.maxHlc, x.origins.maxHlc].filterMap (fun h => h))
    (x.registerHlcs.foldl max x.issuer.hlc)
  have hsets : ∀ h, h ∈ [x.groups.maxHlc, x.tags.maxHlc, x.origins.maxHlc].filterMap (fun h => h) ↔
      x.groups.maxHlc = some h ∨ x.tags.maxHlc = some h ∨ x.origins.maxHlc = some h := by
    intro h
    simp [List.mem_filterMap, eq_comm]
  constructor
  · rcases hall.1 with hmax | hset
    · refine .inl (mem_registerHlcs.mp ?_)
      unfold maxFieldHlc
      dsimp only
      rw [hmax]
      rcases hregisters.1 with hissuer | hmem
      · rw [hissuer]
        exact mem_registerHlcs.mpr ⟨.issuer, rfl⟩
      · exact hmem
    · rcases (hsets _).mp hset with h | h | h
      · exact .inr (.inl (OrSet.maxHlc_eq_some h).1)
      · exact .inr (.inr (.inl (OrSet.maxHlc_eq_some h).1))
      · exact .inr (.inr (.inr (OrSet.maxHlc_eq_some h).1))
  · have hset : ∀ {T : Type} [LinearOrder T] (s : OrSet T), (∀ m, s.maxHlc = some m → m ≤ x.maxFieldHlc) →
        ∀ h ∈ setHlcs s, h ≤ x.maxFieldHlc := by
      intro T _ s hle h hmem
      cases hm : s.maxHlc with
      | none => exact absurd hmem (OrSet.maxHlc_eq_none hm h)
      | some m => exact ((OrSet.maxHlc_eq_some hm).2 hmem).trans (hle m hm)
    intro h hmem
    rcases hmem with hr | hmem | hmem | hmem
    · exact (hregisters.2 (.inr (mem_registerHlcs.mpr hr))).trans (hall.2 (.inl rfl))
    · exact hset x.groups (fun m hm => hall.2 (.inr ((hsets m).mpr (.inl hm)))) h hmem
    · exact hset x.tags (fun m hm => hall.2 (.inr ((hsets m).mpr (.inr (.inl hm))))) h hmem
    · exact hset x.origins (fun m hm => hall.2 (.inr ((hsets m).mpr (.inr (.inr hm))))) h hmem

theorem fieldClocks_later {a b : Item} {h : Hlc} (hmem : h ∈ (a.later b).fieldClocks) :
    h ∈ a.fieldClocks ∨ h ∈ b.fieldClocks := by
  rcases hmem with ⟨r, rfl⟩ | hmem | hmem | hmem
  · rw [register_later]
    rcases Lww.later_eq_or (a.register r) (b.register r) with hr | hr
    · exact .inl (.inl ⟨r, congrArg Lww.hlc hr⟩)
    · exact .inr (.inl ⟨r, congrArg Lww.hlc hr⟩)
  · exact (OrSet.setHlcs_merge hmem).imp (fun h => .inr (.inl h)) (fun h => .inr (.inl h))
  · exact (OrSet.setHlcs_merge hmem).imp (fun h => .inr (.inr (.inl h))) (fun h => .inr (.inr (.inl h)))
  · exact (OrSet.setHlcs_merge hmem).imp (fun h => .inr (.inr (.inr h))) (fun h => .inr (.inr (.inr h)))

theorem maxFieldHlc_later (a b : Item) : (a.later b).maxFieldHlc = max a.maxFieldHlc b.maxFieldHlc := by
  have hgrows : ∀ {x : Item}, x.clocks ≤ (a.later b).clocks → x.maxFieldHlc ≤ (a.later b).maxFieldHlc := by
    intro x hle
    simp only [clocks, Prod.mk_le_mk] at hle
    obtain ⟨hregisters, -, -, -, -, hgroups, htags, horigins, -⟩ := hle
    have hset : ∀ {T : Type} [LinearOrder T] {s s' : OrSet T}, s.view ≤ s'.view → x.maxFieldHlc ∈ setHlcs s →
        (∀ h ∈ setHlcs s', h ≤ (a.later b).maxFieldHlc) → x.maxFieldHlc ≤ (a.later b).maxFieldHlc := by
      intro T _ s s' hview hmem hbound
      obtain ⟨h', hmem', hh⟩ := OrSet.setHlcs_mono hview hmem
      exact hh.trans (hbound h' hmem')
    have hbound := (a.later b).isGreatest_maxFieldHlc.2
    rcases x.isGreatest_maxFieldHlc.1 with ⟨r, hr⟩ | hmem | hmem | hmem
    · rw [hr]
      exact (hregisters r).trans (hbound (.inl ⟨r, rfl⟩))
    · exact hset hgroups hmem fun h hh => hbound (.inr (.inl hh))
    · exact hset htags hmem fun h hh => hbound (.inr (.inr (.inl hh)))
    · exact hset horigins hmem fun h hh => hbound (.inr (.inr (.inr hh)))
  refine le_antisymm ?_ (max_le (hgrows (clocks_later a b).1) (hgrows (clocks_later a b).2))
  rcases fieldClocks_later (a.later b).isGreatest_maxFieldHlc.1 with h | h
  · exact (a.isGreatest_maxFieldHlc.2 h).trans (le_max_left ..)
  · exact (b.isGreatest_maxFieldHlc.2 h).trans (le_max_right ..)

theorem coe_maxHlc (x : Item) : (x.maxHlc : WithBot Hlc) = max (x.maxFieldHlc : WithBot Hlc) (stoneClock x.deleted) := by
  unfold maxHlc
  cases x.deleted with
  | none => exact (max_eq_left bot_le).symm
  | some stone => exact (WithBot.coe_max _ _)

theorem maxHlc_later (a b : Item) : (a.later b).maxHlc = max a.maxHlc b.maxHlc := by
  refine WithBot.coe_inj.mp ?_
  have hstone : stoneClock (a.later b).deleted = max (stoneClock a.deleted) (stoneClock b.deleted) := stoneClock_merge ..
  rw [WithBot.coe_max, coe_maxHlc, coe_maxHlc, coe_maxHlc, maxFieldHlc_later, hstone, WithBot.coe_max]
  exact max_max_max_comm ..

theorem isDeleted_iff (x : Item) : x.isDeleted = true ↔ (x.maxFieldHlc : WithBot Hlc) < stoneClock x.deleted := by
  unfold isDeleted tombstoneWins
  cases x.deleted with
  | none => exact ⟨fun h => absurd h (by simp), fun h => absurd h not_lt_bot⟩
  | some stone =>
    simp only [Option.any_some, decide_eq_true_eq]
    exact WithBot.coe_lt_coe.symm

theorem mem_everyHlc {x : Item} {h : Hlc} :
    h ∈ x.everyHlc ↔ h ∈ x.fieldClocks ∨ stoneClock x.deleted = (h : WithBot Hlc) := by
  have hstone : h ∈ x.deleted.toList.map Tombstone.hlc ↔ stoneClock x.deleted = (h : WithBot Hlc) := by
    cases x.deleted with
    | none => exact ⟨fun h => absurd h (by simp), fun h => absurd h.symm WithBot.coe_ne_bot⟩
    | some stone =>
      rw [Option.toList_some, List.map_singleton, List.mem_singleton, eq_comm]
      exact WithBot.coe_inj.symm
  simp only [everyHlc, List.mem_append, mem_registerHlcs, hstone, fieldClocks, Set.mem_ofPred_eq, or_assoc]

/-- `max_hlc` is the greatest of the clocks `every_hlc` lists. -/
theorem isGreatest_maxHlc (x : Item) : IsGreatest {h | h ∈ x.everyHlc} x.maxHlc := by
  have hmax := x.coe_maxHlc
  constructor
  · rw [Set.mem_ofPred_eq, mem_everyHlc]
    rcases max_choice (x.maxFieldHlc : WithBot Hlc) (stoneClock x.deleted) with h | h
    · rw [h] at hmax
      rw [WithBot.coe_inj.mp hmax]
      exact .inl x.isGreatest_maxFieldHlc.1
    · exact .inr (hmax.trans h).symm
  · intro h hmem
    refine WithBot.coe_le_coe.mp ?_
    rw [hmax]
    rcases mem_everyHlc.mp hmem with hfield | hstone
    · exact (WithBot.coe_le_coe.mpr (x.isGreatest_maxFieldHlc.2 hfield)).trans (le_max_left ..)
    · exact hstone ▸ le_max_right ..

end Item

/-! ## The merge of a family -/

/-- What a merge takes the greater of, the merge of a family takes the greatest of. -/
theorem MergeTree.isGreatest {f : Item → Hlc} (hf : ∀ a b : Item, f (a.later b) = max (f a) (f b)) :
    ∀ {t : MergeTree} {w : Item}, t.run = .ok w → IsGreatest {h | ∃ x ∈ t.leaves, h = f x} (f w)
  | .version x, w, hrun => by
    cases hrun
    refine ⟨⟨x, by simp [MergeTree.leaves], rfl⟩, ?_⟩
    rintro h ⟨y, hy, rfl⟩
    rw [List.mem_singleton.mp hy]
  | .merge l r, w, hrun => by
    obtain ⟨a, ha, h₁⟩ := bind_eq_ok.mp hrun
    obtain ⟨b, hb, hjoined⟩ := bind_eq_ok.mp h₁
    obtain ⟨-, -, -, rfl⟩ := Item.joined_eq_ok hjoined
    obtain ⟨hla, hlea⟩ := isGreatest hf ha
    obtain ⟨hrb, hleb⟩ := isGreatest hf hb
    rw [hf]
    constructor
    · rcases max_choice (f a) (f b) with h | h
      · obtain ⟨x, hx, hfx⟩ := hla
        exact ⟨x, List.mem_append_left _ hx, h.trans hfx⟩
      · obtain ⟨x, hx, hfx⟩ := hrb
        exact ⟨x, List.mem_append_right _ hx, h.trans hfx⟩
    · rintro h ⟨x, hx, rfl⟩
      rcases List.mem_append.mp hx with hx | hx
      · exact (hlea ⟨x, hx, rfl⟩).trans (le_max_left ..)
      · exact (hleb ⟨x, hx, rfl⟩).trans (le_max_right ..)

/-- Some version carries a tombstone later than every clock of every version's fields. -/
def Outlived (versions : List Item) : Prop :=
  ∃ x ∈ versions, ∃ stone, x.deleted = some stone ∧ ∀ y ∈ versions, ∀ h ∈ y.fieldClocks, h < stone.hlc

theorem MergeTree.isDeleted_iff {t : MergeTree} {w : Item} (hrun : t.run = .ok w) :
    w.isDeleted = true ↔ Outlived t.leaves := by
  obtain ⟨⟨x, hx, hstone⟩, hlatest⟩ := (unionOf hrun).deleted
  obtain ⟨⟨z, hz, hfield⟩, hbound⟩ := isGreatest Item.maxFieldHlc_later hrun
  rw [Item.isDeleted_iff]
  constructor
  · intro hlt
    rw [hstone] at hlt
    cases hd : x.deleted with
    | none =>
      rw [hd] at hlt
      exact absurd hlt not_lt_bot
    | some stone =>
      rw [hd] at hlt
      refine ⟨x, hx, stone, hd, fun y hy h hh => ?_⟩
      exact ((y.isGreatest_maxFieldHlc.2 hh).trans (hbound ⟨y, hy, rfl⟩)).trans_lt (WithBot.coe_lt_coe.mp hlt)
  · intro hout
    obtain ⟨y, hy, stone, hd, hlate⟩ := hout
    have hlt : w.maxFieldHlc < stone.hlc := hfield ▸ hlate z hz _ z.isGreatest_maxFieldHlc.1
    have hle := hlatest y hy
    rw [hd] at hle
    exact (WithBot.coe_lt_coe.mpr hlt).trans_le hle

/-! ## Using a token is no edit -/

/-- A copy of an item that was only used: `record_use`, `advance_hotp_counter` and `set_hotp_counter`, any number of
times on any device. -/
inductive Item.Uses : Item → Item → Prop
  | refl (x : Item) : Uses x x
  | recordUse {x y : Item} (device : DeviceId) (now : I64) : Uses x y →
      Uses x { y with usage := y.usage.increment device 1, lastUsedAt := y.lastUsedAt.set (now : WithBot I64) }
  | setCounter {x y : Item} (counter : U64) : Uses x y →
      Uses x { y with hotpCounter := y.hotpCounter.set counter }

theorem Item.Uses.id_eq {x y : Item} (h : x.Uses y) : y.id = x.id := by
  induction h with
  | refl => rfl
  | recordUse _ _ _ ih => exact ih
  | setCounter _ _ ih => exact ih

theorem Item.Uses.clocks {x y : Item} (h : x.Uses y) : y.fieldClocks = x.fieldClocks ∧ y.deleted = x.deleted := by
  induction h with
  | refl => exact ⟨rfl, rfl⟩
  | @recordUse y device now _ ih =>
    refine ⟨?_, ih.2⟩
    rw [← ih.1]
    ext h
    have hr : ∀ r, (Item.register { y with
        usage := y.usage.increment device 1, lastUsedAt := y.lastUsedAt.set (now : WithBot I64) } r).hlc =
        (y.register r).hlc := by
      intro r
      cases r <;> rfl
    simp only [Item.fieldClocks, hr]
  | @setCounter y counter _ ih =>
    refine ⟨?_, ih.2⟩
    rw [← ih.1]
    ext h
    have hr : ∀ r, (Item.register { y with hotpCounter := y.hotpCounter.set counter } r).hlc = (y.register r).hlc := by
      intro r
      cases r <;> rfl
    simp only [Item.fieldClocks, hr]

theorem outlived_of_clocks {versions others : List Item}
    (h : ∀ x ∈ versions, ∃ y ∈ others, y.fieldClocks = x.fieldClocks ∧ y.deleted = x.deleted)
    (h' : ∀ y ∈ others, ∃ x ∈ versions, y.fieldClocks = x.fieldClocks ∧ y.deleted = x.deleted)
    (hout : Outlived versions) : Outlived others := by
  obtain ⟨x, hx, stone, hstone, hlate⟩ := hout
  obtain ⟨y, hy, -, hdeleted⟩ := h x hx
  refine ⟨y, hy, stone, hdeleted.trans hstone, fun z hz hlc hmem => ?_⟩
  obtain ⟨u, hu, hclocks, -⟩ := h' z hz
  exact hlate u hu hlc (hclocks ▸ hmem)

/-- A replica that saw the uses and one that did not agree on what is deleted. -/
theorem outlived_of_uses {versions used : List Item} (h : List.Forall₂ Item.Uses versions used) :
    Outlived used ↔ Outlived versions := by
  have hright : ∀ x ∈ versions, ∃ y ∈ used, y.fieldClocks = x.fieldClocks ∧ y.deleted = x.deleted := by
    intro x hx
    obtain ⟨y, hy, huses⟩ := Merging.exists_of_forall₂ h x hx
    exact ⟨y, hy, huses.clocks⟩
  have hleft : ∀ y ∈ used, ∃ x ∈ versions, y.fieldClocks = x.fieldClocks ∧ y.deleted = x.deleted := by
    intro y hy
    obtain ⟨x, hx, huses⟩ := Merging.exists_of_forall₂ h.flip y hy
    exact ⟨x, hx, Item.Uses.clocks huses⟩
  constructor
  · intro hout
    refine outlived_of_clocks ?_ ?_ hout
    · intro y hy
      obtain ⟨x, hx, hclocks, hdeleted⟩ := hleft y hy
      exact ⟨x, hx, hclocks.symm, hdeleted.symm⟩
    · intro x hx
      obtain ⟨y, hy, hclocks, hdeleted⟩ := hright x hx
      exact ⟨y, hy, hclocks.symm, hdeleted.symm⟩
  · exact outlived_of_clocks hright hleft

/-- The operations that only use a token. -/
def ObjectOp.IsUse : ObjectOp → Prop
  | recordUse _ | advanceHotpCounter _ | setHotpCounter .. => True
  | _ => False

section Vaults

variable {S : Type} [LawfulStore S] {E : Externals} {amb : Ambient}

/-- Every item of one vault is an item of the other that was only used. -/
def OnlyUsed (v w : Vault S) : Prop := ∀ id, Option.Rel Item.Uses (v.items.get id) (w.items.get id)

theorem commit_adopted (o : Decoded) (v : Vault S) :
    Meets (Vault.commit E amb o) v (fun _ w => w.items = (v.adopt o).items) (fun _ w => w.items = v.items) := by
  have hadopted : ∀ {u : Vault S}, u.items = v.items → (u.adopt o).items = (v.adopt o).items := by
    intro u hu
    cases o with
    | item x => exact congrArg (·.replace x) hu
    | group g => exact hu
  apply Meets.bind
  apply Meets.bind
  apply (record_spec E amb o v).mono
  · intro r u h
    apply Meets.pure
    apply (settle_spec _ u).mono
    · intro _ w hsettled
      obtain ⟨s, -, -, rfl⟩ := hsettled
      exact hadopted h.1.items
    · intro e w herr
      obtain ⟨⟨s, rfl⟩, -⟩ := herr
      exact h.1.items
  · intro e u h
    exact h.1.items

theorem commit_items (x : Item) (v : Vault S) :
    Meets (Vault.commit E amb (.item x)) v (fun _ w => w.items = v.items.replace x) (fun _ w => w.items = v.items) :=
  commit_adopted (.item x) v

omit [LawfulStore S] in
theorem onlyUsed_of_items {v w : Vault S} (h : w.items = v.items) : OnlyUsed v w := by
  intro id
  rw [h]
  cases v.items.get id with
  | none => exact .none
  | some x => exact .some (.refl x)

omit [LawfulStore S] in
theorem onlyUsed_of_replace {v w : Vault S} {x y : Item} (hx : v.items.get x.id = some x)
    (huses : x.Uses y) (h : w.items = v.items.replace y) : OnlyUsed v w := by
  intro id
  rw [h, ItemSet.get_replace]
  by_cases hy : y.id = id
  · rw [if_pos hy, ← hy, huses.id_eq, hx]
    exact .some huses
  · rw [if_neg hy]
    exact onlyUsed_of_items rfl id

omit [LawfulStore S] in
theorem isUse_draft {op : ObjectOp} (hop : op.IsUse) (v : Vault S) :
    Meets (op.draft E amb) v
      (fun o w => w = v ∧ ∃ x y : Item, v.items.get x.id = some x ∧ x.Uses y ∧ o = .item y)
      (fun _ w => w = v) := by
  have hfound : ∀ {α : Type} (id : ItemId) (f : Vault S → Item → α) (o : α → Decoded),
      (∀ x, ∃ y : Item, x.Uses y ∧ o (f v x) = .item y) →
      Meets (o <$> (do
        let self ← get
        let x ← Misty.liftExcept (self.item id)
        return f self x)) v
        (fun o w => w = v ∧ ∃ x y : Item, v.items.get x.id = some x ∧ x.Uses y ∧ o = .item y)
        (fun _ w => w = v) := by
    intro α id f o huses
    apply Meets.map
    apply Meets.bind
    apply Meets.get
    apply Meets.bind
    apply Meets.liftExcept
    · intro x hx
      obtain ⟨y, hy, ho⟩ := huses x
      exact Meets.pure ⟨rfl, x, y, (item_eq_ok hx).1, hy, ho⟩
    · intro e _
      rfl
  cases op with
  | recordUse id =>
    simp only [ObjectOp.draft, Vault.used]
    exact hfound id _ _ fun x => ⟨_, .recordUse v.hlc.deviceId (nowMs (amb.clock 0)) (.refl x), rfl⟩
  | advanceHotpCounter id =>
    simp only [ObjectOp.draft, Vault.counterAdvanced]
    exact hfound id _ _ fun x => ⟨_, .setCounter (U64.saturatingAdd x.hotpCounter.value 1) (.refl x), rfl⟩
  | setHotpCounter id counter =>
    simp only [ObjectOp.draft, Vault.counterSet]
    exact hfound id _ _ fun x => ⟨_, .setCounter counter (.refl x), rfl⟩
  | _ => exact hop.elim

/-- Whether such an operation goes through or not, the vault afterwards holds the same items, one of them used. -/
theorem isUse_spec {op : ObjectOp} (hop : op.IsUse) (v : Vault S) :
    Meets (op.run E amb) v (fun _ w => OnlyUsed v w) (fun _ w => OnlyUsed v w) := by
  rw [ObjectOp.run_eq]
  apply Meets.bind
  apply (isUse_draft hop v).mono
  · intro o u h
    obtain ⟨rfl, x, y, hx, huses, rfl⟩ := h
    apply (commit_items y u).mono
    · intro _ w hw
      exact onlyUsed_of_replace hx huses hw
    · intro e w hw
      exact onlyUsed_of_items hw
  · intro e u h
    exact onlyUsed_of_items (h ▸ rfl)

end Vaults

/-- Deletion over any family of versions merged in any order: the clocks of the result are the greatest of the
versions', the stored clock is the greatest of all it lists, and the result is deleted exactly when some version's
tombstone outlives every field of every version. Using a token changes nothing of that, in the vault or in a merge
elsewhere. -/
theorem deletedness_of_merge :
    (∀ (t : MergeTree) (w : Item), t.run = .ok w →
      IsGreatest {h | ∃ x ∈ t.leaves, h = x.maxFieldHlc} w.maxFieldHlc ∧
      IsGreatest {h | ∃ x ∈ t.leaves, h = x.maxHlc} w.maxHlc ∧
      IsGreatest {h | h ∈ w.everyHlc} w.maxHlc ∧ (w.isDeleted = true ↔ Outlived t.leaves)) ∧
    (∀ (S : Type) [LawfulStore S] (E : Externals) (amb : Ambient) (op : ObjectOp) (v : Vault S), op.IsUse →
      OnlyUsed v (stateAfter (op.run E amb) v)) ∧
    (∀ x y : Item, x.Uses y → y.isDeleted = x.isDeleted) ∧
    ∀ (t used : MergeTree) (w w' : Item), List.Forall₂ Item.Uses t.leaves used.leaves → t.run = .ok w →
      used.run = .ok w' → w'.isDeleted = w.isDeleted := by
  refine ⟨?_, ?_, ?_, ?_⟩
  · intro t w hrun
    exact ⟨MergeTree.isGreatest Item.maxFieldHlc_later hrun, MergeTree.isGreatest Item.maxHlc_later hrun,
      w.isGreatest_maxHlc, MergeTree.isDeleted_iff hrun⟩
  · intro S _ E amb op v hop
    exact (isUse_spec hop v).stateAfter
  · intro x y huses
    rw [Bool.eq_iff_iff, MergeTree.isDeleted_iff (t := .version y) rfl, MergeTree.isDeleted_iff (t := .version x) rfl]
    exact outlived_of_uses (.cons huses .nil)
  · intro t used w w' huses hrun hused
    rw [Bool.eq_iff_iff, MergeTree.isDeleted_iff hused, MergeTree.isDeleted_iff hrun]
    exact outlived_of_uses huses

/-- A tombstone outlives the version it is merged with. -/
theorem deletedness_of_merge_stoned : Outlived [Item.stoned .user, Item.fresh 1 9 0 4] := by
  have hrun : (MergeTree.merge (.version (.stoned .user)) (.version (.fresh 1 9 0 4))).run = .ok (.stoned .user) := by
    decide
  exact (deletedness_of_merge.1 _ _ hrun).2.2.2.mp (by decide +kernel)

end Misty
