import Misty.Vault.Deleted
import Misty.Vault.Backends

/- The HOTP counter over runs of any number of replicas. No operation but a repair or a
   purge takes an item off its id for one of a larger secret, and none lowers the counter
   of the item that stays (`Reaches`, kept by every move and by every displacement of a
   merge). Advancing adds one, except at the top of the range, where it adds nothing. -/
namespace Misty

variable {S : Type}

/-- The second vault holds under the id what the first did, at least as far, or an item of a smaller secret that took
its place in a merge. -/
def Reaches (id : ItemId) (a b : ItemSet) : Prop :=
  ∀ x, a.get id = some x → ∃ y, b.get id = some y ∧ y.secret ≤ x.secret ∧
    (y.secret = x.secret → x.hotpCounter.value ≤ y.hotpCounter.value)

namespace Reaches

variable {id : ItemId} {a b c : ItemSet}

theorem refl (id : ItemId) (a : ItemSet) : Reaches id a a := fun x hx => ⟨x, hx, le_rfl, fun _ => le_rfl⟩

theorem trans (h : Reaches id a b) (h' : Reaches id b c) : Reaches id a c := by
  intro x hx
  obtain ⟨y, hy, hyx, hcount⟩ := h x hx
  obtain ⟨z, hz, hzy, hcount'⟩ := h' y hy
  refine ⟨z, hz, hzy.trans hyx, fun heq => ?_⟩
  -- a secret that is back where it was never left
  have hsame : y.secret = x.secret := le_antisymm hyx (heq ▸ hzy)
  exact (hcount hsame).trans (hcount' (heq.trans hsame.symm))

theorem replace {x y : Item} (hx : a.get x.id = some x) (hid : y.id = x.id)
    (hgrows : x.id = id → y.secret = x.secret ∧ x.hotpCounter.value ≤ y.hotpCounter.value) :
    Reaches id a (a.replace y) := by
  intro z hz
  rw [ItemSet.get_replace]
  by_cases hy : y.id = id
  · have hxid : x.id = id := hid.symm.trans hy
    rw [← hxid, hx] at hz
    cases hz
    obtain ⟨hsecret, hcount⟩ := hgrows hxid
    exact ⟨y, if_pos hy, hsecret.le, fun _ => hcount⟩
  · exact ⟨z, by rw [if_neg hy, hz], le_rfl, fun _ => le_rfl⟩

theorem replace_other {y : Item} (hid : y.id ≠ id) : Reaches id a (a.replace y) := by
  intro z hz
  exact ⟨z, by rw [ItemSet.get_replace, if_neg hid, hz], le_rfl, fun _ => le_rfl⟩

theorem absorb {fork : ForkIds} {x : Item} {cs cs' : List Conflict} {ids : List ItemId}
    (h : a.absorb fork x cs = (.ok ids, b, cs')) : Reaches id a b := by
  obtain ⟨t, habs, -⟩ := ItemSet.absorb_spec h
  intro y hy
  refine habs.rises (f := fun x : Item => x.hotpCounter.value) ?_ id y hy
  intro u v w hjoined
  rw [(Item.joined_eq_ok hjoined).2.2.2]
  exact le_max_left ..

theorem mergeDecoded {fork : ForkIds} {decoded : List (RemoteChange × Decoded)} {m m' : Merging}
    (h : Misty.mergeDecoded fork decoded m = .ok m') : Reaches id m.items m'.items := by
  refine mergeDecoded_induct (P := fun u => Reaches id m.items u.items) decoded m m' ?_ (refl id m.items) h
  rintro ⟨change, o⟩ _ u w hu hmerge
  cases Merging.step_of_merge hmerge with
  | item habs => exact hu.trans (absorb habs)
  | group _ _ => exact hu

end Reaches

/-- Every operation but a repair of the item, an `add` that draws its id again, and the purge, which drops items. -/
def Op.Spares (id : ItemId) (amb : Ambient) : Op → Prop
  | .atomic (.object (.repairSecret target _)) => target ≠ id
  | .atomic (.object (.add _)) => amb.newId ≠ .ok id
  | .atomic .purgeTombstones => False
  | _ => True

variable [LawfulStore S] {E : Externals} {amb : Ambient}

theorem Move.reaches {op : Op} {id : ItemId} (hop : op.Spares id amb) {v w : Vault S} (h : Move E amb op v w) :
    Reaches id v.items w.items := by
  cases h with
  | quiet hq => exact hq.items ▸ .refl id v.items
  | @settled u staged hq hp hsettled =>
    obtain ⟨s, -, -, rfl⟩ := hsettled
    rw [← hq.items]
    cases hp with
    | @object _ objectOp o r hcommits hdrafted _ =>
      cases hdrafted with
      | added hadd hnew _ =>
        subst hadd
        cases hcommits
        refine .replace_other fun heq => hop ?_
        rw [hnew]
        exact congrArg Except.ok heq
      | edited hget htarget hid hgrows _ =>
        rw [← hq.items] at hget
        refine .replace hget hid fun hyid => ?_
        rcases hgrows with hgrows | ⟨hrepairs, -⟩
        · exact ⟨hgrows.secret, hgrows.ahead.hotpCounter⟩
        -- only a repair sets the counter back, and the operation is not one on this item
        · cases hcommits with
          | object =>
            cases objectOp with
            | repairSecret target secret =>
              cases htarget
              exact absurd hyid hop
            | _ => exact hrepairs.elim
          | swept _ => exact hrepairs.elim
      | groupAdded _ _ => exact .refl id u.items
      | groupEdited _ _ _ => exact .refl id u.items
    | purged _ => exact hop.elim
    | merged _ hmerge _ =>
      rw [hq.items]
      exact .mergeDecoded hmerge
    | rewrapped _ _ => exact .refl id u.items
  | rotated _ _ _ _ hw => exact hw ▸ .refl id v.items
  | torn hq _ hw => exact hw ▸ hq.items ▸ .refl id v.items

theorem Op.reaches {op : Op} {id : ItemId} (hop : op.Spares id amb) (v : Vault S) :
    Reaches id v.items (stateAfter (op.run E amb) v).items :=
  op.run_induct (P := fun w => Reaches id v.items w.items) (.refl id v.items)
    (fun _ _ hu _ hmove => hu.trans (hmove.reaches hop))

/-! ## Replicas -/

/-- One replica runs one operation. A merge takes any changes, whoever made them. -/
inductive Replicas.Step {R : Type} [DecidableEq R] (E : Externals) (id : ItemId) (vs : R → Vault S) :
    (R → Vault S) → Prop
  | run (r : R) (amb : Ambient) (op : Op) : op.Spares id amb →
      Step E id vs (Function.update vs r (stateAfter (op.run E amb) (vs r)))

theorem Replicas.reaches {R : Type} [DecidableEq R] {id : ItemId} {vs ws : R → Vault S}
    (h : Relation.ReflTransGen (Replicas.Step E id) vs ws) (r : R) : Reaches id (vs r).items (ws r).items := by
  induction h with
  | refl => exact .refl id _
  | @tail us ws _ hstep ih =>
    cases hstep with
    | run r' amb op hop =>
      by_cases hr : r = r'
      · subst hr
        rw [Function.update_self]
        exact ih.trans (Op.reaches hop _)
      · rwa [Function.update_of_ne hr]

/-! ## Advancing -/

theorem saturatingAdd_one_gt (n : U64) : n < U64.saturatingAdd n 1 ↔ n ≠ Fin.last _ := by
  have hone : (1 : U64).val = 1 := rfl
  rw [Fin.lt_def, U64.val_saturatingAdd, ne_eq, Fin.ext_iff, Fin.val_last]
  omega

theorem le_saturatingAdd_one (n : U64) : n ≤ U64.saturatingAdd n 1 := by
  have hlt := n.isLt
  rw [Fin.le_def, U64.val_saturatingAdd]
  omega

theorem MaxWins.value_set {T : Type} [LinearOrder T] {self : MaxWins T} {value : T} (h : self.value ≤ value) :
    (self.set value).value = value := by
  unfold MaxWins.set
  split
  · rfl
  · next hlt => exact le_antisymm h (not_lt.mp hlt)

/-- A call that returns stored the counter it returns, one above the one it found. -/
theorem advanceHotpCounter_spec {v w : Vault S} {id : ItemId} {next : U64}
    (h : Vault.advanceHotpCounter E amb id v = .ok next w) : ∃ x y : Item, v.items.get id = some x ∧
      w.items.get id = some y ∧ y.secret = x.secret ∧ next = U64.saturatingAdd x.hotpCounter.value 1 ∧
      y.hotpCounter.value = next := by
  have hspec : Meets (Vault.advanceHotpCounter E amb id) v
      (fun next w => ∃ x y : Item, v.items.get id = some x ∧ w.items.get id = some y ∧ y.secret = x.secret ∧
        next = U64.saturatingAdd x.hotpCounter.value 1 ∧ y.hotpCounter.value = next)
      (fun _ _ => True) := by
    apply Meets.bind
    apply Meets.bind
    apply Meets.get
    apply Meets.bind
    apply Meets.liftExcept
    · intro x hx
      obtain ⟨hget, hid⟩ := item_eq_ok hx
      apply Meets.pure
      apply Meets.bind
      apply (commit_items _ v).mono
      · intro _ u hu
        refine Meets.pure ⟨x, { x with hotpCounter := x.hotpCounter.set (U64.saturatingAdd x.hotpCounter.value 1) },
          hid ▸ hget, ?_, rfl, rfl, MaxWins.value_set (le_saturatingAdd_one _)⟩
        rw [hu, ItemSet.get_replace]
        exact if_pos hid
      · intro e u _
        trivial
    · intro e _
      trivial
  exact hspec.of_ok h

/-- On every replica of every run the counter of an item only rises, a merge has at least both sides' counters, and an
advance that returns stored the counter it returns; that counter is above the one it found unless that one was the
last of its range. -/
theorem hotp_counter_rises (E : Externals) (id : ItemId) :
    (∀ (R : Type) [DecidableEq R] (vs ws : R → Vault S), Relation.ReflTransGen (Replicas.Step E id) vs ws →
      ∀ r x, (vs r).items.get id = some x → ∃ y, (ws r).items.get id = some y ∧
        (y.secret = x.secret → x.hotpCounter.value ≤ y.hotpCounter.value)) ∧
    (∀ a b w : Item, a.joined b = .ok w →
      a.hotpCounter.value ≤ w.hotpCounter.value ∧ b.hotpCounter.value ≤ w.hotpCounter.value) ∧
    ∀ (amb : Ambient) (v w : Vault S) (next : U64), Vault.advanceHotpCounter E amb id v = .ok next w →
      ∃ x y : Item, v.items.get id = some x ∧ w.items.get id = some y ∧ y.secret = x.secret ∧
        y.hotpCounter.value = next ∧ (x.hotpCounter.value < next ↔ x.hotpCounter.value ≠ Fin.last _) := by
  refine ⟨?_, ?_, ?_⟩
  · intro R _ vs ws hrun r x hx
    obtain ⟨y, hy, -, hcount⟩ := Replicas.reaches hrun r x hx
    exact ⟨y, hy, hcount⟩
  · intro a b w hw
    rw [(Item.joined_eq_ok hw).2.2.2]
    exact ⟨le_max_left .., le_max_right ..⟩
  · intro amb v w next h
    obtain ⟨x, y, hx, hy, hsecret, hnext, hstored⟩ := advanceHotpCounter_spec h
    refine ⟨x, y, hx, hy, hsecret, hstored, ?_⟩
    rw [hnext]
    exact saturatingAdd_one_gt x.hotpCounter.value

/-- A fresh counter token at a counter. -/
def Item.counting (counter : U64) : Item :=
  { Item.fresh 1 9 0 4 with kind := ⟨.hotp, Hlc.early 0 4⟩, hotpCounter := ⟨counter⟩ }

/-- A vault that holds it. -/
def Vault.counting (counter : U64) : Vault MemoryStore :=
  (Vault.sample MemoryStore.new [1]).adopt (.item (.counting counter))

/-- Advancing from seven. -/
theorem hotp_counter_rises_from_seven : ∃ next w, Vault.advanceHotpCounter (.sample [.counting 8] []) (.sample 5)
    (Item.counting 0).id (Vault.counting 7) = .ok next w ∧ 7 < next := by
  have hok : (match Vault.advanceHotpCounter (.sample [.counting 8] []) (.sample 5) (Item.counting 0).id
      (Vault.counting 7) with | .ok _ _ => true | .error _ _ => false) = true := by decide
  cases h : Vault.advanceHotpCounter (.sample [.counting 8] []) (.sample 5) (Item.counting 0).id (Vault.counting 7) with
  | error e w =>
    rw [h] at hok
    cases hok
  | ok next w =>
    obtain ⟨x, y, hx, -, -, -, hgt⟩ :=
      (hotp_counter_rises (.sample [.counting 8] []) (Item.counting 0).id).2.2 (.sample 5) (Vault.counting 7) w next h
    have hseven : ((Vault.counting 7).items.get (Item.counting 0).id).all
        (fun x => decide (x.hotpCounter.value = 7)) = true := by decide
    rw [hx] at hseven
    have hvalue : x.hotpCounter.value = 7 := of_decide_eq_true hseven
    rw [hvalue] at hgt
    exact ⟨next, w, rfl, hgt.mpr (by decide)⟩

/-- A token at the last counter of the range, which a resynchronisation can set, hands out that counter again. -/
theorem advance_repeats_last : ∃ next w x, Vault.advanceHotpCounter (.sample [.counting (Fin.last _)] []) (.sample 5)
    (Item.counting 0).id (Vault.counting (Fin.last _)) = .ok next w ∧
      (Vault.counting (Fin.last _)).items.get (Item.counting 0).id = some x ∧ next = x.hotpCounter.value := by
  have hok : (match Vault.advanceHotpCounter (.sample [.counting (Fin.last _)] []) (.sample 5) (Item.counting 0).id
      (Vault.counting (Fin.last _)) with
    | .ok next _ => decide (next = Fin.last _)
    | .error _ _ => false) = true := by decide
  have hlast : ((Vault.counting (Fin.last _)).items.get (Item.counting 0).id).any
      (fun x => decide (x.hotpCounter.value = Fin.last _)) = true := by decide
  cases hx : (Vault.counting (Fin.last _)).items.get (Item.counting 0).id with
  | none =>
    rw [hx] at hlast
    cases hlast
  | some x =>
    rw [hx] at hlast
    have hvalue : x.hotpCounter.value = Fin.last _ := of_decide_eq_true hlast
    cases h : Vault.advanceHotpCounter (.sample [.counting (Fin.last _)] []) (.sample 5) (Item.counting 0).id
        (Vault.counting (Fin.last _)) with
    | error e w =>
      rw [h] at hok
      cases hok
    | ok next w =>
      rw [h] at hok
      have hnext : next = Fin.last _ := of_decide_eq_true hok
      exact ⟨next, w, x, rfl, rfl, hnext.trans hvalue.symm⟩

end Misty
