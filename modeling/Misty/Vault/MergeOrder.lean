import Misty.Vault.Join
import Misty.Vault.Edit

/- Whether the order of the two sides of a merge can be seen. A register that holds
   two values under one clock stops the merge in both orders, and every other rule
   is symmetric but one: `merge_tombstone` keeps its own side when the clocks are
   equal, so two tombstones with one clock and two reasons make the two orders
   return two different objects. -/
namespace Misty

/-- Both orders fail, or both return the same object. -/
def SameEitherWay {α : Type} (x y : Result α) : Prop :=
  (∃ e e', x = .error e ∧ y = .error e') ∨ ∃ m, x = .ok m ∧ y = .ok m

theorem mergeTombstone_comm_iff (a b : Option Tombstone) :
    mergeTombstone a b = mergeTombstone b a ↔ StonesAgree a b := by
  unfold StonesAgree
  cases a with
  | none =>
    cases b with
    | none => simp
    | some u => simp [mergeTombstone, stoneClock]
  | some t =>
    cases b with
    | none => simp [mergeTombstone, stoneClock]
    | some u =>
      have hclock : stoneClock (some t) = stoneClock (some u) ↔ t.hlc = u.hlc :=
        ⟨Option.some.inj, congrArg some⟩
      rw [hclock]
      simp only [mergeTombstone]
      rcases lt_trichotomy t.hlc u.hlc with hlt | heq | hgt
      · simp [hlt, hlt.not_gt, hlt.ne]
      · simp [heq]
      · simp [hgt, hgt.not_gt, hgt.ne']

theorem MaxWins.merge_comm {T : Type} [LinearOrder T] (a b : MaxWins T) : a.merge b = b.merge a := by
  simp only [MaxWins.merge, max_comm]

theorem MinWins.merge_comm {T : Type} [LinearOrder T] (a b : MinWins T) : a.merge b = b.merge a := by
  simp only [MinWins.merge, min_comm]

theorem OrSet.merge_comm {T : Type} [LinearOrder T] (a b : OrSet T) : a.merge b = b.merge a := by
  apply OrSet.view_injective
  rw [OrSet.view_merge, OrSet.view_merge, sup_comm]

theorem UsageCounter.merge_comm (a b : UsageCounter) : a.merge b = b.merge a := by
  apply UsageCounter.view_injective
  rw [UsageCounter.view_merge, UsageCounter.view_merge, sup_comm]

/-! ## Items -/

namespace Item

theorem later_comm_iff {a b : Item} (hid : a.id = b.id) (hsec : a.secret = b.secret)
    (h : a.Agrees b) : a.later b = b.later a ↔ StonesAgree a.deleted b.deleted := by
  rw [← mergeTombstone_comm_iff]
  constructor
  · intro heq
    exact congrArg Item.deleted heq
  · intro hstone
    have hreg : ∀ r, (a.register r).later (b.register r) = (b.register r).later (a.register r) :=
      fun r => Lww.later_comm (h r)
    refine ext_content hid hsec ?_
    simp only [content, Prod.mk.injEq]
    refine ⟨funext (fun r => ?_), ?_⟩
    · rw [register_later, register_later]
      exact hreg r
    · simp only [later, hstone, MaxWins.merge_comm a.hotpCounter, MaxWins.merge_comm a.lastUsedAt,
        MinWins.merge_comm a.createdAt, UsageCounter.merge_comm a.usage,
        OrSet.merge_comm a.groups, OrSet.merge_comm a.tags, OrSet.merge_comm a.origins, and_self]

theorem joined_error {a b : Item} (hid : a.id = b.id) (hsec : a.secret = b.secret)
    (h : ¬ a.Agrees b) : ∃ e, a.joined b = .error e := by
  rcases joined_outcome hid hsec with ⟨hab, -⟩ | ⟨r, -, herr⟩
  · exact absurd hab h
  · exact ⟨_, herr⟩

theorem joined_ok {a b : Item} (hid : a.id = b.id) (hsec : a.secret = b.secret)
    (h : a.Agrees b) : a.joined b = .ok (a.later b) := by
  rcases joined_outcome hid hsec with ⟨-, hok⟩ | ⟨r, hr, -⟩
  · exact hok
  · exact absurd (h r) hr

theorem sameEitherWay_iff {a b : Item} (hid : a.id = b.id) (hsec : a.secret = b.secret) :
    SameEitherWay (a.joined b) (b.joined a) ↔ StonesAgree a.deleted b.deleted ∨ ¬ a.Agrees b := by
  by_cases hab : a.Agrees b
  · rw [joined_ok hid hsec hab, joined_ok hid.symm hsec.symm hab.symm]
    simp only [hab, not_true_eq_false, or_false, ← later_comm_iff hid hsec hab, SameEitherWay]
    constructor
    · rintro (⟨e, -, he, -⟩ | ⟨m, hm, hm'⟩)
      · cases he
      · exact Except.ok.inj (hm.trans hm'.symm)
    · intro heq
      exact .inr ⟨_, rfl, by rw [heq]⟩
  · obtain ⟨e, he⟩ := joined_error hid hsec hab
    obtain ⟨e', he'⟩ := joined_error hid.symm hsec.symm (fun h => hab h.symm)
    simp only [hab, not_false_eq_true, or_true, iff_true]
    exact .inl ⟨e, e', he, he'⟩

end Item

/-! ## Groups -/

namespace Group

theorem later_comm_iff {a b : Group} (hid : a.id = b.id) (h : a.Agrees b) :
    a.later b = b.later a ↔ StonesAgree a.deleted b.deleted := by
  rw [← mergeTombstone_comm_iff]
  constructor
  · intro heq
    exact congrArg Group.deleted heq
  · intro hstone
    simp only [later, hid, Lww.later_comm h.1, Lww.later_comm h.2.1, Lww.later_comm h.2.2,
      MinWins.merge_comm a.createdAt, hstone]

theorem sameEitherWay_iff {a b : Group} (hid : a.id = b.id) :
    SameEitherWay (a.merge b) (b.merge a) ↔ StonesAgree a.deleted b.deleted ∨ ¬ a.Agrees b := by
  rcases merge_cases hid with ⟨hab, hok⟩ | ⟨hab, f, herr⟩
  · rcases merge_cases hid.symm with ⟨-, hok'⟩ | ⟨hba, -⟩
    · rw [hok, hok']
      simp only [hab, not_true_eq_false, or_false, ← later_comm_iff hid hab, SameEitherWay]
      constructor
      · rintro (⟨e, -, he, -⟩ | ⟨m, hm, hm'⟩)
        · cases he
        · exact Except.ok.inj (hm.trans hm'.symm)
      · intro heq
        exact .inr ⟨_, rfl, by rw [heq]⟩
    · exact absurd hab.symm hba
  · rcases merge_cases hid.symm with ⟨hba, -⟩ | ⟨-, f', herr'⟩
    · exact absurd hba.symm hab
    · simp only [hab, not_false_eq_true, or_true, iff_true]
      exact .inl ⟨_, _, herr, herr'⟩

end Group

/-- The order of a merge cannot be seen exactly when the tombstones do not carry
one clock with two reasons, or a register stops the merge anyway. -/
theorem merge_order_independent_iff (a b : Item) (g k : Group) :
    (a.id = b.id → a.secret = b.secret →
      (SameEitherWay (a.joined b) (b.joined a) ↔
        StonesAgree a.deleted b.deleted ∨ ∃ r, ¬ (a.register r).Agrees (b.register r))) ∧
    (g.id = k.id →
      (SameEitherWay (g.merge k) (k.merge g) ↔ StonesAgree g.deleted k.deleted ∨ ¬ g.Agrees k)) := by
  refine ⟨?_, fun hid => Group.sameEitherWay_iff hid⟩
  intro hid hsec
  rw [Item.sameEitherWay_iff hid hsec, Item.Agrees, not_forall]

/-- A fresh group, created at the reading `n` of device `d`. -/
def Group.early (id : Byte) (n : U16) (d : Byte) : Group :=
  Group.create ⟨⟨ByteArr.repeated 16 id⟩⟩ ['g'] (Hlc.early n d) (I64.saturate 0)

/-- Two fresh versions of one item merge the same either way, and so do two of a group. -/
theorem merge_order_independent_fresh :
    SameEitherWay ((Item.fresh 1 9 0 4).joined (Item.fresh 1 9 1 5))
      ((Item.fresh 1 9 1 5).joined (Item.fresh 1 9 0 4)) ∧
    SameEitherWay ((Group.early 1 0 4).merge (Group.early 1 1 5)) ((Group.early 1 1 5).merge (Group.early 1 0 4)) :=
  have h := merge_order_independent_iff (Item.fresh 1 9 0 4) (Item.fresh 1 9 1 5) (Group.early 1 0 4) (Group.early 1 1 5)
  ⟨(h.1 rfl rfl).mpr (.inl (by decide)), (h.2 rfl).mpr (.inl (by decide))⟩

/-- A deleted item. The clock of the tombstone does not depend on the reason, as for
a writer that reused a reading. -/
def Item.stoned (reason : TombstoneReason) : Item :=
  { Item.fresh 1 9 0 4 with deleted := some ⟨Hlc.early 1 4, reason⟩ }

/-- Two valid versions of one item that merge to different items in the two orders. -/
theorem merge_order_visible :
    (Item.stoned .user).validate = .ok () ∧ (Item.stoned .trashExpired).validate = .ok () ∧
    (Item.stoned .user).id = (Item.stoned .trashExpired).id ∧
    (Item.stoned .user).secret = (Item.stoned .trashExpired).secret ∧
    ¬ SameEitherWay ((Item.stoned .user).joined (Item.stoned .trashExpired))
      ((Item.stoned .trashExpired).joined (Item.stoned .user)) := by
  refine ⟨by decide, by decide, rfl, rfl, ?_⟩
  rw [Item.sameEitherWay_iff (a := Item.stoned .user) (b := Item.stoned .trashExpired) rfl rfl]
  rintro (hstones | hagree)
  · exact absurd (hstones rfl) (by decide)
  · refine hagree (fun r _ => ?_)
    cases r <;> rfl

end Misty
