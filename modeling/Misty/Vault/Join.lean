import Misty.Vault.Model

/- What a merge of two versions computes. `Item.joined` either reports a clock
   collision or returns `Item.later`, the field-wise later value, and that is the
   least upper bound of the two versions in the order of `Item.content` as long as
   the tombstones agree. `Item.clocks` is the coarser order of the clocks alone,
   in which a merge is above both sides whatever the tombstones carry. -/
namespace Misty

open Std (ExtTreeMap)

/-! ## The value of a merge -/

theorem ite_ok_bind {α β : Type} {c : Prop} [Decidable c] (a : α) (e : VaultError)
    (f : α → Result β) :
    ((if c then .ok a else .error e : Result α) >>= f) = if c then f a else .error e := by
  split <;> rfl

instance Register.decidableEqValue : (r : Register) → DecidableEq r.Value
  | .kind => inferInstanceAs (DecidableEq OtpKind)
  | .algorithm => inferInstanceAs (DecidableEq HashAlg)
  | .digits => inferInstanceAs (DecidableEq Byte)
  | .period => inferInstanceAs (DecidableEq U16)
  | .pin => inferInstanceAs (DecidableEq (Option SecretBytes))
  | .issuer | .account => inferInstanceAs (DecidableEq Text)
  | .nickname | .note => inferInstanceAs (DecidableEq (Option Text))
  | .icon => inferInstanceAs (DecidableEq IconRef)
  | .color => inferInstanceAs (DecidableEq (Option U32))
  | .favorite | .archived | .hidden | .requiresRevealAuth => inferInstanceAs (DecidableEq Bool)
  | .manualOrder | .trashedAt => inferInstanceAs (DecidableEq (Option I64))

namespace Item

/-- No register holds two values under one clock. -/
def Agrees (a b : Item) : Prop := ∀ r, (a.register r).Agrees (b.register r)

/-- The field-wise later value. -/
def later (a b : Item) : Item where
  id := a.id
  secret := a.secret
  kind := a.kind.later b.kind
  algorithm := a.algorithm.later b.algorithm
  digits := a.digits.later b.digits
  period := a.period.later b.period
  pin := a.pin.later b.pin
  hotpCounter := a.hotpCounter.merge b.hotpCounter
  issuer := a.issuer.later b.issuer
  account := a.account.later b.account
  nickname := a.nickname.later b.nickname
  note := a.note.later b.note
  groups := a.groups.merge b.groups
  tags := a.tags.merge b.tags
  origins := a.origins.merge b.origins
  icon := a.icon.later b.icon
  color := a.color.later b.color
  favorite := a.favorite.later b.favorite
  manualOrder := a.manualOrder.later b.manualOrder
  archived := a.archived.later b.archived
  hidden := a.hidden.later b.hidden
  requiresRevealAuth := a.requiresRevealAuth.later b.requiresRevealAuth
  trashedAt := a.trashedAt.later b.trashedAt
  usage := a.usage.merge b.usage
  lastUsedAt := a.lastUsedAt.merge b.lastUsedAt
  createdAt := a.createdAt.merge b.createdAt
  deleted := mergeTombstone a.deleted b.deleted

@[simp] theorem register_later (a b : Item) (r : Register) :
    (a.later b).register r = (a.register r).later (b.register r) := by
  cases r <;> rfl

@[simp] theorem register_rebind (a : Item) (i : ItemId) (r : Register) :
    (a.rebind i).register r = a.register r := by
  cases r <;> rfl

theorem Agrees.symm {a b : Item} (h : a.Agrees b) : b.Agrees a := fun r => (h r).symm

/-- What `Item::merge` of two versions of one item can return: the later value, or
the name of a register that holds two values under one clock. -/
def Outcome (a b : Item) (x : Result Item) : Prop :=
  (a.Agrees b ∧ x = .ok (a.later b)) ∨
    ∃ r, ¬ (a.register r).Agrees (b.register r) ∧ x = .error (.clockCollision r.name)

theorem Outcome.check {a b : Item} (r : Register) {x : Result Item}
    {_ : Decidable ((a.register r).Agrees (b.register r))}
    (h : (a.register r).Agrees (b.register r) → Outcome a b x) :
    Outcome a b (if (a.register r).Agrees (b.register r) then x else .error (.clockCollision r.name)) := by
  split
  · next hr => exact h hr
  · next hr => exact .inr ⟨r, hr, rfl⟩

theorem joined_outcome {a b : Item} (hid : a.id = b.id) (hsec : a.secret = b.secret) :
    Outcome a b (a.joined b) := by
  unfold joined
  simp only [hid, hsec, ne_eq, not_true_eq_false, if_false, Lww.merge_eq, ite_ok_bind]
  refine Outcome.check .kind (fun h1 => ?_)
  refine Outcome.check .algorithm (fun h2 => ?_)
  refine Outcome.check .digits (fun h3 => ?_)
  refine Outcome.check .period (fun h4 => ?_)
  refine Outcome.check .pin (fun h5 => ?_)
  refine Outcome.check .issuer (fun h6 => ?_)
  refine Outcome.check .account (fun h7 => ?_)
  refine Outcome.check .nickname (fun h8 => ?_)
  refine Outcome.check .note (fun h9 => ?_)
  refine Outcome.check .icon (fun h10 => ?_)
  refine Outcome.check .color (fun h11 => ?_)
  refine Outcome.check .favorite (fun h12 => ?_)
  refine Outcome.check .manualOrder (fun h13 => ?_)
  refine Outcome.check .archived (fun h14 => ?_)
  refine Outcome.check .hidden (fun h15 => ?_)
  refine Outcome.check .requiresRevealAuth (fun h16 => ?_)
  refine Outcome.check .trashedAt (fun h17 => ?_)
  refine .inl ⟨?_, ?_⟩
  · intro r
    cases r <;> assumption
  · rw [later, hid, hsec]
    rfl

theorem joined_eq_ok {a b w : Item} (h : a.joined b = .ok w) :
    a.id = b.id ∧ a.secret = b.secret ∧ a.Agrees b ∧ w = a.later b := by
  by_cases hid : a.id = b.id
  · by_cases hsec : a.secret = b.secret
    · rcases joined_outcome hid hsec with ⟨hab, hok⟩ | ⟨r, -, herr⟩
      · rw [hok] at h
        cases h
        exact ⟨hid, hsec, hab, rfl⟩
      · rw [herr] at h
        cases h
    · simp [joined, hid, hsec] at h
      cases h
  · simp [joined, hid] at h
    cases h

/-! ## The order of the versions -/

/-- Everything but the id and the secret, each field in the order its rule climbs. -/
abbrev Content : Type :=
  ((r : Register) → Lww r.Value) × U64 × WithBot I64 × I64ᵒᵈ × (DeviceId → WithBot U64) ×
    (GroupId → WithBot OrSetEntry) × (Text → WithBot OrSetEntry) × (Text → WithBot OrSetEntry) × Stone

/-- The fields of an item but its id and its secret. -/
def content (x : Item) : Content :=
  (x.register, x.hotpCounter.value, x.lastUsedAt.value, OrderDual.toDual x.createdAt.value,
    x.usage.view, x.groups.view, x.tags.view, x.origins.view, ⟨x.deleted⟩)

@[simp] theorem content_rebind (x : Item) (i : ItemId) : (x.rebind i).content = x.content := by
  simp only [content, Prod.mk.injEq]
  exact ⟨funext (register_rebind x i), rfl, rfl, rfl, rfl, rfl, rfl, rfl, rfl⟩

theorem ext_content {x y : Item} (hid : x.id = y.id) (hsec : x.secret = y.secret)
    (h : x.content = y.content) : x = y := by
  simp only [content, Prod.mk.injEq] at h
  obtain ⟨hreg, hctr, hlast, hcreated, husage, hgroups, htags, horigins, hstone⟩ := h
  have hr : ∀ r, x.register r = y.register r := congrFun hreg
  have husage' := UsageCounter.view_injective husage
  have hgroups' := OrSet.view_injective hgroups
  have htags' := OrSet.view_injective htags
  have horigins' := OrSet.view_injective horigins
  have hstone' : x.deleted = y.deleted := congrArg Stone.stone hstone
  have hcreated' : x.createdAt.value = y.createdAt.value := hcreated
  obtain ⟨⟩ := x
  obtain ⟨⟩ := y
  simp only [Item.mk.injEq]
  exact ⟨hid, hsec, hr .kind, hr .algorithm, hr .digits, hr .period, hr .pin,
    congrArg MaxWins.mk hctr, hr .issuer, hr .account, hr .nickname, hr .note, hgroups', htags',
    horigins', hr .icon, hr .color, hr .favorite, hr .manualOrder, hr .archived, hr .hidden,
    hr .requiresRevealAuth, hr .trashedAt, husage', congrArg MaxWins.mk hlast,
    congrArg MinWins.mk hcreated', hstone'⟩

/-- The merge of two versions is their least upper bound. -/
theorem isLUB_later {a b : Item} (h : a.Agrees b) (hs : StonesAgree a.deleted b.deleted) :
    IsLUB {a.content, b.content} (a.later b).content := by
  rw [isLUB_pair_iff]
  rintro ⟨zr, zc, zl, zm, zu, zg, zt, zo, zs⟩
  have hr : (a.later b).register ≤ zr ↔ a.register ≤ zr ∧ b.register ≤ zr := by
    simp only [Pi.le_def, register_later, fun r => Lww.later_le_iff (h r) (zr r), forall_and]
  have hm : OrderDual.toDual (min a.createdAt.value b.createdAt.value) ≤ zm ↔
      OrderDual.toDual a.createdAt.value ≤ zm ∧ OrderDual.toDual b.createdAt.value ≤ zm := by
    rw [toDual_min, max_le_iff]
  have hsm := Stone.merge_le_iff hs zs
  simp only [content, Prod.mk_le_mk, hr]
  simp only [later, MaxWins.merge, MinWins.merge, UsageCounter.view_merge, OrSet.view_merge,
    max_le_iff, sup_le_iff, hm, hsm]
  tauto

/-! ## The order of the clocks -/

/-- The clocks and counters of an item. -/
abbrev Clocks : Type :=
  (Register → Hlc) × U64 × WithBot I64 × I64ᵒᵈ × (DeviceId → WithBot U64) ×
    (GroupId → WithBot OrSetEntry) × (Text → WithBot OrSetEntry) × (Text → WithBot OrSetEntry) ×
    WithBot Hlc

/-- The clocks and counters of an item. -/
def clocks (x : Item) : Clocks :=
  (fun r => (x.register r).hlc, x.hotpCounter.value, x.lastUsedAt.value,
    OrderDual.toDual x.createdAt.value, x.usage.view, x.groups.view, x.tags.view, x.origins.view,
    stoneClock x.deleted)

@[simp] theorem clocks_rebind (x : Item) (i : ItemId) : (x.rebind i).clocks = x.clocks := by
  simp only [clocks, Prod.mk.injEq]
  exact ⟨funext (fun r => congrArg Lww.hlc (register_rebind x i r)), rfl, rfl, rfl, rfl, rfl, rfl,
    rfl, rfl⟩

theorem clocks_later (a b : Item) : a.clocks ≤ (a.later b).clocks ∧ b.clocks ≤ (a.later b).clocks := by
  simp only [clocks, Prod.mk_le_mk, Pi.le_def, register_later, Lww.hlc_later]
  simp only [later, MaxWins.merge, MinWins.merge, UsageCounter.view_merge, OrSet.view_merge,
    toDual_min, stoneClock_merge, Pi.sup_apply]
  simp

end Item

/-! ## Groups -/

namespace Group

/-- No register of a group holds two values under one clock. -/
def Agrees (a b : Group) : Prop :=
  a.name.Agrees b.name ∧ a.color.Agrees b.color ∧ a.manualOrder.Agrees b.manualOrder

/-- The field-wise later value. -/
def later (a b : Group) : Group where
  id := a.id
  name := a.name.later b.name
  color := a.color.later b.color
  manualOrder := a.manualOrder.later b.manualOrder
  createdAt := a.createdAt.merge b.createdAt
  deleted := mergeTombstone a.deleted b.deleted

theorem Agrees.symm {a b : Group} (h : a.Agrees b) : b.Agrees a :=
  ⟨h.1.symm, h.2.1.symm, h.2.2.symm⟩

theorem merge_cases {a b : Group} (hid : a.id = b.id) :
    (a.Agrees b ∧ a.merge b = .ok (a.later b)) ∨
      ¬ a.Agrees b ∧ ∃ field, a.merge b = .error (.clockCollision field) := by
  unfold merge Agrees
  simp only [hid, ne_eq, not_true_eq_false, if_false, Lww.merge_eq, ite_ok_bind]
  split
  · next hname =>
    split
    · next hcolor =>
      split
      · next horder =>
        refine .inl ⟨⟨hname, hcolor, horder⟩, ?_⟩
        rw [later, hid]
        rfl
      · next h => exact .inr ⟨fun hab => h hab.2.2, _, rfl⟩
    · next h => exact .inr ⟨fun hab => h hab.2.1, _, rfl⟩
  · next h => exact .inr ⟨fun hab => h hab.1, _, rfl⟩

theorem merge_eq_ok {a b w : Group} (h : a.merge b = .ok w) :
    a.id = b.id ∧ a.Agrees b ∧ w = a.later b := by
  by_cases hid : a.id = b.id
  · rcases merge_cases hid with ⟨hab, hok⟩ | ⟨-, field, herr⟩
    · rw [hok] at h
      cases h
      exact ⟨hid, hab, rfl⟩
    · rw [herr] at h
      cases h
  · simp [merge, hid] at h
    cases h

end Group

end Misty
