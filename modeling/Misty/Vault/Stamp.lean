import Misty.Vault.Deleted
import Misty.Vault.Rows

/- What a write is stamped with. An operation takes one reading of its clock and writes it
   into the registers, the set elements or the tombstone it changes; the other clocks of
   the object stay (`Stamped`). The reading is later than everything the clock has seen,
   and the clock has seen every clock of every object the vault holds (`Vault.Seen`):
   opening and merging observe the clocks they bring in, an operation issues its own. -/
namespace Misty

/-! ## Fields -/

section Fields

variable {T : Type} [LinearOrder T] {h : Hlc}

/-- A set written under a reading: as it was, or with the reading in it and no other clock that is new. -/
def OrSet.Stamped (h : Hlc) (s s' : OrSet T) : Prop :=
  s' = s ∨ h ∈ Item.setHlcs s' ∧ ∀ k ∈ Item.setHlcs s', k = h ∨ k ∈ Item.setHlcs s

theorem OrSet.Stamped.refl (h : Hlc) (s : OrSet T) : s.Stamped h s := .inl rfl

theorem OrSet.Stamped.trans {s t u : OrSet T} (hst : s.Stamped h t) (htu : t.Stamped h u) : s.Stamped h u := by
  rcases htu with rfl | ⟨hmem, hnew⟩
  · exact hst
  · refine .inr ⟨hmem, fun k hk => ?_⟩
    rcases hnew k hk with rfl | hk
    · exact .inl rfl
    · rcases hst with rfl | ⟨-, hold⟩
      · exact .inr hk
      · exact hold k hk

theorem OrSet.stamped_insert {s : OrSet T} {element : T} {entry : OrSetEntry} (hcarries : entry.Carries h)
    (hold : ∀ k, entry.Carries k → k = h ∨ ∃ e, s.entries[element]? = some e ∧ e.Carries k) :
    s.Stamped h ⟨s.entries.insert element entry⟩ := by
  refine .inr ⟨Item.mem_setHlcs.mpr ⟨element, entry, by simp, hcarries⟩, fun k hk => ?_⟩
  obtain ⟨key, e, hget, hk⟩ := Item.mem_setHlcs.mp hk
  rw [OrdMap.getElem?_insert] at hget
  split at hget
  · cases hget
    rcases hold k hk with rfl | ⟨e, he, hk⟩
    · exact .inl rfl
    · exact .inr (Item.mem_setHlcs.mpr ⟨element, e, he, hk⟩)
  · exact .inr (Item.mem_setHlcs.mpr ⟨key, e, hget, hk⟩)

theorem OrSet.stamped_add (s : OrSet T) (element : T) (h : Hlc) : s.Stamped h (s.add element h) := by
  unfold add
  split
  · refine stamped_insert (.inl rfl) (fun k hk => .inl ?_)
    exact hk.elim id (fun hr => absurd hr WithBot.bot_ne_coe)
  · next entry hentry =>
    split
    · refine stamped_insert (.inl rfl) (fun k hk => ?_)
      rcases hk with hk | hk
      · exact .inl hk
      · exact .inr ⟨entry, hentry, .inr hk⟩
    · exact .refl h s

theorem OrSet.stamped_remove (s : OrSet T) (element : T) (h : Hlc) : s.Stamped h (s.remove element h) := by
  unfold remove
  split
  · exact .refl h s
  · next entry hentry =>
    split
    · exact .refl h s
    · refine stamped_insert (.inr rfl) (fun k hk => ?_)
      rcases hk with hk | hk
      · exact .inr ⟨entry, hentry, .inl hk⟩
      · exact .inl (WithBot.coe_inj.mp hk).symm

theorem OrSet.stamped_addAll (h : Hlc) (elements : List T) : ∀ s : OrSet T, s.Stamped h (s.addAll elements h) := by
  induction elements with
  | nil => exact fun s => .refl h s
  | cons e rest ih => exact fun s => (s.stamped_add e h).trans (ih (s.add e h))

theorem Lww.hlc_set {V : Type} (self : Lww V) (value : V) (h : Hlc) :
    (self.set value h).hlc = h ∨ (self.set value h).hlc = self.hlc := by
  unfold set
  split
  · exact .inl rfl
  · exact .inr rfl

theorem Lww.hlc_setSome {V : Type} (self : Lww V) (value : Option V) (h : Hlc) :
    (self.setSome value h).hlc = h ∨ (self.setSome value h).hlc = self.hlc := by
  cases value with
  | none => exact .inr rfl
  | some value => exact self.hlc_set value h

/-- A tombstone written under a reading, or left as it was. -/
def Restamped (h : Hlc) (old new : Option Tombstone) : Prop := new = old ∨ ∃ reason, new = some ⟨h, reason⟩

end Fields

/-! ## Objects -/

/-- An item written under a reading. A field that is not named is as it was. -/
structure Item.Stamped (h : Hlc) (y x : Item) : Prop where
  registers : ∀ r, (x.register r).hlc = h ∨ (x.register r).hlc = (y.register r).hlc := by exact fun _ => .inr rfl
  groups : y.groups.Stamped h x.groups := by exact .refl _ _
  tags : y.tags.Stamped h x.tags := by exact .refl _ _
  origins : y.origins.Stamped h x.origins := by exact .refl _ _
  deleted : Restamped h y.deleted x.deleted := by exact .inl rfl

/-- A group written under a reading. -/
structure Group.Stamped (h : Hlc) (y x : Group) : Prop where
  name : x.name.hlc = h ∨ x.name.hlc = y.name.hlc := by exact .inr rfl
  color : x.color.hlc = h ∨ x.color.hlc = y.color.hlc := by exact .inr rfl
  manualOrder : x.manualOrder.hlc = h ∨ x.manualOrder.hlc = y.manualOrder.hlc := by exact .inr rfl
  deleted : Restamped h y.deleted x.deleted := by exact .inl rfl

/-- Clocks written under a reading: none is new but the reading, and without it they are all still there. -/
structure StampedClocks (h : Hlc) (old new : List Hlc) : Prop where
  mem : ∀ k ∈ new, k = h ∨ k ∈ old
  keeps : h ∈ new ∨ ∀ k ∈ old, k ∈ new

theorem Group.mem_everyHlc {g : Group} {k : Hlc} : k ∈ g.everyHlc ↔ k = g.name.hlc ∨ k = g.color.hlc ∨
    k = g.manualOrder.hlc ∨ stoneClock g.deleted = (k : WithBot Hlc) := by
  have hstone : k ∈ g.deleted.toList.map Tombstone.hlc ↔ stoneClock g.deleted = (k : WithBot Hlc) := by
    cases g.deleted with
    | none => exact ⟨fun h => absurd h (by simp), fun h => absurd h.symm WithBot.coe_ne_bot⟩
    | some stone =>
      rw [Option.toList_some, List.map_singleton, List.mem_singleton, eq_comm]
      exact WithBot.coe_inj.symm
  simp [everyHlc, hstone]

theorem Restamped.clock {h k : Hlc} {old new : Option Tombstone} (hs : Restamped h old new)
    (hk : stoneClock new = (k : WithBot Hlc)) : k = h ∨ stoneClock old = (k : WithBot Hlc) := by
  rcases hs with rfl | ⟨reason, rfl⟩
  · exact .inr hk
  · exact .inl (WithBot.coe_inj.mp hk).symm

theorem Item.Stamped.clocks {h : Hlc} {y x : Item} (hs : y.Stamped h x) :
    StampedClocks h y.everyHlc x.everyHlc := by
  have hset : ∀ {T : Type} [LinearOrder T] {s s' : OrSet T}, s.Stamped h s' → ∀ k ∈ setHlcs s', k = h ∨ k ∈ setHlcs s := by
    intro T _ s s' hs k hk
    rcases hs with rfl | ⟨-, hnew⟩
    · exact .inr hk
    · exact hnew k hk
  constructor
  · intro k hk
    rw [mem_everyHlc] at hk ⊢
    rcases hk with (⟨r, rfl⟩ | hk | hk | hk) | hk
    · exact (hs.registers r).imp_right (fun hr => .inl (.inl ⟨r, hr⟩))
    · exact (hset hs.groups k hk).imp_right (fun hk => .inl (.inr (.inl hk)))
    · exact (hset hs.tags k hk).imp_right (fun hk => .inl (.inr (.inr (.inl hk))))
    · exact (hset hs.origins k hk).imp_right (fun hk => .inl (.inr (.inr (.inr hk))))
    · exact (hs.deleted.clock hk).imp_right .inr
  · by_cases hmem : h ∈ x.everyHlc
    · exact .inl hmem
    refine .inr fun k hk => ?_
    -- where the reading was written nowhere, every field is as it was
    have hfield := fun hf => hmem (mem_everyHlc.mpr (.inl hf))
    have hgroups := hs.groups.resolve_right fun hg => hfield (.inr (.inl hg.1))
    have htags := hs.tags.resolve_right fun ht => hfield (.inr (.inr (.inl ht.1)))
    have horigins := hs.origins.resolve_right fun ho => hfield (.inr (.inr (.inr ho.1)))
    have hdeleted : x.deleted = y.deleted := by
      refine hs.deleted.resolve_right fun hd => ?_
      obtain ⟨reason, hd⟩ := hd
      exact hmem (mem_everyHlc.mpr (.inr (by rw [hd]; rfl)))
    rw [mem_everyHlc] at hk ⊢
    rw [hdeleted, fieldClocks, hgroups, htags, horigins]
    refine hk.imp_left (fun hk => hk.imp_left (fun hr => ?_))
    obtain ⟨r, rfl⟩ := hr
    exact ⟨r, ((hs.registers r).resolve_left fun hr => hfield (.inl ⟨r, hr.symm⟩)).symm⟩

theorem Group.Stamped.clocks {h : Hlc} {y x : Group} (hs : y.Stamped h x) :
    StampedClocks h y.everyHlc x.everyHlc := by
  constructor
  · intro k hk
    rw [mem_everyHlc] at hk ⊢
    rcases hk with rfl | rfl | rfl | hk
    · exact hs.name.imp_right .inl
    · exact hs.color.imp_right (fun hk => .inr (.inl hk))
    · exact hs.manualOrder.imp_right (fun hk => .inr (.inr (.inl hk)))
    · exact (hs.deleted.clock hk).imp_right (fun hk => .inr (.inr (.inr hk)))
  · by_cases hmem : h ∈ x.everyHlc
    · exact .inl hmem
    refine .inr fun k hk => ?_
    rw [mem_everyHlc, not_or, not_or, not_or] at hmem
    obtain ⟨hname, hcolor, horder, hstone⟩ := hmem
    have hdeleted : x.deleted = y.deleted := by
      refine hs.deleted.resolve_right fun hd => ?_
      obtain ⟨reason, hd⟩ := hd
      exact hstone (by rw [hd]; rfl)
    rw [mem_everyHlc] at hk ⊢
    rw [hdeleted, hs.name.resolve_left (Ne.symm hname), hs.color.resolve_left (Ne.symm hcolor),
      hs.manualOrder.resolve_left (Ne.symm horder)]
    exact hk

/-! ## Drafts -/

variable {S : Type}

/-- What an operation is about to commit: an object made under a new reading, one the vault holds written under a new
reading, or one with its clocks as they were. -/
inductive Stamped (v w : Vault S) (o : Decoded) : Prop
  | made {h : Hlc} : Ticked v w h → h ∈ o.everyHlc → (∀ k ∈ o.everyHlc, k = h) → Stamped v w o
  | written {y : Decoded} {h : Hlc} : v.Holds y → y.kind = o.kind → y.itemId = o.itemId → Ticked v w h →
      StampedClocks h y.everyHlc o.everyHlc → Stamped v w o
  | kept {y : Decoded} : v.Holds y → y.kind = o.kind → y.itemId = o.itemId → o.everyHlc = y.everyHlc → Stamped v w o

theorem Item.clocks_create {id : ItemId} {new : NewItem} {h : Hlc} {at' : I64} {k : Hlc} :
    k ∈ (Item.create id new h at').everyHlc ↔ k = h := by
  have hset : ∀ {T : Type} [LinearOrder T] (elements : List T), ∀ k ∈ setHlcs (OrSet.new.addAll elements h), k = h := by
    intro T _ elements k hk
    have hnone : k ∉ setHlcs (OrSet.new : OrSet T) := by
      intro hk
      obtain ⟨key, e, hget, -⟩ := mem_setHlcs.mp hk
      simp [OrSet.new] at hget
    rcases OrSet.stamped_addAll h elements OrSet.new with hsame | ⟨-, hnew⟩
    · rw [hsame] at hk
      exact absurd hk hnone
    · exact (hnew k hk).resolve_right hnone
  rw [mem_everyHlc]
  constructor
  · intro hk
    rcases hk with (⟨r, rfl⟩ | hk | hk | hk) | hk
    · cases r <;> rfl
    · exact hset _ k hk
    · exact hset _ k hk
    · exact hset _ k hk
    · exact absurd hk WithBot.bot_ne_coe
  · intro hk
    exact .inl (.inl ⟨.issuer, hk⟩)

variable [LawfulStore S] {E : Externals} {amb : Ambient}

omit [LawfulStore S] in
theorem Stamped.mono {v w u : Vault S} {o : Decoded} (h : Stamped v w o) (hle : w.hlc.time ≤ u.hlc.time) :
    Stamped v u o := by
  cases h with
  | made ht hmem hnew => exact .made (ht.mono hle) hmem hnew
  | written hy hkind hid ht hclocks => exact .written hy hkind hid (ht.mono hle) hclocks
  | kept hy hkind hid hclocks => exact .kept hy hkind hid hclocks

theorem stamped_duplicateChange (new : NewItem) (y : Item) (h : Hlc) : y.Stamped h (Vault.duplicateChange new y h) where
  registers r := by
    cases r <;> first | exact .inr rfl | exact Lww.hlc_setSome _ _ _
  groups := OrSet.stamped_addAll h _ _
  tags := OrSet.stamped_addAll h _ _
  origins := OrSet.stamped_addAll h _ _

theorem stamped_write (edit : Edit) (y : Item) (h : Hlc) : y.Stamped h (edit.write y h) where
  registers r := by
    cases r <;> first | exact .inr rfl | exact Lww.hlc_setSome _ _ _

theorem stamped_trashedAt (y : Item) (value : Option I64) (h : Hlc) :
    y.Stamped h { y with trashedAt := y.trashedAt.set value h } where
  registers r := by
    cases r <;> first | exact .inr rfl | exact Lww.hlc_set _ _ _

omit [LawfulStore S] in
theorem ObjectOp.Writes.stamped {op : ObjectOp} {v : Vault S} {y x : Item} {h : Hlc} (hw : op.Writes E amb v y h x) :
    x.id = y.id ∧ y.Stamped h x := by
  cases hw with
  | mergeDuplicate => exact ⟨rfl, stamped_duplicateChange _ y h⟩
  | update => exact ⟨rfl, stamped_write _ y h⟩
  | addTag => exact ⟨rfl, { tags := OrSet.stamped_add _ _ _ }⟩
  | removeTag => exact ⟨rfl, { tags := OrSet.stamped_remove _ _ _ }⟩
  | addOrigin => exact ⟨rfl, { origins := OrSet.stamped_add _ _ _ }⟩
  | removeOrigin => exact ⟨rfl, { origins := OrSet.stamped_remove _ _ _ }⟩
  | addToGroup => exact ⟨rfl, { groups := OrSet.stamped_add _ _ _ }⟩
  | removeFromGroup => exact ⟨rfl, { groups := OrSet.stamped_remove _ _ _ }⟩
  | trashItem | restoreItem => exact ⟨rfl, stamped_trashedAt y _ h⟩
  | deleteItem => exact ⟨rfl, { deleted := .inr ⟨_, rfl⟩ }⟩

omit [LawfulStore S] in
theorem ObjectOp.Counts.clocks {op : ObjectOp} {v : Vault S} {y x : Item} (hc : op.Counts amb v y x) :
    x.id = y.id ∧ x.everyHlc = y.everyHlc := by
  cases hc with
  | recordUse | advanceHotpCounter | setHotpCounter | repairSecret => exact ⟨rfl, rfl⟩

theorem Group.clocks_create {id : GroupId} {name : Text} {h : Hlc} {at' : I64} {k : Hlc} :
    k ∈ (Group.create id name h at').everyHlc ↔ k = h := by
  rw [mem_everyHlc]
  constructor
  · intro hk
    rcases hk with hk | hk | hk | hk
    · exact hk
    · exact hk
    · exact hk
    · exact absurd hk WithBot.bot_ne_coe
  · exact .inl

omit [LawfulStore S] in
theorem ObjectOp.Drafts.stamped {op : ObjectOp} {v w : Vault S} {o : Decoded} (h : op.Drafts E amb v w o) :
    Stamped v w o := by
  cases h with
  | added _ _ _ ht => exact .made ht (Item.clocks_create.mpr rfl) fun k hk => Item.clocks_create.mp hk
  | @written _ y x h hget _ hwrites ht =>
    have hheld : v.Holds (.item y) := hget
    obtain ⟨hid, hstamped⟩ := hwrites.stamped
    exact .written hheld rfl hid.symm ht hstamped.clocks
  | @counted _ y x hget _ hcounts =>
    have hheld : v.Holds (.item y) := hget
    obtain ⟨hid, hclocks⟩ := hcounts.clocks
    exact .kept hheld rfl hid.symm hclocks
  | groupAdded _ ht => exact .made ht (Group.clocks_create.mpr rfl) fun k hk => Group.clocks_create.mp hk
  | @groupUpdated g name color manualOrder h hget ht =>
    have hheld : v.Holds (.group g) := hget
    exact .written hheld rfl rfl ht (Group.Stamped.clocks {
      name := Lww.hlc_setSome _ _ _
      color := Lww.hlc_setSome _ _ _
      manualOrder := Lww.hlc_setSome _ _ _ })
  | @groupDeleted g h hget ht =>
    have hheld : v.Holds (.group g) := hget
    exact .written hheld rfl rfl ht (Group.Stamped.clocks { deleted := .inr ⟨_, rfl⟩ })

theorem draft_stamped (op : ObjectOp) (v : Vault S) :
    Meets (op.draft E amb) v (fun o w => Quiet v w ∧ Stamped v w o) (fun _ w => Quiet v w) :=
  (draft_drafts op v).mono (fun _ _ h => ⟨h.1, h.2.stamped⟩) (fun _ _ hq => hq)

/-! ## Writes -/

/-- What a local write leaves: a draft adopted, or the model as it was. The store is whatever it has become. -/
inductive Wrote (v w : Vault S) : Prop
  | refused {u : Vault S} {s : S} : Quiet v u → w = { u with store := s } → Wrote v w
  | adopted {u : Vault S} {s : S} {o : Decoded} : Quiet v u → Stamped v u o →
      w = ({ u with store := s } : Vault S).adopt o → Wrote v w

/-- A commit adopts the draft or leaves the model as it was. -/
theorem commit_wrote {v u : Vault S} {o : Decoded} (hq : Quiet v u) (hs : Stamped v u o) :
    Meets (Vault.commit E amb o) u (fun _ w => Wrote v w) (fun _ w => Wrote v w) := by
  apply Meets.bind
  apply Meets.bind
  apply (record_spec E amb o u).mono
  · intro r u' h
    obtain ⟨hq', -, -⟩ := h
    apply Meets.pure
    apply (settle_spec _ u').mono
    · intro _ w hsettled
      obtain ⟨s, -, -, rfl⟩ := hsettled
      exact .adopted (hq.trans hq') (hs.mono hq'.time) rfl
    · intro e w herr
      obtain ⟨⟨s, rfl⟩, -⟩ := herr
      exact .refused (hq.trans hq') rfl
  · intro e u' h
    exact .refused (hq.trans h.1) rfl

theorem ObjectOp.wrote (op : ObjectOp) (v : Vault S) :
    Meets (op.run E amb) v (fun _ w => Wrote v w) (fun _ w => Wrote v w) := by
  rw [op.run_eq]
  apply Meets.bind
  apply (draft_stamped op v).mono
  · intro o u h
    exact commit_wrote h.1 h.2
  · intro e u hq
    exact .refused hq rfl

theorem bury_wrote (id : ItemId) (reason : TombstoneReason) (now : U64) (v : Vault S) :
    Meets (Vault.mutateItem E amb id now (fun x hlc => .ok (Vault.buried reason x hlc))) v
      (fun _ w => Wrote v w) (fun _ w => Wrote v w) := by
  apply Meets.bind
  apply (buried_drafts E amb id reason now v).mono
  · intro x u h
    exact commit_wrote h.1 h.2.stamped
  · intro e u hq
    exact .refused hq rfl

theorem sweep_keeps {P : Vault S → Prop}
    (hbury : ∀ (id : ItemId) (now : U64) (v : Vault S), P v →
      Meets (Vault.mutateItem E amb id now (fun x hlc => .ok (Vault.buried .trashExpired x hlc))) v
        (fun _ w => P w) (fun _ w => P w)) {v : Vault S} (hv : P v) :
    Meets (Vault.sweepTrash E amb) v (fun _ w => P w) (fun _ w => P w) := by
  have hloop : ∀ (ids : List ItemId) (reading : Nat) (v : Vault S), P v →
      Meets (Vault.sweepLoop E amb ids reading) v (fun _ w => P w) (fun _ w => P w) := by
    intro ids
    induction ids with
    | nil => exact fun _ v hv => Meets.pure hv
    | cons id rest ih =>
      intro reading v hv
      apply Meets.bind
      apply (hbury id (amb.clock reading) v hv).mono
      · intro _ u h
        exact ih (reading + 1) u h
      · intro e u h
        exact h
  apply Meets.bind
  apply Meets.get
  apply Meets.bind
  apply (hloop _ 1 v hv).mono
  · intro _ w h
    exact Meets.pure h
  · intro e w h
    exact h

theorem sweep_induct {P : Vault S → Prop} (hstep : ∀ v w, P v → Wrote v w → P w) {v : Vault S} (hv : P v) :
    Meets (Vault.sweepTrash E amb) v (fun _ w => P w) (fun _ w => P w) := by
  refine sweep_keeps ?_ hv
  intro id now v hv
  apply (bury_wrote id .trashExpired now v).mono
  · intro _ u h
    exact hstep v u hv h
  · intro e u h
    exact hstep v u hv h

end Misty
