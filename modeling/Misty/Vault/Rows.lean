import Misty.Vault.Move
import Misty.Vault.Phases

/- No operation but a purge takes a row away, whatever the store refuses and whatever
   transaction that leaves open: of the rows a reader sees (`Image.Keeps`) and of the
   rows on the disk (`StoreView.Keeps`). What the model holds has a row, or had one
   that a purge took (`Backed`). -/
namespace Misty

open LawfulStore (view Accepts)

/-- There is a row for the id. -/
def Image.Has (self : Image) (id : ItemId) : Prop := ∃ r, self.rows[id]? = some r

@[simp] theorem Image.has_put (i : Image) (r : StoredEnvelope) (id : ItemId) :
    (i.put r).Has id ↔ r.itemId = id ∨ i.Has id := by
  unfold Has
  rw [rows_put]
  split
  · next h => simp [h]
  · next h => simp [h]

@[simp] theorem Image.has_remove (i : Image) (k id : ItemId) :
    (i.remove k).Has id ↔ k ≠ id ∧ i.Has id := by
  unfold Has
  rw [rows_remove]
  split
  · next h => simp [h]
  · next h => simp [h]

@[simp] theorem Image.has_setEpoch (i : Image) (e : U32) (id : ItemId) :
    (i.setEpoch e).Has id ↔ i.Has id := Iff.rfl

/-- Every id with a row still has one, but for those in `gone`. -/
def Image.Keeps (gone : Set ItemId) (a b : Image) : Prop := ∀ id, a.Has id → b.Has id ∨ id ∈ gone

/-- The same of the rows a reader sees, and of the rows on the disk. -/
structure StoreView.Keeps (gone : Set ItemId) (a b : StoreView) : Prop where
  image : a.image.Keeps gone b.image
  durable : a.durable.Keeps gone b.durable

variable {gone : Set ItemId}

theorem Image.Keeps.refl (i : Image) : i.Keeps gone i := fun _ h => .inl h

theorem Image.Keeps.trans {a b c : Image} (h : a.Keeps gone b) (h' : b.Keeps gone c) : a.Keeps gone c := by
  intro id ha
  rcases h id ha with hb | hg
  · exact h' id hb
  · exact .inr hg

theorem StoreView.Keeps.refl (v : StoreView) : v.Keeps gone v := ⟨.refl _, .refl _⟩

theorem StoreView.Keeps.trans {a b c : StoreView} (h : a.Keeps gone b) (h' : b.Keeps gone c) :
    a.Keeps gone c :=
  ⟨h.image.trans h'.image, h.durable.trans h'.durable⟩

/-- The disk is as it was, or was and is what a reader sees. -/
def StoreView.Follows (a b : StoreView) : Prop :=
  b.durable = a.durable ∨ a.durable = a.image ∧ b.durable = b.image

theorem StoreView.Follows.keeps {a b : StoreView} (h : a.Follows b) (himage : a.image.Keeps gone b.image) :
    a.Keeps gone b := by
  refine ⟨himage, ?_⟩
  rcases h with h | ⟨ha, hb⟩
  · rw [h]
    exact .refl _
  · rw [ha, hb]
    exact himage

/-- What is on the disk a reader still sees. -/
def StoreView.Shown (gone : Set ItemId) (v : StoreView) : Prop := v.durable.Keeps gone v.image

theorem StoreView.Follows.shown {a b : StoreView} (h : a.Follows b) (himage : a.image.Keeps gone b.image)
    (hshown : a.Shown gone) : b.Shown gone := by
  unfold Shown
  rcases h with h | ⟨-, hb⟩
  · rw [h]
    exact hshown.trans himage
  · rw [hb]
    exact .refl _

theorem StoreView.Follows.of_saved {a b : StoreView} (h : b.saved = a.saved) : a.Follows b := by
  unfold Follows durable
  rw [h]
  cases a.saved.getLast? with
  | none => exact .inr ⟨rfl, rfl⟩
  | some i => exact .inl rfl

theorem StoreView.Follows.of_open {a b : StoreView} (h : b.saved = a.image :: a.saved) : a.Follows b := by
  unfold Follows durable
  rw [h]
  cases hs : a.saved with
  | nil => exact .inl rfl
  | cons i rest =>
    rw [List.getLast?_cons_cons]
    cases hl : (i :: rest).getLast? with
    | none => simp at hl
    | some j => exact .inl rfl

/-! ## Transactions -/

variable {S : Type} [LawfulStore S]

/-- A body that keeps the rows, and the open transactions as they are. -/
def KeepsRows (gone : Set ItemId) (f : Io S Unit) : Prop :=
  ∀ s, Meets f s
    (fun _ s' => (view s').saved = (view s).saved ∧ (view s).image.Keeps gone (view s').image)
    (fun _ s' => (view s').saved = (view s).saved ∧ (view s).image.Keeps gone (view s').image)

/-- What a write removes. -/
def Write.removed : Write → Set ItemId
  | put _ => ∅
  | remove id => {id}

theorem Write.keeps (w : Write) (i : Image) : i.Keeps w.removed (w.apply i) := by
  intro id h
  cases w with
  | put r => exact .inl ((Image.has_put i r id).mpr (.inr h))
  | remove k =>
    by_cases hk : k = id
    · exact .inr hk.symm
    · exact .inl ((Image.has_remove i k id).mpr ⟨hk, h⟩)

theorem writeAll_keeps : ∀ (writes : List Write), (∀ w ∈ writes, w.removed ⊆ gone) →
    KeepsRows (S := S) gone (writeAll writes)
  | [], _, s => Meets.pure ⟨rfl, .refl _⟩
  | w :: rest, h, s => by
    have hw : ∀ i : Image, i.Keeps gone (w.apply i) := by
      intro i id hi
      rcases w.keeps i id hi with hi | hi
      · exact .inl hi
      · exact .inr (h w (by simp) hi)
    apply Meets.bind
    apply (write_spec w s).mono
    · intro _ s₁ h₁
      have himage : (view s₁).image = w.apply (view s).image := by rw [h₁.1]
      have hsaved : (view s₁).saved = (view s).saved := by rw [h₁.1]
      have hk : (view s).image.Keeps gone (view s₁).image := by
        rw [himage]
        exact hw _
      apply (writeAll_keeps rest (fun w' hw' => h w' (by simp [hw'])) s₁).mono
      · intro _ s₂ h₂
        exact ⟨h₂.1.trans hsaved, hk.trans h₂.2⟩
      · intro e s₂ h₂
        exact ⟨h₂.1.trans hsaved, hk.trans h₂.2⟩
    · intro e s₁ h₁
      rw [h₁.1]
      exact ⟨rfl, .refl _⟩

theorem setEpoch_keeps (epoch : U32) : KeepsRows (S := S) gone (VaultStore.setEpoch epoch) := by
  intro s
  apply (LawfulStore.setEpoch_spec epoch s).mono
  · intro _ s' h
    rw [h.1]
    exact ⟨rfl, fun id hid => .inl hid⟩
  · intro e s' h
    rw [h.1]
    exact ⟨rfl, .refl _⟩

/-- A transaction keeps what its body keeps, whichever of its ends is refused. -/
theorem transaction_keeps {f : Io S Unit} (hf : KeepsRows gone f) (s : S) :
    Meets (transaction f) s
      (fun _ s' => (view s).image.Keeps gone (view s').image ∧ (view s).Follows (view s'))
      (fun _ s' => (view s).image.Keeps gone (view s').image ∧ (view s).Follows (view s')) := by
  apply Meets.transaction
  apply (LawfulStore.begin_spec s).mono
  · intro _ s₁ h₁
    have hsaved₁ : (view s₁).saved = (view s).image :: (view s).saved := by rw [h₁.1]
    have himage₁ : (view s₁).image = (view s).image := by rw [h₁.1]
    apply (hf s₁).mono
    · intro _ s₂ h₂
      obtain ⟨hs₂, hk₂⟩ := h₂
      rw [himage₁] at hk₂
      have hsaved₂ := hs₂.trans hsaved₁
      apply (LawfulStore.commit_spec s₂ _ _ hsaved₂).mono
      · intro _ s₃ h₃
        exact ⟨by rw [h₃.1]; exact hk₂, .of_saved (by rw [h₃.1])⟩
      · intro e s₃ h₃
        rcases h₃.1 with hopen | ⟨hnil, hback⟩
        · exact ⟨by rw [hopen]; exact hk₂, .of_open (by rw [hopen]; exact hsaved₂)⟩
        · exact ⟨by rw [hback]; exact .refl _, .of_saved (by rw [hback, hnil])⟩
    · intro e s₂ h₂
      obtain ⟨hs₂, hk₂⟩ := h₂
      rw [himage₁] at hk₂
      have hsaved₂ := hs₂.trans hsaved₁
      apply (LawfulStore.rollback_spec s₂ _ _ hsaved₂).mono
      · intro _ s₃ h₃
        exact ⟨by rw [h₃.1]; exact .refl _, .of_saved (by rw [h₃.1])⟩
      · intro e' s₃ h₃
        exact ⟨by rw [h₃.1]; exact hk₂, .of_open (by rw [h₃.1]; exact hsaved₂)⟩
  · intro e s₁ h₁
    rw [h₁.1]
    exact ⟨.refl _, .inl rfl⟩

theorem settle_keeps {staged : Staged S} (hgone : ∀ w ∈ staged.writes, w.removed ⊆ gone) (v : Vault S) :
    Meets (Vault.settle staged) v
      (fun _ w => ∃ s : S, (view s).image = staged.writes.foldl Write.apply (view v.store).image ∧
        w = staged.adopt { v with store := s } ∧ (view v.store).image.Keeps gone (view s).image ∧
        (view v.store).Follows (view s))
      (fun _ w => ∃ s : S, w = { v with store := s } ∧ (view v.store).image.Keeps gone (view s).image ∧
        (view v.store).Follows (view s)) := by
  apply Meets.bind
  apply Meets.onStore
  apply ((transaction_spec staged.writes v.store).and
    (transaction_keeps (writeAll_keeps staged.writes hgone) v.store)).mono
  · intro _ s h
    exact Meets.modify ⟨s, by rw [h.1.1], rfl, h.2⟩
  · intro e s h
    exact ⟨s, rfl, h.2⟩

/-! ## Operations -/

variable {E : Externals} {amb : Ambient}

/-- The operation is no purge. -/
def Op.Additive : Op → Prop
  | .atomic .purgeTombstones => False
  | _ => True

theorem Prepared.removed {op : Op} {v u : Vault S} {staged : Staged S} (hop : op.Additive)
    (h : Prepared E amb v u op staged) : ∀ w ∈ staged.writes, w.removed ⊆ gone := by
  have hput : ∀ r : StoredEnvelope, (Write.put r).removed ⊆ gone := fun r => Set.empty_subset _
  intro w hw
  cases h with
  | object _ _ _ | rewrapped _ _ =>
    rw [List.mem_singleton] at hw
    rw [hw]
    exact hput _
  | purged _ => exact hop.elim
  | merged _ _ _ =>
    obtain ⟨p, -, rfl⟩ := List.mem_map.mp hw
    exact hput _

/-- What the model holds has a row, or had one that is gone. -/
def Backed (gone : Set ItemId) (v : Vault S) : Prop :=
  ∀ o, v.Holds o → (view v.store).image.Has o.itemId ∨ o.itemId ∈ gone

theorem Backed.congr {v w : Vault S} (h : Backed gone v) (hholds : ∀ o, w.Holds o → v.Holds o)
    (hrows : (view v.store).image.Keeps gone (view w.store).image) : Backed gone w := by
  intro o ho
  rcases h o (hholds o ho) with hr | hg
  · exact hrows _ hr
  · exact .inr hg

theorem has_puts {α : Type} (row : α → StoredEnvelope) : ∀ (l : List α) (i : Image) (id : ItemId),
    ((l.map (fun a => .put (row a))).foldl Write.apply i).Has id ↔ (∃ a ∈ l, (row a).itemId = id) ∨ i.Has id
  | [], i, id => by simp
  | a :: l, i, id => by
    rw [List.map_cons, List.foldl_cons, has_puts row l]
    show _ ∨ (i.put (row a)).Has id ↔ _
    rw [Image.has_put, ← or_assoc, List.exists_mem_cons_iff, or_comm (a := ∃ x ∈ l, _)]

omit [LawfulStore S] in
theorem Vault.holds_of_adopt {v : Vault S} {o o' : Decoded} (h : (v.adopt o).Holds o') :
    o' = o ∨ v.Holds o' := by
  cases o with
  | item x =>
    cases o' with
    | item y =>
      rcases (ItemSet.holds_replace _ _ _).mp h with hy | hy
      · exact .inl (by rw [hy])
      · exact .inr hy.1
    | group g => exact .inr h
  | group g =>
    cases o' with
    | item y => exact .inr h
    | group y =>
      rcases (GroupMap.holds_insert _ _ _).mp h with hy | hy
      · exact .inl (by rw [hy])
      · exact .inr hy.1

theorem Recorded.itemId {v : Vault S} {decoded : List (RemoteChange × Decoded)} {m : Merging}
    {o : Decoded} {p : Decoded × StoredEnvelope} (h : Recorded E amb v decoded m (.ok o) p) :
    p.2.itemId = o.itemId := by
  cases h with
  | verbatim _ => rfl
  | resealed _ hr => exact hr.itemId

omit [LawfulStore S] in
@[simp] theorem Vault.store_adopt (v : Vault S) (o : Decoded) : (v.adopt o).store = v.store := by
  cases o <;> rfl

theorem Prepared.store_adopt {op : Op} {v u : Vault S} {staged : Staged S} (h : Prepared E amb v u op staged)
    (w : Vault S) : (staged.adopt w).store = w.store := by
  cases h with
  | object _ _ _ => exact w.store_adopt _
  | purged h =>
    cases h
    rfl
  | merged _ _ _ => rfl
  | rewrapped _ _ => rfl

/-- What the model holds once a transaction was accepted has a row. -/
theorem Prepared.backed {op : Op} {v u : Vault S} {staged : Staged S} {s : S} (hop : op.Additive)
    (hq : Quiet v u) (hp : Prepared E amb v u op staged) (hb : Backed gone v)
    (himage : (view s).image = staged.writes.foldl Write.apply (view u.store).image) :
    Backed gone (staged.adopt { u with store := s }) := by
  rw [hq.view] at himage
  have hstore := hp.store_adopt { u with store := s }
  unfold Backed
  rw [hstore]
  -- whatever was held before has its row still
  have hold : ∀ o, v.Holds o → (view s).image.Has o.itemId ∨ o.itemId ∈ gone := by
    intro o ho
    rcases hb o ho with hr | hg
    · left
      rw [himage]
      have hkept : ∀ (l : List Write) (i : Image), (∀ w ∈ l, w.removed ⊆ (∅ : Set ItemId)) → i.Has o.itemId →
          (l.foldl Write.apply i).Has o.itemId := by
        intro l
        induction l with
        | nil => exact fun i _ h => h
        | cons w l ih =>
          intro i hl hi
          refine ih _ (fun w' hw' => hl w' (by simp [hw'])) ?_
          rcases w.keeps i _ hi with h | h
          · exact h
          · exact absurd (hl w (by simp) h) (by simp)
      exact hkept _ _ (hp.removed hop) hr
    · exact .inr hg
  intro o ho
  cases hp with
  | object _ _ hr =>
    rcases Vault.holds_of_adopt ho with rfl | ho
    · left
      rw [himage]
      exact (Image.has_put _ _ _).mpr (.inl hr.itemId)
    · exact hold o ((hq.holds_iff o).mp ho)
  | purged _ => exact hop.elim
  | rewrapped _ _ => exact hold o ((hq.holds_iff o).mp ho)
  | @merged changes decoded ignored m records hdec hm hall =>
    have hwithin := Merging.within_of_mergeDecoded hm
    have hheld : m.Holds o := by
      cases o with
      | item x => exact ho
      | group g => exact ho
    by_cases htouched : .ok o ∈ m.touched
    · obtain ⟨p, hp, hrec⟩ := Merging.exists_of_forall₂ hall _ htouched
      left
      rw [himage]
      exact (has_puts (fun p : Decoded × StoredEnvelope => p.2) _ _ _).mpr (.inl ⟨p, hp, hrec.itemId⟩)
    · refine hold o ?_
      rw [Merging.mem_touched] at htouched
      have hout := fun h => htouched ⟨hheld, h⟩
      cases o with
      | item x =>
        show v.items.get x.id = some x
        rw [← hwithin.sameItems x.id hout]
        exact hheld
      | group g =>
        show v.groups.get g.id = some g
        rw [← hwithin.sameGroups g.id hout]
        exact hheld

/-- The rows are kept, a reader still sees what is on the disk, and the model stays backed by rows. -/
structure Kept (gone : Set ItemId) (v w : Vault S) : Prop where
  rows : (view v.store).Keeps gone (view w.store)
  shown : (view v.store).Shown gone → (view w.store).Shown gone
  backed : Backed gone v → Backed gone w

theorem Kept.of_follows {v w : Vault S} (hf : (view v.store).Follows (view w.store))
    (hk : (view v.store).image.Keeps gone (view w.store).image) (hb : Backed gone v → Backed gone w) :
    Kept gone v w :=
  ⟨hf.keeps hk, hf.shown hk, hb⟩

theorem Stage.kept {op : Op} {v w : Vault S} (hop : op.Additive) (h : Stage E amb op v w) : Kept gone v w := by
  cases h with
  | quiet hq =>
    refine .of_follows (.of_saved ?_) ?_ (fun hb => hb.congr (fun o ho => (hq.holds_iff o).mp ho) ?_)
    · rw [hq.view]
    · rw [hq.view]
      exact .refl _
    · rw [hq.view]
      exact .refl _
  -- a rotation writes the epoch, and no row
  | rotate hop' hw =>
    rw [hw]
    apply Meets.stateAfter (P := Kept gone v)
    apply Meets.bind
    apply Meets.get
    split
    · apply Meets.bind
      apply Meets.onStore
      apply (transaction_keeps (setEpoch_keeps _) v.store).mono
      · intro _ s h
        have hback : ∀ e o, ({ v with store := s, epoch := e } : Vault S).Holds o → v.Holds o := by
          intro e o ho
          cases o <;> exact ho
        apply Meets.bind
        apply Meets.modify
        exact Meets.pure (.of_follows h.2 h.1 (fun hb => hb.congr (hback _) h.1))
      · intro e s h
        exact .of_follows h.2 h.1 (fun hb => hb.congr (fun o ho => by cases o <;> exact ho) h.1)
    · exact Meets.throw (.of_follows (.of_saved rfl) (.refl _) id)
  -- an additive operation stages no removal
  | @settle u staged hq hp hw =>
    rw [hw]
    apply Meets.stateAfter (P := Kept gone v)
    apply (settle_keeps (hp.removed hop) u).mono
    · intro _ w h
      obtain ⟨s, himage, rfl, hk, hf⟩ := h
      rw [hq.view] at hk hf
      have hstore := hp.store_adopt { u with store := s }
      refine .of_follows ?_ ?_ (fun hb => hp.backed hop hq hb himage)
      · rw [hstore]
        exact hf
      · rw [hstore]
        exact hk
    · intro e w h
      obtain ⟨s, rfl, hk, hf⟩ := h
      rw [hq.view] at hk hf
      refine .of_follows hf hk (fun hb => hb.congr (fun o ho => (hq.holds_iff o).mp ?_) hk)
      cases o <;> exact ho

/-- Anything but a purge keeps the rows, and the model backed by rows. -/
theorem Op.run_kept {op : Op} (hop : op.Additive) (v : Vault S) :
    Kept gone v (stateAfter (op.run E amb) v) := by
  have hrefl : Kept gone v v := .of_follows (.of_saved rfl) (.refl _) id
  refine op.run_stages_induct (P := Kept gone v) hrefl ?_
  intro u w hu _ h
  have hk : Kept gone u w := h.kept hop
  exact ⟨hu.rows.trans hk.rows, fun hs => hk.shown (hu.shown hs), fun hb => hk.backed (hu.backed hb)⟩

/-! ## Purges -/

theorem ItemSet.holds_of_purges {ids : List ItemId} {s : ItemSet} {i : ItemId} {x : Item}
    (h : (ids.foldl ItemSet.purge s).get i = some x) : s.get i = some x := by
  induction ids generalizing s with
  | nil => exact h
  | cons id ids ih =>
    have hx := ih (s := s.purge id) h
    rw [ItemSet.get_purge] at hx
    split at hx
    · cases hx
    · exact hx

theorem GroupMap.holds_of_removes {ids : List GroupId} {m : GroupMap} {i : GroupId} {g : Group}
    (h : (ids.foldl GroupMap.remove m).get i = some g) : m.get i = some g := by
  induction ids generalizing m with
  | nil => exact h
  | cons id ids ih =>
    have hg := ih (m := m.remove id) h
    rw [GroupMap.get_remove] at hg
    split at hg
    · cases hg
    · exact hg

variable (E amb) in
/-- A purge leaves the disk as it was, or brings it up to what a reader sees; it adds nothing to the model. -/
theorem purge_spec (v : Vault S) :
    (view v.store).Follows (view (stateAfter ((Op.atomic .purgeTombstones).run E amb) v).store) ∧
      ∀ o, (stateAfter ((Op.atomic .purgeTombstones).run E amb) v).Holds o → v.Holds o := by
  have hspec : Meets ((Op.atomic .purgeTombstones).run E amb) v
      (fun _ w => (view v.store).Follows (view w.store) ∧ ∀ o, w.Holds o → v.Holds o)
      (fun _ w => (view v.store).Follows (view w.store) ∧ ∀ o, w.Holds o → v.Holds o) := by
    show Meets ((AtomicOp.purgeTombstones).run E amb) v _ _
    rw [AtomicOp.run_eq]
    apply Meets.bind
    apply Meets.bind
    apply Meets.get
    apply Meets.pure
    apply (settle_keeps (fun w _ => Set.subset_univ _) v).mono
    · intro _ w h
      obtain ⟨s, -, rfl, -, hf⟩ := h
      refine ⟨hf, ?_⟩
      intro o ho
      cases o with
      | item x => exact ItemSet.holds_of_purges ho
      | group g => exact GroupMap.holds_of_removes ho
    · intro e w h
      obtain ⟨s, rfl, -, hf⟩ := h
      refine ⟨hf, ?_⟩
      intro o ho
      cases o <;> exact ho
  exact hspec.stateAfter

/-! ## Merges -/

variable (E amb) in
/-- What an accepted merge did. -/
inductive Merged (changes : List RemoteChange) (v w : Vault S) : Prop
  | intro {u : Vault S} {decoded : List (RemoteChange × Decoded)} {ignored : Nat} {m : Merging}
      {records : List (Decoded × StoredEnvelope)} {s : S} : Quiet v u →
      decodeChanges E v.vaultKey v.roster changes = .ok (decoded, ignored) →
      mergeDecoded (vaultForkIds E v.vaultKey) decoded ⟨v.items, v.groups, [], [], []⟩ = .ok m →
      List.Forall₂ (Recorded E amb v decoded m) m.touched records →
      view s = ⟨(records.map (fun p => Write.put p.2)).foldl Write.apply (view v.store).image,
        (view v.store).saved⟩ →
      w = Vault.adoptMerge m (records.map Prod.fst) { u with store := s } → Merged changes v w

theorem merged_of_mergeRemote {changes : List RemoteChange} {v w : Vault S} {report : MergeReport}
    (h : Vault.mergeRemote E amb changes v = .ok report w) : Merged E amb changes v w := by
  have hrun : ((AtomicOp.mergeRemote changes).run E amb : Io (Vault S) Unit) v = .ok ⟨⟩ w := run_bind_ok h
  rw [AtomicOp.run_eq] at hrun
  have hspec : Meets ((AtomicOp.mergeRemote changes).staged E amb >>= Vault.settle) v
      (fun _ w => Merged E amb changes v w) (fun _ _ => True) := by
    apply Meets.bind
    apply ((AtomicOp.mergeRemote changes).staged_spec v).mono
    · intro staged u h
      obtain ⟨hq, -, hp⟩ := h
      apply (settle_spec staged u).mono
      · intro _ w h
        obtain ⟨s, hs, -, rfl⟩ := h
        rw [hq.view] at hs
        cases hp with
        | object hop _ _ => cases hop
        | merged hdec hm hall => exact .intro hq hdec hm hall hs rfl
      · intro _ _ _
        trivial
    · intro _ _ _
      trivial
  exact hspec.of_ok hrun

/-- An accepted merge leaves an object in the model for each of its changes. -/
theorem Merged.holds {changes : List RemoteChange} {v w : Vault S} (h : Merged E amb changes v w)
    {c : RemoteChange} (hc : c ∈ changes) {o : Decoded}
    (hdec : decodeChange E v.vaultKey v.roster c = .ok (some o)) :
    ∃ o', w.Holds o' ∧ o'.kind = o.kind ∧ o'.itemId = o.itemId := by
  cases h with
  | @intro u decoded ignored m records s hq hchanges hm hall hs hw =>
    obtain ⟨o', ho', hmem⟩ := mem_decoded_of_mem hchanges c hc
    rw [hdec] at ho'
    cases ho'
    obtain ⟨o', ho', hkind, hid⟩ := (Merging.occupied_of_mergeDecoded hm).1 _ (hmem o rfl)
    refine ⟨o', ?_, hkind, hid⟩
    rw [hw]
    cases o' <;> exact ho'

omit [LawfulStore S] in
@[simp] theorem stateAfter_dropping {α : Type} (x : Io (Vault S) α) (v : Vault S) :
    stateAfter (dropping x) v = stateAfter x v := by
  unfold stateAfter dropping
  cases hx : x v with
  | ok a w =>
    rw [run_bind_ok hx]
    rfl
  | error e w => rw [run_bind_error hx]

/-- The vault after `merge_remote`, accepted or not. -/
theorem mergeRemote_kept (changes : List RemoteChange) (v : Vault S) :
    Kept gone v (stateAfter (Vault.mergeRemote E amb changes) v) := by
  rw [← stateAfter_dropping]
  have hop : (Op.atomic (.mergeRemote changes)).Additive := trivial
  exact Op.run_kept hop v

end Misty
