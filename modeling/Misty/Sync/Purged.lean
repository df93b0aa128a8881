import Misty.Sync.Known
import Misty.Sync.Drive
import Misty.Vault.Failure
import Misty.Sync.Trace
import Misty.Vault.Consistent

/- Only purged rows are deleted.

   A `DELETE` is the difference of two stores: a known row and no vault row. The
   invariant (`Accounted`) is that a known row that could be deleted has a vault row or
   had one that a purge took; of a saved state it says so of the rows on the disk, which
   is what a restart opens. A page records such a row only after its merge, and what a
   merge accepts is held by the model, which is backed by rows. -/
namespace Misty

open LawfulStore (view)

variable {S X : Type} [LawfulStore S] {E : Externals} {P : Peer X} {C : Permit S X} {start : X → Prop}

/-! ## Kinds -/

@[simp] theorem isDeletable_asU8 (kind : EnvelopeKind) (fp : Option Fingerprint) (version : Option ServerVersion)
    (seq : Option I64) : (⟨kind.asU8, fp, version, seq⟩ : KnownRow).isDeletable = isMerged kind := by
  unfold KnownRow.isDeletable
  rw [EnvelopeKind.fromU8_asU8]
  cases kind <;> rfl

theorem KnownRow.isDeletable_congr {a b : KnownRow} (h : a.kind = b.kind) : a.isDeletable = b.isDeletable := by
  unfold isDeletable
  rw [h]

theorem parse_of_verifyChange {roster : Roster} {id : ItemId} {envelope : Bytes} {kind : EnvelopeKind}
    (h : verifyChange E roster id envelope = .ok kind) :
    ∃ env, Envelope.parse envelope = .ok env ∧ env.header.kind = kind := by
  unfold verifyChange at h
  split at h
  · cases h
  · obtain ⟨env, hparse, h₁⟩ := bind_eq_ok.mp h
    obtain ⟨_, -, h₂⟩ := bind_eq_ok.mp h₁
    cases h₂
    exact ⟨env, mapError_eq_ok.mp hparse, rfl⟩

theorem parse_of_verifyConflict {roster : Roster} {id : ItemId} {envelope : Bytes} {kind : EnvelopeKind}
    (h : verifyConflict E roster id envelope = .ok kind) :
    ∃ env, Envelope.parse envelope = .ok env ∧ env.header.kind = kind := by
  unfold verifyConflict at h
  split at h
  · cases h
  · obtain ⟨env, hparse, h₁⟩ := bind_eq_ok.mp h
    obtain ⟨_, -, h₂⟩ := bind_eq_ok.mp h₁
    cases h₂
    exact ⟨env, mapError_eq_ok.mp hparse, rfl⟩

/-! ## Merges -/

theorem mergeRemote_of_merge {w w' : World S X} {amb : Ambient} {changes : List RemoteChange} {report : MergeReport}
    (h : (.ok report, w') = w.merge E amb changes) :
    Vault.mergeRemote E amb changes w.vault = .ok report w'.vault := by
  unfold World.merge at h
  split at h
  · next r v hv =>
    cases h
    exact hv
  · cases h

theorem holds_of_merges {changes : List RemoteChange} {w w' : World S X} (h : Merges E P C changes w w')
    {c : RemoteChange} (hc : c ∈ changes) {env : Envelope} (hparse : Envelope.parse c.envelope = .ok env)
    (hkind : isMerged env.header.kind = true) : ∃ o, w'.vault.Holds o ∧ o.itemId = c.itemId := by
  rcases h with ⟨rfl, -⟩ | ⟨-, report, ⟨amb, hanswer⟩, -⟩
  · cases hc
  · have hrun := mergeRemote_of_merge hanswer
    have hmerged := merged_of_mergeRemote hrun
    have hdec : ∃ o, decodeChange E w.vault.vaultKey w.vault.roster c = .ok (some o) := by
      cases hmerged with
      | intro _ hchanges _ _ _ _ =>
        obtain ⟨o, ho, -⟩ := mem_decoded_of_mem hchanges c hc
        cases o with
        | some o => exact ⟨o, ho⟩
        | none =>
          cases decodeChange_eq_ok.mp ho with
          | ignored hparse' hitem hgroup =>
            rw [hparse] at hparse'
            cases hparse'
            simp only [isMerged, Bool.or_eq_true, decide_eq_true_eq] at hkind
            tauto
    obtain ⟨o, ho⟩ := hdec
    have hid : o.itemId = c.itemId := by
      cases decodeChange_eq_ok.mp ho with
      | object _ _ _ _ _ hid => exact hid
    obtain ⟨o', ho', -, hid'⟩ := hmerged.holds hc ho
    exact ⟨o', ho', hid'.trans hid⟩

/-! ## Rows are kept -/

/-- Rows go only where a purge took them, and the model stays backed by rows. -/
structure World.Keeps (w w' : World S X) : Prop where
  purged : w.purged ⊆ w'.purged
  rows : (view w.vault.store).Keeps w'.purged (view w'.vault.store)
  shown : (view w.vault.store).Shown w.purged → (view w'.vault.store).Shown w'.purged
  backed : Backed w.purged w.vault → Backed w'.purged w'.vault

theorem Image.Keeps.mono {gone gone' : Set ItemId} {a b : Image} (hsub : gone ⊆ gone') (h : a.Keeps gone b) :
    a.Keeps gone' b := by
  intro id hid
  rcases h id hid with hb | hg
  · exact .inl hb
  · exact .inr (hsub hg)

namespace World.Keeps

theorem refl (w : World S X) : w.Keeps w := ⟨subset_rfl, .refl _, id, id⟩

theorem of_eq {w w' : World S X} (hvault : w'.vault = w.vault) (hpurged : w'.purged = w.purged) : w.Keeps w' := by
  refine ⟨hpurged.ge, ?_, ?_, ?_⟩
  · rw [hvault]
    exact .refl _
  · rw [hvault, hpurged]
    exact id
  · rw [hvault, hpurged]
    exact id

theorem trans {u v w : World S X} (h : u.Keeps v) (h' : v.Keeps w) : u.Keeps w where
  purged := h.purged.trans h'.purged
  rows := ⟨(h.rows.image.mono h'.purged).trans h'.rows.image, (h.rows.durable.mono h'.purged).trans h'.rows.durable⟩
  shown hs := h'.shown (h.shown hs)
  backed hb := h'.backed (h.backed hb)

theorem of_kept {w w' : World S X} (h : Kept w.purged w.vault w'.vault) (hpurged : w'.purged = w.purged) :
    w.Keeps w' := by
  refine ⟨hpurged.ge, ?_, ?_, ?_⟩
  · rw [hpurged]
    exact h.rows
  · rw [hpurged]
    exact h.shown
  · rw [hpurged]
    exact h.backed

end World.Keeps

/-- Every operation keeps the rows it does not purge. -/
theorem World.edit_keeps (w : World S X) (amb : Ambient) (op : Op) : w.Keeps (w.edit E amb op) := by
  by_cases hop : op.Additive
  · refine .of_kept (op.run_kept hop w.vault) ?_
    have htook : op.took w.rows (view (stateAfter (op.run E amb) w.vault).store).image = ∅ := by
      cases op with
      | atomic op =>
        cases op with
        | object _ | mergeRemote _ => rfl
        | purgeTombstones => exact hop.elim
      | sweepTrash | rotateEpoch | rewrapToCurrentEpoch _ => rfl
    show w.purged ∪ _ = _
    rw [htook, Set.union_empty]
  · have hpurge : op = .atomic .purgeTombstones := by
      cases op with
      | atomic op =>
        cases op with
        | object _ | mergeRemote _ => exact absurd trivial hop
        | purgeTombstones => rfl
      | sweepTrash | rotateEpoch | rewrapToCurrentEpoch _ => exact absurd trivial hop
    subst hpurge
    obtain ⟨hfollows, hholds⟩ := purge_spec E amb w.vault
    have himage : w.rows.Keeps (w.edit E amb (.atomic .purgeTombstones)).purged
        (view (w.edit E amb (.atomic .purgeTombstones)).vault.store).image := by
      intro id hid
      by_cases hafter : (view (w.edit E amb (.atomic .purgeTombstones)).vault.store).image.Has id
      · exact .inl hafter
      · exact .inr (.inr ⟨hid, hafter⟩)
    refine ⟨Set.subset_union_left, hfollows.keeps himage,
      fun hs => hfollows.shown himage (hs.mono Set.subset_union_left), ?_⟩
    intro hb o ho
    rcases hb o (hholds o ho) with hrow | hgone
    · exact himage _ hrow
    · exact .inr (.inl hgone)

theorem WorldStep.keeps {st : SyncState} {w w' : World S X} (h : WorldStep E P C st w w') : w.Keeps w' := by
  cases h with
  | moved hm =>
    obtain ⟨x, -, rfl, -⟩ := hm
    exact .of_eq rfl rfl
  | read hq =>
    refine .of_kept (.of_follows (.of_saved (by rw [hq.view])) ?_
      (fun hb => hb.congr (fun o ho => (hq.holds_iff o).mp ho) ?_)) rfl
    · rw [hq.view]
      exact .refl _
    · rw [hq.view]
      exact .refl _
  | sent _ hserved =>
    obtain ⟨x, -, rfl, -⟩ := hserved
    refine .of_eq (w.vault_hear _ _ _) ?_
    cases ‹Except SyncError Response› <;> rfl
  | lost _ _ _ => exact .of_eq rfl rfl
  | @merged _ changes a hp =>
    obtain ⟨⟨amb, hanswer⟩, -⟩ := hp
    have hw : w'.vault = stateAfter (Vault.mergeRemote E amb changes) w.vault ∧ w'.purged = w.purged := by
      unfold World.merge at hanswer
      unfold stateAfter
      split at hanswer
      · next r v hv =>
        cases hanswer
        rw [hv]
        exact ⟨rfl, rfl⟩
      · next e v hv =>
        cases hanswer
        rw [hv]
        exact ⟨rfl, rfl⟩
    refine .of_kept ?_ hw.2
    rw [hw.1]
    exact mergeRemote_kept changes w.vault
  | edited _ => exact w.edit_keeps _ _
  | rotated amb op _ => exact w.edit_keeps amb op
  | noted => exact .of_eq rfl rfl

theorem keeps_of_steps {st : SyncState} {w w' : World S X} (h : Relation.ReflTransGen (WorldStep E P C st) w w') :
    w.Keeps w' := by
  induction h with
  | refl => exact .refl _
  | tail _ hstep ih => exact ih.trans hstep.keeps

/-! ## The invariant -/

/-- Each known row that could be deleted has a vault row, or had one that is gone. -/
def SyncState.Covered (self : SyncState) (image : Image) (gone : Set ItemId) : Prop :=
  ∀ id row, self.known[id]? = some row → row.isDeletable = true → image.Has id ∨ id ∈ gone

theorem SyncState.Covered.mono {st : SyncState} {gone gone' : Set ItemId} {a b : Image} (h : st.Covered a gone)
    (hsub : gone ⊆ gone') (hkeeps : a.Keeps gone' b) : st.Covered b gone' := by
  intro id row hrow hkind
  rcases h id row hrow hkind with ha | hg
  · exact hkeeps id ha
  · exact .inr (hsub hg)

/-- The state is accounted for by what a reader sees, and each saved one by the disk. -/
structure Accounted (st : SyncState) (w : World S X) : Prop where
  live : st.Covered w.rows w.purged
  saved : ∀ s ∈ w.saved, s.Covered (view w.vault.store).durable w.purged
  shown : (view w.vault.store).Shown w.purged
  backed : Backed w.purged w.vault

theorem WorldStep.saved {st s : SyncState} {w w' : World S X} (h : WorldStep E P C st w w') (hs : s ∈ w'.saved) :
    s ∈ w.saved ∨ s = st ∧ (view w.vault.store).saved = [] ∧ w'.vault = w.vault := by
  cases h with
  | moved hm =>
    obtain ⟨x, -, rfl, -⟩ := hm
    exact .inl hs
  | read _ | lost _ _ _ | edited _ | rotated _ _ _ => exact .inl hs
  | sent _ hserved =>
    obtain ⟨x, -, rfl, -⟩ := hserved
    cases ‹Except SyncError Response› <;> exact .inl hs
  | merged hp =>
    obtain ⟨⟨amb, hanswer⟩, -⟩ := hp
    unfold World.merge at hanswer
    split at hanswer <;> cases hanswer <;> exact .inl hs
  | noted =>
    rcases hs with hs | ⟨rfl, hclosed⟩
    · exact .inl hs
    · exact .inr ⟨rfl, hclosed, rfl⟩

theorem durable_of_closed {v : StoreView} (h : v.saved = []) : v.durable = v.image := by
  unfold StoreView.durable
  rw [h]
  rfl

theorem WorldStep.accounted {st : SyncState} {w w' : World S X} (h : WorldStep E P C st w w') (hw : Accounted st w) :
    Accounted st w' := by
  have hkeeps := h.keeps
  refine ⟨hw.live.mono hkeeps.purged hkeeps.rows.image, ?_, hkeeps.shown hw.shown, hkeeps.backed hw.backed⟩
  intro s hs
  rcases h.saved hs with hs | ⟨rfl, hclosed, hvault⟩
  · exact (hw.saved s hs).mono hkeeps.purged hkeeps.rows.durable
  · rw [hvault, durable_of_closed hclosed]
    exact hw.live.mono hkeeps.purged (.refl _)

/-- What is learned is accounted for: its vault row is there, or its kind is no item's and no group's. -/
theorem Learned.covered {st : SyncState} {w w' : World S X} {id : ItemId} {row : KnownRow}
    (h : Learned E P C st w w' id row) (hkeeps : w.Keeps w') (hw : Accounted st w') (hkind : row.isDeletable = true) :
    w'.rows.Has id ∨ id ∈ w'.purged := by
  have hhas : ∀ {r : StoredEnvelope}, w.rows.rows[id]? = some r → w'.rows.Has id ∨ id ∈ w'.purged :=
    fun hrow => hkeeps.rows.image id ⟨_, hrow⟩
  cases h with
  | kept hknown => exact hw.live id row hknown hkind
  | pulled _ _ _ _ _ hmerged hpage =>
    cases hpage with
    | change _ _ hfrom _ =>
      cases hfrom with
      | verified hmem hid =>
        rw [isDeletable_asU8] at hkind
        obtain ⟨hpage, haccepted⟩ := accepted_of_mem hmem
        cases haccepted with
        | verified henv hverify =>
          obtain ⟨env, hparse, rfl⟩ := parse_of_verifyChange hverify
          obtain ⟨o, ho, hoid⟩ := holds_of_merges hmerged (mem_batch hpage henv hverify hkind) hparse hkind
          rw [← hid]
          exact hoid.subst (motive := fun i => w'.rows.Has i ∨ i ∈ w'.purged) (hw.backed o ho)
      | known hknown =>
        refine hw.live id _ hknown ?_
        rw [← hkind]
        exact KnownRow.isDeletable_congr rfl
      | unknown => cases hkind
  | applied hrow _ _ _ => exact hhas hrow
  | reclaimed hrow _ _ _ => exact hhas hrow
  | resolved _ hrow _ _ _ _ _ _ => exact hhas hrow
  | published _ _ _ =>
    rw [isDeletable_asU8] at hkind
    cases hkind
  | outdated _ _ _ =>
    rw [isDeletable_asU8] at hkind
    cases hkind

theorem Opened.backed {store : S} {vaultKey : ByteArr 32} {device : DeviceIdentity} {roster : Roster} {v : Vault S}
    (h : Vault.open E store vaultKey device roster = .ok v) (gone : Set ItemId) : Backed gone v := by
  have hcon := Consistent.of_opened (opened_of_open h)
  intro o ho
  obtain ⟨r, hr, -⟩ := (hcon.holds_iff o).mp ho
  exact .inl ⟨r, hr⟩

/-- A restart finds what was saved accounted for by the disk. -/
theorem Reopened.accounted {st st' : SyncState} {w w' : World S X} (h : Reopened E C st' w w') (hw : Accounted st w) :
    Accounted st' w' := by
  cases h with
  | @intro v hsaved hv _ =>
    rcases hv with rfl | ⟨store, roster, hstore, hopen⟩
    · exact ⟨(hw.saved st' hsaved).mono subset_rfl hw.shown, hw.saved, hw.shown, hw.backed⟩
    · have hview : view v.store = ⟨(view w.vault.store).durable, []⟩ := (opened_of_open hopen).view.trans hstore
      refine ⟨?_, ?_, ?_, Opened.backed hopen _⟩
      · show st'.Covered (view v.store).image w.purged
        rw [hview]
        exact hw.saved st' hsaved
      · intro s hs
        show s.Covered (view v.store).durable w.purged
        rw [hview]
        exact hw.saved s hs
      · show (view v.store).Shown w.purged
        rw [hview]
        exact .refl _

theorem Traced.accounted {st : SyncState} {w : World S X} (h : Traced E P C start st w) : Accounted st w := by
  have hnew : ∀ image gone, SyncState.new.Covered image gone := by
    intro image gone id row hrow
    simp [SyncState.new] at hrow
  induction h with
  | fresh hw _ =>
    refine ⟨hnew _ _, ?_, ?_, ?_⟩
    · intro s hs
      rw [hw.saved] at hs
      rw [Set.mem_singleton_iff.mp hs]
      exact hnew _ _
    · unfold StoreView.Shown
      rw [durable_of_closed hw.closed]
      exact .refl _
    · obtain ⟨store, vaultKey, device, roster, hopen⟩ := hw.opened
      exact Opened.backed hopen _
  | @step st st' w w' _ hmove ih =>
    rcases hmove.steps with hsteps | hreopened
    · have hw' : Accounted st w' := by
        clear hmove
        induction hsteps with
        | refl => exact ih
        | tail _ hstep ih => exact hstep.accounted ih
      rcases hmove.known with hknown | hreopened
      · exact ⟨fun id row hrow hkind => (hknown id row hrow).covered (keeps_of_steps hsteps) hw' hkind,
          hw'.saved, hw'.shown, hw'.backed⟩
      · exact hreopened.accounted ih
    · exact hreopened.accounted ih

/-- Whatever the server answers, what is refused and where the run is cut short: a `DELETE` names an id
whose row a purge took, and the vault holds no row for it. -/
theorem only_purged_rows_are_deleted {r : Run S X} (h : Run.Reached E P .all (fun _ => True) r) {id : ItemId}
    {version : Option ServerVersion} {s : SyncEngine}
    {k : Except SyncError Response → Calls Query Answer SyncError SyncEngine Unit}
    (hr : r.work = .call (.send (.delete id version)) s k) : id ∈ r.world.purged ∧ ¬ r.world.rows.Has id := by
  obtain ⟨htraced, hask⟩ := h.asks hr
  cases hask with
  | delete hknown hkind hrow =>
    rcases htraced.accounted.live id _ hknown hkind with hhas | hpurged
    · exact absurd hhas hrow
    · exact ⟨hpurged, hrow⟩

/-- `Group.sample`, deleted by the host that made it. -/
def Group.buried : Group := { Group.sample with deleted := some ⟨Hlc.early 2 1, .user⟩ }

/-- The externals of a vault that deletes its group. -/
def Externals.burying : Externals := .sample [] [.sample, .buried]

/-- A group is added, pushed, deleted, pushed again and purged, and a sync begins. -/
def Run.deleting : Run MemoryStore Unit :=
  (Run.sample [1] ()).play .burying .agreeable 40 [
    .edit (.sample 5) (.atomic (.object (.addGroup ['g']))),
    .whole (.syncOnce (.sample [1])),
    .edit (.sample 5) (.atomic (.object (.deleteGroup Group.sample.id))),
    .whole (.syncOnce (.sample [1])),
    .edit (.later 5) (.atomic .purgeTombstones),
    .call (.syncOnce (.sample [1])) (fun _ => true)]

theorem Run.reached_deleting :
    Run.Reached .burying (.scripted Driver.agreeable.serve) .all (fun _ => True) .deleting := by
  refine Run.Reached.play (fun _ _ => rfl) (fun _ _ _ => trivial) _ ?_
    (Run.reached_sample (open_sample [] [.sample, .buried]) trivial)
  intro f hf
  simp [Act.whole] at hf

set_option maxRecDepth 20000 in
/-- The purge of a group that was pushed is the one `DELETE`. -/
theorem only_purged_rows_are_deleted_group :
    Group.sample.id.asItemId ∈ Run.deleting.world.purged ∧ ¬ Run.deleting.world.rows.Has Group.sample.id.asItemId := by
  have hasking : Run.deleting.work.asking = some (.delete Group.sample.id.asItemId (some ⟨['1']⟩)) := by
    decide +kernel
  obtain ⟨s, k, hwork⟩ := Calls.eq_of_asking hasking
  exact only_purged_rows_are_deleted Run.reached_deleting hwork

end Misty
