import Misty.Vault.Draft
import Mathlib.Logic.Relation

/- Every operation as stages of the vault: quiet steps, and transactions run from
   what the operation had prepared for them (`Prepared`). An operation with one
   transaction is one stage (`AtomicOp.run_stage`), the loops are several
   (`Op.run_stages`). A stage is a move (`Stage.move`): quiet, a transaction that was
   accepted, or one an end of which was refused. What every move preserves every
   operation preserves (`Op.run_induct`). -/
namespace Misty

variable {S : Type} [LawfulStore S] (E : Externals) (amb : Ambient)

open LawfulStore (view Accepts)

/-- The object operations an operation is made of. -/
inductive Op.Commits : Op → ObjectOp → Prop
  | object (op : ObjectOp) : Commits (.atomic (.object op)) op
  | swept (id : ItemId) : Commits .sweepTrash (.deleteItem id)

/-- A touched object and its row: the bytes of a peer, or a row of the vault's own. -/
inductive Recorded (v : Vault S) (decoded : List (RemoteChange × Decoded)) (m : Merging) :
    Result Decoded → Decoded × StoredEnvelope → Prop
  | verbatim {o : Decoded} {change : RemoteChange} : verbatim decoded m o = some change →
      Recorded v decoded m (.ok o)
        (o, ⟨o.itemId, o.kind, change.seq, change.version, change.envelope, o.maxHlc⟩)
  | resealed {o : Decoded} {r : StoredEnvelope} : verbatim decoded m o = none →
      Resealed E amb v o r → Recorded v decoded m (.ok o) (o, r)

/-- What an operation started in `v` has in hand when it reaches a transaction in `u`. -/
inductive Prepared (v u : Vault S) : Op → Staged S → Prop
  | object {op : Op} {objectOp : ObjectOp} {o : Decoded} {r : StoredEnvelope} : op.Commits objectOp →
      Drafted E amb v u objectOp o → Resealed E amb v o r →
      Prepared v u op ⟨[.put r], Vault.adopt o⟩
  | purged {staged : Staged S} : Vault.purgeStaged amb v = .ok staged v →
      Prepared v u (.atomic .purgeTombstones) staged
  | merged {changes : List RemoteChange} {decoded : List (RemoteChange × Decoded)} {ignored : Nat}
      {m : Merging} {records : List (Decoded × StoredEnvelope)} :
      decodeChanges E v.vaultKey v.roster changes = .ok (decoded, ignored) →
      mergeDecoded (vaultForkIds E v.vaultKey) decoded ⟨v.items, v.groups, [], [], []⟩ = .ok m →
      List.Forall₂ (Recorded E amb v decoded m) m.touched records →
      Prepared v u (.atomic (.mergeRemote changes))
        ⟨records.map (fun p => .put p.2), Vault.adoptMerge m (records.map Prod.fst)⟩
  | rewrapped {limit : Nat} {o : Decoded} {r : StoredEnvelope} : v.Holds o → Resealed E amb v o r →
      Prepared v u (.rewrapToCurrentEpoch limit) ⟨[.put r], fun self => self⟩

/-- What one step of an operation can do. -/
inductive Move (op : Op) (v w : Vault S) : Prop
  | quiet : Quiet v w → Move op v w
  | settled {u : Vault S} {staged : Staged S} : Quiet v u → Prepared E amb v u op staged →
      Settled staged u w → Move op v w
  | rotated {next : U32} {s : S} : op = .rotateEpoch → next.val = v.epoch.val + 1 →
      view s = ⟨(view v.store).image.setEpoch next, (view v.store).saved⟩ →
      (∀ c, Accepts c v.store → Accepts c s) → w = { v with store := s, epoch := next } → Move op v w
  | torn {u : Vault S} {s : S} : Quiet v u → ¬ Accepts .commit v.store ∨ ¬ Accepts .rollback v.store →
      w = { u with store := s } → Move op v w

/-- One step of an operation: reads and readings, or a transaction run from what was
prepared for it, whatever comes of it. -/
inductive Stage (op : Op) (v w : Vault S) : Prop
  | quiet : Quiet v w → Stage op v w
  | settle {u : Vault S} {staged : Staged S} : Quiet v u → Prepared E amb v u op staged →
      w = stateAfter (Vault.settle staged) u → Stage op v w
  | rotate : op = .rotateEpoch → w = stateAfter Vault.rotateEpoch v → Stage op v w

variable {E amb}

/-! ## One transaction -/

theorem recordAll_spec (decoded : List (RemoteChange × Decoded)) (m : Merging) :
    ∀ (touched : List (Result Decoded)) (v : Vault S),
      Meets (Vault.recordAll E amb decoded m touched) v
        (fun records w => Quiet v w ∧ w.hlc = v.hlc ∧
          List.Forall₂ (Recorded E amb v decoded m) touched records)
        (fun _ w => Quiet v w ∧ w.hlc = v.hlc)
  | [], v => Meets.pure ⟨.refl v, rfl, .nil⟩
  | o :: rest, v => by
    apply Meets.bind
    apply Meets.liftExcept
    · intro o ho
      have hrecord : Meets (Vault.recordFor E amb decoded m o) v
          (fun r w => Quiet v w ∧ w.hlc = v.hlc ∧ Recorded E amb v decoded m (.ok o) (o, r))
          (fun _ w => Quiet v w ∧ w.hlc = v.hlc) := by
        unfold Vault.recordFor
        cases hverb : Misty.verbatim decoded m o with
        | some change => exact Meets.pure ⟨.refl v, rfl, .verbatim hverb⟩
        | none =>
          apply (record_spec E amb o v).mono
          · intro r w h
            exact ⟨h.1, h.2.1, .resealed hverb h.2.2⟩
          · intro e w h
            exact h
      apply Meets.bind
      apply hrecord.mono
      · intro r w h
        obtain ⟨hq, hh, hrec⟩ := h
        apply Meets.bind
        apply (recordAll_spec decoded m rest w).mono
        · intro rs w' h'
          obtain ⟨hq', hh', hall⟩ := h'
          refine Meets.pure ⟨hq.trans hq', hh'.trans hh, .cons (ho ▸ hrec) (hall.imp ?_)⟩
          -- a row made later in the loop is a row made at its start
          intro a b hab
          cases hab with
          | verbatim h => exact .verbatim h
          | resealed h h' => exact .resealed h (h'.of_quiet hq)
        · intro e w' h'
          exact ⟨hq.trans h'.1, h'.2.trans hh⟩
      · intro e w h
        exact h
    · intro e _
      exact ⟨.refl v, rfl⟩

/-- Before its transaction an operation is quiet; a merge leaves the clock alone as
well. -/
theorem AtomicOp.staged_spec (op : AtomicOp) (v : Vault S) :
    Meets (op.staged E amb) v
      (fun staged w => Quiet v w ∧ (∀ changes, op = .mergeRemote changes → w.hlc = v.hlc) ∧
        Prepared E amb v w (.atomic op) staged)
      (fun _ w => Quiet v w ∧ ∀ changes, op = .mergeRemote changes → w.hlc = v.hlc) := by
  cases op with
  | object op =>
    apply Meets.bind
    apply (draft_spec op v).mono
    · intro o w h
      obtain ⟨hq, hdrafted⟩ := h
      apply Meets.bind
      apply (record_spec E amb o w).mono
      · intro r w' h'
        obtain ⟨hq', -, hr⟩ := h'
        refine Meets.pure ⟨hq.trans hq', nofun, ?_⟩
        exact .object (.object op) (hdrafted.mono hq'.time) (hr.of_quiet hq)
      · intro e w' h'
        exact ⟨hq.trans h'.1, nofun⟩
    · intro e w hq
      exact ⟨hq, nofun⟩
  -- what is removed is read off the vault, and nothing is drafted
  | purgeTombstones =>
    apply Meets.bind
    apply Meets.get
    exact Meets.pure ⟨.refl v, nofun, .purged rfl⟩
  -- decoded, merged and sealed again before anything is stored
  | mergeRemote changes =>
    apply Meets.map
    apply Meets.bind
    apply Meets.get
    apply Meets.bind
    apply Meets.liftExcept
    · intro decoded hdec
      obtain ⟨decoded, ignored⟩ := decoded
      apply Meets.bind
      apply Meets.liftExcept
      · intro m hm
        apply Meets.bind
        apply (recordAll_spec decoded m m.touched v).mono
        · intro records w h
          obtain ⟨hq, hclock, hall⟩ := h
          exact Meets.pure ⟨hq, fun _ _ => hclock, .merged hdec hm hall⟩
        · intro e w h
          exact ⟨h.1, fun _ _ => h.2⟩
      · intro e _
        exact ⟨.refl v, fun _ _ => rfl⟩
    · intro e _
      exact ⟨.refl v, fun _ _ => rfl⟩

theorem settle_stage {op : Op} {staged : Staged S} {v u : Vault S} (hq : Quiet v u)
    (hp : Prepared E amb v u op staged) :
    Meets (Vault.settle staged) u (fun _ w => Stage E amb op v w) (fun _ w => Stage E amb op v w) := by
  apply Meets.after.mono
  · intro _ w h
    exact .settle hq hp h
  · intro e w h
    exact .settle hq hp h

theorem AtomicOp.run_stage (op : AtomicOp) (v : Vault S) :
    Meets (op.run E amb) v (fun _ w => Stage E amb (.atomic op) v w)
      (fun _ w => Stage E amb (.atomic op) v w) := by
  rw [AtomicOp.run_eq]
  apply Meets.bind
  apply (op.staged_spec v).mono
  · intro staged u h
    exact settle_stage h.1 h.2.2
  · intro e w h
    exact .quiet h.1

/-! ## The loops -/

/-- The stages of an operation. -/
abbrev Stages (E : Externals) (amb : Ambient) (op : Op) : Vault S → Vault S → Prop :=
  Relation.ReflTransGen (Stage E amb op)

theorem bury_stage (id : ItemId) (reason : TombstoneReason) (now : U64) (v : Vault S) :
    Meets (Vault.mutateItem E amb id now (fun x hlc => .ok (Vault.buried reason x hlc))) v
      (fun _ w => Stage E amb .sweepTrash v w) (fun _ w => Stage E amb .sweepTrash v w) := by
  apply Meets.bind
  apply (drafted_buried id reason now v).mono
  · intro x u h
    obtain ⟨hq, hdrafted⟩ := h
    apply Meets.bind
    apply Meets.bind
    apply (record_spec E amb (.item x) u).mono
    · intro r u' h'
      obtain ⟨hq', -, hr⟩ := h'
      apply Meets.pure
      exact settle_stage (hq.trans hq') (.object (.swept id) (hdrafted.mono hq'.time) (hr.of_quiet hq))
    · intro e u' h'
      exact .quiet (hq.trans h'.1)
  · intro e u hq
    exact .quiet hq

theorem sweepLoop_stages : ∀ (ids : List ItemId) (reading : Nat) (v : Vault S),
    Meets (Vault.sweepLoop E amb ids reading) v (fun _ w => Stages E amb .sweepTrash v w)
      (fun _ w => Stages E amb .sweepTrash v w)
  | [], _, v => Meets.pure .refl
  | id :: rest, reading, v => by
    apply Meets.bind
    apply (bury_stage id .trashExpired (amb.clock reading) v).mono
    · intro _ u h
      apply (sweepLoop_stages rest (reading + 1) u).mono
      · intro _ w h'
        exact .head h h'
      · intro e w h'
        exact .head h h'
    · intro e w h
      exact .single h

omit [LawfulStore S] in
theorem staleObject_eq_ok {v : Vault S} {id : ItemId} {kind : EnvelopeKind} {o : Decoded}
    (h : v.staleObject id kind = .ok o) : v.Holds o ∧ o.itemId = id ∧ (o.kind = .item ↔ kind = .item) := by
  unfold Vault.staleObject at h
  split at h
  · next hk =>
    cases hx : v.item id with
    | error e =>
      rw [hx] at h
      cases h
    | ok x =>
      rw [hx] at h
      cases h
      obtain ⟨hget, hid⟩ := item_eq_ok hx
      exact ⟨hget, hid, by simp [Decoded.kind, hk]⟩
  · next hk =>
    cases hx : v.group (.fromItemId id) with
    | error e =>
      rw [hx] at h
      cases h
    | ok g =>
      rw [hx] at h
      cases h
      obtain ⟨hget, hid⟩ := group_eq_ok hx
      exact ⟨hget, congrArg GroupId.asItemId hid, by simp [Decoded.kind, hk]⟩

theorem rewrapOne_stage (limit : Nat) (id : ItemId) (kind : EnvelopeKind) (v : Vault S) :
    Meets (Vault.rewrapOne E amb id kind) v
      (fun _ w => Stage E amb (.rewrapToCurrentEpoch limit) v w)
      (fun _ w => Stage E amb (.rewrapToCurrentEpoch limit) v w) := by
  apply Meets.bind
  apply Meets.get
  apply Meets.bind
  apply Meets.liftExcept
  · intro o ho
    apply Meets.bind
    apply (record_spec E amb o v).mono
    · intro r u h
      exact settle_stage h.1 (.rewrapped (staleObject_eq_ok ho).1 h.2.2)
    · intro e u h
      exact .quiet h.1
  · intro e _
    exact .quiet (.refl v)

theorem rewrapLoop_stages (limit : Nat) : ∀ (chosen : List (ItemId × EnvelopeKind)) (v : Vault S),
    Meets (Vault.rewrapLoop E amb chosen) v
      (fun _ w => Stages E amb (.rewrapToCurrentEpoch limit) v w)
      (fun _ w => Stages E amb (.rewrapToCurrentEpoch limit) v w)
  | [], v => Meets.pure .refl
  | (id, kind) :: rest, v => by
    apply Meets.bind
    apply (rewrapOne_stage limit id kind v).mono
    · intro _ u h
      apply (rewrapLoop_stages limit rest u).mono
      · intro _ w h'
        exact .head h h'
      · intro e w h'
        exact .head h h'
    · intro e w h
      exact .single h

/-! ## Every operation -/

/-- The operation has one transaction. -/
def Op.Atomic : Op → Prop
  | atomic _ => True
  | _ => False

theorem Op.run_stages (op : Op) (v : Vault S) :
    Meets (op.run E amb) v (fun _ w => Stages E amb op v w) (fun _ w => Stages E amb op v w) := by
  cases op with
  | atomic op =>
    apply (op.run_stage v).mono
    · intro _ w h
      exact .single h
    · intro e w h
      exact .single h
  | sweepTrash =>
    apply Meets.bind
    apply Meets.bind
    apply Meets.get
    apply Meets.bind
    apply (sweepLoop_stages _ 1 v).mono
    · intro _ w h
      exact Meets.pure (Meets.pure h)
    · intro e w h
      exact h
  | rotateEpoch =>
    apply Meets.bind
    apply Meets.after.mono
    · intro _ w h
      exact Meets.pure (.single (.rotate rfl h))
    · intro e w h
      exact .single (.rotate rfl h)
  -- reading the rows is quiet, and every object after it is a stage of its own
  | rewrapToCurrentEpoch limit =>
    apply Meets.bind
    apply Meets.bind
    apply Meets.onStore
    apply (LawfulStore.loadAll_spec v.store).mono
    · intro records s h
      have hq : Quiet v { v with store := s } := .of_store v h.1 h.2.2
      apply Meets.bind
      apply Meets.get
      apply Meets.bind
      apply Meets.liftExcept
      · intro stale _
        apply Meets.bind
        apply (rewrapLoop_stages limit _ _).mono
        · intro _ w hm
          exact Meets.pure (Meets.pure (.head (.quiet hq) hm))
        · intro e w hm
          exact .head (.quiet hq) hm
      · intro e _
        exact .single (.quiet hq)
    · intro e s h
      exact .single (.quiet (.of_store v h.1 h.2.1))

/-- What the stages of an operation preserve, the operation preserves. Where it has a
single stage, the start of the stage is the start of the operation. -/
theorem Op.run_stages_induct {P : Vault S → Prop} (op : Op) {v : Vault S} (hv : P v)
    (hstage : ∀ u w, P u → (op.Atomic → u = v) → Stage E amb op u w → P w) :
    P (stateAfter (op.run E amb) v) := by
  apply Meets.stateAfter
  have hstages : ¬ op.Atomic → ∀ w, Stages E amb op v w → P w := by
    intro hop w h
    induction h with
    | refl => exact hv
    | tail _ h ih => exact hstage _ _ ih (fun ha => absurd ha hop) h
  cases op with
  | atomic op =>
    apply (op.run_stage v).mono
    · intro _ w h
      exact hstage v w hv (fun _ => rfl) h
    · intro e w h
      exact hstage v w hv (fun _ => rfl) h
  | sweepTrash | rotateEpoch | rewrapToCurrentEpoch _ =>
    apply (Op.run_stages _ v).mono
    · intro _ w h
      exact hstages id w h
    · intro e w h
      exact hstages id w h

/-! ## Moves -/

theorem setEpoch_changes (epoch : U32) :
    Changes (S := S) (VaultStore.setEpoch epoch) (fun i => i.setEpoch epoch) := by
  intro s
  apply (LawfulStore.setEpoch_spec epoch s).mono
  · intro _ s' h
    exact h
  · intro e s' h
    exact ⟨by rw [h.1], h.2⟩

theorem rotateEpoch_move (v : Vault S) :
    Meets Vault.rotateEpoch v (fun _ w => Move E amb .rotateEpoch v w)
      (fun _ w => Move E amb .rotateEpoch v w) := by
  apply Meets.bind
  apply Meets.get
  split
  · next hlt =>
    apply Meets.bind
    apply Meets.onStore
    apply ((setEpoch_changes ⟨v.epoch.val + 1, hlt⟩).transaction v.store).mono
    · intro _ s h
      exact .rotated rfl rfl h.1 h.2 rfl
    · intro e s h
      obtain ⟨ha, hv | hback | ⟨hrefused, -⟩⟩ := h
      · exact .quiet (.of_store v hv ha)
      · exact .torn (.refl v) (.inr hback) rfl
      · exact .torn (.refl v) (.inl ((setEpoch_changes _).not_accepts hrefused)) rfl
  · exact .quiet (.refl v)

/-- A stage is a move: what can come of a transaction. -/
theorem Stage.move {op : Op} {v w : Vault S} (h : Stage E amb op v w) : Move E amb op v w := by
  cases h with
  | quiet hq => exact .quiet hq
  | @settle u staged hq hp hw =>
    rw [hw]
    apply Meets.stateAfter
    apply (settle_spec staged u).mono
    · intro _ w h
      exact .settled hq hp h
    · intro e w h
      obtain ⟨⟨s, hs⟩, hend⟩ := h
      rcases hend with ⟨hq', -⟩ | hback | ⟨s', hrefused, -, -⟩
      · exact .quiet (hq.trans hq')
      · exact .torn hq (.inr fun ha => hback (hq.accepts _ ha)) hs
      · exact .torn hq (.inl fun ha => not_accepts_of_commitRefused hrefused (hq.accepts _ ha)) hs
  | rotate hop hw =>
    subst hop
    rw [hw]
    exact (rotateEpoch_move v).stateAfter

theorem Op.run_induct {P : Vault S → Prop} (op : Op) {v : Vault S} (hv : P v)
    (hmove : ∀ u w, P u → (op.Atomic → u = v) → Move E amb op u w → P w) :
    P (stateAfter (op.run E amb) v) :=
  op.run_stages_induct hv (fun u w hu ha h => hmove u w hu ha h.move)

end Misty
