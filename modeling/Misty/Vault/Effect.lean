import Misty.Vault.Operation

/- What the parts of an operation can do to a vault, said once.

   Before its transaction an operation is `Quiet`: it reads the store, and its clock
   may move forward. The transaction applies its writes or leaves the rows alone,
   unless a commit or a rollback is refused (`settle_spec`). A row made for an object
   is `Resealed`: under the vault's own device, at its epoch. -/
namespace Misty

/-! ## Time -/

/-- A reading without the device: what a clock moves forward in. -/
def Hlc.time (h : Hlc) : U64 ×ₗ U16 := toLex (h.wallMs, h.counter)

/-- How far a clock has come. -/
def HlcClock.time (c : HlcClock) : U64 ×ₗ U16 := c.last.time

/-- A reading a clock may issue next: later than all it has seen, and in the window. -/
def HlcClock.Issues (c : HlcClock) (h : Hlc) : Prop := c.time < h.time ∧ Hlc.inWindow h.wallMs = true

/-- A reading inside the window that the clock has seen. -/
def HlcClock.Saw (c : HlcClock) (h : Hlc) : Prop := h.time ≤ c.time ∧ Hlc.inWindow h.wallMs = true

theorem Hlc.lt_of_time {a b : Hlc} (h : a.time < b.time) : a < b := by
  show a.key < b.key
  unfold time at h
  rw [Prod.Lex.toLex_lt_toLex] at h
  unfold key
  rw [Prod.Lex.toLex_lt_toLex]
  rcases h with h | ⟨h, h'⟩
  · exact .inl h
  · exact .inr ⟨h, Prod.Lex.toLex_lt_toLex.mpr (.inl h')⟩

theorem inWindow_clampWall (w : U64) : Hlc.inWindow (HlcClock.clampWall w) = true := by
  have h1 : MIN_WALL_MS < MAX_WALL_MS := by decide
  unfold Hlc.inWindow HlcClock.clampWall
  simp only [Bool.and_eq_true, decide_eq_true_eq]
  omega

theorem HlcClock.time_of_next {c : HlcClock} {now : U64} {h : Hlc} (hn : c.next now = .ok h) :
    c.time < h.time ∧ (Hlc.inWindow c.last.wallMs = true → Hlc.inWindow h.wallMs = true) := by
  unfold next at hn
  simp only at hn
  split at hn
  · next hlt =>
    cases hn
    exact ⟨Prod.Lex.toLex_lt_toLex.mpr (.inl hlt), fun _ => inWindow_clampWall now⟩
  · split at hn
    · next hcount =>
      cases hn
      refine ⟨Prod.Lex.toLex_lt_toLex.mpr (.inr ⟨rfl, ?_⟩), id⟩
      show c.last.counter.val < c.last.counter.val + 1
      omega
    · cases hb : Hlc.new (U64.saturatingAdd c.last.wallMs 1) 0 c.deviceId with
      | error e =>
        rw [hb] at hn
        cases hn
      | ok b =>
        rw [hb] at hn
        cases hn
        unfold Hlc.new at hb
        split at hb
        · next hwin =>
          cases hb
          refine ⟨Prod.Lex.toLex_lt_toLex.mpr (.inl ?_), fun _ => hwin⟩
          -- A saturated sum would be outside the window.
          have hmax : MAX_WALL_MS < 2 ^ 64 - 1 := by decide
          have hone : (1 : U64).val = 1 := rfl
          simp only [Hlc.inWindow, Bool.and_eq_true, decide_eq_true_eq, U64.val_saturatingAdd] at hwin
          show c.last.wallMs.val < (U64.saturatingAdd c.last.wallMs 1).val
          rw [U64.val_saturatingAdd]
          omega
        · cases hb

theorem HlcClock.time_le_observe (c : HlcClock) (h : Hlc) : c.time ≤ (c.observe h).time := by
  unfold observe
  split
  · split
    · next hlt => exact hlt.le
    · exact le_refl _
  · exact le_refl _

theorem HlcClock.saw_observe {c : HlcClock} {h : Hlc} (hw : Hlc.inWindow h.wallMs = true) :
    (c.observe h).Saw h := by
  refine ⟨?_, hw⟩
  unfold observe
  rw [if_pos hw]
  split
  · exact le_refl _
  · next hlt => exact not_lt.mp hlt

theorem HlcClock.Saw.mono {c c' : HlcClock} {h : Hlc} (hs : c.Saw h) (hle : c.time ≤ c'.time) :
    c'.Saw h :=
  ⟨hs.1.trans hle, hs.2⟩

variable {S : Type}

/-! ## Rules -/

section Rules

variable {α β : Type} {Q : α → Vault S → Prop} {E : VaultError → Vault S → Prop}

theorem Meets.map {x : Io (Vault S) α} {f : α → β} {v : Vault S} {R : β → Vault S → Prop}
    (h : Meets x v (fun a w => R (f a) w) E) : Meets (f <$> x) v R E := by
  rw [map_eq_pure_bind]
  apply Meets.bind
  exact h.mono (fun _ _ ha => Meets.pure ha) (fun _ _ he => he)

theorem Meets.onStore {x : Io S α} {v : Vault S}
    (h : Meets x v.store (fun a s => Q a { v with store := s }) (fun e s => E e { v with store := s })) :
    Meets (Vault.onStore x) v Q E := by
  unfold Meets Vault.onStore
  unfold Meets at h
  split at h
  · next hx =>
    rw [hx]
    exact h
  · next hx =>
    rw [hx]
    exact h

end Rules

variable [LawfulStore S]

open LawfulStore (view Accepts)

/-! ## Before the transaction -/

/-- The store may have been read and the clock may have moved forward; the rest is as
it was. -/
structure Quiet (v w : Vault S) : Prop where
  vaultKey : w.vaultKey = v.vaultKey
  device : w.device = v.device
  roster : w.roster = v.roster
  epoch : w.epoch = v.epoch
  items : w.items = v.items
  groups : w.groups = v.groups
  conflicts : w.conflicts = v.conflicts
  view : view w.store = view v.store
  accepts : ∀ c, Accepts c v.store → Accepts c w.store
  owner : w.hlc.deviceId = v.hlc.deviceId
  time : v.hlc.time ≤ w.hlc.time
  window : Hlc.inWindow v.hlc.last.wallMs = true → Hlc.inWindow w.hlc.last.wallMs = true

namespace Quiet

theorem refl (v : Vault S) : Quiet v v :=
  ⟨rfl, rfl, rfl, rfl, rfl, rfl, rfl, rfl, fun _ h => h, rfl, le_refl _, id⟩

theorem trans {u v w : Vault S} (h : Quiet u v) (h' : Quiet v w) : Quiet u w where
  vaultKey := h'.vaultKey.trans h.vaultKey
  device := h'.device.trans h.device
  roster := h'.roster.trans h.roster
  epoch := h'.epoch.trans h.epoch
  items := h'.items.trans h.items
  groups := h'.groups.trans h.groups
  conflicts := h'.conflicts.trans h.conflicts
  view := h'.view.trans h.view
  accepts c hc := h'.accepts c (h.accepts c hc)
  owner := h'.owner.trans h.owner
  time := h.time.trans h'.time
  window hw := h'.window (h.window hw)

theorem holds_iff {v w : Vault S} (h : Quiet v w) (o : Decoded) : w.Holds o ↔ v.Holds o := by
  cases o with
  | item x => exact iff_of_eq (congrArg (fun s : ItemSet => s.get x.id = some x) h.items)
  | group g => exact iff_of_eq (congrArg (fun s : GroupMap => s.get g.id = some g) h.groups)

theorem of_store (v : Vault S) {s : S} (hv : LawfulStore.view s = LawfulStore.view v.store)
    (ha : ∀ c, Accepts c v.store → Accepts c s) : Quiet v { v with store := s } :=
  ⟨rfl, rfl, rfl, rfl, rfl, rfl, rfl, hv, ha, rfl, le_refl _, id⟩

end Quiet

/-- A tick issues a reading later than all the clock has seen. -/
theorem tick_spec (now : U64) (v : Vault S) :
    Meets (Vault.tick now) v
      (fun h w => Quiet v w ∧ (Hlc.inWindow v.hlc.last.wallMs = true → v.hlc.Issues h ∧ w.hlc.Saw h))
      (fun _ w => w = v) := by
  unfold Meets Vault.tick HlcClock.tick
  cases hn : v.hlc.next now with
  | error e => rfl
  | ok h =>
    obtain ⟨hlt, hwin⟩ := HlcClock.time_of_next hn
    refine ⟨⟨rfl, rfl, rfl, rfl, rfl, rfl, rfl, rfl, fun _ hc => hc, rfl, hlt.le, hwin⟩, ?_⟩
    intro hc
    exact ⟨⟨hlt, hwin hc⟩, le_refl _, hwin hc⟩

/-! ## The transaction -/

/-- What a write does to the rows. -/
def Write.apply (image : Image) : Write → Image
  | put r => image.put r
  | remove id => image.remove id

/-- The commit is refused after the body was accepted, and the transaction is left open. -/
def EndRefused (f : Io S Unit) (s : S) : Prop :=
  ∃ s₁ s₂ e s₃, VaultStore.begin s = .ok () s₁ ∧ f s₁ = .ok () s₂ ∧ VaultStore.commit s₂ = .error e s₃ ∧
    (view s₃).saved = (view s₂).saved

/-- The commit is refused after the writes were accepted, and their transaction is left open. -/
def CommitRefused (writes : List Write) (s : S) : Prop := EndRefused (writeAll writes) s

theorem write_spec (w : Write) (s : S) :
    Meets w.run s
      (fun _ s' => view s' = ⟨w.apply (view s).image, (view s).saved⟩ ∧ ∀ c, Accepts c s → Accepts c s')
      (fun _ s' => view s' = view s ∧ ∀ c, Accepts c s → Accepts c s') := by
  cases w with
  | put r => exact LawfulStore.put_spec r s
  | remove id => exact LawfulStore.remove_spec id s

/-- The body changes the rows by `g`, and when it stops early leaves the open
transactions as they are. -/
def Changes (f : Io S Unit) (g : Image → Image) : Prop :=
  ∀ s, Meets f s
    (fun _ s' => view s' = ⟨g (view s).image, (view s).saved⟩ ∧ ∀ c, Accepts c s → Accepts c s')
    (fun _ s' => (view s').saved = (view s).saved ∧ ∀ c, Accepts c s → Accepts c s')

/-- A loop of writes that stops has written some of them. -/
theorem writeAll_changes (writes : List Write) :
    Changes (S := S) (writeAll writes) (fun i => writes.foldl Write.apply i) := by
  intro s
  induction writes generalizing s with
  | nil => exact Meets.pure ⟨rfl, fun _ h => h⟩
  | cons w rest ih =>
    apply Meets.bind
    apply (write_spec w s).mono
    · rintro _ s₁ ⟨hv, ha⟩
      apply (ih s₁).mono
      · rintro _ s₂ ⟨hv₂, ha₂⟩
        rw [hv] at hv₂
        exact ⟨hv₂, fun c hc => ha₂ c (ha c hc)⟩
      · rintro e s₂ ⟨hv₂, ha₂⟩
        rw [hv] at hv₂
        exact ⟨hv₂, fun c hc => ha₂ c (ha c hc)⟩
    · rintro e s₁ ⟨hv, ha⟩
      exact ⟨by rw [hv], ha⟩

/-- Where the commit that ends a body is refused, the transaction is open with what the body wrote, or nothing is left
of it. -/
theorem Changes.commit_refused {f : Io S Unit} {g : Image → Image} (hf : Changes f g) {s s₁ s₂ s₃ : S} {e : VaultError}
    (hb : VaultStore.begin s = .ok () s₁) (hw : f s₁ = .ok () s₂) (hc : VaultStore.commit s₂ = .error e s₃) :
    view s₃ = view s ∨ (view s₃).saved = (view s₂).saved ∧ (view s₃).image = g (view s).image := by
  have hv := ((LawfulStore.begin_spec s).of_ok hb).1
  have hv₂ := ((hf s₁).of_ok hw).1
  have hsaved : (view s₂).saved = (view s).image :: (view s).saved := by rw [hv₂, hv]
  rcases ((LawfulStore.commit_spec s₂ _ _ hsaved).of_error hc).1 with hopen | ⟨hnil, hback⟩
  · exact .inr ⟨by rw [hopen], by rw [hopen, hv₂, hv]⟩
  · refine .inl ?_
    rw [hback, ← hnil]

/-- A transaction does what its body does or nothing, unless one of its ends is
refused and it is left open. -/
theorem Changes.transaction {f : Io S Unit} {g : Image → Image} (hf : Changes f g) (s : S) :
    Meets (Misty.transaction f) s
      (fun _ s' => view s' = ⟨g (view s).image, (view s).saved⟩ ∧ ∀ c, Accepts c s → Accepts c s')
      (fun _ s' => (∀ c, Accepts c s → Accepts c s') ∧
        (view s' = view s ∨ ¬ Accepts .rollback s ∨
          EndRefused f s ∧ (view s').image = g (view s).image)) := by
  apply Meets.transaction
  apply Meets.intro
  · intro _ s₁ hb
    obtain ⟨hv, ha⟩ := (LawfulStore.begin_spec s).of_ok hb
    apply Meets.intro
    · intro _ s₂ hw
      obtain ⟨hv₂, ha₂⟩ := (hf s₁).of_ok hw
      have hsaved : (view s₂).saved = (view s).image :: (view s).saved := by rw [hv₂, hv]
      apply Meets.intro
      · intro _ s₃ hc
        obtain ⟨hv₃, ha₃⟩ := (LawfulStore.commit_spec s₂ _ _ hsaved).of_ok hc
        refine ⟨by rw [hv₃, hv₂, hv], fun c h => ha₃ c (ha₂ c (ha c h))⟩
      · intro e s₃ hc
        obtain ⟨-, ha₃, -⟩ := (LawfulStore.commit_spec s₂ _ _ hsaved).of_error hc
        refine ⟨fun c h => ha₃ c (ha₂ c (ha c h)), ?_⟩
        rcases hf.commit_refused hb hw hc with hback | ⟨hopen, himage⟩
        · exact .inl hback
        · exact .inr (.inr ⟨⟨s₁, s₂, e, s₃, hb, hw, hc, hopen⟩, himage⟩)
    · intro e s₂ hw
      obtain ⟨hv₂, ha₂⟩ := (hf s₁).of_error hw
      have hsaved : (view s₂).saved = (view s).image :: (view s).saved := by rw [hv₂, hv]
      apply Meets.intro
      · intro _ s₃ hc
        obtain ⟨hv₃, ha₃⟩ := (LawfulStore.rollback_spec s₂ _ _ hsaved).of_ok hc
        exact ⟨fun c h => ha₃ c (ha₂ c (ha c h)), .inl hv₃⟩
      · intro e' s₃ hc
        obtain ⟨-, ha₃, hr⟩ := (LawfulStore.rollback_spec s₂ _ _ hsaved).of_error hc
        exact ⟨fun c h => ha₃ c (ha₂ c (ha c h)), .inr (.inl fun h => hr (ha₂ _ (ha _ h)))⟩
  · intro e s₁ hb
    obtain ⟨hv, ha⟩ := (LawfulStore.begin_spec s).of_error hb
    exact ⟨ha, .inl hv⟩

theorem Changes.not_accepts {f : Io S Unit} {g : Image → Image} (hf : Changes f g) {s : S}
    (h : EndRefused f s) : ¬ Accepts .commit s := by
  obtain ⟨s₁, s₂, e, s₃, hb, hw, hc, -⟩ := h
  obtain ⟨hv, ha⟩ := (LawfulStore.begin_spec s).of_ok hb
  obtain ⟨hv₂, ha₂⟩ := (hf s₁).of_ok hw
  have hsaved : (view s₂).saved = (view s).image :: (view s).saved := by rw [hv₂, hv]
  intro hacc
  exact ((LawfulStore.commit_spec s₂ _ _ hsaved).of_error hc).2.2 (ha₂ _ (ha _ hacc))

/-- A transaction of writes applies all of them or none, unless one of its ends is
refused. -/
theorem transaction_spec (writes : List Write) (s : S) :
    Meets (transaction (writeAll writes)) s
      (fun _ s' => view s' = ⟨writes.foldl Write.apply (view s).image, (view s).saved⟩ ∧
        ∀ c, Accepts c s → Accepts c s')
      (fun _ s' => (∀ c, Accepts c s → Accepts c s') ∧
        (view s' = view s ∨ ¬ Accepts .rollback s ∨
          CommitRefused writes s ∧ (view s').image = writes.foldl Write.apply (view s).image)) :=
  (writeAll_changes writes).transaction s

theorem not_accepts_of_commitRefused {writes : List Write} {s : S} (h : CommitRefused writes s) :
    ¬ Accepts .commit s :=
  (writeAll_changes writes).not_accepts h

/-- The run on which the commit is refused and leaves the transaction open. -/
theorem transaction_refused {writes : List Write} {s : S} (h : CommitRefused writes s) :
    ∃ e s', transaction (writeAll writes) s = .error e s' ∧
      (view s').image = writes.foldl Write.apply (view s).image := by
  obtain ⟨s₁, s₂, e, s₃, hb, hw, hc, hopen⟩ := h
  refine ⟨e, s₃, ?_, ?_⟩
  · unfold transaction
    simp only [hb, hw, hc]
  · rcases (writeAll_changes writes).commit_refused hb hw hc with hback | ⟨-, himage⟩
    · -- a transaction more is open than there was
      have hv := ((LawfulStore.begin_spec s).of_ok hb).1
      have hv₂ := ((writeAll_changes writes s₁).of_ok hw).1
      rw [hback, hv₂, hv] at hopen
      exact absurd (congrArg List.length hopen) (by simp)
    · exact himage

/-- What an accepted transaction leaves: its writes in the rows, and the model as the
operation adopts it. -/
def Settled (staged : Staged S) (v w : Vault S) : Prop :=
  ∃ s : S, view s = ⟨staged.writes.foldl Write.apply (view v.store).image, (view v.store).saved⟩ ∧
    (∀ c, Accepts c v.store → Accepts c s) ∧ w = staged.adopt { v with store := s }

/-- What a refused commit leaves that keeps its transaction open: the writes in the rows, the model as it was. -/
def Torn (staged : Staged S) (v w : Vault S) : Prop :=
  ∃ s : S, CommitRefused staged.writes v.store ∧ w = { v with store := s } ∧
    (view s).image = staged.writes.foldl Write.apply (view v.store).image

theorem settle_spec (staged : Staged S) (v : Vault S) :
    Meets (Vault.settle staged) v
      (fun _ w => Settled staged v w)
      (fun _ w => (∃ s, w = { v with store := s }) ∧
        (Quiet v w ∧ w.hlc = v.hlc ∨ ¬ Accepts .rollback v.store ∨ Torn staged v w)) := by
  apply Meets.bind
  apply Meets.onStore
  apply (transaction_spec staged.writes v.store).mono
  · rintro _ s ⟨hv, ha⟩
    exact Meets.modify ⟨s, hv, ha, rfl⟩
  · rintro e s ⟨ha, hv | hr | ⟨hc, himage⟩⟩
    · exact ⟨⟨s, rfl⟩, .inl ⟨.of_store v hv ha, rfl⟩⟩
    · exact ⟨⟨s, rfl⟩, .inr (.inl hr)⟩
    · exact ⟨⟨s, rfl⟩, .inr (.inr ⟨s, hc, rfl, himage⟩)⟩

/-! ## Rows made for objects -/

variable (E : Externals) (amb : Ambient)

/-- The row carries the object, sealed by the vault's own device at its epoch, and the
server's coordinates of the row it replaces. -/
structure Resealed (v : Vault S) (o : Decoded) (r : StoredEnvelope) : Prop where
  itemId : r.itemId = o.itemId
  kind : r.kind = o.kind
  hlcMax : r.hlcMax = o.maxHlc
  seq : r.seq = (view v.store).image.rows[o.itemId]?.bind StoredEnvelope.seq
  version : r.version = (view v.store).image.rows[o.itemId]?.bind StoredEnvelope.version
  envelope : v.sealObject E amb o v.epoch = .ok r.envelope

theorem record_spec (o : Decoded) (v : Vault S) :
    Meets (Vault.record E amb o) v
      (fun r w => Quiet v w ∧ w.hlc = v.hlc ∧ Resealed E amb v o r)
      (fun _ w => Quiet v w ∧ w.hlc = v.hlc) := by
  apply Meets.bind
  apply Meets.onStore
  apply (LawfulStore.get_spec o.itemId v.store).mono
  · rintro previous s ⟨hv, hprev, ha⟩
    have hq : Quiet v { v with store := s } := .of_store v hv ha
    apply Meets.bind
    apply Meets.get
    apply Meets.bind
    apply Meets.liftExcept
    · intro envelope he
      exact Meets.pure ⟨hq, rfl, rfl, rfl, rfl, by rw [hprev], by rw [hprev], he⟩
    · intro e _
      exact ⟨hq, rfl⟩
  · rintro e s ⟨hv, ha⟩
    exact ⟨.of_store v hv ha, rfl⟩

variable {E amb}

theorem Resealed.of_quiet {u v : Vault S} {o : Decoded} {r : StoredEnvelope}
    (h : Resealed E amb v o r) (hq : Quiet u v) : Resealed E amb u o r where
  itemId := h.itemId
  kind := h.kind
  hlcMax := h.hlcMax
  seq := by rw [h.seq, hq.view]
  version := by rw [h.version, hq.view]
  envelope := by
    have he := h.envelope
    unfold Vault.sealObject at he ⊢
    rw [hq.vaultKey, hq.device, hq.epoch] at he
    exact he

end Misty
