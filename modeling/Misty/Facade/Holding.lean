import Misty.Facade.Deadline
import Misty.Sync.Retry
import Misty.Vault.Seen

/- What a vault keeps, a task keeps. An assertion about vaults that opening establishes
   and every operation keeps (`Vault.Kept`) is true of the vault a task has open, in
   every run: whatever commands come, whatever is told to them, wherever a sync is given
   up, and across the reopening of a vault under a new roster. A program keeps the
   assertion if it does so from every core (`Keeps`); there is a rule for each way a
   command is put together, and a command is put together from them.

   What is proved:
     1. `Run.holds` — what opening establishes and every operation keeps is true of the open
        vault in every run, also in the middle of a sync.
     2. `next_stamp_later` — so the next stamp of the open vault is later than every clock of
        what it holds, whatever the server sent and the host's clock says: no write of a
        command is ignored for being old. -/
namespace Misty

variable {S : Type}

/-- An assertion about vaults that opening establishes and every operation keeps, also one that fails. -/
structure Vault.Kept [LawfulStore S] (E : Externals) (P : Vault S → Prop) : Prop where
  opened : ∀ {store : S} {vaultKey : ByteArr 32} {device : DeviceIdentity} {roster : Roster} {v : Vault S},
    Opened E store vaultKey device roster v → P v
  quiet : ∀ {v w : Vault S}, Quiet v w → P v → P w
  step : ∀ (op : Op) (amb : Ambient) {v : Vault S}, P v → P (stateAfter (op.run E amb) v)

namespace Core

/-- An open vault is in `P`. -/
def Holding (P : Vault S → Prop) (core : Core S) : Prop :=
  ∀ session, core.lifecycle = .unlocked session → P session.vault

section Cores

variable {P : Vault S → Prop} {core : Core S}

theorem Holding.of_locked (h : ¬ core.Unlocked) : Holding P core := fun session hl => absurd ⟨session, hl⟩ h

theorem Holding.congr {core' : Core S} (h : Holding P core) (hl : core'.lifecycle = core.lifecycle) : Holding P core' :=
  fun session hs => h session (hl ▸ hs)

theorem Holding.relock : Holding P core.relock := .of_locked (not_unlocked_relock core)

theorem Holding.checkDeadline (h : Holding P core) (now : I64) : Holding P (core.checkDeadline now) :=
  fun session hl => h session (lifecycle_checkDeadline hl).1

theorem Holding.extendDeadline (h : Holding P core) (now : I64) : Holding P (core.extendDeadline now) := by
  intro session hl
  unfold Core.extendDeadline at hl
  cases hlife : core.lifecycle with
  | unlocked held =>
    simp only [hlife] at hl
    cases hl
    exact h held hlife
  | locked store => simp [hlife] at hl
  | poisoned => simp [hlife] at hl

theorem Holding.withVault {v : Vault S} (hv : P v) : Holding P (core.withVault v) := by
  intro session hl
  unfold Core.withVault at hl
  cases hlife : core.lifecycle with
  | unlocked held =>
    simp only [hlife] at hl
    cases hl
    exact hv
  | locked store => simp [hlife] at hl
  | poisoned => simp [hlife] at hl

theorem Holding.opened {v : Vault S} (hv : P v) (vaultKey : ByteArr 32) (now : I64) :
    Holding P (core.opened v vaultKey now) := by
  intro session hl
  cases hl
  exact hv

end Cores

/-! ## Programs -/

section Programs

variable [LawfulStore S] {E : Externals} {P : Vault S → Prop} {α β : Type}

/-- A program that keeps it and leaves what `B` says, whatever it is told. -/
abbrev KeepsWith (E : Externals) (P : Vault S → Prop) (x : Act S α) (core : Core S) (B : α → Prop) : Prop :=
  x.Keeping Eq (fun q (_ : Unit) a _ => Answers E q a) (fun _ core _ => Holding P core)
    (fun core _ => Holding P core) core () (fun a _ _ => B a)

/-- A program that keeps it from every core. -/
def Keeps (E : Externals) (P : Vault S → Prop) (x : Act S α) : Prop :=
  ∀ core, Holding P core → KeepsWith E P x core (fun _ => True)

theorem Keeps.pure (a : α) : Keeps E P (pure a : Act S α) := fun _ h => ⟨h, trivial⟩

theorem Keeps.throw (e : FacadeError) : Keeps E P (throw e : Act S α) := fun _ h => h

theorem Keeps.bind {x : Act S α} {f : α → Act S β} (hx : Keeps E P x) (hf : ∀ a, Keeps E P (f a)) :
    Keeps E P (x >>= f) :=
  fun core h => Prog.Keeping.bind (hx core h) fun a core' _ h' _ => hf a core' h'

theorem Keeps.get : Keeps E P (MonadState.get : Act S (Core S)) := fun _ h => ⟨h, trivial⟩

theorem Keeps.modify {f : Core S → Core S} (hf : ∀ core, Holding P core → Holding P (f core)) :
    Keeps E P (MonadState.modifyGet (fun core => (⟨⟩, f core)) : Act S PUnit) := fun core h => ⟨hf core h, trivial⟩

theorem Keeps.ofExcept (r : Except FacadeError α) : Keeps E P (Prog.ofExcept r : Act S α) :=
  fun core h => (Prog.Keeping.ofExcept (s := core) (J := fun core (_ : Unit) => Holding P core) h).mono
    fun _ _ _ _ => trivial

theorem Keeps.call (q : Ask S) : Keeps E P (Prog.call q : Act S q.Answer) :=
  fun _ h => ⟨h, fun _ _ _ _ _ => ⟨h, trivial⟩⟩

theorem Keeps.replying {x : Act S Unit} (hx : Keeps E P x) : Keeps E P (replying x) := by
  intro core h
  apply Prog.Keeping.bind (Prog.Keeping.attempt (hx core h))
  intro r core' _ h' _
  exact ⟨h', trivial⟩

theorem keeps_extend : Keeps E P (extend : Act S Unit) :=
  .bind (.call _) fun now => .modify fun _ h => h.extendDeadline now

theorem keeps_stating : Keeps E P (stating : Act S Reply) := .bind .get fun _ => .pure _

theorem session_keeps {core : Core S} (h : Holding P core) :
    KeepsWith E P session core (fun session => P session.vault) := by
  apply Prog.Ensures.bind
  apply Prog.Ensures.get
  cases hl : core.lifecycle with
  | unlocked session => exact ⟨h, h session hl⟩
  | locked store => exact h
  | poisoned => exact h

theorem keeps_session : Keeps E P (session : Act S (Session S)) :=
  fun _ h => (session_keeps h).mono fun _ _ _ _ => trivial

theorem keeps_reading (f : Vault S → Result α) : Keeps E P (reading f) :=
  .bind keeps_session fun _ => .ofExcept _

theorem keeps_reads (f : Vault S → Result Unit) : Keeps E P (reads f) :=
  .bind (keeps_reading f) fun _ => keeps_extend

/-- A call of the vault keeps what its outcome is in, also when it fails. -/
theorem keeps_asking {x : Ambient → Io (Vault S) α} (hx : ∀ amb v, P v → P (stateAfter (x amb) v)) :
    Keeps E P (asking x) := by
  intro core h
  apply Prog.Keeping.bind (session_keeps h)
  intro session core _ h hsession
  apply Prog.Keeping.bind (B := fun _ _ _ => True)
  · exact ⟨h, fun _ _ _ _ _ => ⟨h, trivial⟩⟩
  · intro (amb : Ambient) core _ h _
    have hafter := hx amb session.vault hsession
    unfold stateAfter at hafter
    cases hrun : x amb session.vault with
    | ok a vault =>
      rw [hrun] at hafter
      exact ⟨Holding.withVault hafter, trivial⟩
    | error e vault =>
      rw [hrun] at hafter
      exact ⟨Holding.withVault hafter, trivial⟩

theorem keeps_calling {x : Ambient → Io (Vault S) α} (hx : ∀ amb v, P v → P (stateAfter (x amb) v)) :
    Keeps E P (calling x) := .bind (keeps_asking hx) fun _ => .ofExcept _

theorem keeps_writes {x : Ambient → Io (Vault S) α} (hx : ∀ amb v, P v → P (stateAfter (x amb) v)) :
    Keeps E P (writes x) := .bind (keeps_calling hx) fun _ => keeps_extend

theorem keeps_writesItem {id : Text} {x : ItemId → Ambient → Io (Vault S) α}
    (hx : ∀ iid amb v, P v → P (stateAfter (x iid amb) v)) : Keeps E P (writesItem id x) :=
  .bind (.ofExcept _) fun iid => keeps_writes (hx iid)

theorem keeps_each {f : Text → Act S Unit} (hf : ∀ t, Keeps E P (f t)) : ∀ l, Keeps E P (each f l)
  | [] => .pure _
  | t :: rest => .bind (hf t) fun _ => keeps_each hf rest

theorem keeps_replacing {iid : ItemId} {desired : Option (List Text)} {current : Item → List Text}
    {add remove : Text → Act S Unit} (hadd : ∀ t, Keeps E P (add t)) (hremove : ∀ t, Keeps E P (remove t)) :
    Keeps E P (replacing iid desired current add remove) := by
  cases desired with
  | none => exact .pure _
  | some desired => exact .bind (keeps_reading _) fun held => .bind (keeps_each hadd _) fun _ => keeps_each hremove _

/-! ## Calls of the vault -/

section Kept

variable (hP : Vault.Kept E P)

include hP

theorem kept_dropped (op : Op) (amb : Ambient) {x : Io (Vault S) α} (hop : op.run E amb = dropping x) {v : Vault S}
    (hv : P v) : P (stateAfter x v) := by
  rw [← stateAfter_dropping, ← hop]
  exact hP.step op amb hv

theorem kept_onStore {x : Io S α} {v : Vault S} (hv : P v)
    (hx : Meets x v.store
      (fun _ s => LawfulStore.view s = LawfulStore.view v.store ∧ ∀ c, LawfulStore.Accepts c v.store → LawfulStore.Accepts c s)
      (fun _ s => LawfulStore.view s = LawfulStore.view v.store ∧ ∀ c, LawfulStore.Accepts c v.store → LawfulStore.Accepts c s)) :
    P (stateAfter (Vault.onStore x) v) := by
  apply Meets.stateAfter
  apply Meets.onStore
  apply hx.mono
  · exact fun _ s hs => hP.quiet (.of_store v hs.1 hs.2) hv
  · exact fun _ s hs => hP.quiet (.of_store v hs.1 hs.2) hv

theorem openVault_keeps {core : Core S} (h : Holding P core) (store : S) (vaultKey : ByteArr 32) (roster : Roster) :
    KeepsWith E P (openVault store vaultKey roster) core P := by
  apply Prog.Ensures.bind
  apply Prog.Ensures.get
  apply Prog.Ensures.bind
  refine ⟨h, fun _ (opened : Result (Vault S)) _ _ hopened => ?_⟩
  apply Prog.Ensures.ofExcept
  · intro v hv
    obtain hv : opened = .ok v := mapError_eq_ok.mp hv
    have hopen : opened = Vault.open E store vaultKey core.device roster := hopened
    exact ⟨h, hP.opened (opened_of_open (hopen.symm.trans hv))⟩
  · exact fun _ _ => h

theorem keeps_answering (q : FacadeQuery) : Keeps E P (answering E q) := by
  cases q with
  | engine q =>
    cases q with
    | loadAll =>
      refine keeps_asking fun _ v hv => kept_onStore hP hv ?_
      exact (LawfulStore.loadAll_spec v.store).mono (fun _ _ h => ⟨h.1, h.2.2⟩) (fun _ _ h => ⟨h.1, h.2.1⟩)
    | stored itemId =>
      refine keeps_asking fun _ v hv => kept_onStore hP hv ?_
      exact (LawfulStore.get_spec itemId v.store).mono (fun _ _ h => ⟨h.1, h.2.2⟩) (fun _ _ h => h)
    | mergeRemote changes =>
      exact keeps_asking fun amb _ hv => kept_dropped hP (.atomic (.mergeRemote changes)) amb rfl hv
    | rotateEpoch => exact keeps_asking fun amb _ hv => kept_dropped hP .rotateEpoch amb rfl hv
    | rewrap limit =>
      exact keeps_asking fun amb _ hv => kept_dropped hP (.rewrapToCurrentEpoch limit) amb rfl hv
    | epoch => exact .bind keeps_session fun _ => .pure _
    | save _ | send _ => exact .call _
  | fetch _ | sealGrant _ _ _ _ _ | deliver _ _ | reopen _ => exact .call _

/-- A method that reaches the server, at each of its calls too. -/
theorem keeps_onFacade (x : Misty.Command α) : Keeps E P (onFacade E x) := by
  intro core h
  show Calls.Ensures _ _ _ _ _
    ((x core.facade).handle (answering E) (fun s (self : Core S) => { self with engine := s.engine }) core) ()
  refine Calls.Ensures.mono ?_ ?_ (Calls.Ensures.handle (J := fun core (_ : Unit) => Holding P core)
    (P := fun _ => True) ?_ ?_ (Calls.Ensures.true _ _) h)
  · exact fun _ _ _ hcore => ⟨hcore.1, trivial⟩
  · exact fun _ _ _ hcore => hcore
  · exact fun _ _ _ hcore => hcore.congr rfl
  · exact fun q core _ hcore => keeps_answering hP q core hcore

/-! ## Commands -/

theorem keeps_unlock (keyMaterial : Bytes) : Keeps E P (unlock keyMaterial) := by
  intro core h
  apply Prog.Ensures.bind
  apply Prog.Ensures.get
  cases hl : core.lifecycle with
  | unlocked session => exact keeps_extend core h
  | poisoned => exact h
  | locked store =>
    by_cases hk : keyMaterial.length = 32
    · simp only [dif_pos hk]
      apply Prog.Keeping.bind (openVault_keeps hP h store _ core.roster)
      intro vault core' _ h' hvault
      exact Keeps.bind (.call .now) (fun now => .modify fun _ _ => .opened hvault _ now) core' h'
    · simp only [dif_neg hk]
      exact h

theorem keeps_reopenUnder (roster : Roster) : Keeps E P (reopenUnder roster) := by
  refine .bind keeps_session fun session => .bind (.modify fun core _ => ?_) fun _ => ?_
  · intro session' hl
    cases hl
  · intro core h
    apply Prog.Keeping.bind (openVault_keeps hP h session.vault.store session.vaultKey roster)
    intro vault core' _ h' hvault
    exact Keeps.bind (.call .now) (fun now => .modify fun _ _ => .opened hvault _ now) core' h'

theorem keeps_doUpdate (id : Text) (edit : Dto.EditInput) : Keeps E P (doUpdate E id edit) := by
  refine .bind (.ofExcept _) fun iid => .bind (.ofExcept _) fun built => .bind (keeps_calling ?_) fun _ =>
    .bind (keeps_replacing ?_ ?_) fun _ => .bind (keeps_replacing ?_ ?_) fun _ =>
    .bind (keeps_replacing ?_ ?_) fun _ => keeps_extend
  · exact fun amb _ hv => hP.step (.atomic (.object (.update iid built))) amb hv
  · exact fun g => .bind (.ofExcept _) fun gid => keeps_calling fun amb _ hv =>
      hP.step (.atomic (.object (.addToGroup iid gid))) amb hv
  · exact fun g => .bind (.ofExcept _) fun gid => keeps_calling fun amb _ hv =>
      hP.step (.atomic (.object (.removeFromGroup iid gid))) amb hv
  · exact fun t => keeps_calling fun amb _ hv => hP.step (.atomic (.object (.addTag iid t))) amb hv
  · exact fun t => keeps_calling fun amb _ hv => hP.step (.atomic (.object (.removeTag iid t))) amb hv
  · exact fun o => keeps_calling fun amb _ hv => hP.step (.atomic (.object (.addOrigin iid o))) amb hv
  · exact fun o => keeps_calling fun amb _ hv => hP.step (.atomic (.object (.removeOrigin iid o))) amb hv

variable (cbor : Roster → Option Bytes)

theorem keeps_doRevokeDevice (deviceId : Text) : Keeps E P (doRevokeDevice E cbor deviceId) := by
  refine .bind (.ofExcept _) fun revoked => .bind keeps_session fun session => .bind .get fun self =>
    .bind (.call .seal) fun draw => .bind (keeps_onFacade hP _) fun outcome => ?_
  cases outcome with
  | revoked _ successor _ =>
    exact .bind (.call .turns) fun turns => .bind (keeps_onFacade hP _) fun _ =>
      .bind (keeps_reopenUnder hP successor) fun _ => keeps_extend
  | rosterSuperseded _ _ => exact .throw _

theorem keeps_doApproveEnrollment (enrollId typedCode serverUrl : Text) (enrolledAt : I64) :
    Keeps E P (doApproveEnrollment E cbor enrollId typedCode serverUrl enrolledAt) := by
  refine .bind (.ofExcept _) fun eid => .bind (keeps_onFacade hP _) fun fetched => ?_
  cases fetched with
  | none => exact .throw _
  | some approval =>
    refine .bind keeps_session fun session => .bind .get fun self => .bind (.call .seal) fun draw =>
      .bind (keeps_onFacade hP _) fun outcome => ?_
    cases outcome with
    | approved successor _ => exact .bind (keeps_reopenUnder hP successor) fun _ => keeps_extend
    | rosterSuperseded _ _ => exact .throw _

/-- Every command keeps what every vault keeps. -/
theorem keeps_answer (c : Command) : Keeps E P (answer E cbor c) := by
  cases c with
  | unlock keyMaterial => exact (keeps_unlock hP keyMaterial).replying
  | lock => exact .bind (.modify fun _ _ => .relock) fun _ => .pure _
  | lockStatus | poll => exact keeps_stating
  | reportLifecycle event =>
    refine .bind ?_ fun _ => keeps_stating
    cases event with
    | backgrounded | screenLocked | willSleep => exact .modify fun _ _ => .relock
    | userActivity => exact keeps_extend
  | list | search _ | sorted _ | trash | groups | conflicts => exact (keeps_reads _).replying
  | get _ | item _ | group _ => exact Keeps.replying (.bind (.ofExcept _) fun _ => keeps_reads _)
  | generateCode _ =>
    exact Keeps.replying (.bind (.ofExcept _) fun _ => .bind (keeps_reading _) fun _ => .bind (.ofExcept _) fun otp =>
      .bind (.call (.generate otp)) fun _ => .bind (.ofExcept _) fun _ => keeps_extend)
  | syncOnce | shutdown => exact .pure _
  | add input =>
    exact Keeps.replying (.bind (.ofExcept _) fun new => keeps_writes fun amb _ hv =>
      kept_dropped hP (.atomic (.object (.add new))) amb rfl hv)
  | trashItem _ =>
    exact (keeps_writesItem fun iid amb _ hv => hP.step (.atomic (.object (.trashItem iid))) amb hv).replying
  | restoreItem _ =>
    exact (keeps_writesItem fun iid amb _ hv => hP.step (.atomic (.object (.restoreItem iid))) amb hv).replying
  | deleteItem _ =>
    exact (keeps_writesItem fun iid amb _ hv => hP.step (.atomic (.object (.deleteItem iid))) amb hv).replying
  | recordUse _ =>
    exact (keeps_writesItem fun iid amb _ hv => hP.step (.atomic (.object (.recordUse iid))) amb hv).replying
  | addGroup name =>
    exact (keeps_writes fun amb _ hv =>
      kept_dropped hP (.atomic (.object (.addGroup name))) amb rfl hv).replying
  | deleteGroup _ =>
    exact Keeps.replying (.bind (.ofExcept _) fun gid => keeps_writes fun amb _ hv =>
      hP.step (.atomic (.object (.deleteGroup gid))) amb hv)
  | update id edit => exact (keeps_doUpdate hP id edit).replying
  | repairSecret _ secret =>
    exact (keeps_writesItem fun iid amb _ hv => hP.step (.atomic (.object (.repairSecret iid ⟨secret⟩))) amb hv).replying
  | advanceHotpCounter _ =>
    exact (keeps_writesItem fun iid amb _ hv =>
      kept_dropped hP (.atomic (.object (.advanceHotpCounter iid))) amb rfl hv).replying
  | setHotpCounter _ counter =>
    exact (keeps_writesItem fun iid amb _ hv =>
      kept_dropped hP (.atomic (.object (.setHotpCounter iid counter))) amb rfl hv).replying
  | sweepTrash =>
    exact (keeps_writes fun amb _ hv => kept_dropped hP .sweepTrash amb rfl hv).replying
  | purgeTombstones =>
    exact (keeps_writes fun amb _ hv => kept_dropped hP (.atomic .purgeTombstones) amb rfl hv).replying
  | mergeDuplicate _ _ =>
    exact Keeps.replying (.bind (.ofExcept _) fun iid => .bind (.ofExcept _) fun new => keeps_writes fun amb _ hv =>
      hP.step (.atomic (.object (.mergeDuplicate iid new))) amb hv)
  | revokeDevice deviceId => exact (keeps_doRevokeDevice hP cbor deviceId).replying
  | approveEnrollment enrollId typedCode serverUrl enrolledAt =>
    exact (keeps_doApproveEnrollment hP cbor enrollId typedCode serverUrl enrolledAt).replying

end Kept

end Programs

/-! ## Runs -/

section Run

variable [LawfulStore S] {E : Externals} {cbor : Roster → Option Bytes} {P : Vault S → Prop}

/-- What is left of a sync keeps it, and holds it at each of its calls. -/
def KeptBy (E : Externals) (P : Vault S → Prop) (sync : Steps S SyncReport) : Prop :=
  sync.Ensures Eq (fun q (_ : Unit) a _ => Answers E q a) (fun _ core _ => Holding P core)
    (fun _ core _ => Holding P core) (fun _ core _ => Holding P core) ()

/-- What a program is told, with what is written down of it left out. -/
theorem leads_of_hears {α : Type} {x y : Steps S α} {w w' : Transcript S} (h : Calls.Leads Eq (Hears E) x w y w') :
    Calls.Leads Eq (fun q (_ : Unit) a _ => Answers E q a) x () y () := by
  induction h with
  | refl x w => exact .refl x ()
  | moved _ _ ih => exact ih
  | answered ht _ ih => exact .answered ht.1 ih

theorem Holding.served (hP : Vault.Kept E P) {c : Command} {core core' : Core S} {w : Transcript S} {reply : Reply}
    (h : Holding P core) (hrun : Runs E (answer E cbor c) core w (.ok reply core')) : Holding P core' :=
  (Calls.Ensures.ran (keeps_answer hP cbor c core h) (leads_of_hears hrun)).1

/-- The vault a task has open is in `P`, and so is what its sync will leave. -/
structure Task.Holds (E : Externals) (P : Vault S → Prop) (t : Task S) : Prop where
  core : Holding P t.phase.core
  syncing : ∀ c deadlineMs polled sync, t.phase = .syncing c deadlineMs polled sync → KeptBy E P sync

theorem Task.Holds.between {t : Task S} (h : Holding P t.phase.core)
    (hs : ∀ c deadlineMs polled sync, t.phase ≠ .syncing c deadlineMs polled sync) : t.Holds E P :=
  ⟨h, fun c dl p sy hp => absurd hp (hs c dl p sy)⟩

theorem KeptBy.state {sync : Steps S SyncReport} (h : KeptBy E P sync) : Holding P sync.state :=
  Calls.Ensures.state (J := fun core (_ : Unit) => Holding P core) h

theorem Task.Holds.of_sync {t : Task S} {c : Sent} {deadlineMs : I64} {polled : Bool} {sync : Steps S SyncReport}
    (hp : t.phase = .syncing c deadlineMs polled sync) (h : KeptBy E P sync) : t.Holds E P := by
  constructor
  · rw [hp]
    exact h.state
  · intro c' dl p sy hp'
    rw [hp] at hp'
    cases hp'
    exact h

omit [LawfulStore S] in
theorem Holding.after {core : Core S} (h : Holding P core) (c : Command) : Holding P (Phase.after c core).core := by
  rw [core_after]
  exact h

theorem Step.holds (hP : Vault.Kept E P) {t u : Task S} {e : Event S} (h : Step E cbor t e u) (ht : t.Holds E P) :
    u.Holds E P := by
  have hreceived : ∀ {v : Task S} {sync c : Sent} {deadlineMs : I64} {future : Steps S SyncReport},
      Received t sync c deadlineMs future v → KeptBy E P future ∧ v.phase = t.phase := by
    intro v sync c deadlineMs future hr
    obtain ⟨rest, -, rfl, polled, hp⟩ := hr.eq
    exact ⟨ht.syncing _ _ _ _ hp, rfl⟩
  cases h with
  | sent c hp => exact ⟨ht.core, ht.syncing⟩
  | @woke u core c now hp hpop =>
    have hcore := ht.core
    rw [hp] at hcore
    exact .between (hcore.checkDeadline now) (by simp)
  | @served core core' c w reply hp hsync hrun =>
    have hcore := ht.core
    rw [hp] at hcore
    exact .between ((hcore.served hP hrun).after _) (not_syncing_after _ _)
  | @began core c session hp hc hl =>
    have hcore := ht.core
    rw [hp] at hcore
    refine .of_sync rfl ?_
    exact Calls.Ensures.mono (fun _ _ _ h => h.1) (fun _ _ _ h => h) (keeps_onFacade hP _ core hcore)
  | progressed hp ha =>
    exact .of_sync rfl (Calls.Ensures.answered (fun _ => rfl) (w := ()) (ht.syncing _ _ _ _ hp) ha)
  | deferred hr hc | reported hr hc | polled hr hc hlt =>
    obtain ⟨-, hphase⟩ := hreceived hr
    exact ⟨by simpa only [hphase] using ht.core, by simpa only [hphase] using ht.syncing⟩
  | expired hr hc hle => exact .between .relock (by simp)
  | preempted hr hc => exact .between (Holding.relock.after _) (not_syncing_after _ _)
  | finished now hp | failed now hp =>
    exact .between (((ht.syncing _ _ _ _ hp).state).extendDeadline now) (by simp)
  | dropped hp hw hrx => exact .between (ht.syncing _ _ _ _ hp).state (by simp)
  | @closed core hp hpop =>
    have hcore := ht.core
    rw [hp] at hcore
    exact .between hcore (by simp)

/-- What every vault keeps is true of the vault a task has open, in every run. -/
theorem Run.holds (hP : Vault.Kept E P) {Cond : List (Event S) → Task S → Event S → Prop} {log : List (Event S)}
    {t : Task S} (h : Run E cbor Cond log t) : t.Holds E P := by
  induction h with
  | spawned store engine device roster timeoutMs nowMs =>
    refine .between (.of_locked ?_) (by simp [Task.spawn])
    intro h
    obtain ⟨session, hl⟩ := h
    cases hl
  | step _ hstep _ ih => exact hstep.holds hP ih

/-! ## The clock -/

theorem kept_seen : Vault.Kept E (Vault.Seen (S := S)) where
  opened h := .of_opened h
  quiet hq h := h.quiet hq
  step op _ _ h := op.seen h

/-- In every run, the next stamp of the open vault is later than every clock of what it holds. -/
theorem next_stamp_later {Cond : List (Event S) → Task S → Event S → Prop} {log : List (Event S)} {t : Task S}
    (h : Run E cbor Cond log t) {session : Session S} (hl : t.phase.core.lifecycle = .unlocked session) {now : U64}
    {stamp : Hlc} (hnext : session.vault.hlc.next now = .ok stamp) {o : Decoded} (ho : session.vault.Holds o) :
    ∀ k ∈ o.everyHlc, k < stamp := by
  intro k hk
  have hseen := (h.holds kept_seen).core session hl
  have hsaw := (hseen.2 k ⟨o, ho, hk⟩).1
  exact Hlc.lt_of_time (hsaw.trans_lt (HlcClock.time_of_next hnext).1)

end Run

/-! ## Worked instance -/

section Serving

variable {S : Type} [VaultStore S] {E : Externals} {cbor : Roster → Option Bytes}

variable (E) in
/-- Clocks that stand still, one draw, vaults that open as they do, and nothing outside. -/
def still : (q : Ask S) → q.Answer
  | .now => I64.saturate 0
  | .ambient => .sample 5
  | .seal => ⟨.ok (.repeated 32 0), .ok (.repeated 24 0, .repeated 24 0)⟩
  | .turns => 0
  | .openVault store vaultKey device roster => Vault.open E store vaultKey device roster
  | .generate _ => .ok ()
  | .outside (.engine q) => offline q
  | .outside (.fetch _) => .ok none
  | .outside (.sealGrant _ _ _ _ _) => .ok []
  | .outside (.deliver _ _) => .ok ()
  | .outside (.reopen _) => .ok ()

theorem answers_still (q : Ask S) : Answers E q (still E q) := by
  cases q with
  | openVault store vaultKey device roster => rfl
  | _ => trivial

variable (E) in
/-- The same, written down. -/
def heard (q : Ask S) (w : Transcript S) : q.Answer × Transcript S := (still E q, w ++ [⟨q, still E q⟩])

variable (E cbor) in
/-- The core a command leaves that is served with success. -/
def serving (c : Command) (core : Core S) : Option (Core S) :=
  match (answer E cbor c (core.checkDeadline (I64.saturate 0))).run (heard E) [] with
  | (.ok (.result (.ok ())), core', _) => some core'
  | _ => none

theorem runs_serving {c : Command} {core core' : Core S} (h : serving E cbor c core = some core') :
    ∃ w, Runs E (answer E cbor c) (core.checkDeadline (I64.saturate 0)) w (.ok (.result (.ok ())) core') := by
  have hhears : ∀ q (w : Transcript S), Hears E q w (heard E q w).1 (heard E q w).2 := fun q w => ⟨answers_still q, rfl⟩
  obtain ⟨y, hleads, hend⟩ := Calls.leads_run (R := Eq) hhears (answer E cbor c (core.checkDeadline (I64.saturate 0))) []
  unfold serving at h
  split at h
  · next heq =>
    obtain rfl := Option.some.inj h
    rw [heq] at hleads hend
    exact ⟨_, hend ▸ hleads⟩
  · cases h

theorem run_serving {log : List (Event S)} {core core' : Core S} {c : Command} {n : Nat}
    (h : Run E cbor (fun _ _ _ => True) log ⟨.idle core, [], [], n⟩) (hc : c ≠ .syncOnce)
    (hserve : serving E cbor c core = some core') :
    ∃ log, Run E cbor (fun _ _ _ => True) log ⟨.after c core', [], [], n + 1⟩ := by
  obtain ⟨w, hruns⟩ := runs_serving hserve
  exact ⟨_, h.serve rfl rfl rfl (fun h => absurd h hc) hruns trivial (fun _ _ _ => trivial) (fun _ _ _ => trivial)⟩

end Serving

/-- What is added. -/
def newSample : Dto.NewItemInput where
  kind := .totp
  algorithm := .sha1
  digits := 6
  period := 30
  hotpCounter := 0
  secret := [9]
  pin := none
  issuer := ['i']
  account := ['a']
  nickname := none
  note := none
  groups := []
  tags := []
  origins := []
  icon := none
  color := none
  favorite := false

/-- The item it is. -/
def addedSample : Item :=
  Item.create ⟨ByteArr.repeated 16 5⟩ (.totp ⟨[9]⟩ ['i'] ['a']) (Hlc.early 1 1) (Misty.nowMs ⟨MIN_WALL_MS, MIN_WALL_MS_lt⟩)

/-- The core of the sample, unlocked and with the item added. -/
def addedCore (E : Externals) (cbor : Roster → Option Bytes) : Option (Core MemoryStore) := do
  let unlocked ← serving E cbor (.unlock sampleKey.val) (sample (.locked MemoryStore.new) (I64.saturate 0))
  serving E cbor (.add newSample) unlocked

theorem run_added {E : Externals} {cbor : Roster → Option Bytes} {core : Core MemoryStore}
    (h : addedCore E cbor = some core) :
    ∃ log, Run E cbor (fun _ _ _ => True) log ⟨.idle core, [], [], 2⟩ := by
  simp only [addedCore, Option.bind_eq_bind, Option.bind_eq_some_iff] at h
  obtain ⟨unlocked, hunlock, hadd⟩ := h
  have hspawned : Run E cbor (fun _ _ _ => True) [] ⟨.idle (sample (.locked MemoryStore.new) (I64.saturate 0)), [], [], 0⟩ :=
    .spawned MemoryStore.new ⟨.new, .new, .sample 1, 10⟩ (.sample 1) (.sample [1]) (I64.saturate 1000) (I64.saturate 0)
  obtain ⟨log, hopen⟩ := run_serving hspawned (by simp) hunlock
  exact run_serving hopen (by simp) hadd

/-- The item of the sample in a core, and the next stamp. -/
def addedStamp (core : Core MemoryStore) : Option (Item × Hlc) :=
  match core.lifecycle with
  | .unlocked session => do
    let x ← session.vault.items.get addedSample.id
    let stamp ← (session.vault.hlc.next 0).toOption
    return (x, stamp)
  | _ => none

/-- An item is added, and the next stamp is later than its clocks. -/
theorem next_stamp_later_added : ∃ (t : Task MemoryStore) (session : Session MemoryStore) (x : Item) (stamp : Hlc),
    t.phase.core.lifecycle = .unlocked session ∧ session.vault.items.get addedSample.id = some x ∧
      session.vault.hlc.next 0 = .ok stamp ∧ ∀ k ∈ x.everyHlc, k < stamp := by
  let E : Externals := .sample [addedSample] []
  let cbor : Roster → Option Bytes := fun _ => none
  have hall : ((addedCore E cbor).bind addedStamp).isSome = true := by decide +kernel
  obtain ⟨⟨x, stamp⟩, hstamp⟩ := Option.isSome_iff_exists.mp hall
  obtain ⟨core, hcore, hstamp⟩ := Option.bind_eq_some_iff.mp hstamp
  obtain ⟨log, hrun⟩ := run_added hcore
  unfold addedStamp at hstamp
  split at hstamp
  · next session hl =>
    simp only [Option.bind_eq_bind, Option.bind_eq_some_iff] at hstamp
    obtain ⟨y, hget, h, hnext, hpair⟩ := hstamp
    obtain ⟨rfl, rfl⟩ := Prod.mk.inj (Option.some.inj hpair)
    have hok : session.vault.hlc.next 0 = .ok h := by
      cases hn : session.vault.hlc.next 0 with
      | ok r =>
        rw [hn] at hnext
        exact congrArg Except.ok (Option.some.inj hnext)
      | error e =>
        rw [hn] at hnext
        cases hnext
    have hholds : session.vault.Holds (.item y) := by
      show session.vault.items.get y.id = some y
      rw [ItemSet.id_of_get hget]
      exact hget
    exact ⟨⟨.idle core, [], [], 2⟩, session, y, h, hl, hget, hok, next_stamp_later hrun hl hok hholds⟩
  · cases hstamp

end Core

end Misty
