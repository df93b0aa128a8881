import Misty.Facade.Lock

/- The auto-lock deadline. The loop checks it when it takes a command, against the
   reading of the command before; a sync has its own copies of the check. What is wanted
   of each event is `Vigilant`: it serves the vault only under a reading taken at its wake
   that is in time, and a reading that is not in time locks the vault. The invariant that
   carries it is that a command in hand was taken in time, and that a sync never moves the
   deadline it was begun under (`Guarded`). -/
namespace Misty

namespace Core

variable {S : Type}

/-- The reading a wake takes first. -/
def Event.wake : Event S → Option I64
  | woke _ now | polled _ now | expired _ _ now | completed _ now _ => some now
  | _ => none

/-- The reading of the wake an event belongs to: a command is served under the one it was taken with. -/
def Event.checked (log : List (Event S)) : Event S → Option I64
  | served _ _ _ => (log.filterMap Event.wake).getLast?
  | e => e.wake

/-- A vault is opened by an unlock. -/
def Event.unlocks : Event S → Bool
  | served c w _ => c.command.isUnlock && w.any (fun
    | ⟨.openVault _ _ _ _, _⟩ => true
    | _ => false)
  | _ => false

/-- The readings of the host's clock since the vault was last unlocked. -/
def sinceUnlock (log : List (Event S)) : List I64 :=
  log.foldl (fun earlier e => if e.unlocks then e.readings else earlier ++ e.readings) []

/-- A reading is below the deadline, and not below an earlier one. -/
def Live (earlier : List I64) (deadlineMs now : I64) : Prop :=
  now.val < deadlineMs.val ∧ ∀ h ∈ earlier, h.val ≤ now.val

/-- A command is answered by the loop or by a sync that ended, the vault is reported open, or its deadline moves. -/
def Serves (session : Session S) (e : Event S) (u : Task S) : Prop :=
  (∃ c w reply, e = .served c w reply) ∨ (∃ sync now reply, e = .completed sync now reply) ∨
    (∃ c, (c, Reply.state ⟨false⟩) ∈ e.answers) ∨
    ∃ later, u.phase.core.lifecycle = .unlocked later ∧ later.deadlineMs ≠ session.deadlineMs

/-- What no expired session is served means for one event: only an open vault is reported open, what serves it belongs
to a wake whose reading is live, and a reading that is not locks it. -/
structure Vigilant (log : List (Event S)) (t : Task S) (e : Event S) (u : Task S) : Prop where
  reports : ∀ c, (c, Reply.state ⟨false⟩) ∈ e.answers → t.phase.core.Unlocked
  serves : ∀ session, t.phase.core.lifecycle = .unlocked session → Serves session e u →
    ∃ now, e.checked log = some now ∧ Live (sinceUnlock log) session.deadlineMs now
  locks : ∀ session now, t.phase.core.lifecycle = .unlocked session → e.wake = some now →
    ¬ Live (sinceUnlock log) session.deadlineMs now → ¬ u.phase.core.Unlocked

/-- A reading the loop lets pass is not below one that the loop did not take; while a sync is driven no status is
asked for and a poll reads a clock that has not run backwards; and a sync ends in time. -/
def Timely (log : List (Event S)) (t : Task S) : Event S → Prop
  | .woke _ now => ∀ session, t.phase.core.lifecycle = .unlocked session → t.phase.core.lastNowMs.val ≤ now.val →
      now.val < session.deadlineMs.val → ∀ h ∈ sinceUnlock log, h.val ≤ now.val
  | .polled _ now => ∀ h ∈ sinceUnlock log, h.val ≤ now.val
  | .reported _ => False
  | .completed _ now _ => ∀ session, t.phase.core.lifecycle = .unlocked session →
      Live (sinceUnlock log) session.deadlineMs now
  | _ => True

theorem sinceUnlock_append (log : List (Event S)) (e : Event S) :
    sinceUnlock (log ++ [e]) = if e.unlocks then e.readings else sinceUnlock log ++ e.readings := by
  simp [sinceUnlock, List.foldl_append]

theorem wakes_append (log : List (Event S)) (e : Event S) :
    (log ++ [e]).filterMap Event.wake = log.filterMap Event.wake ++ e.wake.toList := by
  cases h : e.wake <;> simp [h]

theorem Live.concat {earlier : List I64} {deadlineMs now : I64} (h : Live earlier deadlineMs now) :
    Live (earlier ++ [now]) deadlineMs now := by
  refine ⟨h.1, fun r hr => ?_⟩
  rcases List.mem_append.mp hr with hr | hr
  · exact h.2 r hr
  · obtain rfl := List.mem_singleton.mp hr
    omega

/-! ## A sync under its deadline -/

/-- The vault is open until a deadline. -/
def OpenUntil (deadlineMs : I64) (core : Core S) : Prop :=
  ∃ session, core.lifecycle = .unlocked session ∧ session.deadlineMs = deadlineMs

section Sync

variable [VaultStore S] {E : Externals} {cbor : Roster → Option Bytes} {core : Core S} {deadlineMs : I64} {α : Type}

omit [VaultStore S] in
theorem OpenUntil.withVault (h : OpenUntil deadlineMs core) (vault : Vault S) :
    OpenUntil deadlineMs (core.withVault vault) := by
  obtain ⟨session, hl, hd⟩ := h
  refine ⟨{ session with vault := vault }, ?_, hd⟩
  simp [Core.withVault, hl]

/-- What a program says of an open vault, whatever it is told. -/
abbrev Within (E : Externals) (deadlineMs : I64) (x : Act S α) (core : Core S) : Prop :=
  x.Keeping Eq (fun q (_ : Unit) a _ => Answers E q a) (fun _ core _ => OpenUntil deadlineMs core)
    (fun core _ => OpenUntil deadlineMs core) core () (fun _ _ _ => True)

theorem session_within (h : OpenUntil deadlineMs core) : Within E deadlineMs (session (S := S)) core := by
  obtain ⟨session, hl, hd⟩ := h
  apply Prog.Ensures.bind
  apply Prog.Ensures.get
  rw [hl]
  exact ⟨⟨session, hl, hd⟩, trivial⟩

theorem asking_within (h : OpenUntil deadlineMs core) (x : Ambient → Io (Vault S) α) :
    Within E deadlineMs (asking x) core := by
  apply Prog.Keeping.bind (session_within h)
  intro session core _ hcore _
  apply Prog.Keeping.bind (B := fun _ _ _ => True)
  · exact ⟨hcore, fun _ _ _ _ _ => ⟨hcore, trivial⟩⟩
  · intro amb core _ hcore _
    cases x amb session.vault with
    | ok a vault => exact ⟨hcore.withVault vault, trivial⟩
    | error e vault => exact ⟨hcore.withVault vault, trivial⟩

theorem answering_within (h : OpenUntil deadlineMs core) (q : FacadeQuery) :
    Within E deadlineMs (answering E q) core := by
  cases q with
  | engine q =>
    cases q with
    | loadAll | stored _ | mergeRemote _ | rotateEpoch | rewrap _ => exact asking_within h _
    | epoch =>
      apply Prog.Keeping.bind (session_within h)
      intro session core _ hcore _
      exact ⟨hcore, trivial⟩
    | save _ | send _ => exact ⟨h, fun _ _ _ _ _ => ⟨h, trivial⟩⟩
  | fetch _ | sealGrant _ _ _ _ _ | deliver _ _ | reopen _ => exact ⟨h, fun _ _ _ _ _ => ⟨h, trivial⟩⟩

/-- What is left of a sync begun under a deadline. -/
def Under (E : Externals) (deadlineMs : I64) (future : Steps S α) : Prop :=
  future.Ensures Eq (fun q (_ : Unit) a _ => Answers E q a) (fun _ core _ => OpenUntil deadlineMs core)
    (fun _ core _ => OpenUntil deadlineMs core) (fun _ core _ => OpenUntil deadlineMs core) ()

theorem onFacade_under (h : OpenUntil deadlineMs core) (x : Misty.Command α) : Under E deadlineMs (onFacade E x core) := by
  show Calls.Ensures _ _ _ _ _
    ((x core.facade).handle (answering E) (fun s (self : Core S) => { self with engine := s.engine }) core) ()
  refine Calls.Ensures.mono ?_ ?_ (Calls.Ensures.handle (J := fun core (_ : Unit) => OpenUntil deadlineMs core)
    (P := fun _ => True) ?_ ?_ (Calls.Ensures.true _ _) h)
  · intro _ _ _ hcore
    exact hcore.1
  · intro _ _ _ hcore
    exact hcore
  · intro _ _ _ hcore
    exact hcore
  · intro q _ _ hcore
    exact answering_within hcore q

omit [VaultStore S] in
theorem Under.state [VaultStore S] {future : Steps S α} (h : Under E deadlineMs future) :
    OpenUntil deadlineMs future.state :=
  Calls.Ensures.state (J := fun core (_ : Unit) => OpenUntil deadlineMs core) h

end Sync

/-! ## Runs -/

section Run

variable [VaultStore S] {E : Externals} {cbor : Roster → Option Bytes}

/-- A command in hand was taken in time, and a sync never moves the deadline it was begun under. -/
structure Guarded (E : Externals) (log : List (Event S)) (t : Task S) : Prop where
  taken : ∀ c core session, t.phase = .taken c core → core.lifecycle = .unlocked session →
    ∃ now, (log.filterMap Event.wake).getLast? = some now ∧ Live (sinceUnlock log) session.deadlineMs now
  syncing : ∀ c deadlineMs polled future, t.phase = .syncing c deadlineMs polled future → Under E deadlineMs future

theorem Guarded.between {log : List (Event S)} {t : Task S} (ht : ∀ c core, t.phase ≠ .taken c core)
    (hs : ∀ c deadlineMs polled future, t.phase ≠ .syncing c deadlineMs polled future) : Guarded E log t :=
  ⟨fun c core _ hp => absurd hp (ht c core), fun c dl p f hp => absurd hp (hs c dl p f)⟩

theorem Guarded.received {log log' : List (Event S)} {t u : Task S} {sync c : Sent} {deadlineMs : I64}
    {future : Steps S SyncReport} (h : Guarded E log t) (hr : Received t sync c deadlineMs future u) :
    Guarded E log' u ∧ Under E deadlineMs future := by
  obtain ⟨rest, -, rfl, polled, hphase⟩ := hr.eq
  refine ⟨⟨fun d core _ hp => ?_, h.syncing⟩, h.syncing _ _ _ _ hphase⟩
  rw [hphase] at hp
  cases hp

theorem Guarded.unlocked {log : List (Event S)} {t u : Task S} {sync c : Sent} {deadlineMs : I64}
    {future : Steps S SyncReport} (h : Guarded E log t) (hr : Received t sync c deadlineMs future u) :
    t.phase.core.Unlocked := by
  obtain ⟨rest, -, -, polled, hp⟩ := hr.eq
  obtain ⟨session, hl, -⟩ := (h.syncing _ _ _ _ hp).state
  rw [hp]
  exact ⟨session, hl⟩

theorem Guarded.step {log : List (Event S)} {t u : Task S} {e : Event S} (h : Guarded E log t)
    (hstep : Step E cbor t e u) (htime : Timely log t e) : Guarded E (log ++ [e]) u := by
  cases hstep with
  | sent c hp =>
    refine ⟨?_, h.syncing⟩
    rw [wakes_append, sinceUnlock_append]
    simpa [Event.wake, Event.unlocks, Event.readings] using h.taken
  | @woke u core c now hp hpop =>
    refine ⟨?_, by simp⟩
    intro d core' session hphase hl
    cases hphase
    obtain ⟨hopen, hback, hlive⟩ := lifecycle_checkDeadline hl
    refine ⟨now, by simp [Event.wake], ?_⟩
    rw [sinceUnlock_append]
    -- what the check does not see, the condition does
    have hcore : t.phase.core = core := by rw [hp]; rfl
    have hearlier := htime session (hcore ▸ hopen) (hcore ▸ hback) hlive
    exact Live.concat ⟨hlive, hearlier⟩
  | served hp hsync hrun => exact .between (fun d core => not_taken_after _ _ d core) (not_syncing_after _ _)
  | @began core c session hp hc hl =>
    refine ⟨by simp, ?_⟩
    intro d deadlineMs polled future hphase
    cases hphase
    exact onFacade_under ⟨session, hl, rfl⟩ _
  | @progressed c deadlineMs polled q core k a hp ha =>
    refine ⟨by simp, ?_⟩
    intro d deadlineMs' polled' future hphase
    cases hphase
    exact Calls.Ensures.answered (fun _ => rfl) (w := ()) (h.syncing _ _ _ _ hp) ha
  | @deferred u sync c deadlineMs future hr hc =>
    have hreceived : Guarded E (log ++ [.deferred c]) u := (h.received hr).1
    exact ⟨hreceived.taken, hreceived.syncing⟩
  | reported hr hc => exact (h.received hr).1
  | polled hr hc hlt => exact (h.received hr).1
  | expired hr hc hle => exact .between (by simp) (by simp)
  | preempted hr hc => exact .between (fun d core => not_taken_after _ _ d core) (not_syncing_after _ _)
  | finished now hp => exact .between (by simp) (by simp)
  | failed now hp => exact .between (by simp) (by simp)
  | dropped hp hw hrx => exact .between (by simp) (by simp)
  | closed hp hpop => exact .between (by simp) (by simp)

theorem Run.guarded {log : List (Event S)} {t : Task S} (h : Run E cbor Timely log t) : Guarded E log t := by
  induction h with
  | spawned store engine device roster timeoutMs nowMs => exact .between (by simp [Task.spawn]) (by simp [Task.spawn])
  | step hrun hstep htime ih => exact ih.step hstep htime

/-! ## What an event answers -/

omit [VaultStore S] in
theorem lockState_eq {core : Core S} : core.lockState = ⟨false⟩ ↔ core.Unlocked := by
  unfold lockState Unlocked
  cases hl : core.lifecycle <;> simp

omit [VaultStore S] in
theorem checkDeadline_live {core : Core S} {session : Session S} {now : I64} (hl : core.lifecycle = .unlocked session)
    (hback : core.lastNowMs.val ≤ now.val) (hlive : now.val < session.deadlineMs.val) :
    (core.checkDeadline now).lifecycle = .unlocked session := by
  unfold checkDeadline
  simp only [hl]
  rw [if_neg (by omega)]

omit [VaultStore S] in
theorem core_after (c : Command) (core : Core S) : (Phase.after c core).core = core := by
  unfold Phase.after
  split <;> rfl

theorem replying_result (x : Act S Unit) (core : Core S) (w : Transcript S) :
    (replying x).Ensures Eq (Hears E) (fun _ _ _ => True) core w (fun r _ _ => r ≠ .state ⟨false⟩)
      (fun _ _ _ => True) := by
  apply Prog.Ensures.bind
  apply Prog.Ensures.attempt
  apply Calls.Ensures.mono _ _ (Calls.Ensures.true (x core) w)
  · intro a s w _ h
    cases h
  · intro e s w _ h
    cases h

theorem answer_reports {core core' : Core S} {c : Command} {w : Transcript S}
    (hrun : Runs E (answer E cbor c) core w (.ok (.state ⟨false⟩) core')) : core.Unlocked := by
  have hen : (answer E cbor c).Ensures Eq (Hears E) (fun _ _ _ => True) core []
      (fun r _ _ => r = .state ⟨false⟩ → core.Unlocked) (fun _ _ _ => True) := by
    have hstate : ∀ core : Core S, Reply.state core.lockState = .state ⟨false⟩ → core.Unlocked := by
      intro core h
      exact lockState_eq.mp (Reply.state.inj h)
    cases c with
    | lock | syncOnce | shutdown =>
      intro h
      cases h
    | lockStatus | poll => exact hstate core
    | reportLifecycle event =>
      cases event with
      | backgrounded | screenLocked | willSleep => exact fun h => absurd (hstate _ h) (not_unlocked_relock core)
      | userActivity =>
        apply Prog.Ensures.bind
        apply Prog.Ensures.bind
        apply Prog.Ensures.call trivial
        intro w₁ now w₂ _ _
        exact fun h => unlocked_extendDeadline.mp (hstate _ h)
    | _ => exact (replying_result _ core []).mono (fun _ _ _ hr h => absurd h hr) (fun _ _ _ h => h)
  exact hen.ran hrun rfl

/-- An event reports an open vault only where there is one. -/
theorem Guarded.reports {log : List (Event S)} {t u : Task S} {e : Event S} (h : Guarded E log t)
    (hstep : Step E cbor t e u) {c : Sent} (hc : (c, Reply.state ⟨false⟩) ∈ e.answers) : t.phase.core.Unlocked := by
  cases hstep with
  | served hp hs hrun =>
    obtain ⟨-, rfl⟩ := Prod.mk.inj (List.mem_singleton.mp hc)
    rw [hp]
    exact answer_reports hrun
  | reported hr _ | polled hr _ _ | expired hr _ _ | preempted hr _ => exact h.unlocked hr
  | sent _ _ | woke _ _ _ | began _ _ _ | progressed _ _ | deferred _ _ | closed _ _ => cases hc
  | finished _ _ | failed _ _ | dropped _ _ _ =>
    obtain ⟨-, hreply⟩ := Prod.mk.inj (List.mem_singleton.mp hc)
    cases hreply

/-! ## Every event -/

theorem Guarded.deadline {log : List (Event S)} {t : Task S} (h : Guarded E log t) {c : Sent} {deadlineMs : I64}
    {polled : Bool} {future : Steps S SyncReport} (hp : t.phase = .syncing c deadlineMs polled future)
    {session : Session S} (hl : t.phase.core.lifecycle = .unlocked session) : session.deadlineMs = deadlineMs := by
  obtain ⟨held, hheld, hd⟩ := (h.syncing _ _ _ _ hp).state
  rw [hp] at hl
  have heq : future.state.lifecycle = .unlocked session := hl
  rw [hheld] at heq
  cases heq
  exact hd

/-- What serves the vault belongs to a wake in time. -/
theorem Guarded.serves {log : List (Event S)} {t u : Task S} {e : Event S} (h : Guarded E log t)
    (hstep : Step E cbor t e u) (htime : Timely log t e) {session : Session S}
    (hl : t.phase.core.lifecycle = .unlocked session) (hserves : Serves session e u) :
    ∃ now, e.checked log = some now ∧ Live (sinceUnlock log) session.deadlineMs now := by
  -- an event that answers nothing and leaves the deadline alone serves nothing
  have hidle : e.answers = [] → (∀ later, u.phase.core.lifecycle = .unlocked later →
      later.deadlineMs = session.deadlineMs) → False := by
    intro hnone hsame
    rcases hserves with ⟨c, w, reply, rfl⟩ | ⟨sync, now, reply, rfl⟩ | ⟨c, hc⟩ | ⟨later, hlater, hne⟩
    · cases hnone
    · cases hnone
    · simp [hnone] at hc
    · exact hne (hsame later hlater)
  have hkept : ∀ {later : Session S}, t.phase.core.lifecycle = .unlocked later → later.deadlineMs = session.deadlineMs := by
    intro later hlater
    rw [hl] at hlater
    cases hlater
    rfl
  cases hstep with
  | sent c hp => exact (hidle rfl (fun later hlater => hkept hlater)).elim
  | @woke u core c now hp hpop =>
    refine (hidle rfl (fun later hlater => hkept ?_)).elim
    rw [hp]
    exact (lifecycle_checkDeadline hlater).1
  | served hp hs hrun =>
    rw [hp] at hl
    exact h.taken _ _ session hp hl
  | @began core c held hp hc hheld =>
    refine (hidle rfl (fun later hlater => ?_)).elim
    obtain ⟨after, hafter, hd⟩ := (onFacade_under (E := E) ⟨held, hheld, rfl⟩ (onEngine (syncOnce E core.roster))).state
    have heq : held = session := by
      rw [hp] at hl
      have hl' : core.lifecycle = .unlocked session := hl
      rw [hheld] at hl'
      cases hl'
      rfl
    have hsame : after = later := by
      have hlater' : (onFacade E (onEngine (syncOnce E core.roster)) core).state.lifecycle = .unlocked later := hlater
      rw [hafter] at hlater'
      cases hlater'
      rfl
    rw [← hsame, hd, heq]
  | progressed hp ha =>
    refine (hidle rfl (fun later hlater => ?_)).elim
    have hone : Step E cbor t _ _ := .progressed hp ha
    rw [(h.step hone trivial).deadline rfl hlater, h.deadline hp hl]
  | deferred hr hc =>
    obtain ⟨rest, -, rfl, polled, hp⟩ := hr.eq
    exact (hidle rfl (fun later hlater => hkept hlater)).elim
  | reported hr hc => exact htime.elim
  | polled hr hc hlt =>
    obtain ⟨rest, -, rfl, polled, hp⟩ := hr.eq
    refine ⟨_, rfl, ?_, htime⟩
    rw [h.deadline hp hl]
    exact hlt
  | expired hr hc hle =>
    rcases hserves with ⟨c, w, reply, h'⟩ | ⟨sync, now, reply, h'⟩ | ⟨c, hc⟩ | ⟨later, hlater, -⟩
    · cases h'
    · cases h'
    · simp [Event.answers] at hc
    · exact absurd ⟨later, hlater⟩ (not_unlocked_relock _)
  | @preempted u sync c deadlineMs future hr hc =>
    rcases hserves with ⟨c, w, reply, h'⟩ | ⟨sync, now, reply, h'⟩ | ⟨d, hd⟩ | ⟨later, hlater, -⟩
    · cases h'
    · cases h'
    · have hopen : preemption future.state.relock c.command = .state ⟨false⟩ := by
        simp only [Event.answers, List.mem_cons, Prod.mk.injEq, List.not_mem_nil, or_false] at hd
        rcases hd with ⟨-, hd⟩ | ⟨-, hd⟩
        · cases hd
        · exact hd.symm
      cases hcmd : c.command with
      | reportLifecycle event =>
        rw [hcmd] at hopen
        exact absurd (lockState_eq.mp (Reply.state.inj hopen)) (not_unlocked_relock _)
      | _ =>
        rw [hcmd] at hopen
        cases hopen
    · rw [core_after] at hlater
      exact absurd ⟨later, hlater⟩ (not_unlocked_relock _)
  | finished now hp => exact ⟨_, rfl, htime session hl⟩
  | failed now hp => exact ⟨_, rfl, htime session hl⟩
  | @dropped sync deadlineMs polled future hp hw hrx =>
    rcases hserves with ⟨c, w, reply, h'⟩ | ⟨sync, now, reply, h'⟩ | ⟨c, hc⟩ | ⟨later, hlater, hne⟩
    · cases h'
    · cases h'
    · simp [Event.answers] at hc
    · refine absurd (hkept ?_) hne
      rw [hp]
      exact hlater
  | @closed core hp hpop =>
    refine (hidle rfl (fun later hlater => hkept ?_)).elim
    rw [hp]
    exact hlater

/-- A reading that is not in time locks the vault. -/
theorem Guarded.locks {log : List (Event S)} {t u : Task S} {e : Event S} (h : Guarded E log t)
    (hstep : Step E cbor t e u) (htime : Timely log t e) {session : Session S}
    (hl : t.phase.core.lifecycle = .unlocked session) {now : I64} (hwake : e.wake = some now)
    (hlate : ¬ Live (sinceUnlock log) session.deadlineMs now) : ¬ u.phase.core.Unlocked := by
  cases hstep with
  | @woke u core c now' hp hpop =>
    cases hwake
    intro hu
    obtain ⟨later, hlater⟩ := hu
    obtain ⟨hopen, hback, hlive⟩ := lifecycle_checkDeadline hlater
    have hcore : t.phase.core = core := by rw [hp]; rfl
    rw [hcore, hopen] at hl
    cases hl
    exact hlate ⟨hlive, htime _ (hcore ▸ hopen) (hcore ▸ hback) hlive⟩
  | polled hr hc hlt =>
    cases hwake
    obtain ⟨rest, -, rfl, polled, hp⟩ := hr.eq
    refine absurd ⟨?_, htime⟩ hlate
    rw [h.deadline hp hl]
    exact hlt
  | expired hr hc hle => exact not_unlocked_relock _
  | finished now' hp =>
    cases hwake
    exact absurd (htime session hl) hlate
  | failed now' hp =>
    cases hwake
    exact absurd (htime session hl) hlate
  | _ => cases hwake

/-- What the condition leaves out is served all the same. -/
theorem Guarded.timely {log : List (Event S)} {t u : Task S} {e : Event S} (h : Guarded E log t)
    (hstep : Step E cbor t e u) (hv : Vigilant log t e u) : Timely log t e := by
  cases hstep with
  | @woke u core c now hp hpop =>
    intro session hl hback hlive
    have hcore : t.phase.core = core := by rw [hp]; rfl
    by_contra hearlier
    refine hv.locks session now hl rfl (fun hnow => hearlier hnow.2) ⟨session, ?_⟩
    exact checkDeadline_live (hcore ▸ hl) (hcore ▸ hback) hlive
  | reported hr hc =>
    obtain ⟨session, hl⟩ := h.unlocked hr
    obtain ⟨now, hnone, -⟩ := hv.serves session hl (.inr (.inr (.inl ⟨_, List.mem_singleton.mpr rfl⟩)))
    cases hnone
  | polled hr hc hlt =>
    obtain ⟨session, hl⟩ := h.unlocked hr
    obtain ⟨now, hnow, hlive⟩ := hv.serves session hl (.inr (.inr (.inl ⟨_, List.mem_singleton.mpr rfl⟩)))
    cases hnow
    exact hlive.2
  | finished now hp | failed now hp =>
    intro session hl
    obtain ⟨now', hnow, hlive⟩ := hv.serves session hl (.inr (.inl ⟨_, _, _, rfl⟩))
    cases hnow
    exact hlive
  | _ => trivial

/-- On every run whose steps are timely no expired session is served, and a step that is not timely serves one. -/
theorem no_expired_session_served (E : Externals) (cbor : Roster → Option Bytes) {log : List (Event S)} {t u : Task S}
    {e : Event S} (h : Run E cbor Timely log t) (hstep : Step E cbor t e u) :
    Vigilant log t e u ↔ Timely log t e := by
  have hguarded := h.guarded
  refine ⟨fun hv => hguarded.timely hstep hv, fun htime => ⟨fun c hc => hguarded.reports hstep hc, ?_, ?_⟩⟩
  · intro session hl hserves
    exact hguarded.serves hstep htime hl hserves
  · intro session now hl hwake hlate
    exact hguarded.locks hstep htime hl hwake hlate

end Run

/-! ## Worked instances -/

theorem timely_unlocked : Run (S := MemoryStore) (.sample [] []) (fun _ => none) Timely (unlocking 0 (I64.saturate 0))
    ⟨.idle (unlockedAt 0 0), [], [], 1⟩ := by
  refine Run.serve run_sample rfl rfl rfl (by simp) (sample_unlocks (I64.saturate 0) (I64.saturate 0)) trivial ?_ ?_
  · intro log u hu session hl
    rw [hu] at hl
    cases hl
  · intro log u hu
    trivial

/-- A poll that reads the deadline drops the sync it interrupts and locks the vault. -/
theorem no_expired_session_served_expired :
    Vigilant (unlocking 0 (I64.saturate 0) ++ [.sent ⟨1, .syncOnce⟩] ++ [.woke ⟨1, .syncOnce⟩ (I64.saturate 500)] ++
        [.began ⟨1, .syncOnce⟩] ++ [.sent ⟨2, .poll⟩])
      ⟨waitingAt 500, [⟨2, .poll⟩], [], 3⟩ (.expired ⟨1, .syncOnce⟩ ⟨2, .poll⟩ (I64.saturate 1000))
      ⟨.idle (sample (.locked MemoryStore.new) (I64.saturate 500)), [], [], 3⟩ ∧
    ¬ (sample (.locked MemoryStore.new) (I64.saturate 500)).Unlocked := by
  have hsyncing := @run_syncing Timely 500 timely_unlocked (by decide) (by decide) trivial (fun _ _ _ _ => by decide) trivial
  have hpoll := hsyncing.step (.sent .poll (by simp [waitingAt])) trivial
  have hreceived : Received ⟨waitingAt 500, [⟨2, .poll⟩], [], 3⟩ ⟨1, .syncOnce⟩ ⟨2, .poll⟩
      (sampleSession (I64.saturate 0)).deadlineMs (syncingAt 500) ⟨waitingAt 500, [], [], 3⟩ := .intro rfl (.inl rfl) rfl
  have hexpired : Step (.sample [] []) (fun _ => none) _
      (.expired ⟨1, .syncOnce⟩ ⟨2, .poll⟩ (I64.saturate 1000)) _ := .expired hreceived rfl (by decide)
  have hvigilant := (no_expired_session_served _ _ hpoll hexpired).mpr trivial
  refine ⟨hvigilant, hvigilant.locks (sampleSession (I64.saturate 0)) (I64.saturate 1000) rfl rfl ?_⟩
  intro hlive
  exact absurd hlive.1 (by decide)

/-- A poll that finds the clock run backwards is told the vault is open. -/
theorem poll_misses_backwards_clock : ∃ (log : List (Event MemoryStore)) (t u : Task MemoryStore) (c : Sent)
    (session : Session MemoryStore) (earlier now : I64), Run (.sample [] []) (fun _ => none) (fun _ _ _ => True) log t ∧
      Step (.sample [] []) (fun _ => none) t (.polled c now) u ∧ t.phase.core.lifecycle = .unlocked session ∧
      earlier ∈ sinceUnlock log ∧ now.val < earlier.val ∧ u.phase.core.Unlocked ∧
      ¬ Vigilant log t (.polled c now) u := by
  have hsyncing := @run_syncing (fun _ _ _ => True) 500 (run_unlocked (fun _ _ _ _ => trivial)) (by decide) (by decide)
    trivial trivial trivial
  -- a poll reads 100 after 500
  have hpoll := hsyncing.step (.sent .poll (by simp [waitingAt])) trivial
  have hreceived : Received ⟨waitingAt 500, [⟨2, .poll⟩], [], 3⟩ ⟨1, .syncOnce⟩ ⟨2, .poll⟩
      (sampleSession (I64.saturate 0)).deadlineMs (syncingAt 500) ⟨waitingAt 500, [], [], 3⟩ := .intro rfl (.inl rfl) rfl
  have hpolled : Step (.sample [] []) (fun _ => none) _ (.polled ⟨2, .poll⟩ (I64.saturate 100)) _ :=
    .polled hreceived rfl (by decide)
  have hmem : I64.saturate 500 ∈ sinceUnlock (S := MemoryStore) (unlocking 0 (I64.saturate 0) ++ [.sent ⟨1, .syncOnce⟩] ++
      [.woke ⟨1, .syncOnce⟩ (I64.saturate 500)] ++ [.began ⟨1, .syncOnce⟩] ++ [.sent ⟨2, .poll⟩]) := by
    simp only [sinceUnlock_append, Event.unlocks, Event.readings]
    simp
  refine ⟨_, _, _, _, sampleSession (I64.saturate 0), I64.saturate 500, _, hpoll, hpolled, rfl, hmem, by decide,
    ⟨sampleSession (I64.saturate 0), rfl⟩, fun hv => ?_⟩
  refine hv.locks (sampleSession (I64.saturate 0)) (I64.saturate 100) rfl rfl ?_ ⟨sampleSession (I64.saturate 0), rfl⟩
  intro hlive
  exact absurd (hlive.2 (I64.saturate 500) hmem) (by decide)

end Core

end Misty
