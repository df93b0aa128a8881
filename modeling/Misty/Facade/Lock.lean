import Misty.Facade.Task

/- A lock is final until a later unlock. Commands run out of the order they were sent
   in: a lock takes effect while others wait behind the sync it dropped. What keeps the
   vault locked is that none of those is an unlock and that all left on the channel was
   sent later (`Barred`). -/
namespace Misty

namespace Core

variable {S : Type}

/-- The commands that read or write the vault, or generate a code. -/
def Command.usesVault : Command → Bool
  | unlock _ | lock | lockStatus | poll | reportLifecycle _ | shutdown => false
  | _ => true

def Command.isUnlock : Command → Bool
  | unlock _ => true
  | _ => false

/-- What a command reads before it looks at the vault is readable. -/
def Command.wellFormed (toLowercase : Text → Text) : Command → Bool
  | get id | item id | generateCode id | trashItem id | restoreItem id | deleteItem id | recordUse id
  | repairSecret id _ | advanceHotpCounter id | setHotpCounter id _ => (parseItemId id).isOk
  | group id | deleteGroup id => (parseGroupId id).isOk
  | add input => (buildNewItem toLowercase input).isOk
  | mergeDuplicate existing input => (parseItemId existing).isOk && (buildNewItem toLowercase input).isOk
  | update id edit => (parseItemId id).isOk && (buildEdit edit).isOk
  | revokeDevice deviceId => (parseDeviceId deviceId).isOk
  | approveEnrollment enrollId _ _ _ => (parseEnrollId enrollId).isOk
  | _ => true

/-- An enrollment that was asked for is pending. -/
def Transcript.Pending (w : Transcript S) : Prop :=
  ∀ (enrollId : EnrollId) (a : Except SyncError (Option EnrollmentRequest)),
    (⟨.outside (.fetch enrollId), a⟩ : (q : Ask S) × q.Answer) ∈ w →
      ∃ request, a = .ok (some request) ∧ request.enrollId = enrollId

/-- After the answer to a lock, a command that uses the vault is told it is locked, unless an unlock that was sent
after the lock has succeeded in between. -/
def LockHolds (answers : List (Sent × Reply)) : Prop :=
  ∀ l₁ s r l₂ c r' l₃, answers = l₁ ++ (s, r) :: l₂ ++ (c, r') :: l₃ → s.command.preempts = true →
    c.command.usesVault = true → r' = .result (.error .locked) ∨
      ∃ u ∈ l₂, u.1.command.isUnlock = true ∧ u.2 = .result (.ok ()) ∧ s.ticket < u.1.ticket

/-- A lock that drops a sync finds no unlock put off behind it, and what is asked of a locked vault is readable. -/
def Orderly (E : Externals) (_ : List (Event S)) (t : Task S) : Event S → Prop
  | .preempted _ _ _ => ∀ c ∈ t.deferred, c.command.isUnlock = false
  | .served c w _ => c.command.usesVault = true → ¬ t.phase.core.Unlocked → c.command.wellFormed E.toLowercase = true ∧ w.Pending
  | _ => True

/-! ## A locked core -/

section Locked

variable {core : Core S} {α : Type}

/-- The first thing a locked core says to one who wants the vault. -/
theorem session_locked (h : ¬ core.Unlocked) : (session : Act S (Session S)) core = .error FacadeError.locked core := by
  refine (Prog.bind_of_ok rfl).trans ?_
  cases hl : core.lifecycle with
  | unlocked session => exact absurd ⟨session, hl⟩ h
  | locked store => rfl
  | poisoned => rfl

theorem reading_locked (h : ¬ core.Unlocked) (f : Vault S → Result α) :
    reading f core = .error FacadeError.locked core := Prog.bind_of_error (session_locked h)

theorem asking_locked (h : ¬ core.Unlocked) (x : Ambient → Io (Vault S) α) :
    asking x core = .error FacadeError.locked core := Prog.bind_of_error (session_locked h)

theorem calling_locked (h : ¬ core.Unlocked) (x : Ambient → Io (Vault S) α) :
    calling x core = .error FacadeError.locked core := Prog.bind_of_error (asking_locked h x)

theorem reads_locked (h : ¬ core.Unlocked) (f : Vault S → Result Unit) :
    reads f core = .error FacadeError.locked core := Prog.bind_of_error (reading_locked h f)

theorem writes_locked (h : ¬ core.Unlocked) (x : Ambient → Io (Vault S) α) :
    writes x core = .error FacadeError.locked core := Prog.bind_of_error (calling_locked h x)

theorem parsed_locked {β : Type} {r : Except FacadeError α} (hr : r.isOk = true) {f : α → Act S β}
    (hf : ∀ a, f a core = .error FacadeError.locked core) :
    (Prog.ofExcept r >>= f) core = .error FacadeError.locked core := by
  cases r with
  | ok a => exact (Prog.bind_of_ok rfl).trans (hf a)
  | error e => cases hr

theorem writesItem_locked (h : ¬ core.Unlocked) {id : Text} (hid : (parseItemId id).isOk = true)
    (x : ItemId → Ambient → Io (Vault S) α) : writesItem id x core = .error FacadeError.locked core :=
  parsed_locked hid (fun iid => writes_locked h (x iid))

theorem replying_locked {x : Act S Unit} (hx : x core = .error FacadeError.locked core) :
    replying x core = .ok (.result (.error .locked)) core :=
  Prog.bind_of_ok (Prog.attempt_of_error hx)

end Locked

/-! ## Answers of a locked core -/

section Answers

variable [VaultStore S] {E : Externals} {cbor : Roster → Option Bytes} {core core' : Core S} {c : Command}
  {w : Transcript S} {reply : Reply}

/-- A command that uses the vault, and calls nothing before it asks for it. -/
theorem answer_locked (h : ¬ core.Unlocked) (huses : c.usesVault = true) (hformed : c.wellFormed E.toLowercase = true)
    (hfetch : ∀ eid code url at', c ≠ .approveEnrollment eid code url at') :
    answer E cbor c core = .ok (.result (.error .locked)) core := by
  cases c with
  | unlock _ | lock | lockStatus | poll | reportLifecycle _ | shutdown => cases huses
  | approveEnrollment eid code url at' => exact absurd rfl (hfetch eid code url at')
  | syncOnce => rfl
  | list | search _ | sorted _ | trash | groups | conflicts => exact replying_locked (reads_locked h _)
  | get id | item id => exact replying_locked (parsed_locked hformed fun iid => reads_locked h _)
  | generateCode id =>
    exact replying_locked (parsed_locked hformed fun iid => Prog.bind_of_error (reading_locked h _))
  | group id => exact replying_locked (parsed_locked hformed fun gid => reads_locked h _)
  | add input => exact replying_locked (parsed_locked hformed fun new => writes_locked h _)
  | deleteGroup id => exact replying_locked (parsed_locked hformed fun gid => writes_locked h _)
  | addGroup _ | sweepTrash | purgeTombstones => exact replying_locked (writes_locked h _)
  | trashItem _ | restoreItem _ | deleteItem _ | recordUse _ | repairSecret _ _ | advanceHotpCounter _
  | setHotpCounter _ _ => exact replying_locked (writesItem_locked h hformed _)
  | mergeDuplicate existing input =>
    obtain ⟨hid, hinput⟩ := Bool.and_eq_true_iff.mp hformed
    exact replying_locked (parsed_locked hid fun iid => parsed_locked hinput fun new => writes_locked h _)
  | update id edit =>
    obtain ⟨hid, hedit⟩ := Bool.and_eq_true_iff.mp hformed
    exact replying_locked (parsed_locked hid fun iid => parsed_locked hedit fun built =>
      Prog.bind_of_error (calling_locked h _))
  | revokeDevice deviceId =>
    exact replying_locked (parsed_locked hformed fun revoked => Prog.bind_of_error (session_locked h))

theorem fetchApproval_eq (eid : EnrollId) (s : Facade) :
    fetchApproval eid s = .call (.fetch eid) s (fun a : Except SyncError (Option EnrollmentRequest) => match a with
      | .error e => .error (.sync e) s
      | .ok none => .ok none s
      | .ok (some request) =>
        if request.enrollId = eid then .ok (some request) s else .error (.sync (.crypto .enrollIdMismatch)) s) := by
  show Calls.call (FacadeQuery.fetch eid) s _ = Calls.call (FacadeQuery.fetch eid) s _
  congr 1
  funext a
  change Except SyncError (Option EnrollmentRequest) at a
  cases a with
  | error e => rfl
  | ok r =>
    cases r with
    | none => rfl
    | some request =>
      by_cases hid : request.enrollId = eid
      · simp only [if_pos hid]
        show (if request.enrollId ≠ eid then
          ((throw (FacadeError.sync (.crypto .enrollIdMismatch)) : Misty.Command PUnit) >>= fun _ => pure (some request))
          else (pure (some request) : Misty.Command (Option EnrollmentRequest))) s = _
        rw [if_neg (not_not.mpr hid)]
        rfl
      · simp only [if_neg hid]
        show (if request.enrollId ≠ eid then
          ((throw (FacadeError.sync (.crypto .enrollIdMismatch)) : Misty.Command PUnit) >>= fun _ => pure (some request))
          else (pure (some request) : Misty.Command (Option EnrollmentRequest))) s = _
        rw [if_pos hid]
        rfl

/-- A fetch gives a request when the one asked for is pending, and leaves the vault alone. -/
theorem fetch_ensures (eid : EnrollId) (core : Core S) (w : Transcript S) :
    (onFacade E (fetchApproval eid)).Ensures Eq (Hears E) (fun _ _ _ => True) core w
      (fun r core' w' => core'.lifecycle = core.lifecycle ∧ (w'.Pending → r.isSome))
      (fun _ core' w' => core'.lifecycle = core.lifecycle ∧ ¬ w'.Pending) := by
  show Calls.Ensures Eq _ _ _ _ (Calls.handle (answering E) _ (fetchApproval eid core.facade) core) w
  rw [fetchApproval_eq]
  refine ⟨trivial, fun w₁ a w₂ hw ht => ?_⟩
  subst hw
  obtain ⟨-, hw₂⟩ := ht
  have hmem : (⟨.outside (.fetch eid), a⟩ : (q : Ask S) × q.Answer) ∈ w₂ := by simp [hw₂]
  change Except SyncError (Option EnrollmentRequest) at a
  cases a with
  | error e =>
    refine ⟨rfl, fun hp => ?_⟩
    obtain ⟨request, hr, -⟩ := hp eid _ hmem
    cases hr
  | ok r =>
    cases r with
    | none =>
      refine ⟨rfl, fun hp => ?_⟩
      obtain ⟨request, hr, -⟩ := hp eid _ hmem
      cases hr
    | some request =>
      show Calls.Ensures Eq (Hears E) _ _ _ (Calls.handle (answering E) _
        (if request.enrollId = eid then Calls.ok (some request) core.facade
          else Calls.error (.sync (.crypto .enrollIdMismatch)) core.facade) _) w₂
      by_cases hid : request.enrollId = eid
      · rw [if_pos hid]
        exact ⟨rfl, fun _ => rfl⟩
      · rw [if_neg hid]
        refine ⟨rfl, fun hp => ?_⟩
        obtain ⟨request', hr, hid'⟩ := hp eid _ hmem
        cases hr
        exact hid hid'

theorem approve_locked (h : ¬ core.Unlocked) {eid code url : Text} {at' : I64} (hformed : (parseEnrollId eid).isOk = true) :
    (doApproveEnrollment E cbor eid code url at').Ensures Eq (Hears E) (fun _ _ _ => True) core []
      (fun _ _ w => ¬ w.Pending) (fun e core' w => ¬ core'.Unlocked ∧ (w.Pending → e = .locked)) := by
  have hfetched : ∀ {s' : Core S}, s'.lifecycle = core.lifecycle → ¬ s'.Unlocked := by
    intro s' hs hu
    obtain ⟨session, hu⟩ := hu
    exact h ⟨session, hs ▸ hu⟩
  apply Prog.Ensures.bind
  apply Prog.Ensures.ofExcept
  · intro eid' _
    apply Prog.Ensures.bind
    apply (fetch_ensures ⟨eid'⟩ core []).mono
    · intro r s' w' hr
      obtain ⟨hs, hp⟩ := hr
      cases r with
      | none => exact ⟨hfetched hs, fun hpend => absurd (hp hpend) (by simp)⟩
      | some approval =>
        show Calls.Ensures _ _ _ _ _ (((session : Act S (Session S)) >>= _) s') w'
        rw [Prog.bind_of_error (session_locked (hfetched hs))]
        exact ⟨hfetched hs, fun _ => rfl⟩
    · intro e s' w' hr
      exact ⟨hfetched hr.1, fun hpend => absurd hpend hr.2⟩
  · intro e he
    rw [he] at hformed
    cases hformed

theorem unlock_locked (h : ¬ core.Unlocked) (keyMaterial : Bytes) (w : Transcript S) :
    (unlock keyMaterial).Ensures Eq (Hears E) (fun _ _ _ => True) core w (fun _ _ _ => True)
      (fun _ core' _ => ¬ core'.Unlocked) := by
  apply Prog.Ensures.bind
  apply Prog.Ensures.get
  cases hl : core.lifecycle with
  | unlocked session => exact absurd ⟨session, hl⟩ h
  | poisoned => exact h
  | locked store =>
    by_cases hk : keyMaterial.length = 32
    · simp only [dif_pos hk]
      apply Prog.Ensures.bind
      apply Prog.Ensures.bind
      apply Prog.Ensures.get
      apply Prog.Ensures.bind
      apply Prog.Ensures.call trivial
      intro w₁ opened w₂ _ _
      apply Prog.Ensures.ofExcept
      · intro vault _
        apply Prog.Ensures.bind
        apply Prog.Ensures.call trivial
        intro w₃ now w₄ _ _
        exact trivial
      · intro e _
        exact h
    · simp only [dif_neg hk]
      exact h

/-- The commands that neither use the vault nor unlock it leave it locked. -/
theorem calm_locked (h : ¬ core.Unlocked) (huses : c.usesVault = false) (hunlock : c.isUnlock = false) :
    (answer E cbor c).Ensures Eq (Hears E) (fun _ _ _ => True) core [] (fun _ s _ => ¬ s.Unlocked)
      (fun _ _ _ => True) := by
  cases c with
  | unlock _ => cases hunlock
  | lock => exact not_unlocked_relock core
  | lockStatus | poll | shutdown => exact h
  | reportLifecycle event =>
    cases event with
    | backgrounded | screenLocked | willSleep => exact not_unlocked_relock core
    | userActivity =>
      apply Prog.Ensures.bind
      apply Prog.Ensures.bind
      apply Prog.Ensures.call trivial
      intro w₁ now w₂ _ _
      exact mt unlocked_extendDeadline.mp h
  | _ => cases huses

/-- What a locked core answers, and how it can come to be unlocked. -/
theorem served_locked (h : ¬ core.Unlocked) (hrun : Runs E (answer E cbor c) core w (.ok reply core'))
    (hformed : c.usesVault = true → c.wellFormed E.toLowercase = true ∧ w.Pending) :
    (c.usesVault = true → reply = .result (.error .locked)) ∧
      (core'.Unlocked → c.isUnlock = true ∧ reply = .result (.ok ())) := by
  by_cases huses : c.usesVault = true
  · obtain ⟨hformed, hpending⟩ := hformed huses
    have hend : reply = .result (.error .locked) ∧ ¬ core'.Unlocked := by
      -- only the approval asks the network before it looks at the vault
      by_cases hfetch : ∀ eid code url at', c ≠ .approveEnrollment eid code url at'
      · unfold Runs at hrun
        rw [answer_locked h huses hformed hfetch] at hrun
        have hen : (Calls.ok (Reply.result (.error .locked)) core : Steps S Reply).Ensures Eq (Hears E)
            (fun _ _ _ => True) (fun r s _ => r = .result (.error .locked) ∧ s = core) (fun _ _ _ => True) [] := ⟨rfl, rfl⟩
        obtain ⟨hreply, hcore⟩ := hen.ran hrun
        exact ⟨hreply, hcore ▸ h⟩
      · push Not at hfetch
        obtain ⟨eid, code, url, at', rfl⟩ := hfetch
        have hen : (replying (doApproveEnrollment E cbor eid code url at')).Ensures Eq (Hears E) (fun _ _ _ => True) core []
            (fun r s w => w.Pending → r = .result (.error .locked) ∧ ¬ s.Unlocked) (fun _ _ _ => True) := by
          apply Prog.Ensures.bind
          apply Prog.Ensures.attempt
          apply (approve_locked h hformed).mono
          · intro _ s w hw hpend
            exact absurd hpend hw
          · intro e s w hw hpend
            rw [hw.2 hpend]
            exact ⟨rfl, hw.1⟩
        exact hen.ran hrun hpending
    exact ⟨fun _ => hend.1, fun hu => absurd hu hend.2⟩
  · refine ⟨fun hu => absurd hu huses, ?_⟩
    cases c with
    -- the one command that opens a locked core
    | unlock keyMaterial =>
      have hen : (replying (unlock keyMaterial)).Ensures Eq (Hears E) (fun _ _ _ => True) core []
          (fun r s _ => s.Unlocked → r = .result (.ok ())) (fun _ _ _ => True) := by
        apply Prog.Ensures.bind
        apply Prog.Ensures.attempt
        apply (unlock_locked h keyMaterial []).mono
        · intro a s w _ _
          rfl
        · intro e s w hs hu
          exact absurd hu hs
      intro hu
      exact ⟨rfl, hen.ran hrun hu⟩
    | lock | lockStatus | poll | shutdown | reportLifecycle _ =>
      intro hu
      exact absurd hu ((calm_locked h rfl rfl).ran hrun)
    | _ => exact absurd rfl huses

end Answers

/-! ## The order of the queues -/

/-- What is on the channel was sent after all that was taken from it, and only what defers is put off. -/
structure Ordered (t : Task S) : Prop where
  rx : t.rx.Pairwise (fun c d => c.ticket < d.ticket)
  next : ∀ c ∈ t.rx, c.ticket < t.next
  queues : ∀ d ∈ t.deferred, ∀ c ∈ t.rx, d.ticket < c.ticket
  past : ∀ d ∈ t.deferred, d.ticket < t.next
  defers : ∀ d ∈ t.deferred, d.command.defers = true
  taken : ∀ c core, t.phase = .taken c core → c.ticket < t.next ∧ (∀ d ∈ t.rx, c.ticket < d.ticket) ∧
    (c.command.preempts = true → t.deferred = [])
  syncing : ∀ c deadlineMs polled sync, t.phase = .syncing c deadlineMs polled sync → c.command = .syncOnce

theorem preempts_of_defers {c : Command} (h : c.defers = true) : c.preempts = false := by
  cases c with
  | lockStatus | poll => cases h
  | _ => simpa [Command.defers] using h

theorem Task.pop_eq {t u : Task S} {c : Sent} (h : t.pop = some (c, u)) :
    (∃ rest, t.deferred = c :: rest ∧ u = { t with deferred := rest }) ∨
      t.deferred = [] ∧ ∃ rest, t.rx = c :: rest ∧ u = { t with rx := rest } := by
  unfold pop at h
  split at h
  · next c' rest hd =>
    cases h
    exact .inl ⟨rest, hd, rfl⟩
  · next hd =>
    split at h
    · next c' rest hr =>
      cases h
      exact .inr ⟨hd, rest, hr, rfl⟩
    · cases h

theorem Received.eq {t u : Task S} {sync c : Sent} {deadlineMs : I64} {future : Steps S SyncReport}
    (h : Received t sync c deadlineMs future u) :
    ∃ rest, t.rx = c :: rest ∧ u = { t with rx := rest } ∧ ∃ polled, t.phase = .syncing sync deadlineMs polled future := by
  cases h with
  | intro hp _ hr => exact ⟨_, hr, rfl, _, hp⟩

theorem not_taken_after (c : Command) (core : Core S) (d : Sent) (core' : Core S) :
    Phase.after c core ≠ .taken d core' := by
  unfold Phase.after
  split <;> simp

theorem not_syncing_after (c : Command) (core : Core S) (d : Sent) (deadlineMs : I64) (polled : Bool)
    (sync : Steps S SyncReport) : Phase.after c core ≠ .syncing d deadlineMs polled sync := by
  unfold Phase.after
  split <;> simp

theorem Ordered.after {t : Task S} (h : Ordered t) (c : Command) (core : Core S) :
    Ordered { t with phase := .after c core } :=
  ⟨h.rx, h.next, h.queues, h.past, h.defers, fun d core' hd => absurd hd (not_taken_after c core d core'),
    fun d dl p sy hd => absurd hd (not_syncing_after c core d dl p sy)⟩

theorem Ordered.untaken {t : Task S} (h : Ordered t) {phase : Phase S} (hp : ∀ c core, phase ≠ .taken c core)
    (hs : ∀ c deadlineMs polled sync, phase = .syncing c deadlineMs polled sync → c.command = .syncOnce) :
    Ordered { t with phase := phase } :=
  ⟨h.rx, h.next, h.queues, h.past, h.defers, fun c core hc => absurd hc (hp c core), hs⟩

theorem Ordered.received {t u : Task S} (h : Ordered t) {sync c : Sent} {deadlineMs : I64}
    {future : Steps S SyncReport} (hr : Received t sync c deadlineMs future u) :
    Ordered u ∧ c.ticket < u.next ∧ (∀ d ∈ u.rx, c.ticket < d.ticket) ∧ u.deferred = t.deferred := by
  obtain ⟨rest, hrx, rfl, polled, hphase⟩ := hr.eq
  have hpair := h.rx
  have hnext := h.next
  have hqueues := h.queues
  rw [hrx] at hpair hnext hqueues
  obtain ⟨hhead, htail⟩ := List.pairwise_cons.mp hpair
  refine ⟨⟨htail, fun d hd => hnext d (by simp [hd]), fun d hd e he => hqueues d hd e (by simp [he]), h.past,
    h.defers, ?_, h.syncing⟩, hnext c (by simp), hhead, rfl⟩
  intro d core hd
  rw [hphase] at hd
  cases hd

section Run

variable [VaultStore S] {E : Externals} {cbor : Roster → Option Bytes}

theorem Step.ordered {t u : Task S} {e : Event S} (h : Step E cbor t e u) (ht : Ordered t) : Ordered u := by
  cases h with
  | sent c hp =>
    -- the new command has the greatest ticket
    refine ⟨?_, ?_, ?_, ?_, ht.defers, ?_, ht.syncing⟩
    · refine List.pairwise_append.mpr ⟨ht.rx, by simp, ?_⟩
      intro a ha b hb
      obtain rfl := List.mem_singleton.mp hb
      exact ht.next a ha
    · intro d hd
      rcases List.mem_append.mp hd with hd | hd
      · exact Nat.lt_succ_of_lt (ht.next d hd)
      · obtain rfl := List.mem_singleton.mp hd
        exact Nat.lt_succ_self _
    · intro d hd e he
      rcases List.mem_append.mp he with he | he
      · exact ht.queues d hd e he
      · obtain rfl := List.mem_singleton.mp he
        exact ht.past d hd
    · intro d hd
      exact Nat.lt_succ_of_lt (ht.past d hd)
    · intro d core hd
      obtain ⟨hlt, hrx, hdef⟩ := ht.taken d core hd
      refine ⟨Nat.lt_succ_of_lt hlt, ?_, hdef⟩
      intro e he
      rcases List.mem_append.mp he with he | he
      · exact hrx e he
      · obtain rfl := List.mem_singleton.mp he
        exact hlt
  | @woke u core c now hp hpop =>
    rcases Task.pop_eq hpop with ⟨rest, hdef, rfl⟩ | ⟨hdef, rest, hrx, rfl⟩
    · -- a deferred one, which is no lock
      have hqueues := ht.queues
      have hpast := ht.past
      have hdefers := ht.defers
      rw [hdef] at hqueues hpast hdefers
      refine ⟨ht.rx, ht.next, fun d hd => hqueues d (by simp [hd]), fun d hd => hpast d (by simp [hd]),
        fun d hd => hdefers d (by simp [hd]), ?_, by simp⟩
      intro d core' hd
      cases hd
      refine ⟨hpast c (by simp), hqueues c (by simp), fun hc => ?_⟩
      exact absurd hc (by simpa using preempts_of_defers (hdefers c (by simp)))
    · have hpair := ht.rx
      have hnext := ht.next
      rw [hrx] at hpair hnext
      obtain ⟨hhead, htail⟩ := List.pairwise_cons.mp hpair
      refine ⟨htail, fun d hd => hnext d (by simp [hd]), by simp [hdef], by simp [hdef], by simp [hdef], ?_, by simp⟩
      intro d core' hd
      cases hd
      exact ⟨hnext c (by simp), hhead, fun _ => hdef⟩
  | served hp hsync hrun => exact ht.after _ _
  | began hp hc hl =>
    refine ht.untaken (by simp) ?_
    intro d deadlineMs polled sync hd
    cases hd
    exact hc
  | progressed hp ha =>
    refine ht.untaken (by simp) ?_
    intro d deadlineMs polled sync hd
    cases hd
    exact ht.syncing _ _ _ _ hp
  | @deferred u sync c deadlineMs future hr hc =>
    obtain ⟨hu, hnext, hhead, hdef⟩ := ht.received hr
    obtain ⟨rest, -, rfl, polled, hphase⟩ := hr.eq
    refine ⟨hu.rx, hu.next, ?_, ?_, ?_, ?_, ht.syncing⟩
    · intro d hd e he
      rcases List.mem_append.mp hd with hd | hd
      · exact hu.queues d hd e he
      · obtain rfl := List.mem_singleton.mp hd
        exact hhead e he
    · intro d hd
      rcases List.mem_append.mp hd with hd | hd
      · exact hu.past d hd
      · obtain rfl := List.mem_singleton.mp hd
        exact hnext
    · intro d hd
      rcases List.mem_append.mp hd with hd | hd
      · exact hu.defers d hd
      · obtain rfl := List.mem_singleton.mp hd
        exact hc
    · intro d core hd
      rw [hphase] at hd
      cases hd
  | reported hr hc => exact (ht.received hr).1
  | polled hr hc hlt => exact (ht.received hr).1
  | expired hr hc hlt => exact (ht.received hr).1.untaken (by simp) (by simp)
  | preempted hr hc => exact (ht.received hr).1.after _ _
  | finished now hp => exact ht.untaken (by simp) (by simp)
  | failed now hp => exact ht.untaken (by simp) (by simp)
  | dropped hp hw hrx => exact ht.untaken (by simp) (by simp)
  | closed hp hpop => exact ht.untaken (by simp) (by simp)

/-! ## Barred -/

omit [VaultStore S] in
/-- Nothing can unlock the vault but an unlock with a later ticket: it is locked, what was put off holds no unlock, and
what is on the channel was sent later. -/
def Barred (k : Nat) (t : Task S) : Prop :=
  match t.phase with
  | .idle core => ¬ core.Unlocked ∧ (∀ d ∈ t.deferred, d.command.isUnlock = false) ∧ ∀ d ∈ t.rx, k < d.ticket
  | .taken c core => (¬ core.Unlocked ∧ (∀ d ∈ t.deferred, d.command.isUnlock = false) ∧ ∀ d ∈ t.rx, k < d.ticket) ∧
      (c.command.isUnlock = true → k < c.ticket)
  | .syncing _ _ _ _ => False
  | .stopped _ => True

omit [VaultStore S] in
theorem barred_after {k : Nat} {t : Task S} {c : Command} {core : Core S} (hcore : ¬ core.Unlocked)
    (hdef : ∀ d ∈ t.deferred, d.command.isUnlock = false) (hrx : ∀ d ∈ t.rx, k < d.ticket) :
    Barred k { t with phase := .after c core } := by
  unfold Phase.after
  split
  · exact trivial
  · exact ⟨hcore, hdef, hrx⟩

omit [VaultStore S] in
theorem Barred.not_syncing {k : Nat} {t : Task S} (h : Barred k t) {c : Sent} {deadlineMs : I64} {polled : Bool}
    {sync : Steps S SyncReport} (hp : t.phase = .syncing c deadlineMs polled sync) : False := by
  unfold Barred at h
  rw [hp] at h
  exact h

omit [VaultStore S] in
theorem Barred.not_received {k : Nat} {t u : Task S} (h : Barred k t) {sync c : Sent} {deadlineMs : I64}
    {future : Steps S SyncReport} (hr : Received t sync c deadlineMs future u) : False := by
  obtain ⟨rest, -, -, polled, hp⟩ := hr.eq
  exact h.not_syncing hp

/-- A barred task answers that it is locked, and stays barred until a later unlock succeeds. -/
theorem Barred.step {k : Nat} {t u : Task S} {e : Event S} (hb : Barred k t) (hnext : k < t.next)
    (h : Step E cbor t e u) {log : List (Event S)} (hord : Orderly E log t e) :
    (Barred k u ∨ ∃ a ∈ e.answers, a.1.command.isUnlock = true ∧ a.2 = .result (.ok ()) ∧ k < a.1.ticket) ∧
      ∀ a ∈ e.answers, a.1.command.usesVault = true → a.2 = .result (.error .locked) := by
  cases h with
  | sent c hp =>
    refine ⟨.inl ?_, by simp [Event.answers]⟩
    have hrx : (∀ d ∈ t.rx, k < d.ticket) → ∀ d ∈ t.rx ++ [⟨t.next, c⟩], k < d.ticket := by
      intro h d hd
      rcases List.mem_append.mp hd with hd | hd
      · exact h d hd
      · obtain rfl := List.mem_singleton.mp hd
        exact hnext
    cases hphase : t.phase with
    | idle core =>
      unfold Barred at hb ⊢
      simp only [hphase] at hb ⊢
      exact ⟨hb.1, hb.2.1, hrx hb.2.2⟩
    | taken d core =>
      unfold Barred at hb ⊢
      simp only [hphase] at hb ⊢
      exact ⟨⟨hb.1.1, hb.1.2.1, hrx hb.1.2.2⟩, hb.2⟩
    | syncing d deadlineMs polled sync => exact (hb.not_syncing hphase).elim
    | stopped core => exact absurd hphase (hp core)
  | @woke u core c now hp hpop =>
    refine ⟨.inl ?_, by simp [Event.answers]⟩
    unfold Barred at hb
    rw [hp] at hb
    obtain ⟨hcore, hdef, hrx⟩ := hb
    -- checking the deadline locks or leaves alone, it never unlocks
    have hchecked : ¬ (core.checkDeadline now).Unlocked := by
      intro hu
      obtain ⟨session, hu⟩ := hu
      exact hcore ⟨session, (lifecycle_checkDeadline hu).1⟩
    -- deferred commands come first, and none of them unlocks
    rcases Task.pop_eq hpop with ⟨rest, heq, rfl⟩ | ⟨heq, rest, heq', rfl⟩
    · rw [heq] at hdef
      refine ⟨⟨hchecked, fun d hd => hdef d (by simp [hd]), hrx⟩, fun hc => ?_⟩
      rw [hdef c (by simp)] at hc
      cases hc
    · rw [heq'] at hrx
      exact ⟨⟨hchecked, hdef, fun d hd => hrx d (by simp [hd])⟩, fun _ => hrx c (by simp)⟩
  | @served core core' c w reply hp hsync hrun =>
    unfold Barred at hb
    rw [hp] at hb
    obtain ⟨⟨hcore, hdef, hrx⟩, hlater⟩ := hb
    have hcond : c.command.usesVault = true → c.command.wellFormed E.toLowercase = true ∧ w.Pending := by
      intro huses
      refine hord huses ?_
      rw [hp]
      exact hcore
    obtain ⟨hreply, hopen⟩ := served_locked hcore hrun hcond
    refine ⟨?_, ?_⟩
    · by_cases hu : core'.Unlocked
      · obtain ⟨hunlock, hok⟩ := hopen hu
        exact .inr ⟨(c, reply), by simp [Event.answers], hunlock, hok, hlater hunlock⟩
      · exact .inl (barred_after hu hdef hrx)
    · intro a ha huses
      obtain rfl := List.mem_singleton.mp ha
      exact hreply huses
  | @began core c session hp hc hl =>
    unfold Barred at hb
    rw [hp] at hb
    exact absurd ⟨session, hl⟩ hb.1.1
  | closed hp hpop => exact ⟨.inl trivial, by simp [Event.answers]⟩
  | progressed hp _ | finished _ hp | failed _ hp | dropped hp _ _ => exact (hb.not_syncing hp).elim
  | deferred hr _ | reported hr _ | polled hr _ _ | expired hr _ _ | preempted hr _ => exact (hb.not_received hr).elim

omit [VaultStore S] in
theorem Ordered.sync_not_lock {t : Task S} (h : Ordered t) {sync : Sent} {deadlineMs : I64} {polled : Bool}
    {future : Steps S SyncReport} (hp : t.phase = .syncing sync deadlineMs polled future) :
    sync.command.preempts = false := by
  rw [h.syncing _ _ _ _ hp]
  rfl

theorem not_unlocked_of_lock {core core' : Core S} {c : Command} {w : Transcript S} {reply : Reply}
    (hc : c.preempts = true) (hs : c.isShutdown = false) (hrun : Runs E (answer E cbor c) core w (.ok reply core')) :
    ¬ core'.Unlocked := by
  have hen : (answer E cbor c).Ensures Eq (Hears E) (fun _ _ _ => True) core [] (fun _ s _ => ¬ s.Unlocked)
      (fun _ _ _ => True) := by
    cases c with
    | lock => exact not_unlocked_relock core
    | shutdown => cases hs
    | reportLifecycle event =>
      cases event with
      | userActivity => cases hc
      | backgrounded | screenLocked | willSleep => exact not_unlocked_relock core
    | _ => cases hc
  exact hen.ran hrun

/-- A lock that is answered bars the task, and is the last an event answers. -/
theorem barred_of_lock {t u : Task S} {e : Event S} (ht : Ordered t) (h : Step E cbor t e u) {log : List (Event S)}
    (hord : Orderly E log t e) {l₁ l₂ : List (Sent × Reply)} {c : Sent} {r : Reply} (he : e.answers = l₁ ++ (c, r) :: l₂)
    (hc : c.command.preempts = true) : Barred c.ticket u ∧ c.ticket < u.next ∧ l₂ = [] := by
  -- an event answers at most two commands, the second of them the one that dropped a sync
  have hone : ∀ {a : Sent × Reply} {l : List (Sent × Reply)}, [a] = l ++ (c, r) :: l₂ → a = (c, r) ∧ l₂ = [] := by
    intro a l ha
    cases l with
    | nil => simpa using ha
    | cons b l => simp at ha
  have htwo : ∀ {a b : Sent × Reply}, a.1.command.preempts = false → [a, b] = l₁ ++ (c, r) :: l₂ → b = (c, r) ∧ l₂ = [] := by
    intro a b ha hab
    cases l₁ with
    | nil =>
      cases hab
      rw [ha] at hc
      cases hc
    | cons d l =>
      obtain ⟨-, hb⟩ := List.cons.inj hab
      exact hone hb
  cases h with
  | sent _ _ | woke _ _ _ | began _ _ _ | progressed _ _ | deferred _ _ | closed _ _ => simp [Event.answers] at he
  | @served core core' d w reply hp hsync hrun =>
    obtain ⟨hd, hl⟩ := hone he
    cases hd
    obtain ⟨hnext, hrx, hdef⟩ := ht.taken _ _ hp
    refine ⟨?_, hnext, hl⟩
    cases hs : c.command.isShutdown with
    | true =>
      unfold Phase.after
      rw [if_pos hs]
      exact trivial
    | false => exact barred_after (not_unlocked_of_lock hc hs hrun) (by simp [hdef hc]) hrx
  | reported hr hcmd =>
    obtain ⟨hd, -⟩ := hone he
    cases hd
    rw [hcmd] at hc
    cases hc
  | polled hr hcmd _ =>
    obtain ⟨hd, -⟩ := hone he
    cases hd
    rw [hcmd] at hc
    cases hc
  | expired hr hcmd _ =>
    obtain ⟨rest, -, -, polled, hp⟩ := hr.eq
    obtain ⟨hd, -⟩ := htwo (ht.sync_not_lock hp) he
    cases hd
    rw [hcmd] at hc
    cases hc
  | @preempted u sync d deadlineMs future hr hd =>
    obtain ⟨rest, -, -, polled, hp⟩ := hr.eq
    obtain ⟨hd', hl⟩ := htwo (ht.sync_not_lock hp) he
    cases hd'
    obtain ⟨hu, hnext, hrx, hdef⟩ := ht.received hr
    refine ⟨barred_after (not_unlocked_relock _) ?_ hrx, hnext, hl⟩
    rw [hdef]
    exact hord
  | finished _ hp | failed _ hp | dropped hp _ _ =>
    obtain ⟨hd, -⟩ := hone he
    cases hd
    rw [ht.sync_not_lock hp] at hc
    cases hc

/-- After each lock that was answered the task is barred, or a later unlock has succeeded since. -/
def LocksBar (answers : List (Sent × Reply)) (t : Task S) : Prop :=
  ∀ l₁ s r l₂, answers = l₁ ++ (s, r) :: l₂ → s.command.preempts = true →
    s.ticket < t.next ∧ (Barred s.ticket t ∨
      ∃ u ∈ l₂, u.1.command.isUnlock = true ∧ u.2 = .result (.ok ()) ∧ s.ticket < u.1.ticket)

omit [VaultStore S] in
theorem split_append {α : Type} {as bs l₁ l₂ : List α} {x : α} (h : as ++ bs = l₁ ++ x :: l₂) :
    (∃ m, as = l₁ ++ x :: m ∧ l₂ = m ++ bs) ∨ ∃ m, l₁ = as ++ m ∧ bs = m ++ x :: l₂ := by
  rcases List.append_eq_append_iff.mp h with ⟨m, hl, hb⟩ | ⟨m, ha, hl⟩
  · exact .inr ⟨m, hl, hb⟩
  · cases m with
    | nil => exact .inr ⟨[], by simpa using ha.symm, by simpa using hl.symm⟩
    | cons y m =>
      obtain ⟨rfl, rfl⟩ := List.cons.inj hl
      exact .inl ⟨m, ha, rfl⟩

theorem Step.next_le {t u : Task S} {e : Event S} (h : Step E cbor t e u) : t.next ≤ u.next := by
  cases h with
  | sent c hp => exact Nat.le_succ _
  | woke now hp hpop =>
    rcases Task.pop_eq hpop with ⟨rest, -, rfl⟩ | ⟨-, rest, -, rfl⟩
    · exact le_refl _
    · exact le_refl _
  | deferred hr _ | reported hr _ | polled hr _ _ | expired hr _ _ | preempted hr _ =>
    obtain ⟨rest, -, rfl, -⟩ := hr.eq
    exact le_refl _
  | served _ _ _ | began _ _ _ | progressed _ _ | finished _ _ | failed _ _ | dropped _ _ _ | closed _ _ =>
    exact le_refl _

/-- A step keeps the task barred, or reopens it by a later unlock. -/
theorem LocksBar.step {answers : List (Sent × Reply)} {t u : Task S} {e : Event S} (hbar : LocksBar answers t)
    (ht : Ordered t) (h : Step E cbor t e u) {log : List (Event S)} (hord : Orderly E log t e) :
    LocksBar (answers ++ e.answers) u := by
  intro l₁ s r l₂ heq hs
  rcases split_append heq with ⟨m, rfl, rfl⟩ | ⟨m, rfl, hnew⟩
  · obtain ⟨hnext, hstate⟩ := hbar l₁ s r m rfl hs
    refine ⟨hnext.trans_le h.next_le, ?_⟩
    rcases hstate with hb | ⟨a, ha, hopen⟩
    · rcases (hb.step hnext h hord).1 with hb | ⟨a, ha, hopen⟩
      · exact .inl hb
      · exact .inr ⟨a, by simp [ha], hopen⟩
    · exact .inr ⟨a, by simp [ha], hopen⟩
  · obtain ⟨hb, hnext, -⟩ := barred_of_lock ht h hord hnew hs
    exact ⟨hnext, .inl hb⟩

/-- A step of a task barred by each lock before it answers as each of them asks. -/
theorem LockHolds.step {answers : List (Sent × Reply)} {t u : Task S} {e : Event S} (hholds : LockHolds answers)
    (hbar : LocksBar answers t) (ht : Ordered t) (h : Step E cbor t e u) {log : List (Event S)}
    (hord : Orderly E log t e) : LockHolds (answers ++ e.answers) := by
  intro l₁ s r l₂ c r' l₃ heq hs huses
  rcases split_append heq with ⟨m, hold, -⟩ | ⟨m, hl, hnew⟩
  · exact hholds l₁ s r l₂ c r' m hold hs huses
  · -- the command is answered now; the lock was before, or in this event, which then answers nothing more
    rcases split_append hl.symm with ⟨m', hold, rfl⟩ | ⟨m', hl', rfl⟩
    · obtain ⟨hnext, hstate⟩ := hbar l₁ s r m' hold hs
      rcases hstate with hb | ⟨a, ha, hopen⟩
      · exact .inl ((hb.step hnext h hord).2 (c, r') (by simp [hnew]) huses)
      · exact .inr ⟨a, by simp [ha], hopen⟩
    · have hsplit : e.answers = m' ++ (s, r) :: (l₂ ++ (c, r') :: l₃) := by simpa using hnew
      obtain ⟨-, -, hnil⟩ := barred_of_lock ht h hord hsplit hs
      simp at hnil

/-- On every run whose steps are orderly, a lock is final until a later unlock succeeds. -/
theorem lock_final (E : Externals) (cbor : Roster → Option Bytes) {log : List (Event S)} {t : Task S}
    (h : Run E cbor (Orderly E) log t) : LockHolds (log.flatMap Event.answers) := by
  have hall : Ordered t ∧ LocksBar (log.flatMap Event.answers) t ∧ LockHolds (log.flatMap Event.answers) := by
    induction h with
    | spawned store engine device roster timeoutMs nowMs =>
      refine ⟨⟨.nil, by simp [Task.spawn], by simp [Task.spawn], by simp [Task.spawn], by simp [Task.spawn],
        by simp [Task.spawn], by simp [Task.spawn]⟩, ?_, ?_⟩
      · intro l₁ s r l₂ heq
        simp at heq
      · intro l₁ s r l₂ c r' l₃ heq
        simp at heq
    | step hrun hstep hord ih =>
      obtain ⟨ht, hbar, hholds⟩ := ih
      rw [List.flatMap_append, List.flatMap_singleton]
      exact ⟨hstep.ordered ht, hbar.step ht hstep hord, hholds.step hbar ht hstep hord⟩
  exact hall.2.2

end Run

/-! ## Worked instances -/

/-- A command is put off behind a sync of the sample, and a lock drops the sync. -/
theorem run_preempted {Cond : List (Event MemoryStore) → Task MemoryStore → Event MemoryStore → Prop} {c : Command}
    (hopen : Run (.sample [] []) (fun _ => none) Cond (unlocking 0 (I64.saturate 0)) ⟨.idle (unlockedAt 0 0), [], [], 1⟩)
    (hdefers : c.defers = true)
    (hcond : ∀ log t e, (∀ d ∈ t.deferred, d = ⟨2, c⟩) → (∀ d w reply, e ≠ .served d w reply) → Cond log t e) :
    ∃ log, Run (.sample [] []) (fun _ => none) Cond log
        ⟨.idle (sample (.locked MemoryStore.new) (I64.saturate 1)), [], [⟨2, c⟩], 4⟩ ∧
      log.flatMap Event.answers = [(⟨0, .unlock sampleKey.val⟩, .result (.ok ())),
        (⟨1, .syncOnce⟩, .result (.error .locked)), (⟨3, .lock⟩, .done)] := by
  have hsyncing := @run_syncing Cond 1 hopen (by decide) (by decide) (hcond _ _ _ (by simp) (by simp))
    (hcond _ _ _ (by simp) (by simp)) (hcond _ _ _ (by simp) (by simp))
  have hdeferring := hsyncing.step (.sent c (by simp [waitingAt])) (hcond _ _ _ (by simp) (by simp))
  have hlocking := hdeferring.step (.sent .lock (by simp [waitingAt])) (hcond _ _ _ (by simp) (by simp))
  have hdeferred := hlocking.step (.deferred (.intro rfl (.inl rfl) rfl) hdefers) (hcond _ _ _ (by simp) (by simp))
  have hreceived : Received ⟨waitingAt 1, [⟨3, .lock⟩], [⟨2, c⟩], 4⟩ ⟨1, .syncOnce⟩ ⟨3, .lock⟩
      (sampleSession (I64.saturate 0)).deadlineMs (syncingAt 1) ⟨waitingAt 1, [], [⟨2, c⟩], 4⟩ :=
    .intro rfl (.inl rfl) rfl
  exact ⟨_, hdeferred.step (.preempted hreceived rfl) (hcond _ _ _ (by simp) (by simp)), rfl⟩

/-- A list waits behind a sync that a lock drops, and is told the vault is locked. -/
theorem lock_final_listed : LockHolds [(⟨0, .unlock sampleKey.val⟩, .result (.ok ())),
    (⟨1, .syncOnce⟩, .result (.error .locked)), (⟨3, .lock⟩, .done), (⟨2, .list⟩, .result (.error .locked))] := by
  have hopen : Run (S := MemoryStore) (.sample [] []) (fun _ => none) (Orderly (.sample [] [])) _ _ := run_unlocked (by
    intro log t e he
    simp only [unlocking, List.mem_cons, List.not_mem_nil, or_false] at he
    rcases he with rfl | rfl | rfl
    · trivial
    · trivial
    · intro huses
      cases huses)
  obtain ⟨log, hlocked, hanswers⟩ := @run_preempted (Orderly (.sample [] [])) .list hopen rfl (by
    intro log t e hdeferred hserved
    cases e with
    | preempted _ _ _ =>
      intro d hd
      rw [hdeferred d hd]
      rfl
    | served d w reply => exact absurd rfl (hserved d w reply)
    | _ => trivial)
  have htaken := hlocked.step
    (.woke (u := ⟨.idle (sample (.locked MemoryStore.new) (I64.saturate 1)), [], [], 4⟩) (I64.saturate 2) rfl rfl) trivial
  have hlisted := htaken.step (.served (c := ⟨2, .list⟩) (w := []) rfl (fun hc => by cases hc) (.refl _ _))
    (fun _ _ => ⟨rfl, fun _ _ hmem => by cases hmem⟩)
  have hholds := lock_final (.sample [] []) (fun _ => none) hlisted
  rw [List.flatMap_append, List.flatMap_append, hanswers] at hholds
  exact hholds

/-- An unlock that waits behind a sync undoes the lock that dropped the sync, and the vault is listed. -/
theorem deferred_unlock_undoes_lock : ∃ (log : List (Event MemoryStore)) (t : Task MemoryStore),
    Run (.sample [] []) (fun _ => none) (fun _ _ _ => True) log t ∧ ¬ LockHolds (log.flatMap Event.answers) := by
  obtain ⟨log, hlocked, hanswers⟩ := @run_preempted (fun _ _ _ => True) (.unlock sampleKey.val)
    (run_unlocked (fun _ _ _ _ => trivial)) rfl (fun _ _ _ _ _ => trivial)
  -- the unlock is served after the lock, and a list after it
  have htaken := hlocked.step
    (.woke (u := ⟨.idle (sample (.locked MemoryStore.new) (I64.saturate 1)), [], [], 4⟩) (I64.saturate 2) rfl rfl) trivial
  rw [locked_checkDeadline] at htaken
  have hundone : Run (S := MemoryStore) (.sample [] []) (fun _ => none) (fun _ _ _ => True) _
      ⟨.idle (unlockedAt 2 2), [], [], 4⟩ :=
    htaken.step (.served (c := ⟨2, .unlock sampleKey.val⟩) rfl (fun hc => by cases hc)
      (sample_unlocks (I64.saturate 2) (I64.saturate 2))) trivial
  have hchecked : (unlockedAt 2 2).checkDeadline (I64.saturate 3) = unlockedAt 2 3 :=
    sample_checkDeadline (by decide) (by decide)
  have hlists := @list_runs MemoryStore _ (.sample [] []) (fun _ => none) (unlockedAt 2 3) (sampleSession (I64.saturate 2))
    rfl (I64.saturate 3)
  rw [← hchecked] at hlists
  have hlisted := Run.serve (c := .list) hundone rfl rfl rfl (by simp) hlists trivial (fun _ _ _ => trivial)
    (fun _ _ _ => trivial)
  refine ⟨_, _, hlisted, fun h => ?_⟩
  simp only [List.flatMap_append, hanswers] at h
  have hlist := h [(⟨0, .unlock sampleKey.val⟩, .result (.ok ())), (⟨1, .syncOnce⟩, .result (.error .locked))] ⟨3, .lock⟩
    .done [(⟨2, .unlock sampleKey.val⟩, .result (.ok ()))] ⟨4, .list⟩ (.result (.ok ())) [] rfl rfl rfl
  rcases hlist with hlist | ⟨u, hu, -, -, hlt⟩
  · cases hlist
  · obtain rfl := List.mem_singleton.mp hu
    exact absurd hlt (by decide)

end Core

end Misty
