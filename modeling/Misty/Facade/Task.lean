import Misty.Facade.Core
import Misty.Vault.Consistent

/- The owning task: its loop over the channel, and a sync driven while commands keep
   coming. A step is one event: a command sent, a command taken with the deadline
   checked, its answer, one call of a sync answered, a command received while the sync
   waits. What the host, the network and the stores say is open at every step.

   Correspondence (Rust ↔ Lean):
     `mpsc::Receiver`, `deferred`              ↔ `Task.rx`, `Task.deferred`
     the loop of `Core::run`                   ↔ `woke`, `served`, `began`, `closed`
     `select!` of `Core::drive_sync`           ↔ `progressed`, `deferred`, `reported`,
                                                 `polled`, `expired`, `preempted`
     its tail                                  ↔ `completed`, `dropped`, and the two above
   A sync can be preempted where it awaits the server, and before it was first polled. -/
namespace Misty

namespace Core

/-- A command on the channel, with its place in the order of sending. -/
structure Sent where
  ticket : Nat
  command : Command

/-- Where the owning task is: at the top of its loop, with a command it took, driving a sync under the deadline that
sync found, or gone. -/
inductive Phase (S : Type) where
  | idle (core : Core S)
  | taken (sent : Sent) (core : Core S)
  | syncing (sent : Sent) (deadlineMs : I64) (polled : Bool) (sync : Steps S SyncReport)
  | stopped (core : Core S)

variable {S : Type}

/-- The core, wherever the task is. -/
def Phase.core : Phase S → Core S
  | idle core => core
  | taken _ core => core
  | syncing _ _ _ sync => sync.state
  | stopped core => core

/-- The owning task and its queues. -/
structure Task (S : Type) where
  phase : Phase S
  rx : List Sent
  deferred : List Sent
  next : Nat

/-- What a program called and what it was told, in order. -/
abbrev Transcript (S : Type) := List ((q : Ask S) × q.Answer)

/-- The host's clock, where a transcript reads it. -/
def Transcript.readings (w : Transcript S) : List I64 :=
  w.filterMap fun
    | ⟨.now, now⟩ => some now
    | _ => none

/-- What happens to a task. -/
inductive Event (S : Type) where
  | sent (c : Sent)
  | woke (c : Sent) (now : I64)
  | served (c : Sent) (w : Transcript S) (reply : Reply)
  | began (c : Sent)
  | progressed (q : Ask S) (a : q.Answer)
  | deferred (c : Sent)
  | reported (c : Sent)
  | polled (c : Sent) (now : I64)
  | expired (sync c : Sent) (now : I64)
  | preempted (sync c : Sent) (reply : Reply)
  | completed (sync : Sent) (now : I64) (reply : Reply)
  | dropped (sync : Sent)
  | closed

/-- `FacadeError::internal("core channel closed mid-sync")`. -/
def CLOSED : FacadeError := .internal "core channel closed mid-sync"

/-- The answers an event gives, in order. -/
def Event.answers : Event S → List (Sent × Reply)
  | served c _ reply => [(c, reply)]
  | reported c | polled c _ => [(c, .state ⟨false⟩)]
  | expired sync c _ => [(sync, .result (.error .locked)), (c, .state ⟨true⟩)]
  | preempted sync c reply => [(sync, .result (.error .locked)), (c, reply)]
  | completed sync _ reply => [(sync, reply)]
  | dropped sync => [(sync, .result (.error CLOSED))]
  | _ => []

/-- The readings of the host's clock it takes, in order. -/
def Event.readings : Event S → List I64
  | woke _ now | polled _ now | expired _ _ now | completed _ now _ => [now]
  | served _ w _ => w.readings
  | progressed q a => Transcript.readings [⟨q, a⟩]
  | _ => []

/-- The commands that drop a sync in flight. -/
def Command.preempts : Command → Bool
  | lock | shutdown => true
  | reportLifecycle event => event ≠ .userActivity
  | _ => false

/-- The commands put off until a sync in flight is over. -/
def Command.defers : Command → Bool
  | lockStatus | poll => false
  | c => !c.preempts

def Command.isShutdown : Command → Bool
  | shutdown => true
  | _ => false

/-- The top of the loop, or its end after a shutdown. -/
def Phase.after (c : Command) (core : Core S) : Phase S := if c.isShutdown then .stopped core else .idle core

/-- What a command that dropped the sync is told. -/
def preemption (core : Core S) : Command → Reply
  | .reportLifecycle _ => .state core.lockState
  | _ => .done

/-- The next command: a deferred one, else one from the channel. -/
def Task.pop (self : Task S) : Option (Sent × Task S) :=
  match self.deferred with
  | c :: rest => some (c, { self with deferred := rest })
  | [] =>
    match self.rx with
    | c :: rest => some (c, { self with rx := rest })
    | [] => none

/-- The sync future gives way: it awaits the server, or was not polled yet. -/
def Waiting (polled : Bool) (sync : Steps S SyncReport) : Prop :=
  polled = false ∨ ∃ request core k, sync = .call (.outside (.engine (.send request))) core k

section Steps

variable [VaultStore S] (E : Externals) (cbor : Roster → Option Bytes)

omit [VaultStore S] in
/-- A command is taken by `rx.next()` inside the sync. -/
inductive Received (t : Task S) (sync c : Sent) (deadlineMs : I64) (future : Steps S SyncReport) : Task S → Prop
  | intro {polled : Bool} {rest : List Sent} : t.phase = .syncing sync deadlineMs polled future → Waiting polled future →
      t.rx = c :: rest → Received t sync c deadlineMs future { t with rx := rest }

/-- What is open: all but what `Vault::open` makes of a store. -/
def Answers : (q : Ask S) → q.Answer → Prop
  | .openVault store vaultKey device roster, opened => opened = Vault.open E store vaultKey device roster
  | _, _ => True

/-- A call answered, and written down. -/
def Hears (q : Ask S) (w : Transcript S) (a : q.Answer) (w' : Transcript S) : Prop :=
  Answers E q a ∧ w' = w ++ [⟨q, a⟩]

/-- A program run to its end. -/
def Runs {α : Type} (x : Act S α) (core : Core S) (w : Transcript S) (y : Steps S α) : Prop :=
  Calls.Leads Eq (Hears E) (x core) [] y w

/-- One event of the task. -/
inductive Step : Task S → Event S → Task S → Prop
  | sent {t : Task S} (c : Command) : (∀ core, t.phase ≠ .stopped core) →
      Step t (.sent ⟨t.next, c⟩) { t with rx := t.rx ++ [⟨t.next, c⟩], next := t.next + 1 }
  | woke {t u : Task S} {core : Core S} {c : Sent} (now : I64) : t.phase = .idle core → t.pop = some (c, u) →
      Step t (.woke c now) { u with phase := .taken c (core.checkDeadline now) }
  | served {t : Task S} {core core' : Core S} {c : Sent} {w : Transcript S} {reply : Reply} : t.phase = .taken c core →
      (c.command = .syncOnce → ¬ core.Unlocked) → Runs E (answer E cbor c.command) core w (.ok reply core') →
      Step t (.served c w reply) { t with phase := .after c.command core' }
  | began {t : Task S} {core : Core S} {c : Sent} {session : Session S} : t.phase = .taken c core →
      c.command = .syncOnce → core.lifecycle = .unlocked session →
      Step t (.began c)
        { t with phase := .syncing c session.deadlineMs false (onFacade E (onEngine (syncOnce E core.roster)) core) }
  | progressed {t : Task S} {c : Sent} {deadlineMs : I64} {polled : Bool} {q : Ask S} {core : Core S}
      {k : q.Answer → Steps S SyncReport} {a : q.Answer} : t.phase = .syncing c deadlineMs polled (.call q core k) →
      Answers E q a → Step t (.progressed q a) { t with phase := .syncing c deadlineMs true (k a) }
  | deferred {t u : Task S} {sync c : Sent} {deadlineMs : I64} {future : Steps S SyncReport} :
      Received t sync c deadlineMs future u → c.command.defers = true →
      Step t (.deferred c) { u with deferred := u.deferred ++ [c] }
  | reported {t u : Task S} {sync c : Sent} {deadlineMs : I64} {future : Steps S SyncReport} :
      Received t sync c deadlineMs future u → c.command = .lockStatus → Step t (.reported c) u
  | polled {t u : Task S} {sync c : Sent} {deadlineMs : I64} {future : Steps S SyncReport} {now : I64} :
      Received t sync c deadlineMs future u → c.command = .poll → now.val < deadlineMs.val → Step t (.polled c now) u
  | expired {t u : Task S} {sync c : Sent} {deadlineMs : I64} {future : Steps S SyncReport} {now : I64} :
      Received t sync c deadlineMs future u → c.command = .poll → deadlineMs.val ≤ now.val →
      Step t (.expired sync c now) { u with phase := .idle future.state.relock }
  | preempted {t u : Task S} {sync c : Sent} {deadlineMs : I64} {future : Steps S SyncReport} :
      Received t sync c deadlineMs future u → c.command.preempts = true →
      Step t (.preempted sync c (preemption future.state.relock c.command))
        { u with phase := .after c.command future.state.relock }
  | finished {t : Task S} {sync : Sent} {deadlineMs : I64} {polled : Bool} {report : SyncReport} {core : Core S}
      (now : I64) : t.phase = .syncing sync deadlineMs polled (.ok report core) →
      Step t (.completed sync now (.result (.ok ()))) { t with phase := .idle (core.extendDeadline now) }
  | failed {t : Task S} {sync : Sent} {deadlineMs : I64} {polled : Bool} {e : FacadeError} {core : Core S}
      (now : I64) : t.phase = .syncing sync deadlineMs polled (.error e core) →
      Step t (.completed sync now (.result (.error e))) { t with phase := .idle (core.extendDeadline now) }
  | dropped {t : Task S} {sync : Sent} {deadlineMs : I64} {polled : Bool} {future : Steps S SyncReport} :
      t.phase = .syncing sync deadlineMs polled future → Waiting polled future → t.rx = [] →
      Step t (.dropped sync) { t with phase := .stopped future.state }
  | closed {t : Task S} {core : Core S} : t.phase = .idle core → t.pop = none →
      Step t .closed { t with phase := .stopped core }

/-- `spawn`: locked, nothing sent. -/
def Task.spawn (store : S) (engine : SyncEngine) (device : DeviceIdentity) (roster : Roster) (timeoutMs nowMs : I64) :
    Task S where
  phase := .idle ⟨.locked store, engine, device, roster, timeoutMs, nowMs⟩
  rx := []
  deferred := []
  next := 0

/-- A run from a task just spawned, each of whose steps meets a condition on the events before it, the task it is
taken in, and the event. -/
inductive Run (Cond : List (Event S) → Task S → Event S → Prop) : List (Event S) → Task S → Prop
  | spawned (store : S) (engine : SyncEngine) (device : DeviceIdentity) (roster : Roster) (timeoutMs nowMs : I64) :
      Run Cond [] (.spawn store engine device roster timeoutMs nowMs)
  | step {log : List (Event S)} {t u : Task S} {e : Event S} : Run Cond log t → Step E cbor t e u → Cond log t e →
      Run Cond (log ++ [e]) u

/-! ## Commands one at a time -/

variable {E cbor}

/-- A command sent to an idle task, taken and served. -/
theorem Run.serve {Cond : List (Event S) → Task S → Event S → Prop} {log : List (Event S)} {t : Task S}
    {core core' : Core S} {c : Command} {now : I64} {w : Transcript S} {reply : Reply} (h : Run E cbor Cond log t)
    (hidle : t.phase = .idle core) (hrx : t.rx = []) (hdef : t.deferred = [])
    (hsync : c = .syncOnce → ¬ (core.checkDeadline now).Unlocked)
    (hrun : Runs E (answer E cbor c) (core.checkDeadline now) w (.ok reply core'))
    (hsent : Cond log t (.sent ⟨t.next, c⟩)) (hwoke : ∀ log u, u.phase = .idle core → Cond log u (.woke ⟨t.next, c⟩ now))
    (hserved : ∀ log u, u.phase = .taken ⟨t.next, c⟩ (core.checkDeadline now) → Cond log u (.served ⟨t.next, c⟩ w reply)) :
    Run E cbor Cond (log ++ [.sent ⟨t.next, c⟩] ++ [.woke ⟨t.next, c⟩ now] ++ [.served ⟨t.next, c⟩ w reply])
      ⟨.after c core', [], [], t.next + 1⟩ := by
  obtain ⟨phase, rx, deferred, next⟩ := t
  cases hidle
  cases hrx
  cases hdef
  have hone := Run.step h (.sent c (by simp)) hsent
  have htwo := Run.step hone (.woke now rfl rfl) (hwoke _ _ rfl)
  exact Run.step htwo (.served rfl hsync hrun) (hserved _ _ rfl)

end Steps

section Served

variable [VaultStore S] {E : Externals} {cbor : Roster → Option Bytes} {core : Core S}

omit [VaultStore S] in
/-- What an unlock does when the vault is locked and the key has its length. -/
theorem unlock_eq {store : S} (h : core.lifecycle = .locked store) (vaultKey : ByteArr 32) :
    unlock vaultKey.val core = (do
      let vault ← openVault store vaultKey core.roster
      let now ← nowMs
      modify fun self => self.opened vault vaultKey now : Act S Unit) core := by
  refine (Prog.bind_of_ok rfl).trans ?_
  dsimp only
  rw [h]
  simp only [vaultKey.property, dite_true]

theorem unlock_runs {store : S} (h : core.lifecycle = .locked store) {vaultKey : ByteArr 32} {vault : Vault S}
    (hopen : Vault.open E store vaultKey core.device core.roster = .ok vault) (now : I64) :
    Runs E (answer E cbor (.unlock vaultKey.val)) core
      [⟨.openVault store vaultKey core.device core.roster, .ok vault⟩, ⟨.now, now⟩]
      (.ok (.result (.ok ())) (core.opened vault vaultKey now)) := by
  show Calls.Leads Eq (Hears E) ((unlock vaultKey.val core).attempt.bind _) [] _ _
  rw [unlock_eq h]
  refine Calls.Leads.answered (T := Hears E) (q := Ask.openVault store vaultKey core.device core.roster)
    (a := Except.ok vault) ⟨hopen.symm, rfl⟩ ?_
  exact Calls.Leads.answered (T := Hears E) (q := Ask.now) (a := now) ⟨trivial, rfl⟩ (.refl _ _)

theorem list_runs {session : Session S} (h : core.lifecycle = .unlocked session) (now : I64) :
    Runs E (answer E cbor .list) core [⟨.now, now⟩] (.ok (.result (.ok ())) (core.extendDeadline now)) := by
  have hsession : (Core.session : Act S (Session S)) core = .ok session core := by
    refine (Prog.bind_of_ok rfl).trans ?_
    rw [h]
    rfl
  show Calls.Leads Eq (Hears E) ((reads (fun _ => .ok ()) core).attempt.bind _) [] _ _
  have hreads : reads (fun _ : Vault S => .ok ()) core = extend core :=
    Prog.bind_of_ok (Prog.bind_of_ok hsession)
  rw [hreads]
  exact Calls.Leads.answered (T := Hears E) (q := Ask.now) (a := now) ⟨trivial, rfl⟩ (.refl _ _)

end Served

/-! ## Values for the worked instances -/

/-- A core over an empty store, for device 1. -/
def sample (lifecycle : Lifecycle MemoryStore) (lastNowMs : I64) : Core MemoryStore where
  lifecycle := lifecycle
  engine := ⟨.new, .new, .sample 1, 10⟩
  device := .sample 1
  roster := .sample [1]
  timeoutMs := I64.saturate 1000
  lastNowMs := lastNowMs

/-- The key of the sample vault. -/
def sampleKey : ByteArr 32 := ByteArr.repeated 32 0

/-- The sample vault unlocked at a reading of the clock. -/
def sampleSession (now : I64) : Session MemoryStore :=
  ⟨Vault.sample MemoryStore.new [1], sampleKey, I64.saturatingAdd now (I64.saturate 1000)⟩

theorem open_sampleKey : Vault.open (.sample [] []) MemoryStore.new sampleKey (.sample 1) (.sample [1]) =
    .ok (Vault.sample MemoryStore.new [1]) := open_sample [] []

theorem opened_sample (last now : I64) : (sample (.locked MemoryStore.new) last).opened (Vault.sample MemoryStore.new [1])
    sampleKey now = sample (.unlocked (sampleSession now)) last := rfl

/-- What an unlock of the sample hears. -/
def heardUnlock (now : I64) : Transcript MemoryStore :=
  [⟨.openVault MemoryStore.new sampleKey (.sample 1) (.sample [1]), .ok (Vault.sample MemoryStore.new [1])⟩, ⟨.now, now⟩]

theorem sample_unlocks (last now : I64) :
    Runs (.sample [] []) (answer (.sample [] []) (fun _ => none) (.unlock sampleKey.val))
      (sample (.locked MemoryStore.new) last) (heardUnlock now)
      (.ok (.result (.ok ())) (sample (.unlocked (sampleSession now)) last)) := by
  have hruns := @unlock_runs MemoryStore _ (.sample [] []) (fun _ => none) (sample (.locked MemoryStore.new) last)
    MemoryStore.new rfl sampleKey (Vault.sample MemoryStore.new [1]) open_sampleKey now
  rw [opened_sample] at hruns
  exact hruns

theorem sample_checkDeadline {session : Session MemoryStore} {last now : I64} (hback : last.val ≤ now.val)
    (hlive : now.val < session.deadlineMs.val) :
    (sample (.unlocked session) last).checkDeadline now = sample (.unlocked session) now := by
  show (if now.val < last.val ∨ session.deadlineMs.val ≤ now.val then _ else sample (.unlocked session) now) = _
  rw [if_neg (by omega)]

theorem locked_checkDeadline (store : MemoryStore) (last now : I64) :
    (sample (.locked store) last).checkDeadline now = sample (.locked store) now := rfl

theorem run_sample {Cond : List (Event MemoryStore) → Task MemoryStore → Event MemoryStore → Prop} :
    Run (.sample [] []) (fun _ => none) Cond [] ⟨.idle (sample (.locked MemoryStore.new) (I64.saturate 0)), [], [], 0⟩ :=
  .spawned MemoryStore.new ⟨.new, .new, .sample 1, 10⟩ (.sample 1) (.sample [1]) (I64.saturate 1000) (I64.saturate 0)

/-- An unlock of the sample: sent, taken, served. -/
def unlocking (ticket : Nat) (now : I64) : List (Event MemoryStore) :=
  [.sent ⟨ticket, .unlock sampleKey.val⟩, .woke ⟨ticket, .unlock sampleKey.val⟩ now,
    .served ⟨ticket, .unlock sampleKey.val⟩ (heardUnlock now) (.result (.ok ()))]

theorem run_unlocked {Cond : List (Event MemoryStore) → Task MemoryStore → Event MemoryStore → Prop}
    (hcond : ∀ log t, ∀ e ∈ unlocking 0 (I64.saturate 0), Cond log t e) :
    Run (.sample [] []) (fun _ => none) Cond (unlocking 0 (I64.saturate 0))
      ⟨.idle (sample (.unlocked (sampleSession (I64.saturate 0))) (I64.saturate 0)), [], [], 1⟩ :=
  Run.serve run_sample rfl rfl rfl (by simp) (sample_unlocks (I64.saturate 0) (I64.saturate 0))
    (hcond _ _ _ (by simp [unlocking])) (fun _ _ _ => hcond _ _ _ (by simp [unlocking]))
    (fun _ _ _ => hcond _ _ _ (by simp [unlocking]))

/-- The sample unlocked at a reading of the clock, last checked at another. -/
def unlockedAt (opened now : Int) : Core MemoryStore :=
  sample (.unlocked (sampleSession (I64.saturate opened))) (I64.saturate now)

/-- A sync of the sample, taken at a reading and not yet polled. -/
def syncingAt (now : Int) : Steps MemoryStore SyncReport :=
  onFacade (.sample [] []) (onEngine (syncOnce (.sample [] []) (.sample [1]))) (unlockedAt 0 now)

def waitingAt (now : Int) : Phase MemoryStore :=
  .syncing ⟨1, .syncOnce⟩ (sampleSession (I64.saturate 0)).deadlineMs false (syncingAt now)

/-- A sync of the sample unlocked at 0: sent, taken in time, begun. -/
theorem run_syncing {Cond : List (Event MemoryStore) → Task MemoryStore → Event MemoryStore → Prop} {now : Int}
    (hopen : Run (.sample [] []) (fun _ => none) Cond (unlocking 0 (I64.saturate 0)) ⟨.idle (unlockedAt 0 0), [], [], 1⟩)
    (hback : 0 ≤ (I64.saturate now).val) (hlive : (I64.saturate now).val < 1000)
    (hsent : Cond (unlocking 0 (I64.saturate 0)) ⟨.idle (unlockedAt 0 0), [], [], 1⟩ (.sent ⟨1, .syncOnce⟩))
    (hwoke : Cond (unlocking 0 (I64.saturate 0) ++ [.sent ⟨1, .syncOnce⟩])
      ⟨.idle (unlockedAt 0 0), [⟨1, .syncOnce⟩], [], 2⟩ (.woke ⟨1, .syncOnce⟩ (I64.saturate now)))
    (hbegan : Cond (unlocking 0 (I64.saturate 0) ++ [.sent ⟨1, .syncOnce⟩] ++ [.woke ⟨1, .syncOnce⟩ (I64.saturate now)])
      ⟨.taken ⟨1, .syncOnce⟩ (unlockedAt 0 now), [], [], 2⟩ (.began ⟨1, .syncOnce⟩)) :
    Run (.sample [] []) (fun _ => none) Cond (unlocking 0 (I64.saturate 0) ++ [.sent ⟨1, .syncOnce⟩] ++
      [.woke ⟨1, .syncOnce⟩ (I64.saturate now)] ++ [.began ⟨1, .syncOnce⟩]) ⟨waitingAt now, [], [], 2⟩ := by
  have hone := hopen.step (.sent .syncOnce (by simp)) hsent
  have htwo := hone.step (.woke (u := ⟨.idle (unlockedAt 0 0), [], [], 2⟩) (I64.saturate now) rfl rfl) hwoke
  have hchecked : (unlockedAt 0 0).checkDeadline (I64.saturate now) = unlockedAt 0 now :=
    sample_checkDeadline hback hlive
  rw [hchecked] at htwo
  exact htwo.step (.began rfl rfl rfl) hbegan

end Core

end Misty
