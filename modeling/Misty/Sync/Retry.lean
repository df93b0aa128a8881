import Misty.Sync.Engine

/- `SyncEngine::run`: a pass of the sync is tried again while its failure is one that
   waiting may help, and the waits follow `Backoff`. What a run waits for goes into a log;
   everything else it calls, the vault, the state store, the server and the random bytes of
   the jitter, answers what it likes.

   What is proved:
     1. `Backoff.val_ceilingMs` — the delay before jitter is the exact power, capped: the
        saturation of the loop does not show.
     2. `run_waits` — at every call of every run, the waits so far are within the schedule,
        one for each attempt that failed, and no more than there are attempts; a run that
        succeeds has an attempt left, and one that fails has none left exactly when its
        error is one to retry. So the last attempt is waited out too.

   Correspondence (Rust ↔ Lean):
     `backoff::{Jitter, Backoff}`              ↔ the same names
     `Backoff::{default, ceiling_ms, delay_ms}` ↔ the same names, the loop ↔ `Backoff.grow`
     `Backoff::next_delay_ms`                  ↔ `Backoff.nextDelayMs`
     `Sleeper::sleep_ms`, `random::array`      ↔ calls of `Paced`
     `is_retriable`                            ↔ `SyncError.isRetriable`
     `SyncEngine::run`, its loop               ↔ the same name, `retry`
   `forget_session` drops a session the model does not have. -/
namespace Misty

/-! ## The schedule -/

inductive Jitter where
  | none
  | full
  | equal
  deriving DecidableEq

structure Backoff where
  baseMs : U64
  maxMs : U64
  multiplier : U32
  jitter : Jitter
  deriving DecidableEq

/-- `u64::saturating_mul`, by a `u32`. -/
def U64.saturatingMul (a : U64) (b : U32) : U64 :=
  if h : a.val * b.val < 2 ^ 64 then ⟨a.val * b.val, h⟩ else Fin.last _

@[simp] theorem U64.val_saturatingMul (a : U64) (b : U32) :
    (U64.saturatingMul a b).val = min (a.val * b.val) (2 ^ 64 - 1) := by
  unfold saturatingMul
  split
  · next h =>
    show a.val * b.val = _
    omega
  · next h =>
    show 2 ^ 64 - 1 = _
    omega

namespace Backoff

/-- `Backoff::default`: half a second, doubled, up to five minutes. -/
def default : Backoff := ⟨500, 300000, 2, .equal⟩

/-- The rest of the loop of `ceiling_ms`. -/
def grow (self : Backoff) : Nat → U64 → U64
  | 0, delay => min delay self.maxMs
  | attempt + 1, delay =>
    let delay := U64.saturatingMul delay self.multiplier
    if self.maxMs ≤ delay then self.maxMs else self.grow attempt delay

def ceilingMs (self : Backoff) (attempt : Nat) : U64 := self.grow attempt self.baseMs

def delayMs (self : Backoff) (attempt : Nat) (entropy : U64) : U64 :=
  let ceiling := self.ceilingMs attempt
  match self.jitter with
  | .none => ceiling
  | .full => entropy % U64.saturatingAdd ceiling 1
  | .equal =>
    let half := ceiling / 2
    U64.saturatingAdd half (entropy % U64.saturatingAdd (ceiling - half) 1)

variable {self : Backoff}

/-- A delay below the cap is not cut by the saturation, and one that is cut has reached the cap. -/
theorem val_grow (n : Nat) (delay : U64) :
    (self.grow n delay).val = min (delay.val * self.multiplier.val ^ n) self.maxMs.val := by
  induction n generalizing delay with
  | zero =>
    rw [pow_zero, mul_one]
    show (min delay self.maxMs).val = _
    rw [Fin.coe_min]
  | succ n ih =>
    have hmax := self.maxMs.isLt
    have hstep : delay.val * self.multiplier.val ^ (n + 1) =
        delay.val * self.multiplier.val * self.multiplier.val ^ n := by
      rw [pow_succ' self.multiplier.val n, mul_assoc]
    unfold grow
    simp only [Fin.le_def, U64.val_saturatingMul]
    split
    · next hcap =>
      -- nothing that has reached the cap comes down again
      have hle : self.maxMs.val ≤ delay.val * self.multiplier.val := by omega
      have hgrown : self.maxMs.val ≤ delay.val * self.multiplier.val ^ (n + 1) := by
        rw [hstep]
        by_cases hzero : self.multiplier.val = 0
        · simp only [hzero, mul_zero] at hle
          omega
        · exact hle.trans (Nat.le_mul_of_pos_right _ (pow_pos (by omega) n))
      omega
    · next hcap =>
      have hexact : min (delay.val * self.multiplier.val) (2 ^ 64 - 1) = delay.val * self.multiplier.val :=
        min_eq_left (by omega)
      rw [ih, U64.val_saturatingMul, hexact, hstep]

theorem val_ceilingMs (attempt : Nat) :
    (self.ceilingMs attempt).val = min (self.baseMs.val * self.multiplier.val ^ attempt) self.maxMs.val :=
  val_grow attempt self.baseMs

/-- What a wait after so many failures may be. -/
structure Allows (self : Backoff) (attempt : Nat) (ms : U64) : Prop where
  most : ms.val ≤ min (self.baseMs.val * self.multiplier.val ^ attempt) self.maxMs.val
  least : self.jitter = .equal → min (self.baseMs.val * self.multiplier.val ^ attempt) self.maxMs.val ≤ 2 * ms.val + 1
  fixed : self.jitter = .none → ms.val = min (self.baseMs.val * self.multiplier.val ^ attempt) self.maxMs.val

theorem val_mod_le (entropy ceiling : U64) : (entropy % U64.saturatingAdd ceiling 1).val ≤ ceiling.val := by
  have hbound : (U64.saturatingAdd ceiling 1).val = min (ceiling.val + 1) (2 ^ 64 - 1) := U64.val_saturatingAdd ceiling 1
  have hpos : 0 < (U64.saturatingAdd ceiling 1).val := by
    rw [hbound]
    omega
  have hlt : (entropy % U64.saturatingAdd ceiling 1).val < (U64.saturatingAdd ceiling 1).val := Nat.mod_lt _ hpos
  omega

/-- Whatever the entropy, a delay is one the schedule allows. -/
theorem allows_delayMs (attempt : Nat) (entropy : U64) : self.Allows attempt (self.delayMs attempt entropy) := by
  have hceiling := self.val_ceilingMs attempt
  unfold delayMs
  cases hj : self.jitter with
  | none => exact ⟨hceiling.le, fun h => (by cases hj.symm.trans h), fun _ => hceiling⟩
  | full =>
    have hmod := val_mod_le entropy (self.ceilingMs attempt)
    exact ⟨hceiling ▸ hmod, fun h => (by cases hj.symm.trans h), fun h => (by cases hj.symm.trans h)⟩
  | equal =>
    have hhalf : (self.ceilingMs attempt / 2).val = (self.ceilingMs attempt).val / 2 := rfl
    have hrest : (self.ceilingMs attempt - self.ceilingMs attempt / 2).val =
        (self.ceilingMs attempt).val - (self.ceilingMs attempt).val / 2 :=
      Fin.sub_val_of_le (Fin.le_def.mpr (by omega))
    have hmod := val_mod_le entropy (self.ceilingMs attempt - self.ceilingMs attempt / 2)
    have hlt := (self.ceilingMs attempt).isLt
    refine ⟨?_, fun _ => ?_, fun h => (by cases hj.symm.trans h)⟩
    · rw [← hceiling, U64.val_saturatingAdd]
      omega
    · rw [← hceiling, U64.val_saturatingAdd]
      omega

end Backoff

/-! ## A run -/

/-- What a run calls: what a pass of the sync calls, the random bytes of the jitter, and the timer. -/
inductive PacedQuery where
  | engine (q : Query)
  | entropy
  | sleep (ms : U64)

abbrev PacedQuery.Answer : PacedQuery → Type
  | engine q => Misty.Answer q
  | entropy => Except CryptoError U64
  | sleep _ => Unit

/-- A method of the engine that may wait. -/
abbrev Paced (α : Type) := Prog PacedQuery PacedQuery.Answer SyncError SyncEngine α

/-- A method that does not. -/
def pacing {α : Type} (x : Sync α) : Paced α := fun self =>
  (x self).handle (fun q => Prog.call (PacedQuery.engine q)) (fun self _ => self) self

def Backoff.nextDelayMs (self : Backoff) (attempt : Nat) : Paced U64 :=
  if self.jitter = .none then return self.ceilingMs attempt
  else do
    let drawn : Except CryptoError U64 ← Prog.call PacedQuery.entropy
    let entropy ← Prog.ofExcept (drawn.mapError .crypto)
    return self.delayMs attempt entropy

def SyncError.isRetriable : SyncError → Bool
  | transport _ => true
  | server _ status => status = 429 || 500 ≤ status
  | _ => false

variable (E : Externals)

/-- The rest of the loop of `run`: the attempts left, those made, and the last error. -/
def retry (backoff : Backoff) (roster : Roster) : Nat → Nat → SyncError → Paced SyncReport
  | 0, _, last => throw last
  | left + 1, attempt, _ => do
    let outcome ← (pacing (syncOnce E roster)).attempt
    match outcome with
    | .ok report => return report
    | .error error =>
      if error.isRetriable then
        let delay ← backoff.nextDelayMs attempt
        Prog.call (PacedQuery.sleep delay)
        retry backoff roster left (attempt + 1) error
      else throw error

def SyncEngine.run (backoff : Backoff) (roster : Roster) (attempts : U32) : Paced SyncReport :=
  retry E backoff roster (max attempts.val 1) 0 (.transport "sync")

/-! ## Its waits -/

/-- What a call adds to the waits. -/
def PacedQuery.waits : PacedQuery → List U64
  | sleep ms => [ms]
  | _ => []

/-- A call answered, whatever with. -/
def Sleeps (q : PacedQuery) (w : List U64) (_ : q.Answer) (w' : List U64) : Prop := w' = w ++ q.waits

/-- Each wait is one the schedule allows in its place. -/
def Backoff.Scheduled (self : Backoff) (waits : List U64) : Prop :=
  ∀ attempt ms, waits[attempt]? = some ms → self.Allows attempt ms

variable {E} {backoff : Backoff} {roster : Roster} {w : List U64}

theorem Backoff.Scheduled.concat (h : backoff.Scheduled w) {ms : U64} (hms : backoff.Allows w.length ms) :
    backoff.Scheduled (w ++ [ms]) := by
  intro attempt other hget
  rw [List.getElem?_append] at hget
  split at hget
  · exact h attempt other hget
  · next hge =>
    obtain ⟨hlt, heq⟩ := List.getElem?_eq_some_iff.mp hget
    simp only [List.length_singleton] at hlt
    have hattempt : attempt = w.length := by omega
    subst hattempt
    simp only [Nat.sub_self, List.getElem_cons_zero] at heq
    exact heq ▸ hms

/-- The waits so far, of so many at most. -/
def Backoff.Within (self : Backoff) (total : Nat) (w : List U64) : Prop := self.Scheduled w ∧ w.length ≤ total

theorem pacing_ensures {α : Type} (x : Sync α) {total : Nat} (hw : backoff.Within total w) (engine : SyncEngine) :
    (pacing x).Ensures Eq Sleeps (fun _ _ w => backoff.Within total w) engine w (fun _ _ w' => w' = w)
      (fun _ _ w' => w' = w) := by
  refine Calls.Ensures.mono ?_ ?_ (Calls.Ensures.handle (J := fun _ w' => w' = w) (P := fun _ => True) ?_ ?_
    (Calls.Ensures.true _ _) rfl)
  · exact fun _ _ _ h => h.1
  · exact fun _ _ _ h => h
  · exact fun _ _ _ h => h
  · intro q engine w' h
    subst h
    refine ⟨hw, fun w₁ _ w₂ hr ht => ?_⟩
    subst hr
    obtain rfl : w₂ = w' ++ [] := ht
    exact ⟨List.append_nil _, trivial⟩

/-- A delay is drawn without a wait, and is one the schedule allows. -/
theorem nextDelayMs_ensures {total : Nat} (hw : backoff.Within total w) (attempt : Nat) (engine : SyncEngine) :
    (backoff.nextDelayMs attempt).Ensures Eq Sleeps (fun _ _ w => backoff.Within total w) engine w
      (fun ms _ w' => w' = w ∧ backoff.Allows attempt ms) (fun e _ w' => w' = w ∧ e.isRetriable = false) := by
  unfold Backoff.nextDelayMs
  split
  · next hnone =>
    have hceiling := backoff.val_ceilingMs attempt
    exact ⟨rfl, hceiling.le, fun h => (by cases hnone.symm.trans h), fun _ => hceiling⟩
  · apply Prog.Ensures.bind
    apply Prog.Ensures.call
    · exact hw
    · intro w₁ drawn w₂ hr ht
      subst hr
      obtain rfl : w₂ = w ++ [] := ht
      apply Prog.Ensures.bind
      apply Prog.Ensures.ofExcept
      · exact fun entropy _ => ⟨List.append_nil _, backoff.allows_delayMs attempt entropy⟩
      · intro e he
        cases drawn with
        | ok entropy => cases he
        | error failure =>
          cases he
          exact ⟨List.append_nil _, rfl⟩

/-- The loop, by induction on the attempts left: each that was made has been waited for. -/
theorem retry_ensures {total : Nat} (left attempt : Nat) (last : SyncError) (engine : SyncEngine) (w : List U64)
    (htotal : attempt + left = total) (hlen : w.length = attempt) (hw : backoff.Scheduled w)
    (hlast : left = 0 → last.isRetriable = true) :
    (retry E backoff roster left attempt last).Ensures Eq Sleeps (fun _ _ w => backoff.Within total w) engine w
      (fun _ _ w' => backoff.Scheduled w' ∧ w'.length < total)
      (fun e _ w' => backoff.Within total w' ∧ (e.isRetriable = true ↔ w'.length = total)) := by
  induction left generalizing attempt last engine w with
  | zero =>
    have hretriable := hlast rfl
    exact ⟨⟨hw, by omega⟩, fun _ => by omega, fun _ => hretriable⟩
  | succ left ih =>
    have hwithin : backoff.Within total w := ⟨hw, by omega⟩
    apply Prog.Ensures.bind
    apply Prog.Ensures.attempt
    apply (pacing_ensures _ hwithin engine).mono
    · intro report engine' w' h
      subst h
      exact ⟨hw, by omega⟩
    · intro error engine' w' h
      subst h
      simp only
      split
      -- the delay is drawn, slept and counted, and the next attempt has one left fewer
      · next hretry =>
        apply Prog.Ensures.bind
        apply (nextDelayMs_ensures hwithin attempt engine').mono
        · intro ms engine'' w'' h
          obtain ⟨rfl, hms⟩ := h
          apply Prog.Ensures.bind
          apply Prog.Ensures.call
          · exact hwithin
          · intro w₁ _ w₂ hr ht
            subst hr
            obtain rfl : w₂ = w'' ++ [ms] := ht
            refine ih (attempt + 1) error engine'' _ (by omega) ?_ (hw.concat (hlen ▸ hms)) (fun _ => hretry)
            rw [List.length_append, hlen, List.length_singleton]
        · intro e engine'' w'' h
          obtain ⟨rfl, hfinal⟩ := h
          refine ⟨hwithin, fun h => ?_, fun h => by omega⟩
          rw [hfinal] at h
          cases h
      · next hfinal => exact ⟨hwithin, fun h => absurd h hfinal, fun h => by omega⟩

/-- The waits of a run are within the schedule, one for each attempt that failed; who succeeds has an attempt left, and
who fails has none exactly when the error is one to retry. -/
theorem run_waits {attempts : U32} {engine : SyncEngine} {y : Calls PacedQuery PacedQuery.Answer SyncError SyncEngine SyncReport}
    (h : Calls.Leads Eq Sleeps (SyncEngine.run E backoff roster attempts engine) [] y w) :
    backoff.Scheduled w ∧ w.length ≤ max attempts.val 1 ∧
      (∀ report self, y = .ok report self → w.length < max attempts.val 1) ∧
      ∀ e self, y = .error e self → (e.isRetriable = true ↔ w.length = max attempts.val 1) := by
  have hen := @retry_ensures E backoff roster (max attempts.val 1) (max attempts.val 1) 0 (.transport "sync") engine []
    (by omega) rfl (fun _ _ hget => by simp at hget) (fun h => by omega)
  have hy := Calls.Ensures.ran hen h
  cases y with
  | ok report self => exact ⟨hy.1, hy.2.le, fun _ _ _ => hy.2, fun _ _ h => (by cases h)⟩
  | error e self =>
    refine ⟨hy.1.1, hy.1.2, fun _ _ h => (by cases h), fun e' self' h => ?_⟩
    cases h
    exact hy.2
  | call q self k => exact ⟨hy.1.1, hy.1.2, fun _ _ h => (by cases h), fun _ _ h => (by cases h)⟩

/-! ## Worked instance -/

/-- A vault without objects, and no server. -/
def offline : (q : Query) → Answer q
  | .loadAll => .ok []
  | .stored _ => .ok none
  | .mergeRemote _ => .ok ⟨0, 0, [], [], []⟩
  | .epoch => 0
  | .rotateEpoch => .ok 1
  | .rewrap _ => .ok ⟨0, 0⟩
  | .save _ => .ok ()
  | .send _ => .error (.transport "send")

/-- What a run is told offline. -/
def offlinePaced : (q : PacedQuery) → List U64 → q.Answer × List U64
  | .engine q, w => (offline q, w)
  | .entropy, w => (.ok 0, w)
  | .sleep ms, w => ((), w ++ [ms])

theorem sleeps_offline (q : PacedQuery) (w : List U64) : Sleeps q w (offlinePaced q w).1 (offlinePaced q w).2 := by
  cases q with
  | engine q => exact (List.append_nil w).symm
  | entropy => exact (List.append_nil w).symm
  | sleep ms => rfl

/-- Two attempts offline: both are waited out. -/
theorem run_waits_offline : ∃ (y : Calls PacedQuery PacedQuery.Answer SyncError SyncEngine SyncReport) (w : List U64),
    Calls.Leads Eq Sleeps (SyncEngine.run (.sample [] []) .default (.sample [1]) 2 ⟨.new, .new, .sample 1, 10⟩) [] y w ∧
      w = [250, 500] ∧ Backoff.default.Scheduled w ∧
      ∀ e self, y = .error e self → (e.isRetriable = true ↔ w.length = 2) := by
  have hwaits : ((SyncEngine.run (.sample [] []) .default (.sample [1]) 2 ⟨.new, .new, .sample 1, 10⟩).run
      offlinePaced []).2.2 = [250, 500] := by decide +kernel
  obtain ⟨y, hleads, -⟩ := Calls.leads_run (R := Eq) sleeps_offline
    (SyncEngine.run (.sample [] []) .default (.sample [1]) 2 ⟨.new, .new, .sample 1, 10⟩) []
  rw [hwaits] at hleads
  obtain ⟨hscheduled, -, -, herror⟩ := run_waits hleads
  exact ⟨y, _, hleads, rfl, hscheduled, herror⟩

end Misty
