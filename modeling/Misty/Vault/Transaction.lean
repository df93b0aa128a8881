import Misty.Vault.Backends

/- `VaultStore::transaction` over every closure it can be given.

   A closure gets the store as `&mut Self` and can do anything the trait offers:
   read, write, run a nested transaction, and go on after an error of any of them.
   `Closure` is the tree of what it does next for each answer. The statements that
   only `transaction` itself issues are left out: `begin`, `commit` and `rollback`
   have no other caller in the crate.

   What is proved: with rollbacks that go through, a transaction is all or nothing
   and leaves none open exactly when no `COMMIT` or `RELEASE` issued on the way was
   refused (`transaction_all_or_nothing_iff`). A refused one returns `Err` with its
   transaction still open and its writes still readable. Where SQLite rolls the
   transaction back itself, the rows are as before, but the handle still counts it. -/
namespace Misty

/-- The methods of the trait that read and write. -/
inductive StoreRequest : Type → Type where
  | loadAll : StoreRequest (List StoredEnvelope)
  | get (id : ItemId) : StoreRequest (Option StoredEnvelope)
  | put (record : StoredEnvelope) : StoreRequest Unit
  | remove (id : ItemId) : StoreRequest Unit
  | epoch : StoreRequest U32
  | setEpoch (e : U32) : StoreRequest Unit

/-- A closure over the store: done, failed, or the next call and what follows each
answer to it. -/
inductive Closure : Type → Type 1 where
  | done {α : Type} (value : α) : Closure α
  | fail {α : Type} (error : VaultError) : Closure α
  | call {α β : Type} (request : StoreRequest β) (next : Except VaultError β → Closure α) : Closure α
  | transaction {α β : Type} (f : Closure β) (next : Except VaultError β → Closure α) : Closure α

/-- The answer of a call, an error included, as a value. -/
def attempt {S α : Type} (x : Io S α) : Io S (Except VaultError α) := fun s =>
  match x s with
  | .ok a s' => .ok (.ok a) s'
  | .error e s' => .ok (.error e) s'

theorem Meets.attempt {S α : Type} {x : Io S α} {s : S} {Q : Except VaultError α → S → Prop}
    {E : VaultError → S → Prop} (h : Meets x s (fun a => Q (.ok a)) (fun e => Q (.error e))) :
    Meets (Misty.attempt x) s Q E := by
  unfold Meets Misty.attempt
  unfold Meets at h
  split at h
  · next hx =>
    rw [hx]
    exact h
  · next hx =>
    rw [hx]
    exact h

variable {S α : Type}

/-- The call a request makes. -/
def StoreRequest.run {β : Type} [VaultStore S] : StoreRequest β → Io S β
  | .loadAll => VaultStore.loadAll
  | .get id => VaultStore.get id
  | .put record => VaultStore.put record
  | .remove id => VaultStore.remove id
  | .epoch => VaultStore.epoch
  | .setEpoch e => VaultStore.setEpoch e

/-- Runs a closure. -/
def Closure.run [VaultStore S] {α : Type} : Closure α → Io S α
  | .done value => pure value
  | .fail error => throw error
  | .call request next => attempt request.run >>= fun answer => (next answer).run
  | .transaction f next => attempt (Misty.transaction f.run) >>= fun answer => (next answer).run

section Rule

variable [VaultStore S]

theorem stateAfter_transaction_ok {f : Io S α} {s s₁ s₂ : S} {a : α}
    (hb : VaultStore.begin s = .ok () s₁) (hf : f s₁ = .ok a s₂) :
    stateAfter (transaction f) s = stateAfter VaultStore.commit s₂ := by
  unfold stateAfter transaction
  simp only [hb, hf]
  cases hc : (VaultStore.commit : Io S Unit) s₂ with
  | ok _ s₃ => simp only
  | error e s₃ => simp only

theorem stateAfter_transaction_error {f : Io S α} {s s₁ s₂ : S} {e : VaultError}
    (hb : VaultStore.begin s = .ok () s₁) (hf : f s₁ = .error e s₂) :
    stateAfter (transaction f) s = stateAfter VaultStore.rollback s₂ := by
  unfold stateAfter transaction
  simp only [hb, hf]
  cases hc : (VaultStore.rollback : Io S Unit) s₂ with
  | ok _ s₃ => simp only
  | error e s₃ => simp only

end Rule

section Lawful

variable [CountedStore S]

open LawfulStore (view Accepts)
open CountedStore (depth)

/-- All or nothing, and no transaction left behind: after an error the rows and the
epoch are those before the call; after `Ok` outside any transaction, what the closure
left is on the disk; and either way as many transactions are open as before, and the
handle counts as many. -/
def AllOrNothing (f : Closure α) (s : S) : Prop :=
  Meets (transaction f.run) s
    (fun a s' => (view s').saved.length = (view s).saved.length ∧ depth s' = depth s ∧
      ((view s).saved = [] → ∃ s₁ s₂, VaultStore.begin s = .ok () s₁ ∧ f.run s₁ = .ok a s₂ ∧
        (view s').durable = (view s₂).image))
    (fun _ s' => (view s').image = (view s).image ∧
      (view s').saved.length = (view s).saved.length ∧ depth s' = depth s)

/-- A closure that leaves the open transactions as it found them is run all or nothing
by a store that refuses neither end of the transaction. -/
theorem allOrNothing_of_balanced {f : Closure α} {s : S}
    (hf : ∀ s₁, VaultStore.begin s = .ok () s₁ → Meets f.run s₁
      (fun _ s₂ => (view s₂).saved = (view s₁).saved ∧ depth s₂ = depth s₁ ∧
        Meets VaultStore.commit s₂ (fun _ _ => True) (fun _ _ => False))
      (fun _ s₂ => (view s₂).saved = (view s₁).saved ∧ depth s₂ = depth s₁ ∧
        Meets VaultStore.rollback s₂ (fun _ _ => True) (fun _ _ => False))) :
    AllOrNothing f s := by
  apply Meets.transaction
  apply Meets.intro
  · intro _ s₁ hb
    have hv := (LawfulStore.begin_spec s).of_ok hb
    have hd₁ := (CountedStore.begin_depth s).of_ok hb
    apply Meets.intro
    · intro a s₂ hrun
      obtain ⟨hsaved, hd₂, hend⟩ := (hf s₁ hb).of_ok hrun
      rw [hv.1] at hsaved
      apply Meets.intro
      · intro _ s₃ hc
        have h₃ := ((LawfulStore.commit_spec s₂ _ _ hsaved).of_ok hc).1
        have hd₃ := (CountedStore.commit_depth s₂).of_ok hc
        refine ⟨by rw [h₃], by omega, fun hnil => ⟨s₁, s₂, hb, hrun, ?_⟩⟩
        simp [h₃, hnil, StoreView.durable]
      · intro e s₃ hc
        exact (hend.of_error hc).elim
    · intro e s₂ hrun
      obtain ⟨hsaved, hd₂, hend⟩ := (hf s₁ hb).of_error hrun
      rw [hv.1] at hsaved
      apply Meets.intro
      · intro _ s₃ hc
        -- the rollback drops what the closure wrote
        have h₃ := ((LawfulStore.rollback_spec s₂ _ _ hsaved).of_ok hc).1
        have hd₃ := (CountedStore.rollback_depth s₂).of_ok hc
        exact ⟨by rw [h₃], by rw [h₃], by omega⟩
      · intro e' s₃ hc
        exact (hend.of_error hc).elim
  · intro e s₁ hb
    have hv := ((LawfulStore.begin_spec s).of_error hb).1
    exact ⟨by rw [hv], by rw [hv], (CountedStore.begin_depth s).of_error hb⟩

end Lawful

/-! ## The in-memory store -/

namespace MemoryStore

open LawfulStore (view)

theorem request_saved {β : Type} (request : StoreRequest β) (s : MemoryStore) :
    Meets request.run s (fun _ s' => (view s').saved = (view s).saved)
      (fun _ s' => (view s').saved = (view s).saved) := by
  cases request <;> rfl

/-- A closure leaves the snapshots as it found them: by induction on the closure, a
nested transaction pops the one it pushed. -/
theorem closure_saved (f : Closure α) (s : MemoryStore) :
    Meets f.run s (fun _ s' => (view s').saved = (view s).saved)
      (fun _ s' => (view s').saved = (view s).saved) := by
  induction f generalizing s with
  | done value => exact Meets.pure rfl
  | fail error => exact Meets.throw rfl
  | call request next ih =>
    apply Meets.bind
    apply Meets.attempt
    apply (request_saved request s).mono
    · intro b s' h
      rw [← h]
      exact ih (.ok b) s'
    · intro e s' h
      rw [← h]
      exact ih (.error e) s'
  | transaction f next ihf ih =>
    apply Meets.bind
    apply Meets.attempt
    apply Meets.transaction
    show Meets f.run (MemoryStore.mk s.image (s.image :: s.snapshots)) _ _
    apply (ihf _).mono
    · intro b s₂ h
      obtain ⟨image, snapshots⟩ := s₂
      cases (h : snapshots = s.image :: s.snapshots)
      exact ih (.ok b) ⟨image, s.snapshots⟩
    · intro e s₂ h
      obtain ⟨image, snapshots⟩ := s₂
      cases (h : snapshots = s.image :: s.snapshots)
      exact ih (.error e) ⟨s.image, s.snapshots⟩

theorem allOrNothing (f : Closure α) (s : MemoryStore) : AllOrNothing f s := by
  apply allOrNothing_of_balanced
  intro s₁ hb
  cases hb
  apply (closure_saved f _).mono
  · intro _ s₂ h
    refine ⟨h, congrArg List.length h, ?_⟩
    obtain ⟨image, snapshots⟩ := s₂
    cases (h : snapshots = s.image :: s.snapshots)
    trivial
  · intro _ s₂ h
    refine ⟨h, congrArg List.length h, ?_⟩
    obtain ⟨image, snapshots⟩ := s₂
    cases (h : snapshots = s.image :: s.snapshots)
    trivial

end MemoryStore

/-! ## SQLite -/

namespace SqliteStore

/-- No `COMMIT` or `RELEASE` issued between the two states was refused. -/
def CommitsAccepted (s s' : SqliteStore) : Prop :=
  ∀ n, s.calls .commit ≤ n → n < s'.calls .commit → s.faults .commit n = false

/-- What running a closure does to the open transactions: the handle counts more of them
exactly when one of its commits was refused, and at most as many are open. -/
structure Since (s s' : SqliteStore) : Prop where
  faults : s'.faults = s.faults
  commits : s.calls .commit ≤ s'.calls .commit
  rollbacks : s.Accepts .rollback → s'.Accepts .rollback
  left : ∃ n pushed, s'.depth = s.depth + n ∧ s'.view.saved = pushed ++ s.view.saved ∧ pushed.length ≤ n ∧
    (n = 0 ↔ s.CommitsAccepted s')

theorem CommitsAccepted.of_calls {s s' : SqliteStore} (h : s'.calls .commit = s.calls .commit) :
    s.CommitsAccepted s' := by
  intro n hn hlt
  omega

theorem commitsAccepted_trans {s s₁ s' : SqliteStore} (h : s.Since s₁)
    (hc : s₁.calls .commit ≤ s'.calls .commit) :
    s.CommitsAccepted s' ↔ s.CommitsAccepted s₁ ∧ s₁.CommitsAccepted s' := by
  have hle := h.commits
  constructor
  · intro hacc
    refine ⟨fun n hn hlt => hacc n hn (by omega), fun n hn hlt => ?_⟩
    rw [h.faults]
    exact hacc n (by omega) hlt
  · rintro ⟨h₁, h₂⟩ n hn hlt
    by_cases hlt₁ : n < s₁.calls .commit
    · exact h₁ n hn hlt₁
    · have hf := h₂ n (by omega) hlt
      rw [h.faults] at hf
      exact hf

theorem Since.of_saved {s s' : SqliteStore} (hf : s'.faults = s.faults)
    (hc : s'.calls .commit = s.calls .commit) (hr : s.Accepts .rollback → s'.Accepts .rollback)
    (hd : s'.depth = s.depth) (hs : s'.view.saved = s.view.saved) : s.Since s' :=
  ⟨hf, hc.ge, hr, 0, [], hd, hs, le_rfl, fun _ => .of_calls hc, fun _ => rfl⟩

theorem Since.refl (s : SqliteStore) : s.Since s := .of_saved rfl rfl id rfl rfl

theorem Since.trans {s s₁ s' : SqliteStore} (h : s.Since s₁) (h' : s₁.Since s') : s.Since s' := by
  obtain ⟨m, p, hm, hp, hle, hpacc⟩ := h.left
  obtain ⟨n, q, hn, hq, hle', hqacc⟩ := h'.left
  refine ⟨h'.faults.trans h.faults, h.commits.trans h'.commits, fun hr => h'.rollbacks (h.rollbacks hr),
    m + n, q ++ p, ?_, ?_, ?_, ?_⟩
  · rw [hn, hm, Nat.add_assoc]
  · rw [hq, hp, List.append_assoc]
  · rw [List.length_append]
    omega
  · rw [Nat.add_eq_zero_iff, commitsAccepted_trans h h'.commits, hpacc, hqacc]

theorem since_counted (s : SqliteStore) {c : Call} (hc : c ≠ .commit) : s.Since (s.counted c) :=
  .of_saved rfl (by simp [calls_counted, hc.symm]) (fun h => h.of_calls rfl rfl) rfl rfl

theorem read_since {β : Type} (c : Call) (context : String) (f : Image → β) (hc : c ≠ .commit)
    (s : SqliteStore) : Meets (read c context f) s (fun _ s' => s.Since s') (fun _ s' => s.Since s') := by
  apply (read_spec c context f s).mono
  · rintro a s' ⟨-, rfl⟩
    exact since_counted s hc
  · rintro e s' ⟨-, rfl⟩
    exact since_counted s hc

theorem write_since (c : Call) (context : String) (f : Image → Image) (hc : c ≠ .commit)
    (s : SqliteStore) : Meets (write c context f) s (fun _ s' => s.Since s') (fun _ s' => s.Since s') := by
  apply (write_spec c context f s).mono
  · rintro a s' ⟨hv, hf, hcalls, hd⟩
    refine .of_saved hf ?_ (fun h => h.of_calls hf hcalls) hd (by rw [hv])
    rw [hcalls, calls_counted, if_neg hc.symm]
  · rintro e s' rfl
    exact since_counted s hc

theorem request_since {β : Type} (request : StoreRequest β) (s : SqliteStore) :
    Meets request.run s (fun _ s' => s.Since s') (fun _ s' => s.Since s') := by
  cases request with
  | loadAll => exact read_since _ _ _ (by decide) s
  | get id => exact read_since .get "get" (fun image => image.rows[id]?) (by decide) s
  | put record => exact write_since .put "put" (fun image => image.put record) (by decide) s
  | remove id => exact write_since .remove "remove" (fun image => image.remove id) (by decide) s
  | epoch => exact read_since _ _ _ (by decide) s
  | setEpoch e => exact write_since .setEpoch "set_epoch" (fun image => image.setEpoch e) (by decide) s

/-- Leaving one transaction: of the ones the closure left open and its own, the
innermost is gone. -/
theorem saved_cons (pushed : List Image) (i : Image) (rest : List Image) :
    ∃ top, pushed ++ i :: rest = top :: ((pushed ++ [i]).tail ++ rest) := by
  cases pushed with
  | nil => exact ⟨i, rfl⟩
  | cons j pushed => exact ⟨j, by simp⟩

theorem Since.closed {s s₁ s₂ s₃ : SqliteStore} {i : Image} (h : s₁.Since s₂) (hf : s₁.faults = s.faults)
    (hn : s₁.calls .commit = s.calls .commit) (hd : s₁.depth = s.depth + 1) (hv : s₁.view.saved = i :: s.view.saved)
    (hr₁ : s₁.Accepts .rollback) (hf₃ : s₃.faults = s₂.faults) (hle : s₂.calls .commit ≤ s₃.calls .commit)
    (hr₃ : s₂.Accepts .rollback → s₃.Accepts .rollback) (hd₃ : s₃.depth + 1 = s₂.depth)
    (hv₃ : ∀ top rest, s₂.view.saved = top :: rest → s₃.view.saved = rest)
    (hacc : ∀ n, s₂.calls .commit ≤ n → n < s₃.calls .commit → s₂.faults .commit n = false) : s.Since s₃ := by
  obtain ⟨n, pushed, hdepth, hp, hlen, hpacc⟩ := h.left
  have hcommits := h.commits
  obtain ⟨top, htop⟩ := saved_cons pushed i s.view.saved
  rw [hv] at hp
  refine ⟨by rw [hf₃, h.faults, hf], by omega, fun _ => hr₃ (h.rollbacks hr₁), n, (pushed ++ [i]).tail, by omega,
    hv₃ _ _ (hp.trans htop), by simp; omega, ?_⟩
  rw [hpacc]
  constructor
  · intro hall k hk hlt
    by_cases hlast : k < s₂.calls .commit
    · rw [← hf]
      exact hall k (by omega) hlast
    · rw [← hf, ← h.faults]
      exact hacc k (by omega) hlt
  · intro hall k hk hlt
    rw [hf]
    exact hall k (by omega) (by omega)

theorem Since.refused {s s₁ s₂ : SqliteStore} {i : Image} (h : s₁.Since s₂) (hf : s₁.faults = s.faults)
    (hn : s₁.calls .commit = s.calls .commit) (hd : s₁.depth = s.depth + 1) (hv : s₁.view.saved = i :: s.view.saved)
    (hr₁ : s₁.Accepts .rollback) (href : s₂.refuses .commit = true) : s.Since s₂.commitRefused := by
  obtain ⟨n, pushed, hdepth, hp, hlen, -⟩ := h.left
  have hcommits := h.commits
  obtain ⟨top, htop⟩ := saved_cons pushed i s.view.saved
  rw [hv] at hp
  have hcalls : s₂.commitRefused.calls .commit = s₂.calls .commit + 1 := by
    rw [commitRefused_calls, calls_counted, if_pos rfl]
  have hleft : ∃ left, s₂.commitRefused.view.saved = left ++ s.view.saved ∧ left.length ≤ n + 1 := by
    rcases commitRefused_view (hp.trans htop) with hopen | ⟨hnil, hback⟩
    · exact ⟨pushed ++ [i], by rw [hopen, hp]; simp, by simp; omega⟩
    · exact ⟨[], by rw [hback, (List.append_eq_nil_iff.mp hnil).2]; rfl, by simp⟩
  obtain ⟨left, hleft, hlen'⟩ := hleft
  refine ⟨by rw [commitRefused_faults, h.faults, hf], by omega,
    fun _ => (h.rollbacks hr₁).of_calls s₂.commitRefused_faults s₂.commitRefused_calls, n + 1, left, ?_, hleft, hlen',
    fun h => absurd h (by omega), fun hall => ?_⟩
  · rw [commitRefused_depth]
    omega
  · have hlast := hall (s₂.calls .commit) (by omega) (by omega)
    rw [← hf, ← h.faults] at hlast
    rw [refuses, hlast] at href
    cases href

theorem transaction_since {f : Io SqliteStore α} {s : SqliteStore} (hr : s.Accepts .rollback)
    (hf : ∀ s₁ : SqliteStore, s₁.Accepts .rollback →
      Meets f s₁ (fun _ s₂ => s₁.Since s₂) (fun _ s₂ => s₁.Since s₂)) :
    Meets (transaction f) s (fun _ s' => s.Since s') (fun _ s' => s.Since s') := by
  apply Meets.transaction
  apply ((begin_run s).and (CountedStore.begin_depth s)).mono
  · rintro _ s₁ ⟨⟨-, hv, hfaults, hcalls⟩, hd⟩
    have hc₁ : s₁.calls .commit = s.calls .commit := by rw [hcalls, calls_counted, if_neg (by decide)]
    have hr₁ : s₁.Accepts .rollback := hr.of_calls hfaults hcalls
    have hsaved₁ : s₁.view.saved = s.view.image :: s.view.saved := by rw [hv]
    apply (hf s₁ hr₁).mono
    · intro a s₂ h₂
      obtain ⟨n, pushed, -, hp, -⟩ := h₂.left
      obtain ⟨top, htop⟩ := saved_cons pushed s.view.image s.view.saved
      rw [hv] at hp
      apply ((commit_run s₂ (hp.trans htop)).and (CountedStore.commit_depth s₂)).mono
      · rintro _ s₃ ⟨⟨hok, hv₃, hf₃, hc₃⟩, hd₃⟩
        have hn₃ : s₃.calls .commit = s₂.calls .commit + 1 := by rw [hc₃, calls_counted, if_pos rfl]
        -- committed: the level is closed and the rows stay
        refine h₂.closed hfaults hc₁ hd hsaved₁ hr₁ hf₃ (by omega) (fun h => h.of_calls hf₃ hc₃) hd₃ ?_ ?_
        · intro top' rest' hs
          rw [hp.trans htop] at hs
          cases hs
          rw [hv₃]
        · intro k hk hlt
          obtain rfl : k = s₂.calls .commit := by omega
          exact hok
      · rintro e s₃ ⟨⟨href, rfl⟩, -⟩
        -- the commit was refused: this level stands as the store left it
        exact h₂.refused hfaults hc₁ hd hsaved₁ hr₁ href
    · intro e s₂ h₂
      obtain ⟨n, pushed, -, hp, -⟩ := h₂.left
      obtain ⟨top, htop⟩ := saved_cons pushed s.view.image s.view.saved
      rw [hv] at hp
      apply ((rollback_run s₂ (hp.trans htop)).and (CountedStore.rollback_depth s₂)).mono
      · rintro _ s₃ ⟨⟨-, hv₃, hf₃, hc₃⟩, hd₃⟩
        have hn₃ : s₃.calls .commit = s₂.calls .commit := by
          rw [hc₃, calls_counted, if_neg (by decide)]
        -- rolled back: the level is closed on what was saved when it began
        refine h₂.closed hfaults hc₁ hd hsaved₁ hr₁ hf₃ (by omega) (fun h => h.of_calls hf₃ hc₃) hd₃ ?_ ?_
        · intro top' rest' hs
          rw [hp.trans htop] at hs
          cases hs
          rw [hv₃]
        · intro k hk hlt
          omega
      · rintro e' s₃ ⟨⟨href, -⟩, -⟩
        rw [not_refuses (h₂.rollbacks hr₁)] at href
        cases href
  · rintro e s₁ ⟨⟨-, rfl⟩, -⟩
    exact since_counted s (by decide)

/-- What a closure does to the open transactions, by induction on the closure. -/
theorem closure_since (f : Closure α) {s : SqliteStore} (hr : s.Accepts .rollback) :
    Meets f.run s (fun _ s' => s.Since s') (fun _ s' => s.Since s') := by
  induction f generalizing s with
  | done value => exact Meets.pure (.refl s)
  | fail error => exact Meets.throw (.refl s)
  | call request next ih =>
    apply Meets.bind
    apply Meets.attempt
    apply (request_since request s).mono
    · intro b s₁ h₁
      exact (ih (.ok b) (h₁.rollbacks hr)).mono (fun _ _ h => h₁.trans h) (fun _ _ h => h₁.trans h)
    · intro e s₁ h₁
      exact (ih (.error e) (h₁.rollbacks hr)).mono (fun _ _ h => h₁.trans h) (fun _ _ h => h₁.trans h)
  | transaction f next ihf ih =>
    apply Meets.bind
    apply Meets.attempt
    apply (transaction_since hr (fun s₁ hr₁ => ihf hr₁)).mono
    · intro b s₁ h₁
      exact (ih (.ok b) (h₁.rollbacks hr)).mono (fun _ _ h => h₁.trans h) (fun _ _ h => h₁.trans h)
    · intro e s₁ h₁
      exact (ih (.error e) (h₁.rollbacks hr)).mono (fun _ _ h => h₁.trans h) (fun _ _ h => h₁.trans h)

theorem calls_commit (s : SqliteStore) {i : Image} {rest : List Image} (h : s.view.saved = i :: rest) :
    (stateAfter commit s).calls .commit = s.calls .commit + 1 := by
  have hcalls : Meets commit s (fun _ s' => s'.calls .commit = s.calls .commit + 1)
      (fun _ s' => s'.calls .commit = s.calls .commit + 1) := by
    apply (commit_run s h).mono
    · intro _ s₃ h₃
      rw [h₃.2.2.2, calls_counted, if_pos rfl]
    · intro _ s₃ h₃
      rw [h₃.2, commitRefused_calls, calls_counted, if_pos rfl]
  exact hcalls.stateAfter

theorem calls_rollback (s : SqliteStore) {i : Image} {rest : List Image}
    (h : s.view.saved = i :: rest) : (stateAfter rollback s).calls .commit = s.calls .commit := by
  have hcalls : Meets rollback s (fun _ s' => s'.calls .commit = s.calls .commit)
      (fun _ s' => s'.calls .commit = s.calls .commit) := by
    apply (rollback_run s h).mono
    · intro _ s₃ h₃
      rw [h₃.2.2.2, calls_counted, if_neg (by decide)]
    · intro _ s₃ h₃
      rw [h₃.2, calls_counted, if_neg (by decide)]
  exact hcalls.stateAfter

theorem allOrNothing_iff (f : Closure α) {s : SqliteStore} (hr : s.Accepts .rollback) :
    AllOrNothing f s ↔ s.CommitsAccepted (stateAfter (transaction f.run) s) := by
  have hsince := transaction_since hr (fun s₁ hr₁ => closure_since f hr₁)
  have hs := hsince.stateAfter
  constructor
  · intro h
    -- Both outcomes promise that the handle counts as many transactions as before, so none was left.
    have hdepth : (stateAfter (transaction f.run) s).depth = s.depth :=
      Meets.stateAfter (P := fun s' => s'.depth = s.depth)
        (h.mono (fun _ _ hok => hok.2.1) (fun _ _ herr => herr.2.2))
    obtain ⟨n, _, hn, -, -, hacc⟩ := hs.left
    exact hacc.mp (by omega)
  · intro hacc
    apply allOrNothing_of_balanced
    intro s₁ hb
    have hbegin := (begin_run s).of_ok hb
    have hr₁ : s₁.Accepts .rollback := hr.of_calls hbegin.2.2.1 hbegin.2.2.2
    have hc₁ : s₁.calls .commit = s.calls .commit := by
      rw [hbegin.2.2.2, calls_counted, if_neg (by decide)]
    have hfaults := hbegin.2.2.1
    apply Meets.intro
    · intro a s₂ hrun
      have h₂ := (closure_since f hr₁).of_ok hrun
      obtain ⟨left, pushed, hdepth, hp, hlen, hpacc⟩ := h₂.left
      obtain ⟨top, htop⟩ := saved_cons pushed s.view.image s.view.saved
      rw [hbegin.2.1] at hp
      have hcommit := commit_run s₂ (hp.trans htop)
      have hn : (stateAfter (transaction f.run) s).calls .commit = s₂.calls .commit + 1 := by
        rw [stateAfter_transaction_ok hb hrun]
        exact calls_commit s₂ (hp.trans htop)
      have hcommits := h₂.commits
      have hzero : left = 0 := by
        apply hpacc.mpr
        intro n hle hlt
        rw [hfaults]
        exact hacc n (by omega) (by omega)
      have hnil : pushed = [] := List.eq_nil_of_length_eq_zero (by omega)
      have hsaved : s₂.view.saved = s₁.view.saved := by
        rw [hp, hnil, hbegin.2.1]
        rfl
      refine ⟨hsaved, by rw [hzero] at hdepth; exact hdepth, hcommit.mono (fun _ _ _ => trivial) ?_⟩
      intro _ s₃ h₃
      have hlast := hacc (s₂.calls .commit) (by omega) (by omega)
      rw [refuses, h₂.faults, hfaults, hlast] at h₃
      cases h₃.1
    · intro e s₂ hrun
      have h₂ := (closure_since f hr₁).of_error hrun
      obtain ⟨left, pushed, hdepth, hp, hlen, hpacc⟩ := h₂.left
      obtain ⟨top, htop⟩ := saved_cons pushed s.view.image s.view.saved
      rw [hbegin.2.1] at hp
      have hrollback := rollback_run s₂ (hp.trans htop)
      have hn : (stateAfter (transaction f.run) s).calls .commit = s₂.calls .commit := by
        rw [stateAfter_transaction_error hb hrun]
        exact calls_rollback s₂ (hp.trans htop)
      have hzero : left = 0 := by
        apply hpacc.mpr
        intro n hle hlt
        rw [hfaults]
        exact hacc n (by omega) (by omega)
      have hnil : pushed = [] := List.eq_nil_of_length_eq_zero (by omega)
      have hsaved : s₂.view.saved = s₁.view.saved := by
        rw [hp, hnil, hbegin.2.1]
        rfl
      refine ⟨hsaved, by rw [hzero] at hdepth; exact hdepth, hrollback.mono (fun _ _ _ => trivial) ?_⟩
      intro _ s₃ h₃
      rw [not_refuses (h₂.rollbacks hr₁)] at h₃
      cases h₃.1

end SqliteStore

variable {α : Type}

/-- A transaction over `SqliteStore`, at any depth and with any closure, is all or
nothing exactly when none of the commits issued on the way is refused; over
`MemoryStore` it always is. -/
theorem transaction_all_or_nothing_iff (f : Closure α) :
    (∀ s : SqliteStore, s.Accepts .rollback →
      (AllOrNothing f s ↔ s.CommitsAccepted (stateAfter (transaction f.run) s))) ∧
    ∀ s : MemoryStore, AllOrNothing f s :=
  ⟨fun _ hr => SqliteStore.allOrNothing_iff f hr, MemoryStore.allOrNothing f⟩

/-- A row for the worked instances. -/
def StoredEnvelope.sample (id content : Byte) : StoredEnvelope :=
  ⟨⟨ByteArr.repeated 16 id⟩, .item, none, none, [content], Hlc.zero ⟨ByteArr.repeated 16 1⟩⟩

/-- A closure that writes one row. -/
def Closure.putSample (id content : Byte) : Closure Unit :=
  .call (.put (.sample id content)) fun answer =>
    match answer with
    | .ok value => .done value
    | .error error => .fail error

theorem transaction_all_or_nothing_fresh :
    AllOrNothing (Closure.putSample 1 7) (SqliteStore.new (fun _ _ => false) (fun _ => false)) :=
  ((transaction_all_or_nothing_iff (Closure.putSample 1 7)).1 _ (fun _ _ => rfl)).mpr
    (fun _ _ _ => rfl)

/-- The only `COMMIT` is refused and leaves the transaction open: `transaction` returns the error, the row it wrote is
readable, and its transaction is still open. The next one returns `Ok` and has
written nothing to the disk. -/
theorem refused_commit_leaves_transaction :
    let s := SqliteStore.new (fun c n => decide (c = .commit ∧ n = 0)) (fun _ => false)
    s.Accepts .rollback ∧ ¬ AllOrNothing (Closure.putSample 1 7) s ∧
      ∃ s₁ s₂, transaction (Closure.putSample 1 7).run s = .error (.storage "commit") s₁ ∧
        s₁.view.image ≠ s.view.image ∧ s₁.view.saved.length = 1 ∧
        transaction (Closure.putSample 2 8).run s₁ = .ok () s₂ ∧ s₂.view.durable = .empty := by
  intro s
  refine ⟨fun n _ => ?_, ?_, _, _, rfl, by decide, by decide, rfl, by decide⟩
  · simp [s, SqliteStore.new]
  · intro h
    have herr := h.of_error (e := .storage "commit") rfl
    exact absurd herr.2.1 (by decide)

end Misty
