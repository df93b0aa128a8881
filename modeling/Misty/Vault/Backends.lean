import Misty.Vault.Store

/- The two backends and that they are lawful. `MemoryStore` snapshots its tables;
   `SqliteStore` keeps a depth counter beside a connection whose open transaction
   and savepoints are named by it. -/
namespace Misty

/-! ## In memory -/

structure MemoryStore where
  image : Image
  snapshots : List Image

namespace MemoryStore

def new : MemoryStore := ⟨.empty, []⟩

instance : VaultStore MemoryStore where
  loadAll := fun self => .ok self.image.records self
  get id := fun self => .ok self.image.rows[id]? self
  put record := fun self => .ok () { self with image := self.image.put record }
  remove id := fun self => .ok () { self with image := self.image.remove id }
  epoch := fun self => .ok self.image.epoch self
  setEpoch epoch := fun self => .ok () { self with image := self.image.setEpoch epoch }
  begin := fun self => .ok () { self with snapshots := self.image :: self.snapshots }
  commit := fun self =>
    match self.snapshots with
    | [] => .error .noTransaction self
    | _ :: rest => .ok () { self with snapshots := rest }
  rollback := fun self =>
    match self.snapshots with
    | [] => .error .noTransaction self
    | image :: rest => .ok () ⟨image, rest⟩

instance : LawfulStore MemoryStore where
  view s := ⟨s.image, s.snapshots⟩
  Accepts _ _ := True
  loadAll_spec _ := ⟨rfl, rfl, fun _ h => h⟩
  get_spec _ _ := ⟨rfl, rfl, fun _ h => h⟩
  epoch_spec _ := ⟨rfl, rfl, fun _ h => h⟩
  put_spec _ _ := ⟨rfl, fun _ h => h⟩
  remove_spec _ _ := ⟨rfl, fun _ h => h⟩
  setEpoch_spec _ _ := ⟨rfl, fun _ h => h⟩
  begin_spec _ := ⟨rfl, fun _ h => h⟩
  commit_spec s i rest h := by
    obtain ⟨image, snapshots⟩ := s
    cases (h : snapshots = i :: rest)
    exact ⟨rfl, fun _ h => h⟩
  rollback_spec s i rest h := by
    obtain ⟨image, snapshots⟩ := s
    cases (h : snapshots = i :: rest)
    exact ⟨rfl, fun _ h => h⟩

instance : CountedStore MemoryStore where
  depth s := s.snapshots.length
  begin_depth _ := rfl
  commit_depth s := by
    obtain ⟨image, snapshots⟩ := s
    cases snapshots <;> rfl
  rollback_depth s := by
    obtain ⟨image, snapshots⟩ := s
    cases snapshots <;> rfl

end MemoryStore

/-! ## SQLite -/

/-- A connection: the tables as its statements see them, and the transaction and the
savepoints that are open, innermost first, each with the tables it would restore. A
savepoint carries the number in its name. -/
structure Connection where
  image : Image
  stack : List (Option Nat × Image)

namespace Connection

/-- `BEGIN IMMEDIATE`, an error inside a transaction. -/
def beginImmediate (c : Connection) : Option Connection :=
  if c.stack = [] then some { c with stack := [(none, c.image)] } else none

/-- `SAVEPOINT vault_n`. -/
def savepoint (c : Connection) (n : Nat) : Option Connection :=
  some { c with stack := (some n, c.image) :: c.stack }

/-- `COMMIT`, an error outside a transaction. -/
def commit (c : Connection) : Option Connection :=
  if c.stack = [] then none else some { c with stack := [] }

/-- `RELEASE vault_n`: the innermost savepoint of that name and all inside it. -/
def release (c : Connection) (n : Nat) : Option Connection :=
  match c.stack.dropWhile (fun e => e.1 ≠ some n) with
  | [] => none
  | _ :: rest => some { c with stack := rest }

def rollback (c : Connection) : Option Connection :=
  match c.stack.getLast? with
  | none => none
  | some e => some ⟨e.2, []⟩

/-- `ROLLBACK TO vault_n`, which leaves the savepoint open. -/
def rollbackTo (c : Connection) (n : Nat) : Option Connection :=
  match c.stack.dropWhile (fun e => e.1 ≠ some n) with
  | [] => none
  | e :: rest => some ⟨e.2, e :: rest⟩

/-- What SQLite leaves when it gives up the statement that would have ended the transaction. -/
def cancel (c : Connection) : Connection :=
  match c.stack with
  | [e] => ⟨e.2, []⟩
  | _ => c

end Connection

/-- The names the store has given its open transactions at a depth. -/
def openNames : Nat → List (Option Nat)
  | 0 => []
  | depth + 1 => (if depth = 0 then none else some depth) :: openNames depth

/-- `SqliteStore`. `faults c n` says whether the `n`-th call of that kind is refused by the
file system or a lock, and `cancels n` whether SQLite answers the `n`-th commit, if it is
refused, by rolling the transaction back itself: it does for a full disk and an I/O error, and
not for `SQLITE_BUSY`. The depth does not follow that, so it may be ahead of the connection. -/
structure SqliteStore where
  connection : Connection
  depth : Nat
  faults : Call → Nat → Bool
  cancels : Nat → Bool
  calls : Call → Nat
  aligned : connection.stack.map Prod.fst <+: openNames depth

namespace SqliteStore

/-- A store over empty tables. -/
def new (faults : Call → Nat → Bool) (cancels : Nat → Bool) : SqliteStore :=
  ⟨⟨.empty, []⟩, 0, faults, cancels, fun _ => 0, List.nil_prefix⟩

/-- Whether the next call of a kind is refused. -/
def refuses (self : SqliteStore) (c : Call) : Bool := self.faults c (self.calls c)

/-- One more call of a kind was made. -/
def counted (self : SqliteStore) (c : Call) : SqliteStore :=
  { self with calls := Function.update self.calls c (self.calls c + 1) }

/-- A statement that reads. -/
def read {α : Type} (c : Call) (context : String) (f : Image → α) : Io SqliteStore α := fun self =>
  if self.refuses c then .error (.storage context) (self.counted c)
  else .ok (f self.connection.image) (self.counted c)

/-- A statement that writes. -/
def write (c : Call) (context : String) (f : Image → Image) : Io SqliteStore Unit := fun self =>
  if self.refuses c then .error (.storage context) (self.counted c)
  else
    let self := self.counted c
    .ok () { self with
      connection := { self.connection with image := f self.connection.image }
      aligned := self.aligned }

theorem stack_of_depth_zero {c : Connection} (h : c.stack.map Prod.fst <+: openNames 0) : c.stack = [] :=
  List.map_eq_nil_iff.mp (List.prefix_nil.mp h)

theorem stack_of_depth_succ {c : Connection} {d : Nat} {e : Option Nat × Image} {rest : List (Option Nat × Image)}
    (h : c.stack.map Prod.fst <+: openNames (d + 1)) (hs : c.stack = e :: rest) :
    e = ((if d = 0 then none else some d), e.2) ∧ rest.map Prod.fst <+: openNames d := by
  rw [hs, List.map_cons, openNames, List.cons_prefix_cons] at h
  exact ⟨Prod.ext h.1 rfl, h.2⟩

/-- The statement of `SqliteStore::begin` at a depth. -/
def beginStatement (c : Connection) (depth : Nat) : Option Connection :=
  if depth = 0 then c.beginImmediate else c.savepoint depth

/-- The statement of `SqliteStore::commit` that goes down to a depth. -/
def commitStatement (c : Connection) (depth : Nat) : Option Connection :=
  if depth = 0 then c.commit else c.release depth

/-- The statements of `SqliteStore::rollback` that go down to a depth. -/
def rollbackStatement (c : Connection) (depth : Nat) : Option Connection :=
  if depth = 0 then c.rollback else (c.rollbackTo depth).bind (fun c => c.release depth)

theorem beginStatement_eq {c : Connection} {d : Nat} (h : c.stack.map Prod.fst <+: openNames d) :
    beginStatement c d = some ⟨c.image, ((if d = 0 then none else some d), c.image) :: c.stack⟩ := by
  unfold beginStatement
  cases d with
  | zero =>
    have hs := stack_of_depth_zero h
    simp [Connection.beginImmediate, hs]
  | succ n => simp [Connection.savepoint]

theorem commitStatement_eq {c : Connection} {d : Nat} {i : Image} {rest : List (Option Nat × Image)}
    (h : c.stack = ((if d = 0 then none else some d), i) :: rest)
    (hrest : rest.map Prod.fst <+: openNames d) :
    commitStatement c d = some ⟨c.image, rest⟩ := by
  unfold commitStatement
  cases d with
  | zero =>
    have hnil : rest = [] := List.map_eq_nil_iff.mp (List.prefix_nil.mp hrest)
    simp [Connection.commit, h, hnil]
  | succ n => simp [Connection.release, h]

theorem rollbackStatement_eq {c : Connection} {d : Nat} {i : Image}
    {rest : List (Option Nat × Image)} (h : c.stack = ((if d = 0 then none else some d), i) :: rest)
    (hrest : rest.map Prod.fst <+: openNames d) :
    rollbackStatement c d = some ⟨i, rest⟩ := by
  unfold rollbackStatement
  cases d with
  | zero =>
    have hnil : rest = [] := List.map_eq_nil_iff.mp (List.prefix_nil.mp hrest)
    simp [Connection.rollback, h, hnil]
  | succ n => simp [Connection.rollbackTo, Connection.release, h]

theorem commitStatement_nil {c : Connection} (h : c.stack = []) (d : Nat) : commitStatement c d = none := by
  unfold commitStatement
  split
  · simp [Connection.commit, h]
  · simp [Connection.release, h]

theorem rollbackStatement_nil {c : Connection} (h : c.stack = []) (d : Nat) : rollbackStatement c d = none := by
  unfold rollbackStatement
  split
  · simp [Connection.rollback, h]
  · simp [Connection.rollbackTo, h]

/-- A commit that goes through closes the innermost transaction, which has the name asked for. -/
theorem aligned_commit {c c' : Connection} {d depth : Nat} (h : c.stack.map Prod.fst <+: openNames depth)
    (hd : depth = d + 1) (hc : commitStatement c d = some c') : c'.stack.map Prod.fst <+: openNames d := by
  rw [hd] at h
  cases hs : c.stack with
  | nil =>
    rw [commitStatement_nil hs] at hc
    cases hc
  | cons e rest =>
    obtain ⟨he, hrest⟩ := stack_of_depth_succ h hs
    rw [he] at hs
    rw [commitStatement_eq hs hrest] at hc
    cases hc
    exact hrest

theorem aligned_rollback {c c' : Connection} {d depth : Nat} (h : c.stack.map Prod.fst <+: openNames depth)
    (hd : depth = d + 1) (hc : rollbackStatement c d = some c') : c'.stack.map Prod.fst <+: openNames d := by
  rw [hd] at h
  cases hs : c.stack with
  | nil =>
    rw [rollbackStatement_nil hs] at hc
    cases hc
  | cons e rest =>
    obtain ⟨he, hrest⟩ := stack_of_depth_succ h hs
    rw [he] at hs
    rw [rollbackStatement_eq hs hrest] at hc
    cases hc
    exact hrest

theorem aligned_cancel {c : Connection} {names : List (Option Nat)} (h : c.stack.map Prod.fst <+: names) :
    c.cancel.stack.map Prod.fst <+: names := by
  unfold Connection.cancel
  split
  · exact List.nil_prefix
  · exact h

/-- `SqliteStore::begin`: the depth moves only when the statement went through. -/
def begin : Io SqliteStore Unit := fun self =>
  if self.refuses .begin then .error (.storage "begin") (self.counted .begin)
  else match h : beginStatement self.connection self.depth with
    | none => .error (.storage "begin") (self.counted .begin)
    | some connection => .ok () { self.counted .begin with
        connection := connection
        depth := self.depth + 1
        aligned := by
          rw [beginStatement_eq self.aligned] at h
          cases h
          simpa [openNames] using self.aligned }

/-- A commit that is refused: the transaction is open as before, or SQLite has rolled it back. -/
def commitRefused (self : SqliteStore) : SqliteStore :=
  if self.cancels (self.calls .commit) then
    { self.counted .commit with
      connection := self.connection.cancel
      aligned := aligned_cancel self.aligned }
  else self.counted .commit

/-- `SqliteStore::commit`: the depth moves only when the statement went through. -/
def commit : Io SqliteStore Unit := fun self =>
  match hd : self.depth with
  | 0 => .error .noTransaction self
  | depth + 1 =>
    if self.refuses .commit then .error (.storage "commit") self.commitRefused
    else match h : commitStatement self.connection depth with
      | none => .error (.storage "commit") (self.counted .commit)
      | some connection => .ok () { self.counted .commit with
          connection := connection
          depth := depth
          aligned := aligned_commit self.aligned hd h }

def rollback : Io SqliteStore Unit := fun self =>
  match hd : self.depth with
  | 0 => .error .noTransaction self
  | depth + 1 =>
    if self.refuses .rollback then .error (.storage "rollback") (self.counted .rollback)
    else match h : rollbackStatement self.connection depth with
      | none => .error (.storage "rollback") (self.counted .rollback)
      | some connection => .ok () { self.counted .rollback with
          connection := connection
          depth := depth
          aligned := aligned_rollback self.aligned hd h }

instance : VaultStore SqliteStore where
  loadAll := read .loadAll "query load_all" Image.records
  get id := read .get "get" (fun image => image.rows[id]?)
  put record := write .put "put" (fun image => image.put record)
  remove id := write .remove "remove" (fun image => image.remove id)
  epoch := read .epoch "epoch" Image.epoch
  setEpoch epoch := write .setEpoch "set_epoch" (fun image => image.setEpoch epoch)
  begin := begin
  commit := commit
  rollback := rollback

/-- What is readable over the connection, and what its open transactions would restore. -/
def view (s : SqliteStore) : StoreView := ⟨s.connection.image, s.connection.stack.map Prod.snd⟩

/-- The calls of that kind still to come all go through. -/
def Accepts (c : Call) (s : SqliteStore) : Prop := ∀ n, s.calls c ≤ n → s.faults c n = false

theorem calls_counted (s : SqliteStore) (c d : Call) :
    (s.counted c).calls d = if d = c then s.calls c + 1 else s.calls d := by
  simp [counted, Function.update_apply]

theorem calls_le_counted (s : SqliteStore) (c d : Call) : s.calls d ≤ (s.counted c).calls d := by
  rw [calls_counted]
  split
  · next h =>
    subst h
    omega
  · exact le_refl _

theorem read_spec {α : Type} (c : Call) (context : String) (f : Image → α) (s : SqliteStore) :
    Meets (read c context f) s
      (fun a s' => a = f s.connection.image ∧ s' = s.counted c)
      (fun _ s' => s.refuses c = true ∧ s' = s.counted c) := by
  unfold Meets read
  by_cases h : s.refuses c = true
  · simp [h]
  · simp [h]

theorem write_spec (c : Call) (context : String) (f : Image → Image) (s : SqliteStore) :
    Meets (write c context f) s
      (fun _ s' => s'.view = ⟨f s.view.image, s.view.saved⟩ ∧ s'.faults = s.faults ∧
        s'.calls = (s.counted c).calls ∧ s'.depth = s.depth)
      (fun _ s' => s' = s.counted c) := by
  unfold Meets write
  by_cases h : s.refuses c = true
  · simp [h]
  · simp [h, view, counted]

theorem begin_run (s : SqliteStore) :
    Meets begin s
      (fun _ s' => s.refuses .begin = false ∧ s'.view = ⟨s.view.image, s.view.image :: s.view.saved⟩ ∧
        s'.faults = s.faults ∧ s'.calls = (s.counted .begin).calls)
      (fun _ s' => s.refuses .begin = true ∧ s' = s.counted .begin) := by
  unfold Meets begin
  by_cases h : s.refuses .begin = true
  · simp [h]
  · simp only [h, Bool.false_eq_true, if_false]
    split
    · next hx =>
      split at hx
      · next hn =>
        rw [beginStatement_eq s.aligned] at hn
        cases hn
      · next c hc =>
        rw [beginStatement_eq s.aligned] at hc
        cases hc
        cases hx
        simp [view, counted]
    · next hx =>
      split at hx
      · next hn =>
        rw [beginStatement_eq s.aligned] at hn
        cases hn
      · cases hx

/-- An open transaction of the view is one of the connection, at the depth below. -/
theorem open_of_saved {s : SqliteStore} {i : Image} {rest : List Image}
    (h : s.view.saved = i :: rest) :
    ∃ d tail, s.depth = d + 1 ∧
      s.connection.stack = ((if d = 0 then none else some d), i) :: tail ∧
      tail.map Prod.fst <+: openNames d ∧ tail.map Prod.snd = rest := by
  have hal := s.aligned
  cases hs : s.connection.stack with
  | nil => simp [view, hs] at h
  | cons e tail =>
    simp only [view, hs, List.map_cons, List.cons.injEq] at h
    cases hd : s.depth with
    | zero =>
      rw [hd] at hal
      rw [stack_of_depth_zero hal] at hs
      cases hs
    | succ d =>
      rw [hd] at hal
      obtain ⟨he, htail⟩ := stack_of_depth_succ hal hs
      exact ⟨d, tail, rfl, by rw [he, h.1], htail, h.2⟩

/-- Only the statement that ends the outermost transaction can take it away. -/
theorem commitRefused_view {s : SqliteStore} {i : Image} {rest : List Image} (h : s.view.saved = i :: rest) :
    s.commitRefused.view = s.view ∨ rest = [] ∧ s.commitRefused.view = ⟨i, []⟩ := by
  unfold commitRefused
  split
  swap
  · exact .inl rfl
  obtain ⟨_, tail, -, hs, -, hrest⟩ := open_of_saved h
  cases tail with
  | nil =>
    refine .inr ⟨hrest.symm, ?_⟩
    simp [view, Connection.cancel, hs]
  | cons e tail =>
    refine .inl ?_
    simp [view, Connection.cancel, hs]

@[simp] theorem commitRefused_faults (s : SqliteStore) : s.commitRefused.faults = s.faults := by
  unfold commitRefused
  split <;> rfl

@[simp] theorem commitRefused_calls (s : SqliteStore) : s.commitRefused.calls = (s.counted .commit).calls := by
  unfold commitRefused
  split <;> rfl

@[simp] theorem commitRefused_depth (s : SqliteStore) : s.commitRefused.depth = s.depth := by
  unfold commitRefused
  split <;> rfl

theorem commit_run (s : SqliteStore) {i : Image} {rest : List Image} (h : s.view.saved = i :: rest) :
    Meets commit s
      (fun _ s' => s.refuses .commit = false ∧ s'.view = ⟨s.view.image, rest⟩ ∧
        s'.faults = s.faults ∧ s'.calls = (s.counted .commit).calls)
      (fun _ s' => s.refuses .commit = true ∧ s' = s.commitRefused) := by
  -- as for the rollback
  obtain ⟨d, tail, hd, hs, htail, hrest⟩ := open_of_saved h
  have hst := commitStatement_eq hs htail
  unfold Meets commit
  split
  · next hx =>
    split at hx
    · cases hx
    · next d' hd' =>
      obtain rfl : d' = d := by omega
      split at hx
      · cases hx
      · next hr =>
        split at hx
        · cases hx
        · next c hc =>
          rw [hst] at hc
          cases hc
          cases hx
          simp [hr, view, counted, hrest]
  · next hx =>
    split at hx
    · next hz => omega
    · next d' hd' =>
      obtain rfl : d' = d := by omega
      split at hx
      · next hr =>
        cases hx
        exact ⟨hr, rfl⟩
      · split at hx
        · next hc =>
          rw [hst] at hc
          cases hc
        · cases hx

theorem rollback_run (s : SqliteStore) {i : Image} {rest : List Image}
    (h : s.view.saved = i :: rest) :
    Meets rollback s
      (fun _ s' => s.refuses .rollback = false ∧ s'.view = ⟨i, rest⟩ ∧
        s'.faults = s.faults ∧ s'.calls = (s.counted .rollback).calls)
      (fun _ s' => s.refuses .rollback = true ∧ s' = s.counted .rollback) := by
  -- something is saved, so the depth is above zero and the statement is there
  obtain ⟨d, tail, hd, hs, htail, hrest⟩ := open_of_saved h
  have hst := rollbackStatement_eq hs htail
  unfold Meets rollback
  split
  · next hx =>
    split at hx
    · cases hx
    · next d' hd' =>
      obtain rfl : d' = d := by omega
      split at hx
      · cases hx
      · next hr =>
        split at hx
        · cases hx
        · next c hc =>
          rw [hst] at hc
          cases hc
          cases hx
          simp [hr, view, counted, hrest]
  · next hx =>
    split at hx
    · next hz => omega
    · next d' hd' =>
      obtain rfl : d' = d := by omega
      split at hx
      · next hr =>
        cases hx
        exact ⟨hr, rfl⟩
      · split at hx
        · next hc =>
          rw [hst] at hc
          cases hc
        · cases hx

theorem not_refuses {s : SqliteStore} {c : Call} (h : s.Accepts c) : s.refuses c = false :=
  h _ (le_refl _)

/-- A promise is kept by a store with the same plan and more calls behind it. -/
theorem Accepts.of_calls {s s' : SqliteStore} {c d : Call} (h : s.Accepts d)
    (hf : s'.faults = s.faults) (hc : s'.calls = (s.counted c).calls) : s'.Accepts d := by
  intro n hn
  rw [hf]
  rw [hc] at hn
  exact h n (le_trans (calls_le_counted s c d) hn)

theorem read_lawful {α : Type} (c : Call) (context : String) (f : Image → α) (s : SqliteStore) :
    Meets (read c context f) s
      (fun a s' => s'.view = s.view ∧ a = f s.view.image ∧ ∀ d, s.Accepts d → s'.Accepts d)
      (fun _ s' => s'.view = s.view ∧ (∀ d, s.Accepts d → s'.Accepts d) ∧ ¬ s.Accepts c) := by
  apply (read_spec c context f s).mono
  · rintro a s' ⟨ha, rfl⟩
    exact ⟨rfl, ha, fun d h => h.of_calls rfl rfl⟩
  · rintro e s' ⟨hr, rfl⟩
    refine ⟨rfl, fun d h => h.of_calls rfl rfl, fun hacc => ?_⟩
    rw [not_refuses hacc] at hr
    cases hr

theorem write_lawful (c : Call) (context : String) (f : Image → Image) (s : SqliteStore) :
    Meets (write c context f) s
      (fun _ s' => s'.view = ⟨f s.view.image, s.view.saved⟩ ∧ ∀ d, s.Accepts d → s'.Accepts d)
      (fun _ s' => s'.view = s.view ∧ ∀ d, s.Accepts d → s'.Accepts d) := by
  apply (write_spec c context f s).mono
  · intro _ s' h
    exact ⟨h.1, fun d hd => hd.of_calls h.2.1 h.2.2.1⟩
  · rintro e s' rfl
    exact ⟨rfl, fun d h => h.of_calls rfl rfl⟩

instance : LawfulStore SqliteStore where
  view := view
  Accepts c s := s.Accepts c
  loadAll_spec s := read_lawful _ _ _ s
  get_spec _ s := (read_lawful _ _ _ s).mono (fun _ _ h => h) (fun _ _ h => ⟨h.1, h.2.1⟩)
  epoch_spec s := read_lawful _ _ _ s
  put_spec _ s := write_lawful _ _ _ s
  remove_spec _ s := write_lawful _ _ _ s
  setEpoch_spec _ s := write_lawful _ _ _ s
  begin_spec s := by
    apply (begin_run s).mono
    · intro _ s' h
      exact ⟨h.2.1, fun d hd => hd.of_calls h.2.2.1 h.2.2.2⟩
    · rintro e s' ⟨-, rfl⟩
      exact ⟨rfl, fun d h => h.of_calls rfl rfl⟩
  commit_spec s i rest h := by
    apply (commit_run s h).mono
    · intro _ s' h
      exact ⟨h.2.1, fun d hd => hd.of_calls h.2.2.1 h.2.2.2⟩
    · rintro e s' ⟨hr, rfl⟩
      refine ⟨commitRefused_view h, fun d hd => hd.of_calls s.commitRefused_faults s.commitRefused_calls, fun hacc => ?_⟩
      rw [not_refuses hacc] at hr
      cases hr
  rollback_spec s i rest h := by
    apply (rollback_run s h).mono
    · intro _ s' h
      exact ⟨h.2.1, fun d hd => hd.of_calls h.2.2.1 h.2.2.2⟩
    · rintro e s' ⟨hr, rfl⟩
      refine ⟨rfl, fun d h => h.of_calls rfl rfl, fun hacc => ?_⟩
      rw [not_refuses hacc] at hr
      cases hr

instance : CountedStore SqliteStore where
  depth s := s.depth
  begin_depth s := by
    show Meets begin s _ _
    unfold Meets begin
    split
    · next hx =>
      split at hx
      · cases hx
      · split at hx
        · cases hx
        · cases hx
          rfl
    · next hx =>
      split at hx
      · cases hx
        rfl
      · split at hx
        · cases hx
          rfl
        · cases hx
  commit_depth s := by
    show Meets commit s _ _
    unfold Meets commit
    split
    · next hx =>
      split at hx
      · cases hx
      · next d hd =>
        split at hx
        · cases hx
        · split at hx
          · cases hx
          · cases hx
            exact hd.symm
    · next hx =>
      split at hx
      · cases hx
        rfl
      · split at hx
        · cases hx
          exact s.commitRefused_depth
        · split at hx
          · cases hx
            rfl
          · cases hx
  rollback_depth s := by
    show Meets rollback s _ _
    unfold Meets rollback
    split
    · next hx =>
      split at hx
      · cases hx
      · next d hd =>
        split at hx
        · cases hx
        · split at hx
          · cases hx
          · cases hx
            exact hd.symm
    · next hx =>
      split at hx
      · cases hx
        rfl
      · split at hx
        · cases hx
          rfl
        · split at hx
          · cases hx
            rfl
          · cases hx

end SqliteStore

end Misty
