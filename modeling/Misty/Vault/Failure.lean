import Misty.Vault.Move
import Misty.Vault.Backends

/- A failed merge or local write is invisible, exactly when the store does not refuse
   the commit, and leave its transaction open, after it accepted the writes: the model
   is adopted after the transaction, everything before it is quiet, and `transaction`
   rolls back an error of its closure but not one of the commit itself. -/
namespace Misty

variable {S : Type} [LawfulStore S] {E : Externals} {amb : Ambient}

open LawfulStore (view Accepts)

/-- After an error the model and every row are as before, and for a merge the clock
too. -/
def FailureInvisible (E : Externals) (amb : Ambient) (op : AtomicOp) (v : Vault S) : Prop :=
  ∀ e w, op.run E amb v = .error e w →
    w.items = v.items ∧ w.groups = v.groups ∧ w.conflicts = v.conflicts ∧ w.epoch = v.epoch ∧
      (view w.store).image = (view v.store).image ∧
      ∀ changes, op = .mergeRemote changes → w.hlc = v.hlc

/-- The operation reaches its transaction, the store accepts the writes, which change a
row, and then refuses the commit and leaves the transaction open. -/
def RefusesCommit (E : Externals) (amb : Ambient) (op : AtomicOp) (v : Vault S) : Prop :=
  ∃ staged w, op.staged E amb v = .ok staged w ∧ CommitRefused staged.writes w.store ∧
    staged.writes.foldl Write.apply (view v.store).image ≠ (view v.store).image

/-- A failed operation is invisible exactly when it does not meet a commit that is
refused, with its transaction left open, after writes that changed a row. -/
theorem failed_operation_invisible_iff (op : AtomicOp) (v : Vault S) (hr : Accepts .rollback v.store) :
    FailureInvisible E amb op v ↔ ¬ RefusesCommit E amb op v := by
  constructor
  · rintro hinv ⟨staged, w, hstaged, hrefused, hchange⟩
    obtain ⟨hq, -, -⟩ := (op.staged_spec v).of_ok hstaged
    obtain ⟨e, s, hrun, himage⟩ := transaction_refused hrefused
    have hfail : op.run E amb v = .error e { w with store := s } := by
      rw [AtomicOp.run_eq, run_bind_ok hstaged]
      apply run_bind_error
      unfold Vault.onStore
      rw [hrun]
    have hsame : (view s).image = (view v.store).image := (hinv _ _ hfail).2.2.2.2.1
    rw [hq.view] at himage
    exact hchange (himage.symm.trans hsame)
  · intro hno e u hrun
    rw [AtomicOp.run_eq] at hrun
    have hall : Meets (op.staged E amb >>= Vault.settle) v (fun _ _ => True) (fun _ u =>
        u.items = v.items ∧ u.groups = v.groups ∧ u.conflicts = v.conflicts ∧ u.epoch = v.epoch ∧
          (view u.store).image = (view v.store).image ∧
          ∀ changes, op = .mergeRemote changes → u.hlc = v.hlc) := by
      apply Meets.bind
      apply Meets.intro
      · intro staged w hstaged
        obtain ⟨hq, hclock, -⟩ := (op.staged_spec v).of_ok hstaged
        apply (settle_spec staged w).mono (fun _ _ _ => trivial)
        rintro e u ⟨⟨s, rfl⟩, hend⟩
        refine ⟨hq.items, hq.groups, hq.conflicts, hq.epoch, ?_, hclock⟩
        -- the operation failed before the commit, or at a refused rollback, or at the commit
        rcases hend with ⟨hq', -⟩ | hback | ⟨s', hrefused, hu, himage⟩
        · rw [hq'.view, hq.view]
        · exact absurd (hq.accepts _ hr) hback
        · obtain rfl : s = s' := congrArg Vault.store hu
          by_contra hne
          rw [hq.view] at himage
          exact hno ⟨staged, w, hstaged, hrefused, fun h => hne (himage.trans h)⟩
      · intro e w hstaged
        obtain ⟨hq, hclock⟩ := (op.staged_spec v).of_error hstaged
        exact ⟨hq.items, hq.groups, hq.conflicts, hq.epoch, by rw [hq.view], hclock⟩
    exact hall.of_error hrun

/-- The group `add_group` makes on the host `Ambient.sample 5`. -/
def Group.sample : Group :=
  Group.create ⟨⟨ByteArr.repeated 16 5⟩⟩ ['g'] (Hlc.early 1 1) (I64.saturate MIN_WALL_MS)

/-- `add_group` on an empty vault over an SQLite store. -/
def addsGroup (store : SqliteStore) : EStateM.Result VaultError (Vault SqliteStore) Unit :=
  (AtomicOp.object (.addGroup ['g'])).run (.sample [] [.sample]) (.sample 5) (Vault.sample store [1])

/-- A store that refuses its writes. -/
def SqliteStore.readOnly : SqliteStore := .new (fun c _ => c = .put) fun _ => false

/-- A store whose first commit is refused, and rolled back by SQLite or not. -/
def SqliteStore.refusing (cancels : Bool) : SqliteStore :=
  .new (fun c n => decide (c = .commit ∧ n = 0)) fun _ => cancels

/-- A refused write, and a commit that SQLite rolls back itself: the operation fails, and
nobody can tell. -/
theorem failed_operation_invisible_put_refused :
    ((∃ w, addsGroup .readOnly = .error (.storage "put") w) ∧
      FailureInvisible (.sample [] [.sample]) (.sample 5) (.object (.addGroup ['g'])) (Vault.sample SqliteStore.readOnly [1])) ∧
    (∃ w, addsGroup (.refusing true) = .error (.storage "commit") w ∧ w.store.depth = 1) ∧
      FailureInvisible (.sample [] [.sample]) (.sample 5) (.object (.addGroup ['g']))
        (Vault.sample (SqliteStore.refusing true) [1]) := by
  refine ⟨⟨⟨_, rfl⟩, (failed_operation_invisible_iff _ _ (fun _ _ => rfl)).mpr ?_⟩, ⟨_, rfl, rfl⟩,
    (failed_operation_invisible_iff _ _ (fun _ _ => ?_)).mpr ?_⟩
  · rintro ⟨staged, w, hstaged, hrefused, -⟩
    apply not_accepts_of_commitRefused hrefused
    apply ((AtomicOp.staged_spec _ _).of_ok hstaged).1.accepts
    exact fun _ _ => rfl
  · simp [Vault.sample, SqliteStore.refusing, SqliteStore.new]
  · rintro ⟨staged, w, hstaged, ⟨s₁, s₂, e, s₃, hb, hw, hc, hopen⟩, -⟩
    cases hstaged
    cases hb
    cases hw
    cases hc
    exact absurd hopen (by decide)

/-- A commit that is refused with its transaction left open: `add_group` fails, and the row
of the group it did not add can be read. -/
theorem refused_commit_visible :
    let v := Vault.sample (SqliteStore.refusing false) [1]
    Accepts .rollback v.store ∧
      (∃ w, addsGroup (.refusing false) = .error (.storage "commit") w ∧
        w.groups = .new ∧ (view w.store).image.rows.size = 1) ∧
      ¬ FailureInvisible (.sample [] [.sample]) (.sample 5) (.object (.addGroup ['g'])) v := by
  intro v
  refine ⟨fun n _ => ?_, ⟨_, rfl, by decide, by decide⟩, ?_⟩
  · simp [v, Vault.sample, SqliteStore.refusing, SqliteStore.new]
  · intro h
    have hrows := (h (.storage "commit") _ rfl).2.2.2.2.1
    exact absurd hrows (by decide)

end Misty
