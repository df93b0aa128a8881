import Misty.Sync.Engine
import Misty.Vault.Rows

/- What the engine runs in. A `World` is the vault, the other side (a `Peer`: how it
   answers and what it does by itself), and a record of what has happened: the states
   saved, the rows a purge took, the envelopes a merge accepted, the requests sent and
   the answers received.

   A `Run` is a world and a program of the engine at work. A step answers its call,
   drops it at an await, begins the next method, edits the vault between two methods,
   restarts from what is durable, or moves the other side. `Permit` narrows the steps
   of a run, for the theorems that hold only under a condition on them. -/
namespace Misty

open LawfulStore (view)

/-- The other side. -/
structure Peer (X : Type) where
  /-- A request may be answered so; an error is an answer that was lost. -/
  serve : Request → X → Except SyncError Response → X → Prop
  /-- What happens without this device. -/
  moves : X → X → Prop

/-- The vault, the other side, and what has happened. -/
structure World (S X : Type) where
  vault : Vault S
  peer : X
  /-- The states saved while no transaction of the vault was open. -/
  saved : Set SyncState
  /-- The ids whose rows a purge took. -/
  purged : Set ItemId
  /-- The envelopes accepted by a merge, each with its id. -/
  merged : Set (ItemId × Bytes)
  asked : Set Request
  told : Set (Request × Response)

/-- The methods of the engine. -/
inductive EngineOp where
  | syncOnce (roster : Roster)
  | pushRoster (cbor : Roster → Option Bytes) (draw : SealDraw) (roster : Roster) (vaultKey : ByteArr 32)
  | revokeDevice (cbor : Roster → Option Bytes) (draw : SealDraw) (roster : Roster) (revoked : DeviceId)
      (vaultKey : ByteArr 32)
  | rotateStep (limit : Nat)
  | reset

/-- The method, its return value dropped. -/
def EngineOp.run (E : Externals) : EngineOp → Sync Unit
  | syncOnce roster => do
    let _ ← Misty.syncOnce E roster
  | pushRoster cbor draw roster vaultKey => do
    let _ ← Misty.pushRoster E cbor draw roster vaultKey
  | revokeDevice cbor draw roster revoked vaultKey => do
    let _ ← Misty.revokeDevice E cbor draw roster revoked vaultKey
  | rotateStep limit => do
    let _ ← Misty.rotateStep limit
  | reset => Misty.reset

/-- What a step is. -/
inductive Event where
  | moved
  | called (q : Query) (a : Answer q)
  | dropped (request : Request)
  | began (op : EngineOp)
  | edited (amb : Ambient) (op : Op)
  | restarted (state : SyncState)

/-- The steps a run may take, with the world before and after each. -/
abbrev Permit (S X : Type) := World S X → Event → World S X → Prop

/-- Every step. -/
def Permit.all {S X : Type} : Permit S X := fun _ _ _ => True

variable {S X : Type} [LawfulStore S] (E : Externals)

/-- The rows a purge took. -/
def Op.took (before after : Image) : Op → Set ItemId
  | .atomic .purgeTombstones => {id | before.Has id ∧ ¬ after.Has id}
  | _ => ∅

namespace World

/-- The rows a reader sees. -/
def rows (self : World S X) : Image := (view self.vault.store).image

omit [LawfulStore S] in
/-- A method of the vault: what it returns, and the world it leaves. -/
def onVault {α : Type} (self : World S X) (x : Io (Vault S) α) : Result α × World S X :=
  match x self.vault with
  | .ok a v => (.ok a, { self with vault := v })
  | .error e v => (.error e, { self with vault := v })

/-- `merge_remote`. An accepted batch is remembered. -/
def merge (self : World S X) (amb : Ambient) (changes : List RemoteChange) : Result MergeReport × World S X :=
  match Vault.mergeRemote E amb changes self.vault with
  | .ok report v => (.ok report, { self with
      vault := v
      merged := self.merged ∪ {p | ∃ c ∈ changes, p = (c.itemId, c.envelope)} })
  | .error e v => (.error e, { self with vault := v })

/-- A public operation of the vault. -/
def edit (self : World S X) (amb : Ambient) (op : Op) : World S X :=
  { self with
    vault := stateAfter (op.run E amb) self.vault
    purged := self.purged ∪ op.took self.rows (view (stateAfter (op.run E amb) self.vault).store).image }

/-- A state saved. It counts when the vault has committed all it relies on. -/
def note (self : World S X) (state : SyncState) : World S X :=
  { self with saved := {s | s ∈ self.saved ∨ s = state ∧ (view self.vault.store).saved = []} }

omit [LawfulStore S] in
/-- A request sent, and what became of the other side. -/
def ask (self : World S X) (request : Request) (x : X) : World S X :=
  { self with peer := x, asked := insert request self.asked }

omit [LawfulStore S] in
/-- A request answered. -/
def hear (self : World S X) (request : Request) (x : X) : Except SyncError Response → World S X
  | .ok response => { self.ask request x with told := insert (request, response) self.told }
  | .error _ => self.ask request x

/-- The vault a restart opens: the one there was, or one loaded from the disk. -/
def Restarts (self : World S X) (v : Vault S) : Prop :=
  v = self.vault ∨ ∃ store roster, view store = ⟨(view self.vault.store).durable, []⟩ ∧
    Vault.open E store self.vault.vaultKey self.vault.device roster = .ok v

end World

/-- How a call is answered. -/
def Answers (P : Peer X) : (q : Query) → World S X → Answer q → World S X → Prop
  | .loadAll, w, a, w' => (a, w') = w.onVault (Vault.onStore VaultStore.loadAll)
  | .stored itemId, w, a, w' => (a, w') = w.onVault (Vault.onStore (VaultStore.get itemId))
  | .mergeRemote changes, w, a, w' => ∃ amb, (a, w') = w.merge E amb changes
  | .epoch, w, a, w' => a = w.vault.epoch ∧ w' = w
  | .rotateEpoch, w, a, w' => (a, w') = w.onVault Vault.rotateEpoch
  | .rewrap limit, w, a, w' => ∃ amb, (a, w') = w.onVault (Vault.rewrapToCurrentEpoch E amb limit)
  | .save state, w, a, w' => w' = w.note state ∨ (∃ e, a = .error e) ∧ w' = w
  | .send request, w, a, w' => ∃ x, P.serve request w.peer a x ∧ w' = w.hear request x a

/-- The other side moves. -/
def World.Moves (P : Peer X) (C : Permit S X) (w w' : World S X) : Prop :=
  ∃ x, P.moves w.peer x ∧ w' = { w with peer := x } ∧ C w .moved w'

/-- A call answered by a permitted step. -/
def Permitted (P : Peer X) (C : Permit S X) (q : Query) (w : World S X) (a : Answer q) (w' : World S X) :
    Prop :=
  Answers E P q w a w' ∧ C w (.called q a) w'

/-! ## Runs -/

/-- A program of the engine at work, and its world. -/
structure Run (S X : Type) where
  work : Calls Query Answer SyncError SyncEngine Unit
  world : World S X

/-- The program has ended. -/
def Calls.Ended {Q : Type} {A : Q → Type} {ε σ α : Type} : Calls Q A ε σ α → Prop
  | .ok _ _ | .error _ _ => True
  | .call _ _ _ => False

variable (P : Peer X) (C : Permit S X)

/-- One step of a run. -/
inductive Run.Step : Run S X → Run S X → Prop
  | moved {work : Calls Query Answer SyncError SyncEngine Unit} {w w' : World S X} : w.Moves P C w' →
      Step ⟨work, w⟩ ⟨work, w'⟩
  | answered {q : Query} {s : SyncEngine} {k : Answer q → Calls Query Answer SyncError SyncEngine Unit}
      {w w' : World S X} {a : Answer q} : Permitted E P C q w a w' → Step ⟨.call q s k, w⟩ ⟨k a, w'⟩
  /-- The future is dropped at an await: the request was not sent, or its answer is lost. -/
  | dropped {r : Request} {s : SyncEngine}
      {k : Except SyncError Response → Calls Query Answer SyncError SyncEngine Unit} {w w' : World S X} :
      w' = w ∨ (∃ a x, P.serve r w.peer a x ∧ w' = w.ask r x) → C w (.dropped r) w' →
      Step ⟨.call (.send r) s k, w⟩ ⟨.ok ⟨⟩ s, w'⟩
  | began {work : Calls Query Answer SyncError SyncEngine Unit} {w : World S X} {op : EngineOp} :
      work.Ended → C w (.began op) w → Step ⟨work, w⟩ ⟨op.run E work.state, w⟩
  | edited {work : Calls Query Answer SyncError SyncEngine Unit} {w : World S X} {amb : Ambient} {op : Op} :
      work.Ended → C w (.edited amb op) (w.edit E amb op) → Step ⟨work, w⟩ ⟨work, w.edit E amb op⟩
  /-- The process ends anywhere, and a new one starts from what was saved. -/
  | restarted {work : Calls Query Answer SyncError SyncEngine Unit} {w : World S X} {s : SyncEngine}
      {v : Vault S} : s.state ∈ w.saved → w.Restarts E v →
      C w (.restarted s.state) { w with vault := v } → Step ⟨work, w⟩ ⟨.ok ⟨⟩ s, { w with vault := v }⟩

/-- A device that has opened its vault and synced with nobody. -/
structure World.Fresh (w : World S X) : Prop where
  opened : ∃ store vaultKey device roster, Vault.open E store vaultKey device roster = .ok w.vault
  closed : (view w.vault.store).saved = []
  saved : w.saved = {.new}
  purged : w.purged = ∅
  merged : w.merged = ∅
  asked : w.asked = ∅
  told : w.told = ∅

/-- The runs of a device, the other side starting as `start` says. -/
inductive Run.Reached (start : X → Prop) : Run S X → Prop
  | fresh {s : SyncEngine} {w : World S X} : s.state = .new → w.Fresh E → start w.peer →
      Reached start ⟨.ok ⟨⟩ s, w⟩
  | step {r r' : Run S X} : Reached start r → Run.Step E P C r r' → Reached start r'

end Misty
