import Misty.Sync.World

/- What the engine does, as moves of its state and of the world.

   A program of the engine stops at calls with its state half changed; `SyncMove` has
   one constructor for each thing it does between two points at which its state is
   whole, with all it knows there: a page merged and then recorded, a `DELETE` granted
   and then forgotten, a write confirmed, refused, or refused and merged. `Follows`
   says that a program is made of such moves, and `Traced` is what they lead to, so an
   invariant of the moves holds wherever a run can be stopped (`Run.Reached.traced`). -/
namespace Misty

open LawfulStore (view)

variable {S X : Type} [LawfulStore S] (E : Externals) (P : Peer X) (C : Permit S X)

/-! ## The state after a page -/

/-- One accepted change recorded. -/
def SyncState.record (self : SyncState) (change : FeedChange) (kind : Option EnvelopeKind) : SyncState :=
  self.insert change.itemId {
    kind := match kind with
      | some kind => kind.asU8
      | none => ((self.known[change.itemId]?).map KnownRow.kind).getD 0
    fingerprint := change.envelope.map (fingerprint E)
    version := change.version
    seq := some change.seq }

/-- The accepted changes recorded in order. -/
def SyncState.recordAll (self : SyncState) (accepted : List (FeedChange × Option EnvelopeKind)) : SyncState :=
  accepted.foldl (fun state p => state.record E p.1 p.2) self

/-- The page recorded and the cursor moved. -/
def SyncState.page (self : SyncState) (roster : Roster) (feed : ChangeFeed) : SyncState :=
  { self.recordAll E (sortPage E roster (haltPage feed).2.1).accepted with cursor := some (haltPage feed).2.2 }

/-- The cursor as a page is checked against it. -/
def SyncState.cursorVal (self : SyncState) : Int := (self.cursor.map Subtype.val).getD 0

/-! ## Moves -/

/-- An envelope the engine seals itself. -/
def SealsRoster (itemId : ItemId) (envelope : Bytes) : Prop :=
  ∃ cbor draw roster vaultKey epoch identity,
    sealRoster E cbor draw roster vaultKey epoch identity = .ok (itemId, envelope)

/-- What the engine sends, its state and the vault being as they are. -/
inductive Asks (st : SyncState) (w : World S X) : Request → Prop
  | changes {limit : Nat} : Asks st w (.changes st.cursor limit)
  | delete {itemId : ItemId} {row : KnownRow} : st.known[itemId]? = some row → row.isDeletable = true →
      ¬ w.rows.Has itemId → Asks st w (.delete itemId (st.versionOf itemId))
  | put {itemId : ItemId} {row : StoredEnvelope} : w.rows.rows[itemId]? = some row →
      st.confirmed itemId (fingerprint E row.envelope) = false →
      Asks st w (.put itemId row.envelope (st.versionOf itemId))
  | roster {itemId : ItemId} {envelope : Bytes} : SealsRoster E itemId envelope →
      Asks st w (.put itemId envelope (st.versionOf itemId))

/-- A request answered, by a permitted step. -/
def Served (w : World S X) (r : Request) (a : Except SyncError Response) (w' : World S X) : Prop :=
  ∃ x, P.serve r w.peer a x ∧ w' = w.hear r x a ∧ C w (.called (.send r) a) w'

/-- A batch merged, by a permitted step; nothing is called for an empty one. -/
def Merges (changes : List RemoteChange) (w w' : World S X) : Prop :=
  changes = [] ∧ w' = w ∨ changes ≠ [] ∧ ∃ report, Permitted E P C (.mergeRemote changes) w (.ok report) w'

/-- The other side moves for a while. -/
abbrev World.Drifts (w w' : World S X) : Prop := Relation.ReflTransGen (World.Moves P C) w w'

/-- The row a conflict leaves behind. -/
def conflictRow (kind : EnvelopeKind) (version : Option ServerVersion) (envelope : Bytes) : KnownRow where
  kind := kind.asU8
  fingerprint := some (fingerprint E envelope)
  version := version
  seq := none

/-- The state a conflict without bytes leaves. -/
def SyncState.reclaim (self : SyncState) (itemId : ItemId) : Option ServerVersion → SyncState
  | none => self.remove itemId
  | some version => self.insert itemId {
      kind := ((self.known[itemId]?).map KnownRow.kind).getD 0
      fingerprint := none
      version := some version
      seq := none }

/-- A move: what the engine does between two points at which its state is whole, or
what is done to it. -/
inductive SyncMove : SyncState → World S X → SyncState → World S X → Prop
  | moved {st : SyncState} {w w' : World S X} : w.Moves P C w' → SyncMove st w st w'
  | read {st : SyncState} {w : World S X} {v : Vault S} : Quiet w.vault v →
      SyncMove st w st { w with vault := v }
  | asked {st : SyncState} {w w' : World S X} {r : Request} {a : Except SyncError Response} : Asks E st w r →
      Served P C w r a w' → SyncMove st w st w'
  | lost {st : SyncState} {w : World S X} {r : Request} {a : Except SyncError Response} {x : X} : Asks E st w r →
      P.serve r w.peer a x → C w (.dropped r) (w.ask r x) → SyncMove st w st (w.ask r x)
  | merged {st : SyncState} {w w' : World S X} {changes : List RemoteChange} {a : Result MergeReport} :
      Permitted E P C (.mergeRemote changes) w a w' → SyncMove st w st w'
  | edited {st : SyncState} {w : World S X} {amb : Ambient} {op : Op} :
      C w (.edited amb op) (w.edit E amb op) → SyncMove st w st (w.edit E amb op)
  | rotated {st : SyncState} {w : World S X} (amb : Ambient) (op : Op) :
      op = .rotateEpoch ∨ (∃ limit, op = .rewrapToCurrentEpoch limit) →
      SyncMove st w st (w.edit E amb op)
  | noted {st : SyncState} {w : World S X} : SyncMove st w st (w.note st)
  | pulled {st : SyncState} {w w₁ w₂ w' : World S X} {limit : Nat} {response : Response} {feed : ChangeFeed}
      {roster : Roster} : (∃ u, C u (.began (.syncOnce roster)) u) →
      Served P C w (.changes st.cursor limit) (.ok response) w₁ → readChanges response = .ok feed →
      checkPage st.cursorVal feed = .ok () → w₁.Drifts P C w₂ →
      Merges E P C (sortPage E roster (haltPage feed).2.1).batch w₂ w' →
      SyncMove st w (st.page E roster feed) w'
  | deleted {st : SyncState} {w w' : World S X} {itemId : ItemId} {response : Response} :
      Asks E st w (.delete itemId (st.versionOf itemId)) →
      Served P C w (.delete itemId (st.versionOf itemId)) (.ok response) w' → readDelete response = .ok () →
      SyncMove st w (st.remove itemId) w'
  | applied {st : SyncState} {w w' : World S X} {row : StoredEnvelope} {response : Response} {itemId : ItemId}
      {seq : I64} {version : ServerVersion} : w.rows.rows[itemId]? = some row →
      st.confirmed itemId (fingerprint E row.envelope) = false →
      Served P C w (.put itemId row.envelope (st.versionOf itemId)) (.ok response) w' →
      readPut row.envelope response = .ok (.applied seq version) →
      SyncMove st w
        (st.insert itemId ⟨row.kind.asU8, some (fingerprint E row.envelope), some version, some seq⟩) w'
  | reclaimed {st : SyncState} {w w' : World S X} {row : StoredEnvelope} {response : Response} {itemId : ItemId}
      {version : Option ServerVersion} : w.rows.rows[itemId]? = some row →
      st.confirmed itemId (fingerprint E row.envelope) = false →
      Served P C w (.put itemId row.envelope (st.versionOf itemId)) (.ok response) w' →
      readPut row.envelope response = .ok (.conflict version none) →
      SyncMove st w (st.reclaim itemId version) w'
  | resolved {st : SyncState} {w w₁ w₂ w' : World S X} {row : StoredEnvelope} {response : Response}
      {itemId : ItemId} {version : Option ServerVersion} {envelope : Bytes} {kind : EnvelopeKind}
      {roster : Roster} : (∃ u, C u (.began (.syncOnce roster)) u) →
      w.rows.rows[itemId]? = some row → st.confirmed itemId (fingerprint E row.envelope) = false →
      Served P C w (.put itemId row.envelope (st.versionOf itemId)) (.ok response) w₁ →
      readPut row.envelope response = .ok (.conflict version (some envelope)) →
      verifyConflict E roster itemId envelope = .ok kind →
      ¬ (st.confirmed itemId (fingerprint E envelope) = true ∧ st.versionOf itemId = version) →
      w₁.Drifts P C w₂ →
      (isMerged kind = false ∧ w' = w₂ ∨ isMerged kind = true ∧
        ∃ a, Permitted E P C (.mergeRemote [⟨itemId, none, none, envelope⟩]) w₂ a w') →
      SyncMove st w (st.insert itemId (conflictRow E kind version envelope)) w'
  | published {st : SyncState} {w w' : World S X} {itemId : ItemId} {bytes : Bytes} {response : Response}
      {seq : I64} {version : ServerVersion} : SealsRoster E itemId bytes →
      Served P C w (.put itemId bytes (st.versionOf itemId)) (.ok response) w' →
      readPut bytes response = .ok (.applied seq version) →
      SyncMove st w (st.insert itemId
        ⟨EnvelopeKind.deviceRoster.asU8, some (fingerprint E bytes), some version, some seq⟩) w'
  | outdated {st : SyncState} {w w' : World S X} {itemId : ItemId} {bytes : Bytes} {response : Response}
      {version : Option ServerVersion} {envelope : Option Bytes} : SealsRoster E itemId bytes →
      Served P C w (.put itemId bytes (st.versionOf itemId)) (.ok response) w' →
      readPut bytes response = .ok (.conflict version envelope) →
      SyncMove st w (st.insert itemId
        ⟨EnvelopeKind.deviceRoster.asU8, envelope.map (fingerprint E), version, none⟩) w'
  | rotating {st : SyncState} {w : World S X} (rotation : Option U32) :
      SyncMove st w { st with rotation := rotation } w
  | reset {st : SyncState} {w : World S X} : SyncMove st w .new w
  | restarted {st st' : SyncState} {w : World S X} {v : Vault S} : st' ∈ w.saved → w.Restarts E v →
      C w (.restarted st') { w with vault := v } → SyncMove st w st' { w with vault := v }

/-- A state of the engine and a world the moves lead to. -/
inductive Traced (start : X → Prop) : SyncState → World S X → Prop
  | fresh {w : World S X} : w.Fresh E → start w.peer → Traced start .new w
  | step {st st' : SyncState} {w w' : World S X} : Traced start st w → SyncMove E P C st w st' w' →
      Traced start st' w'

end Misty
