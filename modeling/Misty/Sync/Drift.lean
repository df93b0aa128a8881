import Misty.Sync.Cluster

/- What a facade keeps, whatever the others do: the version its engine remembers for the
   roster's row is one the server had, and no sync writes or deletes that row. A command
   that begins in step with the row therefore publishes a change of what is in it, or is
   refused. -/
namespace Misty

variable (E : Externals) (cbor : Roster → Option Bytes) (fromCbor : Bytes → Option Roster) (vaultKey : ByteArr 32)
  (config : ServerConfig)

/-! ## Conditions -/

/-- When the engine remembers the version of the server's roster row, these are the devices in that row. -/
def Hub.Current (self : Hub) (st : SyncState) (devices : List DeviceRecord) : Prop :=
  ∀ row, self.server.rows[rosterAddress E vaultKey]? = some row →
    st.versionOf (rosterAddress E vaultKey) = some (.of row.version) →
    ∃ envelope roster, row.envelope = some envelope ∧ rosterIn E fromCbor vaultKey envelope = some roster ∧
      roster.devices = devices

/-- No object of a vault has the roster's id. -/
def Unclaimed : FacadeEvent → Prop
  | .answered (.engine .loadAll) a => ∀ rows, a = .ok rows → ∀ row ∈ rows, row.itemId ≠ rosterAddress E vaultKey
  | _ => True

/-- A command that changes the roster begins in step with the server, and no object of the vault has the roster's id. -/
def Coordinated : FacadeEvent → Hub → Prop
  | .began _ .syncOnce, _ => True
  | .began facade _, hub => hub.Current E fromCbor vaultKey facade.engine.state facade.roster.devices
  | event, _ => Unclaimed E vaultKey event

/-- The change that the facade at a place was asked for turns what is in the row into these devices, if the row is at
the version. -/
def Hub.Publishes (self : Hub) (i : Nat) (version : Option ServerVersion) (devices : List DeviceRecord) : Prop :=
  ∀ row, self.server.rows[rosterAddress E vaultKey]? = some row → version = some (.of row.version) →
    ∃ change current envelope, (self.doing i).bind Doing.change = some change ∧ row.envelope = some envelope ∧
      rosterIn E fromCbor vaultKey envelope = some current ∧ change.Turns current.devices devices

/-- The version is one the roster's row had. -/
def Hub.Knows (self : Hub) (version : Option ServerVersion) : Prop :=
  ∀ v, version = some v → ∃ n, v = .of n ∧ n ≤ self.server.versionAt (rosterAddress E vaultKey)

/-- What a facade keeps to when it calls. -/
def Obeys (i : Nat) : FacadeQuery → Hub → Prop
  | .engine (.send (.put itemId envelope version)), hub => itemId = rosterAddress E vaultKey →
    IsRosterEnvelope envelope ∧ hub.server.HoldsRoster E vaultKey ∧ hub.Knows E vaultKey version ∧
      ∃ next, rosterIn E fromCbor vaultKey envelope = some next ∧
        hub.Publishes E fromCbor vaultKey i version next.devices
  | .engine (.send (.delete itemId _)), _ => itemId ≠ rosterAddress E vaultKey
  | _, _ => True

/-- What the others do while the facade at a place waits. -/
structure Beside (i : Nat) (hub hub' : Hub) : Prop where
  server : hub.server.KeepsRoster E vaultKey hub'.server
  doing : hub'.doing i = hub.doing i

/-- How it is answered, in a run in step. -/
structure Heard (i : Nat) (q : FacadeQuery) (hub : Hub) (a : q.Answer) (hub' : Hub) : Prop where
  replies : Replies E vaultKey config i q hub a hub'
  coordinated : Coordinated E fromCbor vaultKey (.answered q a) hub
  server : hub.server.KeepsRoster E vaultKey hub'.server

/-- The engine knows the roster's row as a roster, at a version it had. -/
structure Tracks (st : SyncState) (hub : Hub) : Prop where
  holds : hub.server.HoldsRoster E vaultKey
  kind : ∀ row, st.known[rosterAddress E vaultKey]? = some row → row.kind = EnvelopeKind.deviceRoster.asU8
  version : ∀ row, st.known[rosterAddress E vaultKey]? = some row → hub.Knows E vaultKey row.version

variable {E cbor fromCbor vaultKey config} {i : Nat} {hub hub' hub₁ : Hub} {st : SyncState}

theorem Beside.refl (hub : Hub) : Beside E vaultKey i hub hub := ⟨.of_same rfl, rfl⟩

theorem Beside.trans (h : Beside E vaultKey i hub hub₁) (h' : Beside E vaultKey i hub₁ hub') :
    Beside E vaultKey i hub hub' :=
  ⟨h.server.trans h'.server, h'.doing.trans h.doing⟩

theorem Hub.Knows.keeps {version : Option ServerVersion} (h : hub.Knows E vaultKey version)
    (hholds : hub.server.HoldsRoster E vaultKey) (hk : hub.server.KeepsRoster E vaultKey hub'.server) :
    hub'.Knows E vaultKey version := by
  intro v hv
  obtain ⟨n, hn, hle⟩ := h v hv
  exact ⟨n, hn, hle.trans (hk hholds).2.1⟩

/-- A version the row had is that of the later row only when the row is the same. -/
theorem Hub.Knows.row {version : Option ServerVersion} (h : hub.Knows E vaultKey version)
    (hholds : hub.server.HoldsRoster E vaultKey) (hk : hub.server.KeepsRoster E vaultKey hub'.server)
    {row : ServerRow} (hrow : hub'.server.rows[rosterAddress E vaultKey]? = some row)
    (hversion : version = some (.of row.version)) :
    hub.server.rows[rosterAddress E vaultKey]? = some row := by
  obtain ⟨n, hn, hle⟩ := h _ hversion
  obtain ⟨_, hle', hsame⟩ := hk hholds
  have hat : hub'.server.versionAt (rosterAddress E vaultKey) = row.version := by simp [Server.versionAt, hrow]
  have hrn : row.version = n := versionToken_injective (congrArg ServerVersion.token hn)
  rw [← hsame (by omega)]
  exact hrow

theorem Hub.Publishes.keeps {version : Option ServerVersion} {devices : List DeviceRecord}
    (h : hub.Publishes E fromCbor vaultKey i version devices) (hknows : hub.Knows E vaultKey version)
    (hholds : hub.server.HoldsRoster E vaultKey) (hb : Beside E vaultKey i hub hub') :
    hub'.Publishes E fromCbor vaultKey i version devices := by
  intro row hrow hversion
  rw [hb.doing]
  exact h row (hknows.row hholds hb.server hrow hversion) hversion

theorem Obeys.beside {q : FacadeQuery} (h : Obeys E fromCbor vaultKey i q hub) (hb : Beside E vaultKey i hub hub') :
    Obeys E fromCbor vaultKey i q hub' := by
  unfold Obeys at h ⊢
  split
  · intro hid
    obtain ⟨hroster, hholds, hknows, next, hnext, hpublishes⟩ := h hid
    exact ⟨hroster, (hb.server hholds).1, hknows.keeps hholds hb.server, next, hnext,
      hpublishes.keeps hknows hholds hb⟩
  · exact h
  · trivial

theorem Tracks.keeps (h : Tracks E vaultKey st hub) (hk : hub.server.KeepsRoster E vaultKey hub'.server) :
    Tracks E vaultKey st hub' :=
  ⟨(hk h.holds).1, h.kind, fun row hrow => (h.version row hrow).keeps h.holds hk⟩

theorem Tracks.knows (h : Tracks E vaultKey st hub) : hub.Knows E vaultKey (st.versionOf (rosterAddress E vaultKey)) := by
  intro v hv
  obtain ⟨row, hrow, hversion⟩ := Option.bind_eq_some_iff.mp hv
  exact h.version row hrow v hversion

theorem Hub.Current.keeps {devices : List DeviceRecord} (h : hub.Current E fromCbor vaultKey st devices)
    (ht : Tracks E vaultKey st hub) (hk : hub.server.KeepsRoster E vaultKey hub'.server) :
    hub'.Current E fromCbor vaultKey st devices :=
  fun row hrow hversion => h row (ht.knows.row ht.holds hk hrow hversion) hversion

theorem Tracks.insert (h : Tracks E vaultKey st hub) {id : ItemId} (hne : id ≠ rosterAddress E vaultKey)
    (row : KnownRow) : Tracks E vaultKey (st.insert id row) hub := by
  have hsame : (st.insert id row).known[rosterAddress E vaultKey]? = st.known[rosterAddress E vaultKey]? := by
    rw [SyncState.known_insert, if_neg hne]
  exact ⟨h.holds, fun r hr => h.kind r (hsame ▸ hr), fun r hr => h.version r (hsame ▸ hr)⟩

theorem Tracks.remove (h : Tracks E vaultKey st hub) (id : ItemId) : Tracks E vaultKey (st.remove id) hub := by
  have hsub : ∀ r, (st.remove id).known[rosterAddress E vaultKey]? = some r →
      st.known[rosterAddress E vaultKey]? = some r := by
    intro r hr
    rw [SyncState.known_remove] at hr
    split at hr
    · cases hr
    · exact hr
  exact ⟨h.holds, fun r hr => h.kind r (hsub r hr), fun r hr => h.version r (hsub r hr)⟩

theorem Tracks.insert_roster (h : Tracks E vaultKey st hub) {row : KnownRow}
    (hkind : row.kind = EnvelopeKind.deviceRoster.asU8) (hversion : hub.Knows E vaultKey row.version) :
    Tracks E vaultKey (st.insert (rosterAddress E vaultKey) row) hub := by
  have hat : (st.insert (rosterAddress E vaultKey) row).known[rosterAddress E vaultKey]? = some row := by
    rw [SyncState.known_insert, if_pos rfl]
  refine ⟨h.holds, ?_, ?_⟩
  · intro r hr
    rw [hat] at hr
    cases hr
    exact hkind
  · intro r hr
    rw [hat] at hr
    cases hr
    exact hversion

theorem Tracks.new (h : hub.server.HoldsRoster E vaultKey) : Tracks E vaultKey .new hub := by
  refine ⟨h, ?_, ?_⟩
  · intro row hrow
    simp [SyncState.new] at hrow
  · intro row hrow
    simp [SyncState.new] at hrow

theorem Tracks.congr {st' : SyncState} (h : Tracks E vaultKey st hub) (hsame : st'.known = st.known) :
    Tracks E vaultKey st' hub :=
  ⟨h.holds, fun r hr => h.kind r (hsame ▸ hr), fun r hr => h.version r (hsame ▸ hr)⟩

/-- What a facade is doing changes only when its request is fetched. -/
theorem Replies.doing {q : FacadeQuery} {a : q.Answer} (h : Replies E vaultKey config i q hub a hub')
    (hq : ∀ enrollId, q ≠ .fetch enrollId) : hub'.doing = hub.doing := by
  cases q with
  | fetch enrollId => exact absurd rfl (hq enrollId)
  | sealGrant request typedCode epoch serverUrl roster =>
    rw [show hub' = hub from h]
  | deliver enrollId grant =>
    rw [show hub' = hub from h]
  | reopen roster =>
    rw [show hub' = hub from h]
  | engine q =>
    cases q with
    | send request =>
      obtain ⟨now, ⟨_, rfl⟩ | ⟨_, _, rfl | rfl⟩⟩ := h
      · rfl
      · rfl
      · rfl
    | _ => rw [show hub' = hub from h]

theorem Heard.beside {q : FacadeQuery} {a : q.Answer} (h : Heard E fromCbor vaultKey config i q hub a hub')
    (hq : ∀ enrollId, q ≠ .fetch enrollId) : Beside E vaultKey i hub hub' :=
  ⟨h.server, congrFun (h.replies.doing hq) i⟩

theorem Heard.response {request : Request} {response : Response}
    (h : Heard E fromCbor vaultKey config i (.engine (.send request)) hub (.ok response) hub') :
    ∃ now, response = (respond config now hub.server request).1 ∧
      hub'.server = (respond config now hub.server request).2 := by
  obtain ⟨now, ⟨hok, rfl⟩ | ⟨_, herror, _⟩⟩ := h.replies
  · exact ⟨now, Except.ok.inj hok, rfl⟩
  · cases herror

/-! ## The methods of the engine -/

section Engine

variable (E fromCbor vaultKey config i)

/-- A part of an engine's method calls only as it may, and keeps track of the roster's row. -/
abbrev Prog.Tracking {α : Type} (x : Sync α) (s : SyncEngine) (hub : Hub) (B : α → SyncEngine → Hub → Prop) : Prop :=
  x.Keeping (Beside E vaultKey i) (fun q => Heard E fromCbor vaultKey config i (.engine q))
    (fun q s hub => Obeys E fromCbor vaultKey i (.engine q) hub ∧ Tracks E vaultKey s.state hub)
    (fun s hub => Tracks E vaultKey s.state hub) s hub B

variable {E fromCbor vaultKey config i} {s : SyncEngine} {α : Type}

namespace Prog.Keeping

theorem setState {f : SyncState → SyncState} (h : Tracks E vaultKey (f s.state) hub) :
    Tracking E fromCbor vaultKey config i (Misty.setState f) s hub
      (fun _ s' hub' => s'.state = f s.state ∧ hub' = hub) := ⟨h, rfl, rfl⟩

theorem setReport {f : SyncReport → SyncReport} (h : Tracks E vaultKey s.state hub) :
    Tracking E fromCbor vaultKey config i (Misty.setReport f) s hub
      (fun _ s' hub' => s'.state = s.state ∧ hub' = hub) := ⟨h, rfl, rfl⟩

theorem call {q : Query} (h : Tracks E vaultKey s.state hub) (hobeys : Obeys E fromCbor vaultKey i (.engine q) hub) :
    Tracking E fromCbor vaultKey config i (Prog.call q) s hub (fun a s' hub' => s' = s ∧
      ∃ hub₁, Beside E vaultKey i hub hub₁ ∧ Heard E fromCbor vaultKey config i (.engine q) hub₁ a hub') := by
  refine ⟨⟨hobeys, h⟩, ?_⟩
  intro hub₁ a hub₂ hb hh
  exact ⟨(h.keeps hb.server).keeps hh.server, rfl, hub₁, hb, hh⟩

/-! ### Calls -/

theorem loadAll (h : Tracks E vaultKey s.state hub) :
    Tracking E fromCbor vaultKey config i Misty.loadAll s hub
      (fun rows _ _ => ∀ row ∈ rows, row.itemId ≠ rosterAddress E vaultKey) := by
  refine bind (call h (by trivial)) ?_
  intro a s₁ hub₁ h₁ hheard
  obtain ⟨rfl, _, _, hheard⟩ := hheard
  refine mono (ofExcept h₁) ?_
  intro rows s' hub' hread
  exact hheard.coordinated rows (mapError_eq_ok.mp hread.1)

theorem stored {itemId : ItemId} (h : Tracks E vaultKey s.state hub) :
    Tracking E fromCbor vaultKey config i (Misty.stored itemId) s hub (fun _ _ _ => True) := by
  refine bind (call h (by trivial)) ?_
  intro a s₁ hub₁ h₁ _
  exact mono (ofExcept h₁) (fun _ _ _ _ => trivial)

theorem mergeRemote {operation : String} {changes : List RemoteChange} (h : Tracks E vaultKey s.state hub) :
    Tracking E fromCbor vaultKey config i (Misty.mergeRemote operation changes) s hub
      (fun _ s' _ => s' = s) := by
  refine bind (call h (by trivial)) ?_
  intro a s₁ hub₁ h₁ hheard
  obtain ⟨rfl, _⟩ := hheard
  exact mono (ofExcept h₁) (fun _ _ _ hok => hok.2.1)

theorem save (h : Tracks E vaultKey s.state hub) :
    Tracking E fromCbor vaultKey config i Misty.save s hub (fun _ s' _ => s' = s) := by
  refine bind (get h) ?_
  intro self s₁ hub₁ h₁ hself
  obtain ⟨rfl, rfl, rfl⟩ := hself
  refine bind (call h₁ (by trivial)) ?_
  intro a s₂ hub₂ h₂ hheard
  obtain ⟨rfl, _⟩ := hheard
  exact mono (ofExcept h₂) (fun _ _ _ hok => hok.2.1)

theorem send {request : Request} (h : Tracks E vaultKey s.state hub)
    (hobeys : Obeys E fromCbor vaultKey i (.engine (.send request)) hub) :
    Tracking E fromCbor vaultKey config i (Misty.send request) s hub (fun response s' hub' => s' = s ∧
      ∃ hub₁ now, Beside E vaultKey i hub hub₁ ∧ response = (respond config now hub₁.server request).1 ∧
        hub'.server = (respond config now hub₁.server request).2) := by
  refine bind (call h hobeys) ?_
  intro a s₁ hub₁ h₁ hheard
  obtain ⟨rfl, hub₀, hb, hheard⟩ := hheard
  refine mono (ofExcept h₁) ?_
  intro response s' hub' hok
  obtain ⟨rfl, rfl, rfl⟩ := hok
  obtain ⟨now, hresponse, hserver⟩ := hheard.response
  exact ⟨rfl, hub₀, now, hb, hresponse, hserver⟩

end Prog.Keeping

/-- What an honest page says of the roster's row. -/
def Hub.Shows (E : Externals) (vaultKey : ByteArr 32) (self : Hub) (change : FeedChange) : Prop :=
  change.itemId = rosterAddress E vaultKey → (∃ envelope, change.envelope = some envelope ∧ IsRosterEnvelope envelope) ∧
    self.Knows E vaultKey change.version

theorem Hub.Shows.keeps {change : FeedChange} (h : hub.Shows E vaultKey change)
    (hholds : hub.server.HoldsRoster E vaultKey) (hk : hub.server.KeepsRoster E vaultKey hub'.server) :
    hub'.Shows E vaultKey change :=
  fun hid => ⟨(h hid).1, (h hid).2.keeps hholds hk⟩

theorem shows_of_page {since : Int} {limit : Nat} {feed : ChangeFeed} (hholds : hub.server.HoldsRoster E vaultKey)
    (hpage : Page hub.server since limit feed) : ∀ change ∈ feed.changes, hub.Shows E vaultKey change := by
  intro change hmem hid
  rw [hpage.changes] at hmem
  obtain ⟨p, hp, rfl⟩ := List.mem_map.mp hmem
  have hrow := (Server.mem_changes hp).1
  have hat : hub.server.rows[rosterAddress E vaultKey]? = some p.2 := by
    rw [← hid]
    exact hrow
  refine ⟨hholds p.2 hat, ?_⟩
  intro v hv
  cases hv
  exact ⟨p.2.version, rfl, by simp [Server.versionAt, hat]⟩

theorem kind_of_accepted {roster : Roster} {change : FeedChange} {kind : Option EnvelopeKind}
    (haccepted : Accepted E roster change kind)
    (hroster : ∃ envelope, change.envelope = some envelope ∧ IsRosterEnvelope envelope) : kind = some .deviceRoster := by
  obtain ⟨envelope, henvelope, parsed, hparse, hkind⟩ := hroster
  cases haccepted with
  | reclaimed hnone =>
    rw [hnone] at henvelope
    cases henvelope
  | @verified envelope' kind henvelope' hverify =>
    rw [henvelope] at henvelope'
    cases henvelope'
    simp only [verifyChange] at hverify
    split at hverify
    · cases hverify
    obtain ⟨parsed', hparse', hverify⟩ := bind_eq_ok.mp hverify
    obtain ⟨_, _, hverify⟩ := bind_eq_ok.mp hverify
    have hsame := hparse.symm.trans (mapError_eq_ok.mp hparse')
    cases hsame
    cases hverify
    rw [hkind]

namespace Prog.Keeping

theorem changes {since : Option I64} {limit : Nat} (h : Tracks E vaultKey s.state hub) :
    Tracking E fromCbor vaultKey config i (Misty.changes since limit) s hub
      (fun feed _ hub' => ∀ change ∈ feed.changes, hub'.Shows E vaultKey change) := by
  refine bind (send h (by trivial)) ?_
  intro response s₁ hub₁ h₁ hsent
  obtain ⟨rfl, hub₀, now, _, rfl, hserver⟩ := hsent
  refine mono (ofExcept h₁) ?_
  intro feed s' hub' hread
  obtain ⟨hread, rfl, rfl⟩ := hread
  have hsame : hub'.server = hub₀.server := hserver
  have hpage := page_of_readChanges hread
  rw [← hsame] at hpage
  exact shows_of_page h₁.holds hpage

theorem putItem {itemId : ItemId} {envelope : Bytes} {version : Option ServerVersion}
    (h : Tracks E vaultKey s.state hub)
    (hobeys : Obeys E fromCbor vaultKey i (.engine (.send (.put itemId envelope version))) hub) :
    Tracking E fromCbor vaultKey config i (Misty.putItem itemId envelope version) s hub (fun out s' hub' => s' = s ∧
      ∃ server now precondition, PutTold server itemId envelope now precondition out hub'.server) := by
  unfold Misty.putItem
  split
  · exact bind (throw (B := fun _ _ _ => False) h) (fun _ _ _ _ hfalse => hfalse.elim)
  · refine bind (send h hobeys) ?_
    intro response s₁ hub₁ h₁ hsent
    obtain ⟨rfl, hub₀, now, _, rfl, hserver⟩ := hsent
    refine mono (ofExcept h₁) ?_
    intro out s' hub' hread
    obtain ⟨hread, rfl, rfl⟩ := hread
    obtain ⟨precondition, _, htold⟩ := putTold_of_readPut hread
    refine ⟨rfl, hub₀.server, now, precondition, ?_⟩
    rw [hserver]
    exact htold

theorem deleteItem {itemId : ItemId} {version : Option ServerVersion} (h : Tracks E vaultKey s.state hub)
    (hne : itemId ≠ rosterAddress E vaultKey) :
    Tracking E fromCbor vaultKey config i (Misty.deleteItem itemId version) s hub (fun _ s' _ => s' = s) := by
  refine bind (send h (by exact hne)) ?_
  intro response s₁ hub₁ h₁ hsent
  obtain ⟨rfl, _⟩ := hsent
  exact mono (ofExcept h₁) (fun _ _ _ hok => hok.2.1)

/-- The queue never has the roster's row. -/
theorem pending (h : Tracks E vaultKey s.state hub) :
    Tracking E fromCbor vaultKey config i (Misty.pending E) s hub
      (fun writes _ _ => ∀ write ∈ writes, write.itemId ≠ rosterAddress E vaultKey) := by
  refine bind (loadAll h) ?_
  intro rows s₁ hub₁ h₁ hrows
  refine bind (get h₁) ?_
  intro self s₂ hub₂ h₂ hself
  obtain ⟨rfl, rfl, rfl⟩ := hself
  refine mono (ofExcept h₂) ?_
  intro writes s' hub' hlisted
  obtain ⟨hlisted, rfl, rfl⟩ := hlisted
  rw [pendingOf_eq] at hlisted
  cases hlisted
  intro write hwrite hid
  rcases (mem_pendingList E _ _ _).mp hwrite with ⟨row, hrow, _, rfl⟩ | hdelete
  · exact hrows row hrow hid
  · obtain ⟨_, row, hknown, hdeletable, _⟩ := (mem_pendingDeletes _ _ _).mp hdelete
    rw [hid] at hknown
    -- a roster is never deleted
    have hkind := h₂.kind row hknown
    simp [KnownRow.isDeletable, hkind, EnvelopeKind.asU8, EnvelopeKind.fromU8] at hdeletable

theorem deleteLoop : ∀ (writes : List PendingWrite) (s : SyncEngine) (hub : Hub), Tracks E vaultKey s.state hub →
    (∀ write ∈ writes, write.itemId ≠ rosterAddress E vaultKey) →
    Tracking E fromCbor vaultKey config i (Misty.deleteLoop writes) s hub (fun _ _ _ => True)
  | [], s, hub, h, _ => pure h trivial
  | write :: rest, s, hub, h, hne => by
    have hrest : ∀ p ∈ rest, p.itemId ≠ rosterAddress E vaultKey := fun p hp => hne p (List.mem_cons_of_mem _ hp)
    unfold Misty.deleteLoop
    split
    · refine bind (get h) ?_
      intro self s₁ hub₁ h₁ hself
      obtain ⟨rfl, rfl, rfl⟩ := hself
      refine bind (deleteItem h₁ (hne write List.mem_cons_self)) ?_
      intro _ s₂ hub₂ h₂ _
      refine bind (setState (h₂.remove write.itemId)) ?_
      intro _ s₃ hub₃ h₃ _
      refine bind (save h₃) ?_
      intro _ s₄ hub₄ h₄ _
      refine bind (setReport h₄) ?_
      intro _ s₅ hub₅ h₅ _
      exact deleteLoop rest s₅ hub₅ h₅ hrest
    · exact deleteLoop rest s hub h hrest

theorem recordPage {roster : Roster} : ∀ (accepted : List (FeedChange × Option EnvelopeKind)) (s : SyncEngine)
    (hub : Hub), Tracks E vaultKey s.state hub →
    (∀ p ∈ accepted, hub.Shows E vaultKey p.1 ∧ Accepted E roster p.1 p.2) →
    Tracking E fromCbor vaultKey config i (Misty.recordPage E accepted) s hub (fun _ _ _ => True)
  | [], s, hub, h, _ => pure h trivial
  | (change, kind) :: rest, s, hub, h, hall => by
    obtain ⟨hshows, haccepted⟩ := hall (change, kind) List.mem_cons_self
    unfold Misty.recordPage
    apply bind (B := fun _ _ hub' => hub' = hub)
    · unfold recordChange
      refine bind (ofExcept h) ?_
      intro fp s₁ hub₁ h₁ hok
      obtain ⟨_, rfl, rfl⟩ := hok
      refine ⟨?_, rfl⟩
      by_cases hid : change.itemId = rosterAddress E vaultKey
      · have hkind := kind_of_accepted haccepted (hshows hid).1
        subst hkind
        rw [hid]
        exact h₁.insert_roster rfl (hshows hid).2
      · exact h₁.insert hid _
    · intro _ s₁ hub₁ h₁ hsame
      subst hsame
      exact recordPage rest s₁ hub₁ h₁ (fun p hp => hall p (List.mem_cons_of_mem _ hp))

theorem applyPage {roster : Roster} {page : List FeedChange} (h : Tracks E vaultKey s.state hub)
    (hpage : ∀ change ∈ page, hub.Shows E vaultKey change) :
    Tracking E fromCbor vaultKey config i (Misty.applyPage E roster page) s hub (fun _ _ _ => True) := by
  have hsorted : ∀ {hub' : Hub}, hub.server.KeepsRoster E vaultKey hub'.server → ∀ p ∈ (sortPage E roster page).accepted,
      hub'.Shows E vaultKey p.1 ∧ Accepted E roster p.1 p.2 := by
    intro hub' hk p hp
    obtain ⟨hmem, haccepted⟩ := accepted_of_mem hp
    exact ⟨(hpage p.1 hmem).keeps h.holds hk, haccepted⟩
  unfold Misty.applyPage
  dsimp only
  apply bind (B := fun _ _ hub' => hub' = hub)
  · exact ⟨h, rfl⟩
  intro _ s₁ hub₁ h₁ hsame
  subst hsame
  split
  · apply bind (B := fun _ _ hub' => hub₁.server.KeepsRoster E vaultKey hub'.server)
    · refine bind (call h₁ (by trivial)) ?_
      intro a s₂ hub₂ h₂ hheard
      obtain ⟨rfl, hub₀, hb, hheard⟩ := hheard
      refine mono (ofExcept h₂) ?_
      intro merged s' hub' hok
      obtain ⟨_, rfl, rfl⟩ := hok
      exact hb.server.trans hheard.server
    · intro merged s₂ hub₂ h₂ hk
      apply bind (B := fun _ _ hub' => hub' = hub₂)
      · exact ⟨h₂, rfl⟩
      intro _ s₃ hub₃ h₃ hsame
      subst hsame
      exact recordPage _ s₃ hub₃ h₃ (hsorted hk)
  · exact recordPage _ s₁ hub₁ h₁ (hsorted (.of_same rfl))

theorem pullLoop (roster : Roster) (left limit : Nat) (s : SyncEngine) (hub : Hub) (h : Tracks E vaultKey s.state hub) :
    Tracking E fromCbor vaultKey config i (Misty.pullLoop E roster left limit) s hub (fun _ _ _ => True) := by
  match left with
  | 0 =>
    rw [Misty.pullLoop]
    exact throw h
  | left + 1 =>
    rw [Misty.pullLoop]
    refine bind (get h) ?_
    intro self s₁ hub₁ h₁ hself
    obtain ⟨rfl, rfl, rfl⟩ := hself
    refine bind (attempt (changes h₁)) ?_
    intro answer s₂ hub₂ h₂ hheard
    cases answer with
    | error error =>
      dsimp only
      split
      -- too large a page is asked for again, half as large
      · next hsmaller => exact pullLoop roster (left + 1) (max (limit / 2) 1) s₂ hub₂ h₂
      · exact throw h₂
    | ok feed =>
      have hshows := hheard feed rfl
      dsimp only
      apply bind (B := fun _ _ hub' => hub' = hub₂)
      · exact ⟨h₂, rfl⟩
      intro _ s₃ hub₃ h₃ hsame
      subst hsame
      refine bind (ofExcept h₃) ?_
      intro _ s₄ hub₄ h₄ hok
      obtain ⟨_, rfl, rfl⟩ := hok
      rcases hhalt : haltPage feed with ⟨halted, page, nextCursor⟩
      dsimp only
      -- the slice that is applied is part of what the server showed
      have hpage : ∀ change ∈ page, hub₄.Shows E vaultKey change := by
        intro change hchange
        refine hshows change (mem_of_mem_haltPage ?_)
        rw [hhalt]
        exact hchange
      refine bind (applyPage h₄ hpage) ?_
      · intro _ s₅ hub₅ h₅ _
        refine bind (setState (f := fun state => { state with cursor := some nextCursor }) (h₅.congr rfl)) ?_
        intro _ s₆ hub₆ h₆ _
        refine bind (save h₆) ?_
        intro _ s₇ hub₇ h₇ _
        split
        · exact pure h₇ trivial
        · split
          · exact pure h₇ trivial
          · exact pullLoop roster left limit s₇ hub₇ h₇
termination_by left + limit

theorem resolveConflict {roster : Roster} {itemId : ItemId} {version : Option ServerVersion} {envelope : Option Bytes}
    (hne : itemId ≠ rosterAddress E vaultKey) (h : Tracks E vaultKey s.state hub) :
    Tracking E fromCbor vaultKey config i (Misty.resolveConflict E roster itemId version envelope) s hub
      (fun _ _ _ => True) := by
  -- the last steps: the state is saved and the conflict counted
  have hend : ∀ (s' : SyncEngine) (hub' : Hub), Tracks E vaultKey s'.state hub' →
      Tracking E fromCbor vaultKey config i (do
        Misty.save
        Misty.setReport fun report => { report with conflictsResolved := report.conflictsResolved + 1 }) s' hub'
        (fun _ _ _ => True) := by
    intro s' hub' h'
    refine bind (save h') ?_
    intro _ s₁ hub₁ h₁ _
    exact mono (setReport h₁) (fun _ _ _ _ => trivial)
  unfold Misty.resolveConflict
  cases envelope with
  | none =>
    cases version with
    | none =>
      refine bind (setState (h.remove itemId)) ?_
      intro _ s₁ hub₁ h₁ _
      exact hend s₁ hub₁ h₁
    | some version =>
      refine bind (setState (h.insert hne _)) ?_
      intro _ s₁ hub₁ h₁ _
      exact hend s₁ hub₁ h₁
  | some envelope =>
    dsimp only
    refine bind (ofExcept h) ?_
    intro kind s₁ hub₁ h₁ _
    refine bind (ofExcept h₁) ?_
    intro fp s₂ hub₂ h₂ _
    refine bind (get h₂) ?_
    intro self s₃ hub₃ h₃ _
    split
    · exact bind (throw (B := fun _ _ _ => False) h₃) (fun _ _ _ _ hfalse => hfalse.elim)
    · refine bind (setState (h₃.insert hne _)) ?_
      intro _ s₅ hub₅ h₅ _
      split
      · refine bind (mergeRemote h₅) ?_
        intro merged s₆ hub₆ h₆ _
        refine bind (setReport h₆) ?_
        intro _ s₇ hub₇ h₇ _
        exact hend s₇ hub₇ h₇
      · exact hend s₅ hub₅ h₅

theorem pushLoop {roster : Roster} {itemId : ItemId} (hne : itemId ≠ rosterAddress E vaultKey) :
    ∀ (left : Nat) (s : SyncEngine) (hub : Hub), Tracks E vaultKey s.state hub →
      Tracking E fromCbor vaultKey config i (Misty.pushLoop E roster itemId left) s hub (fun _ _ _ => True)
  | 0, s, hub, h => throw h
  | left + 1, s, hub, h => by
    unfold Misty.pushLoop
    refine bind (stored h) ?_
    intro row s₁ hub₁ h₁ _
    cases row with
    | none => exact pure h₁ trivial
    | some row =>
      dsimp only
      refine bind (ofExcept h₁) ?_
      intro fp s₂ hub₂ h₂ _
      refine bind (get h₂) ?_
      intro self s₃ hub₃ h₃ _
      split
      · exact pure h₃ trivial
      · refine bind (putItem h₃ (fun hid => absurd hid hne)) ?_
        intro out s₄ hub₄ h₄ _
        cases out with
        | applied seq version =>
          dsimp only
          refine bind (setState (h₄.insert hne _)) ?_
          intro _ s₅ hub₅ h₅ _
          refine bind (save h₅) ?_
          intro _ s₆ hub₆ h₆ _
          exact mono (setReport h₆) (fun _ _ _ _ => trivial)
        | conflict version envelope =>
          dsimp only
          refine bind (resolveConflict hne h₄) ?_
          intro _ s₅ hub₅ h₅ _
          exact pushLoop hne left s₅ hub₅ h₅

theorem writeLoop {roster : Roster} : ∀ (writes : List PendingWrite) (s : SyncEngine) (hub : Hub),
    Tracks E vaultKey s.state hub → (∀ write ∈ writes, write.itemId ≠ rosterAddress E vaultKey) →
    Tracking E fromCbor vaultKey config i (Misty.writeLoop E roster writes) s hub (fun _ _ _ => True)
  | [], s, hub, h, _ => pure h trivial
  | write :: rest, s, hub, h, hne => by
    have hrest : ∀ p ∈ rest, p.itemId ≠ rosterAddress E vaultKey := fun p hp => hne p (List.mem_cons_of_mem _ hp)
    unfold Misty.writeLoop
    split
    · refine bind (pushLoop (hne write List.mem_cons_self) _ s hub h) ?_
      intro _ s₁ hub₁ h₁ _
      exact writeLoop rest s₁ hub₁ h₁ hrest
    · exact writeLoop rest s hub h hrest

/-- A sync neither writes nor deletes the roster's row, and what it learns of it the server had. -/
theorem syncOnce {roster : Roster} (h : Tracks E vaultKey s.state hub) :
    Tracking E fromCbor vaultKey config i (Misty.syncOnce E roster) s hub (fun _ _ _ => True) := by
  unfold Misty.syncOnce
  refine bind (setReport h) ?_
  intro _ s₁ hub₁ h₁ _
  apply bind (B := fun _ _ _ => True)
  · refine bind (pending h₁) ?_
    intro writes s₂ hub₂ h₂ hwrites
    exact deleteLoop writes s₂ hub₂ h₂ hwrites
  intro _ s₂ hub₂ h₂ _
  apply bind (B := fun _ _ _ => True)
  · refine bind (get h₂) ?_
    intro self s₃ hub₃ h₃ _
    exact pullLoop roster _ _ s₃ hub₃ h₃
  intro _ s₃ hub₃ h₃ _
  apply bind (B := fun _ _ _ => True)
  · refine bind (pending h₃) ?_
    intro writes s₄ hub₄ h₄ hwrites
    exact writeLoop writes s₄ hub₄ h₄ hwrites
  intro _ s₄ hub₄ h₄ _
  refine bind (get h₄) ?_
  intro self s₅ hub₅ h₅ _
  refine bind (setReport h₅) ?_
  intro _ s₆ hub₆ h₆ _
  refine bind (pending h₆) ?_
  intro writes s₇ hub₇ h₇ _
  refine bind (setReport h₇) ?_
  intro _ s₈ hub₈ h₈ _
  refine bind (get h₈) ?_
  intro self s₉ hub₉ h₉ _
  exact pure h₉ trivial

end Prog.Keeping

/-! ### Publishing a roster -/

theorem applied_version {server server' : Server} {itemId : ItemId} {envelope : Bytes} {now : Int} {precondition : Nat}
    {seq : I64} {version : ServerVersion}
    (h : PutTold server itemId envelope now precondition (.applied seq version) server') :
    version = .of (server'.versionAt itemId) := by
  cases h with
  | applied _ _ => simp [Server.versionAt]

theorem conflict_version {server server' : Server} {itemId : ItemId} {envelope : Bytes} {now : Int} {precondition : Nat}
    {version : Option ServerVersion} {current : Option Bytes}
    (h : PutTold server itemId envelope now precondition (.conflict version current) server') :
    version = some (.of (server'.versionAt itemId)) := by
  cases h with
  | conflict _ hrow => simp [Server.versionAt, hrow]

theorem Hub.knows_now (hub : Hub) :
    hub.Knows E vaultKey (some (.of (hub.server.versionAt (rosterAddress E vaultKey)))) := by
  intro v hv
  cases hv
  exact ⟨_, rfl, Nat.le_refl _⟩

theorem Roster.devices_sign {P : Primitives} {roster signed : Roster} {identity : DeviceIdentity}
    (h : roster.sign P identity = .ok signed) : signed.devices = roster.devices := by
  obtain ⟨_, _, h⟩ := bind_eq_ok.mp h
  split at h
  · cases h
  · dsimp only at h
    split at h
    · cases h
    · cases h
      rfl

namespace Prog.Keeping

theorem pushRoster (hP : E.prims.Correct) (hcbor : ReadsBack cbor fromCbor) {draw : SealDraw} {roster : Roster}
    (h : Tracks E vaultKey s.state hub)
    (hpublishes : hub.Publishes E fromCbor vaultKey i (s.state.versionOf (rosterAddress E vaultKey)) roster.devices) :
    Tracking E fromCbor vaultKey config i (Misty.pushRoster E cbor draw roster vaultKey) s hub (fun _ _ _ => True) := by
  unfold Misty.pushRoster
  refine bind (call h (by trivial)) ?_
  intro epoch s₁ hub₁ h₁ hheard
  obtain ⟨rfl, hub₀, hb, hheard⟩ := hheard
  have hpublishes := hpublishes.keeps h.knows h.holds (hb.trans (hheard.beside (fun _ heq => by cases heq)))
  refine bind (get h₁) ?_
  intro self s₂ hub₂ h₂ hself
  obtain ⟨rfl, rfl, rfl⟩ := hself
  refine bind (ofExcept h₂) ?_
  intro sealed s₃ hub₃ h₃ hsealed
  obtain ⟨hsealed, rfl, rfl⟩ := hsealed
  obtain ⟨itemId, bytes⟩ := sealed
  obtain ⟨rfl, hroster, hin⟩ := sealRoster_ok hP hcbor hsealed
  dsimp only
  refine bind (putItem h₃ (by exact fun _ => ⟨hroster, h₃.holds, h₃.knows, roster, hin, hpublishes⟩)) ?_
  intro out s₄ hub₄ h₄ htold
  obtain ⟨rfl, server, now, precondition, htold⟩ := htold
  cases out with
  | applied seq version =>
    dsimp only
    refine bind (ofExcept h₄) ?_
    intro fp s₅ hub₅ h₅ hok
    obtain ⟨_, rfl, rfl⟩ := hok
    refine bind (setState (h₅.insert_roster rfl (by rw [applied_version htold]; exact Hub.knows_now _))) ?_
    intro _ s₆ hub₆ h₆ _
    refine bind (save h₆) ?_
    intro _ s₇ hub₇ h₇ _
    exact pure h₇ trivial
  | conflict version envelope =>
    dsimp only
    refine bind (ofExcept h₄) ?_
    intro fp s₅ hub₅ h₅ hok
    obtain ⟨_, rfl, rfl⟩ := hok
    refine bind (setState (h₅.insert_roster rfl (by rw [conflict_version htold]; exact Hub.knows_now _))) ?_
    intro _ s₆ hub₆ h₆ _
    refine bind (save h₆) ?_
    intro _ s₇ hub₇ h₇ _
    exact pure h₇ trivial

theorem revokeDevice (hP : E.prims.Correct) (hcbor : ReadsBack cbor fromCbor) {draw : SealDraw} {roster : Roster}
    {revoked : DeviceId} (h : Tracks E vaultKey s.state hub)
    (hpublishes : hub.Publishes E fromCbor vaultKey i (s.state.versionOf (rosterAddress E vaultKey))
      (roster.devices.filter fun record => record.deviceId ≠ revoked)) :
    Tracking E fromCbor vaultKey config i (Misty.revokeDevice E cbor draw roster revoked vaultKey) s hub
      (fun _ _ _ => True) := by
  unfold Misty.revokeDevice
  dsimp only [Roster.remove]
  refine bind (get h) ?_
  intro self s₁ hub₁ h₁ hself
  obtain ⟨rfl, rfl, rfl⟩ := hself
  refine bind (ofExcept h₁) ?_
  intro successor s₂ hub₂ h₂ hsigned
  obtain ⟨hsigned, rfl, rfl⟩ := hsigned
  have hdevices : successor.devices = roster.devices.filter fun record => record.deviceId ≠ revoked :=
    Roster.devices_sign (mapError_eq_ok.mp hsigned)
  rw [← hdevices] at hpublishes
  refine bind (pushRoster hP hcbor h₂ hpublishes) ?_
  intro pushed s₃ hub₃ h₃ _
  cases pushed with
  | superseded itemId envelope => exact pure h₃ trivial
  | applied =>
    dsimp only
    refine bind (call h₃ (by trivial)) ?_
    intro a s₄ hub₄ h₄ _
    refine bind (ofExcept h₄) ?_
    intro epoch s₅ hub₅ h₅ _
    refine bind (setState (f := fun state => { state with rotation := some epoch }) (h₅.congr rfl)) ?_
    intro _ s₆ hub₆ h₆ _
    refine bind (save h₆) ?_
    intro _ s₇ hub₇ h₇ _
    exact pure h₇ trivial

theorem rotateStep {limit : Nat} (h : Tracks E vaultKey s.state hub) :
    Tracking E fromCbor vaultKey config i (Misty.rotateStep limit) s hub (fun _ _ _ => True) := by
  unfold Misty.rotateStep
  refine bind (call h (by trivial)) ?_
  intro a s₁ hub₁ h₁ _
  refine bind (ofExcept h₁) ?_
  intro progress s₂ hub₂ h₂ _
  refine bind (get h₂) ?_
  intro self s₃ hub₃ h₃ _
  dsimp only
  split
  · refine bind (setState (f := fun state => { state with rotation := none }) (h₃.congr rfl)) ?_
    intro _ s₄ hub₄ h₄ _
    refine bind (save h₄) ?_
    intro _ s₅ hub₅ h₅ _
    exact pure h₅ trivial
  · exact pure h₃ trivial

end Prog.Keeping

end Engine

end Misty
