import Misty.Sync.Drift

/- No roster update is lost, while the facades are in step: every accepted write of the
   roster's row is the change its command asked for, of the roster that was in the row.
   A facade out of step writes its own roster over it: a superseded push and a pull give
   the engine the new version of the row, and nobody gives the facade the roster in it. -/
namespace Misty

variable {E : Externals} {cbor : Roster → Option Bytes} {fromCbor : Bytes → Option Roster} {vaultKey : ByteArr 32}
  {config : ServerConfig} {i : Nat} {hub hub' : Hub} {s : Facade} {α : Type}

/-! ## The methods of the facade -/

section Facade

variable (E fromCbor vaultKey config i)

/-- What a facade keeps to at a call. -/
def Attends (q : FacadeQuery) (s : Facade) (hub : Hub) : Prop :=
  Obeys E fromCbor vaultKey i q hub ∧ Tracks E vaultKey s.engine.state hub

/-- A part of a facade's method that calls only as it may, and keeps track of the roster's row. -/
abbrev Prog.Attending (x : Command α) (s : Facade) (hub : Hub) (B : α → Facade → Hub → Prop) : Prop :=
  x.Keeping (Beside E vaultKey i) (Heard E fromCbor vaultKey config i) (Attends E fromCbor vaultKey i)
    (fun s hub => Tracks E vaultKey s.engine.state hub) s hub B

variable {E fromCbor vaultKey config i}

theorem within_ensures {lifecycle : Lifecycle} {roster : Roster} {P : α → SyncEngine → Hub → Prop}
    {F : SyncError → SyncEngine → Hub → Prop} :
    ∀ {x : Calls Query Answer SyncError SyncEngine α} {hub : Hub},
      x.Ensures (Beside E vaultKey i) (fun q => Heard E fromCbor vaultKey config i (.engine q))
        (fun q s hub => Obeys E fromCbor vaultKey i (.engine q) hub ∧ Tracks E vaultKey s.state hub) P F hub →
      (x.within lifecycle roster).Ensures (Beside E vaultKey i) (Heard E fromCbor vaultKey config i)
        (Attends E fromCbor vaultKey i)
        (fun a s hub => P a s.engine hub ∧ s.roster = roster ∧ s.lifecycle = lifecycle)
        (fun _ s hub => ∃ e, F e s.engine hub) hub
  | .ok _ _, _, h => ⟨h, rfl, rfl⟩
  | .error e _, _, h => ⟨e, h⟩
  | .call _ _ _, _, h => ⟨h.1, fun hub₁ a hub₂ hb hh => within_ensures (h.2 hub₁ a hub₂ hb hh)⟩

namespace Prog.Keeping

theorem onEngine {x : Sync α} {B : α → SyncEngine → Hub → Prop}
    (hx : Tracking E fromCbor vaultKey config i x s.engine hub B) :
    Attending E fromCbor vaultKey config i (Misty.onEngine x) s hub
      (fun a s' hub' => B a s'.engine hub' ∧ s'.roster = s.roster ∧ s'.lifecycle = s.lifecycle) := by
  apply Calls.Ensures.mono _ _ (within_ensures hx)
  · intro a s' hub' h
    exact ⟨h.1.1, h.1.2, h.2⟩
  · intro e s' hub' h
    obtain ⟨_, h⟩ := h
    exact h

theorem ask {q : FacadeQuery} (h : Tracks E vaultKey s.engine.state hub) (hobeys : Obeys E fromCbor vaultKey i q hub) :
    Attending E fromCbor vaultKey config i (Prog.call q) s hub (fun a s' hub' => s' = s ∧
      ∃ hub₁, Beside E vaultKey i hub hub₁ ∧ Heard E fromCbor vaultKey config i q hub₁ a hub') := by
  refine ⟨⟨hobeys, h⟩, ?_⟩
  intro hub₁ a hub₂ hb hh
  exact ⟨(h.keeps hb.server).keeps hh.server, rfl, hub₁, hb, hh⟩

theorem requireUnlocked (h : Tracks E vaultKey s.engine.state hub) :
    Attending E fromCbor vaultKey config i Misty.requireUnlocked s hub (fun _ s' hub' => s' = s ∧ hub' = hub) := by
  refine bind (get h) ?_
  intro self s₁ hub₁ h₁ hself
  obtain ⟨rfl, rfl, rfl⟩ := hself
  split
  · exact throw h₁
  · exact pure h₁ ⟨rfl, rfl⟩

theorem reopenUnder {roster : Roster} (h : Tracks E vaultKey s.engine.state hub) :
    Attending E fromCbor vaultKey config i (Misty.reopenUnder roster) s hub (fun _ _ _ => True) := by
  refine bind (requireUnlocked h) ?_
  intro _ s₁ hub₁ h₁ _
  refine bind (modify (f := fun self : Facade => { self with lifecycle := .poisoned, roster := roster }) h₁) ?_
  intro _ s₂ hub₂ h₂ _
  refine bind (ask h₂ (by trivial)) ?_
  intro a s₃ hub₃ h₃ _
  refine bind (ofExcept h₃) ?_
  intro _ s₄ hub₄ h₄ _
  refine mono (modify (f := fun self : Facade => { self with lifecycle := .unlocked }) h₄) ?_
  intro _ _ _ _
  trivial

theorem drain : ∀ (steps : Nat) (s : Facade) (hub : Hub), Tracks E vaultKey s.engine.state hub →
    Attending E fromCbor vaultKey config i (Misty.drain steps) s hub (fun _ _ _ => True)
  | 0, s, hub, h => throw h
  | left + 1, s, hub, h => by
    unfold Misty.drain
    refine bind (onEngine (rotateStep h)) ?_
    intro progress s₁ hub₁ h₁ _
    split
    · exact drain left s₁ hub₁ h₁
    · exact pure h₁ trivial

theorem driveSync (h : Tracks E vaultKey s.engine.state hub) :
    Attending E fromCbor vaultKey config i (Misty.driveSync E) s hub (fun _ _ _ => True) := by
  refine bind (requireUnlocked h) ?_
  intro _ s₁ hub₁ h₁ _
  refine bind (get h₁) ?_
  intro self s₂ hub₂ h₂ _
  refine bind (onEngine (syncOnce h₂)) ?_
  intro _ s₃ hub₃ h₃ _
  exact pure h₃ trivial

end Prog.Keeping

/-- In step with the row, the requested change of the facade's devices is the requested change of those in the row. -/
theorem Hub.Current.publishes {st : SyncState} {devices after : List DeviceRecord} {change : RosterChange}
    (h : hub.Current E fromCbor vaultKey st devices) (hdoing : (hub.doing i).bind Doing.change = some change)
    (hturns : change.Turns devices after) :
    hub.Publishes E fromCbor vaultKey i (st.versionOf (rosterAddress E vaultKey)) after := by
  intro row hrow hversion
  obtain ⟨envelope, current, henvelope, hin, hdevices⟩ := h row hrow hversion
  refine ⟨change, current, envelope, hdoing, henvelope, hin, ?_⟩
  rw [hdevices]
  exact hturns

theorem Roster.add_ok {P : Primitives} {roster successor : Roster} {record : DeviceRecord}
    (h : roster.add P record = .ok successor) : RosterChange.Turns (.add record) roster.devices successor.devices := by
  obtain ⟨_, _, h⟩ := bind_eq_ok.mp h
  split at h
  · cases h
  next hnone =>
    cases h
    refine ⟨?_, rfl⟩
    intro other hother hid
    have hnot : roster.contains record.deviceId = none := by simpa using hnone
    exact absurd hid (by simpa using List.find?_eq_none.mp hnot other hother)

theorem recordFor_ok {P : Primitives} {request : EnrollmentRequest} {enrolledAt : I64} {enrolledBy : DeviceId}
    {record : DeviceRecord} (h : recordFor P request enrolledAt enrolledBy = .ok record) :
    record = request.record enrolledAt enrolledBy := by
  obtain ⟨_, _, h⟩ := bind_eq_ok.mp h
  cases h
  rfl

namespace Prog.Keeping

theorem doRevokeDevice (hP : E.prims.Correct) (hcbor : ReadsBack cbor fromCbor) {draw : SealDraw} {steps : Nat}
    {revoked : DeviceId} (h : Tracks E vaultKey s.engine.state hub)
    (hcurrent : hub.Current E fromCbor vaultKey s.engine.state s.roster.devices)
    (hdoing : (hub.doing i).bind Doing.change = some (.remove revoked)) :
    Attending E fromCbor vaultKey config i (Misty.doRevokeDevice E cbor vaultKey draw steps revoked) s hub
      (fun _ _ _ => True) := by
  refine bind (requireUnlocked h) ?_
  intro _ s₁ hub₁ h₁ hsame
  obtain ⟨rfl, rfl⟩ := hsame
  refine bind (get h₁) ?_
  intro self s₂ hub₂ h₂ hself
  obtain ⟨rfl, rfl, rfl⟩ := hself
  refine bind (onEngine (revokeDevice hP hcbor h₂ (hcurrent.publishes hdoing rfl))) ?_
  intro outcome s₃ hub₃ h₃ _
  cases outcome with
  | rosterSuperseded itemId envelope => exact throw h₃
  | revoked removed roster epoch =>
    dsimp only
    refine bind (drain steps s₃ hub₃ h₃) ?_
    intro _ s₄ hub₄ h₄ _
    exact reopenUnder h₄

theorem approveEnrollment (hP : E.prims.Correct) (hcbor : ReadsBack cbor fromCbor) {draw : SealDraw}
    {request : EnrollmentRequest} {typedCode serverUrl : Text} {enrolledAt : I64} {roster : Roster}
    (h : Tracks E vaultKey s.engine.state hub)
    (hcurrent : hub.Current E fromCbor vaultKey s.engine.state roster.devices)
    (hdoing : (hub.doing i).bind Doing.change = some (.add (request.record enrolledAt s.engine.identity.deviceId))) :
    Attending E fromCbor vaultKey config i
      (Misty.approveEnrollment E cbor vaultKey draw roster request typedCode serverUrl enrolledAt) s hub
      (fun _ _ _ => True) := by
  refine bind (get h) ?_
  intro self s₁ hub₁ h₁ hself
  obtain ⟨rfl, rfl, rfl⟩ := hself
  refine bind (ofExcept h₁) ?_
  intro record s₂ hub₂ h₂ hrecord
  obtain ⟨hrecord, rfl, rfl⟩ := hrecord
  have hrecord := recordFor_ok (mapError_eq_ok.mp (mapError_eq_ok.mp hrecord))
  subst hrecord
  refine bind (ofExcept h₂) ?_
  intro added s₃ hub₃ h₃ hadded
  obtain ⟨hadded, rfl, rfl⟩ := hadded
  have hturns := Roster.add_ok (mapError_eq_ok.mp (mapError_eq_ok.mp hadded))
  refine bind (ofExcept h₃) ?_
  intro successor s₄ hub₄ h₄ hsigned
  obtain ⟨hsigned, rfl, rfl⟩ := hsigned
  rw [← Roster.devices_sign (mapError_eq_ok.mp (mapError_eq_ok.mp hsigned))] at hturns
  have hpublishes := hcurrent.publishes hdoing hturns
  -- the epoch is read and the grant sealed while the others go on
  refine bind (onEngine (call h₄ (by trivial))) ?_
  intro epoch s₅ hub₅ h₅ hheard
  obtain ⟨⟨hsame, hub₆, hb, hheard⟩, -, -⟩ := hheard
  have hpublishes := hpublishes.keeps h₄.knows h₄.holds (hb.trans (hheard.beside (fun _ heq => by cases heq)))
  rw [← hsame] at hpublishes
  refine bind (ask h₅ (by trivial)) ?_
  intro sealed s₇ hub₇ h₇ hheard
  obtain ⟨rfl, hub₈, hb, hheard⟩ := hheard
  have hpublishes := hpublishes.keeps h₅.knows h₅.holds (hb.trans (hheard.beside (fun _ heq => by cases heq)))
  refine bind (ofExcept h₇) ?_
  intro grant s₉ hub₉ h₉ hgrant
  obtain ⟨-, rfl, rfl⟩ := hgrant
  refine bind (onEngine (pushRoster hP hcbor h₉ hpublishes)) ?_
  intro pushed s₁₀ hub₁₀ h₁₀ _
  cases pushed with
  | superseded itemId envelope => exact pure h₁₀ trivial
  | applied =>
    dsimp only
    refine bind (ask h₁₀ (by trivial)) ?_
    intro delivered s₁₁ hub₁₁ h₁₁ _
    refine bind (ofExcept h₁₁) ?_
    intro _ s₁₂ hub₁₂ h₁₂ _
    exact pure h₁₂ trivial

theorem fetchApproval {enrollId : EnrollId} (h : Tracks E vaultKey s.engine.state hub) :
    Attending E fromCbor vaultKey config i (Misty.fetchApproval enrollId) s hub (fun found s' hub' => s' = s ∧
      hub.server.KeepsRoster E vaultKey hub'.server ∧ ∀ request, found = some request →
        hub'.doing i = (hub.doing i).map fun doing => { doing with request := some request }) := by
  refine bind (ask h (by trivial)) ?_
  intro answer s₁ hub₁ h₁ hheard
  obtain ⟨rfl, hub₀, hb, hheard⟩ := hheard
  have hk := hb.server.trans hheard.server
  refine bind (ofExcept h₁) ?_
  intro found s₂ hub₂ h₂ hok
  obtain ⟨hok, rfl, rfl⟩ := hok
  have hanswer := mapError_eq_ok.mp hok
  subst hanswer
  cases found with
  | none => exact pure h₂ ⟨rfl, hk, nofun⟩
  | some request =>
    dsimp only
    split
    · exact throw h₂
    · refine pure h₂ ⟨rfl, hk, ?_⟩
      intro request' heq
      cases heq
      have hset : hub₂ = hub₀.set i ((hub₀.doing i).map fun doing => { doing with request := some request }) :=
        hheard.replies
      rw [hset, ← hb.doing]
      simp [Hub.set]

theorem doApproveEnrollment (hP : E.prims.Correct) (hcbor : ReadsBack cbor fromCbor) {draw : SealDraw} {enrollId : EnrollId}
    {typedCode serverUrl : Text} {enrolledAt : I64} (h : Tracks E vaultKey s.engine.state hub)
    (hcurrent : hub.Current E fromCbor vaultKey s.engine.state s.roster.devices)
    (hdoing : hub.doing i = some ⟨.approveEnrollment draw enrollId typedCode serverUrl enrolledAt,
      s.engine.identity.deviceId, none⟩) :
    Attending E fromCbor vaultKey config i
      (Misty.doApproveEnrollment E cbor vaultKey draw enrollId typedCode serverUrl enrolledAt) s hub
      (fun _ _ _ => True) := by
  refine bind (fetchApproval h) ?_
  intro found s₁ hub₁ h₁ hfound
  obtain ⟨rfl, hk, hrequest⟩ := hfound
  cases found with
  | none => exact throw h₁
  | some request =>
    dsimp only
    have hcurrent := hcurrent.keeps h hk
    have hdoing := hrequest request rfl
    refine bind (requireUnlocked h₁) ?_
    intro _ s₂ hub₂ h₂ hsame
    obtain ⟨rfl, rfl⟩ := hsame
    refine bind (get h₂) ?_
    intro self s₃ hub₃ h₃ hself
    obtain ⟨rfl, rfl, rfl⟩ := hself
    refine bind (approveEnrollment hP hcbor h₃ hcurrent ?_) ?_
    · rw [hdoing, ‹hub.doing i = _›]
      rfl
    · intro outcome s₄ hub₄ h₄ _
      cases outcome with
      | rosterSuperseded itemId envelope => exact throw h₄
      | approved roster record => exact reopenUnder h₄

theorem run (hP : E.prims.Correct) (hcbor : ReadsBack cbor fromCbor) {command : FacadeCommand}
    (h : Tracks E vaultKey s.engine.state hub) (hbegan : Coordinated E fromCbor vaultKey (.began s command) hub)
    (hdoing : hub.doing i = some ⟨command, s.engine.identity.deviceId, none⟩) :
    Attending E fromCbor vaultKey config i (command.run E cbor vaultKey) s hub (fun _ _ _ => True) := by
  cases command with
  | syncOnce => exact driveSync h
  | revokeDevice draw steps revoked =>
    refine doRevokeDevice hP hcbor h hbegan ?_
    rw [hdoing]
    rfl
  | approveEnrollment draw enrollId typedCode serverUrl enrolledAt =>
    exact doApproveEnrollment hP hcbor h hbegan hdoing

end Prog.Keeping

end Facade

/-! ## Runs -/

/-- An accepted row is the requested change of the row before it. -/
def RosterWrite.Exact (E : Externals) (fromCbor : Bytes → Option Roster) (vaultKey : ByteArr 32) (self : RosterWrite) :
    Prop :=
  ∀ row, self.before = some row → ∃ change row' envelope envelope' current next, self.change = some change ∧
    self.after = some row' ∧ row'.version = row.version + 1 ∧
    row.envelope = some envelope ∧ rosterIn E fromCbor vaultKey envelope = some current ∧
    row'.envelope = some envelope' ∧ rosterIn E fromCbor vaultKey envelope' = some next ∧
    change.Turns current.devices next.devices

/-- A call that is as it may be leaves the roster's row, or writes it anew. -/
theorem Replies.keeps {q : FacadeQuery} {a : q.Answer} (h : Replies E vaultKey config i q hub a hub')
    (hobeys : Obeys E fromCbor vaultKey i q hub) : hub.server.KeepsRoster E vaultKey hub'.server := by
  cases q with
  | engine q =>
    cases q with
    | send request =>
      have hspares : request.SparesRoster E vaultKey := by
        cases request with
        | changes since limit => trivial
        | put itemId envelope version => exact fun hid => (hobeys hid).1
        | delete itemId version => exact hobeys
      obtain ⟨now, ⟨_, rfl⟩ | ⟨_, _, rfl | rfl⟩⟩ := h
      · exact keepsRoster_respond hspares
      · exact keepsRoster_respond hspares
      · exact .of_same rfl
    | _ =>
      rw [show hub' = hub from h]
      exact .of_same rfl
  | fetch enrollId =>
    rw [show hub' = _ from h]
    split
    · exact .of_same rfl
    · exact .of_same rfl
  | _ =>
    rw [show hub' = hub from h]
    exact .of_same rfl

/-- A write of the roster's row is the requested change of it. -/
theorem exact_become {now : Int} {request : Request} (hobeys : Obeys E fromCbor vaultKey i (.engine (.send request)) hub)
    (hlog : ∀ write ∈ hub.log, write.Exact E fromCbor vaultKey) :
    ∀ write ∈ (hub.become E vaultKey i (respond config now hub.server request).2).log,
      write.Exact E fromCbor vaultKey := by
  intro write hwrite
  simp only [Hub.become] at hwrite
  split at hwrite
  · exact hlog write hwrite
  next hchanged =>
    rcases List.mem_cons.mp hwrite with rfl | hwrite
    swap
    · exact hlog write hwrite
    intro row hrow
    have hanswer := @respond_at config now hub.server request (rosterAddress E vaultKey)
    rcases hanswer with hsame | hwrote | hdelete
    · exact absurd hsame hchanged
    · obtain ⟨envelope, version, rfl, hcondition, hafter⟩ := hwrote
      obtain ⟨_, _, hknows, next, hnext, hpublishes⟩ := hobeys rfl
      have hat : hub.server.versionAt (rosterAddress E vaultKey) = row.version := by
        simp only [Server.versionAt]
        rw [show hub.server.rows[rosterAddress E vaultKey]? = some row from hrow]
        rfl
      have hversion : version = some (.of row.version) := by
        cases version with
        | none =>
          -- a row that is there has a version of its own
          have hzero : 0 = hub.server.versionAt (rosterAddress E vaultKey) := Except.ok.inj hcondition
          have hpos := (hub.server.stamped _ row hrow).2.2
          omega
        | some v =>
          obtain ⟨n, rfl, _⟩ := hknows v rfl
          rw [← hat, eq_of_putCondition_of hcondition]
      obtain ⟨change, current, envelope', hchange, henvelope, hin, hturns⟩ := hpublishes row hrow hversion
      exact ⟨change, _, envelope', envelope, current, next, hchange, hafter, by rw [hat], henvelope, hin, rfl, hnext,
        hturns⟩
    · obtain ⟨version, rfl⟩ := hdelete
      exact absurd rfl hobeys

theorem Replies.exact {q : FacadeQuery} {a : q.Answer} (h : Replies E vaultKey config i q hub a hub')
    (hobeys : Obeys E fromCbor vaultKey i q hub) (hlog : ∀ write ∈ hub.log, write.Exact E fromCbor vaultKey) :
    ∀ write ∈ hub'.log, write.Exact E fromCbor vaultKey := by
  cases q with
  | engine q =>
    cases q with
    | send request =>
      obtain ⟨now, ⟨_, rfl⟩ | ⟨_, _, rfl | rfl⟩⟩ := h
      · exact exact_become hobeys hlog
      · exact exact_become hobeys hlog
      · exact hlog
    | _ =>
      rw [show hub' = hub from h]
      exact hlog
  | fetch enrollId =>
    rw [show hub' = _ from h]
    split
    · exact hlog
    · exact hlog
  | _ =>
    rw [show hub' = hub from h]
    exact hlog

theorem Replies.others {q : FacadeQuery} {a : q.Answer} (h : Replies E vaultKey config i q hub a hub') {j : Nat}
    (hj : j ≠ i) : hub'.doing j = hub.doing j := by
  by_cases hq : ∀ enrollId, q ≠ .fetch enrollId
  · rw [h.doing hq]
  · obtain ⟨enrollId, hq⟩ := not_forall.mp hq
    rw [not_not] at hq
    subst hq
    rw [show hub' = _ from h]
    split
    · simp [Hub.set, hj]
    · rfl

variable (E fromCbor vaultKey config)

/-- What holds in every state of a run in step. -/
structure Cluster.Sound (c : Cluster) : Prop where
  holds : c.hub.server.HoldsRoster E vaultKey
  standing : Calls.Standing (fun i => Beside E vaultKey i) (fun i => Heard E fromCbor vaultKey config i)
    (fun i => Attends E fromCbor vaultKey i) (fun _ s hub => Tracks E vaultKey s.engine.state hub)
    (fun _ s hub => Tracks E vaultKey s.engine.state hub) c.facades c.hub
  log : ∀ write ∈ c.hub.log, write.Exact E fromCbor vaultKey

variable {E fromCbor vaultKey config}

theorem Attends.beside {q : FacadeQuery} (h : Attends E fromCbor vaultKey i q s hub) (hb : Beside E vaultKey i hub hub') :
    Attends E fromCbor vaultKey i q s hub' :=
  ⟨h.1.beside hb, h.2.keeps hb.server⟩

theorem Coordinated.set {facade : Facade} {command : FacadeCommand} {doing : Option Doing}
    (h : Coordinated E fromCbor vaultKey (.began facade command) hub) :
    Coordinated E fromCbor vaultKey (.began facade command) (hub.set i doing) := by
  cases command with
  | syncOnce => trivial
  | revokeDevice _ _ _ => exact h
  | approveEnrollment _ _ _ _ _ => exact h

/-- One facade goes on, and the others see it as a move of the server. -/
theorem Cluster.Sound.set {facades : List (FacadeCalls Unit)} (h : Cluster.Sound E fromCbor vaultKey config ⟨facades, hub⟩)
    {x : FacadeCalls Unit}
    (hx : x.Ensures (Beside E vaultKey i) (Heard E fromCbor vaultKey config i) (Attends E fromCbor vaultKey i)
      (fun _ s hub => Tracks E vaultKey s.engine.state hub) (fun _ s hub => Tracks E vaultKey s.engine.state hub) hub')
    (hk : hub.server.KeepsRoster E vaultKey hub'.server) (hothers : ∀ j, j ≠ i → hub'.doing j = hub.doing j)
    (hlog : ∀ write ∈ hub'.log, write.Exact E fromCbor vaultKey) :
    Cluster.Sound E fromCbor vaultKey config ⟨facades.set i x, hub'⟩ :=
  ⟨(hk h.holds).1, h.standing.set (fun _ _ _ _ h h' => h.trans h') (fun _ _ _ _ _ hb h => h.beside hb)
    (fun _ _ _ _ _ hb h => h.keeps hb.server) (fun _ _ _ _ _ hb h => h.keeps hb.server) hx
    (fun j hj => ⟨hk, hothers j hj⟩), hlog⟩

/-- A facade that has ended its last command keeps track of the roster's row. -/
theorem Cluster.Sound.ended {facades : List (FacadeCalls Unit)}
    (h : Cluster.Sound E fromCbor vaultKey config ⟨facades, hub⟩) {x : FacadeCalls Unit} (hx : facades[i]? = some x)
    (hended : x.Ended) : Tracks E vaultKey x.state.engine.state hub := by
  have hensures := h.standing i x hx
  cases x with
  | ok _ _ => exact hensures
  | error _ _ => exact hensures
  | call _ _ _ => exact hended.elim

theorem Cluster.Sound.step (hP : E.prims.Correct) (hcbor : ReadsBack cbor fromCbor) {c c' : Cluster}
    (h : c.Sound E fromCbor vaultKey config)
    (hstep : Cluster.Step E cbor vaultKey config (Coordinated E fromCbor vaultKey) c c') :
    c'.Sound E fromCbor vaultKey config := by
  cases hstep with
  | @joined facades hub facade hnew =>
    refine ⟨h.holds, h.standing.concat ?_, h.log⟩
    show Tracks E vaultKey facade.engine.state hub
    rw [hnew]
    exact .new h.holds
  | @began facades hub i x command hx hended hbegan =>
    have htracks := h.ended hx hended
    refine h.set ?_ (.of_same rfl) ?_ h.log
    · have hrun : Prog.Attending E fromCbor vaultKey config i (command.run E cbor vaultKey) x.state
          (hub.set i (some ⟨command, x.state.engine.identity.deviceId, none⟩)) (fun _ _ _ => True) :=
        Prog.Keeping.run hP hcbor (htracks.keeps (.of_same rfl)) hbegan.set (by simp [Hub.set])
      exact Calls.Ensures.mono (fun _ _ _ h => h.1) (fun _ _ _ h => h) hrun
    · intro j hj
      simp [Hub.set, hj]
  | @answered facades hub hub' i q s k a hx hreplies hcoord =>
    have hensures := h.standing i _ hx
    have hobeys : Obeys E fromCbor vaultKey i q hub := hensures.1.1
    have hk := hreplies.keeps hobeys
    exact h.set (hensures.answered (fun hub => .refl hub) ⟨hreplies, hcoord, hk⟩) hk (fun j hj => hreplies.others hj)
      (hreplies.exact hobeys h.log)
  -- the server may have answered a call that nobody hears: it still holds the roster
  | @preempted facades hub hub' i q s k a hx _ hlost =>
    obtain ⟨hobeys, htracks⟩ := (h.standing i _ hx).1
    rcases hlost with rfl | hreplies
    · exact h.set (show Tracks E vaultKey s.engine.state _ from htracks) (.of_same rfl) (fun _ _ => rfl) h.log
    · have hk := hreplies.keeps hobeys
      exact h.set (show Tracks E vaultKey s.engine.state _ from htracks.keeps hk) hk (fun j hj => hreplies.others hj)
        (hreplies.exact hobeys h.log)
  | @turned facades hub i x lifecycle hx hended _ _ =>
    exact h.set (show Tracks E vaultKey x.state.engine.state _ from h.ended hx hended) (.of_same rfl) (fun _ _ => rfl)
      h.log
  | @swept facades hub horizon =>
    have hk : hub.server.KeepsRoster E vaultKey (hub.server.sweep horizon) := hub.server.keepsRoster_sweep horizon
    refine ⟨(hk h.holds).1, ?_, h.log⟩
    exact h.standing.moved (fun _ _ _ _ h h' => h.trans h') (fun _ _ _ _ _ hb h => h.beside hb)
      (fun _ _ _ _ _ hb h => h.keeps hb.server) (fun _ _ _ _ _ hb h => h.keeps hb.server) (fun _ => ⟨hk, rfl⟩)

theorem Cluster.Reached.sound (hP : E.prims.Correct) (hcbor : ReadsBack cbor fromCbor) {c : Cluster}
    (h : Cluster.Reached E cbor vaultKey config (Coordinated E fromCbor vaultKey) c) :
    c.Sound E fromCbor vaultKey config := by
  induction h with
  | start =>
    refine ⟨?_, .nil, ?_⟩
    · intro row hrow
      simp [Server.new] at hrow
    · intro write hwrite
      cases hwrite
  | step _ hstep ih => exact ih.step hP hcbor hstep

/-- A device that a change takes out or puts in is the one it is about. -/
theorem RosterChange.Turns.only {change : RosterChange} {before after : List DeviceRecord} (h : change.Turns before after) :
    (∀ record ∈ before, record ∉ after → change = .remove record.deviceId) ∧
    ∀ record ∈ after, record ∉ before → change = .add record := by
  cases change with
  | add added =>
    obtain ⟨_, rfl⟩ := h
    constructor
    · intro record hbefore hnot
      exact absurd (List.mem_append_left _ hbefore) hnot
    · intro record hafter hnot
      rcases List.mem_append.mp hafter with hin | hadded
      · exact absurd hin hnot
      · rw [List.mem_singleton.mp hadded]
  | remove id =>
    have h : after = before.filter fun record => record.deviceId ≠ id := h
    subst h
    constructor
    · intro record hbefore hnot
      rw [List.mem_filter, not_and] at hnot
      have hid := hnot hbefore
      rw [decide_eq_true_iff, not_not] at hid
      rw [hid]
    · intro record hafter hnot
      exact absurd (List.mem_filter.mp hafter).1 hnot

/-- A record that is gone from the roster was to be removed, and one that is new in it was to be added. -/
def RosterWrite.OnlyAsked (E : Externals) (fromCbor : Bytes → Option Roster) (vaultKey : ByteArr 32)
    (self : RosterWrite) : Prop :=
  ∀ row row' envelope envelope' current next, self.before = some row → self.after = some row' →
    row.envelope = some envelope → row'.envelope = some envelope' →
    rosterIn E fromCbor vaultKey envelope = some current → rosterIn E fromCbor vaultKey envelope' = some next →
    (∀ record ∈ current.devices, record ∉ next.devices → self.change = some (.remove record.deviceId)) ∧
    ∀ record ∈ next.devices, record ∉ current.devices → self.change = some (.add record)

theorem RosterWrite.Exact.onlyAsked {write : RosterWrite} (h : write.Exact E fromCbor vaultKey) :
    write.OnlyAsked E fromCbor vaultKey := by
  intro row row' envelope envelope' current next hbefore hafter henvelope henvelope' hin hin'
  obtain ⟨change, _, _, _, _, _, hchange, hafter₁, _, henvelope₁, hin₁, henvelope₁', hin₁', hturns⟩ := h row hbefore
  rw [hafter] at hafter₁
  cases hafter₁
  rw [henvelope] at henvelope₁
  cases henvelope₁
  rw [henvelope'] at henvelope₁'
  cases henvelope₁'
  rw [hin] at hin₁
  cases hin₁
  rw [hin'] at hin₁'
  cases hin₁'
  rw [hchange]
  refine ⟨?_, ?_⟩
  · intro record hmem hnot
    exact congrArg some (hturns.only.1 record hmem hnot)
  · intro record hmem hnot
    exact congrArg some (hturns.only.2 record hmem hnot)

/-- No roster update is lost in a run in step: every roster row accepted over another, at the next version, holds the
roster in that row with exactly the requested device added or removed, and no other record comes or goes. -/
theorem roster_updates_kept (E : Externals) (cbor : Roster → Option Bytes) (fromCbor : Bytes → Option Roster)
    (vaultKey : ByteArr 32) (config : ServerConfig) (hP : E.prims.Correct) (hcbor : ReadsBack cbor fromCbor) {c : Cluster}
    (h : Cluster.Reached E cbor vaultKey config (Coordinated E fromCbor vaultKey) c) :
    ∀ write ∈ c.hub.log, write.Exact E fromCbor vaultKey ∧ write.OnlyAsked E fromCbor vaultKey := by
  intro write hwrite
  have hexact := (h.sound hP hcbor).log write hwrite
  exact ⟨hexact, hexact.onlyAsked⟩

/-! ## Runs that can be computed -/

/-- A world in which every call is answered, by a vault that has no objects. -/
def calm (i : Nat) : (q : FacadeQuery) → Hub → q.Answer × Hub
  | .engine .loadAll, hub => (.ok [], hub)
  | .engine (.stored _), hub => (.ok none, hub)
  | .engine (.mergeRemote _), hub => (.ok ⟨0, 0, [], [], []⟩, hub)
  | .engine .epoch, hub => (0, hub)
  | .engine .rotateEpoch, hub => (.ok 1, hub)
  | .engine (.rewrap _), hub => (.ok ⟨0, 0⟩, hub)
  | .engine (.save _), hub => (.ok (), hub)
  | .engine (.send request), hub => (.ok (respond .sample 0 hub.server request).1,
      hub.become (.sample [] []) (.repeated 32 7) i (respond .sample 0 hub.server request).2)
  | .fetch _, hub => (.ok none, hub)
  | .sealGrant _ _ _ _ _, hub => (.ok [], hub)
  | .deliver _ _, hub => (.ok (), hub)
  | .reopen _, hub => (.ok (), hub)

theorem calm_replies (i : Nat) (q : FacadeQuery) (hub : Hub) :
    Replies (.sample [] []) (.repeated 32 7) .sample i q hub (calm i q hub).1 (calm i q hub).2 := by
  cases q with
  | engine q =>
    cases q with
    | send request => exact ⟨0, .inl ⟨rfl, rfl⟩⟩
    | _ => rfl
  | _ => rfl

/-- Rosters written down as their places in a table. -/
def tableCbor (table : List Roster) (roster : Roster) : Option Bytes :=
  (table.findIdx? (fun other => other = roster)).map fun n => List.replicate n 0

def tableFromCbor (table : List Roster) (bytes : Bytes) : Option Roster := table[bytes.length]?

theorem tableCbor_reads (table : List Roster) : ReadsBack (tableCbor table) (tableFromCbor table) := by
  intro roster bytes h
  obtain ⟨n, hn, rfl⟩ := Option.map_eq_some_iff.mp h
  obtain ⟨hlt, hroster, _⟩ := List.findIdx?_eq_some_iff_getElem.mp hn
  rw [tableFromCbor, List.length_replicate, List.getElem?_eq_getElem hlt]
  exact congrArg some (of_decide_eq_true hroster)

/-- A roster of the devices, signed by one of them. -/
def Roster.signedBySample (d : Byte) (devices : List Byte) : Roster :=
  ⟨devices.map .sample, some (DeviceIdentity.sample d).deviceId,
    some ((DeviceIdentity.sample d).sign .sample
      ((⟨devices.map .sample, none, none⟩ : Roster).signingBytes (DeviceIdentity.sample d).deviceId))⟩

/-- The rosters the runs below write. -/
def sampleRosters : List Roster :=
  [.signedBySample 1 [1, 2, 4], .signedBySample 1 [1, 2], .signedBySample 2 [1, 2, 3]]

theorem calm_unclaimed (i : Nat) (q : FacadeQuery) (hub : Hub) :
    Unclaimed (.sample [] []) (.repeated 32 7) (.answered q (calm i q hub).1) := by
  cases q with
  | engine q =>
    cases q with
    | loadAll =>
      intro rows hrows row hrow
      cases hrows
      cases hrow
    | _ => trivial
  | _ => trivial

theorem calm_coordinated (i : Nat) (q : FacadeQuery) (hub : Hub) :
    Coordinated (.sample [] []) (tableFromCbor sampleRosters) (.repeated 32 7) (.answered q (calm i q hub).1) hub := by
  cases q with
  | engine q =>
    cases q with
    | loadAll => exact calm_unclaimed i (.engine .loadAll) hub
    | _ => trivial
  | _ => trivial

/-- The facade of a device that was given the roster of four. -/
def Facade.sample (d : Byte) : Facade := ⟨.unlocked, ⟨.new, .new, .sample d, 10⟩, .sample [1, 2, 3, 4]⟩

/-- A command that revokes a device. -/
def revoking (d : Byte) : FacadeCommand :=
  .revokeDevice ⟨.ok (.repeated 32 0), .ok (.repeated 24 0, .repeated 24 0)⟩ 1 (DeviceIdentity.sample d).deviceId

/-- What a program has come to. -/
def Calls.ending : Except FacadeError Unit × Facade × Hub → FacadeCalls Unit
  | (.ok a, s, _) => ok a s
  | (.error e, s, _) => error e s

/-- A facade whose last command has ended runs another to its end. -/
def Cluster.does (self : Cluster) (i : Nat) (command : FacadeCommand) : Cluster :=
  match self.facades[i]? with
  | some (.ok _ s) | some (.error _ s) =>
    let run := (command.run (.sample [] []) (tableCbor sampleRosters) (.repeated 32 7) s).run (calm i)
      (self.hub.set i (some ⟨command, s.engine.identity.deviceId, none⟩))
    ⟨self.facades.set i (.ending run), run.2.2⟩
  | _ => self

section Runs

variable {C : FacadeEvent → Hub → Prop}

/-- The runs of the sample facades. -/
abbrev Cluster.Plays (C : FacadeEvent → Hub → Prop) (c : Cluster) : Prop :=
  Cluster.Reached (.sample [] []) (tableCbor sampleRosters) (.repeated 32 7) .sample C c

theorem set_same {α : Type} {l : List α} {i : Nat} {a : α} (h : l[i]? = some a) : l.set i a = l := by
  obtain ⟨hlt, rfl⟩ := List.getElem?_eq_some_iff.mp h
  exact List.set_getElem_self hlt

theorem Cluster.Plays.ran (hC : ∀ i q hub, C (.answered q (calm i q hub).1) hub) :
    ∀ (x : FacadeCalls Unit) {facades : List (FacadeCalls Unit)} {hub : Hub} {i : Nat}, Plays C ⟨facades, hub⟩ →
      facades[i]? = some x → Plays C ⟨facades.set i (.ending (x.run (calm i) hub)), (x.run (calm i) hub).2.2⟩
  | .ok a s, facades, hub, i, h, hx => by
    have hsame : facades.set i (.ok a s) = facades := set_same hx
    show Plays C ⟨facades.set i (.ok a s), hub⟩
    rw [hsame]
    exact h
  | .error e s, facades, hub, i, h, hx => by
    have hsame : facades.set i (.error e s) = facades := set_same hx
    show Plays C ⟨facades.set i (.error e s), hub⟩
    rw [hsame]
    exact h
  | .call q s k, facades, hub, i, h, hx => by
    have hanswered := h.step (.answered hx (calm_replies i q hub) (hC i q hub))
    have hlt := (List.getElem?_eq_some_iff.mp hx).1
    have hrest := Cluster.Plays.ran hC (k (calm i q hub).1) hanswered (List.getElem?_set_self hlt)
    rw [List.set_set] at hrest
    exact hrest

theorem Cluster.Plays.does (hC : ∀ i q hub, C (.answered q (calm i q hub).1) hub) {c : Cluster} (h : Plays C c)
    {i : Nat} {command : FacadeCommand}
    (hbegan : ∀ x, c.facades[i]? = some x → C (.began x.state command) c.hub) : Plays C (c.does i command) := by
  have hrun : ∀ x, c.facades[i]? = some x → x.Ended → Plays C ⟨c.facades.set i (.ending
      ((command.run (.sample [] []) (tableCbor sampleRosters) (.repeated 32 7) x.state).run (calm i)
        (c.hub.set i (some ⟨command, x.state.engine.identity.deviceId, none⟩)))),
      ((command.run (.sample [] []) (tableCbor sampleRosters) (.repeated 32 7) x.state).run (calm i)
        (c.hub.set i (some ⟨command, x.state.engine.identity.deviceId, none⟩))).2.2⟩ := by
    intro x hx hended
    have hstarted := h.step (.began hx hended (hbegan x hx))
    have hlt := (List.getElem?_eq_some_iff.mp hx).1
    have hall := Cluster.Plays.ran hC _ hstarted (List.getElem?_set_self hlt)
    rw [List.set_set] at hall
    exact hall
  unfold Cluster.does
  split
  · next a s hx => exact hrun _ hx trivial
  · next e s hx => exact hrun _ hx trivial
  · exact h

/-- Whether the facade at a place holds the roster in the row, if its engine remembers the row's version. -/
def Cluster.inStep (self : Cluster) (i : Nat) : Bool :=
  (self.facades[i]?).all fun x =>
    (self.hub.server.rows[rosterAddress (.sample [] []) (.repeated 32 7)]?).all fun row =>
      x.state.engine.state.versionOf (rosterAddress (.sample [] []) (.repeated 32 7)) ≠ some (.of row.version) ||
      (row.envelope.bind (rosterIn (.sample [] []) (tableFromCbor sampleRosters) (.repeated 32 7))).any fun roster =>
        roster.devices = x.state.roster.devices

theorem Cluster.current_of_inStep {c : Cluster} {i : Nat} (h : c.inStep i = true) {x : FacadeCalls Unit}
    (hx : c.facades[i]? = some x) :
    c.hub.Current (.sample [] []) (tableFromCbor sampleRosters) (.repeated 32 7) x.state.engine.state
      x.state.roster.devices := by
  intro row hrow hversion
  unfold Cluster.inStep at h
  rw [hx, Option.all_some, hrow, Option.all_some, Bool.or_eq_true] at h
  cases h with
  | inl hunaware => exact absurd hversion (of_decide_eq_true hunaware)
  | inr hsame =>
    obtain ⟨roster, hroster, hdevices⟩ := (Option.any_eq_true _ _).mp hsame
    obtain ⟨envelope, henvelope, hin⟩ := Option.bind_eq_some_iff.mp hroster
    exact ⟨envelope, roster, henvelope, hin, of_decide_eq_true hdevices⟩

/-- The error that the last command of the facade at a place ended in. -/
def Cluster.failure (self : Cluster) (i : Nat) : Option FacadeError :=
  match self.facades[i]? with
  | some (.error e _) => some e
  | _ => none

/-- Two devices that were given the roster of four. -/
def Cluster.pair : Cluster := ⟨[.ok ⟨⟩ (.sample 1), .ok ⟨⟩ (.sample 2)], .new, fun _ => none, []⟩

theorem Cluster.Plays.pair : Plays C .pair := (Reached.start.step (.joined rfl)).step (.joined rfl)

end Runs

/-- Device 1 revokes device 3. Device 2, which has not heard of it, revokes device 4 and is superseded; device 1 revokes
device 4 as well. -/
theorem roster_updates_kept_twice : ∃ c, Cluster.Plays
    (Coordinated (.sample [] []) (tableFromCbor sampleRosters) (.repeated 32 7)) c ∧
    c.failure 1 = some (.internal SUPERSEDED) ∧ c.hub.log.length = 2 ∧
    ∀ write ∈ c.hub.log, write.Exact (.sample [] []) (tableFromCbor sampleRosters) (.repeated 32 7) ∧
      write.OnlyAsked (.sample [] []) (tableFromCbor sampleRosters) (.repeated 32 7) := by
  have hfirst : Cluster.Plays (Coordinated (.sample [] []) (tableFromCbor sampleRosters) (.repeated 32 7))
      (Cluster.pair.does 0 (revoking 3)) := by
    refine Cluster.Plays.pair.does calm_coordinated ?_
    intro x _ row hrow
    simp [Cluster.pair, Server.new] at hrow
  have hsuperseded : Cluster.Plays (Coordinated (.sample [] []) (tableFromCbor sampleRosters) (.repeated 32 7))
      ((Cluster.pair.does 0 (revoking 3)).does 1 (revoking 4)) := by
    refine hfirst.does calm_coordinated ?_
    intro x hx
    -- device 2 remembers no version of the row
    have hinStep : (Cluster.pair.does 0 (revoking 3)).inStep 1 = true := by decide +kernel
    exact Cluster.current_of_inStep hinStep hx
  have hsecond : Cluster.Plays (Coordinated (.sample [] []) (tableFromCbor sampleRosters) (.repeated 32 7))
      (((Cluster.pair.does 0 (revoking 3)).does 1 (revoking 4)).does 0 (revoking 4)) := by
    refine hsuperseded.does calm_coordinated ?_
    intro x hx
    -- the row holds the roster that the first revocation left to device 1
    have hinStep : ((Cluster.pair.does 0 (revoking 3)).does 1 (revoking 4)).inStep 0 = true := by decide +kernel
    exact Cluster.current_of_inStep hinStep hx
  exact ⟨_, hsecond, by decide +kernel, by decide +kernel, roster_updates_kept (.sample [] []) (tableCbor sampleRosters)
    (tableFromCbor sampleRosters) (.repeated 32 7) .sample Primitives.sample_correct (tableCbor_reads _) hsecond⟩

/-- Whether a write of the roster that removes a device leaves something else of the roster before it. -/
def RosterWrite.loses (self : RosterWrite) : Bool :=
  match self.change, (self.before.bind ServerRow.envelope).bind
      (rosterIn (.sample [] []) (tableFromCbor sampleRosters) (.repeated 32 7)),
    (self.after.bind ServerRow.envelope).bind
      (rosterIn (.sample [] []) (tableFromCbor sampleRosters) (.repeated 32 7)) with
  | some (.remove id), some current, some next =>
    next.devices ≠ current.devices.filter fun record => record.deviceId ≠ id
  | _, _, _ => false

theorem RosterWrite.not_exact_of_loses {write : RosterWrite} (h : write.loses = true) :
    ¬ write.Exact (.sample [] []) (tableFromCbor sampleRosters) (.repeated 32 7) := by
  intro hexact
  unfold RosterWrite.loses at h
  split at h
  · next id current next hchange hcurrent hnext =>
    obtain ⟨envelope, hbefore, hin⟩ := Option.bind_eq_some_iff.mp hcurrent
    obtain ⟨row, hrow, henvelope⟩ := Option.bind_eq_some_iff.mp hbefore
    obtain ⟨envelope', hafter, hin'⟩ := Option.bind_eq_some_iff.mp hnext
    obtain ⟨row', hrow', henvelope'⟩ := Option.bind_eq_some_iff.mp hafter
    obtain ⟨change, _, _, _, _, _, hchange₁, hafter₁, _, henvelope₁, hin₁, henvelope₁', hin₁', hturns⟩ := hexact row hrow
    rw [hchange] at hchange₁
    cases hchange₁
    rw [hrow'] at hafter₁
    cases hafter₁
    rw [henvelope] at henvelope₁
    cases henvelope₁
    rw [henvelope'] at henvelope₁'
    cases henvelope₁'
    rw [hin] at hin₁
    cases hin₁
    rw [hin'] at hin₁'
    cases hin₁'
    exact of_decide_eq_true h hturns
  · cases h

/-- Device 1 revokes device 3. Device 2 is told that a roster was published first, syncs, and revokes device 4 again: the
roster it publishes has device 3 in it. -/
theorem roster_update_lost : ¬ ∀ (E : Externals) (cbor : Roster → Option Bytes) (fromCbor : Bytes → Option Roster)
    (vaultKey : ByteArr 32) (config : ServerConfig), E.prims.Correct → ReadsBack cbor fromCbor → ∀ c : Cluster,
    Cluster.Reached E cbor vaultKey config (fun event _ => Unclaimed E vaultKey event) c →
    ∀ write ∈ c.hub.log, write.Exact E fromCbor vaultKey := by
  intro h
  have hplays : Cluster.Plays (fun event _ => Unclaimed (.sample [] []) (.repeated 32 7) event)
      ((((Cluster.pair.does 0 (revoking 3)).does 1 (revoking 4)).does 1 .syncOnce).does 1 (revoking 4)) :=
    (((Cluster.Plays.pair.does calm_unclaimed (fun _ _ => trivial)).does calm_unclaimed (fun _ _ => trivial)).does
      calm_unclaimed (fun _ _ => trivial)).does calm_unclaimed (fun _ _ => trivial)
  have hloses : ((((Cluster.pair.does 0 (revoking 3)).does 1 (revoking 4)).does 1 .syncOnce).does 1
      (revoking 4)).hub.log.any RosterWrite.loses = true := by decide +kernel
  obtain ⟨write, hwrite, hlost⟩ := List.any_eq_true.mp hloses
  exact RosterWrite.not_exact_of_loses hlost (h (.sample [] []) (tableCbor sampleRosters) (tableFromCbor sampleRosters)
    (.repeated 32 7) .sample Primitives.sample_correct (tableCbor_reads _) _ hplays write hwrite)

end Misty
