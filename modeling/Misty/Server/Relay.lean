import Misty.Server.Sweep

/- The enrollment relay, from an accepted begin to the end of its lifetime. The record of
   the id goes one way: its request is taken once, its response is stored once, and the
   call that collects the response destroys it.

   Then the id is free, and a begin within the same lifetime is accepted: whoever can read
   the QR code can answer the request, collect that answer and post a request of its own
   under the id (`relay_swapped`). Where no begin finds the id free, the relay is
   single-use both ways (`relay_single_use`). -/
namespace Misty

/-- The call is about this enrollment. -/
def StoreCall.About (enrollId : EnrollId) : StoreCall → Prop
  | enrollBegin id _ _ _ | enrollTakeRequest id | enrollComplete id _ | enrollTakeResponse id => id = enrollId
  | _ => False

/-- A request is handed out. -/
def handsRequest (enrollId : EnrollId) : StoreOutcome → Bool
  | ⟨.enrollTakeRequest id, outcome⟩ => id = enrollId && outcome ≠ EnrollRequest.gone
  | _ => false

/-- A response is stored. -/
def storesResponse (enrollId : EnrollId) : StoreOutcome → Bool
  | ⟨.enrollComplete id _, outcome⟩ => id = enrollId && outcome = EnrollComplete.stored
  | _ => false

/-- A response is handed out. -/
def handsResponse (enrollId : EnrollId) : StoreOutcome → Bool
  | ⟨.enrollTakeResponse id, outcome⟩ => id = enrollId && outcome ≠ EnrollResponse.gone && outcome ≠ EnrollResponse.pending
  | _ => false

/-- Every request handed out is this one, and it is handed out at most once; at most one response is stored, and at
most one handed out, which is the one that was stored. -/
structure SingleUse (enrollId : EnrollId) (x25519Pub : ByteArr 32) (enrollRequest : Bytes) (outs : List StoreOutcome) :
    Prop where
  same : ∀ pub request, ⟨.enrollTakeRequest enrollId, EnrollRequest.ready pub request⟩ ∈ outs →
    pub = x25519Pub ∧ request = enrollRequest
  once : outs.countP (handsRequest enrollId) ≤ 1
  stored : outs.countP (storesResponse enrollId) ≤ 1
  collected : outs.countP (handsResponse enrollId) ≤ 1
  kept : ∀ response, ⟨.enrollTakeResponse enrollId, EnrollResponse.ready response⟩ ∈ outs →
    ⟨.enrollComplete enrollId response, EnrollComplete.stored⟩ ∈ outs

/-- No begin finds the id free. -/
def NeverFree (enrollId : EnrollId) : List TimedCall → Server.SqliteStore → Prop
  | [], _ => True
  | timed :: rest, s =>
    (∀ pub request expiresAt, timed.2 = .enrollBegin enrollId pub request expiresAt → s.enrollments[enrollId]? ≠ none) ∧
      NeverFree enrollId rest (s.serve timed.1 timed.2).2

/-! ## What a call does to the record -/

variable {enrollId : EnrollId} {s : Server.SqliteStore} {now : Int} {row : EnrollmentRow}

theorem enrollments_of_not_about {call : StoreCall} (h : ¬ call.About enrollId) (hsweep : call ≠ .sweep) :
    (s.serve now call).2.enrollments[enrollId]? = s.enrollments[enrollId]? := by
  cases call with
  | putChallenge _ _ _ _ | takeChallenge _ | device _ _ | putAccessToken _ _ _ | accessToken _
  | putRefreshToken _ _ _ | revokeFamily _ => rfl
  | admitDevice vaultId deviceId ed25519Pub sponsor maxVaults =>
    simp only [Server.SqliteStore.serve, Server.SqliteStore.admitDevice]
    repeat' split
    all_goals rfl
  | consumeRefreshToken tokenHash =>
    simp only [Server.SqliteStore.serve, Server.SqliteStore.consumeRefreshToken]
    repeat' split
    all_goals rfl
  | enrollBegin id x25519Pub enrollRequest expiresAt =>
    have h : id ≠ enrollId := h
    simp only [Server.SqliteStore.serve, Server.SqliteStore.enrollBegin]
    split
    · rfl
    · rw [OrdMap.getElem?_insert, if_neg h]
  | enrollTakeRequest id =>
    have h : id ≠ enrollId := h
    simp only [Server.SqliteStore.serve, Server.SqliteStore.enrollTakeRequest]
    split
    · split
      · rfl
      · rw [OrdMap.getElem?_insert, if_neg h]
    · rfl
  | enrollComplete id sealedResponse =>
    have h : id ≠ enrollId := h
    simp only [Server.SqliteStore.serve, Server.SqliteStore.enrollComplete]
    split
    · rfl
    · split
      · rfl
      · rw [OrdMap.getElem?_insert, if_neg h]
  | enrollTakeResponse id =>
    have h : id ≠ enrollId := h
    simp only [Server.SqliteStore.serve, Server.SqliteStore.enrollTakeResponse]
    split
    · rfl
    · split
      · rfl
      · rw [OrdMap.getElem?_erase, if_neg h]
  | sweep => exact absurd rfl hsweep

theorem quiet_of_not_about {call : StoreCall} (h : ¬ call.About enrollId) (answer : call.Answer) :
    handsRequest enrollId ⟨call, answer⟩ = false ∧ storesResponse enrollId ⟨call, answer⟩ = false ∧
      handsResponse enrollId ⟨call, answer⟩ = false := by
  cases call with
  | enrollTakeRequest id | enrollComplete id _ | enrollTakeResponse id =>
    have h : id ≠ enrollId := h
    simp [handsRequest, storesResponse, handsResponse, h]
  | _ => exact ⟨rfl, rfl, rfl⟩

/-- What is answered, and what it makes of the record. -/
inductive RelayStep (enrollId : EnrollId) : Option EnrollmentRow → StoreOutcome → Option EnrollmentRow → Prop
  | quiet {record : Option EnrollmentRow} {out : StoreOutcome} : handsRequest enrollId out = false →
      storesResponse enrollId out = false → handsResponse enrollId out = false → RelayStep enrollId record out record
  | begun {x25519Pub : ByteArr 32} {enrollRequest : Bytes} {expiresAt : Int} :
      RelayStep enrollId none ⟨.enrollBegin enrollId x25519Pub enrollRequest expiresAt, EnrollBegin.created⟩
        (some ⟨x25519Pub, enrollRequest, false, none, expiresAt⟩)
  | requested {row : EnrollmentRow} : row.requestTaken = false →
      RelayStep enrollId (some row) ⟨.enrollTakeRequest enrollId, EnrollRequest.ready row.x25519Pub row.enrollRequest⟩
        (some { row with requestTaken := true })
  | answered {row : EnrollmentRow} {response : Bytes} : row.sealedResponse = none →
      RelayStep enrollId (some row) ⟨.enrollComplete enrollId response, EnrollComplete.stored⟩
        (some { row with sealedResponse := some response })
  | collected {row : EnrollmentRow} {response : Bytes} : row.sealedResponse = some response →
      RelayStep enrollId (some row) ⟨.enrollTakeResponse enrollId, EnrollResponse.ready response⟩ none

/-- While the record has not expired, a call is one of these. -/
theorem relayStep (hlive : ∀ row, s.enrollments[enrollId]? = some row → now < row.expiresAt) {call : StoreCall}
    (hsweep : call ≠ .sweep) :
    RelayStep enrollId s.enrollments[enrollId]? ⟨call, (s.serve now call).1⟩ (s.serve now call).2.enrollments[enrollId]? := by
  by_cases habout : call.About enrollId
  · have hrecord : Expiry.live EnrollmentRow.expiresAt now s.enrollments enrollId = s.enrollments[enrollId]? := by
      cases hrow : s.enrollments[enrollId]? with
      | none => exact Expiry.live_eq_none_of_none hrow
      | some row => exact Expiry.live_eq_some.mpr ⟨hrow, hlive row hrow⟩
    cases call with
    -- a live record is not replaced
    | enrollBegin id x25519Pub enrollRequest expiresAt =>
      obtain rfl : id = enrollId := habout
      simp only [Server.SqliteStore.serve, Server.SqliteStore.enrollBegin, hrecord]
      cases hrow : s.enrollments[id]? with
      | some row =>
        dsimp only
        rw [hrow]
        exact .quiet rfl rfl rfl
      | none =>
        dsimp only
        rw [OrdMap.getElem?_insert, if_pos rfl]
        exact .begun
    -- handed out once: the record remembers it
    | enrollTakeRequest id =>
      obtain rfl : id = enrollId := habout
      simp only [Server.SqliteStore.serve, Server.SqliteStore.enrollTakeRequest, hrecord]
      cases hrow : s.enrollments[id]? with
      | none =>
        dsimp only
        rw [hrow]
        exact .quiet (by simp [handsRequest]) rfl rfl
      | some row =>
        cases htaken : row.requestTaken with
        | true =>
          simp only [htaken, if_true]
          rw [hrow]
          exact .quiet (by simp [handsRequest]) rfl rfl
        | false =>
          simp only [htaken, Bool.false_eq_true, if_false]
          rw [OrdMap.getElem?_insert, if_pos rfl]
          exact .requested htaken
    -- the first answer stays
    | enrollComplete id sealedResponse =>
      obtain rfl : id = enrollId := habout
      simp only [Server.SqliteStore.serve, Server.SqliteStore.enrollComplete, hrecord]
      cases hrow : s.enrollments[id]? with
      | none =>
        dsimp only
        rw [hrow]
        exact .quiet rfl (by simp [storesResponse]) rfl
      | some row =>
        cases hsealed : row.sealedResponse with
        | some response =>
          simp only [hsealed, Option.isSome_some, if_true]
          rw [hrow]
          exact .quiet rfl (by simp [storesResponse]) rfl
        | none =>
          simp only [hsealed, Option.isSome_none, Bool.false_eq_true, if_false]
          rw [OrdMap.getElem?_insert, if_pos rfl]
          exact .answered hsealed
    -- the answer goes out with the record, so it goes out once
    | enrollTakeResponse id =>
      obtain rfl : id = enrollId := habout
      simp only [Server.SqliteStore.serve, Server.SqliteStore.enrollTakeResponse, hrecord]
      cases hrow : s.enrollments[id]? with
      | none =>
        dsimp only
        rw [hrow]
        exact .quiet rfl rfl (by simp [handsResponse])
      | some row =>
        cases hsealed : row.sealedResponse with
        | none =>
          simp only [hsealed]
          rw [hrow]
          exact .quiet rfl rfl (by simp [handsResponse])
        | some response =>
          simp only [hsealed]
          rw [OrdMap.getElem?_erase, if_pos rfl]
          exact .collected hsealed
    | _ => exact habout.elim
  · rw [enrollments_of_not_about habout hsweep]
    have hquiet := quiet_of_not_about habout (s.serve now call).1
    exact .quiet hquiet.1 hquiet.2.1 hquiet.2.2

theorem enrollments_sweep_of_live (h : s.enrollments[enrollId]? = some row) (hlive : now < row.expiresAt) :
    (s.sweep now).2.enrollments[enrollId]? = some row :=
  (Expiry.getElem?_reap ..).trans (Expiry.live_eq_some.mpr ⟨h, hlive⟩)

/-! ## What is still to come -/

/-- What a run answers from a record on. -/
structure Yields (enrollId : EnrollId) (row : EnrollmentRow) (outs : List StoreOutcome) : Prop where
  same : ∀ pub request, ⟨.enrollTakeRequest enrollId, EnrollRequest.ready pub request⟩ ∈ outs →
    pub = row.x25519Pub ∧ request = row.enrollRequest
  once : outs.countP (handsRequest enrollId) ≤ if row.requestTaken then 0 else 1
  stored : outs.countP (storesResponse enrollId) ≤ if row.sealedResponse.isSome then 0 else 1
  collected : outs.countP (handsResponse enrollId) ≤ 1
  kept : ∀ response, ⟨.enrollTakeResponse enrollId, EnrollResponse.ready response⟩ ∈ outs →
    row.sealedResponse = some response ∨ ⟨.enrollComplete enrollId response, EnrollComplete.stored⟩ ∈ outs

/-- With the record gone nothing is handed out or stored any more. -/
theorem quiet_of_gone : ∀ {calls : List TimedCall} {s : Server.SqliteStore}, s.enrollments[enrollId]? = none →
    NeverFree enrollId calls s → ∀ out ∈ outcomes calls s,
      handsRequest enrollId out = false ∧ storesResponse enrollId out = false ∧ handsResponse enrollId out = false
  | [], _, _, _, _, hout => by cases hout
  | (t, call) :: rest, s, hgone, hnever, out, hout => by
    by_cases hsweep : call = .sweep
    · subst hsweep
      have hgone' : (s.sweep t).2.enrollments[enrollId]? = none :=
        (Expiry.getElem?_reap ..).trans (Expiry.live_eq_none_of_none hgone)
      exact quiet_of_gone hgone' hnever.2 out hout
    · have hlive : ∀ row, s.enrollments[enrollId]? = some row → t < row.expiresAt := by simp [hgone]
      have hstep := relayStep hlive hsweep
      rw [outcomes_cons hsweep] at hout
      have hrest := fun hgone' => quiet_of_gone hgone' hnever.2
      generalize hrecord : (s.serve t call).2.enrollments[enrollId]? = record at hstep hrest
      generalize hhead : (⟨call, (s.serve t call).1⟩ : StoreOutcome) = head at hstep hout
      rw [hgone] at hstep
      cases hstep with
      | quiet h₁ h₂ h₃ =>
        rcases List.mem_cons.mp hout with rfl | hout
        · exact ⟨h₁, h₂, h₃⟩
        · exact hrest rfl out hout
      | begun =>
        have hcall : call = .enrollBegin enrollId _ _ _ := congrArg Sigma.fst hhead
        exact absurd hgone (hnever.1 _ _ _ hcall)

theorem handsRequest_ready (pub : ByteArr 32) (request : Bytes) :
    handsRequest enrollId ⟨.enrollTakeRequest enrollId, EnrollRequest.ready pub request⟩ = true := by
  simp [handsRequest]

theorem storesResponse_stored (response : Bytes) :
    storesResponse enrollId ⟨.enrollComplete enrollId response, EnrollComplete.stored⟩ = true := by
  simp [storesResponse]

theorem handsResponse_ready (response : Bytes) :
    handsResponse enrollId ⟨.enrollTakeResponse enrollId, EnrollResponse.ready response⟩ = true := by
  simp [handsResponse]

theorem Yields.quiet {outs : List StoreOutcome} {head : StoreOutcome} (h : Yields enrollId row outs)
    (h₁ : handsRequest enrollId head = false) (h₂ : storesResponse enrollId head = false)
    (h₃ : handsResponse enrollId head = false) : Yields enrollId row (head :: outs) := by
  refine ⟨?_, ?_, ?_, ?_, ?_⟩
  · intro pub request hmem
    rcases List.mem_cons.mp hmem with rfl | hmem
    · simp [handsRequest_ready] at h₁
    · exact h.same pub request hmem
  · rw [List.countP_cons_of_neg (by simp [h₁])]
    exact h.once
  · rw [List.countP_cons_of_neg (by simp [h₂])]
    exact h.stored
  · rw [List.countP_cons_of_neg (by simp [h₃])]
    exact h.collected
  · intro response hmem
    rcases List.mem_cons.mp hmem with rfl | hmem
    · simp [handsResponse_ready] at h₃
    · exact (h.kept response hmem).imp id (List.mem_cons_of_mem _)

theorem Yields.requested {outs : List StoreOutcome} (htaken : row.requestTaken = false)
    (h : Yields enrollId { row with requestTaken := true } outs) :
    Yields enrollId row
      (⟨.enrollTakeRequest enrollId, EnrollRequest.ready row.x25519Pub row.enrollRequest⟩ :: outs) := by
  have honce := h.once
  simp only [if_true] at honce
  refine ⟨?_, ?_, ?_, ?_, ?_⟩
  · intro pub request hmem
    rcases List.mem_cons.mp hmem with heq | hmem
    · simp at heq
      exact heq
    · exact h.same pub request hmem
  · rw [List.countP_cons_of_pos (handsRequest_ready _ _), htaken]
    simp only [Bool.false_eq_true, if_false]
    omega
  · rw [List.countP_cons_of_neg (by simp [storesResponse])]
    exact h.stored
  · rw [List.countP_cons_of_neg (by simp [handsResponse])]
    exact h.collected
  · intro response hmem
    rcases List.mem_cons.mp hmem with heq | hmem
    · simp at heq
    · exact (h.kept response hmem).imp id (List.mem_cons_of_mem _)

theorem Yields.answered {outs : List StoreOutcome} {response : Bytes} (hsealed : row.sealedResponse = none)
    (h : Yields enrollId { row with sealedResponse := some response } outs) :
    Yields enrollId row (⟨.enrollComplete enrollId response, EnrollComplete.stored⟩ :: outs) := by
  have hstored := h.stored
  simp only [Option.isSome_some, if_true] at hstored
  refine ⟨?_, ?_, ?_, ?_, ?_⟩
  · intro pub request hmem
    rcases List.mem_cons.mp hmem with heq | hmem
    · simp at heq
    · exact h.same pub request hmem
  · rw [List.countP_cons_of_neg (by simp [handsRequest])]
    exact h.once
  · rw [List.countP_cons_of_pos (storesResponse_stored _), hsealed]
    simp only [Option.isSome_none, Bool.false_eq_true, if_false]
    omega
  · rw [List.countP_cons_of_neg (by simp [handsResponse])]
    exact h.collected
  · intro response' hmem
    rcases List.mem_cons.mp hmem with heq | hmem
    · simp at heq
    · refine .inr ?_
      rcases h.kept response' hmem with heq | hstored
      · cases heq
        exact List.mem_cons_self
      · exact List.mem_cons_of_mem _ hstored

theorem Yields.collect {outs : List StoreOutcome} {response : Bytes} (hsealed : row.sealedResponse = some response)
    (h : ∀ out ∈ outs, handsRequest enrollId out = false ∧ storesResponse enrollId out = false ∧
      handsResponse enrollId out = false) :
    Yields enrollId row (⟨.enrollTakeResponse enrollId, EnrollResponse.ready response⟩ :: outs) := by
  have hnone : ∀ {p : StoreOutcome → Bool}, (∀ out ∈ outs, p out = false) → outs.countP p = 0 := by
    intro p hp
    rw [List.countP_eq_zero]
    intro out hout
    simp [hp out hout]
  refine ⟨?_, ?_, ?_, ?_, ?_⟩
  · intro pub request hmem
    rcases List.mem_cons.mp hmem with heq | hmem
    · simp at heq
    · have hquiet := (h _ hmem).1
      simp [handsRequest_ready] at hquiet
  · rw [List.countP_cons_of_neg (by simp [handsRequest]), hnone (fun out hout => (h out hout).1)]
    exact Nat.zero_le _
  · rw [List.countP_cons_of_neg (by simp [storesResponse]), hnone (fun out hout => (h out hout).2.1)]
    exact Nat.zero_le _
  · rw [List.countP_cons_of_pos (handsResponse_ready _), hnone (fun out hout => (h out hout).2.2)]
  · intro response' hmem
    rcases List.mem_cons.mp hmem with heq | hmem
    · simp at heq
      exact .inl (heq ▸ hsealed)
    · have hquiet := (h _ hmem).2.2
      simp [handsResponse_ready] at hquiet

/-- From a record on, to the end of its lifetime. -/
theorem yields_of_record : ∀ {calls : List TimedCall} {s : Server.SqliteStore} {row : EnrollmentRow},
    s.enrollments[enrollId]? = some row → (∀ timed ∈ calls, timed.1 < row.expiresAt) → NeverFree enrollId calls s →
    Yields enrollId row (outcomes calls s)
  | [], _, row, _, _, _ => by
    refine ⟨by simp [outcomes], by simp [outcomes], by simp [outcomes], by simp [outcomes], by simp [outcomes]⟩
  | (t, call) :: rest, s, row, hrow, hlife, hnever => by
    have ht : t < row.expiresAt := hlife (t, call) List.mem_cons_self
    have hlife' := fun timed htimed => hlife timed (List.mem_cons_of_mem _ htimed)
    by_cases hsweep : call = .sweep
    · subst hsweep
      rw [outcomes_sweep]
      exact yields_of_record (enrollments_sweep_of_live hrow ht) hlife' hnever.2
    · have hlive : ∀ row', s.enrollments[enrollId]? = some row' → t < row'.expiresAt := by
        intro row' hrow'
        cases hrow.symm.trans hrow'
        exact ht
      have hstep := relayStep hlive hsweep
      rw [outcomes_cons hsweep]
      have hkept := fun {row'} hrow' hlife' => @yields_of_record rest _ row' hrow' hlife' hnever.2
      have hgone := fun hgone' => quiet_of_gone hgone' hnever.2
      generalize (s.serve t call).2.enrollments[enrollId]? = record at hstep hkept hgone
      generalize (⟨call, (s.serve t call).1⟩ : StoreOutcome) = head at hstep
      rw [hrow] at hstep
      cases hstep with
      | quiet h₁ h₂ h₃ => exact (hkept rfl hlife').quiet h₁ h₂ h₃
      | requested htaken => exact .requested htaken (hkept rfl hlife')
      | answered hsealed => exact .answered hsealed (hkept rfl hlife')
      | collected hsealed => exact .collect hsealed (hgone rfl)

/-- **The relay.** From an accepted begin to the end of its lifetime, where no begin finds the id free: every request
handed out is the one of that begin, and it is handed out at most once; at most one response is stored and at most one
handed out, the one that was stored. -/
theorem relay_single_use {s₀ s : Server.SqliteStore} {enrollId : EnrollId} {x25519Pub : ByteArr 32} {enrollRequest : Bytes}
    {begun expiresAt : Int}
    (hbegin : s₀.enrollBegin enrollId x25519Pub enrollRequest expiresAt begun = (.created, s)) {calls : List TimedCall}
    (hlife : ∀ timed ∈ calls, timed.1 < expiresAt) (hnever : NeverFree enrollId calls s) :
    SingleUse enrollId x25519Pub enrollRequest (outcomes calls s) := by
  have hrow : s.enrollments[enrollId]? = some ⟨x25519Pub, enrollRequest, false, none, expiresAt⟩ := by
    unfold Server.SqliteStore.enrollBegin at hbegin
    split at hbegin
    · cases hbegin
    · cases hbegin
      rw [OrdMap.getElem?_insert, if_pos rfl]
  have h := yields_of_record hrow hlife hnever
  refine ⟨h.same, h.once, h.stored, h.collected, ?_⟩
  intro response hmem
  rcases h.kept response hmem with hsealed | hstored
  · cases hsealed
  · exact hstored

/-- An id, the request of the new device and one of somebody else. -/
def anEnrollment : EnrollId := ⟨.repeated 16 1⟩

def newDevice : ByteArr 32 := .repeated 32 2

def stranger : ByteArr 32 := .repeated 32 3

/-- The store after the new device's begin, the only call before. -/
def begunStore : Server.SqliteStore := (Server.SqliteStore.new.enrollBegin anEnrollment newDevice [1] 600 0).2

/-- The relay used as it is meant to be, and every call tried twice; a stranger's begin comes in between. -/
def orderlyCalls : List TimedCall :=
  [(1, .enrollTakeRequest anEnrollment), (2, .enrollTakeRequest anEnrollment),
    (3, .enrollBegin anEnrollment stranger [8] 603), (4, .enrollComplete anEnrollment [9]),
    (5, .enrollComplete anEnrollment [7]), (6, .enrollTakeResponse anEnrollment), (7, .enrollTakeResponse anEnrollment),
    (8, .enrollTakeRequest anEnrollment)]

/-- The first of each is answered, and every other one is refused. -/
theorem relay_single_use_once : outcomes orderlyCalls begunStore =
    [⟨.enrollTakeRequest anEnrollment, EnrollRequest.ready newDevice [1]⟩,
      ⟨.enrollTakeRequest anEnrollment, EnrollRequest.gone⟩,
      ⟨.enrollBegin anEnrollment stranger [8] 603, EnrollBegin.exists⟩,
      ⟨.enrollComplete anEnrollment [9], EnrollComplete.stored⟩,
      ⟨.enrollComplete anEnrollment [7], EnrollComplete.alreadyAnswered⟩,
      ⟨.enrollTakeResponse anEnrollment, EnrollResponse.ready [9]⟩,
      ⟨.enrollTakeResponse anEnrollment, EnrollResponse.gone⟩,
      ⟨.enrollTakeRequest anEnrollment, EnrollRequest.gone⟩] ∧
    SingleUse anEnrollment newDevice [1] (outcomes orderlyCalls begunStore) := by
  refine ⟨by decide, @relay_single_use .new begunStore _ _ _ 0 600 rfl _ ?_ ?_⟩
  · decide
  · refine ⟨nofun, nofun, ?_, nofun, nofun, nofun, nofun, nofun, trivial⟩
    -- the stranger's begin finds the record of the first
    intro _ _ _ _
    decide

/-- The stranger, who has read the QR code, answers the request, collects the answer and begins again, all within the
lifetime: the approving device is handed the stranger's request. -/
theorem relay_swapped : ¬ SingleUse anEnrollment newDevice [1] (outcomes
    [(1, .enrollComplete anEnrollment [9]), (2, .enrollTakeResponse anEnrollment),
      (3, .enrollBegin anEnrollment stranger [8] 603), (4, .enrollTakeRequest anEnrollment)] begunStore) := by
  intro h
  have hmem : (⟨.enrollTakeRequest anEnrollment, EnrollRequest.ready stranger [8]⟩ : StoreOutcome) ∈ outcomes
      [(1, .enrollComplete anEnrollment [9]), (2, .enrollTakeResponse anEnrollment),
        (3, .enrollBegin anEnrollment stranger [8] 603), (4, .enrollTakeRequest anEnrollment)] begunStore := by
    decide
  exact absurd (h.same _ _ hmem).2 (by decide)

end Misty
