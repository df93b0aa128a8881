import Misty.Server.Tables

/- What a sweep can be seen by. One run of calls is compared with the same run without
   its sweeps. Every reader but one looks only at what is live, and a sweep deletes only
   what has expired, so the swept tables lag (`Expiry.Lags`) and answer alike.

   The exception is `consume_refresh_token`, twice. It asks whether a token was consumed
   before it asks whether it has expired, so the reuse of an expired token is reported as
   long as its row is there. And a sweep drops the revocation of a family none of whose
   tokens is left, so a token stored for the family afterwards is live. `sweep_seen_iff`
   says that nothing else is seen. -/
namespace Misty

open Expiry (Lags)

/-- A call with the clock reading it was made with. -/
abbrev TimedCall := Int × StoreCall

/-- A sweep, or a call that a client's request makes. -/
def TimedCall.isSweep (self : TimedCall) : Bool := self.2 = .sweep

/-- What the calls of a run are answered, but for the sweeps. -/
def outcomes : List TimedCall → Server.SqliteStore → List StoreOutcome
  | [], _ => []
  | timed :: rest, s =>
    if timed.isSweep then outcomes rest (s.serve timed.1 timed.2).2
    else ⟨timed.2, (s.serve timed.1 timed.2).1⟩ :: outcomes rest (s.serve timed.1 timed.2).2

theorem outcomes_sweep (t : Int) (rest : List TimedCall) (s : Server.SqliteStore) :
    outcomes ((t, .sweep) :: rest) s = outcomes rest (s.sweep t).2 := rfl

theorem outcomes_cons {t : Int} {call : StoreCall} {rest : List TimedCall} {s : Server.SqliteStore} (h : call ≠ .sweep) :
    outcomes ((t, call) :: rest) s = ⟨call, (s.serve t call).1⟩ :: outcomes rest (s.serve t call).2 := by
  have hkeep : TimedCall.isSweep (t, call) = false := by simp [TimedCall.isSweep, h]
  simp only [outcomes, hkeep, Bool.false_eq_true, if_false]

/-- The run without its sweeps. -/
def unswept (calls : List TimedCall) : List TimedCall := calls.filter (fun timed => !timed.isSweep)

/-- A consumed token of a family that is not revoked, its row gone from the swept tables. -/
def forgottenReuse (whole swept : Server.SqliteStore) (tokenHash : TokenHash) : Bool :=
  match whole.refreshTokens[tokenHash]?, swept.refreshTokens[tokenHash]? with
  | some row, none => row.consumedAt.isSome && (whole.revokedFamilies[row.session.family]?).isNone
  | _, _ => false

/-- A live token of a revoked family, the revocation gone from the swept tables. -/
def forgottenRevocation (now : Int) (whole swept : Server.SqliteStore) (tokenHash : TokenHash) : Bool :=
  match swept.refreshTokens[tokenHash]? with
  | some row => row.consumedAt.isNone && now < row.expiresAt &&
      (whole.revokedFamilies[row.session.family]?).isSome && (swept.revokedFamilies[row.session.family]?).isNone
  | none => false

/-- The call presents one of these. -/
def tells (now : Int) (whole swept : Server.SqliteStore) : StoreCall → Bool
  | .consumeRefreshToken tokenHash => forgottenReuse whole swept tokenHash || forgottenRevocation now whole swept tokenHash
  | _ => false

/-- No call does, in a run that is made on the first tables without its sweeps and on the second with them. -/
def NeverTells : List TimedCall → Server.SqliteStore → Server.SqliteStore → Prop
  | [], _, _ => True
  | timed :: rest, whole, swept =>
    if timed.isSweep then NeverTells rest whole (swept.serve timed.1 timed.2).2
    else tells timed.1 whole swept timed.2 = false ∧
      NeverTells rest (whole.serve timed.1 timed.2).2 (swept.serve timed.1 timed.2).2

/-! ## Swept tables -/

/-- The tables of the run with sweeps, beside those of the run without. -/
structure Shadows (now : Int) (whole swept : Server.SqliteStore) : Prop where
  vaults : swept.vaults = whole.vaults
  deviceRows : swept.devices = whole.devices
  challenges : Lags ChallengeRow.expiresAt now whole.challenges swept.challenges
  access : Lags AccessRow.expiresAt now whole.accessTokens swept.accessTokens
  refresh : Lags RefreshRow.expiresAt now whole.refreshTokens swept.refreshTokens
  enrollments : Lags EnrollmentRow.expiresAt now whole.enrollments swept.enrollments
  revoked : ∀ family : Family, (swept.revokedFamilies[family]?).isSome → (whole.revokedFamilies[family]?).isSome
  late : ∀ (tokenHash : TokenHash) (row : RefreshRow), swept.refreshTokens[tokenHash]? = some row →
    (whole.revokedFamilies[row.session.family]?).isSome → swept.revokedFamilies[row.session.family]? = none →
    row.consumedAt = none

namespace Shadows

variable {now now' : Int} {whole swept : Server.SqliteStore}

theorem refl (now : Int) (s : Server.SqliteStore) : Shadows now s s := by
  refine ⟨rfl, rfl, .refl _ _, .refl _ _, .refl _ _, .refl _ _, fun _ h => h, ?_⟩
  intro tokenHash row _ hsome hnone
  rw [hnone] at hsome
  cases hsome

theorem device (h : Shadows now whole swept) (vaultId : VaultId) (deviceId : DeviceId) :
    swept.device vaultId deviceId = whole.device vaultId deviceId := by
  unfold Server.SqliteStore.device
  rw [h.deviceRows]

theorem mono (h : Shadows now whole swept) (hle : now ≤ now') : Shadows now' whole swept :=
  { h with
    challenges := h.challenges.mono hle
    access := h.access.mono hle
    refresh := h.refresh.mono hle
    enrollments := h.enrollments.mono hle }

theorem sweep (h : Shadows now whole swept) : Shadows now whole (swept.sweep now).2 := by
  refine ⟨h.vaults, h.deviceRows, h.challenges.reap, h.access.reap, h.refresh.reap, h.enrollments.reap, ?_, ?_⟩
  · intro family hsome
    rw [Server.SqliteStore.getElem?_revokedFamilies_sweep] at hsome
    obtain ⟨t, ht⟩ := Option.isSome_iff_exists.mp hsome
    exact h.revoked family (by simp [(Option.filter_eq_some_iff.mp ht).1])
  · intro tokenHash row hrow hwhole hnone
    have hold : swept.refreshTokens[tokenHash]? = some row :=
      (Expiry.live_eq_some.mp ((Expiry.getElem?_reap now swept.refreshTokens tokenHash).symm.trans hrow)).1
    refine h.late tokenHash row hold hwhole ?_
    -- a revocation with a token left is kept
    have hpresentable : Server.SqliteStore.presentable (swept.sweep now).2.refreshTokens row.session.family = true :=
      Server.SqliteStore.presentable_iff.mpr ⟨tokenHash, row, hrow, rfl⟩
    rw [Server.SqliteStore.getElem?_revokedFamilies_sweep] at hnone
    cases hold : swept.revokedFamilies[row.session.family]? with
    | none => rfl
    | some t =>
      rw [hold, Option.filter_some, if_pos hpresentable] at hnone
      cases hnone

theorem revokeFamily (h : Shadows now whole swept) (family : Family) :
    Shadows now (whole.revokeFamily family now) (swept.revokeFamily family now) := by
  refine ⟨h.vaults, h.deviceRows, h.challenges, h.access.filter _, h.refresh, h.enrollments, ?_, ?_⟩
  · intro k hk
    rw [Server.SqliteStore.isSome_revokedFamilies_revokeFamily] at hk ⊢
    rw [Bool.or_eq_true] at hk ⊢
    exact hk.imp id (h.revoked k)
  · intro tokenHash row hrow hwhole hnone
    have hnone : ((swept.revokeFamily family now).revokedFamilies[row.session.family]?).isSome = false := by
      rw [hnone]
      rfl
    rw [Server.SqliteStore.isSome_revokedFamilies_revokeFamily, Bool.or_eq_false_iff] at hnone
    rw [Server.SqliteStore.isSome_revokedFamilies_revokeFamily, hnone.1, Bool.false_or] at hwhole
    exact h.late tokenHash row hrow hwhole (Option.not_isSome_iff_eq_none.mp (by simp [hnone.2]))

theorem putRefreshToken (h : Shadows now whole swept) (tokenHash : TokenHash) (session : Session) (expiresAt : Int) :
    Shadows now (whole.putRefreshToken tokenHash session expiresAt)
      (swept.putRefreshToken tokenHash session expiresAt) := by
  refine ⟨h.vaults, h.deviceRows, h.challenges, h.access, h.refresh.insert _ _, h.enrollments, h.revoked, ?_⟩
  intro k row hrow hwhole hnone
  rw [Server.SqliteStore.getElem?_refreshTokens_putRefreshToken] at hrow
  split at hrow
  · cases hrow
    rfl
  · exact h.late k row hrow hwhole hnone

/-- A family revoked in one run only is revoked in the one without sweeps. -/
theorem revoked_of_none (h : Shadows now whole swept) {family : Family}
    (hnone : whole.revokedFamilies[family]? = none) : swept.revokedFamilies[family]? = none := by
  by_contra hsome
  have hwhole := h.revoked family (Option.isSome_iff_ne_none.mpr hsome)
  rw [hnone] at hwhole
  cases hwhole

/-- A token presented is answered alike exactly when nothing forgotten is presented, and then leaves tables that
shadow each other again. -/
theorem consumeRefreshToken (h : Shadows now whole swept) (tokenHash : TokenHash) :
    ((swept.consumeRefreshToken tokenHash now).1 = (whole.consumeRefreshToken tokenHash now).1 ↔
      tells now whole swept (.consumeRefreshToken tokenHash) = false) ∧
    (tells now whole swept (.consumeRefreshToken tokenHash) = false →
      Shadows now (whole.consumeRefreshToken tokenHash now).2 (swept.consumeRefreshToken tokenHash now).2) := by
  have hboth : ∀ {a b : RefreshOutcome} {c : Bool} {x y : Server.SqliteStore}, a = b → c = false → Shadows now x y →
      (a = b ↔ c = false) ∧ (c = false → Shadows now x y) := fun ha hc hs => ⟨⟨fun _ => hc, fun _ => ha⟩, fun _ => hs⟩
  have hneither : ∀ {a b : RefreshOutcome} {c : Bool} {x y : Server.SqliteStore}, a ≠ b → c = true →
      (a = b ↔ c = false) ∧ (c = false → Shadows now x y) := by
    intro a b c x y ha hc
    subst hc
    exact ⟨⟨fun hab => absurd hab ha, nofun⟩, nofun⟩
  have htells : tells now whole swept (.consumeRefreshToken tokenHash) =
      (forgottenReuse whole swept tokenHash || forgottenRevocation now whole swept tokenHash) := rfl
  unfold forgottenReuse forgottenRevocation at htells
  cases hwhole : whole.refreshTokens[tokenHash]? with
  | none =>
    have hswept : swept.refreshTokens[tokenHash]? = none := by
      cases hs : swept.refreshTokens[tokenHash]? with
      | none => rfl
      | some row => cases hwhole.symm.trans (h.refresh.sub hs)
    rw [Server.SqliteStore.consumeRefreshToken_unknown hwhole, Server.SqliteStore.consumeRefreshToken_unknown hswept, htells, hwhole,
      hswept]
    exact hboth rfl rfl h
  | some row =>
    cases hswept : swept.refreshTokens[tokenHash]? with
    | none =>
      rw [Server.SqliteStore.consumeRefreshToken_unknown hswept, htells, hwhole, hswept]
      have hexpired := h.refresh.expired hwhole hswept
      cases hrevoked : (whole.revokedFamilies[row.session.family]?).isSome with
      | true =>
        rw [Server.SqliteStore.consumeRefreshToken_revoked hwhole hrevoked]
        exact hboth rfl (by simp [Option.isNone_eq_false_iff.mpr hrevoked]) h
      | false =>
        -- the row expired and was swept: seen if it had been consumed
        cases hconsumed : row.consumedAt with
        | none =>
          rw [Server.SqliteStore.consumeRefreshToken_expired hwhole hrevoked hconsumed hexpired]
          exact hboth rfl (by simp [hconsumed]) h
        | some t =>
          have hconsumed : row.consumedAt.isSome = true := by rw [hconsumed]; rfl
          rw [Server.SqliteStore.consumeRefreshToken_reused hwhole hrevoked hconsumed]
          refine hneither nofun ?_
          rw [Option.isSome_eq_false_iff] at hrevoked
          simp [hrevoked, hconsumed]
    | some row' =>
      have hrow : row' = row := Option.some.inj ((h.refresh.sub hswept).symm.trans hwhole)
      subst hrow
      rw [hwhole, hswept] at htells
      cases hrevoked : (whole.revokedFamilies[row'.session.family]?).isSome with
      | false =>
        have hnone : (swept.revokedFamilies[row'.session.family]?).isSome = false := by
          rw [h.revoked_of_none (Option.not_isSome_iff_eq_none.mp (by simp [hrevoked]))]
          rfl
        have hquiet : tells now whole swept (.consumeRefreshToken tokenHash) = false := by simp [htells, hrevoked]
        cases hconsumed : row'.consumedAt with
        | some t =>
          have hconsumed : row'.consumedAt.isSome = true := by rw [hconsumed]; rfl
          rw [Server.SqliteStore.consumeRefreshToken_reused hwhole hrevoked hconsumed,
            Server.SqliteStore.consumeRefreshToken_reused hswept hnone hconsumed]
          exact hboth rfl hquiet (h.revokeFamily _)
        | none =>
          by_cases hexpired : row'.expiresAt ≤ now
          · rw [Server.SqliteStore.consumeRefreshToken_expired hwhole hrevoked hconsumed hexpired,
              Server.SqliteStore.consumeRefreshToken_expired hswept hnone hconsumed hexpired]
            exact hboth rfl hquiet h
          · have hlive := not_le.mp hexpired
            rw [Server.SqliteStore.consumeRefreshToken_rotated hwhole hrevoked hconsumed hlive,
              Server.SqliteStore.consumeRefreshToken_rotated hswept hnone hconsumed hlive]
            refine hboth rfl hquiet ?_
            refine ⟨h.vaults, h.deviceRows, h.challenges, h.access, h.refresh.insert _ _, h.enrollments, h.revoked, ?_⟩
            intro k r hr hsome hnone'
            rw [OrdMap.getElem?_insert] at hr
            split at hr
            · cases hr
              rw [hrevoked] at hsome
              cases hsome
            · exact h.late k r hr hsome hnone'
      | true =>
        rw [Server.SqliteStore.consumeRefreshToken_revoked hwhole hrevoked]
        cases hnone : (swept.revokedFamilies[row'.session.family]?).isSome with
        | true =>
          rw [Server.SqliteStore.consumeRefreshToken_revoked hswept hnone]
          exact hboth rfl (by simp [htells, Option.isNone_eq_false_iff.mpr hnone]) h
        | false =>
          -- stored after the revocation was dropped: seen while it is live
          have hgone := Option.isSome_eq_false_iff.mp hnone
          have hconsumed := h.late tokenHash row' hswept hrevoked (Option.isNone_iff_eq_none.mp hgone)
          by_cases hexpired : row'.expiresAt ≤ now
          · rw [Server.SqliteStore.consumeRefreshToken_expired hswept hnone hconsumed hexpired]
            exact hboth rfl (by simp [htells, hexpired]) h
          · have hlive := not_le.mp hexpired
            rw [Server.SqliteStore.consumeRefreshToken_rotated hswept hnone hconsumed hlive]
            refine hneither nofun ?_
            rw [htells]
            simp only [hconsumed, hrevoked, hgone, Option.isNone_none, decide_eq_true hlive, Bool.and_self, Bool.or_true]

end Shadows

variable {now : Int} {whole swept : Server.SqliteStore}

/-- Every call but the sweep: answered alike exactly when it presents nothing forgotten, and then the tables shadow
each other again. -/
theorem Shadows.serve (h : Shadows now whole swept) {call : StoreCall} (hcall : call ≠ .sweep) :
    ((swept.serve now call).1 = (whole.serve now call).1 ↔ tells now whole swept call = false) ∧
    (tells now whole swept call = false → Shadows now (whole.serve now call).2 (swept.serve now call).2) := by
  have hsame : ∀ {α : Type} {a b : α} {x y : Server.SqliteStore}, a = b → Shadows now x y →
      (a = b ↔ false = false) ∧ (false = false → Shadows now x y) := fun ha hs => ⟨⟨fun _ => rfl, fun _ => ha⟩, fun _ => hs⟩
  cases call with
  | putChallenge nonceHash vaultId deviceId expiresAt =>
    exact hsame rfl { h with challenges := h.challenges.insert _ _ }
  | takeChallenge nonceHash =>
    refine hsame ?_ { h with challenges := h.challenges.erase _ }
    show Option.map _ _ = Option.map _ _
    rw [h.challenges.live]
  | device vaultId deviceId => exact hsame (h.device vaultId deviceId) h
  -- vaults and devices are no table the sweep reaps: both stores answer from the same rows
  | admitDevice vaultId deviceId ed25519Pub sponsor maxVaults =>
    have hinsert : ∀ row, swept.devices.insert (toLex (vaultId, deviceId)) row =
        whole.devices.insert (toLex (vaultId, deviceId)) row := by
      intro row
      rw [h.deviceRows]
    simp only [Server.SqliteStore.serve, Server.SqliteStore.admitDevice, h.device, h.vaults]
    cases whole.device vaultId deviceId with
    | some key => exact hsame rfl h
    | none =>
      dsimp only
      cases whole.vaults[vaultId]? with
      | none =>
        dsimp only
        split
        · exact hsame rfl h
        · split
          · exact hsame rfl h
          · exact hsame rfl { h with vaults := congrArg (·.insert vaultId now) h.vaults, deviceRows := hinsert _ }
      | some t =>
        dsimp only
        split
        · exact hsame rfl h
        · exact hsame rfl { h with deviceRows := hinsert _ }
  | putAccessToken tokenHash session expiresAt => exact hsame rfl { h with access := h.access.insert _ _ }
  | accessToken tokenHash =>
    refine hsame ?_ h
    show Option.map _ _ = Option.map _ _
    rw [h.access.live]
  | putRefreshToken tokenHash session expiresAt => exact hsame rfl (h.putRefreshToken _ _ _)
  -- the one call whose answer may rest on what the sweep forgot
  | consumeRefreshToken tokenHash => exact h.consumeRefreshToken tokenHash
  | revokeFamily family => exact hsame rfl (h.revokeFamily family)
  -- the relay reads records through their expiry, and there the stores agree
  | enrollBegin enrollId x25519Pub enrollRequest expiresAt =>
    simp only [Server.SqliteStore.serve, Server.SqliteStore.enrollBegin, h.enrollments.live]
    cases Expiry.live EnrollmentRow.expiresAt now whole.enrollments enrollId with
    | some row => exact hsame rfl h
    | none => exact hsame rfl { h with enrollments := h.enrollments.insert _ _ }
  | enrollTakeRequest enrollId =>
    simp only [Server.SqliteStore.serve, Server.SqliteStore.enrollTakeRequest, h.enrollments.live]
    cases Expiry.live EnrollmentRow.expiresAt now whole.enrollments enrollId with
    | none => exact hsame rfl h
    | some row =>
      dsimp only
      split
      · exact hsame rfl h
      · exact hsame rfl { h with enrollments := h.enrollments.insert _ _ }
  | enrollComplete enrollId sealedResponse =>
    simp only [Server.SqliteStore.serve, Server.SqliteStore.enrollComplete, h.enrollments.live]
    cases Expiry.live EnrollmentRow.expiresAt now whole.enrollments enrollId with
    | none => exact hsame rfl h
    | some row =>
      dsimp only
      split
      · exact hsame rfl h
      · exact hsame rfl { h with enrollments := h.enrollments.insert _ _ }
  | enrollTakeResponse enrollId =>
    simp only [Server.SqliteStore.serve, Server.SqliteStore.enrollTakeResponse, h.enrollments.live]
    cases Expiry.live EnrollmentRow.expiresAt now whole.enrollments enrollId with
    | none => exact hsame rfl h
    | some row =>
      dsimp only
      cases row.sealedResponse with
      | none => exact hsame rfl h
      | some sealed => exact hsame rfl { h with enrollments := h.enrollments.erase _ }
  | sweep => exact absurd rfl hcall

theorem Shadows.outcomes_eq_iff {now : Int} {whole swept : Server.SqliteStore} (h : Shadows now whole swept) :
    ∀ {calls : List TimedCall}, (now :: calls.map Prod.fst).Pairwise (· ≤ ·) →
      (outcomes calls swept = outcomes (unswept calls) whole ↔ NeverTells calls whole swept)
  | [], _ => ⟨fun _ => trivial, fun _ => rfl⟩
  | (t, call) :: rest, htimes => by
    rw [List.map_cons, List.pairwise_cons] at htimes
    have hlate := h.mono (htimes.1 t List.mem_cons_self)
    by_cases hsweep : call = .sweep
    · subst hsweep
      exact Shadows.outcomes_eq_iff hlate.sweep htimes.2
    · have hcall := hlate.serve hsweep
      have hkeep : TimedCall.isSweep (t, call) = false := by simp [TimedCall.isSweep, hsweep]
      have hlist : unswept ((t, call) :: rest) = (t, call) :: unswept rest := by simp [unswept, hkeep]
      rw [hlist, outcomes_cons hsweep, outcomes_cons hsweep]
      simp only [NeverTells, hkeep, Bool.false_eq_true, if_false, List.cons.injEq, Sigma.mk.injEq, true_and, heq_eq_eq]
      rw [hcall.1]
      refine and_congr_right (fun hquiet => ?_)
      exact Shadows.outcomes_eq_iff (hcall.2 hquiet) htimes.2

/-- **Sweeps seen.** Sweeps anywhere in a run, each made at the time it has there, change no answer if and only if no
refresh token is presented that a sweep forgot had been consumed, or had been revoked with its family. -/
theorem sweep_seen_iff (s : Server.SqliteStore) {calls : List TimedCall} (htimes : (calls.map Prod.fst).Pairwise (· ≤ ·)) :
    outcomes calls s = outcomes (unswept calls) s ↔ NeverTells calls s s := by
  cases calls with
  | nil => exact ⟨fun _ => trivial, fun _ => rfl⟩
  | cons timed rest =>
    refine (Shadows.refl timed.1 s).outcomes_eq_iff ?_
    rw [List.map_cons] at htimes ⊢
    refine List.pairwise_cons.mpr ⟨?_, htimes⟩
    intro t ht
    rcases List.mem_cons.mp ht with rfl | ht
    · exact le_refl _
    · exact (List.pairwise_cons.mp htimes).1 t ht

/-- A chain of one device, and two tokens of it. -/
def aSession : Session := ⟨⟨.repeated 16 1⟩, ⟨.repeated 16 2⟩, ⟨.repeated 16 3⟩⟩

def firstToken : TokenHash := ⟨.repeated 32 1⟩

def secondToken : TokenHash := ⟨.repeated 32 2⟩

/-- A token rotated, and presented again after it expired and a sweep ran. -/
def reuseAfterSweep : List TimedCall :=
  [(0, .putRefreshToken firstToken aSession 10), (1, .consumeRefreshToken firstToken), (10, .sweep),
    (11, .consumeRefreshToken firstToken)]

/-- A token rotated and at once presented again: the family is revoked. Its tokens expire and a sweep runs, then the
refresh that rotated the token stores the next one. -/
def storedAfterSweep : List TimedCall :=
  [(0, .putRefreshToken firstToken aSession 10), (1, .consumeRefreshToken firstToken),
    (2, .consumeRefreshToken firstToken), (10, .sweep), (11, .putRefreshToken secondToken aSession 20),
    (12, .consumeRefreshToken secondToken)]

/-- The reuse is reported without the sweep and not with it; the revocation holds without the sweep and not with it. -/
theorem sweep_is_seen :
    outcomes reuseAfterSweep .new ≠ outcomes (unswept reuseAfterSweep) .new ∧
    outcomes storedAfterSweep .new ≠ outcomes (unswept storedAfterSweep) .new := by
  constructor
  · decide +kernel
  · decide +kernel

/-- A sweep between the first use of a token and its reuse, before it expires, changes nothing. -/
theorem sweep_seen_iff_early :
    outcomes [(0, .putRefreshToken firstToken aSession 10), (1, .consumeRefreshToken firstToken), (5, .sweep),
      (6, .consumeRefreshToken firstToken)] .new =
    outcomes (unswept [(0, .putRefreshToken firstToken aSession 10), (1, .consumeRefreshToken firstToken), (5, .sweep),
      (6, .consumeRefreshToken firstToken)]) .new := by
  refine (sweep_seen_iff .new (by decide)).mpr ?_
  exact ⟨by rfl, by rfl, by decide +kernel, trivial⟩

end Misty
