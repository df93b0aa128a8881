import Misty.Server.Requests

/- A revoked family, over any interleaving of requests. Revoking it deletes its access
   tokens and records the family; a refresh token of a recorded family is refused, and the
   sweep keeps the record while one is left (`Dead.serve`).

   What is not covered is a token stored afterwards. A refresh consumes its token in one
   call and stores its successors in others, and in between the family may be revoked: the
   access token it then stores is good until it expires (`revoked_family_lives`). Where no
   access token is stored for a revoked family, and no refresh token for one whose record a
   sweep has dropped, a revoked family is dead for good (`revoked_family_dead`). -/
namespace Misty

/-- No access token is stored for a revoked family, nor a refresh token once its record is gone. -/
def AuthPermit.storesAlive : AuthPermit := fun w q =>
  match q with
  | .store _ (.putAccessToken _ session _) => !w.revoked session.family
  | .store _ (.putRefreshToken _ session _) =>
    !w.revoked session.family || (w.store.revokedFamilies[session.family]?).isSome
  | _ => true

/-- No token of the family is good: it has no access token, and it is recorded or has no refresh token. -/
structure Dead (family : Family) (s : Server.SqliteStore) : Prop where
  access : ∀ (tokenHash : TokenHash) (row : AccessRow), s.accessTokens[tokenHash]? = some row →
    row.session.family ≠ family
  refresh : (s.revokedFamilies[family]?).isSome = true ∨
    ∀ (tokenHash : TokenHash) (row : RefreshRow), s.refreshTokens[tokenHash]? = some row → row.session.family ≠ family

variable {family : Family} {s : Server.SqliteStore} {now : Int}

theorem Dead.accessToken (h : Dead family s) {tokenHash : TokenHash} {session : Session}
    (hfound : s.accessToken tokenHash now = some session) : session.family ≠ family := by
  obtain ⟨row, hrow, rfl⟩ := Option.map_eq_some_iff.mp hfound
  exact h.access tokenHash row (Expiry.live_eq_some.mp hrow).1

theorem Dead.consumeRefreshToken (h : Dead family s) {tokenHash : TokenHash} {session : Session}
    (hrotated : (s.consumeRefreshToken tokenHash now).1 = .rotated session) : session.family ≠ family := by
  have hc := Server.SqliteStore.consumed s tokenHash now
  rw [hrotated] at hc
  generalize (s.consumeRefreshToken tokenHash now).2 = s' at hc
  cases hc with
  | @rotated row hrow hrevoked =>
    rcases h.refresh with hrecorded | hnone
    · intro heq
      rw [heq, hrecorded] at hrevoked
      cases hrevoked
    · exact hnone tokenHash row hrow

/-! ## Calls -/

theorem Dead.revoked (s : Server.SqliteStore) (family : Family) (now : Int) : Dead family (s.revokeFamily family now) := by
  refine ⟨?_, .inl ?_⟩
  · intro tokenHash row hrow
    rw [Server.SqliteStore.getElem?_accessTokens_revokeFamily] at hrow
    simpa using (Option.filter_eq_some_iff.mp hrow).2
  · rw [Server.SqliteStore.isSome_revokedFamilies_revokeFamily]
    simp

theorem Dead.revokeFamily (h : Dead family s) (other : Family) : Dead family (s.revokeFamily other now) := by
  refine ⟨?_, ?_⟩
  · intro tokenHash row hrow
    rw [Server.SqliteStore.getElem?_accessTokens_revokeFamily] at hrow
    exact h.access tokenHash row (Option.filter_eq_some_iff.mp hrow).1
  · refine h.refresh.imp ?_ id
    intro hrecorded
    rw [Server.SqliteStore.isSome_revokedFamilies_revokeFamily, hrecorded, Bool.or_true]

/-- A sweep drops the record only when no refresh token is left. -/
theorem Dead.sweep (h : Dead family s) : Dead family (s.sweep now).2 := by
  refine ⟨?_, ?_⟩
  · intro tokenHash row hrow
    have hold := (Expiry.live_eq_some.mp ((Expiry.getElem?_reap now s.accessTokens tokenHash).symm.trans hrow)).1
    exact h.access tokenHash row hold
  · by_cases hpresentable : Server.SqliteStore.presentable (s.sweep now).2.refreshTokens family = true
    · rcases h.refresh with hrecorded | hnone
      · refine .inl ?_
        obtain ⟨t, ht⟩ := Option.isSome_iff_exists.mp hrecorded
        rw [Server.SqliteStore.getElem?_revokedFamilies_sweep, ht, Option.filter_some, if_pos hpresentable]
        rfl
      · obtain ⟨tokenHash, row, hrow, hfamily⟩ := Server.SqliteStore.presentable_iff.mp hpresentable
        have hold := (Expiry.live_eq_some.mp ((Expiry.getElem?_reap now s.refreshTokens tokenHash).symm.trans hrow)).1
        exact absurd hfamily (hnone tokenHash row hold)
    · refine .inr ?_
      intro tokenHash row hrow hfamily
      exact hpresentable (Server.SqliteStore.presentable_iff.mpr ⟨tokenHash, row, hrow, hfamily⟩)

theorem Dead.congr {s' : Server.SqliteStore} (h : Dead family s) (haccess : s'.accessTokens = s.accessTokens)
    (hrefresh : s'.refreshTokens = s.refreshTokens) (hrevoked : s'.revokedFamilies = s.revokedFamilies) :
    Dead family s' := by
  refine ⟨?_, ?_⟩
  · rw [haccess]
    exact h.access
  · rw [hrefresh, hrevoked]
    exact h.refresh

/-- Any call keeps a family dead that stores no token for it. -/
theorem Dead.serve (h : Dead family s) {call : StoreCall}
    (haccess : ∀ tokenHash session expiresAt, call = .putAccessToken tokenHash session expiresAt →
      session.family ≠ family)
    (hrefresh : ∀ tokenHash session expiresAt, call = .putRefreshToken tokenHash session expiresAt →
      session.family = family → (s.revokedFamilies[family]?).isSome = true) :
    Dead family (s.serve now call).2 := by
  by_cases hrelays : call.relays = true
  · obtain ⟨enrollments, hs⟩ := s.serve_relays now hrelays
    rw [hs]
    exact h.congr rfl rfl rfl
  cases call with
  | putAccessToken tokenHash session expiresAt =>
    refine ⟨?_, h.refresh⟩
    intro k row hrow
    simp only [Server.SqliteStore.serve, Server.SqliteStore.getElem?_accessTokens_putAccessToken] at hrow
    split at hrow
    · cases hrow
      exact haccess _ _ _ rfl
    · exact h.access k row hrow
  | putRefreshToken tokenHash session expiresAt =>
    refine ⟨h.access, ?_⟩
    by_cases hfamily : session.family = family
    · exact .inl (hrefresh _ _ _ rfl hfamily)
    · refine h.refresh.imp id ?_
      intro hnone k row hrow
      simp only [Server.SqliteStore.serve, Server.SqliteStore.getElem?_refreshTokens_putRefreshToken] at hrow
      split at hrow
      · cases hrow
        exact hfamily
      · exact hnone k row hrow
  -- a token used again revokes its family; a rotation only marks the row as used
  | consumeRefreshToken tokenHash =>
    show Dead family (s.consumeRefreshToken tokenHash now).2
    have hc := Server.SqliteStore.consumed s tokenHash now
    generalize (s.consumeRefreshToken tokenHash now).1 = outcome at hc
    generalize (s.consumeRefreshToken tokenHash now).2 = s' at hc
    cases hc with
    | rejected => exact h
    | reused _ _ => exact h.revokeFamily _
    | @rotated row hrow hrevoked =>
      refine ⟨h.access, h.refresh.imp id ?_⟩
      intro hnone k r hr
      rw [OrdMap.getElem?_insert] at hr
      split at hr
      · cases hr
        exact hnone tokenHash row hrow
      · exact hnone k r hr
  | revokeFamily other => exact h.revokeFamily other
  | sweep => exact h.sweep
  | putChallenge _ _ _ _ | takeChallenge _ | device _ _ | accessToken _ => exact h.congr rfl rfl rfl
  | admitDevice vaultId deviceId ed25519Pub sponsor maxVaults =>
    obtain ⟨vaults, devices, hs⟩ := s.serve_admitDevice now vaultId deviceId ed25519Pub sponsor maxVaults
    rw [hs]
    exact h.congr rfl rfl rfl
  | enrollBegin _ _ _ _ | enrollTakeRequest _ | enrollComplete _ _ | enrollTakeResponse _ => exact absurd rfl hrelays

/-! ## Runs -/

variable {config : AuthConfig} {P : AuthPrims}

/-- The last outcome revoked a family, or an earlier one did. -/
theorem AuthWorld.revoked_run {w : AuthWorld} {call : StoreCall} :
    (w.run now call).revoked family = (revokes family ⟨call, (w.store.serve now call).1⟩ || w.revoked family) := rfl

theorem Dead.of_revokes {call : StoreCall} (h : revokes family ⟨call, (s.serve now call).1⟩ = true) :
    Dead family (s.serve now call).2 := by
  cases call with
  | revokeFamily other =>
    have heq : other = family := by simpa [revokes] using h
    rw [← heq]
    exact Dead.revoked s other now
  | consumeRefreshToken tokenHash =>
    show Dead family (s.consumeRefreshToken tokenHash now).2
    have hc := Server.SqliteStore.consumed s tokenHash now
    simp only [revokes, Server.SqliteStore.serve] at h
    generalize (s.consumeRefreshToken tokenHash now).1 = outcome at hc h
    generalize (s.consumeRefreshToken tokenHash now).2 = s' at hc
    cases hc with
    | rejected => cases h
    | @reused row _ _ =>
      have heq : row.session.family = family := by simpa using h
      rw [← heq]
      exact Dead.revoked s row.session.family now
    | rotated _ _ => cases h
  | _ => cases h

/-- An answer keeps the revoked families dead: one revoked just now is dead, and one revoked before is stored no
token the permit keeps back. -/
theorem dead_answered {w w' : AuthWorld} {i : Nat} {q : AuthQuery} {a : q.Answer}
    (h : ∀ family, w.revoked family = true → Dead family w.store) (ht : Answered i q w a w')
    (hc : AuthPermit.storesAlive w q = true) : ∀ family, w'.revoked family = true → Dead family w'.store := by
  cases ht with
  | checkVault _ _ _ => exact h
  | randomArray _ _ => exact h
  | nowUnixMs _ => exact h
  | store now call w =>
    intro family hrevoked
    rw [AuthWorld.revoked_run, Bool.or_eq_true] at hrevoked
    rcases hrevoked with hlast | hbefore
    · exact Dead.of_revokes hlast
    · refine (h family hbefore).serve ?_ ?_
      · intro tokenHash session expiresAt heq hfamily
        subst heq hfamily
        simp [AuthPermit.storesAlive, hbefore] at hc
      · intro tokenHash session expiresAt heq hfamily
        subst heq hfamily
        simpa [AuthPermit.storesAlive, hbefore] using hc

theorem dead_moved {w w' : AuthWorld} (h : ∀ family, w.revoked family = true → Dead family w.store)
    (hm : AuthMove w w') : ∀ family, w'.revoked family = true → Dead family w'.store := by
  cases hm with
  | received _ => exact h
  | swept now _ =>
    intro family hrevoked
    rw [AuthWorld.revoked_run, Bool.or_eq_true] at hrevoked
    rcases hrevoked with hlast | hbefore
    · cases hlast
    · exact (h family hbefore).sweep
  | revoked other now =>
    intro family hrevoked
    rw [AuthWorld.revoked_run, Bool.or_eq_true] at hrevoked
    rcases hrevoked with hlast | hbefore
    · exact Dead.of_revokes hlast
    · exact (h family hbefore).revokeFamily other
  | ticked _ => exact h

theorem dead_of_run {x : AuthWorld × List Thread} (h : AuthRun config P AuthPermit.storesAlive x) :
    ∀ family, x.1.revoked family = true → Dead family x.1.store := by
  induction h with
  | refl =>
    intro family hrevoked
    cases hrevoked
  | tail _ hstep ih =>
    rcases hstep.world with hsame | ⟨i, q, a, ht, hc⟩ | hm
    · rw [hsame]
      exact ih
    · exact dead_answered ih ht hc
    · exact dead_moved ih hm

/-- A revoked session family is dead: in every state of a run that stores no token late, a family of which reuse was
detected, or that was revoked, has no access token that resolves and no refresh token that rotates, whatever the
clock reads. -/
theorem revoked_family_dead (config : AuthConfig) (P : AuthPrims) {x : AuthWorld × List Thread}
    (h : AuthRun config P AuthPermit.storesAlive x) {family : Family} (hrevoked : x.1.revoked family = true)
    (tokenHash : TokenHash) (now : Int) (session : Session) :
    (x.1.store.accessToken tokenHash now = some session → session.family ≠ family) ∧
      ((x.1.store.consumeRefreshToken tokenHash now).1 = .rotated session → session.family ≠ family) := by
  have hdead := dead_of_run h family hrevoked
  exact ⟨hdead.accessToken, hdead.consumeRefreshToken⟩

/-- A device's refresh token 4 is presented twice. The first presentation consumes it and has drawn its successors 5
and 6 when the second revokes the family; the first then stores its access token. -/
def refreshTwice : List AuthAct :=
  let token : ByteArr 32 := .repeated 32 4
  signIn ++
    [.request (.refresh (some token)), .answer 2 0, .answer 2 0, .answer 2 0, .answer 2 5, .answer 2 6, .answer 2 0,
      .request (.refresh (some token)), .answer 3 0, .answer 3 0, .answer 2 0]

def aFamily : Family := ⟨.repeated 16 2⟩

/-- The family just revoked: the successor is not stored yet, and the first token is refused. -/
theorem revoked_family_dead_reuse : ∃ x : AuthWorld × List Thread,
    AuthRun .sample .sample AuthPermit.storesAlive x ∧ x.1.revoked aFamily = true ∧
    ∀ session, x.1.store.accessToken (tokenHash .sample (ByteArr.repeated 32 3).val) x.1.clock = some session →
      session.family ≠ aFamily := by
  have hplayed : (playAll .sample .sample AuthPermit.storesAlive (.new, []) refreshTwice.dropLast).any
      (fun x => x.1.revoked aFamily) = true := by decide
  obtain ⟨x, hx, hrevoked⟩ := Option.any_eq_true _ _ |>.mp hplayed
  have hrun : AuthRun .sample .sample AuthPermit.storesAlive x := run_playAll hx
  exact ⟨x, hrun, hrevoked, fun session => (revoked_family_dead _ _ hrun hrevoked _ _ session).1⟩

/-- A revoked family lives on: the access token stored after the revocation resolves. -/
theorem revoked_family_lives : ¬ ∀ (config : AuthConfig) (P : AuthPrims) (x : AuthWorld × List Thread),
    AuthRun config P AuthPermit.all x → ∀ family, x.1.revoked family = true →
    ∀ (tokenHash : TokenHash) (now : Int) (session : Session),
      (x.1.store.accessToken tokenHash now = some session → session.family ≠ family) ∧
        ((x.1.store.consumeRefreshToken tokenHash now).1 = .rotated session → session.family ≠ family) := by
  intro h
  have hplayed : (playAll .sample .sample AuthPermit.all (.new, []) refreshTwice).any (fun x => x.1.revoked aFamily &&
      (x.1.store.accessToken (tokenHash .sample (ByteArr.repeated 32 5).val) x.1.clock).any
        (fun session => session.family = aFamily)) = true := by decide +kernel
  obtain ⟨x, hx, hboth⟩ := Option.any_eq_true _ _ |>.mp hplayed
  obtain ⟨hrevoked, hfound⟩ := Bool.and_eq_true_iff.mp hboth
  obtain ⟨session, hsession, hfamily⟩ := Option.any_eq_true _ _ |>.mp hfound
  exact (h .sample .sample x (run_playAll hx) aFamily hrevoked _ _ session).1 hsession (of_decide_eq_true hfamily)

end Misty
