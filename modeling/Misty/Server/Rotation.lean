import Misty.Server.Requests

/- A refresh that is not answered with tokens. The token is consumed in a transaction of
   its own; the limiter, the generator and two more writes come after it and can each turn
   the request away. `Surroundings` is all that a single request depends on besides the
   tables, and `Surroundings.serve` runs a handler in them.

   A call that fails (the generator, the store, the task that runs it) ends the request as
   an internal error, and a transaction that fails leaves the tables as they were. -/
namespace Misty

/-- What one request finds around it: the clock and the generator by the number of calls made so far, the limiter, and
which of the calls that can fail do, counted from 0. -/
structure Surroundings where
  clock : Nat → Int
  random : Nat → (n : Nat) → ByteArr n
  limiter : VaultId → Bool
  fails : Nat → Bool

/-- A handler run to its end: `i` of its calls that can fail have been made. -/
def Surroundings.serve (o : Surroundings) : Nat → Thread → Server.SqliteStore →
    Except ApiError AuthReply × Server.SqliteStore
  | _, .ok reply _, s => (.ok reply, s)
  | _, .error e _, s => (.error e, s)
  | i, .call (.checkVault vaultId) _ k, s => o.serve i (k (o.limiter vaultId)) s
  | i, .call .nowUnixMs _ k, s => o.serve i (k (o.clock i)) s
  | i, .call (.randomArray n) _ k, s => if o.fails i then (.error .internal, s) else o.serve (i + 1) (k (o.random i n)) s
  | i, .call (.store now call) _ k, s =>
    if o.fails i then (.error .internal, s) else o.serve (i + 1) (k (s.serve now call).1) (s.serve now call).2

namespace Server.SqliteStore

/-- The token, if there is such a one, was not consumed, and its family is not revoked. -/
def Usable (s : Server.SqliteStore) (tokenHash : TokenHash) : Prop :=
  ∀ row, s.refreshTokens[tokenHash]? = some row →
    row.consumedAt = none ∧ s.revokedFamilies[row.session.family]? = none

/-- The token is one that can be rotated at a time. -/
def Rotates (s : Server.SqliteStore) (tokenHash : TokenHash) (now : Int) (row : RefreshRow) : Prop :=
  s.refreshTokens[tokenHash]? = some row ∧ row.consumedAt = none ∧
    s.revokedFamilies[row.session.family]? = none ∧ now < row.expiresAt

variable {s : Server.SqliteStore} {tokenHash : TokenHash} {now : Int} {row : RefreshRow}

theorem Usable.not_reuse (h : s.Usable tokenHash) (now : Int) (session : Session) :
    (s.consumeRefreshToken tokenHash now).1 ≠ .reuseDetected session := by
  intro hreuse
  have hconsumed := s.consumed tokenHash now
  rw [hreuse] at hconsumed
  generalize (s.consumeRefreshToken tokenHash now).2 = s' at hconsumed
  cases hrow : s.refreshTokens[tokenHash]? with
  | none =>
    rw [consumeRefreshToken_unknown hrow] at hreuse
    cases hreuse
  | some row =>
    obtain ⟨hfresh, hfamily⟩ := h row hrow
    have hrevoked : (s.revokedFamilies[row.session.family]?).isSome = false := by simp [hfamily]
    by_cases hlive : now < row.expiresAt
    · rw [consumeRefreshToken_rotated hrow hrevoked hfresh hlive] at hreuse
      cases hreuse
    · rw [consumeRefreshToken_expired hrow hrevoked hfresh (not_lt.mp hlive)] at hreuse
      cases hreuse

/-- A token that is rotated is taken, whatever the next time, for one that was used. -/
theorem Rotates.consumed (h : s.Rotates tokenHash now row) :
    (s.consumeRefreshToken tokenHash now).1 = .rotated row.session ∧
      ¬ (s.consumeRefreshToken tokenHash now).2.Usable tokenHash := by
  obtain ⟨hrow, hfresh, hfamily, hlive⟩ := h
  have hrevoked : (s.revokedFamilies[row.session.family]?).isSome = false := by simp [hfamily]
  rw [consumeRefreshToken_rotated hrow hrevoked hfresh hlive]
  refine ⟨rfl, fun husable => ?_⟩
  obtain ⟨hnone, -⟩ := husable { row with consumedAt := some now } (by simp)
  cases hnone

theorem consumeRefreshToken_refused (h : ∀ row, ¬ s.Rotates tokenHash now row) (session : Session) :
    (s.consumeRefreshToken tokenHash now).1 ≠ .rotated session := by
  intro hrotated
  cases hrow : s.refreshTokens[tokenHash]? with
  | none =>
    rw [consumeRefreshToken_unknown hrow] at hrotated
    cases hrotated
  | some row =>
    cases hrevoked : (s.revokedFamilies[row.session.family]?).isSome with
    | true =>
      rw [consumeRefreshToken_revoked hrow hrevoked] at hrotated
      cases hrotated
    | false =>
      cases hconsumed : row.consumedAt with
      | some t =>
        rw [consumeRefreshToken_reused hrow hrevoked (by simp [hconsumed])] at hrotated
        cases hrotated
      | none =>
        have hfamily : s.revokedFamilies[row.session.family]? = none := Option.not_isSome_iff_eq_none.mp (by simp [hrevoked])
        have hexpired : row.expiresAt ≤ now := not_lt.mp (fun hlive => h row ⟨hrow, hconsumed, hfamily, hlive⟩)
        rw [consumeRefreshToken_expired hrow hrevoked hconsumed hexpired] at hrotated
        cases hrotated

end Server.SqliteStore

variable (config : AuthConfig) (P : AuthPrims)

/-- An answer that is neither tokens nor a refusal leaves a token that can be presented again. -/
def RetryIsSafe (tokenHash : TokenHash) (answered : Except ApiError AuthReply × Server.SqliteStore) : Prop :=
  ∀ e, answered.1 = .error e → e ≠ .unauthorized →
    answered.2.Usable tokenHash ∧ ∀ now session, (answered.2.consumeRefreshToken tokenHash now).1 ≠ .reuseDetected session

/-- Nothing turns the request away once it has consumed the token, and if it fails to, the token was usable. -/
def Surroundings.Spares (o : Surroundings) (s : Server.SqliteStore) (tokenHash : TokenHash) : Prop :=
  if o.fails 0 then s.Usable tokenHash
  else ∀ row, s.Rotates tokenHash (o.clock 0) row →
    o.limiter row.session.vaultId = true ∧ ∀ i, 1 ≤ i → i ≤ 4 → o.fails i = false

variable {config P} {o : Surroundings} {s : Server.SqliteStore}

/-- The access token is written, then the refresh token. -/
theorem Surroundings.serve_issue (session : Session) : o.serve 1 (issue config P session ()) s =
    if o.fails 1 then (.error .internal, s)
    else if o.fails 2 then (.error .internal, s)
    else if o.fails 3 then (.error .internal, s)
    else
      let access := o.random 1 32
      let refresh := o.random 2 32
      let s' := s.putAccessToken (tokenHash P access.val) session (expiry (o.clock 3) config.accessTokenTtl)
      if o.fails 4 then (.error .internal, s')
      else (.ok (.token access refresh (config.accessTokenTtl / 1000) session.vaultId session.deviceId),
        s'.putRefreshToken (tokenHash P refresh.val) session (expiry (o.clock 3) config.refreshTokenTtl)) := rfl

theorem Surroundings.serve_issue_ok {session : Session} (h : ∀ i, 1 ≤ i → i ≤ 4 → o.fails i = false) :
    ∃ reply, (o.serve 1 (issue config P session ()) s).1 = .ok reply := by
  rw [serve_issue, h 1 (by omega) (by omega), h 2 (by omega) (by omega), h 3 (by omega) (by omega),
    h 4 (by omega) (by omega)]
  exact ⟨_, rfl⟩

theorem Surroundings.serve_issue_failed {session : Session} (h : ¬ ∀ i, 1 ≤ i → i ≤ 4 → o.fails i = false) :
    (o.serve 1 (issue config P session ()) s).1 = .error .internal ∧
      (o.serve 1 (issue config P session ()) s).2.refreshTokens = s.refreshTokens ∧
      (o.serve 1 (issue config P session ()) s).2.revokedFamilies = s.revokedFamilies := by
  rw [serve_issue]
  by_cases hone : o.fails 1 = true
  · simp [hone]
  · by_cases htwo : o.fails 2 = true
    · simp [hone, htwo]
    · by_cases hthree : o.fails 3 = true
      · simp [hone, htwo, hthree]
      · by_cases hfour : o.fails 4 = true
        · simp [hone, htwo, hthree, hfour, Server.SqliteStore.putAccessToken]
        · refine absurd ?_ h
          intro i hlow hhigh
          rcases (by omega : i = 1 ∨ i = 2 ∨ i = 3 ∨ i = 4) with rfl | rfl | rfl | rfl
          · simpa using hone
          · simpa using htwo
          · simpa using hthree
          · simpa using hfour

theorem Surroundings.serve_refresh (token : ByteArr 32) : o.serve 0 (refresh config P (some token) ()) s =
    if o.fails 0 then (.error .internal, s)
    else
      let consumed := s.consumeRefreshToken (tokenHash P token.val) (o.clock 0)
      match consumed.1 with
      | .rotated session =>
        if o.limiter session.vaultId then o.serve 1 (issue config P session ()) consumed.2
        else (.error .rateLimited, consumed.2)
      | .reuseDetected _ | .rejected => (.error .unauthorized, consumed.2) := by
  cases hfails : o.fails 0 with
  | true =>
    show (if o.fails 0 then (Except.error ApiError.internal, s) else _) = _
    rw [if_pos hfails]
    rfl
  | false =>
    show (if o.fails 0 then _ else o.serve 1 ((match (s.consumeRefreshToken (tokenHash P token.val) (o.clock 0)).1 with
        | .rotated session => do
          limited session.vaultId
          issue config P session
        | .reuseDetected _ | .rejected => throw .unauthorized : Auth AuthReply) ())
      (s.consumeRefreshToken (tokenHash P token.val) (o.clock 0)).2) = _
    rw [if_neg (by simp [hfails])]
    dsimp only
    cases (s.consumeRefreshToken (tokenHash P token.val) (o.clock 0)).1 with
    | rotated session =>
      show o.serve 1 (((if o.limiter session.vaultId = false then throw ApiError.rateLimited else pure ()) >>=
        fun _ => issue config P session : Auth AuthReply) ()) _ =
          if o.limiter session.vaultId then o.serve 1 (issue config P session ()) _ else _
      cases o.limiter session.vaultId with
      | true => rfl
      | false => rfl
    | reuseDetected session => rfl
    | rejected => rfl

/-- A refresh that is not answered with tokens leaves the session usable exactly when nothing turns it away after the
token was consumed. -/
theorem refresh_retry_safe_iff (config : AuthConfig) (P : AuthPrims) (o : Surroundings) (s : Server.SqliteStore)
    (token : ByteArr 32) : RetryIsSafe (tokenHash P token.val) (o.serve 0 (refresh config P (some token) ()) s) ↔
      o.Spares s (tokenHash P token.val) := by
  unfold Surroundings.Spares
  rw [Surroundings.serve_refresh]
  cases hfails : o.fails 0 with
  | true =>
    -- nothing was written
    simp only [if_true]
    constructor
    · intro h
      exact (h _ rfl (by decide)).1
    · intro h e he hne
      exact ⟨h, h.not_reuse⟩
  | false =>
    simp only [Bool.false_eq_true, if_false]
    by_cases hrotates : ∃ row, s.Rotates (tokenHash P token.val) (o.clock 0) row
    · obtain ⟨row, hrow⟩ := hrotates
      obtain ⟨hrotated, hused⟩ := hrow.consumed
      rw [hrotated]
      dsimp only
      constructor
      · intro h row' hrow'
        obtain rfl : row = row' := Option.some.inj (hrow.1.symm.trans hrow'.1)
        cases hlimiter : o.limiter row.session.vaultId with
        | false =>
          rw [hlimiter] at h
          exact absurd (h _ rfl (by decide)).1 hused
        | true =>
          refine ⟨rfl, ?_⟩
          rw [hlimiter, if_pos rfl] at h
          by_contra hall
          obtain ⟨herror, htokens, hfamilies⟩ := Surroundings.serve_issue_failed hall
          obtain ⟨husable, -⟩ := h _ herror (by decide)
          refine hused (fun row' hrow' => ?_)
          have hkept := husable row'
          rw [htokens, hfamilies] at hkept
          exact hkept hrow'
      · intro h
        obtain ⟨hlimiter, hall⟩ := h row hrow
        rw [hlimiter, if_pos rfl]
        intro e he
        obtain ⟨reply, hreply⟩ := Surroundings.serve_issue_ok hall
        rw [hreply] at he
        cases he
    · have hnone : ∀ row, ¬ s.Rotates (tokenHash P token.val) (o.clock 0) row := fun row hrow => hrotates ⟨row, hrow⟩
      constructor
      · intro _ row hrow
        exact absurd hrow (hnone row)
      · intro _ e he hne
        cases hout : (s.consumeRefreshToken (tokenHash P token.val) (o.clock 0)).1 with
        | rotated session => exact absurd hout (Server.SqliteStore.consumeRefreshToken_refused hnone session)
        | reuseDetected session | rejected =>
          rw [hout] at he
          cases he
          exact absurd rfl hne

/-- A token of the sample session, presented while the limiter has nothing left for its vault. -/
def refusedRefresh : Except ApiError AuthReply × Server.SqliteStore :=
  Surroundings.serve ⟨fun _ => 0, fun _ n => .repeated n 0, fun _ => false, fun _ => false⟩ 0
    (refresh .sample .sample (some (.repeated 32 4)) ())
    (Server.SqliteStore.new.putRefreshToken (tokenHash .sample (ByteArr.repeated 32 4).val)
      ⟨⟨.repeated 16 1⟩, ⟨.repeated 16 2⟩, ⟨.repeated 16 2⟩⟩ 1000)

/-- It is told to try again later, and when it does its family is revoked. -/
theorem rate_limited_refresh_burns_token : refusedRefresh.1 = .error .rateLimited ∧
    (refusedRefresh.2.consumeRefreshToken (tokenHash .sample (ByteArr.repeated 32 4).val) 1).1 =
      .reuseDetected ⟨⟨.repeated 16 1⟩, ⟨.repeated 16 2⟩, ⟨.repeated 16 2⟩⟩ ∧
    ¬ RetryIsSafe (tokenHash .sample (ByteArr.repeated 32 4).val) refusedRefresh := by
  have hrefused : refusedRefresh.1 = .error .rateLimited := by rfl
  have hreused : (refusedRefresh.2.consumeRefreshToken (tokenHash .sample (ByteArr.repeated 32 4).val) 1).1 =
      .reuseDetected ⟨⟨.repeated 16 1⟩, ⟨.repeated 16 2⟩, ⟨.repeated 16 2⟩⟩ := by decide
  exact ⟨hrefused, hreused, fun h => (h _ hrefused (by decide)).2 _ _ hreused⟩

end Misty
