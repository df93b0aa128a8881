import Misty.Types
import Misty.Lib.Expiry

/- The rest of the server's store: challenges, tokens, devices, enrollments. Each method
   is one transaction, so a method is a function of the tables.

   Correspondence (Rust ↔ Lean):
     `store::{Challenge, Session, Admission, RefreshOutcome}` ↔ the same names
     `store::{EnrollBegin, EnrollRequest, EnrollResponse, EnrollComplete, Swept}` ↔ the same names
     `[u8; 32]`, `[u8; 16]` as keys of tables  ↔ `TokenHash`, `Family`
     the tables of `MIGRATIONS`, but `items`   ↔ `Server.SqliteStore`
     `impl Store for SqliteStore`              ↔ `Server.SqliteStore.*`, under the same names
     a call of the trait                       ↔ `StoreCall`, run by `Server.SqliteStore.serve`
   `sweep` drops rows of `items` too: that part is `Server.sweep`. -/
namespace Misty

open Std (ExtTreeMap)

/-- What is stored of a nonce or a token. -/
structure TokenHash where
  bytes : ByteArr 32
  deriving DecidableEq

instance : LinearOrder TokenHash :=
  LinearOrder.lift' TokenHash.bytes (fun a b h => by cases a; cases b; exact congrArg _ h)

/-- A rotation chain. -/
structure Family where
  bytes : ByteArr 16
  deriving DecidableEq

instance : LinearOrder Family :=
  LinearOrder.lift' Family.bytes (fun a b h => by cases a; cases b; exact congrArg _ h)

instance : Std.TransOrd (VaultId ×ₗ DeviceId) := Prod.Lex.instTransOrdLex

/-- Whom a challenge was issued for. -/
structure Challenge where
  vaultId : VaultId
  deviceId : DeviceId
  deriving DecidableEq

/-- What a token stands for. -/
structure Session where
  vaultId : VaultId
  deviceId : DeviceId
  family : Family
  deriving DecidableEq

/-- A row of `challenges`. -/
structure ChallengeRow where
  challenge : Challenge
  expiresAt : Int
  deriving DecidableEq

/-- A row of `access_tokens`. -/
structure AccessRow where
  session : Session
  expiresAt : Int
  deriving DecidableEq

/-- A row of `refresh_tokens`. -/
structure RefreshRow where
  session : Session
  expiresAt : Int
  consumedAt : Option Int
  deriving DecidableEq

/-- A row of `enrollments`. -/
structure EnrollmentRow where
  x25519Pub : ByteArr 32
  enrollRequest : Bytes
  requestTaken : Bool
  sealedResponse : Option Bytes
  expiresAt : Int
  deriving DecidableEq

/-- A row of `devices`; its key is the pair of ids. -/
structure DeviceRow where
  ed25519Pub : ByteArr 32
  admittedAt : Int
  admittedBy : Option DeviceId
  deriving DecidableEq

/-- The tables. -/
structure Server.SqliteStore where
  vaults : ExtTreeMap VaultId Int
  devices : ExtTreeMap (VaultId ×ₗ DeviceId) DeviceRow
  challenges : ExtTreeMap TokenHash ChallengeRow
  accessTokens : ExtTreeMap TokenHash AccessRow
  refreshTokens : ExtTreeMap TokenHash RefreshRow
  revokedFamilies : ExtTreeMap Family Int
  enrollments : ExtTreeMap EnrollId EnrollmentRow

inductive Admission where
  | bootstrapped
  | admitted
  | alreadyPresent
  | keyMismatch
  | vaultLimit
  | needsSponsor
  deriving DecidableEq

inductive RefreshOutcome where
  | rotated (session : Session)
  | rejected
  | reuseDetected (session : Session)
  deriving DecidableEq

inductive EnrollBegin where
  | created
  | exists
  deriving DecidableEq

inductive EnrollRequest where
  | ready (x25519Pub : ByteArr 32) (enrollRequest : Bytes)
  | gone
  deriving DecidableEq

inductive EnrollResponse where
  | pending
  | ready (sealedResponse : Bytes)
  | gone
  deriving DecidableEq

inductive EnrollComplete where
  | stored
  | missing
  | alreadyAnswered
  deriving DecidableEq

/-- `store::Swept`, but the tombstones. -/
structure Swept where
  challenges : Nat
  tokens : Nat
  enrollments : Nat
  deriving DecidableEq

namespace Server.SqliteStore

/-- The tables after the migrations. -/
def new : Server.SqliteStore := ⟨∅, ∅, ∅, ∅, ∅, ∅, ∅⟩

/-! ## Challenges -/

def putChallenge (nonceHash : TokenHash) (vaultId : VaultId) (deviceId : DeviceId) (expiresAt : Int)
    (self : Server.SqliteStore) : Server.SqliteStore :=
  { self with challenges := self.challenges.insert nonceHash ⟨⟨vaultId, deviceId⟩, expiresAt⟩ }

/-- `take_challenge`: the row is deleted whatever it says. -/
def takeChallenge (nonceHash : TokenHash) (now : Int) (self : Server.SqliteStore) : Option Challenge × Server.SqliteStore :=
  ((Expiry.live ChallengeRow.expiresAt now self.challenges nonceHash).map ChallengeRow.challenge,
    { self with challenges := self.challenges.erase nonceHash })

/-! ## Devices -/

def device (vaultId : VaultId) (deviceId : DeviceId) (self : Server.SqliteStore) : Option (ByteArr 32) :=
  (self.devices[toLex (vaultId, deviceId)]?).map DeviceRow.ed25519Pub

/-- `INSERT INTO devices`. -/
def insertDevice (vaultId : VaultId) (deviceId : DeviceId) (row : DeviceRow) (self : Server.SqliteStore) : Server.SqliteStore :=
  { self with devices := self.devices.insert (toLex (vaultId, deviceId)) row }

/-- `INSERT INTO vaults`. -/
def insertVault (vaultId : VaultId) (now : Int) (self : Server.SqliteStore) : Server.SqliteStore :=
  { self with vaults := self.vaults.insert vaultId now }

def admitDevice (vaultId : VaultId) (deviceId : DeviceId) (ed25519Pub : ByteArr 32) (sponsor : Option DeviceId)
    (now : Int) (maxVaults : Option Nat) (self : Server.SqliteStore) : Admission × Server.SqliteStore :=
  match self.device vaultId deviceId with
  | some key =>
    -- Re-presenting a device id with a new key would be a takeover.
    (if key = ed25519Pub then .alreadyPresent else .keyMismatch, self)
  | none =>
    let row : DeviceRow := ⟨ed25519Pub, now, sponsor⟩
    match self.vaults[vaultId]? with
    | none =>
      if sponsor.isSome then (.needsSponsor, self)
      else if maxVaults.any (fun max => max ≤ self.vaults.size) then (.vaultLimit, self)
      else (.bootstrapped, (self.insertVault vaultId now).insertDevice vaultId deviceId row)
    | some _ =>
      if sponsor.isNone then (.needsSponsor, self)
      else (.admitted, self.insertDevice vaultId deviceId row)

/-! ## Tokens -/

def putAccessToken (tokenHash : TokenHash) (session : Session) (expiresAt : Int) (self : Server.SqliteStore) : Server.SqliteStore :=
  { self with accessTokens := self.accessTokens.insert tokenHash ⟨session, expiresAt⟩ }

def accessToken (tokenHash : TokenHash) (now : Int) (self : Server.SqliteStore) : Option Session :=
  (Expiry.live AccessRow.expiresAt now self.accessTokens tokenHash).map AccessRow.session

def putRefreshToken (tokenHash : TokenHash) (session : Session) (expiresAt : Int) (self : Server.SqliteStore) : Server.SqliteStore :=
  { self with refreshTokens := self.refreshTokens.insert tokenHash ⟨session, expiresAt, none⟩ }

/-- `revoke_family_in`, which is all of `revoke_family`. -/
def revokeFamily (family : Family) (now : Int) (self : Server.SqliteStore) : Server.SqliteStore :=
  { self with
    revokedFamilies := self.revokedFamilies.insertIfNew family now
    accessTokens := self.accessTokens.filter (fun _ row => row.session.family ≠ family) }

def consumeRefreshToken (tokenHash : TokenHash) (now : Int) (self : Server.SqliteStore) : RefreshOutcome × Server.SqliteStore :=
  match self.refreshTokens[tokenHash]? with
  | none => (.rejected, self)
  | some row =>
    if (self.revokedFamilies[row.session.family]?).isSome then (.rejected, self)
    else if row.consumedAt.isSome then (.reuseDetected row.session, self.revokeFamily row.session.family now)
    else if row.expiresAt ≤ now then (.rejected, self)
    else (.rotated row.session,
      { self with refreshTokens := self.refreshTokens.insert tokenHash { row with consumedAt := some now } })

/-! ## Enrollments -/

/-- `enroll_begin`: an expired record is not a collision. -/
def enrollBegin (enrollId : EnrollId) (x25519Pub : ByteArr 32) (enrollRequest : Bytes) (expiresAt now : Int)
    (self : Server.SqliteStore) : EnrollBegin × Server.SqliteStore :=
  match Expiry.live EnrollmentRow.expiresAt now self.enrollments enrollId with
  | some _ => (.exists, self)
  | none => (.created, { self with
      enrollments := self.enrollments.insert enrollId ⟨x25519Pub, enrollRequest, false, none, expiresAt⟩ })

def enrollTakeRequest (enrollId : EnrollId) (now : Int) (self : Server.SqliteStore) : EnrollRequest × Server.SqliteStore :=
  match Expiry.live EnrollmentRow.expiresAt now self.enrollments enrollId with
  | some row =>
    if row.requestTaken then (.gone, self)
    else (.ready row.x25519Pub row.enrollRequest,
      { self with enrollments := self.enrollments.insert enrollId { row with requestTaken := true } })
  | none => (.gone, self)

def enrollComplete (enrollId : EnrollId) (sealedResponse : Bytes) (now : Int) (self : Server.SqliteStore) :
    EnrollComplete × Server.SqliteStore :=
  match Expiry.live EnrollmentRow.expiresAt now self.enrollments enrollId with
  | none => (.missing, self)
  | some row =>
    if row.sealedResponse.isSome then (.alreadyAnswered, self)
    else (.stored,
      { self with enrollments := self.enrollments.insert enrollId { row with sealedResponse := some sealedResponse } })

/-- `enroll_take_response`: the record goes with the response. -/
def enrollTakeResponse (enrollId : EnrollId) (now : Int) (self : Server.SqliteStore) : EnrollResponse × Server.SqliteStore :=
  match Expiry.live EnrollmentRow.expiresAt now self.enrollments enrollId with
  | none => (.gone, self)
  | some row =>
    match row.sealedResponse with
    | none => (.pending, self)
    | some sealedResponse => (.ready sealedResponse, { self with enrollments := self.enrollments.erase enrollId })

/-! ## The sweep -/

/-- `family IN (SELECT family FROM refresh_tokens)`. -/
def presentable (refreshTokens : ExtTreeMap TokenHash RefreshRow) (family : Family) : Bool :=
  refreshTokens.toList.any (fun p => p.2.session.family = family)

/-- `sweep`. A revocation is kept only while a token in its family could still be presented. -/
def sweep (now : Int) (self : Server.SqliteStore) : Swept × Server.SqliteStore :=
  let challenges := Expiry.reap ChallengeRow.expiresAt now self.challenges
  let accessTokens := Expiry.reap AccessRow.expiresAt now self.accessTokens
  let refreshTokens := Expiry.reap RefreshRow.expiresAt now self.refreshTokens
  let revokedFamilies := self.revokedFamilies.filter (fun family _ => presentable refreshTokens family)
  let enrollments := Expiry.reap EnrollmentRow.expiresAt now self.enrollments
  (⟨self.challenges.size - challenges.size,
    (self.accessTokens.size - accessTokens.size) + (self.refreshTokens.size - refreshTokens.size) +
      (self.revokedFamilies.size - revokedFamilies.size),
    self.enrollments.size - enrollments.size⟩,
    { self with
      challenges := challenges
      accessTokens := accessTokens
      refreshTokens := refreshTokens
      revokedFamilies := revokedFamilies
      enrollments := enrollments })

theorem presentable_iff {refreshTokens : ExtTreeMap TokenHash RefreshRow} {family : Family} :
    presentable refreshTokens family = true ↔
      ∃ (tokenHash : TokenHash) (row : RefreshRow), refreshTokens[tokenHash]? = some row ∧ row.session.family = family := by
  unfold presentable
  rw [List.any_eq_true]
  constructor
  · intro ⟨p, hp, hfamily⟩
    exact ⟨p.1, p.2, OrdMap.mem_toList.mp hp, by simpa using hfamily⟩
  · intro ⟨tokenHash, row, hrow, hfamily⟩
    exact ⟨(tokenHash, row), OrdMap.mem_toList.mpr hrow, by simpa using hfamily⟩

/-! ## What the tables are after a call -/

section Fields

variable (self : Server.SqliteStore) (now : Int)

@[simp] theorem getElem?_challenges_takeChallenge (nonceHash k : TokenHash) :
    (self.takeChallenge nonceHash now).2.challenges[k]? = if nonceHash = k then none else self.challenges[k]? :=
  OrdMap.getElem?_erase ..

@[simp] theorem getElem?_accessTokens_putAccessToken (tokenHash k : TokenHash) (session : Session) (expiresAt : Int) :
    (self.putAccessToken tokenHash session expiresAt).accessTokens[k]? =
      if tokenHash = k then some ⟨session, expiresAt⟩ else self.accessTokens[k]? :=
  OrdMap.getElem?_insert ..

@[simp] theorem getElem?_refreshTokens_putRefreshToken (tokenHash k : TokenHash) (session : Session) (expiresAt : Int) :
    (self.putRefreshToken tokenHash session expiresAt).refreshTokens[k]? =
      if tokenHash = k then some ⟨session, expiresAt, none⟩ else self.refreshTokens[k]? :=
  OrdMap.getElem?_insert ..

theorem isSome_revokedFamilies_revokeFamily (family k : Family) :
    ((self.revokeFamily family now).revokedFamilies[k]?).isSome =
      (decide (family = k) || (self.revokedFamilies[k]?).isSome) := by
  show ((self.revokedFamilies.insertIfNew family now)[k]?).isSome = _
  rw [ExtTreeMap.getElem?_insertIfNew]
  by_cases hk : family = k
  · subst hk
    by_cases hmem : family ∈ self.revokedFamilies
    · simp [hmem]
    · simp [hmem]
  · simp [hk]

theorem getElem?_accessTokens_revokeFamily (family : Family) (k : TokenHash) :
    (self.revokeFamily family now).accessTokens[k]? =
      (self.accessTokens[k]?).filter (fun row => row.session.family ≠ family) :=
  ExtTreeMap.getElem?_filter'

theorem getElem?_revokedFamilies_sweep (k : Family) :
    (self.sweep now).2.revokedFamilies[k]? = (self.revokedFamilies[k]?).filter
      (fun _ => presentable (self.sweep now).2.refreshTokens k) :=
  ExtTreeMap.getElem?_filter'

end Fields

/-! ## What a refresh token presented comes to -/

section Consume

variable {self : Server.SqliteStore} {tokenHash : TokenHash} {now : Int} {row : RefreshRow}

theorem consumeRefreshToken_unknown (h : self.refreshTokens[tokenHash]? = none) :
    self.consumeRefreshToken tokenHash now = (.rejected, self) := by
  unfold consumeRefreshToken
  rw [h]

theorem consumeRefreshToken_revoked (h : self.refreshTokens[tokenHash]? = some row)
    (hrevoked : (self.revokedFamilies[row.session.family]?).isSome = true) :
    self.consumeRefreshToken tokenHash now = (.rejected, self) := by
  unfold consumeRefreshToken
  simp only [h]
  rw [if_pos hrevoked]

variable (h : self.refreshTokens[tokenHash]? = some row)
  (hrevoked : (self.revokedFamilies[row.session.family]?).isSome = false)
include h hrevoked

theorem consumeRefreshToken_reused (hconsumed : row.consumedAt.isSome = true) :
    self.consumeRefreshToken tokenHash now =
      (.reuseDetected row.session, self.revokeFamily row.session.family now) := by
  unfold consumeRefreshToken
  simp only [h]
  rw [if_neg (by simp [hrevoked]), if_pos hconsumed]

theorem consumeRefreshToken_expired (hconsumed : row.consumedAt = none) (hexpired : row.expiresAt ≤ now) :
    self.consumeRefreshToken tokenHash now = (.rejected, self) := by
  unfold consumeRefreshToken
  simp only [h]
  rw [if_neg (by simp [hrevoked]), if_neg (by simp [hconsumed]), if_pos hexpired]

theorem consumeRefreshToken_rotated (hconsumed : row.consumedAt = none) (hlive : now < row.expiresAt) :
    self.consumeRefreshToken tokenHash now = (.rotated row.session,
      { self with refreshTokens := self.refreshTokens.insert tokenHash { row with consumedAt := some now } }) := by
  unfold consumeRefreshToken
  simp only [h]
  rw [if_neg (by simp [hrevoked]), if_neg (by simp [hconsumed]), if_neg (not_le.mpr hlive)]

end Consume

/-- What becomes of a refresh token that is presented. -/
inductive Consumed (s : Server.SqliteStore) (tokenHash : TokenHash) (now : Int) : RefreshOutcome → Server.SqliteStore → Prop
  | rejected : Consumed s tokenHash now .rejected s
  | reused {row : RefreshRow} : s.refreshTokens[tokenHash]? = some row →
      (s.revokedFamilies[row.session.family]?).isSome = false →
      Consumed s tokenHash now (.reuseDetected row.session) (s.revokeFamily row.session.family now)
  | rotated {row : RefreshRow} : s.refreshTokens[tokenHash]? = some row →
      (s.revokedFamilies[row.session.family]?).isSome = false →
      Consumed s tokenHash now (.rotated row.session)
        { s with refreshTokens := s.refreshTokens.insert tokenHash { row with consumedAt := some now } }

theorem consumed (s : Server.SqliteStore) (tokenHash : TokenHash) (now : Int) :
    Consumed s tokenHash now (s.consumeRefreshToken tokenHash now).1 (s.consumeRefreshToken tokenHash now).2 := by
  cases hrow : s.refreshTokens[tokenHash]? with
  | none =>
    rw [consumeRefreshToken_unknown hrow]
    exact .rejected
  | some row =>
    cases hrevoked : (s.revokedFamilies[row.session.family]?).isSome with
    | true =>
      rw [consumeRefreshToken_revoked hrow hrevoked]
      exact .rejected
    | false =>
      cases hconsumed : row.consumedAt with
      | some t =>
        rw [consumeRefreshToken_reused hrow hrevoked (by simp [hconsumed])]
        exact .reused hrow hrevoked
      | none =>
        by_cases hexpired : row.expiresAt ≤ now
        · rw [consumeRefreshToken_expired hrow hrevoked hconsumed hexpired]
          exact .rejected
        · rw [consumeRefreshToken_rotated hrow hrevoked hconsumed (not_le.mp hexpired)]
          exact .rotated hrow hrevoked

end Server.SqliteStore

/-! ## Calls -/

/-- A call of the trait, but for the clock reading it is made with. -/
inductive StoreCall where
  | putChallenge (nonceHash : TokenHash) (vaultId : VaultId) (deviceId : DeviceId) (expiresAt : Int)
  | takeChallenge (nonceHash : TokenHash)
  | device (vaultId : VaultId) (deviceId : DeviceId)
  | admitDevice (vaultId : VaultId) (deviceId : DeviceId) (ed25519Pub : ByteArr 32) (sponsor : Option DeviceId)
      (maxVaults : Option Nat)
  | putAccessToken (tokenHash : TokenHash) (session : Session) (expiresAt : Int)
  | accessToken (tokenHash : TokenHash)
  | putRefreshToken (tokenHash : TokenHash) (session : Session) (expiresAt : Int)
  | consumeRefreshToken (tokenHash : TokenHash)
  | revokeFamily (family : Family)
  | enrollBegin (enrollId : EnrollId) (x25519Pub : ByteArr 32) (enrollRequest : Bytes) (expiresAt : Int)
  | enrollTakeRequest (enrollId : EnrollId)
  | enrollComplete (enrollId : EnrollId) (sealedResponse : Bytes)
  | enrollTakeResponse (enrollId : EnrollId)
  | sweep
  deriving DecidableEq

/-- The calls of the enrollment relay. -/
def StoreCall.relays : StoreCall → Bool
  | enrollBegin _ _ _ _ | enrollTakeRequest _ | enrollComplete _ _ | enrollTakeResponse _ => true
  | _ => false

/-- What a call returns. -/
abbrev StoreCall.Answer : StoreCall → Type
  | takeChallenge _ => Option Challenge
  | device _ _ => Option (ByteArr 32)
  | admitDevice _ _ _ _ _ => Admission
  | accessToken _ => Option Session
  | consumeRefreshToken _ => RefreshOutcome
  | enrollBegin _ _ _ _ => EnrollBegin
  | enrollTakeRequest _ => EnrollRequest
  | enrollComplete _ _ => EnrollComplete
  | enrollTakeResponse _ => EnrollResponse
  | sweep => Swept
  | putChallenge _ _ _ _ | putAccessToken _ _ _ | putRefreshToken _ _ _ | revokeFamily _ => Unit

/-- A call and its answer. -/
abbrev StoreOutcome := (call : StoreCall) × call.Answer

instance : (call : StoreCall) → DecidableEq call.Answer
  | .takeChallenge _ => inferInstanceAs (DecidableEq (Option Challenge))
  | .device _ _ => inferInstanceAs (DecidableEq (Option (ByteArr 32)))
  | .admitDevice _ _ _ _ _ => inferInstanceAs (DecidableEq Admission)
  | .accessToken _ => inferInstanceAs (DecidableEq (Option Session))
  | .consumeRefreshToken _ => inferInstanceAs (DecidableEq RefreshOutcome)
  | .enrollBegin _ _ _ _ => inferInstanceAs (DecidableEq EnrollBegin)
  | .enrollTakeRequest _ => inferInstanceAs (DecidableEq EnrollRequest)
  | .enrollComplete _ _ => inferInstanceAs (DecidableEq EnrollComplete)
  | .enrollTakeResponse _ => inferInstanceAs (DecidableEq EnrollResponse)
  | .sweep => inferInstanceAs (DecidableEq Swept)
  | .putChallenge _ _ _ _ | .putAccessToken _ _ _ | .putRefreshToken _ _ _ | .revokeFamily _ =>
    inferInstanceAs (DecidableEq Unit)

/-- A call served. -/
def Server.SqliteStore.serve (now : Int) : (call : StoreCall) → Server.SqliteStore → call.Answer × Server.SqliteStore
  | .putChallenge nonceHash vaultId deviceId expiresAt, s => ((), s.putChallenge nonceHash vaultId deviceId expiresAt)
  | .takeChallenge nonceHash, s => s.takeChallenge nonceHash now
  | .device vaultId deviceId, s => (s.device vaultId deviceId, s)
  | .admitDevice vaultId deviceId ed25519Pub sponsor maxVaults, s =>
    s.admitDevice vaultId deviceId ed25519Pub sponsor now maxVaults
  | .putAccessToken tokenHash session expiresAt, s => ((), s.putAccessToken tokenHash session expiresAt)
  | .accessToken tokenHash, s => (s.accessToken tokenHash now, s)
  | .putRefreshToken tokenHash session expiresAt, s => ((), s.putRefreshToken tokenHash session expiresAt)
  | .consumeRefreshToken tokenHash, s => s.consumeRefreshToken tokenHash now
  | .revokeFamily family, s => ((), s.revokeFamily family now)
  | .enrollBegin enrollId x25519Pub enrollRequest expiresAt, s =>
    s.enrollBegin enrollId x25519Pub enrollRequest expiresAt now
  | .enrollTakeRequest enrollId, s => s.enrollTakeRequest enrollId now
  | .enrollComplete enrollId sealedResponse, s => s.enrollComplete enrollId sealedResponse now
  | .enrollTakeResponse enrollId, s => s.enrollTakeResponse enrollId now
  | .sweep, s => s.sweep now

namespace Server.SqliteStore

variable (s : Server.SqliteStore) (now : Int)

theorem serve_relays {call : StoreCall} (h : call.relays = true) :
    ∃ enrollments, (s.serve now call).2 = { s with enrollments := enrollments } := by
  cases call with
  | enrollBegin _ _ _ _ =>
    simp only [serve, enrollBegin]
    split
    · exact ⟨s.enrollments, rfl⟩
    · exact ⟨_, rfl⟩
  | enrollTakeRequest _ =>
    simp only [serve, enrollTakeRequest]
    repeat' split
    all_goals first | exact ⟨s.enrollments, rfl⟩ | exact ⟨_, rfl⟩
  | enrollComplete _ _ =>
    simp only [serve, enrollComplete]
    repeat' split
    all_goals first | exact ⟨s.enrollments, rfl⟩ | exact ⟨_, rfl⟩
  | enrollTakeResponse _ =>
    simp only [serve, enrollTakeResponse]
    repeat' split
    all_goals first | exact ⟨s.enrollments, rfl⟩ | exact ⟨_, rfl⟩
  | _ => cases h

theorem serve_admitDevice (vaultId : VaultId) (deviceId : DeviceId) (key : ByteArr 32) (sponsor : Option DeviceId)
    (maxVaults : Option Nat) : ∃ vaults devices,
      (s.serve now (.admitDevice vaultId deviceId key sponsor maxVaults)).2 =
        { s with vaults := vaults, devices := devices } := by
  simp only [serve, admitDevice]
  repeat' split
  all_goals first | exact ⟨s.vaults, s.devices, rfl⟩ | exact ⟨_, _, rfl⟩

end Server.SqliteStore

end Misty
