import Misty.Crypto.Identity
import Misty.Lib.Calls
import Misty.Server.Routes
import Misty.Server.Tables

/- Authentication: the routes over the tables of `Server.Tables`. A handler is a program
   that calls the rate limiter, the random number generator, the clock and the store, and
   between two calls every other request may make its own.

   Correspondence (Rust ↔ Lean):
     `token::TokenHash::of`                    ↔ `tokenHash`, over the BLAKE2b parameter
     `auth::{auth_payload, verify_signature, check_registration}` ↔ the same names
     `auth::{challenge, verify, refresh, add_device, issue}` ↔ the same names
     `Authenticated::from_request_parts`, `for_vault` ↔ `authenticated`, `forVault`
     `limiter.check_vault`, `random_array`, `now_unix_ms`, `blocking(store.…)` ↔ `AuthQuery`
   A request's fields arrive decoded, `none` where the text is malformed. A generator or a
   store that fails ends the request, as a client that hangs up does. -/
namespace Misty

/-! ## Calls -/

/-- What a handler calls. -/
inductive AuthQuery where
  | checkVault (vaultId : VaultId)
  | randomArray (n : Nat)
  | nowUnixMs
  | store (now : Int) (call : StoreCall)

/-- What it is answered: the limiter lets the request through or not. -/
abbrev AuthQuery.Answer : AuthQuery → Type
  | checkVault _ => Bool
  | randomArray n => ByteArr n
  | nowUnixMs => Int
  | store _ call => call.Answer

/-- A handler. It keeps nothing of its own. -/
abbrev Auth := Prog AuthQuery AuthQuery.Answer ApiError Unit

/-- `config::Config`, what these routes read of it. The lifetimes are in milliseconds. -/
structure AuthConfig where
  challengeTtl : Nat
  accessTokenTtl : Nat
  refreshTokenTtl : Nat
  registrationToken : Option Text
  maxVaults : Option Nat

/-- What the routes take from their dependencies: Ed25519, and BLAKE2b under the domain of tokens. -/
structure AuthPrims where
  ed25519 : Primitives
  blake2b : Bytes → ByteArr 32

def ttlMs (ttl : Nat) : Int := min ttl (2 ^ 63 - 1)

/-- `i64::saturating_add`, of a clock reading and a lifetime. -/
def expiry (now : Int) (ttl : Nat) : Int := min (now + ttlMs ttl) (2 ^ 63 - 1)

/-- Domain separator for challenge signatures. -/
def AUTH_SIGNING_CONTEXT : Bytes := asciiBytes "misty/server/auth/v1"

/-- `auth_payload`: the bytes a device signs. -/
def authPayload (vaultId : VaultId) (deviceId : DeviceId) (nonce : Bytes) : Bytes :=
  AUTH_SIGNING_CONTEXT ++ vaultId.bytes.val ++ deviceId.bytes.val ++
    toLe 4 (min nonce.length (2 ^ 32 - 1)) ++ nonce

variable (config : AuthConfig) (P : AuthPrims)

/-- `TokenHash::of`. -/
def tokenHash (bytes : Bytes) : TokenHash := ⟨P.blake2b bytes⟩

/-- `verify_signature`: the key parses and the signature is good. -/
def verifySignature (publicKey : ByteArr 32) (vaultId : VaultId) (deviceId : DeviceId) (nonce : Bytes)
    (signature : ByteArr 64) : Bool :=
  P.ed25519.validKey publicKey && P.ed25519.verifyStrict publicKey (authPayload vaultId deviceId nonce) signature

/-- `check_registration`, of the registration header. -/
def checkRegistration (presented : Text) : Bool := config.registrationToken.all (fun expected => presented = expected)

/-! ## Requests -/

/-- `VerifyRequest`, and the registration header. -/
structure VerifyRequest where
  vaultId : VaultId
  deviceId : DeviceId
  nonce : Option Bytes
  sig : Option (ByteArr 64)
  ed25519Pub : Option (Option (ByteArr 32))
  registration : Text

/-- A request to the routes that make or read sessions; `authenticated` stands for every other route behind a token. -/
inductive AuthRequest where
  | challenge (vaultId : VaultId) (deviceId : DeviceId)
  | verify (request : VerifyRequest)
  | refresh (refreshToken : Option (ByteArr 32))
  | addDevice (vault : Option VaultId) (token : Option (ByteArr 32)) (deviceId : DeviceId)
      (ed25519Pub : Option (ByteArr 32))
  | authenticated (token : Option (ByteArr 32))

/-- What a request that succeeds is answered. -/
inductive AuthReply where
  | challenge (nonce : ByteArr 32) (expiresAt : Int)
  | token (accessToken refreshToken : ByteArr 32) (expiresIn : Nat) (vaultId : VaultId) (deviceId : DeviceId)
  | device (deviceId : DeviceId) (created : Bool)
  | session (session : Session)

/-! ## Handlers -/

def randomArray (n : Nat) : Auth (ByteArr n) := Prog.call (AuthQuery.randomArray n)

def nowUnixMs : Auth Int := Prog.call AuthQuery.nowUnixMs

/-- `blocking`, of one call of the store. -/
def blocking (now : Int) (call : StoreCall) : Auth call.Answer := Prog.call (AuthQuery.store now call)

/-- `state.limiter.check_vault(..)?`. -/
def limited (vaultId : VaultId) : Auth Unit := do
  let ok : Bool ← Prog.call (AuthQuery.checkVault vaultId)
  if ok = false then throw .rateLimited

/-- A field that must be well formed. -/
def orFail {α : Type} (error : ApiError) : Option α → Auth α
  | some a => pure a
  | none => throw error

def challenge (vaultId : VaultId) (deviceId : DeviceId) : Auth AuthReply := do
  limited vaultId
  let nonce ← randomArray 32
  let now ← nowUnixMs
  let expiresAt := expiry now config.challengeTtl
  blocking now (.putChallenge (tokenHash P nonce.val) vaultId deviceId expiresAt)
  return .challenge nonce expiresAt

def issue (session : Session) : Auth AuthReply := do
  let access ← randomArray 32
  let refresh ← randomArray 32
  let now ← nowUnixMs
  blocking now (.putAccessToken (tokenHash P access.val) session (expiry now config.accessTokenTtl))
  blocking now (.putRefreshToken (tokenHash P refresh.val) session (expiry now config.refreshTokenTtl))
  return .token access refresh (config.accessTokenTtl / 1000) session.vaultId session.deviceId

/-- The key a device authenticates with: the stored one, which a presented one must equal. -/
def publicKeyOf (known : Option (ByteArr 32)) (presented : Option (Option (ByteArr 32))) : Except ApiError (ByteArr 32) :=
  match known, presented with
  | some key, none => .ok key
  | some key, some (some presented) => if presented = key then .ok key else .error .unauthorized
  | none, some (some presented) => .ok presented
  | _, some none => .error .badRequest
  | none, none => .error .badRequest

/-- What `verify` does for a device the server has not seen: admission, not authentication. -/
def admitBootstrap (request : VerifyRequest) (publicKey : ByteArr 32) (now : Int) : Auth Unit := do
  if checkRegistration config request.registration = false then throw .forbidden
  let admission : Admission ← blocking now (.admitDevice request.vaultId request.deviceId publicKey none config.maxVaults)
  match admission with
  | .bootstrapped | .alreadyPresent | .admitted => pure ()
  | .keyMismatch => throw .unauthorized
  -- Admission is an existing device's decision, never the server's.
  | .needsSponsor => throw .forbidden
  | .vaultLimit => throw .quotaExceeded

def verify (request : VerifyRequest) : Auth AuthReply := do
  limited request.vaultId
  let nonce ← orFail .badRequest request.nonce
  let signature ← orFail .badRequest request.sig
  let now ← nowUnixMs
  -- Consumed first, and consumed whatever happens next.
  let taken : Option Challenge ← blocking now (.takeChallenge (tokenHash P nonce))
  let challenge ← orFail .unauthorized taken
  if challenge.vaultId ≠ request.vaultId ∨ challenge.deviceId ≠ request.deviceId then throw .unauthorized
  let known : Option (ByteArr 32) ← blocking now (.device request.vaultId request.deviceId)
  let publicKey ← Prog.ofExcept (publicKeyOf known request.ed25519Pub)
  if verifySignature P publicKey request.vaultId request.deviceId nonce signature = false then throw .unauthorized
  if known.isNone then admitBootstrap config request publicKey now
  let family ← randomArray 16
  issue config P ⟨request.vaultId, request.deviceId, ⟨family⟩⟩

def refresh (refreshToken : Option (ByteArr 32)) : Auth AuthReply := do
  let token ← orFail .unauthorized refreshToken
  let now ← nowUnixMs
  let outcome : RefreshOutcome ← blocking now (.consumeRefreshToken (tokenHash P token.val))
  match outcome with
  | .rotated session =>
    limited session.vaultId
    issue config P session
  | .reuseDetected _ | .rejected => throw .unauthorized

/-- `Authenticated::from_request_parts`. -/
def authenticated (token : Option (ByteArr 32)) : Auth Session := do
  let token ← orFail .unauthorized token
  let now ← nowUnixMs
  let found : Option Session ← blocking now (.accessToken (tokenHash P token.val))
  let session ← orFail .unauthorized found
  limited session.vaultId
  return session

/-- `Authenticated::for_vault`. -/
def forVault (session : Session) (vaultId : VaultId) : Except ApiError Session :=
  if session.vaultId ≠ vaultId then .error .forbidden else .ok session

def addDevice (vault : Option VaultId) (token : Option (ByteArr 32)) (deviceId : DeviceId)
    (ed25519Pub : Option (ByteArr 32)) : Auth AuthReply := do
  let session ← authenticated P token
  let vaultId ← orFail .badRequest vault
  let sponsor ← Prog.ofExcept (forVault session vaultId)
  let publicKey ← orFail .badRequest ed25519Pub
  let now ← nowUnixMs
  let admission : Admission ← blocking now (.admitDevice vaultId deviceId publicKey (some sponsor.deviceId) none)
  match admission with
  | .admitted | .bootstrapped => return .device deviceId true
  | .alreadyPresent => return .device deviceId false
  | .keyMismatch => throw (.alreadyExists "device")
  | .needsSponsor | .vaultLimit => throw .forbidden

/-- A request's handler. -/
def handle : AuthRequest → Auth AuthReply
  | .challenge vaultId deviceId => challenge config P vaultId deviceId
  | .verify request => verify config P request
  | .refresh refreshToken => refresh config P refreshToken
  | .addDevice vault token deviceId ed25519Pub => addDevice P vault token deviceId ed25519Pub
  | .authenticated token => do
    let session ← authenticated P token
    return .session session

end Misty
