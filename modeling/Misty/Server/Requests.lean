import Misty.Server.Auth

/- Requests at work. A state is a world and the handlers that run in it, one for each
   request that arrived, by its place. A step answers one call of one handler, lets a
   request arrive or be given up, sweeps, revokes a family from outside a request, or lets
   time pass. Any two handlers interleave call by call.

   The clock does not go back, but a handler reads it before it calls the store, so the
   readings the store is given may come in any order. A random value is one that was not
   drawn before. -/
namespace Misty

/-- Reuse of a token of the family is detected, or the family is revoked outright. -/
def revokes (family : Family) : StoreOutcome → Bool
  | ⟨.revokeFamily revoked, _⟩ => revoked = family
  | ⟨.consumeRefreshToken _, outcome⟩ =>
    match (outcome : RefreshOutcome) with
    | .reuseDetected session => session.family = family
    | _ => false
  | _ => false

/-- The store, the clock, and what has happened: who drew a value, the requests that arrived, and what the store
answered, the newest first. -/
structure AuthWorld where
  store : Server.SqliteStore
  clock : Int
  owner : Bytes → Option Nat
  received : Set AuthRequest
  log : List StoreOutcome

namespace AuthWorld

def new : AuthWorld := ⟨.new, 0, fun _ => none, ∅, []⟩

/-- A value drawn by the handler at a place. -/
def draw (self : AuthWorld) (i : Nat) (value : Bytes) : AuthWorld :=
  { self with owner := Function.update self.owner value (some i) }

/-- A call of the store, and its answer in the log. -/
def run (self : AuthWorld) (now : Int) (call : StoreCall) : AuthWorld :=
  { self with
    store := (self.store.serve now call).2
    log := ⟨call, (self.store.serve now call).1⟩ :: self.log }

/-- A family that was revoked. -/
def revoked (self : AuthWorld) (family : Family) : Bool := self.log.any (revokes family)

end AuthWorld

/-- A handler at work. -/
abbrev Thread := Calls AuthQuery AuthQuery.Answer ApiError Unit AuthReply

/-- How a call of the handler at a place is answered. -/
inductive Answered (i : Nat) : (q : AuthQuery) → AuthWorld → q.Answer → AuthWorld → Prop
  | checkVault (vaultId : VaultId) (w : AuthWorld) (ok : Bool) : Answered i (.checkVault vaultId) w ok w
  | randomArray {n : Nat} {w : AuthWorld} (value : ByteArr n) : w.owner value.val = none →
      Answered i (.randomArray n) w value (w.draw i value.val)
  | nowUnixMs (w : AuthWorld) : Answered i .nowUnixMs w w.clock w
  | store (now : Int) (call : StoreCall) (w : AuthWorld) :
      Answered i (.store now call) w (w.store.serve now call).1 (w.run now call)

/-- The calls a run may answer. -/
abbrev AuthPermit := AuthWorld → AuthQuery → Bool

/-- All of them. -/
def AuthPermit.all : AuthPermit := fun _ _ => true

/-- What no handler does: a request arrives, the tables are swept or a family revoked, time passes. -/
inductive AuthMove : AuthWorld → AuthWorld → Prop
  | received {w : AuthWorld} (request : AuthRequest) : AuthMove w { w with received := insert request w.received }
  | swept {w : AuthWorld} (now : Int) : now ≤ w.clock → AuthMove w (w.run now .sweep)
  | revoked {w : AuthWorld} (family : Family) (now : Int) : AuthMove w (w.run now (.revokeFamily family))
  | ticked {w : AuthWorld} {clock : Int} : w.clock ≤ clock → AuthMove w { w with clock := clock }

variable (config : AuthConfig) (P : AuthPrims) (C : AuthPermit)

/-- One step. -/
inductive AuthStep : AuthWorld × List Thread → AuthWorld × List Thread → Prop
  | arrived {w : AuthWorld} {pool : List Thread} (request : AuthRequest) :
      AuthStep (w, pool)
        ({ w with received := insert request w.received }, pool ++ [handle config P request ()])
  | answered {w w' : AuthWorld} {pool : List Thread} {i : Nat} {q : AuthQuery} {s : Unit} {k : q.Answer → Thread}
      {a : q.Answer} : pool[i]? = some (.call q s k) → Answered i q w a w' → C w q = true →
      AuthStep (w, pool) (w', pool.set i (k a))
  | dropped {w : AuthWorld} {pool : List Thread} (i : Nat) :
      AuthStep (w, pool) (w, pool.set i (.error .internal ()))
  | moved {w w' : AuthWorld} {pool : List Thread} : AuthMove w w' → AuthStep (w, pool) (w', pool)

/-- Any run, from empty tables. -/
def AuthRun (x : AuthWorld × List Thread) : Prop := Relation.ReflTransGen (AuthStep config P C) (.new, []) x

variable {config P C}

theorem AuthStep.world {x x' : AuthWorld × List Thread} (h : AuthStep config P C x x') :
    x'.1 = x.1 ∨ (∃ i q a, Answered i q x.1 a x'.1 ∧ C x.1 q = true) ∨ AuthMove x.1 x'.1 := by
  cases h with
  | arrived request => exact .inr (.inr (.received request))
  | answered _ ht hc => exact .inr (.inl ⟨_, _, _, ht, hc⟩)
  | dropped i => exact .inl rfl
  | moved hm => exact .inr (.inr hm)

/-! ## Schedules -/

/-- What happens next: a request arrives, a handler is answered (a random value is this byte throughout), the tables
are swept, time passes. -/
inductive AuthAct where
  | request (request : AuthRequest)
  | answer (i : Nat) (value : Byte)
  | sweep
  | tick (ms : Nat)

/-- The answer, when the value is fresh. -/
def answerOf (i : Nat) (value : Byte) : (q : AuthQuery) → AuthWorld → Option (q.Answer × AuthWorld)
  | .checkVault _, w => some (true, w)
  | .randomArray n, w =>
    if w.owner (ByteArr.repeated n value).val = none then
      some (ByteArr.repeated n value, w.draw i (ByteArr.repeated n value).val)
    else none
  | .nowUnixMs, w => some (w.clock, w)
  | .store now call, w => some ((w.store.serve now call).1, w.run now call)

variable (config P C)

/-- One act, where it is a step. -/
def AuthAct.play (x : AuthWorld × List Thread) : AuthAct → Option (AuthWorld × List Thread)
  | request r => some ({ x.1 with received := insert r x.1.received }, x.2 ++ [handle config P r ()])
  | answer i value =>
    match x.2[i]? with
    | some (.call q _ k) =>
      if C x.1 q then (answerOf i value q x.1).map (fun r => (r.2, x.2.set i (k r.1))) else none
    | _ => none
  | sweep => some (x.1.run x.1.clock .sweep, x.2)
  | tick ms => some ({ x.1 with clock := x.1.clock + ms }, x.2)

/-- A schedule played from a state. -/
def playAll (x : AuthWorld × List Thread) : List AuthAct → Option (AuthWorld × List Thread)
  | [] => some x
  | act :: rest => (act.play config P C x).bind (fun x => playAll x rest)

variable {config P C}

theorem answered_of_answerOf {i : Nat} {value : Byte} {q : AuthQuery} {w w' : AuthWorld} {a : q.Answer}
    (h : answerOf i value q w = some (a, w')) : Answered i q w a w' := by
  cases q with
  | checkVault vaultId =>
    cases h
    exact .checkVault _ _ _
  | randomArray n =>
    simp only [answerOf] at h
    split at h
    · next hfresh =>
      cases h
      exact .randomArray _ hfresh
    · cases h
  | nowUnixMs =>
    cases h
    exact .nowUnixMs _
  | store now call =>
    cases h
    exact .store _ _ _

theorem AuthAct.step {x x' : AuthWorld × List Thread} {act : AuthAct} (h : act.play config P C x = some x') :
    AuthStep config P C x x' := by
  obtain ⟨w, pool⟩ := x
  cases act with
  | request r =>
    cases h
    exact .arrived r
  | answer i value =>
    simp only [play] at h
    split at h
    · next q s k hi =>
      split at h
      · next hc =>
        obtain ⟨⟨a, w'⟩, ha, heq⟩ := Option.map_eq_some_iff.mp h
        cases heq
        exact .answered hi (answered_of_answerOf ha) hc
      · cases h
    · cases h
  | sweep =>
    cases h
    exact .moved (.swept _ (le_refl _))
  | tick ms =>
    cases h
    have hlater : w.clock ≤ w.clock + ms := by omega
    exact .moved (.ticked hlater)

theorem run_playAll : ∀ {acts : List AuthAct} {x x' : AuthWorld × List Thread},
    playAll config P C x acts = some x' → Relation.ReflTransGen (AuthStep config P C) x x'
  | [], _, _, h => by
    cases h
    exact .refl
  | act :: rest, x, x', h => by
    obtain ⟨y, hy, hrest⟩ := Option.bind_eq_some_iff.mp h
    exact .head (AuthAct.step hy) (run_playAll hrest)

/-- Signatures that say who signed what: enough of it to tell the ones of a schedule apart. -/
def AuthPrims.sample : AuthPrims where
  ed25519 :=
    { aeadEncrypt := fun _ _ _ _ => none
      aeadDecrypt := fun _ _ _ _ => none
      publicOf := id
      sign := fun secret message => ⟨(secret.val ++ message.reverse ++ List.replicate 64 0).take 64, by simp; omega⟩
      validKey := fun _ => true
      verifyStrict := fun key message signature =>
        signature.val = (key.val ++ message.reverse ++ List.replicate 64 0).take 64
      hkdf := fun _ _ _ n => .repeated n 0 }
  blake2b := fun bytes => ⟨(bytes ++ List.replicate 32 0).take 32, by simp⟩

def AuthConfig.sample : AuthConfig := ⟨60000, 900000, 2592000000, none, none⟩

/-- The first device of a vault answers the challenge with nonce 1. -/
def firstVerify : VerifyRequest :=
  let vault : VaultId := ⟨.repeated 16 1⟩
  let device : DeviceId := ⟨.repeated 16 2⟩
  let key : ByteArr 32 := .repeated 32 9
  let nonce : Bytes := (ByteArr.repeated 32 1).val
  ⟨vault, device, some nonce, some (AuthPrims.sample.ed25519.sign key (authPayload vault device nonce)),
    some (some key), []⟩

/-- It takes a challenge and verifies, and gets tokens 3 and 4 of family 2. -/
def signIn : List AuthAct :=
  [.request (.challenge firstVerify.vaultId firstVerify.deviceId), .answer 0 0, .answer 0 1, .answer 0 0, .answer 0 0,
    .request (.verify firstVerify), .answer 1 0, .answer 1 0, .answer 1 0, .answer 1 0, .answer 1 0, .answer 1 2,
    .answer 1 3, .answer 1 4, .answer 1 0, .answer 1 0, .answer 1 0]

end Misty
