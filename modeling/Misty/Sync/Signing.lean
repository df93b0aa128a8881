import Misty.Crypto.Canonical
import Misty.Crypto.Enrollment
import Misty.Crypto.Sealing
import Misty.Server.Auth
import Misty.Sync.Time

/- All that is signed, as one family of messages.

   What is proved:
     1. `Context.eq_of_append` — no context is the beginning of another, so that what
        follows it does not matter.
     2. `Signed.message_inj` — a message says which kind it is and all it was made of, but
        for the signature it is signed with.
     3. the client and the server build the same bytes for a challenge and for a time.

   Correspondence (Rust ↔ Lean):
     `misty-sync`: `client::auth_signing_bytes` ↔ `SyncClient.authSigningBytes`
     `misty-server`: `time_key::time_payload`   ↔ `Server.timePayload`
     the other side of each                     ↔ `authPayload`, `timeSigningBytes` -/
namespace Misty

open Framing

/-! ## The other side -/

def SyncClient.AUTH_SIGNING_CONTEXT : Bytes := asciiBytes "misty/server/auth/v1"

def SyncClient.authSigningBytes (vault : VaultId) (device : DeviceId) (nonce : Bytes) : Bytes :=
  SyncClient.AUTH_SIGNING_CONTEXT ++ vault.bytes.val ++ device.bytes.val ++
    toLe 4 (min nonce.length (2 ^ 32 - 1)) ++ nonce

def Server.TIME_SIGNING_CONTEXT : Bytes := asciiBytes "misty/time/v1"

def Server.timePayload (nonce : Bytes) (unixMs : I64) : Bytes :=
  Server.TIME_SIGNING_CONTEXT ++ toLe 4 (min nonce.length (2 ^ 32 - 1)) ++ nonce ++ unixMs.toLeBytes

/-! ## Contexts -/

/-- What a message begins with. -/
inductive Context where
  | roster
  | request
  | grant
  | auth
  | time
  | envelope
  deriving DecidableEq

def Context.bytes : Context → Bytes
  | roster => asciiBytes "misty/roster/v1"
  | request => REQUEST_CONTEXT
  | grant => SEAL_CONTEXT
  | auth => AUTH_SIGNING_CONTEXT
  | time => TIME_SIGNING_CONTEXT
  | envelope => ENVELOPE_MAGIC

theorem Context.eq_of_prefix {c d : Context} (h : c.bytes <+: d.bytes) : c = d := by
  revert h
  cases c <;> cases d <;> decide

theorem Context.eq_of_append {c d : Context} {s t : Bytes} (h : c.bytes ++ s = d.bytes ++ t) : c = d := by
  have hc : c.bytes <+: d.bytes ++ t := ⟨s, h⟩
  rcases List.prefix_or_prefix_of_prefix hc (List.prefix_append d.bytes t) with hcd | hdc
  · exact Context.eq_of_prefix hcd
  · exact (Context.eq_of_prefix hdc).symm

/-! ## What is signed -/

/-- A message, by what it is made of. -/
inductive Signed where
  | roster (devices : Roster) (signer : DeviceId)
  | request (asked : EnrollmentRequest)
  | grant (sealed : SealedEnrollment)
  | auth (vaultId : VaultId) (deviceId : DeviceId) (nonce : Bytes)
  | time (nonce : Bytes) (unixMs : I64)
  | envelope (env : Envelope) (itemId : ItemId)

namespace Signed

def context : Signed → Context
  | roster _ _ => .roster
  | request _ => .request
  | grant _ => .grant
  | auth _ _ _ => .auth
  | time _ _ => .time
  | envelope _ _ => .envelope

/-- The bytes. -/
def message : Signed → Bytes
  | roster devices signer => devices.signingBytes signer
  | request asked => asked.canonicalBytes
  | grant sealed => sealed.signedMessage
  | auth vaultId deviceId nonce => authPayload vaultId deviceId nonce
  | time nonce unixMs => timeSigningBytes nonce unixMs
  | envelope env itemId => env.signedMessage itemId

/-- What is checked before it is signed. -/
def Valid (P : Primitives) : Signed → Prop
  | roster devices _ => devices.validate P = .ok ()
  | request asked => asked.validate = .ok ()
  | envelope env _ => env.Formed
  | grant _ | auth _ _ _ | time _ _ => True

/-- All but the signature. -/
def unsigned : Signed → Signed
  | roster devices signer => .roster ⟨devices.devices, none, none⟩ signer
  | grant sealed => .grant { sealed with signature := .repeated 64 0 }
  | envelope env itemId => .envelope { env with signature := [] } itemId
  | signed => signed

end Signed

/-! ## What a message says -/

/-- The nonce goes to the end, whatever its length says. -/
theorem authPayload_inj {v w : VaultId} {d e : DeviceId} {m n : Bytes} (h : authPayload v d m = authPayload w e n) :
    v = w ∧ d = e ∧ m = n := by
  simp only [authPayload, List.append_assoc] at h
  have hvaults := List.append_cancel_left h
  obtain ⟨hvault, hdevices⟩ := (delimits_byteArr 16).inj trivial trivial hvaults
  obtain ⟨hdevice, hnonces⟩ := delimits_deviceId.inj trivial trivial hdevices
  obtain ⟨-, hnonce⟩ := List.append_inj hnonces (by rw [length_toLe, length_toLe])
  refine ⟨?_, hdevice, hnonce⟩
  cases v
  cases w
  simp_all

/-- The time is the last eight bytes, so the nonces are as long as each other. -/
theorem timeSigningBytes_inj {m n : Bytes} {x y : I64} (h : timeSigningBytes m x = timeSigningBytes n y) :
    m = n ∧ x = y := by
  have hlen := congrArg List.length h
  simp only [timeSigningBytes, I64.toLeBytes, List.length_append, length_toLe] at hlen
  simp only [timeSigningBytes, List.append_assoc] at h
  obtain ⟨-, hnonces⟩ := List.append_inj (List.append_cancel_left h) (by rw [length_toLe, length_toLe])
  obtain ⟨hnonce, htime⟩ := List.append_inj hnonces (by omega)
  obtain ⟨hsame, -⟩ := delimits_i64.inj (s := []) (t := []) trivial trivial (congrArg (· ++ []) htime)
  exact ⟨hnonce, hsame⟩

namespace Signed

theorem context_prefix (a : Signed) {P : Primitives} (h : a.Valid P) : a.context.bytes <+: a.message := by
  cases a with
  | roster devices signer =>
    simp only [message, context, Context.bytes, Roster.signingBytes, List.append_assoc]
    exact List.prefix_append _ _
  | request asked =>
    simp only [message, context, Context.bytes, EnrollmentRequest.canonicalBytes, List.append_assoc]
    exact List.prefix_append _ _
  | grant sealed =>
    simp only [message, context, Context.bytes, SealedEnrollment.signedMessage, SealedEnrollment.aad, sealAad,
      List.append_assoc]
    exact List.prefix_append _ _
  | auth vaultId deviceId nonce =>
    simp only [message, context, Context.bytes, authPayload, List.append_assoc]
    exact List.prefix_append _ _
  | time nonce unixMs =>
    simp only [message, context, Context.bytes, timeSigningBytes, List.append_assoc]
    exact List.prefix_append _ _
  | envelope env itemId =>
    have hformed : env.Formed := h
    simp only [message, context, Context.bytes, Envelope.signedMessage, Envelope.aad, hformed.header, Header.toBytes,
      List.append_assoc]
    exact List.prefix_append _ _

theorem context_eq {P : Primitives} {a b : Signed} (ha : a.Valid P) (hb : b.Valid P) (h : a.message = b.message) :
    a.context = b.context := by
  obtain ⟨s, hs⟩ := a.context_prefix ha
  obtain ⟨t, ht⟩ := b.context_prefix hb
  exact Context.eq_of_append (hs.trans (h.trans ht.symm))

end Signed

/-- A signed message says its kind and, but for the signature, what it was made of; the client and the server agree on the
two they exchange. -/
theorem signed_messages (P : Primitives) :
    (∀ a b : Signed, a.Valid P → b.Valid P → a.message = b.message → a.context = b.context ∧ a.unsigned = b.unsigned) ∧
      SyncClient.authSigningBytes = authPayload ∧ timeSigningBytes = Server.timePayload := by
  refine ⟨?_, rfl, rfl⟩
  intro a b ha hb h
  have hcontext := Signed.context_eq ha hb h
  refine ⟨hcontext, ?_⟩
  -- the context is fixed, so the other message is of the same form
  cases a with
  | roster devices signer =>
    cases b with
    | roster devices' signer' =>
      obtain ⟨hdevices, rfl⟩ := Roster.signingBytes_inj ha hb h
      simp only [Signed.unsigned, hdevices]
    | _ => cases hcontext
  | request asked =>
    cases b with
    | request asked' => exact congrArg Signed.request (EnrollmentRequest.canonicalBytes_inj ha hb h)
    | _ => cases hcontext
  | grant sealed =>
    cases b with
    | grant sealed' =>
      obtain ⟨hid, hdevice, happrover, hnew, hnonce, hciphertext⟩ := SealedEnrollment.signedMessage_inj h
      simp only [Signed.unsigned, hid, hdevice, happrover, hnew, hnonce, hciphertext]
    | _ => cases hcontext
  | auth vaultId deviceId nonce =>
    cases b with
    | auth vaultId' deviceId' nonce' =>
      obtain ⟨rfl, rfl, rfl⟩ := authPayload_inj h
      rfl
    | _ => cases hcontext
  | time nonce unixMs =>
    cases b with
    | time nonce' unixMs' =>
      obtain ⟨rfl, rfl⟩ := timeSigningBytes_inj h
      rfl
    | _ => cases hcontext
  | envelope env itemId =>
    cases b with
    | envelope env' itemId' =>
      obtain ⟨hheader, rfl, hwrapped, hciphertext⟩ := Envelope.signedMessage_inj ha hb h
      have hsame : env.header = env'.header := by
        refine Header.toBytes_inj ?_
        rw [← Envelope.Formed.header ha, hheader, Envelope.Formed.header hb]
      simp only [Signed.unsigned, hsame, hheader, hwrapped, hciphertext]
    | _ => cases hcontext

/-- The message of a roster is the one of the roster that names its signer. -/
theorem signed_messages_alone :
    (Signed.roster Roster.alone DeviceIdentity.alone.deviceId).unsigned =
      (Signed.roster { Roster.alone with signedBy := some DeviceIdentity.alone.deviceId }
        DeviceIdentity.alone.deviceId).unsigned :=
  ((signed_messages Primitives.sample).1 (.roster Roster.alone DeviceIdentity.alone.deviceId)
    (.roster { Roster.alone with signedBy := some DeviceIdentity.alone.deviceId } DeviceIdentity.alone.deviceId)
    rfl rfl rfl).2

end Misty
