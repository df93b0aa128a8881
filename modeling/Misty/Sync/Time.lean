import Misty.Crypto.Identity
import Misty.Lib.Exec
import Misty.Sync.Wire

/- Time drift: what the client keeps of the server's clock, and which readings it takes.

   What is proved:
     1. `never_walked_back_iff` — the samples a client accepts stay within the tolerance of
        every one accepted before exactly when no reading falls into the gap that opens
        once the previous sample is itself below the highest one.
     2. `accepted_fall` — how far a server can walk a client back: the tolerance, once for
        each sample accepted.
     3. `server_time_walked_back` — thirty-one answers walk it back by a whole TOTP step.

   Correspondence (Rust ↔ Lean):
     `time::{time_signing_bytes, verify_time}`  ↔ `timeSigningBytes`, `verifyTime`
     `state::TimeSample`, `time::DriftTracker`  ↔ `TimeSample`, `DriftTracker`
     `SyncEngine::measure_time`                 ↔ `measureTime`, over the answer `signed_time`
       gave and whether the state was saved -/
namespace Misty

def TIME_SIGNING_CONTEXT : Bytes := asciiBytes "misty/time/v1"
def BACKWARDS_TOLERANCE_MS : I64 := ⟨1000, by decide⟩
def TIME_NONCE_LEN : Nat := 32

/-- The backwards step that lets a consumed TOTP code validate again. -/
def REPLAY_MS : Int := 30000

/-! ## What is signed -/

def I64.toLeBytes (z : I64) : Bytes := toLe 8 (z.val % 2 ^ 64).toNat

def timeSigningBytes (nonce : Bytes) (unixMs : I64) : Bytes :=
  TIME_SIGNING_CONTEXT ++ toLe 4 (min nonce.length (2 ^ 32 - 1)) ++ nonce ++ unixMs.toLeBytes

def verifyDetached (P : Primitives) (publicKey : ByteArr 32) (message : Bytes) (signature : ByteArr 64)
    (onFailure : SyncError) : Except SyncError Unit :=
  if P.validKey publicKey = false then .error onFailure
  else if P.verifyStrict publicKey message signature = false then .error onFailure
  else .ok ()

def verifyTime (P : Primitives) (serverPublicKey : ByteArr 32) (sentNonce : ByteArr TIME_NONCE_LEN)
    (echoedNonce : Bytes) (unixMs : I64) (signature : ByteArr 64) : Except SyncError Unit :=
  if echoedNonce ≠ sentNonce.val then .error .timeNonceMismatch
  else verifyDetached P serverPublicKey (timeSigningBytes sentNonce.val unixMs) signature .timeSignatureInvalid

/-! ## What is kept -/

structure TimeSample where
  measuredAtMs : I64
  serverMs : I64
  offsetMs : I64
  deriving DecidableEq

structure DriftTracker where
  previous : Option TimeSample

def DriftTracker.accept (self : DriftTracker) (localNowMs serverMs : I64) : Except SyncError TimeSample :=
  let sample : TimeSample := ⟨localNowMs, serverMs, I64.saturatingSub serverMs localNowMs⟩
  match self.previous with
  | some previous =>
    if serverMs.val < (I64.saturatingSub previous.serverMs BACKWARDS_TOLERANCE_MS).val then
      .error (.timeWentBackwards serverMs previous.serverMs)
    else .ok sample
  | none => .ok sample

/-- `i64::try_from(..).unwrap_or(i64::MAX)`. -/
def I64.ofU64 (n : U64) : I64 := I64.saturate n.val

/-- `SyncEngine::measure_time`, on the time the state holds. -/
def measureTime (nowUnixMs : U64) (signedTime : Except SyncError I64) (saved : Except SyncError Unit) :
    EStateM SyncError (Option TimeSample) TimeSample := do
  match signedTime with
  | .error e => throw e
  | .ok serverMs =>
    match (DriftTracker.mk (← get)).accept (I64.ofU64 nowUnixMs) serverMs with
    | .error e => throw e
    | .ok sample =>
      set (some sample)
      match saved with
      | .error e => throw e
      | .ok () => return sample

/-! ## Readings, one after another -/

/-- What one answer offers. -/
structure Reading where
  localMs : I64
  serverMs : I64
  deriving DecidableEq

/-- The sample held, and those accepted so far, the newest first. -/
structure Tracking where
  previous : Option TimeSample
  accepted : List TimeSample
  deriving DecidableEq

namespace Tracking

/-- A client that holds what was persisted. -/
def start (previous : Option TimeSample) : Tracking := ⟨previous, previous.toList⟩

/-- One reading: an accepted sample is the next one's previous. -/
def offer (t : Tracking) (reading : Reading) : Tracking :=
  match (DriftTracker.mk t.previous).accept reading.localMs reading.serverMs with
  | .ok sample => ⟨some sample, sample :: t.accepted⟩
  | .error _ => t

/-- Readings in the order they come. -/
def walk (t : Tracking) (readings : List Reading) : Tracking := readings.foldl offer t

end Tracking

theorem BACKWARDS_TOLERANCE_MS_val : BACKWARDS_TOLERANCE_MS.val = 1000 := rfl

namespace DriftTracker

/-- A reading is refused when it is more than the tolerance below the previous one, and only then. -/
theorem accept_eq_ok {t : DriftTracker} {localMs serverMs : I64} {sample : TimeSample} :
    t.accept localMs serverMs = .ok sample ↔
      (∀ previous ∈ t.previous, previous.serverMs.val - BACKWARDS_TOLERANCE_MS.val ≤ serverMs.val) ∧
      sample = ⟨localMs, serverMs, I64.saturatingSub serverMs localMs⟩ := by
  have hlow := serverMs.property
  unfold accept
  cases hp : t.previous with
  | none => simp [eq_comm]
  | some previous =>
    have hhigh := previous.serverMs.property
    have hsub : (I64.saturatingSub previous.serverMs BACKWARDS_TOLERANCE_MS).val =
        max (-2 ^ 63) (previous.serverMs.val - 1000) := by
      simp only [I64.saturatingSub, I64.saturate, BACKWARDS_TOLERANCE_MS_val]
      omega
    simp only [hsub, BACKWARDS_TOLERANCE_MS_val, Option.mem_some_iff, forall_eq']
    split
    · next h =>
      -- what saturates is below every reading there is
      simp only [reduceCtorEq, false_iff, not_and]
      omega
    · next h =>
      have hle : previous.serverMs.val - 1000 ≤ serverMs.val := by omega
      simp [hle, eq_comm]

end DriftTracker

namespace Tracking

/-- The previous sample is the last one accepted. -/
def Current (t : Tracking) : Prop := t.previous = t.accepted.head?

/-- No sample is more than `drop` below one accepted before it. -/
def Holds (drop : Int) (t : Tracking) : Prop :=
  t.accepted.Pairwise (fun later earlier => earlier.serverMs.val - drop ≤ later.serverMs.val)

/-- The reading is close enough to the previous sample to be taken, and too far below one accepted
before that. -/
def Slips (t : Tracking) (reading : Reading) : Prop :=
  ∃ previous ∈ t.previous, ∃ earlier ∈ t.accepted,
    previous.serverMs.val - BACKWARDS_TOLERANCE_MS.val ≤ reading.serverMs.val ∧
    reading.serverMs.val < earlier.serverMs.val - BACKWARDS_TOLERANCE_MS.val

/-- No reading slips, each judged when it is offered. -/
def Steady (t : Tracking) : List Reading → Prop
  | [] => True
  | reading :: rest => ¬ t.Slips reading ∧ (t.offer reading).Steady rest

theorem offer_cases (t : Tracking) (reading : Reading) :
    (t.offer reading = t ∧ ∃ previous ∈ t.previous,
      reading.serverMs.val < previous.serverMs.val - BACKWARDS_TOLERANCE_MS.val) ∨
    ∃ sample, sample.serverMs = reading.serverMs ∧
      (∀ previous ∈ t.previous, previous.serverMs.val - BACKWARDS_TOLERANCE_MS.val ≤ reading.serverMs.val) ∧
      t.offer reading = ⟨some sample, sample :: t.accepted⟩ := by
  cases h : (DriftTracker.mk t.previous).accept reading.localMs reading.serverMs with
  | ok sample =>
    obtain ⟨hnear, hsample⟩ := DriftTracker.accept_eq_ok.mp h
    exact .inr ⟨sample, by rw [hsample], hnear, by simp [offer, h]⟩
  | error e =>
    refine .inl ⟨by simp [offer, h], ?_⟩
    by_contra hnone
    have hnear : ∀ previous ∈ t.previous,
        previous.serverMs.val - BACKWARDS_TOLERANCE_MS.val ≤ reading.serverMs.val := by
      intro previous hprevious
      by_contra hlt
      exact hnone ⟨previous, hprevious, by omega⟩
    have hok : (DriftTracker.mk t.previous).accept reading.localMs reading.serverMs = .ok _ :=
      DriftTracker.accept_eq_ok.mpr ⟨hnear, rfl⟩
    rw [h] at hok
    cases hok

theorem current_start (previous : Option TimeSample) : (start previous).Current := by
  cases previous <;> rfl

theorem Current.offer {t : Tracking} (h : t.Current) (reading : Reading) : (t.offer reading).Current := by
  obtain ⟨heq, -⟩ | ⟨sample, -, -, heq⟩ := offer_cases t reading
  · rw [heq]
    exact h
  · rw [heq]
    rfl

theorem holds_start (drop : Int) (previous : Option TimeSample) : (start previous).Holds drop := by
  cases previous <;> simp [start, Holds]

/-- One reading keeps the samples within the tolerance exactly when it does not slip. -/
theorem holds_offer_iff {t : Tracking} (hcurrent : t.Current) (reading : Reading) :
    (t.offer reading).Holds BACKWARDS_TOLERANCE_MS.val ↔
      t.Holds BACKWARDS_TOLERANCE_MS.val ∧ ¬ t.Slips reading := by
  obtain ⟨heq, previous, hprevious, hlow⟩ | ⟨sample, hserver, hnear, heq⟩ := offer_cases t reading
  · -- a refused reading is no sample
    rw [heq, iff_self_and]
    intro _ hslips
    obtain ⟨other, hother, _, _, hle, _⟩ := hslips
    rw [Option.mem_unique hother hprevious] at hle
    omega
  · rw [heq, Holds, List.pairwise_cons, and_comm, hserver]
    refine and_congr_right fun _ => ?_
    constructor
    · intro hall hslips
      obtain ⟨_, _, earlier, hmem, _, hlt⟩ := hslips
      have hle := hall earlier hmem
      omega
    · intro hslips earlier hmem
      by_contra hlt
      cases hp : t.previous with
      | none =>
        have hnil : t.accepted = [] := List.head?_eq_none_iff.mp (hcurrent.symm.trans hp)
        simp [hnil] at hmem
      | some previous => exact hslips ⟨previous, hp, earlier, hmem, hnear previous hp, by omega⟩

theorem holds_walk_iff {t : Tracking} (hcurrent : t.Current) (readings : List Reading) :
    (t.walk readings).Holds BACKWARDS_TOLERANCE_MS.val ↔
      t.Holds BACKWARDS_TOLERANCE_MS.val ∧ t.Steady readings := by
  induction readings generalizing t with
  | nil => simp [walk, Steady]
  | cons reading rest ih =>
    have hrest := ih (hcurrent.offer reading)
    rw [holds_offer_iff hcurrent] at hrest
    simp only [walk, List.foldl_cons, Steady] at hrest ⊢
    rw [hrest, and_assoc]

theorem Holds.mono {t : Tracking} {a b : Int} (h : t.Holds a) (hab : a ≤ b) : t.Holds b :=
  List.Pairwise.imp (fun hle => by omega) h

/-- The newest sample is below one accepted `k` samples before it by `k` times the tolerance at the most. -/
def Sinks (t : Tracking) : Prop :=
  ∀ newest newer earlier older, t.accepted = newest :: newer ++ earlier :: older →
    earlier.serverMs.val - (newer.length + 1) * BACKWARDS_TOLERANCE_MS.val ≤ newest.serverMs.val

theorem sinks_start (previous : Option TimeSample) : (start previous).Sinks := by
  intro newest newer earlier older h
  have hlength := congrArg List.length h
  cases previous <;> simp [start] at hlength

theorem Sinks.offer {t : Tracking} (hcurrent : t.Current) (h : t.Sinks) (reading : Reading) :
    (t.offer reading).Sinks := by
  obtain ⟨heq, -⟩ | ⟨sample, hserver, hnear, heq⟩ := offer_cases t reading
  · rw [heq]
    exact h
  · intro newest newer earlier older haccepted
    rw [heq, List.cons_append, List.cons.injEq] at haccepted
    obtain ⟨rfl, haccepted⟩ := haccepted
    rw [← hserver] at hnear
    have hprevious : t.previous = (newer ++ earlier :: older).head? := by rw [← haccepted]; exact hcurrent
    cases newer with
    | nil =>
      have hle := hnear earlier hprevious
      simp only [List.length_nil]
      omega
    | cons previous rest =>
      have hle := hnear previous hprevious
      have hbefore := h previous rest earlier older haccepted
      rw [BACKWARDS_TOLERANCE_MS_val] at *
      simp only [List.length_cons]
      omega

/-- How far a server can walk a client back. -/
theorem accepted_fall {t : Tracking} (hcurrent : t.Current) (h : t.Sinks) (readings : List Reading) :
    (t.walk readings).Sinks := by
  induction readings generalizing t with
  | nil => exact h
  | cons reading rest ih => exact ih (hcurrent.offer reading) (h.offer hcurrent reading)

end Tracking

/-- A measurement offers its answer: what the state holds afterwards is what the tracking holds. -/
theorem measureTime_state (t : Tracking) (nowUnixMs : U64) (serverMs : I64) (saved : Except SyncError Unit) :
    stateAfter (measureTime nowUnixMs (.ok serverMs) saved) t.previous =
      (t.offer ⟨I64.ofU64 nowUnixMs, serverMs⟩).previous := by
  cases h : (DriftTracker.mk t.previous).accept (I64.ofU64 nowUnixMs) serverMs with
  | error e => simp [measureTime, Tracking.offer, stateAfter, h, bind, EStateM.bind, get, getThe, MonadStateOf.get,
      EStateM.get, throw, throwThe, MonadExceptOf.throw, EStateM.throw]
  | ok sample =>
    cases saved <;> simp [measureTime, Tracking.offer, stateAfter, h, bind, EStateM.bind, get, getThe,
      MonadStateOf.get, EStateM.get, throw, throwThe, MonadExceptOf.throw, EStateM.throw, set, EStateM.set, pure,
      EStateM.pure]

/-- Server time is not walked back: whatever the client held and whatever answers it was given, each accepted server
time is at least the highest accepted before, less the tolerance, exactly when no answer slips (is taken for its
distance to the previous sample while it is further than that below an earlier one); and then no accepted answer is
a TOTP step below an earlier one. -/
theorem never_walked_back_iff (previous : Option TimeSample) (readings : List Reading) :
    (((Tracking.start previous).walk readings).Holds BACKWARDS_TOLERANCE_MS.val ↔
      (Tracking.start previous).Steady readings) ∧
    ((Tracking.start previous).Steady readings → ((Tracking.start previous).walk readings).Holds (REPLAY_MS - 1)) := by
  have hiff := Tracking.holds_walk_iff (Tracking.current_start previous) readings
  have hstart := Tracking.holds_start BACKWARDS_TOLERANCE_MS.val previous
  refine ⟨hiff.trans (and_iff_right hstart), ?_⟩
  intro hsteady
  exact (hiff.mpr ⟨hstart, hsteady⟩).mono (by decide)

/-- Readings that come down by the tolerance each time. -/
def falling (highest : Int) (n : Nat) : List Reading :=
  (List.range n).map fun k => ⟨I64.saturate 0, I64.saturate (highest - k * BACKWARDS_TOLERANCE_MS.val)⟩

/-- Thirty-one answers, each within the tolerance of the one before, walk the client back by a TOTP step: the code it
consumed under the first is valid again under the last. -/
theorem server_time_walked_back : ∃ (readings : List Reading) (first last : TimeSample),
    ((Tracking.start none).walk readings).accepted.head? = some last ∧
    ((Tracking.start none).walk readings).accepted.getLast? = some first ∧
    ((Tracking.start none).walk readings).accepted.length = readings.length ∧
    last.serverMs.val = first.serverMs.val - REPLAY_MS ∧
    ¬ ((Tracking.start none).walk readings).Holds BACKWARDS_TOLERANCE_MS.val := by
  refine ⟨falling 1700000000000 31, ⟨I64.saturate 0, I64.saturate 1700000000000, I64.saturate 1700000000000⟩,
    ⟨I64.saturate 0, I64.saturate 1699999970000, I64.saturate 1699999970000⟩, ?_, ?_, ?_, ?_, ?_⟩
  · decide
  · decide
  · decide
  · decide
  · unfold Tracking.Holds
    decide

end Misty
