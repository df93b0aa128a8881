import Misty.Error
import Misty.Limits

/- The hybrid logical clock every mutable field carries: a reading is a wall
   time, a counter within the millisecond and the device that wrote it, ordered
   lexicographically. `HlcClock.tick` never repeats or goes back, whatever the
   host's clock does.

   Correspondence (Rust ↔ Lean):
     `Hlc`, `Hlc::new`, `Hlc::zero`            ↔ `Hlc`, `Hlc.new`, `Hlc.zero`
     `HlcClock::{new, tick, observe}`          ↔ `HlcClock.new`, `.tick`, `.observe` -/
namespace Misty

/-- One reading of the hybrid logical clock. -/
structure Hlc where
  wallMs : U64
  counter : U16
  deviceId : DeviceId
  deriving DecidableEq

namespace Hlc

/-- The order key: wall time first, then the counter, then the device. -/
def key (h : Hlc) : U64 ×ₗ U16 ×ₗ DeviceId := toLex (h.wallMs, toLex (h.counter, h.deviceId))

theorem key_injective : Function.Injective key := by
  intro a b h
  have h' : (a.wallMs, toLex (a.counter, a.deviceId)) = (b.wallMs, toLex (b.counter, b.deviceId)) :=
    toLex.injective h
  rw [Prod.mk.injEq] at h'
  have h'' := toLex.injective h'.2
  rw [Prod.mk.injEq] at h''
  cases a
  cases b
  simp only at h' h''
  rw [h'.1, h''.1, h''.2]

instance : LinearOrder Hlc := LinearOrder.lift' key key_injective

/-- Whether a wall reading is inside `[MIN_WALL_MS, MAX_WALL_MS)`. -/
def inWindow (wallMs : U64) : Bool := MIN_WALL_MS ≤ wallMs.val && wallMs.val < MAX_WALL_MS

def new (wallMs : U64) (counter : U16) (deviceId : DeviceId) : Result Hlc :=
  if inWindow wallMs then .ok ⟨wallMs, counter, deviceId⟩
  else .error (.hlcOutOfRange wallMs.val MIN_WALL_MS MAX_WALL_MS)

/-- `Hlc::zero`, the smallest reading a device can hold. -/
def zero (deviceId : DeviceId) : Hlc := ⟨⟨MIN_WALL_MS, MIN_WALL_MS_lt⟩, 0, deviceId⟩

end Hlc

/-- The clock of one device, with the last reading it issued or observed. -/
structure HlcClock where
  deviceId : DeviceId
  last : Hlc
  deriving DecidableEq

namespace HlcClock

def new (deviceId : DeviceId) : HlcClock := ⟨deviceId, Hlc.zero deviceId⟩

/-- `u64::clamp` into the window. -/
def clampWall (wallMs : U64) : U64 :=
  ⟨max MIN_WALL_MS (min wallMs.val (MAX_WALL_MS - 1)), by
    have h1 : MIN_WALL_MS < 2 ^ 64 := by decide
    have h2 := wallMs.isLt
    omega⟩

/-- The reading `tick` issues. A host clock that does not advance moves the
counter, and a full counter borrows a millisecond. -/
def next (self : HlcClock) (wallMs : U64) : Result Hlc :=
  let wall := clampWall wallMs
  if self.last.wallMs < wall then .ok ⟨wall, 0, self.deviceId⟩
  else if h : self.last.counter.val + 1 < 2 ^ 16 then
    .ok ⟨self.last.wallMs, ⟨self.last.counter.val + 1, h⟩, self.deviceId⟩
  else match Hlc.new (U64.saturatingAdd self.last.wallMs 1) 0 self.deviceId with
    | .ok borrowed => .ok borrowed
    | .error _ => .error .clockExhausted

/-- `HlcClock::tick`: the reading, and the clock that issued it. -/
def tick (self : HlcClock) (wallMs : U64) : Result (Hlc × HlcClock) :=
  (self.next wallMs).map (fun h => (h, { self with last := h }))

/-- `HlcClock::observe`. A reading outside the window is not observed. -/
def observe (self : HlcClock) (remote : Hlc) : HlcClock :=
  if Hlc.inWindow remote.wallMs then
    if toLex (self.last.wallMs, self.last.counter) < toLex (remote.wallMs, remote.counter) then
      { self with last := ⟨remote.wallMs, remote.counter, self.deviceId⟩ }
    else self
  else self

end HlcClock

end Misty
