import Misty.Vault.Effect

/- One clock over any sequence of calls. A reading it returns is in the window, under its
   own device and above everything it has returned or been shown, and it stops only at
   the last reading of the window (`clock_monotonic`).

   Correspondence (Rust ↔ Lean):
     the `&mut self` calls of `HlcClock`       ↔ `ClockCall`, `HlcClock.after`
     what `tick` hands back                    ↔ `HlcClock.returned` -/
namespace Misty

/-- A call on a clock. -/
inductive ClockCall where
  | tick (wallMs : U64)
  | observe (remote : Hlc)

namespace HlcClock

/-- The clock after a call. `tick` leaves it alone when it fails. -/
def after (self : HlcClock) : ClockCall → HlcClock
  | .tick wallMs =>
    match self.tick wallMs with
    | .ok (_, clock) => clock
    | .error _ => self
  | .observe remote => self.observe remote

/-- The reading a call returns. -/
def returned (self : HlcClock) : ClockCall → Option Hlc
  | .tick wallMs =>
    match self.tick wallMs with
    | .ok (hlc, _) => some hlc
    | .error _ => none
  | .observe _ => none

/-- The clock after a sequence of calls. -/
def afterAll (self : HlcClock) (calls : List ClockCall) : HlcClock := calls.foldl after self

/-- The readings a sequence of calls returns. -/
def readings (self : HlcClock) : List ClockCall → List Hlc
  | [] => []
  | call :: rest => (self.returned call).toList ++ (self.after call).readings rest

/-- A clock of the device, inside the window. -/
structure Regular (device : DeviceId) (c : HlcClock) : Prop where
  deviceId : c.deviceId = device
  window : Hlc.inWindow c.last.wallMs = true

theorem regular_new (device : DeviceId) : Regular device (new device) :=
  ⟨rfl, show Hlc.inWindow ⟨MIN_WALL_MS, by decide⟩ = true by decide⟩

@[simp] theorem after_tick (c : HlcClock) (wallMs : U64) :
    c.after (.tick wallMs) = match c.next wallMs with
      | .ok h => { c with last := h }
      | .error _ => c := by
  cases hn : c.next wallMs <;> simp [after, tick, hn, Except.map]

@[simp] theorem after_observe (c : HlcClock) (remote : Hlc) : c.after (.observe remote) = c.observe remote := rfl

@[simp] theorem returned_tick (c : HlcClock) (wallMs : U64) : c.returned (.tick wallMs) = (c.next wallMs).toOption := by
  cases hn : c.next wallMs <;> simp [returned, tick, hn, Except.map, Except.toOption]

theorem deviceId_of_next {c : HlcClock} {wallMs : U64} {h : Hlc} (hn : c.next wallMs = .ok h) :
    h.deviceId = c.deviceId := by
  unfold next at hn
  simp only at hn
  split at hn
  · cases hn
    rfl
  · split at hn
    · cases hn
      rfl
    · cases hb : Hlc.new (U64.saturatingAdd c.last.wallMs 1) 0 c.deviceId with
      | error e =>
        rw [hb] at hn
        cases hn
      | ok b =>
        rw [hb] at hn
        cases hn
        unfold Hlc.new at hb
        split at hb <;> cases hb
        rfl

theorem Regular.after {device : DeviceId} {c : HlcClock} (h : Regular device c) (call : ClockCall) :
    Regular device (c.after call) := by
  cases call with
  | tick wallMs =>
    rw [after_tick]
    cases hn : c.next wallMs with
    | error e => exact h
    | ok r => exact ⟨h.deviceId, (time_of_next hn).2 h.window⟩
  | observe remote =>
    rw [after_observe]
    unfold observe
    split
    · next hw =>
      split
      · exact ⟨h.deviceId, hw⟩
      · exact h
    · exact h

theorem Regular.afterAll {device : DeviceId} (calls : List ClockCall) : ∀ {c : HlcClock}, Regular device c →
    Regular device (c.afterAll calls) := by
  induction calls with
  | nil => exact fun h => h
  | cons call rest ih => exact fun h => ih (h.after call)

theorem time_le_after (c : HlcClock) (call : ClockCall) : c.time ≤ (c.after call).time := by
  cases call with
  | tick wallMs =>
    rw [after_tick]
    cases hn : c.next wallMs with
    | error e => exact le_rfl
    | ok r => exact (time_of_next hn).1.le
  | observe remote => exact time_le_observe c remote

theorem time_le_afterAll (calls : List ClockCall) : ∀ c : HlcClock, c.time ≤ (c.afterAll calls).time := by
  induction calls with
  | nil => exact fun c => le_rfl
  | cons call rest ih => exact fun c => (time_le_after c call).trans (ih _)

theorem saw_of_mem_readings {device : DeviceId} (calls : List ClockCall) : ∀ {c : HlcClock} {r : Hlc},
    Regular device c → r ∈ c.readings calls → (c.afterAll calls).Saw r := by
  induction calls with
  | nil => exact fun _ hr => absurd hr (by simp [readings])
  | cons call rest ih =>
    intro c r hc hr
    rcases List.mem_append.mp hr with hr | hr
    · refine Saw.mono ?_ (time_le_afterAll rest (c.after call))
      cases call with
      | tick wallMs =>
        rw [returned_tick] at hr
        rw [after_tick]
        cases hn : c.next wallMs with
        | error e => simp [hn, Except.toOption] at hr
        | ok h =>
          simp only [hn, Except.toOption, Option.toList_some, List.mem_singleton] at hr
          subst hr
          exact ⟨le_rfl, (time_of_next hn).2 hc.window⟩
      | observe remote => simp [returned] at hr
    · exact ih (hc.after call) hr

theorem saw_of_observed (calls : List ClockCall) : ∀ {c : HlcClock} {r : Hlc}, ClockCall.observe r ∈ calls →
    Hlc.inWindow r.wallMs = true → (c.afterAll calls).Saw r := by
  induction calls with
  | nil => exact fun hr => absurd hr (by simp)
  | cons call rest ih =>
    intro c r hr hw
    rcases List.mem_cons.mp hr with rfl | hr
    · exact (saw_observe hw).mono (time_le_afterAll rest _)
    · exact ih hr hw

/-- A clock inside the window stops at the last reading of the window, and nowhere else. -/
theorem next_eq_error {c : HlcClock} (hc : Hlc.inWindow c.last.wallMs = true) (wallMs : U64) :
    (∃ e, c.next wallMs = .error e) ↔ c.last.wallMs.val = MAX_WALL_MS - 1 ∧ c.last.counter.val = 2 ^ 16 - 1 := by
  have hmax : MAX_WALL_MS < 2 ^ 64 - 1 := by decide
  have hone : (1 : U64).val = 1 := rfl
  have hclamp := inWindow_clampWall wallMs
  have hcount := c.last.counter.isLt
  simp only [Hlc.inWindow, Bool.and_eq_true, decide_eq_true_eq] at hc hclamp
  unfold next
  dsimp only
  split
  · next hlt =>
    have hval : c.last.wallMs.val < (clampWall wallMs).val := hlt
    constructor
    · intro h
      obtain ⟨e, he⟩ := h
      cases he
    · intro h
      omega
  · split
    · next hnext =>
      constructor
      · intro h
        obtain ⟨e, he⟩ := h
        cases he
      · intro h
        omega
    · next hfull =>
      -- a full counter borrows a millisecond, which the last one of the window does not have
      unfold Hlc.new
      by_cases hw : Hlc.inWindow (U64.saturatingAdd c.last.wallMs 1) = true
      · rw [if_pos hw]
        simp only [Hlc.inWindow, U64.val_saturatingAdd, Bool.and_eq_true, decide_eq_true_eq] at hw
        constructor
        · intro h
          obtain ⟨e, he⟩ := h
          cases he
        · intro h
          omega
      · rw [if_neg hw]
        simp only [Hlc.inWindow, U64.val_saturatingAdd, Bool.and_eq_true, decide_eq_true_eq] at hw
        constructor
        · intro _
          omega
        · intro _
          exact ⟨_, rfl⟩

theorem error_of_next {c : HlcClock} {wallMs : U64} {e : VaultError} (h : c.next wallMs = .error e) :
    e = .clockExhausted := by
  unfold next at h
  dsimp only at h
  split at h
  · cases h
  · split at h
    · cases h
    · split at h <;> cases h
      rfl

end HlcClock

/-- Whatever a clock was asked and shown, the next reading it returns is of the window, its own device's and above
everything it returned or was shown in the window. It fails exactly at the last reading of the window, without a
change, and a reading outside the window changes nothing. -/
theorem clock_monotonic (device : DeviceId) (calls : List ClockCall) :
    let c := (HlcClock.new device).afterAll calls
    (∀ wallMs h, c.returned (.tick wallMs) = some h → Hlc.inWindow h.wallMs = true ∧ h.deviceId = device ∧
      (∀ r ∈ (HlcClock.new device).readings calls, r < h) ∧
      ∀ r, .observe r ∈ calls → Hlc.inWindow r.wallMs = true → r < h) ∧
    (∀ wallMs, (∃ e, c.tick wallMs = .error e) ↔
      c.last.wallMs.val = MAX_WALL_MS - 1 ∧ c.last.counter.val = 2 ^ 16 - 1) ∧
    (∀ wallMs e, c.tick wallMs = .error e → e = .clockExhausted ∧ c.after (.tick wallMs) = c) ∧
    ∀ r : Hlc, Hlc.inWindow r.wallMs = false → c.after (.observe r) = c := by
  intro c
  -- the clock stays in its window and keeps its device
  have hregular : HlcClock.Regular device c := (HlcClock.regular_new device).afterAll calls
  refine ⟨?_, ?_, ?_, ?_⟩
  · intro wallMs h hreturned
    rw [HlcClock.returned_tick] at hreturned
    cases hn : c.next wallMs with
    | error e => simp [hn, Except.toOption] at hreturned
    | ok r =>
      simp only [hn, Except.toOption, Option.some.injEq] at hreturned
      subst hreturned
      obtain ⟨hlt, hw⟩ := HlcClock.time_of_next hn
      refine ⟨hw hregular.window, (HlcClock.deviceId_of_next hn).trans hregular.deviceId, ?_, ?_⟩
      · intro r' hr
        exact Hlc.lt_of_time ((HlcClock.saw_of_mem_readings calls (HlcClock.regular_new device) hr).1.trans_lt hlt)
      · intro r' hr hrw
        exact Hlc.lt_of_time ((HlcClock.saw_of_observed calls hr hrw).1.trans_lt hlt)
  · intro wallMs
    rw [← HlcClock.next_eq_error hregular.window wallMs]
    unfold HlcClock.tick
    cases c.next wallMs <;> simp [Except.map]
  · intro wallMs e he
    unfold HlcClock.tick at he
    rw [HlcClock.after_tick]
    cases hn : c.next wallMs with
    | ok h => simp [hn, Except.map] at he
    | error e' =>
      simp only [hn, Except.map, Except.error.injEq] at he
      exact ⟨he ▸ HlcClock.error_of_next hn, rfl⟩
  · intro r hr
    simp [HlcClock.after, HlcClock.observe, hr]

/-- A clock that was shown a reading of another device, asked when the host clock has gone back to zero. -/
theorem clock_monotonic_backwards :
    (⟨1600000000000, 7, ⟨.repeated 16 5⟩⟩ : Hlc) < ⟨1600000000000, 8, ⟨.repeated 16 4⟩⟩ := by
  have hnext := (clock_monotonic ⟨.repeated 16 4⟩
    [.tick 1600000000000, .observe ⟨1600000000000, 7, ⟨.repeated 16 5⟩⟩]).1 0
    ⟨1600000000000, 8, ⟨.repeated 16 4⟩⟩ (by decide)
  exact hnext.2.2.2 _ (by simp) (by decide)

end Misty
