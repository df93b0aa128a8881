import Misty.Otp.Generate
import Mathlib.Order.Bounds.Defs

/- Resynchronisation of a HOTP counter: every counter of a window is tried and the first
   hit is kept through a selection on what was found so far.

   What is proved:
     1. `resyncLoop_first` — what is kept is the first hit of the steps taken.
     2. `resync_first_match` — so the result is the least counter of the window with the
        code that was seen.

   Correspondence (Rust ↔ Lean):
     `MAX_RESYNC_WINDOW`                       ↔ `MAX_RESYNC_WINDOW`
     `OtpConfig::resync_counter`, its loop     ↔ `OtpConfig.resyncCounter`, `OtpConfig.resyncLoop`
   `Choice` is a `Bool`. -/
namespace Misty

def MAX_RESYNC_WINDOW : Nat := 1000

namespace OtpConfig

variable (prims : OtpPrims) (config : OtpConfig) (observedCode : Text)

/-- The loop over the steps, from one on, so many of them. -/
def resyncLoop : Nat → Nat → Bool → U64 → Bool × U64
  | 0, _, found, matched => (found, matched)
  | remaining + 1, step, found, matched =>
    match config.counter.checkedAdd (Fin.ofNat (2 ^ 64) step) with
    | none => (found, matched)
    | some counter =>
      match config.valueAt prims counter with
      | .error _ => (found, matched)
      | .ok candidate =>
        let hit : Bool := Text.utf8 candidate = observedCode.utf8
        resyncLoop remaining (step + 1) (found || hit) (if hit && !found then counter else matched)

def resyncCounter (window : U64) : Option U64 :=
  if config.kind.usesCounter then
    let (found, matched) := resyncLoop prims config observedCode (min window.val MAX_RESYNC_WINDOW + 1) 0 false 0
    if found then some matched else none
  else none

end OtpConfig

variable {prims : OtpPrims} {config : OtpConfig} {observedCode : Text}

/-- So many steps on, the code is the one that was seen. -/
def Hit (prims : OtpPrims) (config : OtpConfig) (observedCode : Text) (step : Nat) : Prop :=
  ∃ counter : U64, counter.val = config.counter.val + step ∧ config.valueAt prims counter = .ok observedCode

/-- Of the first steps, the first hit or none. -/
def First (prims : OtpPrims) (config : OtpConfig) (observedCode : Text) (steps : Nat) (found : Bool) (matched : U64) : Prop :=
  (found = true → ∃ step < steps, matched.val = config.counter.val + step ∧ Hit prims config observedCode step ∧
    ∀ earlier < step, ¬ Hit prims config observedCode earlier) ∧
  (found = false → ∀ step < steps, ¬ Hit prims config observedCode step)

theorem First.extend {steps steps' : Nat} {found : Bool} {matched : U64} (h : First prims config observedCode steps found matched)
    (hle : steps ≤ steps') (hno : ∀ step, steps ≤ step → ¬ Hit prims config observedCode step) :
    First prims config observedCode steps' found matched := by
  refine ⟨fun hfound => ?_, fun hfound step _ => ?_⟩
  · obtain ⟨step, hlt, hrest⟩ := h.1 hfound
    exact ⟨step, lt_of_lt_of_le hlt hle, hrest⟩
  · rcases Nat.lt_or_ge step steps with hlt | hge
    · exact h.2 hfound step hlt
    · exact hno step hge

theorem First.step {steps : Nat} {found : Bool} {matched counter : U64} {candidate : Text}
    (h : First prims config observedCode steps found matched) (hcounter : counter.val = config.counter.val + steps)
    (hcode : config.valueAt prims counter = .ok candidate) :
    First prims config observedCode (steps + 1) (found || decide (Text.utf8 candidate = observedCode.utf8))
      (if decide (Text.utf8 candidate = observedCode.utf8) && !found then counter else matched) := by
  have hhit : Hit prims config observedCode steps ↔ Text.utf8 candidate = observedCode.utf8 := by
    constructor
    · intro hit
      obtain ⟨other, hother, hsame⟩ := hit
      obtain rfl : other = counter := Fin.ext (hother.trans hcounter.symm)
      rw [Except.ok.inj (hcode.symm.trans hsame)]
    · intro hbytes
      exact ⟨counter, hcounter, by rw [hcode, Text.utf8_inj hbytes]⟩
  cases found with
  | true =>
    obtain ⟨step, hlt, hrest⟩ := h.1 rfl
    rw [Bool.true_or, Bool.not_true, Bool.and_false, if_neg Bool.false_ne_true]
    exact ⟨fun _ => ⟨step, Nat.lt_succ_of_lt hlt, hrest⟩, fun hfalse => absurd hfalse Bool.true_eq_false.mp⟩
  | false =>
    have hnone := h.2 rfl
    rw [Bool.false_or, Bool.not_false, Bool.and_true]
    by_cases hbytes : Text.utf8 candidate = observedCode.utf8
    · rw [decide_eq_true hbytes, if_pos rfl]
      exact ⟨fun _ => ⟨steps, Nat.lt_succ_self _, hcounter, hhit.mpr hbytes, hnone⟩, fun hfalse => absurd hfalse Bool.true_eq_false.mp⟩
    · rw [decide_eq_false hbytes, if_neg Bool.false_ne_true]
      refine ⟨fun htrue => absurd htrue Bool.false_ne_true, fun _ step hlt => ?_⟩
      rcases Nat.lt_succ_iff_lt_or_eq.mp hlt with hlt | rfl
      · exact hnone step hlt
      · exact fun hit => hbytes (hhit.mp hit)

/-- The loop keeps the first hit, and stops where the counters end. -/
theorem resyncLoop_first (hcode : ∀ counter, ∃ candidate, config.valueAt prims counter = .ok candidate) :
    ∀ (remaining steps : Nat) (found : Bool) (matched : U64), steps + remaining < 2 ^ 64 →
      First prims config observedCode steps found matched →
        First prims config observedCode (steps + remaining)
          (OtpConfig.resyncLoop prims config observedCode remaining steps found matched).1
          (OtpConfig.resyncLoop prims config observedCode remaining steps found matched).2
  | 0, _, _, _, _, h => h
  | remaining + 1, steps, found, matched, hfit, h => by
    have hstep : (Fin.ofNat (2 ^ 64) steps).val = steps := Nat.mod_eq_of_lt (by omega)
    by_cases hin : config.counter.val + steps < 2 ^ 64
    · obtain ⟨candidate, hcandidate⟩ := hcode ⟨config.counter.val + steps, hin⟩
      have hadd : config.counter.checkedAdd (Fin.ofNat (2 ^ 64) steps) = some ⟨config.counter.val + steps, hin⟩ := by
        unfold U64.checkedAdd
        rw [dif_pos (by rw [hstep]; exact hin)]
        exact congrArg some (Fin.ext (by simp only [hstep]))
      have hnext := resyncLoop_first hcode remaining (steps + 1) _ _ (by omega) (h.step rfl hcandidate)
      rw [OtpConfig.resyncLoop, hadd]
      simp only [hcandidate]
      rwa [Nat.add_assoc, Nat.add_comm 1] at hnext
    · have hadd : config.counter.checkedAdd (Fin.ofNat (2 ^ 64) steps) = none := by
        unfold U64.checkedAdd
        rw [dif_neg (by rw [hstep]; exact hin)]
      rw [OtpConfig.resyncLoop, hadd]
      refine h.extend (Nat.le_add_right _ _) (fun step hge hit => ?_)
      obtain ⟨counter, hcounter, -⟩ := hit
      have hlt := counter.isLt
      omega

/-- The counters a resynchronisation tries, and finds the code at. -/
def matching (prims : OtpPrims) (config : OtpConfig) (observedCode : Text) (window : U64) : Set U64 :=
  { counter | config.counter.val ≤ counter.val ∧ counter.val ≤ config.counter.val + min window.val MAX_RESYNC_WINDOW ∧
    config.valueAt prims counter = .ok observedCode }

/-- Resynchronisation finds the least counter of its window with the code that was seen, up to the end of the counters, and
nothing exactly when there is none. -/
theorem resync_first_match (prims : OtpPrims) (h : OtpConfig.Reachable config) (hkind : config.kind = .hotp)
    (observedCode : Text) (window : U64) :
    (∀ counter, config.resyncCounter prims observedCode window = some counter ↔
      IsLeast (matching prims config observedCode window) counter) ∧
    (config.resyncCounter prims observedCode window = none ↔ matching prims config observedCode window = ∅) := by
  have hcode : ∀ counter, ∃ candidate, config.valueAt prims counter = .ok candidate := by
    intro counter
    rcases h.sound.valueAt_cases prims counter with ⟨hpin, -⟩ | ⟨-, value, hvalue, -⟩
    · rw [hkind] at hpin
      cases hpin
    · exact ⟨value, hvalue⟩
  have huses : config.kind.usesCounter = true := by rw [hkind]; rfl
  have hstart : First prims config observedCode 0 false 0 :=
    ⟨fun hfalse => absurd hfalse Bool.false_ne_true, fun _ step hlt => absurd hlt (Nat.not_lt_zero step)⟩
  have hfit : 0 + (min window.val MAX_RESYNC_WINDOW + 1) < 2 ^ 64 := by
    have hmin := Nat.min_le_right window.val MAX_RESYNC_WINDOW
    unfold MAX_RESYNC_WINDOW at hmin ⊢
    omega
  -- the loop runs over every step of the window and keeps the first that matches
  have hfirst := resyncLoop_first hcode (min window.val MAX_RESYNC_WINDOW + 1) 0 false 0 hfit hstart
  unfold OtpConfig.resyncCounter
  rw [if_pos huses]
  cases hloop : OtpConfig.resyncLoop prims config observedCode (min window.val MAX_RESYNC_WINDOW + 1) 0 false 0 with
  | mk found matched =>
    rw [hloop, Nat.zero_add] at hfirst
    dsimp only at hfirst ⊢
    -- a counter of the window is a step of the loop
    have hstep : ∀ counter, counter ∈ matching prims config observedCode window →
        ∃ step < min window.val MAX_RESYNC_WINDOW + 1, counter.val = config.counter.val + step ∧ Hit prims config observedCode step := by
      intro counter hcounter
      obtain ⟨hlo, hhi, hvalue⟩ := hcounter
      have hsum : counter.val = config.counter.val + (counter.val - config.counter.val) := by omega
      exact ⟨counter.val - config.counter.val, by omega, hsum, counter, hsum, hvalue⟩
    cases found with
    | true =>
      obtain ⟨step, hlt, hmatched, hit, hearlier⟩ := hfirst.1 rfl
      have hleast : IsLeast (matching prims config observedCode window) matched := by
        refine ⟨⟨by omega, by omega, ?_⟩, fun counter hcounter => ?_⟩
        · obtain ⟨counter, hcounter, hvalue⟩ := hit
          obtain rfl : counter = matched := Fin.ext (hcounter.trans hmatched.symm)
          exact hvalue
        · obtain ⟨other, -, hother, hhit⟩ := hstep counter hcounter
          have hnot : ¬ other < step := fun hless => hearlier other hless hhit
          exact Fin.le_def.mpr (by omega)
      rw [if_pos rfl]
      refine ⟨fun counter => ⟨fun heq => Option.some.inj heq ▸ hleast, fun hother => congrArg some (hleast.unique hother)⟩, ?_⟩
      exact ⟨fun hnone => (by cases hnone), fun hempty => absurd (hempty ▸ hleast.1) (Set.notMem_empty matched)⟩
    | false =>
      have hnone := hfirst.2 rfl
      have hempty : matching prims config observedCode window = ∅ := by
        refine Set.eq_empty_iff_forall_notMem.mpr (fun counter hcounter => ?_)
        obtain ⟨step, hlt, -, hhit⟩ := hstep counter hcounter
        exact hnone step hlt hhit
      rw [if_neg Bool.false_ne_true]
      refine ⟨fun counter => ⟨fun heq => (by cases heq), fun hleast => absurd (hempty ▸ hleast.1) (Set.notMem_empty counter)⟩, ?_⟩
      exact ⟨fun _ => hempty, fun _ => rfl⟩

/-- Every code of the sample is the same, so the stored counter is the first match. -/
theorem resync_first_match_sample : ∃ config : OtpConfig, OtpConfig.Reachable config ∧ config.kind = .hotp ∧
    IsLeast (matching OtpPrims.sample config (List.replicate 6 '0') 2) 0 := by
  have hbuild : (OtpConfigBuilder.new .hotp ⟨[1]⟩).build = .ok (OtpConfig.ofBuilder (OtpConfigBuilder.new .hotp ⟨[1]⟩)) := by
    rfl
  have hfound : (OtpConfig.ofBuilder (OtpConfigBuilder.new .hotp ⟨[1]⟩)).resyncCounter OtpPrims.sample (List.replicate 6 '0') 2 =
      some 0 := by
    decide
  exact ⟨_, .built hbuild, rfl, ((resync_first_match OtpPrims.sample (.built hbuild) rfl _ 2).1 0).mp hfound⟩

end Misty
