import Misty.Lib.Floating
import Misty.Lib.TokenBucket

/- `f64`, and the seconds of a `Duration`, as the token buckets of `misty-server/src/rate_limit.rs`
   count in them. The numbers are the finite ones: nothing here is divided by zero, and
   `refilled_lt` says that nothing comes near the greatest of them.

   What is proved:
     1. `asSecsF64_mono` — more nanoseconds are no fewer seconds, the rounding of both parts
        included.
     2. `refilled_near` — a refill is five roundings away from what is refilled.
     3. `counts` — so buckets of doubles count, and a refill strays by the capacity over 2^50
        at most. -/
namespace Misty

open Floating Floating.Format

abbrev F64 : Type := binary64.Number

/-- `Duration::as_secs_f64`, of nanoseconds. -/
def asSecsF64 (nanos : Nat) : F64 := ((nanos / 10 ^ 9 : Nat) : F64) + ((nanos % 10 ^ 9 : Nat) : F64) / ((10 ^ 9 : Nat) : F64)

def F64.ceil (x : F64) : F64 := .ofRat binary64 ⌈x.val⌉

/-- The saturating `as u64`. -/
def F64.toU64 (x : F64) : Nat := min ⌊x.val⌋₊ (2 ^ 64 - 1)

/-- The refill of so many a minute, up to a burst. -/
def f64Rule (perMinute capacity : Nat) : TokenBucket.Rule F64 := ⟨(perMinute : F64) / ((60 : Nat) : F64), (capacity : F64)⟩

namespace F64

/-! ## Counts -/

theorem val_natCast {n : Nat} (h : n ≤ 2 ^ 53) : (n : F64).val = n := round_natCast h (by decide)

/-! ## Seconds -/

theorem val_part {n : Nat} (h : n < 10 ^ 9) : ((n : F64) / ((10 ^ 9 : Nat) : F64)).val = binary64.round (n / 10 ^ 9) := by
  rw [Number.val_div, val_natCast (h.le.trans (by decide)), val_natCast (by decide)]
  norm_num

theorem val_asSecsF64 (n : Nat) : (asSecsF64 n).val =
    binary64.round (binary64.round ((n / 10 ^ 9 : Nat) : ℚ) + binary64.round (((n % 10 ^ 9 : Nat) : ℚ) / 10 ^ 9)) := by
  unfold asSecsF64
  rw [Number.val_add, val_part (Nat.mod_lt n (by decide))]
  rfl

theorem part_lt_one {n : Nat} (h : n < 10 ^ 9) : 0 ≤ binary64.round ((n : ℚ) / 10 ^ 9) ∧ binary64.round ((n : ℚ) / 10 ^ 9) < 1 := by
  refine ⟨round_nonneg (by positivity), ?_⟩
  have hle : (n : ℚ) / 10 ^ 9 ≤ (10 ^ 9 - 1) / 10 ^ 9 := by
    have hcast : (n : ℚ) ≤ 10 ^ 9 - 1 := by
      have : n + 1 ≤ 10 ^ 9 := h
      have hcast : ((n + 1 : Nat) : ℚ) ≤ ((10 ^ 9 : Nat) : ℚ) := by exact_mod_cast this
      push_cast at hcast
      linarith
    gcongr
  refine (round_mono hle).trans_lt ?_
  have hlast : binary64.round ((10 ^ 9 - 1) / 10 ^ 9) < 1 := by decide +kernel
  exact hlast

/-- More time is no fewer seconds. -/
theorem asSecsF64_mono {m n : Nat} (h : m ≤ n) : asSecsF64 m ≤ asSecsF64 n := by
  show (asSecsF64 m).val ≤ (asSecsF64 n).val
  have hm := @part_lt_one (m % 10 ^ 9) (Nat.mod_lt m (by decide))
  have hn := @part_lt_one (n % 10 ^ 9) (Nat.mod_lt n (by decide))
  have hsecs : m / 10 ^ 9 ≤ n / 10 ^ 9 := Nat.div_le_div_right h
  rw [val_asSecsF64, val_asSecsF64]
  obtain hlt | heq := hsecs.lt_or_eq
  · -- a part of a second is less than the next one, where it shows at all
    have hwhole : binary64.round (binary64.round ((m / 10 ^ 9 : Nat) : ℚ) + binary64.round (((m % 10 ^ 9 : Nat) : ℚ) / 10 ^ 9)) ≤
        binary64.round ((n / 10 ^ 9 : Nat) : ℚ) := by
      obtain hsmall | hlarge := Nat.lt_or_ge (m / 10 ^ 9) (2 ^ 53)
      · refine round_mono ?_
        rw [round_natCast hsmall.le (by decide)]
        have hcast : ((m / 10 ^ 9 : Nat) : ℚ) + 1 ≤ (n / 10 ^ 9 : Nat) := by exact_mod_cast hlt
        linarith
      · have hpow : (2 : ℚ) ^ binary64.precision ≤ binary64.round ((m / 10 ^ 9 : Nat) : ℚ) := by
          have hround := @round_mono binary64 ((2 ^ 53 : Nat) : ℚ) ((m / 10 ^ 9 : Nat) : ℚ) (by exact_mod_cast hlarge)
          rw [round_natCast (le_refl (2 ^ 53)) (by decide)] at hround
          exact_mod_cast hround
        rw [round_add_of_lt (round_round _) hpow hm.1 hm.2]
        exact round_mono (by exact_mod_cast hsecs)
    refine hwhole.trans ?_
    have hgrown := @round_mono binary64 (binary64.round ((n / 10 ^ 9 : Nat) : ℚ)) _ (le_add_of_nonneg_right hn.1)
    rwa [round_round] at hgrown
  · have hparts : m % 10 ^ 9 ≤ n % 10 ^ 9 := by omega
    rw [heq]
    refine round_mono (add_le_add_right (round_mono ?_) _)
    have hcast : ((m % 10 ^ 9 : Nat) : ℚ) ≤ (n % 10 ^ 9 : Nat) := by exact_mod_cast hparts
    gcongr

/-! ## A refill -/

theorem unit_eq : binary64.unit = 1 / 2 ^ 53 := rfl

/-- Nothing as large as a part of a nanosecond's refill comes near the least numbers. -/
theorem spare {y : ℚ} {j : Nat} (hy : 1 / 2 ^ 40 ≤ y) (hj : j ≤ 4) :
    (2 : ℚ) ^ (binary64.least + binary64.precision) ≤ y * (1 - binary64.unit) ^ j := by
  have hsmall : (2 : ℚ) ^ (binary64.least + binary64.precision) ≤ 2 ^ (-41 : ℤ) := zpow_le_zpow_right₀ one_le_two (by decide)
  have hpow : (1 / 2 : ℚ) ≤ (1 - binary64.unit) ^ j := by
    refine le_trans ?_ (pow_le_pow_of_le_one (sub_nonneg.mpr unit_le_one) (sub_le_self 1 unit_pos.le) hj)
    rw [unit_eq]
    norm_num
  calc (2 : ℚ) ^ (binary64.least + binary64.precision) ≤ 2 ^ (-41 : ℤ) := hsmall
    _ = 1 / 2 ^ 40 * (1 / 2) := by norm_num
    _ ≤ y * (1 - binary64.unit) ^ j := mul_le_mul hy hpow (by norm_num) ((by norm_num : (0 : ℚ) ≤ 1 / 2 ^ 40).trans hy)

theorem asSecsF64_near (n : Nat) : binary64.Near 2 (asSecsF64 n).val (n / 10 ^ 9) := by
  have hwhole : binary64.Near 1 (binary64.round ((n / 10 ^ 9 : Nat) : ℚ)) ((n / 10 ^ 9 : Nat) : ℚ) :=
    (Near.refl _).round (Nat.cast_nonneg _) (regular_natCast (by decide) _)
  have hpart : binary64.Near 1 (binary64.round (((n % 10 ^ 9 : Nat) : ℚ) / 10 ^ 9)) (((n % 10 ^ 9 : Nat) : ℚ) / 10 ^ 9) := by
    refine (Near.refl _).round (by positivity) ((Near.refl _).regular ?_)
    obtain hzero | hpos := Nat.eq_zero_or_pos (n % 10 ^ 9)
    · exact .inl (by rw [hzero, Nat.cast_zero, zero_div])
    · refine .inr (spare ?_ (Nat.zero_le _))
      have hone : (1 : ℚ) ≤ (n % 10 ^ 9 : Nat) := by exact_mod_cast hpos
      have hle : (1 : ℚ) / 10 ^ 9 ≤ ((n % 10 ^ 9 : Nat) : ℚ) / 10 ^ 9 := by gcongr
      exact le_trans (by norm_num) hle
  have hsum := (hwhole.add hpart).round (by positivity) (regular_add (round_round _) (round_round _))
  have hexact : ((n / 10 ^ 9 : Nat) : ℚ) + ((n % 10 ^ 9 : Nat) : ℚ) / 10 ^ 9 = n / 10 ^ 9 := by
    have hsplit : ((10 ^ 9 * (n / 10 ^ 9) + n % 10 ^ 9 : Nat) : ℚ) = n := by rw [Nat.div_add_mod]
    push_cast at hsplit
    linarith
  rw [val_asSecsF64]
  rwa [hexact] at hsum

theorem perSecond_near {perMinute : Nat} (h : perMinute < 2 ^ 32) (capacity : Nat) :
    binary64.Near 1 (f64Rule perMinute capacity).perSecond.val (perMinute / 60) := by
  have hval : (f64Rule perMinute capacity).perSecond.val = binary64.round (perMinute / 60) := by
    show (((perMinute : Nat) : F64) / ((60 : Nat) : F64)).val = _
    rw [Number.val_div, val_natCast (h.le.trans (by decide)), val_natCast (by decide)]
    norm_num
  rw [hval]
  refine (Near.refl _).round (by positivity) ((Near.refl _).regular ?_)
  obtain rfl | hpos := Nat.eq_zero_or_pos perMinute
  · exact .inl (by simp)
  · refine .inr (spare ?_ (Nat.zero_le _))
    have hone : (1 : ℚ) ≤ perMinute := by exact_mod_cast hpos
    have hle : (1 : ℚ) / 60 ≤ perMinute / 60 := by gcongr
    exact le_trans (by norm_num) hle

theorem added_near {perMinute : Nat} (h : perMinute < 2 ^ 32) (capacity n : Nat) :
    binary64.Near 4 (asSecsF64 n * (f64Rule perMinute capacity).perSecond).val (perMinute / (60 * 10 ^ 9) * n) := by
  have hexact : (n : ℚ) / 10 ^ 9 * (perMinute / 60) = perMinute / (60 * 10 ^ 9) * n := by ring
  have hmul := (asSecsF64_near n).mul (perSecond_near h capacity) (by positivity) (by positivity)
  rw [hexact] at hmul
  refine hmul.round (by positivity) (hmul.regular ?_)
  obtain rfl | hrate := Nat.eq_zero_or_pos perMinute
  · exact .inl (by simp)
  obtain rfl | hpos := Nat.eq_zero_or_pos n
  · exact .inl (by simp)
  refine .inr (spare ?_ (by decide))
  have hone : (1 : ℚ) ≤ perMinute := by exact_mod_cast hrate
  have hone' : (1 : ℚ) ≤ n := by exact_mod_cast hpos
  calc (1 : ℚ) / 2 ^ 40 ≤ 1 / (60 * 10 ^ 9) * 1 := by norm_num
    _ ≤ (perMinute : ℚ) / (60 * 10 ^ 9) * (n : ℚ) := by gcongr

/-- A refill, five roundings away from what is refilled. -/
theorem refilled_near {perMinute : Nat} (h : perMinute < 2 ^ 32) (capacity : Nat) {a : F64} (ha : 0 ≤ a.val) (n : Nat) :
    binary64.Near 5 (a + asSecsF64 n * (f64Rule perMinute capacity).perSecond).val (a.val + perMinute / (60 * 10 ^ 9) * n) := by
  have hsum := ((Near.refl a.val).mono ha (Nat.zero_le 4)).add (added_near h capacity n)
  exact hsum.round (add_nonneg ha (by positivity)) (regular_add a.property (asSecsF64 n * _).property)

/-- No refill of a time that a `Duration` can be is past the range of an `f64`. -/
theorem refilled_lt {perMinute capacity : Nat} (h : perMinute < 2 ^ 32) {a : F64} (ha : 0 ≤ a.val) (ha' : a.val ≤ 2 ^ 32) {n : Nat}
    (hn : n < 10 ^ 9 * 2 ^ 64) : (a + asSecsF64 n * (f64Rule perMinute capacity).perSecond).val < 2 ^ 128 := by
  have hrate : (perMinute : ℚ) ≤ 2 ^ 32 := by exact_mod_cast h.le
  have htime : (n : ℚ) ≤ 10 ^ 9 * 2 ^ 64 := by exact_mod_cast hn.le
  have hexact : a.val + perMinute / (60 * 10 ^ 9) * n ≤ 2 ^ 32 + 2 ^ 32 / (60 * 10 ^ 9) * (10 ^ 9 * 2 ^ 64) := by gcongr
  refine (refilled_near h capacity ha n).most.trans_lt ((mul_le_mul_of_nonneg_right hexact ?_).trans_lt ?_)
  · exact pow_nonneg (add_nonneg zero_le_one unit_pos.le) 5
  · rw [unit_eq]
    norm_num

/-! ## Buckets -/

theorem perSecond_nonneg (perMinute capacity : Nat) : 0 ≤ (f64Rule perMinute capacity).perSecond.val :=
  round_nonneg (div_nonneg (round_nonneg (Nat.cast_nonneg _)) (round_nonneg (Nat.cast_nonneg _)))

theorem add_asSecs_zero (a b : F64) : a + asSecsF64 0 * b = a := by
  have hzero : (asSecsF64 0).val = 0 := by decide +kernel
  refine Subtype.ext ?_
  rw [Number.val_add, Number.val_mul, hzero, zero_mul, round_zero, add_zero]
  exact a.property

theorem steady (perMinute capacity : Nat) : TokenBucket.Steady asSecsF64 (f64Rule perMinute capacity) where
  still a := (add_asSecs_zero a _).ge
  grows a m n h := by
    refine round_mono (add_le_add_right (round_mono ?_) _)
    exact mul_le_mul_of_nonneg_right (asSecsF64_mono h) (perSecond_nonneg perMinute capacity)

theorem faster (a : F64) (n : Nat) {p q : Nat} (h : p ≤ q) (capacity : Nat) :
    a + asSecsF64 n * (f64Rule p capacity).perSecond ≤ a + asSecsF64 n * (f64Rule q capacity).perSecond := by
  have hsecs : 0 ≤ (asSecsF64 n).val := (asSecsF64_near n).nonneg (by positivity)
  refine round_mono (add_le_add_right (round_mono (mul_le_mul_of_nonneg_left (round_mono ?_) hsecs)) _)
  refine div_le_div_of_nonneg_right (round_mono ?_) (round_nonneg (Nat.cast_nonneg _))
  exact_mod_cast h

/-- Up to a capacity, five roundings stray by less than a part of it. -/
theorem min_le_of_near {x y c : ℚ} (h : binary64.Near 5 y x) (hx : 0 ≤ x) (hc : 0 ≤ c) : min y c ≤ x + c / 2 ^ 50 := by
  obtain hle | hlt := le_or_gt x c
  · have hfive : (1 + binary64.unit) ^ 5 ≤ 1 + 1 / 2 ^ 50 := by
      rw [unit_eq]
      norm_num
    have hy := h.most.trans (mul_le_mul_of_nonneg_left hfive hx)
    exact (min_le_left _ _).trans (by linarith)
  · exact (min_le_right _ _).trans (by linarith)

theorem le_min_of_near {x y c : ℚ} (h : binary64.Near 5 y x) (hx : 0 ≤ x) (hc : 0 ≤ c) : min (x - c / 2 ^ 50) c ≤ min y c := by
  have hfive : 1 - 5 / 2 ^ 53 ≤ (1 - binary64.unit) ^ 5 := by
    rw [unit_eq]
    norm_num
  have hy := (mul_le_mul_of_nonneg_left hfive hx).trans h.least
  refine le_min ?_ (min_le_right _ _)
  obtain hle | hlt := le_or_gt x (8 / 5 * c)
  · exact (min_le_left _ _).trans (by linarith)
  · -- so far past the capacity, no rounding comes back to it
    exact (min_le_right _ _).trans (by linarith)

/-- Buckets of doubles count, and a refill strays by the capacity over `2 ^ 50` at most. -/
theorem counts {perMinute capacity : Nat} (hrate : perMinute < 2 ^ 32) (hcapacity : capacity < 2 ^ 32) :
    TokenBucket.Counts asSecsF64 (f64Rule perMinute capacity) Subtype.val (perMinute / (60 * 10 ^ 9)) (capacity / 2 ^ 50) := by
  have hcap : (f64Rule perMinute capacity).capacity.val = capacity := val_natCast (hcapacity.le.trans (by decide))
  have hlt : (capacity : ℚ) < 2 ^ 53 := by exact_mod_cast hcapacity.trans (by decide)
  have hone : ((1 : Nat) : F64).val = 1 := val_natCast (by decide)
  refine ⟨steady perMinute capacity, fun a => add_asSecs_zero a _, Number.val_strictMono, hone, ?_, ?_, ?_, ?_, by positivity, by positivity⟩
  · rw [hcap]
    positivity
  · intro a hle hmost
    have hge : (1 : ℚ) ≤ a.val := by
      rw [← hone]
      exact hle
    have hbelow : a.val < 2 ^ 53 := lt_of_le_of_lt (le_of_le_of_eq hmost hcap) hlt
    rw [Number.val_sub, hone]
    exact round_sub_one a.property hge hbelow (by decide)
  · intro a n ha _
    rw [Number.val_min, hcap]
    exact min_le_of_near (refilled_near hrate capacity ha n) (add_nonneg ha (by positivity)) (Nat.cast_nonneg _)
  · intro a n ha _
    rw [Number.val_min, hcap]
    exact le_min_of_near (refilled_near hrate capacity ha n) (add_nonneg ha (by positivity)) (Nat.cast_nonneg _)

end F64

end Misty
