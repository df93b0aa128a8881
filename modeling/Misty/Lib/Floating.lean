import Mathlib

/- Binary floating point: rationals rounded to so many significant bits, to the nearest and
   of two that are as near to the even one, with a least place past which no bit goes. A
   format has no greatest number: what a machine's format rounds to an infinity is a number
   here.

   What is proved:
     1. `round_grid`, `exists_grid` — the numbers of a format are the multiples of a power of
        two, from the least on, that have no more bits than there are.
     2. `round_mono` — rounding keeps the order.
     3. `abs_round_sub_le` — it strays by half a last place, so by a part of the number that
        the bits tell.
     4. `round_add_of_lt` — a number too large to show a one does not show less than it.
     5. `Near` and its rules — how far sums and products of roundings stray. -/
namespace Misty

namespace Floating

/-! ## Integers -/

/-- The nearest integer, of two the even one. -/
def nearest (x : ℚ) : ℤ := if x - ⌊x⌋ < 1 / 2 ∨ x - ⌊x⌋ = 1 / 2 ∧ ⌊x⌋ % 2 = 0 then ⌊x⌋ else ⌊x⌋ + 1

/-- No integer is nearer, and if one is as near this is the even one. -/
def Nearest (x : ℚ) (n : ℤ) : Prop := |x - n| < 1 / 2 ∨ |x - n| = 1 / 2 ∧ n % 2 = 0

theorem nearest_spec (x : ℚ) : Nearest x (nearest x) := by
  have hle := Int.floor_le x
  have hlt := Int.lt_floor_add_one x
  unfold nearest Nearest
  split
  · rwa [abs_of_nonneg (by linarith)]
  · next hnot =>
    obtain ⟨hfar, htie⟩ := not_or.mp hnot
    rw [Int.cast_add, Int.cast_one, abs_of_nonpos (by linarith)]
    obtain hhalf | hhalf := (not_lt.mp hfar).lt_or_eq
    · exact .inl (by linarith)
    · have hodd : ⌊x⌋ % 2 ≠ 0 := fun h => htie ⟨hhalf.symm, h⟩
      exact .inr ⟨by linarith, by omega⟩

theorem Nearest.le {x : ℚ} {n : ℤ} (h : Nearest x n) : |x - n| ≤ 1 / 2 := h.elim le_of_lt (fun h => h.1.le)

theorem Nearest.mono {x y : ℚ} {m n : ℤ} (hx : Nearest x m) (hy : Nearest y n) (hxy : x ≤ y) : m ≤ n := by
  by_contra hlt
  have hcast : (n : ℚ) + 1 ≤ m := by exact_mod_cast not_le.mp hlt
  have hm := abs_le.mp hx.le
  have hn := abs_le.mp hy.le
  -- only a tie is left, and then they are next to each other and both even
  have hsame : (m : ℚ) = n + 1 := by linarith
  obtain hx | ⟨-, hx⟩ := hx
  · have := abs_lt.mp hx
    linarith
  · obtain hy | ⟨-, hy⟩ := hy
    · have := abs_lt.mp hy
      linarith
    · have hnext : m = n + 1 := by exact_mod_cast hsame
      omega

theorem Nearest.eq {x : ℚ} {n : ℤ} (h : Nearest x n) : nearest x = n :=
  le_antisymm ((nearest_spec x).mono h le_rfl) (h.mono (nearest_spec x) le_rfl)

theorem nearest_mono {x y : ℚ} (h : x ≤ y) : nearest x ≤ nearest y := (nearest_spec x).mono (nearest_spec y) h

@[simp] theorem nearest_intCast (n : ℤ) : nearest n = n := Nearest.eq (.inl (by norm_num))

theorem nearest_neg (x : ℚ) : nearest (-x) = -nearest x := by
  refine Nearest.eq ?_
  have hflip : |-x - ((-nearest x : ℤ) : ℚ)| = |x - nearest x| := by
    rw [Int.cast_neg, ← neg_add_eq_sub, neg_neg, ← sub_eq_add_neg, abs_sub_comm]
  obtain h | ⟨h, heven⟩ := nearest_spec x
  · exact .inl (hflip.trans_lt h)
  · exact .inr ⟨hflip.trans h, by omega⟩

/-! ## Rounding -/

/-- A binary format: the bits of a significand, and the place of the last bit of the least numbers. -/
structure Format where
  precision : ℕ
  least : ℤ
  positive : 0 < precision

namespace Format

variable (fmt : Format)

/-- The place of the last bit of a number. -/
def place (x : ℚ) : ℤ := max (Int.log 2 |x| + 1 - fmt.precision) fmt.least

def round (x : ℚ) : ℚ := nearest (x / 2 ^ fmt.place x) * 2 ^ fmt.place x

variable {fmt} {x y : ℚ}

theorem two_zpow_pos (e : ℤ) : (0 : ℚ) < 2 ^ e := zpow_pos two_pos e

theorem round_neg (x : ℚ) : fmt.round (-x) = -fmt.round x := by
  unfold round place
  rw [abs_neg, neg_div, nearest_neg, Int.cast_neg, neg_mul]

@[simp] theorem round_zero : fmt.round 0 = 0 := by
  have hnone : nearest 0 = 0 := nearest_intCast 0
  unfold round
  rw [zero_div, hnone, Int.cast_zero, zero_mul]

/-- Below a power of two, the last place is that many bits below it, or the least. -/
theorem place_le {k : ℤ} (hx : x ≠ 0) (h : |x| < 2 ^ k) : fmt.place x ≤ max (k - fmt.precision) fmt.least := by
  have hlog : Int.log 2 |x| < k := (Int.lt_zpow_iff_log_lt one_lt_two (abs_pos.mpr hx)).mp (by exact_mod_cast h)
  exact max_le_max (by omega) le_rfl

theorem abs_lt_place (x : ℚ) : |x| < 2 ^ (fmt.place x + fmt.precision) := by
  have hlog : |x| < 2 ^ (Int.log 2 |x| + 1) := by exact_mod_cast Int.lt_zpow_succ_log_self one_lt_two |x|
  refine hlog.trans_le (zpow_le_zpow_right₀ one_le_two ?_)
  have hplace : Int.log 2 |x| + 1 - fmt.precision ≤ fmt.place x := le_max_left _ _
  omega

theorem round_of_place {k : ℤ} (h : x = k * 2 ^ fmt.place x) : fmt.round x = x := by
  have hdiv : x / 2 ^ fmt.place x = k := by
    rw [div_eq_iff (two_zpow_pos _).ne']
    exact h
  unfold round
  rw [hdiv, nearest_intCast]
  exact h.symm

theorem round_grid_lt {m e : ℤ} (hm : |m| < 2 ^ fmt.precision) (he : fmt.least ≤ e) :
    fmt.round (m * 2 ^ e) = m * 2 ^ e := by
  by_cases hzero : m = 0
  · rw [hzero, Int.cast_zero, zero_mul, round_zero]
  have hx : (m : ℚ) * 2 ^ e ≠ 0 := mul_ne_zero (Int.cast_ne_zero.mpr hzero) (two_zpow_pos e).ne'
  have hlt : |(m : ℚ) * 2 ^ e| < 2 ^ (fmt.precision + e : ℤ) := by
    have hcast : |(m : ℚ)| < 2 ^ fmt.precision := by exact_mod_cast hm
    rw [abs_mul, abs_of_pos (two_zpow_pos e), zpow_add₀ two_ne_zero, zpow_natCast]
    exact mul_lt_mul_of_pos_right hcast (two_zpow_pos e)
  have hplace : fmt.place (m * 2 ^ e) ≤ e := (place_le hx hlt).trans (max_le (by omega) he)
  obtain ⟨d, hd⟩ := Int.eq_ofNat_of_zero_le (sub_nonneg.mpr hplace)
  refine @round_of_place _ _ (m * 2 ^ d) ?_
  have hsplit : e = d + fmt.place (m * 2 ^ e) := by omega
  conv_lhs => rw [hsplit]
  rw [zpow_add₀ two_ne_zero, zpow_natCast, ← mul_assoc]
  push_cast
  rfl

/-- What has no more bits than there are, and none past the least place, is a number. -/
theorem round_grid {m e : ℤ} (hm : |m| ≤ 2 ^ fmt.precision) (he : fmt.least ≤ e) : fmt.round (m * 2 ^ e) = m * 2 ^ e := by
  obtain hlt | heq := hm.lt_or_eq
  · exact round_grid_lt hlt he
  · -- one bit more, and that is the one of the next place
    obtain ⟨p, hp⟩ := Nat.exists_eq_succ_of_ne_zero fmt.positive.ne'
    obtain ⟨k, rfl⟩ : ∃ k, m = 2 * k := by
      have hdvd : (2 : ℤ) ∣ |m| := by
        rw [heq, hp, pow_succ]
        exact dvd_mul_left _ _
      exact (dvd_abs _ _).mp hdvd
    have hk : |k| < 2 ^ fmt.precision := by
      rw [abs_mul, abs_two] at heq
      have hpos : (0 : ℤ) < 2 ^ fmt.precision := by positivity
      omega
    have hnext := @round_grid_lt fmt k (e + 1) hk (by omega)
    rw [zpow_add_one₀ two_ne_zero] at hnext
    have heq : (((2 * k : ℤ) : ℚ) * 2 ^ e) = k * (2 ^ e * 2) := by
      push_cast
      ring
    rwa [heq]

theorem exists_grid (x : ℚ) : ∃ m : ℤ, |m| ≤ 2 ^ fmt.precision ∧ fmt.round x = m * 2 ^ fmt.place x := by
  refine ⟨nearest (x / 2 ^ fmt.place x), ?_, rfl⟩
  have hlt : |x / 2 ^ fmt.place x| < 2 ^ fmt.precision := by
    rw [abs_div, abs_of_pos (two_zpow_pos _), div_lt_iff₀ (two_zpow_pos _), ← zpow_natCast, ← zpow_add₀ two_ne_zero, add_comm]
    exact abs_lt_place x
  have hbounds := abs_lt.mp hlt
  have hup := nearest_mono (le_of_lt hbounds.2)
  have hdown := nearest_mono (le_of_lt hbounds.1)
  have hint : nearest ((2 : ℚ) ^ fmt.precision) = 2 ^ fmt.precision := by exact_mod_cast nearest_intCast (2 ^ fmt.precision)
  rw [nearest_neg] at hdown
  rw [hint] at hup hdown
  exact abs_le.mpr ⟨hdown, hup⟩

@[simp] theorem round_round (x : ℚ) : fmt.round (fmt.round x) = fmt.round x := by
  obtain ⟨m, hm, hx⟩ := @exists_grid fmt x
  rw [hx]
  exact round_grid hm (le_max_right _ _)

/-! ## Order -/

theorem place_mono (hx : x ≠ 0) (h : |x| ≤ |y|) : fmt.place x ≤ fmt.place y :=
  max_le_max (by have hlog := Int.log_mono_right (b := 2) (abs_pos.mpr hx) h; omega) le_rfl

theorem round_nonneg (h : 0 ≤ x) : 0 ≤ fmt.round x := by
  have hnearest := nearest_mono (div_nonneg h (two_zpow_pos (fmt.place x)).le)
  rw [show nearest 0 = 0 from nearest_intCast 0] at hnearest
  exact mul_nonneg (by exact_mod_cast hnearest) (two_zpow_pos _).le

/-- A number with an earlier last place is no more than the least number of those with this one. -/
theorem round_mono_of_place (hlt : fmt.place x < fmt.place y) (hy : 0 < y) : fmt.round x ≤ fmt.round y := by
  obtain ⟨p, hp⟩ := Nat.exists_eq_succ_of_ne_zero fmt.positive.ne'
  obtain ⟨m, hm, hround⟩ := @exists_grid fmt x
  have hle : fmt.round x ≤ 2 ^ p * 2 ^ fmt.place y := by
    have hcast : (m : ℚ) ≤ 2 ^ fmt.precision := by exact_mod_cast (le_abs_self m).trans hm
    calc fmt.round x = m * 2 ^ fmt.place x := hround
      _ ≤ 2 ^ fmt.precision * 2 ^ fmt.place x := mul_le_mul_of_nonneg_right hcast (two_zpow_pos _).le
      _ = 2 ^ p * 2 ^ (fmt.place x + 1) := by rw [hp, Nat.succ_eq_add_one, pow_succ, zpow_add_one₀ two_ne_zero]; ring
      _ ≤ 2 ^ p * 2 ^ fmt.place y :=
        mul_le_mul_of_nonneg_left (zpow_le_zpow_right₀ one_le_two hlt) (by positivity)
  have hlog : fmt.place y = Int.log 2 |y| + 1 - fmt.precision := by
    have hnot : fmt.least < fmt.place y := (le_max_right _ _).trans_lt hlt
    exact (max_choice _ _).resolve_right hnot.ne'
  have hleast : (2 : ℚ) ^ p ≤ y / 2 ^ fmt.place y := by
    have hself : (2 : ℚ) ^ Int.log 2 |y| ≤ |y| := by exact_mod_cast Int.zpow_log_le_self one_lt_two (abs_pos.mpr hy.ne')
    rw [abs_of_pos hy] at hself
    rw [le_div_iff₀ (two_zpow_pos _), ← zpow_natCast, ← zpow_add₀ two_ne_zero]
    refine le_trans (le_of_eq (congrArg _ ?_)) hself
    rw [hlog, abs_of_pos hy]
    push_cast [hp]
    ring
  have hnearest := nearest_mono hleast
  rw [show nearest ((2 : ℚ) ^ p) = 2 ^ p by exact_mod_cast nearest_intCast (2 ^ p)] at hnearest
  exact hle.trans (mul_le_mul_of_nonneg_right (by exact_mod_cast hnearest) (two_zpow_pos _).le)

theorem round_mono_nonneg (hx : 0 ≤ x) (h : x ≤ y) : fmt.round x ≤ fmt.round y := by
  obtain rfl | hpos := hx.eq_or_lt
  · rw [round_zero]
    exact round_nonneg h
  have hplace : fmt.place x ≤ fmt.place y := by
    refine place_mono hpos.ne' ?_
    rwa [abs_of_pos hpos, abs_of_pos (hpos.trans_le h)]
  obtain hlt | heq := hplace.lt_or_eq
  · exact round_mono_of_place hlt (hpos.trans_le h)
  · unfold round
    rw [heq]
    refine mul_le_mul_of_nonneg_right ?_ (two_zpow_pos _).le
    exact_mod_cast nearest_mono (div_le_div_of_nonneg_right h (two_zpow_pos _).le)

theorem round_mono (h : x ≤ y) : fmt.round x ≤ fmt.round y := by
  obtain hx | hx := le_total 0 x
  · exact round_mono_nonneg hx h
  · have hneg : fmt.round x ≤ 0 := by
      have hround := @round_nonneg fmt _ (neg_nonneg.mpr hx)
      rw [round_neg] at hround
      linarith
    obtain hy | hy := le_total 0 y
    · exact hneg.trans (round_nonneg hy)
    · have hround := @round_mono_nonneg fmt _ _ (neg_nonneg.mpr hy) (neg_le_neg h)
      rw [round_neg, round_neg] at hround
      exact neg_le_neg_iff.mp hround

/-! ## How far it strays -/

theorem abs_round_sub_place_le (x : ℚ) : |fmt.round x - x| ≤ 2 ^ fmt.place x / 2 := by
  have hpos := two_zpow_pos (fmt.place x)
  have hsplit : fmt.round x - x = -((x / 2 ^ fmt.place x - nearest (x / 2 ^ fmt.place x)) * 2 ^ fmt.place x) := by
    unfold round
    rw [sub_mul, div_mul_cancel₀ _ hpos.ne', neg_sub]
  rw [hsplit, abs_neg, abs_mul, abs_of_pos hpos]
  have hhalf := mul_le_mul_of_nonneg_right (nearest_spec (x / 2 ^ fmt.place x)).le hpos.le
  linarith

variable (fmt) in
/-- The numbers whose rounding strays by no more than their bits tell: those with bits to spare
above the least place, and those that have no bit past it. -/
def Regular (x : ℚ) : Prop := 2 ^ (fmt.least + fmt.precision) ≤ |x| ∨ ∃ k : ℤ, x = k * 2 ^ fmt.least

/-- Rounding strays by a part of the number. -/
theorem abs_round_sub_le (h : fmt.Regular x) : |fmt.round x - x| ≤ |x| / 2 ^ fmt.precision := by
  by_cases hzero : x = 0
  · rw [hzero, round_zero]
    simp
  have hpos : 0 < |x| := abs_pos.mpr hzero
  by_cases hplace : fmt.place x = Int.log 2 |x| + 1 - fmt.precision
  · refine (abs_round_sub_place_le x).trans ?_
    have hself : (2 : ℚ) ^ Int.log 2 |x| ≤ |x| := by exact_mod_cast Int.zpow_log_le_self one_lt_two hpos
    rw [hplace, zpow_sub₀ two_ne_zero, zpow_natCast, zpow_add_one₀ two_ne_zero, div_div, mul_comm _ (2 : ℚ), mul_comm _ (2 : ℚ),
      mul_div_mul_left _ _ two_ne_zero]
    exact div_le_div_of_nonneg_right hself (by positivity)
  · have hleast : fmt.place x = fmt.least := (max_choice _ _).resolve_left hplace
    obtain hlarge | ⟨k, hk⟩ := h
    · have hlog : fmt.least + fmt.precision ≤ Int.log 2 |x| :=
        (Int.zpow_le_iff_le_log one_lt_two hpos).mp (by exact_mod_cast hlarge)
      unfold place at hleast
      omega
    · rw [round_of_place (hk.trans (by rw [hleast])), sub_self, abs_zero]
      positivity

theorem round_multiple (x : ℚ) : ∃ k : ℤ, fmt.round x = k * 2 ^ fmt.least := by
  obtain ⟨m, -, hm⟩ := @exists_grid fmt x
  obtain ⟨d, hd⟩ := Int.eq_ofNat_of_zero_le (sub_nonneg.mpr (show fmt.least ≤ fmt.place x from le_max_right _ _))
  have hpow : (2 : ℚ) ^ fmt.place x = 2 ^ d * 2 ^ fmt.least := by
    rw [show fmt.place x = d + fmt.least by omega, zpow_add₀ two_ne_zero, zpow_natCast]
  refine ⟨m * 2 ^ d, ?_⟩
  rw [hm, hpow]
  push_cast
  ring

/-- Numbers add up to something whose rounding strays by no more than its bits tell. -/
theorem regular_add (hx : fmt.round x = x) (hy : fmt.round y = y) : fmt.Regular (x + y) := by
  obtain ⟨k, hk⟩ := @round_multiple fmt x
  obtain ⟨l, hl⟩ := @round_multiple fmt y
  refine .inr ⟨k + l, ?_⟩
  rw [← hx, ← hy, hk, hl]
  push_cast
  ring

theorem regular_natCast (h : fmt.least ≤ 0) (n : ℕ) : fmt.Regular n := by
  obtain ⟨d, hd⟩ := Int.eq_ofNat_of_zero_le (neg_nonneg.mpr h)
  have hpow : (2 : ℚ) ^ d * 2 ^ fmt.least = 1 := by
    rw [← zpow_natCast, ← zpow_add₀ two_ne_zero, show (d : ℤ) + fmt.least = 0 by omega, zpow_zero]
  refine .inr ⟨n * 2 ^ d, ?_⟩
  push_cast
  rw [mul_assoc, hpow, mul_one]

/-- A number too large to show a one does not show less than it. -/
theorem round_add_of_lt {f : ℚ} (hx : fmt.round x = x) (hlarge : 2 ^ fmt.precision ≤ x) (hf : 0 ≤ f) (hf' : f < 1) :
    fmt.round (x + f) = x := by
  have hpos : 0 < x := lt_of_lt_of_le (by positivity) hlarge
  obtain ⟨k, -, hk⟩ := @exists_grid fmt x
  rw [hx] at hk
  have hplace : 1 ≤ fmt.place x := by
    have hlog : (fmt.precision : ℤ) ≤ Int.log 2 |x| := by
      refine (Int.zpow_le_iff_le_log one_lt_two (abs_pos.mpr hpos.ne')).mp ?_
      rw [abs_of_pos hpos, zpow_natCast]
      exact_mod_cast hlarge
    exact le_trans (by omega) (le_max_left _ _)
  have htwo : (2 : ℚ) ≤ 2 ^ fmt.place x := (zpow_one (2 : ℚ)).ge.trans (zpow_le_zpow_right₀ one_le_two hplace)
  -- There is room for one more of its last place below the next power of two.
  have hroom : x + f < 2 ^ (fmt.place x + fmt.precision) := by
    have hlt := @abs_lt_place fmt x
    rw [abs_of_pos hpos, zpow_add₀ two_ne_zero, mul_comm] at hlt
    have hkp : (k : ℚ) < 2 ^ (fmt.precision : ℤ) := lt_of_mul_lt_mul_right (hk.symm.trans_lt hlt) (two_zpow_pos _).le
    have hnext : (k : ℚ) + 1 ≤ 2 ^ (fmt.precision : ℤ) := by
      rw [zpow_natCast] at hkp ⊢
      exact_mod_cast hkp
    have hmul := mul_le_mul_of_nonneg_right hnext (two_zpow_pos (fmt.place x)).le
    rw [zpow_add₀ two_ne_zero, mul_comm]
    rw [add_mul, one_mul, ← hk] at hmul
    linarith
  have hsame : fmt.place (x + f) = fmt.place x := by
    refine le_antisymm ?_ (place_mono hpos.ne' (by rw [abs_of_pos hpos, abs_of_nonneg (by linarith)]; linarith))
    have hle := @place_le fmt (x + f) _ (by linarith) ((abs_of_nonneg (by linarith : 0 ≤ x + f)).trans_lt hroom)
    rwa [add_sub_cancel_right, max_eq_left (show fmt.least ≤ fmt.place x from le_max_right _ _)] at hle
  have hnearest : nearest ((x + f) / 2 ^ fmt.place x) = k := by
    refine Nearest.eq (.inl ?_)
    have hsplit : (x + f) / 2 ^ fmt.place x - k = f / 2 ^ fmt.place x := by
      rw [add_div, show x / 2 ^ fmt.place x = k from (div_eq_iff (two_zpow_pos _).ne').mpr hk, add_sub_cancel_left]
    rw [hsplit, abs_of_nonneg (div_nonneg hf (two_zpow_pos _).le), div_lt_iff₀ (two_zpow_pos _)]
    linarith
  rw [round, hsame, hnearest]
  exact hk.symm

/-- A number from one on with bits to spare for it, less one, is a number. -/
theorem round_sub_one (hx : fmt.round x = x) (hone : 1 ≤ x) (hlt : x < 2 ^ fmt.precision) (hleast : fmt.least ≤ 0) :
    fmt.round (x - 1) = x - 1 := by
  obtain ⟨k, hk, hgrid⟩ := @exists_grid fmt x
  rw [hx] at hgrid
  have hpos : 0 < x := zero_lt_one.trans_le hone
  have hplace : fmt.place x ≤ 0 := by
    have hle := @place_le fmt x fmt.precision hpos.ne' (by rwa [abs_of_pos hpos, zpow_natCast])
    rwa [sub_self, max_eq_left hleast] at hle
  obtain ⟨d, hd⟩ := Int.eq_ofNat_of_zero_le (neg_nonneg.mpr hplace)
  have hpow : (2 : ℚ) ^ d * 2 ^ fmt.place x = 1 := by
    rw [← zpow_natCast, ← zpow_add₀ two_ne_zero, show (d : ℤ) + fmt.place x = 0 by omega, zpow_zero]
  have hsplit : x - 1 = ((k - 2 ^ d : ℤ) : ℚ) * 2 ^ fmt.place x := by
    push_cast
    rw [sub_mul, hpow, ← hgrid]
  have hle : (2 : ℤ) ^ d ≤ k := by
    have hcast : (2 : ℚ) ^ d * 2 ^ fmt.place x ≤ k * 2 ^ fmt.place x := by rwa [hpow, ← hgrid]
    exact_mod_cast le_of_mul_le_mul_right hcast (two_zpow_pos _)
  have hrange : |k - 2 ^ d| ≤ 2 ^ fmt.precision := by
    have hone : (0 : ℤ) < 2 ^ d := by positivity
    rw [abs_of_nonneg (sub_nonneg.mpr hle)]
    linarith [le_abs_self k]
  rw [hsplit]
  exact round_grid hrange (le_max_right _ _)

/-! ## Roundings one after another -/

variable (fmt) in
/-- What one rounding strays by at most, for a number of size one. -/
def unit : ℚ := 1 / 2 ^ fmt.precision

theorem unit_pos : 0 < fmt.unit := by
  unfold unit
  positivity

theorem unit_le_one : fmt.unit ≤ 1 := by
  unfold unit
  rw [div_le_one (by positivity)]
  exact_mod_cast Nat.one_le_two_pow

variable (fmt) in
/-- What so many roundings may make of `y`. -/
structure Near (j : ℕ) (x y : ℚ) : Prop where
  least : y * (1 - fmt.unit) ^ j ≤ x
  most : x ≤ y * (1 + fmt.unit) ^ j

namespace Near

variable {j k : ℕ} {x' y' : ℚ}

theorem refl (x : ℚ) : fmt.Near 0 x x := ⟨by simp, by simp⟩

theorem nonneg (h : fmt.Near j x y) (hy : 0 ≤ y) : 0 ≤ x :=
  (mul_nonneg hy (pow_nonneg (sub_nonneg.mpr unit_le_one) j)).trans h.least

theorem mono (h : fmt.Near j x y) (hy : 0 ≤ y) (hjk : j ≤ k) : fmt.Near k x y where
  least := (mul_le_mul_of_nonneg_left
    (pow_le_pow_of_le_one (sub_nonneg.mpr unit_le_one) (sub_le_self 1 unit_pos.le) hjk) hy).trans h.least
  most := h.most.trans (mul_le_mul_of_nonneg_left (pow_le_pow_right₀ (le_add_of_nonneg_right unit_pos.le) hjk) hy)

theorem add (h : fmt.Near j x y) (h' : fmt.Near j x' y') : fmt.Near j (x + x') (y + y') where
  least := by
    rw [add_mul]
    exact add_le_add h.least h'.least
  most := by
    rw [add_mul]
    exact add_le_add h.most h'.most

theorem mul (h : fmt.Near j x y) (h' : fmt.Near k x' y') (hy : 0 ≤ y) (hy' : 0 ≤ y') : fmt.Near (j + k) (x * x') (y * y') where
  least := by
    have hunit : (0 : ℚ) ≤ 1 - fmt.unit := sub_nonneg.mpr unit_le_one
    rw [pow_add, mul_mul_mul_comm]
    exact mul_le_mul h.least h'.least (mul_nonneg hy' (pow_nonneg hunit k)) (h.nonneg hy)
  most := by
    have hunit : (0 : ℚ) ≤ 1 + fmt.unit := add_nonneg zero_le_one unit_pos.le
    rw [pow_add, mul_mul_mul_comm]
    exact mul_le_mul h.most h'.most (h'.nonneg hy') (mul_nonneg hy (pow_nonneg hunit j))

theorem round (h : fmt.Near j x y) (hy : 0 ≤ y) (hregular : fmt.Regular x) : fmt.Near (j + 1) (fmt.round x) y := by
  have hstray := abs_round_sub_le hregular
  rw [abs_of_nonneg (h.nonneg hy), div_eq_mul_one_div, ← unit] at hstray
  obtain ⟨hlow, hhigh⟩ := abs_le.mp hstray
  constructor
  · calc y * (1 - fmt.unit) ^ (j + 1) = y * (1 - fmt.unit) ^ j * (1 - fmt.unit) := by rw [pow_succ, mul_assoc]
      _ ≤ x * (1 - fmt.unit) := mul_le_mul_of_nonneg_right h.least (sub_nonneg.mpr unit_le_one)
      _ ≤ fmt.round x := by linarith
  · calc fmt.round x ≤ x * (1 + fmt.unit) := by linarith
      _ ≤ y * (1 + fmt.unit) ^ j * (1 + fmt.unit) := mul_le_mul_of_nonneg_right h.most (add_nonneg zero_le_one unit_pos.le)
      _ = y * (1 + fmt.unit) ^ (j + 1) := by rw [pow_succ, mul_assoc]

/-- What is near nothing, or near something with bits to spare, strays by no more than its bits tell when it is rounded. -/
theorem regular (h : fmt.Near j x y) (hy : y = 0 ∨ 2 ^ (fmt.least + fmt.precision) ≤ y * (1 - fmt.unit) ^ j) : fmt.Regular x := by
  obtain rfl | hlarge := hy
  · have hzero : x = 0 := by
      have hleast := h.least
      have hmost := h.most
      rw [zero_mul] at hleast hmost
      exact le_antisymm hmost hleast
    exact .inr ⟨0, by rw [hzero, Int.cast_zero, zero_mul]⟩
  · exact .inl (hlarge.trans (h.least.trans (le_abs_self x)))

end Near

/-! ## Numbers -/

variable (fmt) in
/-- A number of a format: one that rounding leaves. -/
def Number : Type := { x : ℚ // fmt.round x = x }

namespace Number

variable {a b : fmt.Number}

instance : LinearOrder fmt.Number := inferInstanceAs (LinearOrder { x : ℚ // fmt.round x = x })

/-- The number a rational is rounded to. -/
def ofRat (fmt : Format) (x : ℚ) : fmt.Number := ⟨fmt.round x, round_round x⟩

instance : Add fmt.Number := ⟨fun a b => ofRat fmt (a.val + b.val)⟩

instance : Sub fmt.Number := ⟨fun a b => ofRat fmt (a.val - b.val)⟩

instance : Mul fmt.Number := ⟨fun a b => ofRat fmt (a.val * b.val)⟩

instance : Div fmt.Number := ⟨fun a b => ofRat fmt (a.val / b.val)⟩

instance : NatCast fmt.Number := ⟨fun n => ofRat fmt n⟩

theorem val_add (a b : fmt.Number) : (a + b).val = fmt.round (a.val + b.val) := rfl

theorem val_sub (a b : fmt.Number) : (a - b).val = fmt.round (a.val - b.val) := rfl

theorem val_mul (a b : fmt.Number) : (a * b).val = fmt.round (a.val * b.val) := rfl

theorem val_div (a b : fmt.Number) : (a / b).val = fmt.round (a.val / b.val) := rfl

theorem val_min (a b : fmt.Number) : (min a b).val = min a.val b.val := Monotone.map_min (fun _ _ h => h)

theorem val_strictMono : StrictMono (Subtype.val : fmt.Number → ℚ) := fun _ _ h => h

end Number

theorem round_natCast {n : ℕ} (hn : n ≤ 2 ^ fmt.precision) (h : fmt.least ≤ 0) : fmt.round n = n := by
  have hgrid := @round_grid fmt n 0 (by rw [Nat.abs_cast]; exact_mod_cast hn) h
  simpa using hgrid

end Format

/-- The numbers of a double. -/
def binary64 : Format := ⟨53, -1074, by decide⟩

end Floating

end Misty
