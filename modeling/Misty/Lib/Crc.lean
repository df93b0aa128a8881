import Misty.Lib.Bytes
import Mathlib.Data.BitVec
import Mathlib.Data.List.Basic
import Mathlib.Tactic.Common

/- Reflected cyclic redundancy checks of 32 bits. A shift of the remainder is linear in
   exclusive or and, when the polynomial has its high bit set, one to one; so a remainder
   says which it was before any number of octets, and four octets in a row are read from
   the remainder they leave. That is what makes a burst of errors visible. -/
namespace Misty.Crc

/-- One bit: the remainder moves down, and the polynomial is added for a bit that falls out. -/
def shift (poly crc : BitVec 32) : BitVec 32 :=
  if crc.getLsbD 0 then (crc >>> 1) ^^^ poly else crc >>> 1

def shifts (poly : BitVec 32) : Nat → BitVec 32 → BitVec 32
  | 0, crc => crc
  | n + 1, crc => shifts poly n (shift poly crc)

/-- One octet. -/
def step (poly crc : BitVec 32) (octet : Fin 256) : BitVec 32 :=
  shifts poly 8 (crc ^^^ BitVec.ofNat 32 octet.val)

/-- The octets of a list as one word, the first lowest. -/
def pack (octets : List (Fin 256)) : BitVec 32 := BitVec.ofNat 32 (ofLe octets)

variable {poly a b c : BitVec 32} {n : Nat}

/-! ## Linearity -/

theorem shift_xor : shift poly (a ^^^ b) = shift poly a ^^^ shift poly b := by
  unfold shift
  rw [BitVec.getLsbD_xor, BitVec.ushiftRight_xor_distrib]
  cases a.getLsbD 0 <;> cases b.getLsbD 0
  · rfl
  · simp only [Bool.false_xor, if_true, Bool.false_eq_true, if_false, BitVec.xor_assoc]
  · simp only [Bool.xor_false, if_true, Bool.false_eq_true, if_false]
    ac_rfl
  · simp only [Bool.xor_self, Bool.false_eq_true, if_false, if_true]
    calc (a >>> 1) ^^^ (b >>> 1) = (a >>> 1) ^^^ (b >>> 1) ^^^ (poly ^^^ poly) := by rw [BitVec.xor_self, BitVec.xor_zero]
      _ = _ := by ac_rfl

theorem shifts_xor : shifts poly n (a ^^^ b) = shifts poly n a ^^^ shifts poly n b := by
  induction n generalizing a b with
  | zero => rfl
  | succ n ih => rw [shifts, shift_xor, ih, shifts, shifts]

theorem shifts_add (m : Nat) : shifts poly (m + n) c = shifts poly n (shifts poly m c) := by
  induction m generalizing c with
  | zero => rw [Nat.zero_add, shifts]
  | succ m ih => rw [Nat.succ_add, shifts, ih, shifts]

/-- What falls out of the bottom says whether the polynomial was added on top. -/
theorem shift_eq_zero (hpoly : poly.getLsbD 31 = true) (h : shift poly c = 0#32) : c = 0#32 := by
  unfold shift at h
  cases hlow : c.getLsbD 0 with
  | true =>
    rw [hlow, if_pos rfl] at h
    have htop := congrArg (fun x : BitVec 32 => x.getLsbD 31) h
    rw [BitVec.getLsbD_xor, hpoly, BitVec.getLsbD_ushiftRight, BitVec.getLsbD_of_ge c (1 + 31) (by decide)] at htop
    simp at htop
  | false =>
    rw [hlow, if_neg Bool.false_ne_true] at h
    apply BitVec.eq_of_getLsbD_eq
    intro i hi
    cases i with
    | zero => rw [hlow, BitVec.getLsbD_zero]
    | succ i =>
      have hbit := congrArg (fun x : BitVec 32 => x.getLsbD i) h
      simpa only [BitVec.getLsbD_ushiftRight, Nat.add_comm 1 i, BitVec.getLsbD_zero] using hbit

theorem shifts_eq_zero (hpoly : poly.getLsbD 31 = true) (h : shifts poly n c = 0#32) : c = 0#32 := by
  induction n generalizing c with
  | zero => exact h
  | succ n ih => exact shift_eq_zero hpoly (ih h)

theorem xor_eq_zero (h : a ^^^ b = 0#32) : a = b := by
  calc a = a ^^^ (b ^^^ b) := by rw [BitVec.xor_self, BitVec.xor_zero]
    _ = (a ^^^ b) ^^^ b := by rw [BitVec.xor_assoc]
    _ = b := by rw [h, BitVec.zero_xor]

theorem shifts_inj (hpoly : poly.getLsbD 31 = true) (h : shifts poly n a = shifts poly n b) : a = b := by
  apply xor_eq_zero
  apply shifts_eq_zero (n := n) hpoly
  rw [shifts_xor, h, BitVec.xor_self]

/-! ## Octets -/

theorem shifts_high {y : BitVec 32} (hy : ∀ i < n, y.getLsbD i = false) : shifts poly n y = y >>> n := by
  induction n generalizing y with
  | zero => simp [shifts]
  | succ n ih =>
    have hshift : shift poly y = y >>> 1 := by
      unfold shift
      rw [hy 0 n.succ_pos, if_neg Bool.false_ne_true]
    rw [shifts, hshift, ih, Nat.add_comm, BitVec.shiftRight_add]
    intro i hi
    rw [BitVec.getLsbD_ushiftRight, Nat.add_comm]
    exact hy (i + 1) (Nat.succ_lt_succ hi)

theorem step_xor {x y : Fin 256} :
    step poly a x ^^^ step poly b y = shifts poly 8 (a ^^^ b ^^^ (BitVec.ofNat 32 x.val ^^^ BitVec.ofNat 32 y.val)) := by
  unfold step
  rw [← shifts_xor]
  congr 1
  ac_rfl

theorem step_inj (hpoly : poly.getLsbD 31 = true) {x : Fin 256} (h : step poly a x = step poly b x) : a = b := by
  have hxor := shifts_inj hpoly h
  calc a = a ^^^ BitVec.ofNat 32 x.val ^^^ BitVec.ofNat 32 x.val := by
        rw [BitVec.xor_assoc, BitVec.xor_self, BitVec.xor_zero]
    _ = b := by rw [hxor, BitVec.xor_assoc, BitVec.xor_self, BitVec.xor_zero]

theorem foldl_step_inj (hpoly : poly.getLsbD 31 = true) {l : List (Fin 256)}
    (h : l.foldl (step poly) a = l.foldl (step poly) b) : a = b := by
  induction l generalizing a b with
  | nil => exact h
  | cons x l ih => exact step_inj hpoly (ih h)

/-! ## Bursts -/

theorem ofLe_lt_word {l : List (Fin 256)} {k : Nat} (h : l.length ≤ k) : ofLe l < 256 ^ k :=
  lt_of_lt_of_le (ofLe_lt l) (Nat.pow_le_pow_right (by decide) h)

theorem pack_cons {x : Fin 256} {l : List (Fin 256)} : pack (x :: l) = BitVec.ofNat 32 x.val ^^^ (pack l <<< 8) := by
  apply BitVec.eq_of_getLsbD_eq
  intro i hi
  have hx : x.val < 2 ^ 8 := x.isLt
  have hsplit : ofLe (x :: l) = 2 ^ 8 * ofLe l + x.val := by
    rw [ofLe]
    omega
  simp only [pack, hsplit, BitVec.getLsbD_xor, BitVec.getLsbD_shiftLeft, BitVec.getLsbD_ofNat, hi, decide_true,
    Bool.true_and, Nat.testBit_two_pow_mul_add (ofLe l) hx i]
  by_cases hlow : i < 8
  · simp [hlow]
  · have hpow := Nat.pow_le_pow_right Nat.two_pos (not_lt.mp hlow)
    rw [Nat.testBit_lt_two_pow (x := x.val) (by omega)]
    simp [hlow, show i - 8 < 32 by omega]

theorem pack_inj {l r : List (Fin 256)} (hshort : l.length ≤ 4) (hlen : l.length = r.length) (h : pack l = pack r) :
    l = r := by
  have hnat := congrArg BitVec.toNat h
  have hl := ofLe_lt_word hshort
  have hr := ofLe_lt_word (hlen ▸ hshort)
  rw [pack, pack, BitVec.toNat_ofNat, BitVec.toNat_ofNat, Nat.mod_eq_of_lt (by omega), Nat.mod_eq_of_lt (by omega)] at hnat
  rw [← toLe_ofLe l, ← toLe_ofLe r, hnat, hlen]

/-- Up to four octets are added to the remainder as one word. -/
theorem foldl_step_pack : ∀ (l : List (Fin 256)) (c : BitVec 32), l.length ≤ 4 →
    l.foldl (step poly) c = shifts poly (8 * l.length) (c ^^^ pack l)
  | [], c, _ => by simp [pack, ofLe, shifts]
  | x :: l, c, h => by
    rw [List.length_cons] at h
    have ih := foldl_step_pack l (step poly c x) (by omega)
    have hlt : ofLe l < 256 ^ 3 := ofLe_lt_word (by omega)
    have hclear : ∀ i < 8, (pack l <<< 8).getLsbD i = false := by
      intro i hi
      simp [hi]
    have hmove : shifts poly 8 (pack l <<< 8) = pack l := by
      rw [shifts_high hclear]
      apply BitVec.eq_of_toNat_eq
      rw [BitVec.toNat_ushiftRight, BitVec.toNat_shiftLeft, Nat.shiftLeft_eq, Nat.shiftRight_eq_div_pow, pack,
        BitVec.toNat_ofNat, Nat.mod_eq_of_lt (a := ofLe l) (by omega), Nat.mod_eq_of_lt (by omega),
        Nat.mul_div_cancel _ (by decide)]
    have hstep : step poly c x ^^^ pack l = shifts poly 8 (c ^^^ pack (x :: l)) := by
      rw [step, pack_cons, ← BitVec.xor_assoc, shifts_xor (b := pack l <<< 8), hmove]
    rw [List.foldl_cons, ih, hstep, ← shifts_add, List.length_cons]
    congr 1
    omega

/-- Four octets or fewer in a row, and then the same octets: the remainders are the same only if all are. -/
theorem burst (hpoly : poly.getLsbD 31 = true) {l r t : List (Fin 256)} (hshort : l.length ≤ 4) (hlen : l.length = r.length)
    (h : (l ++ t).foldl (step poly) c = (r ++ t).foldl (step poly) c) : l = r := by
  rw [List.foldl_append, List.foldl_append] at h
  have hfront := foldl_step_inj hpoly h
  rw [foldl_step_pack l c hshort, foldl_step_pack r c (by omega), hlen] at hfront
  have hxor := shifts_inj hpoly hfront
  apply pack_inj hshort hlen
  calc pack l = c ^^^ (c ^^^ pack l) := by rw [← BitVec.xor_assoc, BitVec.xor_self, BitVec.zero_xor]
    _ = pack r := by rw [hxor, ← BitVec.xor_assoc, BitVec.xor_self, BitVec.zero_xor]

end Misty.Crc
