import Misty.Lib.Bytes
import Mathlib.Data.List.Basic
import Mathlib.Tactic.Common
import Mathlib.Tactic.Ring

/- Numbers in groups of seven bits, the lowest first, each byte but the last with its high
   bit set. No encoding is a prefix of another; a number has many encodings, one of them
   without a needless group. -/
namespace Misty.Varint

/-- The number of some groups. -/
def value : List (Fin 256) → Nat
  | [] => 0
  | b :: rest => b.val % 128 + 128 * value rest

/-- Every byte but the last says that more follow. -/
def Ended : List (Fin 256) → Prop
  | [] => False
  | b :: rest => (b.val < 128 ∧ rest = []) ∨ (128 ≤ b.val ∧ Ended rest)

theorem Ended.ne_nil {enc : List (Fin 256)} (h : Ended enc) : enc ≠ [] := by
  rintro rfl
  exact h

/-- Of the beginnings of a byte string at most one is an encoding. -/
theorem Ended.unique : ∀ {enc enc' rest rest' : List (Fin 256)}, Ended enc → Ended enc' → enc ++ rest = enc' ++ rest' → enc = enc'
  | [], _, _, _, h, _, _ => h.elim
  | _, [], _, _, _, h, _ => h.elim
  | b :: enc, b' :: enc', rest, rest', h, h', heq => by
    obtain ⟨rfl, htail⟩ := List.cons.inj heq
    rcases h with ⟨hlast, rfl⟩ | ⟨hmore, hended⟩
    · rcases h' with ⟨-, rfl⟩ | ⟨hmore', -⟩
      · rfl
      · exact absurd hlast (not_lt.mpr hmore')
    · rcases h' with ⟨hlast', rfl⟩ | ⟨-, hended'⟩
      · exact absurd hlast' (not_lt.mpr hmore)
      · rw [Ended.unique hended hended' htail]

/-- The encoding without a needless group. -/
def encode (n : Nat) : List (Fin 256) :=
  if n < 128 then [Fin.ofNat 256 n] else Fin.ofNat 256 (n % 128 + 128) :: encode (n / 128)
termination_by n
decreasing_by omega

theorem ended_encode (n : Nat) : Ended (encode n) := by
  fun_induction encode n with
  | case1 n h =>
    have hval : (Fin.ofNat 256 n).val = n := Nat.mod_eq_of_lt (by omega)
    exact .inl ⟨by omega, rfl⟩
  | case2 n h ih =>
    have hval : (Fin.ofNat 256 (n % 128 + 128)).val = n % 128 + 128 := Nat.mod_eq_of_lt (by omega)
    exact .inr ⟨by omega, ih⟩

theorem value_encode (n : Nat) : value (encode n) = n := by
  fun_induction encode n with
  | case1 n h =>
    have hval : (Fin.ofNat 256 n).val = n := Nat.mod_eq_of_lt (by omega)
    rw [value, value, hval]
    omega
  | case2 n h ih =>
    have hval : (Fin.ofNat 256 (n % 128 + 128)).val = n % 128 + 128 := Nat.mod_eq_of_lt (by omega)
    rw [value, hval, ih]
    omega

theorem length_encode_le {k n : Nat} (hk : 0 < k) (h : n < 128 ^ k) : (encode n).length ≤ k := by
  fun_induction encode n generalizing k with
  | case1 n hsmall => exact hk
  | case2 n hlarge ih =>
    obtain ⟨j, rfl⟩ := Nat.exists_eq_add_of_lt hk
    rw [Nat.zero_add] at h ⊢
    rw [Nat.pow_succ] at h
    have hj : 0 < j := by
      rcases Nat.eq_zero_or_pos j with rfl | hpos
      · omega
      · exact hpos
    exact Nat.succ_le_succ (ih hj (Nat.div_lt_of_lt_mul (by omega)))

theorem or_shift {v w k : Nat} (h : v < 2 ^ k) : v ||| w <<< k = v + 2 ^ k * w := by
  rw [Nat.or_comm, ← Nat.shiftLeft_add_eq_or_of_lt h, Nat.shiftLeft_eq]
  ring

end Misty.Varint
