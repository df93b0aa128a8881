import Mathlib.Algebra.GroupWithZero.Nat
import Mathlib.Data.List.Basic
import Mathlib.Tactic.Common

/- Byte strings: little-endian numbers of a fixed width, and slices of a
   concatenation. Bytes are `Fin 256`. -/
namespace Misty

/-- A byte has a least value. -/
instance Byte.neZero : NeZero 256 := ⟨by decide⟩

/-- The `k` low bytes of a number, least significant first. -/
def toLe : Nat → Nat → List (Fin 256)
  | 0, _ => []
  | k + 1, n => ⟨n % 256, Nat.mod_lt _ (by decide)⟩ :: toLe k (n / 256)

/-- The number a byte string spells, least significant first. -/
def ofLe : List (Fin 256) → Nat
  | [] => 0
  | b :: rest => b.val + 256 * ofLe rest

@[simp] theorem length_toLe : ∀ k n, (toLe k n).length = k
  | 0, _ => rfl
  | k + 1, n => by rw [toLe, List.length_cons, length_toLe k]

theorem ofLe_toLe : ∀ k n, n < 256 ^ k → ofLe (toLe k n) = n
  | 0, n, h => by
    have h0 : n = 0 := by simpa using h
    rw [h0]
    rfl
  | k + 1, n, h => by
    have hdiv : n / 256 < 256 ^ k := by
      apply Nat.div_lt_of_lt_mul
      rw [Nat.pow_succ] at h
      omega
    rw [toLe, ofLe, ofLe_toLe k _ hdiv]
    exact Nat.mod_add_div n 256

theorem ofLe_lt : ∀ l : List (Fin 256), ofLe l < 256 ^ l.length
  | [] => by simp [ofLe]
  | b :: l => by
    have ih := ofLe_lt l
    have hb := b.isLt
    rw [ofLe, List.length_cons, Nat.pow_succ]
    omega

theorem toLe_ofLe : ∀ l : List (Fin 256), toLe l.length (ofLe l) = l
  | [] => rfl
  | b :: l => by
    have hb := b.isLt
    have hmod : (b.val + 256 * ofLe l) % 256 = b.val := by omega
    have hdiv : (b.val + 256 * ofLe l) / 256 = ofLe l := by omega
    simp only [List.length_cons, ofLe, toLe, hmod, hdiv, toLe_ofLe l]

/-- `bytes.get(offset..offset + len)`. -/
def slice {α : Type} (bytes : List α) (offset len : Nat) : Option (List α) :=
  if offset + len ≤ bytes.length then some ((bytes.drop offset).take len) else none

theorem slice_append {α : Type} (front mid back : List α) {offset len : Nat}
    (ho : front.length = offset) (hl : mid.length = len) :
    slice (front ++ mid ++ back) offset len = some mid := by
  subst ho
  subst hl
  unfold slice
  rw [if_pos (by simp only [List.length_append]; omega), List.append_assoc, List.drop_left,
    List.take_left]

theorem length_of_slice {α : Type} {bytes : List α} {offset len : Nat} {part : List α}
    (h : slice bytes offset len = some part) : part.length = len := by
  unfold slice at h
  split at h
  · next hle =>
    cases h
    rw [List.length_take, List.length_drop]
    omega
  · cases h

end Misty
