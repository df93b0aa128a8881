import Misty.Lib.Bytes
import Mathlib.Data.List.Lex
import Mathlib.Order.Fin.Basic
import Mathlib.Tactic.Ring

/- Big-endian numbers of a fixed width, and the order of byte strings: among strings of one
   length it is the order of the numbers they spell, and of a concatenation the order of
   its parts in turn. -/
namespace Misty

/-- The `k` low bytes of a number, most significant first. -/
def toBe (k n : Nat) : List (Fin 256) := (toLe k n).reverse

/-- The number a byte string spells, most significant first. -/
def ofBe (bytes : List (Fin 256)) : Nat := ofLe bytes.reverse

@[simp] theorem length_toBe (k n : Nat) : (toBe k n).length = k := by
  rw [toBe, List.length_reverse, length_toLe]

theorem ofBe_toBe {k n : Nat} (h : n < 256 ^ k) : ofBe (toBe k n) = n := by
  rw [ofBe, toBe, List.reverse_reverse, ofLe_toLe k n h]

theorem toBe_ofBe {k : Nat} {bytes : List (Fin 256)} (h : bytes.length = k) : toBe k (ofBe bytes) = bytes := by
  have hback := toLe_ofLe bytes.reverse
  rw [List.length_reverse, h] at hback
  rw [toBe, ofBe, hback, List.reverse_reverse]

theorem ofBe_lt (bytes : List (Fin 256)) : ofBe bytes < 256 ^ bytes.length := by
  have hlt := ofLe_lt bytes.reverse
  rwa [List.length_reverse] at hlt

theorem ofLe_append : ∀ l r : List (Fin 256), ofLe (l ++ r) = ofLe l + 256 ^ l.length * ofLe r
  | [], r => by rw [List.nil_append, ofLe, List.length_nil, Nat.pow_zero, Nat.one_mul, Nat.zero_add]
  | b :: l, r => by
    rw [List.cons_append, ofLe, ofLe, ofLe_append l r, List.length_cons, Nat.pow_succ]
    ring

theorem ofBe_cons (b : Fin 256) (rest : List (Fin 256)) : ofBe (b :: rest) = ofBe rest + 256 ^ rest.length * b.val := by
  rw [ofBe, List.reverse_cons, ofLe_append, List.length_reverse, ofLe, ofLe, Nat.mul_zero, Nat.add_zero, ← ofBe]

/-- Among byte strings of one length the order is that of the numbers. -/
theorem lt_iff_ofBe_lt : ∀ {l r : List (Fin 256)}, l.length = r.length → (l < r ↔ ofBe l < ofBe r)
  | [], [], _ => ⟨fun h => absurd h (List.lt_irrefl []), fun h => absurd h (Nat.lt_irrefl _)⟩
  | a :: l, b :: r, h => by
    have hlen : l.length = r.length := Nat.succ.inj h
    have hl := ofBe_lt l
    have hr := ofBe_lt r
    rw [List.cons_lt_cons_iff, lt_iff_ofBe_lt hlen, ofBe_cons, ofBe_cons, ← hlen]
    rw [← hlen] at hr
    generalize 256 ^ l.length = scale at hl hr ⊢
    constructor
    · intro hlt
      rcases hlt with hless | ⟨rfl, hrest⟩
      · -- A greater digit outweighs everything behind it.
        calc ofBe l + scale * a.val
          _ < scale + scale * a.val := Nat.add_lt_add_right hl _
          _ = scale * (a.val + 1) := by ring
          _ ≤ scale * b.val := Nat.mul_le_mul_left scale hless
          _ ≤ ofBe r + scale * b.val := Nat.le_add_left _ _
      · omega
    · intro hlt
      rcases lt_trichotomy a b with hless | rfl | hgreater
      · exact .inl hless
      · exact .inr ⟨rfl, by omega⟩
      · have hle : ofBe r + scale * b.val < ofBe r + scale * b.val := by
          calc ofBe r + scale * b.val
            _ < scale + scale * b.val := Nat.add_lt_add_right hr _
            _ = scale * (b.val + 1) := by ring
            _ ≤ scale * a.val := Nat.mul_le_mul_left scale hgreater
            _ ≤ ofBe l + scale * a.val := Nat.le_add_left _ _
            _ < ofBe r + scale * b.val := hlt
        exact absurd hle (Nat.lt_irrefl _)

theorem toBe_lt_iff {k m n : Nat} (hm : m < 256 ^ k) (hn : n < 256 ^ k) : toBe k m < toBe k n ↔ m < n := by
  rw [lt_iff_ofBe_lt (by rw [length_toBe, length_toBe]), ofBe_toBe hm, ofBe_toBe hn]

theorem toBe_inj {k m n : Nat} (hm : m < 256 ^ k) (hn : n < 256 ^ k) : toBe k m = toBe k n ↔ m = n := by
  constructor
  · intro h
    rw [← ofBe_toBe hm, h, ofBe_toBe hn]
  · intro h
    rw [h]

theorem append_lt_append_iff : ∀ {l r l' r' : List (Fin 256)}, l.length = r.length →
    (l ++ l' < r ++ r' ↔ l < r ∨ l = r ∧ l' < r')
  | [], [], _, _, _ => by simp
  | a :: l, b :: r, l', r', h => by
    rw [List.cons_append, List.cons_append, List.cons_lt_cons_iff, List.cons_lt_cons_iff, append_lt_append_iff (Nat.succ.inj h),
      List.cons.injEq]
    tauto

end Misty
