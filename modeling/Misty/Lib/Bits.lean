import Misty.Lib.Bytes
import Mathlib.Data.List.Basic
import Mathlib.Data.Nat.Bitwise
import Mathlib.Tactic.Common
import Mathlib.Tactic.Ring

/- Bits in groups. A number of `n` bits is written with its highest bit first, and a list
   of such numbers as one stream of bits. The stream is the same however it is cut:
   numbers of one width are read from it and numbers of another are the same stream. -/
namespace Misty.Bits

/-- The low `n` bits of a number, the highest first. -/
def bitsBe : Nat → Nat → List Bool
  | 0, _ => []
  | n + 1, v => v.testBit n :: bitsBe n v

/-- Numbers of `n` bits, one after another. -/
def stream (n : Nat) (values : List Nat) : List Bool := values.flatMap (bitsBe n)

variable {m n v w : Nat}

@[simp] theorem length_bitsBe : (bitsBe n v).length = n := by
  induction n with
  | zero => rfl
  | succ n ih => simp [bitsBe, ih]

theorem bitsBe_eq_map : bitsBe n v = (List.range n).map (fun i => v.testBit (n - 1 - i)) := by
  induction n with
  | zero => rfl
  | succ n ih =>
    rw [List.range_succ_eq_map, List.map_cons, List.map_map, bitsBe, ih]
    congr 1
    apply List.map_congr_left
    intro i _
    simp only [Function.comp_apply]
    congr 1
    omega

theorem bitsBe_congr (h : ∀ i < n, v.testBit i = w.testBit i) : bitsBe n v = bitsBe n w := by
  induction n with
  | zero => rfl
  | succ n ih =>
    rw [bitsBe, bitsBe, h n n.lt_succ_self, ih (fun i hi => h i (Nat.lt_succ_of_lt hi))]

theorem bitsBe_mod (h : n ≤ m) : bitsBe n (v % 2 ^ m) = bitsBe n v := by
  apply bitsBe_congr
  intro i hi
  rw [Nat.testBit_mod_two_pow, decide_eq_true (by omega : i < m), Bool.true_and]

theorem testBit_of_bitsBe (h : bitsBe n v = bitsBe n w) : ∀ i < n, v.testBit i = w.testBit i := by
  induction n with
  | zero => exact fun i hi => absurd hi (Nat.not_lt_zero i)
  | succ n ih =>
    rw [bitsBe, bitsBe, List.cons.injEq] at h
    intro i hi
    rcases Nat.lt_succ_iff_lt_or_eq.mp hi with hlt | rfl
    · exact ih h.2 i hlt
    · exact h.1

theorem bitsBe_inj (hv : v < 2 ^ n) (hw : w < 2 ^ n) (h : bitsBe n v = bitsBe n w) : v = w := by
  apply Nat.eq_of_testBit_eq
  intro i
  rcases Nat.lt_or_ge i n with hi | hi
  · exact testBit_of_bitsBe h i hi
  · have hpow := Nat.pow_le_pow_right Nat.two_pos hi
    rw [Nat.testBit_lt_two_pow (by omega), Nat.testBit_lt_two_pow (by omega)]

theorem bitsBe_add : bitsBe (m + n) v = bitsBe m (v >>> n) ++ bitsBe n v := by
  induction m with
  | zero => simp [bitsBe]
  | succ m ih =>
    rw [Nat.add_right_comm, bitsBe, bitsBe, ih, Nat.testBit_shiftRight, Nat.add_comm n m, List.cons_append]

theorem bitsBe_push (hw : w < 2 ^ n) : bitsBe (m + n) (v <<< n ||| w) = bitsBe m v ++ bitsBe n w := by
  rw [bitsBe_add]
  congr 1
  · apply bitsBe_congr
    intro i _
    rw [Nat.testBit_shiftRight, Nat.testBit_or, Nat.testBit_shiftLeft]
    have hpow := Nat.pow_le_pow_right Nat.two_pos (Nat.le_add_right n i)
    rw [Nat.testBit_lt_two_pow (x := w) (by omega)]
    simp
  · apply bitsBe_congr
    intro i hi
    rw [Nat.testBit_or, Nat.testBit_shiftLeft]
    simp [not_le.mpr hi]

/-! ## Streams -/

@[simp] theorem stream_nil : stream n [] = [] := rfl

@[simp] theorem stream_cons {values : List Nat} : stream n (v :: values) = bitsBe n v ++ stream n values := rfl

theorem stream_append {l r : List Nat} : stream n (l ++ r) = stream n l ++ stream n r := List.flatMap_append

theorem length_stream {values : List Nat} : (stream n values).length = values.length * n := by
  induction values with
  | nil => simp
  | cons v values ih =>
    rw [stream_cons, List.length_append, length_bitsBe, ih, List.length_cons]
    ring

/-- A stream is of one list of numbers of its width. -/
theorem stream_inj (hn : 0 < n) : ∀ {l r : List Nat}, (∀ v ∈ l, v < 2 ^ n) → (∀ v ∈ r, v < 2 ^ n) →
    stream n l = stream n r → l = r
  | [], [], _, _, _ => rfl
  | [], w :: r, _, _, h => by
    have hlen := congrArg List.length h
    simp only [length_stream, List.length_cons, List.length_nil] at hlen
    have hpos : 0 < (r.length + 1) * n := Nat.mul_pos r.length.succ_pos hn
    omega
  | v :: l, [], _, _, h => by
    have hlen := congrArg List.length h
    simp only [length_stream, List.length_cons, List.length_nil] at hlen
    have hpos : 0 < (l.length + 1) * n := Nat.mul_pos l.length.succ_pos hn
    omega
  | v :: l, w :: r, hl, hr, h => by
    rw [stream_cons, stream_cons] at h
    obtain ⟨hhead, htail⟩ := List.append_inj h (by rw [length_bitsBe, length_bitsBe])
    rw [bitsBe_inj (hl v List.mem_cons_self) (hr w List.mem_cons_self) hhead,
      stream_inj hn (fun x hx => hl x (List.mem_cons_of_mem v hx)) (fun x hx => hr x (List.mem_cons_of_mem w hx)) htail]

/-! ## Groups read from a function -/

/-- `n` bits from position `n * index` on, shifted in one after another. -/
def groupAt (n : Nat) (bit : Nat → Nat) (index : Nat) : Nat :=
  (List.range n).foldl (fun value offset => value <<< 1 ||| bit (index * n + offset)) 0

section Groups

variable {bit : Nat → Nat} (hbit : ∀ p, bit p < 2)

include hbit

theorem groupAt_foldl (index k : Nat) :
    (List.range k).foldl (fun value offset => value <<< 1 ||| bit (index * n + offset)) 0 < 2 ^ k ∧
      bitsBe k ((List.range k).foldl (fun value offset => value <<< 1 ||| bit (index * n + offset)) 0) =
        (List.range k).map (fun offset => (bit (index * n + offset)).testBit 0) := by
  induction k with
  | zero => exact ⟨Nat.one_pos, rfl⟩
  | succ k ih =>
    rw [List.range_succ, List.foldl_append, List.map_append]
    simp only [List.foldl_cons, List.foldl_nil, List.map_cons, List.map_nil]
    have hnext := hbit (index * n + k)
    refine ⟨?_, ?_⟩
    · apply Nat.or_lt_two_pow
      · rw [Nat.shiftLeft_eq, pow_one, pow_succ]
        exact Nat.mul_lt_mul_of_pos_right ih.1 Nat.two_pos
      · exact lt_of_lt_of_le hnext (Nat.le_self_pow (Nat.succ_ne_zero k) 2)
    · rw [bitsBe_push (by simpa using hnext), ih.2]
      rfl

theorem groupAt_lt (index : Nat) : groupAt n bit index < 2 ^ n := (groupAt_foldl hbit index n).1

/-- The groups, one after another, are the bits in order. -/
theorem stream_groups (k : Nat) : stream n ((List.range k).map (groupAt n bit)) =
    (List.range (k * n)).map (fun p => (bit p).testBit 0) := by
  induction k with
  | zero => simp
  | succ k ih =>
    have hgroup : bitsBe n (groupAt n bit k) = (List.range n).map (fun offset => (bit (k * n + offset)).testBit 0) :=
      (groupAt_foldl hbit k n).2
    rw [List.range_succ, List.map_append, stream_append, ih, Nat.succ_mul, List.range_add, List.map_append, List.map_map]
    simp only [List.map_cons, List.map_nil, stream_cons, stream_nil, List.append_nil, hgroup]
    rfl

end Groups

/-! ## Octets -/

/-- The bit at a position of a byte string, 0 past its end. -/
def bitAt (bytes : List (Fin 256)) (position : Nat) : Nat :=
  match bytes[position / 8]? with
  | some byte => byte.val >>> (7 - position % 8) &&& 1
  | none => 0

/-- The bits of a byte string, in order. -/
def octets (bytes : List (Fin 256)) : List Bool := stream 8 (bytes.map Fin.val)

theorem bitAt_lt (bytes : List (Fin 256)) (position : Nat) : bitAt bytes position < 2 := by
  unfold bitAt
  split
  · rw [Nat.and_one_is_mod]
    exact Nat.mod_lt _ Nat.two_pos
  · exact Nat.two_pos

theorem bits_octets : ∀ bytes : List (Fin 256),
    (List.range (8 * bytes.length)).map (fun p => (bitAt bytes p).testBit 0) = octets bytes
  | [] => rfl
  | byte :: rest => by
    rw [List.length_cons, Nat.mul_succ, Nat.add_comm, List.range_add, List.map_append, List.map_map, octets,
      List.map_cons, stream_cons, ← octets, ← bits_octets rest, bitsBe_eq_map]
    congr 1
    · apply List.map_congr_left
      intro p hp
      have hp := List.mem_range.mp hp
      simp only [bitAt, Nat.div_eq_of_lt hp, Nat.mod_eq_of_lt hp, List.getElem?_cons_zero]
      rw [Nat.testBit_and, Nat.testBit_shiftRight]
      simp
    · apply List.map_congr_left
      intro p _
      have hdiv : (8 + p) / 8 = p / 8 + 1 := by omega
      have hmod : (8 + p) % 8 = p % 8 := by omega
      simp only [Function.comp_apply, bitAt, hdiv, hmod, List.getElem?_cons_succ]

theorem octets_append {l r : List (Fin 256)} : octets (l ++ r) = octets l ++ octets r := by
  rw [octets, List.map_append, stream_append, octets, octets]

theorem length_octets {bytes : List (Fin 256)} : (octets bytes).length = bytes.length * 8 := by
  rw [octets, length_stream, List.length_map]

theorem octets_inj {l r : List (Fin 256)} (h : octets l = octets r) : l = r := by
  have hvalues := stream_inj (by decide) (fun v hv => ?_) (fun v hv => ?_) h
  · exact List.map_injective_iff.mpr (fun _ _ => Fin.ext) hvalues
  · obtain ⟨b, -, rfl⟩ := List.mem_map.mp hv
    exact b.isLt
  · obtain ⟨b, -, rfl⟩ := List.mem_map.mp hv
    exact b.isLt

/-! ## Octets written bit by bit -/

/-- The bit at a position set, nothing past the end. -/
def setBit (bytes : List (Fin 256)) (position : Nat) : List (Fin 256) :=
  bytes.modify (position / 8) (fun byte => Fin.ofNat 256 (byte.val ||| 1 <<< (7 - position % 8)))

theorem getElem_octets {bytes : List (Fin 256)} {q : Nat} (hq : q < (octets bytes).length) :
    (octets bytes)[q] = (bitAt bytes q).testBit 0 := by
  simp only [← bits_octets, List.getElem_map, List.getElem_range]

theorem length_setBit {bytes : List (Fin 256)} {p : Nat} : (setBit bytes p).length = bytes.length :=
  List.length_modify _ _ _

theorem bitAt_setBit {bytes : List (Fin 256)} {p q : Nat} (hq : q / 8 < bytes.length) :
    (bitAt (setBit bytes p) q).testBit 0 = (decide (p = q) || (bitAt bytes q).testBit 0) := by
  have hget : (setBit bytes p)[q / 8]? = some (if p / 8 = q / 8 then
      Fin.ofNat 256 (bytes[q / 8].val ||| 1 <<< (7 - p % 8)) else bytes[q / 8]) := by
    rw [setBit, List.getElem?_modify, List.getElem?_eq_getElem hq]
    rfl
  have hbit : ∀ n : Nat, (n >>> (7 - q % 8) &&& 1).testBit 0 = n.testBit (7 - q % 8) := by
    intro n
    rw [Nat.testBit_and, Nat.testBit_shiftRight]
    simp
  simp only [bitAt, hget, List.getElem?_eq_getElem hq, hbit]
  split
  · next hbyte =>
    have hlow : 7 - q % 8 < 8 := by omega
    have hpos : 7 - p % 8 = 7 - q % 8 ↔ p = q := by omega
    rw [Fin.val_ofNat, Nat.testBit_mod_two_pow _ 8, decide_eq_true hlow, Bool.true_and, Nat.testBit_or, Bool.or_comm,
      Nat.shiftLeft_eq, Nat.one_mul, Nat.testBit_two_pow, decide_eq_decide.mpr hpos]
  · next hbyte => rw [decide_eq_false (fun h : p = q => hbyte (by rw [h])), Bool.false_or]

theorem octets_setBit {bytes : List (Fin 256)} {p : Nat} : octets (setBit bytes p) = (octets bytes).set p true := by
  have hlen : (octets (setBit bytes p)).length = (octets bytes).length := by
    rw [length_octets, length_octets, length_setBit]
  apply List.ext_getElem
  · rw [hlen, List.length_set]
  · intro q hq _
    have hbyte : q / 8 < bytes.length := by
      rw [hlen, length_octets] at hq
      omega
    rw [getElem_octets hq, bitAt_setBit hbyte, List.getElem_set, getElem_octets (hlen ▸ hq)]
    by_cases heq : p = q <;> simp [heq]

/-- Clear bits behind `front`, of which the next `n` are written in order. -/
theorem octets_setBits {front : List Bool} (bits : Nat → Bool) {r : Nat} {bytes : List (Fin 256)} (n : Nat)
    (h : octets bytes = front ++ List.replicate (n + r) false) :
    octets ((List.range n).foldl (fun bytes offset =>
      if bits offset then setBit bytes (front.length + offset) else bytes) bytes) =
        front ++ (List.range n).map bits ++ List.replicate r false := by
  induction n generalizing r with
  | zero => simpa using h
  | succ n ih =>
    have hnext : octets bytes = front ++ List.replicate (n + (r + 1)) false := by rw [h, Nat.add_right_comm, Nat.add_assoc]
    have hlen : (front ++ (List.range n).map bits).length = front.length + n := by simp
    have hwrite : ∀ b : Bool, front ++ (List.range n).map bits ++ b :: List.replicate r false =
        front ++ ((List.range n).map bits ++ [b]) ++ List.replicate r false := by simp
    rw [List.range_succ, List.foldl_append, List.map_append, List.map_singleton, List.foldl_cons, List.foldl_nil, ← hwrite]
    have hdone := ih hnext
    rw [List.replicate_succ] at hdone
    split
    · next hset => rw [octets_setBit, hdone, ← hlen, List.set_append_right _ _ le_rfl, Nat.sub_self, List.set_cons_zero, hset]
    · next hclear => rw [hdone, Bool.eq_false_iff.mpr hclear]

end Misty.Bits
