import Misty.Types

/- Hexadecimal text: two digits for each byte, the high one first. Digits of either
   case are read and the lower ones are written, so what is written reads back and one
   byte string has many spellings. -/
namespace Misty

/-- The value of a digit, of either case. -/
def hexValue (c : Char) : Option Nat :=
  if '0' ≤ c ∧ c ≤ '9' then some (c.toNat - '0'.toNat)
  else if 'a' ≤ c ∧ c ≤ 'f' then some (c.toNat - 'a'.toNat + 10)
  else if 'A' ≤ c ∧ c ≤ 'F' then some (c.toNat - 'A'.toNat + 10)
  else none

/-- `hex::decode`, its errors told apart by nobody. -/
def hexDecode : Text → Option Bytes
  | [] => some []
  | [_] => none
  | a :: b :: rest => do
    let high ← hexValue a
    let low ← hexValue b
    let bytes ← hexDecode rest
    return Fin.ofNat 256 (16 * high + low) :: bytes

/-- The lower digit of a value below sixteen. -/
def hexDigit (n : Nat) : Char :=
  if n < 10 then Char.ofNat ('0'.toNat + n) else Char.ofNat ('a'.toNat + (n - 10))

/-- `hex::encode`. -/
def hexEncode : Bytes → Text
  | [] => []
  | b :: rest => hexDigit (b.val / 16) :: hexDigit (b.val % 16) :: hexEncode rest

theorem hexValue_hexDigit : ∀ n : Fin 16, hexValue (hexDigit n) = some n.val := by decide

theorem hexDecode_hexEncode : ∀ bytes : Bytes, hexDecode (hexEncode bytes) = some bytes
  | [] => rfl
  | b :: rest => by
    have hb := b.isLt
    have hhigh : hexValue (hexDigit (b.val / 16)) = some (b.val / 16) :=
      hexValue_hexDigit ⟨b.val / 16, by omega⟩
    have hlow : hexValue (hexDigit (b.val % 16)) = some (b.val % 16) :=
      hexValue_hexDigit ⟨b.val % 16, by omega⟩
    have hsum : 16 * (b.val / 16) + b.val % 16 = b.val := by omega
    simp [hexEncode, hexDecode, hhigh, hlow, hexDecode_hexEncode rest, hsum]

@[simp] theorem length_hexEncode : ∀ bytes : Bytes, (hexEncode bytes).length = 2 * bytes.length
  | [] => rfl
  | b :: rest => by
    rw [hexEncode, List.length_cons, List.length_cons, length_hexEncode rest, List.length_cons]
    omega

/-- The digits that are written. -/
def HEX_DIGITS : Text := ['0', '1', '2', '3', '4', '5', '6', '7', '8', '9', 'a', 'b', 'c', 'd', 'e', 'f']

theorem hexDigit_mem : ∀ n < 16, hexDigit n ∈ HEX_DIGITS := by decide

theorem mem_hexEncode : ∀ {bytes : Bytes} {c : Char}, c ∈ hexEncode bytes → c ∈ HEX_DIGITS
  | [], _, h => absurd h List.not_mem_nil
  | b :: rest, c, h => by
    have hb := b.isLt
    rcases List.mem_cons.mp h with rfl | h
    · exact hexDigit_mem _ (by omega)
    · rcases List.mem_cons.mp h with rfl | h
      · exact hexDigit_mem _ (by omega)
      · exact mem_hexEncode h

/-- A digit that is not upper case is the one that is written for its value. -/
theorem hexValue_lower {c : Char} {v : Nat} (hc : c.isUpper = false) (h : hexValue c = some v) : v < 16 ∧ c = hexDigit v := by
  unfold hexValue at h
  simp only [Char.reduceToNat] at h
  unfold hexDigit
  simp only [Char.reduceToNat]
  split at h
  · next hdigit =>
    have hge : 48 ≤ c.toNat := hdigit.1
    have hle : c.toNat ≤ 57 := hdigit.2
    obtain rfl := Option.some.inj h
    rw [if_pos (by omega), Nat.add_sub_cancel' hge, Char.ofNat_toNat]
    exact ⟨by omega, rfl⟩
  split at h
  · next hletter =>
    have hge : 97 ≤ c.toNat := hletter.1
    have hle : c.toNat ≤ 102 := hletter.2
    obtain rfl := Option.some.inj h
    rw [if_neg (by omega), Nat.add_sub_cancel, Nat.add_sub_cancel' hge, Char.ofNat_toNat]
    exact ⟨by omega, rfl⟩
  split at h
  · next hupper =>
    have hle : c ≤ 'Z' := le_trans hupper.2 (by decide)
    have htrue : c.isUpper = true := by
      simp only [Char.isUpper, decide_eq_true_eq]
      exact ⟨hupper.1, hle⟩
    exact absurd (htrue.symm.trans hc) Bool.true_eq_false.mp
  · cases h

/-- Without upper case, one byte string has one spelling. -/
theorem hexDecode_eq_some {text : Text} {bytes : Bytes} (hlower : ∀ c ∈ text, c.isUpper = false) :
    hexDecode text = some bytes ↔ text = hexEncode bytes := by
  refine ⟨?_, fun h => by rw [h, hexDecode_hexEncode]⟩
  fun_induction hexDecode text generalizing bytes with
  | case1 => exact fun h => by rw [← Option.some.inj h, hexEncode]
  | case2 c => exact fun h => by cases h
  | case3 a b rest ih =>
    intro h
    obtain ⟨high, hhigh, h⟩ := Option.bind_eq_some_iff.mp h
    obtain ⟨low, hlow, h⟩ := Option.bind_eq_some_iff.mp h
    obtain ⟨tail, htail, h⟩ := Option.bind_eq_some_iff.mp h
    obtain ⟨hh, ha⟩ := hexValue_lower (hlower a List.mem_cons_self) hhigh
    obtain ⟨hl, hb⟩ := hexValue_lower (hlower b (List.mem_cons_of_mem a List.mem_cons_self)) hlow
    have hrest := ih (fun c hc => hlower c (List.mem_cons_of_mem a (List.mem_cons_of_mem b hc))) htail
    obtain rfl := Option.some.inj h
    have hbyte : (Fin.ofNat 256 (16 * high + low)).val = 16 * high + low := Nat.mod_eq_of_lt (by omega)
    rw [hexEncode, hbyte, show (16 * high + low) / 16 = high by omega, show (16 * high + low) % 16 = low by omega, ← ha, ← hb, ← hrest]

theorem isUpper_of_hex {c : Char} (h : c ∈ HEX_DIGITS) : c.isUpper = false := by
  have hall : HEX_DIGITS.all (fun c => !c.isUpper) = true := by decide
  simpa using List.all_eq_true.mp hall c h

end Misty
