import Misty.Types

/- Characters by their code: ASCII case, control characters and digits.

   Correspondence (Rust ↔ Lean):
     `char::{to_ascii_lowercase, is_control}`  ↔ `toAsciiLowercase`, `isControl`
     `str::eq_ignore_ascii_case`               ↔ `eqIgnoreAsciiCase` -/
namespace Misty

def toAsciiLowercase (ch : Char) : Char :=
  if 'A' ≤ ch ∧ ch ≤ 'Z' then Char.ofNat (ch.toNat + 32) else ch

def eqIgnoreAsciiCase (a b : Text) : Bool := a.map toAsciiLowercase = b.map toAsciiLowercase

/-- `char::is_control`, the general category `Cc`. -/
def isControl (ch : Char) : Bool := ch.toNat ≤ 0x1f || (0x7f ≤ ch.toNat && ch.toNat ≤ 0x9f)

theorem toNat_of_isDigit {c : Char} (h : c.isDigit = true) : 48 ≤ c.toNat ∧ c.toNat ≤ 57 := by
  unfold Char.isDigit at h
  rw [Bool.and_eq_true, decide_eq_true_iff, decide_eq_true_iff] at h
  exact ⟨UInt32.le_iff_toNat_le.mp h.1, UInt32.le_iff_toNat_le.mp h.2⟩

end Misty
