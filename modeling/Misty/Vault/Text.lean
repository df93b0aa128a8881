import Misty.Error
import Misty.Limits

/- What counts as acceptable text in a vault field, and the folding under which
   two labels are the same.

   Correspondence (Rust ↔ Lean):
     `text::is_always_forbidden`               ↔ `isAlwaysForbidden`
     `text::{check_label, check_prose}`        ↔ `checkLabel`, `checkProse`
     `text::check_required_label`              ↔ `checkRequiredLabel`
     `text::fold`                              ↔ `fold`
   `str::to_lowercase` is the parameter `toLowercase` of `fold`: the Unicode case
   table is the standard library's, and nothing here depends on its rows. -/
namespace Misty

/-- Control characters, bidirectional overrides, zero-width characters and the
soft hyphen. Tab and line feed are left to the caller. -/
def isAlwaysForbidden (ch : Char) : Bool :=
  let c := ch.toNat
  c ≤ 0x8 || (0xb ≤ c && c ≤ 0x1f) || (0x7f ≤ c && c ≤ 0x9f) || c = 0xad ||
    (0x200b ≤ c && c ≤ 0x200f) || (0x202a ≤ c && c ≤ 0x202e) || (0x2066 ≤ c && c ≤ 0x2069) ||
    c = 0xfeff

/-- The loop over `value.chars().enumerate()`: the first refused character is
reported with its position. -/
def checkChars (refused : Char → Bool) (field : String) : Text → Nat → Result Unit
  | [], _ => .ok ()
  | ch :: rest, index =>
    if refused ch then .error (.disallowedCharacter field ch.toNat index)
    else checkChars refused field rest (index + 1)

/-- The length bound, then the characters. -/
def checkText (refused : Char → Bool) (field : String) (value : Text) (max : Nat) : Result Unit :=
  if max < value.utf8Len then .error (.stringTooLong field max value.utf8Len)
  else checkChars refused field value 0

def checkLabel : String → Text → Nat → Result Unit :=
  checkText (fun ch => isAlwaysForbidden ch || ch = '\t' || ch = '\n' || ch = '\r')

def checkProse : String → Text → Nat → Result Unit := checkText isAlwaysForbidden

def checkRequiredLabel (field : String) (value : Text) (max : Nat) : Result Unit := do
  checkLabel field value max
  if trim value = [] then throw (.emptyField field)

/-- A check on a value that may be absent. -/
def checkSome {α : Type} (check : α → Result Unit) : Option α → Result Unit
  | some a => check a
  | none => .ok ()

/-- `fold`: case and surrounding space never tell two labels apart. -/
def fold (toLowercase : Text → Text) (value : Text) : Text := toLowercase (trim value)

end Misty
