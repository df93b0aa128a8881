import Misty.Lib.OrdMap
import Misty.Lib.Bytes

/- Bytes, fixed-width byte arrays and the identifiers built from them.

   Correspondence (Rust ↔ Lean):
     `[u8; N]`                                 ↔ `ByteArr N`
     `misty_crypto::{ItemId, DeviceId, VaultId, EnrollId}` ↔ the same names
     `misty_vault::ids::{GroupId, BlobId}`     ↔ `GroupId`, `BlobId`
     `misty_otp::SecretBytes`                  ↔ `SecretBytes`
     `String`, `str::trim`                     ↔ `Text`, its characters in order, and `trim`
     `u8`, `u16`, `u32`, `u64`, `i64`          ↔ `Byte`, `U16`, `U32`, `U64`, `I64`
     `usize`                                   ↔ `Nat`
   Every identifier is ordered by its bytes, as the derived `Ord` of the Rust
   newtypes is. -/
namespace Misty

/-- One byte. -/
abbrev Byte := Fin 256

/-- `Vec<u8>` and `&[u8]`. -/
abbrev Bytes := List Byte

/-- `[u8; n]`: the length is part of the type. -/
abbrev ByteArr (n : Nat) := {l : Bytes // l.length = n}

/-- A `u16`. -/
abbrev U16 := Fin (2 ^ 16)

/-- A `u32`. -/
abbrev U32 := Fin (2 ^ 32)

/-- A `u64`. -/
abbrev U64 := Fin (2 ^ 64)

instance U16.neZero : NeZero (2 ^ 16) := ⟨by decide⟩

instance U32.neZero : NeZero (2 ^ 32) := ⟨by decide⟩

instance U64.neZero : NeZero (2 ^ 64) := ⟨by decide⟩

def U64.saturatingAdd (a b : U64) : U64 :=
  if h : a.val + b.val < 2 ^ 64 then ⟨a.val + b.val, h⟩ else Fin.last _

@[simp] theorem U64.val_saturatingAdd (a b : U64) :
    (U64.saturatingAdd a b).val = min (a.val + b.val) (2 ^ 64 - 1) := by
  unfold saturatingAdd
  split
  · next h =>
    show a.val + b.val = _
    omega
  · next h =>
    show 2 ^ 64 - 1 = _
    omega

/-- An `i64`. -/
abbrev I64 := {z : Int // -2 ^ 63 ≤ z ∧ z < 2 ^ 63}

theorem I64.zero_mem : (-2 ^ 63 : Int) ≤ 0 ∧ (0 : Int) < 2 ^ 63 := by decide

/-- The `i64` nearest to an integer. -/
def I64.saturate (z : Int) : I64 :=
  ⟨max (-2 ^ 63) (min z (2 ^ 63 - 1)), by omega⟩

def I64.saturatingSub (a b : I64) : I64 := I64.saturate (a.val - b.val)

/-- A `String`. The order of the byte strings is the order of the characters. -/
abbrev Text := List Char

/-- `String::len`, in bytes of UTF-8. -/
def Text.utf8Len (t : Text) : Nat := (t.map Char.utf8Size).sum

/-- `String::as_bytes`. -/
def Text.utf8 (t : Text) : Bytes := t.flatMap (fun c => (String.utf8EncodeChar c).map UInt8.toFin)

/-- `char::is_whitespace`, the Unicode `White_Space` property. -/
def isWhitespace (ch : Char) : Bool :=
  let c := ch.toNat
  (0x9 ≤ c && c ≤ 0xd) || c = 0x20 || c = 0x85 || c = 0xa0 || c = 0x1680 ||
    (0x2000 ≤ c && c ≤ 0x200a) || c = 0x2028 || c = 0x2029 || c = 0x202f || c = 0x205f || c = 0x3000

def trim (value : Text) : Text :=
  ((value.dropWhile isWhitespace).reverse.dropWhile isWhitespace).reverse

/-- `n` copies of one byte. -/
def ByteArr.repeated (n : Nat) (b : Byte) : ByteArr n := ⟨List.replicate n b, List.length_replicate⟩

/-- The storage key of an item. -/
structure ItemId where
  bytes : ByteArr 16
  deriving DecidableEq

/-- The sixteen random bytes that name a device. -/
structure DeviceId where
  bytes : ByteArr 16
  deriving DecidableEq

instance : LinearOrder ItemId :=
  LinearOrder.lift' ItemId.bytes (fun a b h => by cases a; cases b; exact congrArg _ h)

instance : LinearOrder DeviceId :=
  LinearOrder.lift' DeviceId.bytes (fun a b h => by cases a; cases b; exact congrArg _ h)

/-- The sixteen random bytes that name a vault. -/
structure VaultId where
  bytes : ByteArr 16
  deriving DecidableEq

instance : LinearOrder VaultId :=
  LinearOrder.lift' VaultId.bytes (fun a b h => by cases a; cases b; exact congrArg _ h)

/-- The sixteen random bytes of an enrollment's QR code. -/
structure EnrollId where
  bytes : ByteArr 16
  deriving DecidableEq

instance : LinearOrder EnrollId :=
  LinearOrder.lift' EnrollId.bytes (fun a b h => by cases a; cases b; exact congrArg _ h)

/-- The storage key of a group, a newtype over the id it is stored under. -/
structure GroupId where
  id : ItemId
  deriving DecidableEq

def GroupId.asItemId (g : GroupId) : ItemId := g.id

def GroupId.fromItemId (id : ItemId) : GroupId := ⟨id⟩

@[simp] theorem GroupId.asItemId_fromItemId (id : ItemId) : (GroupId.fromItemId id).asItemId = id :=
  rfl

@[simp] theorem GroupId.fromItemId_asItemId (g : GroupId) : GroupId.fromItemId g.asItemId = g := rfl

instance : LinearOrder GroupId :=
  LinearOrder.lift' GroupId.id (fun a b h => by cases a; cases b; exact congrArg _ h)

/-- The storage key of a user-supplied icon. -/
structure BlobId where
  id : ItemId
  deriving DecidableEq

/-- A shared secret or a PIN. `expose_secret` compares as a byte slice: the
order of the lists, a proper prefix before its extensions. -/
structure SecretBytes where
  bytes : Bytes
  deriving DecidableEq

instance : LinearOrder SecretBytes :=
  LinearOrder.lift' SecretBytes.bytes (fun a b h => by cases a; cases b; exact congrArg _ h)

end Misty
