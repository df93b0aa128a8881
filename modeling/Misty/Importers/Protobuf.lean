import Misty.Lib.Bytes
import Misty.Lib.Exec
import Misty.Lib.Text
import Misty.Lib.Varint

/- The protobuf reader of `misty-importers`: a cursor over a byte string, moved by four
   helpers that each check the string's end before they take anything.

   What is proved:
     1. `readVarint_spec` — a varint is read exactly when one of at most ten bytes and less
        than 2^64 begins at the cursor.
     2. `readField_spec` — a field takes two bytes or more and stays inside the string, and
        every call moves the cursor.
     3. `readField_encode` — the standard encoding of a field reads back.
     4. `protobuf_reader_exact` — what follows for whole messages.

   Correspondence (Rust ↔ Lean):
     `protobuf::{Value, Reader}`               ↔ `Value`, `Reader`
     `Reader::{next_field, read_field, read_byte, read_varint, read_array, read_bytes}` ↔ the same names
     `Reader::{new, nested, is_empty}`         ↔ `Reader.new`, `Reader.nested`, `Reader.isEmpty`
     `while let Some(field) = reader.next_field()` ↔ `fieldsFrom`
     `error::ProtobufError`                    ↔ `ProtobufError`
   A buffer that a machine can hold has fewer than 2^63 bytes. An addition that leaves a
   `usize` where the source has no check is `Fault.overflow`. -/
namespace Misty.Protobuf

inductive ProtobufError where
  | truncated (offset : Nat)
  | varintOverflow (offset : Nat)
  | lengthTooLarge (field len remaining : Nat)
  | zeroField (offset : Nat)
  | unsupportedWireType (wire field : Nat)
  | wrongType (field : Nat)
  | notUtf8 (field : Nat)
  | tooDeep (max : Nat)
  deriving DecidableEq

/-- An error, or an addition past the range of a `usize`. -/
inductive Fault where
  | error (error : ProtobufError)
  | overflow
  deriving DecidableEq

def MAX_DEPTH : Nat := 4

/-- One field's value. -/
inductive Value where
  | varint (v : U64)
  | fixed32 (bytes : ByteArr 4)
  | fixed64 (bytes : ByteArr 8)
  | bytes (b : Bytes)
  deriving DecidableEq

/-- `Value::varint`. -/
def Value.varint? : Value → Option U64
  | varint v => some v
  | _ => none

/-- `Value::bytes`. -/
def Value.bytes? : Value → Option Bytes
  | bytes b => some b
  | _ => none

def Value.string (self : Value) (field : Nat) : Except ProtobufError Text :=
  match self.bytes? with
  | none => .error (.wrongType field)
  | some b =>
    match fromUtf8 b with
    | none => .error (.notUtf8 field)
    | some text => .ok text

/-- A cursor over a message. -/
structure Reader where
  buf : Bytes
  pos : Nat
  depth : Nat
  deriving DecidableEq

abbrev Read := EStateM Fault Reader

namespace Reader

def new (buf : Bytes) : Reader := ⟨buf, 0, 0⟩

def nested (self : Reader) (buf : Bytes) : Except ProtobufError Reader :=
  if MAX_DEPTH < self.depth + 1 then .error (.tooDeep MAX_DEPTH) else .ok ⟨buf, 0, self.depth + 1⟩

def isEmpty (self : Reader) : Bool := self.buf.length ≤ self.pos

def moved (self : Reader) (n : Nat) : Reader := { self with pos := self.pos + n }

@[simp] theorem moved_buf (self : Reader) (n : Nat) : (self.moved n).buf = self.buf := rfl
@[simp] theorem moved_pos (self : Reader) (n : Nat) : (self.moved n).pos = self.pos + n := rfl
@[simp] theorem moved_depth (self : Reader) (n : Nat) : (self.moved n).depth = self.depth := rfl
@[simp] theorem moved_moved (self : Reader) (m n : Nat) : (self.moved m).moved n = self.moved (m + n) := by
  unfold moved
  rw [Nat.add_assoc]

end Reader

def fail {α : Type} (error : ProtobufError) : Read α := throw (.error error)

def readByte : Read Byte := fun r =>
  match r.buf[r.pos]? with
  | none => .error (.error (.truncated r.pos)) r
  | some byte => if r.pos + 1 < 2 ^ 64 then .ok byte (r.moved 1) else .error .overflow r

def checkedShl (bits shift : Nat) : Option Nat := if shift < 64 then some ((bits <<< shift) % 2 ^ 64) else none

/-- The loop of `read_varint`: so many groups left, the next one, and the value so far. -/
def varintLoop (start : Nat) : Nat → Nat → Nat → Read U64
  | 0, _, _ => fail (.varintOverflow start)
  | remaining + 1, group, value => do
    let byte ← readByte
    let bits := byte.val &&& 0x7f
    match (checkedShl bits (group * 7)).filter (fun shifted => shifted >>> (group * 7) = bits) with
    | none => fail (.varintOverflow start)
    | some shifted =>
      if byte.val &&& 0x80 = 0 then return Fin.ofNat (2 ^ 64) (value ||| shifted)
      else varintLoop start remaining (group + 1) (value ||| shifted)

def readVarint : Read U64 := fun r => varintLoop r.pos 10 0 0 r

def readArray (n : Nat) : Read (ByteArr n) := fun r =>
  if r.pos + n < 2 ^ 64 then
    match h : slice r.buf r.pos n with
    | some part => .ok ⟨part, length_of_slice h⟩ (r.moved n)
    | none => .error (.error (.truncated r.pos)) r
  else .error (.error (.truncated r.pos)) r

def readBytes (field len : Nat) : Read Bytes := fun r =>
  let remaining := r.buf.length - r.pos
  if remaining < len then .error (.error (.lengthTooLarge field len remaining)) r
  else if r.pos + len < 2 ^ 64 then
    match slice r.buf r.pos len with
    | some part => .ok part (r.moved len)
    | none => .error (.error (.lengthTooLarge field len remaining)) r
  else .error (.error (.lengthTooLarge field len remaining)) r

/-- The value behind a tag. -/
def readValue (wire field : Nat) : Read Value :=
  match wire with
  | 0 => do return .varint (← readVarint)
  | 1 => do return .fixed64 (← readArray 8)
  | 2 => do
    let len ← readVarint
    return .bytes (← readBytes field len.val)
  | 5 => do return .fixed32 (← readArray 4)
  | other => fail (.unsupportedWireType other field)

def readField : Read (Nat × Value) := do
  let start ← get
  let tag ← readVarint
  let field := tag.val >>> 3
  if 2 ^ 32 ≤ field then fail (.varintOverflow start.pos)
  else if field = 0 then fail (.zeroField start.pos)
  else do
    let value ← readValue (tag.val &&& 7) field
    return (field, value)

def nextField (r : Reader) : Option (EStateM.Result Fault Reader (Nat × Value)) :=
  if r.isEmpty then none else some (readField r)

/-! ## The helpers -/

/-- A cursor moved forward in the same message, not past its end. -/
structure Reader.Advances (r r' : Reader) : Prop where
  buf : r'.buf = r.buf
  depth : r'.depth = r.depth
  forward : r.pos ≤ r'.pos
  inside : r'.pos ≤ r.buf.length

theorem Reader.Advances.refl {r : Reader} (h : r.pos ≤ r.buf.length) : r.Advances r := ⟨rfl, rfl, le_rfl, h⟩

theorem Reader.Advances.trans {r r' r'' : Reader} (h : r.Advances r') (h' : r'.Advances r'') : r.Advances r'' where
  buf := h'.buf.trans h.buf
  depth := h'.depth.trans h.depth
  forward := h.forward.trans h'.forward
  inside := h.buf ▸ h'.inside

theorem Reader.Advances.moved {r : Reader} {n : Nat} (h : r.pos + n ≤ r.buf.length) : r.Advances (r.moved n) :=
  ⟨rfl, rfl, Nat.le_add_right _ _, h⟩

/-- A message that a machine can hold, and a cursor in it. -/
structure Reader.Held (r : Reader) : Prop where
  fits : r.buf.length < 2 ^ 63
  inside : r.pos ≤ r.buf.length

theorem Reader.Held.advance {r r' : Reader} (h : r.Held) (hadv : r.Advances r') : r'.Held :=
  ⟨by rw [hadv.buf]; exact h.fits, by rw [hadv.buf]; exact hadv.inside⟩

theorem readByte_spec {r : Reader} (h : r.Held) : Meets readByte r
    (fun byte r' => r.buf.drop r.pos = byte :: r.buf.drop (r.pos + 1) ∧ r' = r.moved 1 ∧ r.pos < r.buf.length)
    (fun fault r' => fault = .error (.truncated r.pos) ∧ r' = r ∧ r.buf.length ≤ r.pos) := by
  have hfits := h.fits
  unfold Meets readByte
  cases hbyte : r.buf[r.pos]? with
  | none => exact ⟨rfl, rfl, List.getElem?_eq_none_iff.mp hbyte⟩
  | some byte =>
    obtain ⟨hlt, hget⟩ := List.getElem?_eq_some_iff.mp hbyte
    dsimp only
    rw [if_pos (by omega)]
    exact ⟨by rw [← hget]; exact List.drop_eq_getElem_cons hlt, rfl, hlt⟩

/-- A group fits its place exactly when shifting it back gives it again. -/
theorem checkedShl_filter {bits shift : Nat} (hshift : shift < 64) :
    (checkedShl bits shift).filter (fun shifted => shifted >>> shift = bits) =
      if bits <<< shift < 2 ^ 64 then some (bits <<< shift) else none := by
  unfold checkedShl
  rw [if_pos hshift]
  by_cases hfits : bits <<< shift < 2 ^ 64
  · rw [if_pos hfits, Nat.mod_eq_of_lt hfits, Option.filter_some, Nat.shiftLeft_shiftRight, decide_eq_true rfl, if_pos rfl]
  · have hne : ¬ ((bits <<< shift) % 2 ^ 64) >>> shift = bits := by
      intro heq
      have hle : bits * 2 ^ shift ≤ (bits <<< shift) % 2 ^ 64 := by
        have hdiv : (bits <<< shift) % 2 ^ 64 / 2 ^ shift = bits := by rw [← Nat.shiftRight_eq_div_pow]; exact heq
        calc bits * 2 ^ shift
          _ = (bits <<< shift) % 2 ^ 64 / 2 ^ shift * 2 ^ shift := by rw [hdiv]
          _ ≤ (bits <<< shift) % 2 ^ 64 := Nat.div_mul_le_self _ _
      have hmod := Nat.mod_lt (bits <<< shift) (Nat.two_pow_pos 64)
      rw [Nat.shiftLeft_eq] at hfits hmod hle
      omega
    rw [if_neg hfits, Option.filter_some, decide_eq_false hne, if_neg Bool.false_ne_true]

theorem byte_masks : ∀ byte : Byte, byte.val &&& 0x7f = byte.val % 128 ∧ (byte.val &&& 0x80 = 0 ↔ byte.val < 128) := by
  decide +kernel

/-! ## Varints -/

/-- An encoding of at most so many bytes begins at the cursor. -/
structure Reader.Spells (r : Reader) (most : Nat) (enc : Bytes) : Prop where
  ended : Varint.Ended enc
  short : enc.length ≤ most
  here : ∃ rest, r.buf.drop r.pos = enc ++ rest

theorem Reader.Spells.inside {r : Reader} {most : Nat} {enc : Bytes} (h : r.Spells most enc) : r.pos + enc.length ≤ r.buf.length := by
  obtain ⟨rest, hrest⟩ := h.here
  have hlen := congrArg List.length hrest
  have hpos := List.length_pos_iff.mpr h.ended.ne_nil
  rw [List.length_drop, List.length_append] at hlen
  omega

theorem Reader.Spells.tail {r : Reader} {most : Nat} {byte : Byte} {enc : Bytes} (hmore : 128 ≤ byte.val)
    (hhere : r.buf.drop r.pos = byte :: r.buf.drop (r.pos + 1)) :
    r.Spells (most + 1) (byte :: enc) ↔ (r.moved 1).Spells most enc := by
  constructor
  · intro h
    obtain ⟨rest, hrest⟩ := h.here
    rw [hhere] at hrest
    refine ⟨?_, Nat.le_of_succ_le_succ h.short, rest, (List.cons.inj hrest).2⟩
    rcases h.ended with ⟨hlast, -⟩ | ⟨-, hended⟩
    · exact absurd hlast (not_lt.mpr hmore)
    · exact hended
  · intro h
    obtain ⟨rest, hrest⟩ := h.here
    refine ⟨.inr ⟨hmore, h.ended⟩, Nat.succ_le_succ h.short, rest, ?_⟩
    rw [hhere]
    exact congrArg (byte :: ·) hrest

/-- The loop of a varint, from a group on: the value it returns is that of the encoding that begins here, and when there is none that
fits it fails. -/
theorem varintLoop_spec (start : Nat) : ∀ (remaining group value : Nat) {r : Reader}, r.Held → group + remaining = 10 →
    value < 2 ^ (group * 7) →
    Meets (varintLoop start remaining group value) r
      (fun v r' => ∃ enc, r.Spells remaining enc ∧ v.val = value + 2 ^ (group * 7) * Varint.value enc ∧ r' = r.moved enc.length)
      (fun fault r' => fault ≠ .overflow ∧ r.Advances r' ∧ (r.pos < r.buf.length → 0 < remaining → r.pos < r'.pos) ∧
        ∀ enc, r.Spells remaining enc → 2 ^ 64 ≤ value + 2 ^ (group * 7) * Varint.value enc)
  | 0, _, _, r, hheld, _, _ => by
    refine ⟨by simp, .refl hheld.inside, fun _ hpos => absurd hpos (Nat.lt_irrefl 0), fun enc henc => ?_⟩
    exact absurd (List.length_eq_zero_iff.mp (Nat.le_zero.mp henc.short)) henc.ended.ne_nil
  | remaining + 1, group, value, r, hheld, hcount, hvalue => by
    rw [varintLoop]
    refine Meets.bind ((readByte_spec hheld).mono ?_ ?_)
    · rintro byte _ ⟨hhere, rfl, hlt⟩
      have hbyte := byte.isLt
      have hheld' : (r.moved 1).Held := hheld.advance (.moved hlt)
      dsimp only
      rw [(byte_masks byte).1, checkedShl_filter (by omega)]
      have hscale : (byte.val % 128) <<< (group * 7) = 2 ^ (group * 7) * (byte.val % 128) := by
        rw [Nat.shiftLeft_eq, Nat.mul_comm]
      by_cases hfits : (byte.val % 128) <<< (group * 7) < 2 ^ 64
      · rw [if_pos hfits]
        dsimp only
        rw [Varint.or_shift hvalue]
        by_cases hlast : byte.val < 128
        · rw [if_pos ((byte_masks byte).2.mpr hlast)]
          -- The last group: the encoding is this byte.
          have hspells : r.Spells (remaining + 1) [byte] :=
            ⟨.inl ⟨hlast, rfl⟩, Nat.succ_le_succ (Nat.zero_le _), _, hhere⟩
          have hsum : value + 2 ^ (group * 7) * (byte.val % 128) < 2 ^ 64 := by
            have hsplit : 2 ^ 64 = 2 ^ (group * 7) * 2 ^ (64 - group * 7) := by rw [← Nat.pow_add]; congr 1; omega
            rw [hscale, hsplit] at hfits
            have hbits := Nat.lt_of_mul_lt_mul_left hfits
            calc value + 2 ^ (group * 7) * (byte.val % 128)
              _ < 2 ^ (group * 7) + 2 ^ (group * 7) * (byte.val % 128) := Nat.add_lt_add_right hvalue _
              _ = 2 ^ (group * 7) * (byte.val % 128 + 1) := by ring
              _ ≤ 2 ^ (group * 7) * 2 ^ (64 - group * 7) := Nat.mul_le_mul_left _ hbits
              _ = 2 ^ 64 := hsplit.symm
          refine Meets.pure ⟨[byte], hspells, ?_, rfl⟩
          rw [Fin.val_ofNat, Nat.mod_eq_of_lt hsum, Varint.value, Varint.value, Nat.mul_zero, Nat.add_zero]
        · rw [if_neg (fun hzero => hlast ((byte_masks byte).2.mp hzero))]
          have hmore : 128 ≤ byte.val := not_lt.mp hlast
          have hnext : value + 2 ^ (group * 7) * (byte.val % 128) < 2 ^ ((group + 1) * 7) := by
            have hbits : byte.val % 128 < 128 := Nat.mod_lt _ (by decide)
            calc value + 2 ^ (group * 7) * (byte.val % 128)
              _ < 2 ^ (group * 7) + 2 ^ (group * 7) * (byte.val % 128) := Nat.add_lt_add_right hvalue _
              _ = 2 ^ (group * 7) * (byte.val % 128 + 1) := by ring
              _ ≤ 2 ^ (group * 7) * 128 := Nat.mul_le_mul_left _ hbits
              _ = 2 ^ ((group + 1) * 7) := by rw [Nat.succ_mul, Nat.pow_add]
          have hvalue' : ∀ enc, value + 2 ^ (group * 7) * (byte.val % 128) + 2 ^ ((group + 1) * 7) * Varint.value enc =
              value + 2 ^ (group * 7) * Varint.value (byte :: enc) := by
            intro enc
            rw [Varint.value, Nat.succ_mul, Nat.pow_add]
            ring
          refine (varintLoop_spec start remaining (group + 1) _ hheld' (by omega) hnext).mono ?_ ?_
          · rintro v _ ⟨enc, hspells, hv, rfl⟩
            refine ⟨byte :: enc, (Reader.Spells.tail hmore hhere).mpr hspells, hv.trans (hvalue' enc), ?_⟩
            rw [Reader.moved_moved, List.length_cons, Nat.add_comm]
          · rintro fault r' ⟨hne, hadv, -, hnone⟩
            have hforward := hadv.forward
            refine ⟨hne, (Reader.Advances.moved hlt).trans hadv, fun _ _ => hforward, fun enc hspells => ?_⟩
            cases enc with
            | nil => exact absurd rfl hspells.ended.ne_nil
            | cons first enc =>
              obtain ⟨rest, hrest⟩ := hspells.here
              rw [hhere] at hrest
              obtain rfl := (List.cons.inj hrest).1
              rw [← hvalue']
              exact hnone enc ((Reader.Spells.tail hmore hhere).mp hspells)
      · rw [if_neg hfits]
        refine ⟨by simp, .moved hlt, fun _ _ => Nat.lt_succ_self _, fun enc hspells => ?_⟩
        obtain ⟨rest, hrest⟩ := hspells.here
        cases enc with
        | nil => exact absurd rfl hspells.ended.ne_nil
        | cons first enc =>
          rw [hhere] at hrest
          obtain rfl := (List.cons.inj hrest).1
          -- This group alone is too large.
          rw [Varint.value]
          calc 2 ^ 64
            _ ≤ 2 ^ (group * 7) * (byte.val % 128) := hscale ▸ not_lt.mp hfits
            _ ≤ 2 ^ (group * 7) * (byte.val % 128 + 128 * Varint.value enc) := Nat.mul_le_mul_left _ (Nat.le_add_right _ _)
            _ ≤ value + 2 ^ (group * 7) * (byte.val % 128 + 128 * Varint.value enc) := Nat.le_add_left _ _
    · rintro fault _ ⟨rfl, rfl, hend⟩
      refine ⟨by simp, .refl hheld.inside, fun hlt => absurd hlt (not_lt.mpr hend), fun enc hspells => ?_⟩
      have hinside := hspells.inside
      have hpos := List.length_pos_iff.mpr hspells.ended.ne_nil
      omega

/-- A varint is read exactly when an encoding of at most ten bytes and less than 2^64 begins at the cursor. -/
theorem readVarint_spec {r : Reader} (h : r.Held) : Meets readVarint r
    (fun v r' => ∃ enc, r.Spells 10 enc ∧ v.val = Varint.value enc ∧ r' = r.moved enc.length)
    (fun fault r' => fault ≠ .overflow ∧ r.Advances r' ∧ (r.pos < r.buf.length → r.pos < r'.pos) ∧
      ∀ enc, r.Spells 10 enc → 2 ^ 64 ≤ Varint.value enc) := by
  refine (varintLoop_spec r.pos 10 0 0 h rfl (by decide)).mono ?_ ?_
  · rintro v r' ⟨enc, hspells, hv, hr⟩
    exact ⟨enc, hspells, by rw [hv, Nat.zero_mul, Nat.pow_zero, Nat.one_mul, Nat.zero_add], hr⟩
  · rintro fault r' ⟨hne, hadv, hmoves, hnone⟩
    refine ⟨hne, hadv, fun hlt => hmoves hlt (by decide), fun enc hspells => ?_⟩
    have hle := hnone enc hspells
    rwa [Nat.zero_mul, Nat.pow_zero, Nat.one_mul, Nat.zero_add] at hle

theorem readVarint_eq_ok {r r' : Reader} {v : U64} (h : r.Held) : readVarint r = .ok v r' ↔
    ∃ enc, r.Spells 10 enc ∧ v.val = Varint.value enc ∧ r' = r.moved enc.length := by
  constructor
  · exact (readVarint_spec h).of_ok
  · rintro ⟨enc, hspells, hv, rfl⟩
    cases hread : readVarint r with
    | ok v' r' =>
      obtain ⟨enc', hspells', hv', rfl⟩ := (readVarint_spec h).of_ok hread
      obtain ⟨rest, hrest⟩ := hspells.here
      obtain ⟨rest', hrest'⟩ := hspells'.here
      obtain rfl := hspells.ended.unique hspells'.ended (hrest.symm.trans hrest')
      rw [Fin.ext (hv'.trans hv.symm)]
    | error fault r' =>
      have hle := ((readVarint_spec h).of_error hread).2.2.2 enc hspells
      have hlt := v.isLt
      omega

/-! ## Fields -/

theorem slice_eq_some {buf part : Bytes} {offset len : Nat} : slice buf offset len = some part ↔
    offset + len ≤ buf.length ∧ part = (buf.drop offset).take len := by
  unfold slice
  split
  · next h => exact ⟨fun heq => ⟨h, (Option.some.inj heq).symm⟩, fun heq => congrArg some heq.2.symm⟩
  · next h => exact ⟨fun heq => (by cases heq), fun heq => absurd heq.1 h⟩

theorem readArray_spec (n : Nat) {r : Reader} (h : r.Held) (hn : n < 2 ^ 63) : Meets (readArray n) r
    (fun part r' => slice r.buf r.pos n = some part.val ∧ r' = r.moved n)
    (fun fault r' => fault ≠ .overflow ∧ r' = r ∧ r.buf.length < r.pos + n) := by
  have hfits := h.fits
  have hinside := h.inside
  unfold Meets readArray
  rw [if_pos (by omega)]
  split
  · next part r' heq =>
    split at heq
    · next found hslice =>
      cases heq
      exact ⟨hslice, rfl⟩
    · cases heq
  · next fault r' heq =>
    split at heq
    · cases heq
    · next hslice =>
      cases heq
      refine ⟨by simp, rfl, ?_⟩
      by_contra hle
      rw [slice_eq_some.mpr ⟨not_lt.mp hle, rfl⟩] at hslice
      cases hslice

theorem readBytes_spec (field len : Nat) {r : Reader} (h : r.Held) : Meets (readBytes field len) r
    (fun part r' => slice r.buf r.pos len = some part ∧ r' = r.moved len)
    (fun fault r' => fault ≠ .overflow ∧ r' = r ∧ r.buf.length < r.pos + len) := by
  have hfits := h.fits
  have hinside := h.inside
  unfold Meets readBytes
  by_cases hleft : r.buf.length - r.pos < len
  · simp only [if_pos hleft]
    exact ⟨by simp, trivial, by omega⟩
  · have hslice := slice_eq_some.mpr (⟨by omega, rfl⟩ : r.pos + len ≤ r.buf.length ∧ _ = (r.buf.drop r.pos).take len)
    simp only [if_neg hleft, if_pos (show r.pos + len < 2 ^ 64 by omega), hslice]
    exact ⟨trivial, trivial⟩

/-- The number of a value's wire type. -/
def Value.wire : Value → Nat
  | varint _ => 0
  | fixed64 _ => 1
  | bytes _ => 2
  | fixed32 _ => 5

theorem Value.wire_lt (value : Value) : value.wire < 8 := by
  cases value <;> simp [Value.wire]

/-- So many bytes at the cursor hold a value. -/
def Reader.Holds (r : Reader) (width : Nat) : Value → Prop
  | .varint v => ∃ enc, r.Spells 10 enc ∧ v.val = Varint.value enc ∧ width = enc.length
  | .fixed64 part => slice r.buf r.pos 8 = some part.val ∧ width = 8
  | .fixed32 part => slice r.buf r.pos 4 = some part.val ∧ width = 4
  | .bytes b => ∃ enc, r.Spells 10 enc ∧ b.length = Varint.value enc ∧ slice r.buf (r.pos + enc.length) b.length = some b ∧
      width = enc.length + b.length

theorem Reader.Holds.inside {r : Reader} {width : Nat} {value : Value} (h : r.Holds width value) :
    0 < width ∧ r.pos + width ≤ r.buf.length := by
  cases value with
  | varint v =>
    obtain ⟨enc, hspells, -, rfl⟩ := h
    exact ⟨List.length_pos_iff.mpr hspells.ended.ne_nil, hspells.inside⟩
  | fixed64 part =>
    obtain ⟨hslice, rfl⟩ := h
    exact ⟨by decide, (slice_eq_some.mp hslice).1⟩
  | fixed32 part =>
    obtain ⟨hslice, rfl⟩ := h
    exact ⟨by decide, (slice_eq_some.mp hslice).1⟩
  | bytes b =>
    obtain ⟨enc, hspells, -, hslice, rfl⟩ := h
    have hpos := List.length_pos_iff.mpr hspells.ended.ne_nil
    have hle := (slice_eq_some.mp hslice).1
    exact ⟨by omega, by omega⟩

/-- How a call that fails leaves the cursor. -/
def Stopped (r : Reader) (fault : Fault) (r' : Reader) : Prop := fault ≠ .overflow ∧ r.Advances r'

theorem readValue_spec (wire field : Nat) {r : Reader} (h : r.Held) : Meets (readValue wire field) r
    (fun value r' => value.wire = wire ∧ ∃ width, r.Holds width value ∧ r' = r.moved width) (Stopped r) := by
  have hvarint := readVarint_spec h
  unfold readValue
  split
  · refine Meets.bind (hvarint.mono ?_ (fun fault r' hstop => ⟨hstop.1, hstop.2.1⟩))
    rintro v _ ⟨enc, hspells, hv, rfl⟩
    exact Meets.pure ⟨rfl, enc.length, ⟨enc, hspells, hv, rfl⟩, rfl⟩
  · refine Meets.bind ((readArray_spec 8 h (by decide)).mono ?_ ?_)
    · rintro part _ ⟨hslice, rfl⟩
      exact Meets.pure ⟨rfl, 8, ⟨hslice, rfl⟩, rfl⟩
    · rintro fault _ ⟨hne, rfl, -⟩
      exact ⟨hne, .refl h.inside⟩
  · refine Meets.bind (hvarint.mono ?_ (fun fault r' hstop => ⟨hstop.1, hstop.2.1⟩))
    rintro len _ ⟨enc, hspells, hlen, rfl⟩
    have hadv : r.Advances (r.moved enc.length) := .moved hspells.inside
    refine Meets.bind ((readBytes_spec field len.val (h.advance hadv)).mono ?_ ?_)
    · rintro part _ ⟨hslice, rfl⟩
      have hpart : part.length = len.val := length_of_slice hslice
      refine Meets.pure ⟨rfl, enc.length + part.length, ⟨enc, hspells, hpart.trans hlen, ?_, rfl⟩, ?_⟩
      · rw [hpart]
        exact hslice
      · rw [Reader.moved_moved, hpart]
    · rintro fault _ ⟨hne, rfl, -⟩
      exact ⟨hne, hadv⟩
  · refine Meets.bind ((readArray_spec 4 h (by decide)).mono ?_ ?_)
    · rintro part _ ⟨hslice, rfl⟩
      exact Meets.pure ⟨rfl, 4, ⟨hslice, rfl⟩, rfl⟩
    · rintro fault _ ⟨hne, rfl, -⟩
      exact ⟨hne, .refl h.inside⟩
  · exact ⟨by simp, .refl h.inside⟩

theorem tag_parts (tag : Nat) : tag = (tag >>> 3) * 8 + (tag &&& 7) ∧ tag &&& 7 < 8 := by
  have hlow : tag &&& 7 = tag % 8 := Nat.and_two_pow_sub_one_eq_mod tag 3
  have hhigh : tag >>> 3 = tag / 8 := Nat.shiftRight_eq_div_pow tag 3
  rw [hlow, hhigh]
  omega

/-- So many bytes at the cursor hold a field: a tag, and a value of its wire type. -/
def Reader.HoldsField (r : Reader) (width number : Nat) (value : Value) : Prop :=
  ∃ enc inner, r.Spells 10 enc ∧ Varint.value enc = number * 8 + value.wire ∧ 0 < number ∧ number < 2 ^ 32 ∧
    (r.moved enc.length).Holds inner value ∧ width = enc.length + inner

theorem Reader.HoldsField.inside {r : Reader} {width number : Nat} {value : Value} (h : r.HoldsField width number value) :
    2 ≤ width ∧ r.pos + width ≤ r.buf.length := by
  obtain ⟨enc, inner, hspells, -, -, -, hholds, rfl⟩ := h
  have hpos := List.length_pos_iff.mpr hspells.ended.ne_nil
  obtain ⟨hinner, hin⟩ := hholds.inside
  rw [moved_pos, moved_buf] at hin
  exact ⟨by omega, by omega⟩

/-- A field that is read is there, and a call that reads none has moved the cursor. -/
theorem readField_spec {r : Reader} (h : r.Held) : Meets readField r
    (fun field r' => ∃ width, r.HoldsField width field.1 field.2 ∧ r' = r.moved width)
    (fun fault r' => Stopped r fault r' ∧ (r.pos < r.buf.length → r.pos < r'.pos)) := by
  unfold readField
  refine Meets.bind (Meets.get ?_)
  refine Meets.bind ((readVarint_spec h).mono ?_ (fun fault r' hstop => ⟨⟨hstop.1, hstop.2.1⟩, hstop.2.2.1⟩))
  rintro tag _ ⟨enc, hspells, htag, rfl⟩
  have hpos := List.length_pos_iff.mpr hspells.ended.ne_nil
  have hadv : r.Advances (r.moved enc.length) := .moved hspells.inside
  have hmoves : r.pos < (r.moved enc.length).pos := by rw [Reader.moved_pos]; omega
  obtain ⟨hparts, -⟩ := tag_parts tag.val
  dsimp only
  by_cases hlarge : 2 ^ 32 ≤ tag.val >>> 3
  · rw [if_pos hlarge]
    exact ⟨⟨by simp, hadv⟩, fun _ => hmoves⟩
  by_cases hzero : tag.val >>> 3 = 0
  · rw [if_neg hlarge, if_pos hzero]
    exact ⟨⟨by simp, hadv⟩, fun _ => hmoves⟩
  rw [if_neg hlarge, if_neg hzero]
  refine Meets.bind ((readValue_spec _ _ (h.advance hadv)).mono ?_ ?_)
  · rintro value _ ⟨hwire, width, hholds, rfl⟩
    refine Meets.pure ⟨enc.length + width, ⟨enc, width, hspells, ?_, Nat.pos_of_ne_zero hzero, not_le.mp hlarge, hholds, rfl⟩, ?_⟩
    · rw [hwire, ← htag]
      exact hparts
    · rw [Reader.moved_moved]
  · rintro fault r' ⟨hne, hadv'⟩
    exact ⟨⟨hne, hadv.trans hadv'⟩, fun _ => lt_of_lt_of_le hmoves hadv'.forward⟩

/-! ## What is there is read -/

theorem readArray_of_slice {n : Nat} {r : Reader} {part : ByteArr n} (h : r.Held) (hn : n < 2 ^ 63)
    (hslice : slice r.buf r.pos n = some part.val) : readArray n r = .ok part (r.moved n) := by
  cases hread : readArray n r with
  | ok part' r' =>
    obtain ⟨hslice', rfl⟩ := (readArray_spec n h hn).of_ok hread
    rw [Subtype.ext (Option.some.inj (hslice'.symm.trans hslice))]
  | error fault r' =>
    have hshort := ((readArray_spec n h hn).of_error hread).2.2
    exact absurd (slice_eq_some.mp hslice).1 (not_le.mpr hshort)

theorem readBytes_of_slice (field : Nat) {r : Reader} {part : Bytes} (h : r.Held)
    (hslice : slice r.buf r.pos part.length = some part) : readBytes field part.length r = .ok part (r.moved part.length) := by
  cases hread : readBytes field part.length r with
  | ok part' r' =>
    obtain ⟨hslice', rfl⟩ := (readBytes_spec field part.length h).of_ok hread
    rw [Option.some.inj (hslice'.symm.trans hslice)]
  | error fault r' =>
    have hshort := ((readBytes_spec field part.length h).of_error hread).2.2
    exact absurd (slice_eq_some.mp hslice).1 (not_le.mpr hshort)

theorem readValue_of_holds (field : Nat) {r : Reader} {width : Nat} {value : Value} (h : r.Held) (hholds : r.Holds width value) :
    readValue value.wire field r = .ok value (r.moved width) := by
  cases value with
  | varint v => exact run_bind_ok ((readVarint_eq_ok h).mpr (by obtain ⟨enc, hspells, hv, rfl⟩ := hholds; exact ⟨enc, hspells, hv, rfl⟩))
  | fixed64 part =>
    obtain ⟨hslice, rfl⟩ := hholds
    exact run_bind_ok (readArray_of_slice h (by decide) hslice)
  | fixed32 part =>
    obtain ⟨hslice, rfl⟩ := hholds
    exact run_bind_ok (readArray_of_slice h (by decide) hslice)
  | bytes b =>
    obtain ⟨enc, hspells, hlen, hslice, rfl⟩ := hholds
    have hfits := h.fits
    have hle := (slice_eq_some.mp hslice).1
    have hlt : b.length < 2 ^ 64 := by omega
    have hread : readVarint r = .ok ⟨b.length, hlt⟩ (r.moved enc.length) := (readVarint_eq_ok h).mpr ⟨enc, hspells, hlen, rfl⟩
    have hbytes : readBytes field b.length (r.moved enc.length) = .ok b ((r.moved enc.length).moved b.length) :=
      readBytes_of_slice field (h.advance (.moved hspells.inside)) hslice
    rw [Reader.moved_moved] at hbytes
    exact (run_bind_ok hread).trans (run_bind_ok hbytes)

theorem readField_eq_ok {r r' : Reader} {number : Nat} {value : Value} (h : r.Held) : readField r = .ok (number, value) r' ↔
    ∃ width, r.HoldsField width number value ∧ r' = r.moved width := by
  constructor
  · exact fun hread => (readField_spec h).of_ok hread
  · rintro ⟨width, ⟨enc, inner, hspells, htag, hpos, hlt, hholds, rfl⟩, rfl⟩
    have hwire := value.wire_lt
    have hfits : Varint.value enc < 2 ^ 64 := by omega
    have hread : readVarint r = .ok ⟨Varint.value enc, hfits⟩ (r.moved enc.length) := (readVarint_eq_ok h).mpr ⟨enc, hspells, rfl, rfl⟩
    obtain ⟨hparts, hlow⟩ := tag_parts (Varint.value enc)
    have hfield : Varint.value enc >>> 3 = number := by omega
    have hlow' : Varint.value enc &&& 7 = value.wire := by omega
    have hvalue := readValue_of_holds number (h.advance (.moved hspells.inside)) hholds
    rw [Reader.moved_moved] at hvalue
    unfold readField
    refine (run_bind_ok (show (get : Read Reader) r = .ok r r from rfl)).trans ((run_bind_ok hread).trans ?_)
    dsimp only
    rw [hfield, hlow', if_neg (not_le.mpr hlt), if_neg (Nat.pos_iff_ne_zero.mp hpos)]
    exact run_bind_ok hvalue

/-- The standard encoding of a value, behind its tag. -/
def Value.encode : Value → Bytes
  | varint v => Varint.encode v.val
  | fixed64 part => part.val
  | bytes b => Varint.encode b.length ++ b
  | fixed32 part => part.val

/-- The standard encoding of a field. -/
def encodeField (field : Nat × Value) : Bytes := Varint.encode (field.1 * 8 + field.2.wire) ++ field.2.encode

theorem spells_encode {r : Reader} {n : Nat} {rest : Bytes} (hn : n < 2 ^ 64) (h : r.buf.drop r.pos = Varint.encode n ++ rest) :
    r.Spells 10 (Varint.encode n) :=
  ⟨Varint.ended_encode n, Varint.length_encode_le (by decide) (lt_of_lt_of_le hn (by decide)), rest, h⟩

theorem drop_behind {r : Reader} {front rest : Bytes} (h : r.buf.drop r.pos = front ++ rest) :
    (r.moved front.length).buf.drop (r.moved front.length).pos = rest := by
  rw [Reader.moved_buf, Reader.moved_pos, ← List.drop_drop, h, List.drop_left]

theorem slice_here {r : Reader} {part rest : Bytes} {n : Nat} (hn : part.length = n) (h : r.buf.drop r.pos = part ++ rest)
    (hpos : r.pos ≤ r.buf.length) : slice r.buf r.pos n = some part := by
  have hlen := congrArg List.length h
  rw [List.length_drop, List.length_append] at hlen
  exact slice_eq_some.mpr ⟨by omega, by rw [h, ← hn, List.take_left]⟩

theorem holds_encode {r : Reader} {value : Value} {rest : Bytes} (h : r.Held) (hhere : r.buf.drop r.pos = value.encode ++ rest) :
    r.Holds value.encode.length value := by
  cases value with
  | varint v => exact ⟨_, spells_encode v.isLt hhere, (Varint.value_encode _).symm, rfl⟩
  | fixed64 part => exact ⟨slice_here part.property hhere h.inside, part.property⟩
  | fixed32 part => exact ⟨slice_here part.property hhere h.inside, part.property⟩
  | bytes b =>
    have hhere' : r.buf.drop r.pos = Varint.encode b.length ++ (b ++ rest) := by rw [hhere, Value.encode, List.append_assoc]
    have hlen := congrArg List.length hhere'
    have hfits := h.fits
    rw [List.length_drop, List.length_append, List.length_append] at hlen
    have hspells := spells_encode (show b.length < 2 ^ 64 by omega) hhere'
    have hslice : slice (r.moved (Varint.encode b.length).length).buf (r.moved (Varint.encode b.length).length).pos b.length = some b :=
      slice_here rfl (drop_behind hhere') hspells.inside
    exact ⟨_, hspells, (Varint.value_encode _).symm, hslice, by rw [Value.encode, List.length_append]⟩

theorem readField_encode {r : Reader} {field : Nat × Value} {rest : Bytes} (h : r.Held) (hnumber : 1 ≤ field.1 ∧ field.1 < 2 ^ 29)
    (hhere : r.buf.drop r.pos = encodeField field ++ rest) : readField r = .ok field (r.moved (encodeField field).length) := by
  have hwire := field.2.wire_lt
  have hhere' : r.buf.drop r.pos = Varint.encode (field.1 * 8 + field.2.wire) ++ (field.2.encode ++ rest) := by
    rw [hhere, encodeField, List.append_assoc]
  have hspells := spells_encode (by omega) hhere'
  refine (readField_eq_ok h).mpr ⟨_, ⟨_, field.2.encode.length, hspells, Varint.value_encode _, by omega, by omega, ?_, ?_⟩, rfl⟩
  · exact holds_encode (h.advance (.moved hspells.inside)) (drop_behind hhere')
  · rw [encodeField, List.length_append]

/-! ## Messages -/

/-- Every call that succeeds moves the cursor, in any message. -/
theorem readByte_later (r : Reader) : Meets readByte r (fun _ r' => r'.buf = r.buf ∧ r.pos < r'.pos) (fun _ _ => True) := by
  unfold Meets readByte
  cases r.buf[r.pos]? with
  | none => trivial
  | some byte =>
    dsimp only
    by_cases hfits : r.pos + 1 < 2 ^ 64
    · rw [if_pos hfits]
      exact ⟨rfl, Nat.lt_succ_self _⟩
    · rw [if_neg hfits]
      trivial

theorem varintLoop_later (start : Nat) : ∀ (remaining group value : Nat) (r : Reader),
    Meets (varintLoop start remaining group value) r (fun _ r' => r'.buf = r.buf ∧ r.pos < r'.pos) (fun _ _ => True)
  | 0, _, _, _ => trivial
  | remaining + 1, group, value, r => by
    rw [varintLoop]
    refine Meets.bind ((readByte_later r).mono ?_ (fun _ _ _ => trivial))
    rintro byte r₁ ⟨hbuf, hpos⟩
    dsimp only
    generalize (checkedShl (byte.val &&& 0x7f) (group * 7)).filter _ = placed
    cases placed with
    | none => trivial
    | some shifted =>
      dsimp only
      split
      · exact ⟨hbuf, hpos⟩
      · refine (varintLoop_later start remaining (group + 1) _ r₁).mono ?_ (fun _ _ _ => trivial)
        rintro v r₂ ⟨hbuf', hpos'⟩
        exact ⟨hbuf'.trans hbuf, hpos.trans hpos'⟩

theorem readArray_later (n : Nat) (r : Reader) :
    Meets (readArray n) r (fun _ r' => r'.buf = r.buf ∧ r.pos ≤ r'.pos) (fun _ _ => True) := by
  refine Meets.intro ?_ (fun _ _ _ => trivial)
  intro part r' hread
  unfold readArray at hread
  split at hread
  · split at hread
    · cases hread
      exact ⟨rfl, Nat.le_add_right _ _⟩
    · cases hread
  · cases hread

theorem readBytes_later (field len : Nat) (r : Reader) :
    Meets (readBytes field len) r (fun _ r' => r'.buf = r.buf ∧ r.pos ≤ r'.pos) (fun _ _ => True) := by
  refine Meets.intro ?_ (fun _ _ _ => trivial)
  intro part r' hread
  unfold readBytes at hread
  dsimp only at hread
  split at hread
  · cases hread
  split at hread
  · split at hread
    · cases hread
      exact ⟨rfl, Nat.le_add_right _ _⟩
    · cases hread
  · cases hread

theorem readValue_later (wire field : Nat) (r : Reader) :
    Meets (readValue wire field) r (fun _ r' => r'.buf = r.buf ∧ r.pos ≤ r'.pos) (fun _ _ => True) := by
  have hvarint : Meets readVarint r (fun _ r' => r'.buf = r.buf ∧ r.pos < r'.pos) (fun _ _ => True) := varintLoop_later r.pos 10 0 0 r
  unfold readValue
  split
  · exact Meets.bind (hvarint.mono (fun _ _ h => Meets.pure ⟨h.1, h.2.le⟩) (fun _ _ h => h))
  · exact Meets.bind ((readArray_later 8 r).mono (fun _ _ h => Meets.pure h) (fun _ _ h => h))
  · refine Meets.bind (hvarint.mono ?_ (fun _ _ h => h))
    rintro len r₁ ⟨hbuf, hpos⟩
    refine Meets.bind ((readBytes_later field len.val r₁).mono ?_ (fun _ _ h => h))
    rintro part r₂ ⟨hbuf', hpos'⟩
    exact Meets.pure ⟨hbuf'.trans hbuf, hpos.le.trans hpos'⟩
  · exact Meets.bind ((readArray_later 4 r).mono (fun _ _ h => Meets.pure h) (fun _ _ h => h))
  · trivial

theorem readField_later {r r' : Reader} {field : Nat × Value} (h : readField r = .ok field r') :
    r'.buf = r.buf ∧ r.pos < r'.pos := by
  have hvarint : Meets readVarint r (fun _ r' => r'.buf = r.buf ∧ r.pos < r'.pos) (fun _ _ => True) := varintLoop_later r.pos 10 0 0 r
  refine Meets.of_ok (Q := fun _ r' => r'.buf = r.buf ∧ r.pos < r'.pos) (E := fun _ _ => True) ?_ h
  unfold readField
  refine Meets.bind (Meets.get (Meets.bind (hvarint.mono ?_ (fun _ _ h => h))))
  rintro tag r₁ ⟨hbuf, hpos⟩
  dsimp only
  split
  · trivial
  split
  · trivial
  refine Meets.bind ((readValue_later _ _ r₁).mono ?_ (fun _ _ h => h))
  rintro value r₂ ⟨hbuf', hpos'⟩
  exact Meets.pure ⟨hbuf'.trans hbuf, lt_of_lt_of_le hpos hpos'⟩

theorem readField_of_nextField {r r' : Reader} {field : Nat × Value} (h : nextField r = some (.ok field r')) :
    r.pos < r.buf.length ∧ readField r = .ok field r' := by
  unfold nextField Reader.isEmpty at h
  split at h
  · cases h
  next hmore => exact ⟨not_le.mp (fun hle => hmore (decide_eq_true hle)), Option.some.inj h⟩

/-- Where a field was read. -/
structure Span where
  start : Nat
  stop : Nat
  field : Nat × Value

/-- The fields that `next_field` gives one after another, and the fault at which a caller stops. -/
def fieldsFrom (r : Reader) : List Span × Option Fault :=
  match _hnext : nextField r with
  | none => ([], none)
  | some (.ok field r') => (⟨r.pos, r'.pos, field⟩ :: (fieldsFrom r').1, (fieldsFrom r').2)
  | some (.error fault _) => ([], some fault)
termination_by r.buf.length - r.pos
decreasing_by
  all_goals
    obtain ⟨hmore, hread⟩ := readField_of_nextField ‹nextField r = some (.ok field r')›
    obtain ⟨hbuf, hpos⟩ := readField_later hread
    rw [hbuf]
    omega

/-- The cursor after a call, whatever the call gives. -/
def afterNext (r : Reader) : Reader :=
  match nextField r with
  | none => r
  | some (.ok _ r') => r'
  | some (.error _ r') => r'

/-- Spans that follow one another, of two bytes or more each. -/
def Tiles : Nat → List Span → Nat → Prop
  | start, [], stop => start = stop
  | start, span :: rest, stop => span.start = start ∧ start + 2 ≤ span.stop ∧ Tiles span.stop rest stop

theorem nextField_eq {r : Reader} (h : r.pos < r.buf.length) : nextField r = some (readField r) := by
  unfold nextField Reader.isEmpty
  rw [if_neg (by simpa using h)]

theorem nextField_end {r : Reader} (h : r.buf.length ≤ r.pos) : nextField r = none := by
  unfold nextField Reader.isEmpty
  rw [if_pos (by simpa using h)]

theorem fieldsFrom_end {r : Reader} (h : r.buf.length ≤ r.pos) : fieldsFrom r = ([], none) := by
  rw [fieldsFrom.eq_def]
  split
  · rfl
  · next hnext => rw [nextField_end h] at hnext; cases hnext
  · next hnext => rw [nextField_end h] at hnext; cases hnext

theorem fieldsFrom_ok {r r' : Reader} {field : Nat × Value} (hmore : r.pos < r.buf.length) (h : readField r = .ok field r') :
    fieldsFrom r = (⟨r.pos, r'.pos, field⟩ :: (fieldsFrom r').1, (fieldsFrom r').2) := by
  have hnext' : nextField r = some (.ok field r') := (nextField_eq hmore).trans (congrArg some h)
  rw [fieldsFrom.eq_def]
  split
  · next hnext => rw [hnext'] at hnext; cases hnext
  · next hnext =>
    rw [hnext'] at hnext
    cases hnext
    rfl
  · next hnext => rw [hnext'] at hnext; cases hnext

theorem fieldsFrom_error {r r' : Reader} {fault : Fault} (hmore : r.pos < r.buf.length) (h : readField r = .error fault r') :
    fieldsFrom r = ([], some fault) := by
  have hnext' : nextField r = some (.error fault r') := (nextField_eq hmore).trans (congrArg some h)
  rw [fieldsFrom.eq_def]
  split
  · next hnext => rw [hnext'] at hnext; cases hnext
  · next hnext => rw [hnext'] at hnext; cases hnext
  · next hnext =>
    rw [hnext'] at hnext
    cases hnext
    rfl

/-- What a span says of the message it was read from. -/
def Span.Read (buf : Bytes) (span : Span) : Prop :=
  (∃ depth, (Reader.mk buf span.start depth).HoldsField (span.stop - span.start) span.field.1 span.field.2) ∧
  ∀ b, span.field.2 = .bytes b → ∃ start, span.start < start ∧ start + b.length = span.stop ∧ slice buf start b.length = some b

theorem Reader.HoldsField.bytes {r : Reader} {width number : Nat} {b : Bytes} (h : r.HoldsField width number (.bytes b)) :
    ∃ start, r.pos < start ∧ start + b.length = r.pos + width ∧ slice r.buf start b.length = some b := by
  obtain ⟨enc, inner, hspells, -, -, -, ⟨enc', -, -, hslice, rfl⟩, rfl⟩ := h
  have hpos := List.length_pos_iff.mpr hspells.ended.ne_nil
  refine ⟨r.pos + enc.length + enc'.length, by omega, by omega, hslice⟩

/-- The fields read tile the message up to where the reading stopped. -/
theorem fieldsFrom_tiles (n : Nat) : ∀ {r : Reader}, r.Held → r.buf.length - r.pos = n →
    (∃ stop ≤ r.buf.length, Tiles r.pos (fieldsFrom r).1 stop ∧ ((fieldsFrom r).2 = none → stop = r.buf.length)) ∧
    (fieldsFrom r).2 ≠ some .overflow ∧ ∀ span ∈ (fieldsFrom r).1, span.Read r.buf := by
  induction n using Nat.strong_induction_on with
  | _ n ih =>
    intro r h hn
    by_cases hmore : r.pos < r.buf.length
    · cases hread : readField r with
      | ok field r' =>
        obtain ⟨width, hholds, rfl⟩ := (readField_spec h).of_ok hread
        obtain ⟨htwo, hinside⟩ := hholds.inside
        have hsmaller : (r.moved width).buf.length - (r.moved width).pos < n := by
          rw [Reader.moved_buf, Reader.moved_pos]
          omega
        obtain ⟨⟨stop, hstop, htiles, hend⟩, hfault, hspans⟩ := ih _ hsmaller (h.advance (.moved hinside)) rfl
        rw [fieldsFrom_ok hmore hread]
        refine ⟨⟨stop, hstop, ⟨rfl, Nat.add_le_add_left htwo _, htiles⟩, hend⟩, hfault, fun span hspan => ?_⟩
        rcases List.mem_cons.mp hspan with rfl | hspan
        · refine ⟨⟨r.depth, ?_⟩, fun b hb => ?_⟩
          · rw [Reader.moved_pos, Nat.add_sub_cancel_left]
            exact hholds
          · obtain ⟨number, value⟩ := field
            dsimp only at hb hholds
            rw [hb] at hholds
            exact hholds.bytes
        · exact hspans span hspan
      | error fault r' =>
        obtain ⟨⟨hfault, -⟩, -⟩ := (readField_spec h).of_error hread
        rw [fieldsFrom_error hmore hread]
        refine ⟨⟨r.pos, h.inside, rfl, fun hnone => (by cases hnone)⟩, fun heq => hfault (Option.some.inj heq), fun span hspan => ?_⟩
        exact absurd hspan List.not_mem_nil
    · have hend : r.pos = r.buf.length := le_antisymm h.inside (not_lt.mp hmore)
      rw [fieldsFrom_end (not_lt.mp hmore)]
      exact ⟨⟨r.pos, h.inside, rfl, fun _ => hend⟩, by simp, fun span hspan => absurd hspan List.not_mem_nil⟩

theorem fieldsFrom_encode : ∀ (fields : List (Nat × Value)) {r : Reader}, r.Held → (∀ field ∈ fields, 1 ≤ field.1 ∧ field.1 < 2 ^ 29) →
    r.buf.drop r.pos = fields.flatMap encodeField → (fieldsFrom r).1.map Span.field = fields ∧ (fieldsFrom r).2 = none
  | [], r, _, _, hhere => by
    rw [fieldsFrom_end (List.drop_eq_nil_iff.mp hhere)]
    exact ⟨rfl, rfl⟩
  | field :: fields, r, h, hnumbers, hhere => by
    rw [List.flatMap_cons] at hhere
    have hread := readField_encode h (hnumbers field List.mem_cons_self) hhere
    obtain ⟨width, hholds, heq⟩ := (readField_eq_ok h).mp hread
    obtain ⟨htwo, hinside⟩ := hholds.inside
    have hmore : r.pos < r.buf.length := by omega
    obtain rfl : (encodeField field).length = width := Nat.add_left_cancel (congrArg Reader.pos heq)
    obtain ⟨hfields, hfault⟩ := fieldsFrom_encode fields (h.advance (.moved hinside))
      (fun f hf => hnumbers f (List.mem_cons_of_mem field hf)) (drop_behind hhere)
    rw [fieldsFrom_ok hmore hread]
    exact ⟨congrArg (field :: ·) hfields, hfault⟩

theorem afterNext_advances {r : Reader} (h : r.Held) :
    r.Advances (afterNext r) ∧ (r.pos < r.buf.length → r.pos < (afterNext r).pos) := by
  by_cases hmore : r.pos < r.buf.length
  · have hafter : afterNext r = (match readField r with
      | .ok _ r' => r'
      | .error _ r' => r') := by
      unfold afterNext
      rw [nextField_eq hmore]
      cases readField r <;> rfl
    rw [hafter]
    cases hread : readField r with
    | ok field r' =>
      obtain ⟨width, hholds, rfl⟩ := (readField_spec h).of_ok hread
      obtain ⟨htwo, hinside⟩ := hholds.inside
      exact ⟨.moved hinside, fun _ => by rw [Reader.moved_pos]; omega⟩
    | error fault r' =>
      obtain ⟨⟨-, hadv⟩, hmoves⟩ := (readField_spec h).of_error hread
      exact ⟨hadv, hmoves⟩
  · have hafter : afterNext r = r := by
      unfold afterNext
      rw [nextField_end (not_lt.mp hmore)]
    rw [hafter]
    exact ⟨.refl h.inside, fun hlt => absurd hlt hmore⟩

/-- However the calls end, no more of them than there are bytes give anything. -/
theorem afterNext_iterate (n : Nat) : ∀ {r : Reader}, r.Held → r.buf.length ≤ r.pos + n → nextField (afterNext^[n] r) = none := by
  induction n with
  | zero => exact fun _ hle => nextField_end hle
  | succ n ih =>
    intro r h hle
    obtain ⟨hadv, hmoves⟩ := afterNext_advances h
    have hforward := hadv.forward
    refine ih (h.advance hadv) ?_
    rw [hadv.buf]
    by_cases hmore : r.pos < r.buf.length
    · have hlt := hmoves hmore
      omega
    · omega

/-- The reader inverts the standard encoding, and of any message it gives back fields of two bytes or more that tile it up to where it
stops, each a value of its wire type that lies inside; a varint is read exactly when it has at most ten bytes and is less than 2^64;
and however it is called it comes to an end, with no addition out of range. -/
theorem protobuf_reader_exact {buf : Bytes} (h : buf.length < 2 ^ 63) :
    (∀ fields : List (Nat × Value), (∀ field ∈ fields, 1 ≤ field.1 ∧ field.1 ≤ 2 ^ 29 - 1) → buf = fields.flatMap encodeField →
      (fieldsFrom (.new buf)).1.map Span.field = fields ∧ (fieldsFrom (.new buf)).2 = none) ∧
    ((∃ stop ≤ buf.length, Tiles 0 (fieldsFrom (.new buf)).1 stop ∧ ((fieldsFrom (.new buf)).2 = none → stop = buf.length)) ∧
      (fieldsFrom (.new buf)).2 ≠ some .overflow ∧ ∀ span ∈ (fieldsFrom (.new buf)).1, span.Read buf) ∧
    nextField (afterNext^[buf.length] (.new buf)) = none ∧
    (∀ (r r' : Reader) (v : U64), r.buf = buf → r.pos ≤ buf.length → (readVarint r = .ok v r' ↔
      ∃ enc rest, Varint.Ended enc ∧ enc.length ≤ 10 ∧ buf.drop r.pos = enc ++ rest ∧ Varint.value enc < 2 ^ 64 ∧
        v.val = Varint.value enc ∧ r' = r.moved enc.length)) ∧
    (∀ (r r' : Reader) (fault : Fault), r.buf = buf → r.pos ≤ buf.length → readField r = .error fault r' → fault ≠ .overflow) := by
  have hnew : (Reader.new buf).Held := ⟨h, Nat.zero_le _⟩
  refine ⟨fun fields hnumbers hbuf => ?_, fieldsFrom_tiles _ hnew rfl, afterNext_iterate _ hnew (Nat.le_add_left _ _), ?_, ?_⟩
  · exact fieldsFrom_encode fields hnew (fun field hfield => ⟨(hnumbers field hfield).1, by have hle := (hnumbers field hfield).2; omega⟩) hbuf
  · rintro r r' v rfl hpos
    rw [readVarint_eq_ok ⟨h, hpos⟩]
    constructor
    · rintro ⟨enc, hspells, hv, hr⟩
      obtain ⟨rest, hrest⟩ := hspells.here
      exact ⟨enc, rest, hspells.ended, hspells.short, hrest, hv ▸ v.isLt, hv, hr⟩
    · rintro ⟨enc, rest, hended, hshort, hrest, -, hv, hr⟩
      exact ⟨enc, ⟨hended, hshort, rest, hrest⟩, hv, hr⟩
  · rintro r r' fault rfl hpos hread
    exact ((readField_spec ⟨h, hpos⟩).of_error hread).1.1

/-- A message of one field. -/
theorem protobuf_reader_exact_sample : (fieldsFrom (.new (encodeField (1, .varint 300)))).1.map Span.field = [(1, .varint 300)] :=
  ((@protobuf_reader_exact (encodeField (1, .varint 300)) (by decide +kernel)).1 [(1, .varint 300)]
    (by simp) (List.append_nil _).symm).1

end Misty.Protobuf
