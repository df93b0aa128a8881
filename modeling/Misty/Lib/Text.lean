import Misty.Lib.Ascii
import Mathlib.Data.List.Basic
import Mathlib.Data.List.DropRight

/- Text as the standard library reads it: trimming, splitting at a separator, UTF-8 and
   decimal numbers.

   Correspondence (Rust ↔ Lean):
     `str::split_once`, `str::split`, `str::lines` ↔ `splitOnce`, `splitAll`, `lines`
     `String::from_utf8`                       ↔ `fromUtf8`
     `u64::from_str`, `u64::to_string`         ↔ `parseDecimal`, `decimal` -/
namespace Misty

/-! ## Characters -/

theorem toAsciiLowercase_idem (ch : Char) : toAsciiLowercase (toAsciiLowercase ch) = toAsciiLowercase ch := by
  unfold toAsciiLowercase
  split
  · next h =>
    have hlo : 65 ≤ ch.toNat := h.1
    have hhi : ch.toNat ≤ 90 := h.2
    have hlower : ∀ n, 65 ≤ n → n ≤ 90 → ¬ ('A' ≤ Char.ofNat (n + 32) ∧ Char.ofNat (n + 32) ≤ 'Z') := by decide
    rw [if_neg (hlower ch.toNat hlo hhi)]
  · rfl

theorem isWhitespace_toAsciiLowercase (ch : Char) : isWhitespace (toAsciiLowercase ch) = isWhitespace ch := by
  unfold toAsciiLowercase
  split
  · next h =>
    have hlo : 65 ≤ ch.toNat := h.1
    have hhi : ch.toNat ≤ 90 := h.2
    have hletter : isWhitespace ch = false := by
      simp only [isWhitespace, Bool.or_eq_false_iff, Bool.and_eq_false_iff, decide_eq_false_iff_not]
      omega
    have hlower : ∀ n, 65 ≤ n → n ≤ 90 → isWhitespace (Char.ofNat (n + 32)) = false := by decide
    rw [hletter, hlower ch.toNat hlo hhi]
  · rfl

/-! ## Trimming -/

theorem trim_eq (t : Text) : trim t = (t.dropWhile isWhitespace).rdropWhile isWhitespace := rfl

theorem trim_trim (t : Text) : trim (trim t) = trim t := by
  have hfront : (trim t).dropWhile isWhitespace = trim t := by
    rw [List.dropWhile_eq_self_iff]
    intro hpos hspace
    obtain ⟨tail, htail⟩ := List.rdropWhile_prefix isWhitespace (t.dropWhile isWhitespace)
    rw [← trim_eq] at htail
    have hlen : 0 < (t.dropWhile isWhitespace).length := by
      rw [← htail, List.length_append]
      omega
    have hhead := List.dropWhile_get_zero_not isWhitespace t hlen
    simp only [List.get_eq_getElem, ← htail, List.getElem_append_left hpos] at hhead hspace
    exact hhead hspace
  rw [trim_eq (trim t), hfront, trim_eq, List.rdropWhile_idempotent]

theorem trim_map {f : Char → Char} (h : ∀ ch, isWhitespace (f ch) = isWhitespace ch) (t : Text) :
    trim (t.map f) = (trim t).map f := by
  have hcomp : isWhitespace ∘ f = isWhitespace := funext h
  simp only [trim, List.dropWhile_map, hcomp, ← List.map_reverse]

/-! ## Splitting -/

/-- `str::split_once`: what stands before and after the first place of a pattern. -/
def splitOnce (pattern : Text) : Text → Option (Text × Text)
  | [] => if pattern = [] then some ([], []) else none
  | ch :: rest =>
    if pattern.isPrefixOf (ch :: rest) then some ([], (ch :: rest).drop pattern.length)
    else (splitOnce pattern rest).map (fun parts => (ch :: parts.1, parts.2))

/-- `str::split`, at every place of a character: there is always a first piece. -/
def splitAll (separator : Char) : Text → List Text
  | [] => [[]]
  | ch :: rest =>
    if ch = separator then [] :: splitAll separator rest
    else match splitAll separator rest with
      | piece :: pieces => (ch :: piece) :: pieces
      | [] => [[ch]]

variable {sep : Char} {front back : Text}

theorem splitOnce_of_head {ch : Char} {pattern front back : Text} (h : ch ∉ front) :
    splitOnce (ch :: pattern) (front ++ (ch :: pattern ++ back)) = some (front, back) := by
  induction front with
  | nil =>
    rw [List.nil_append, List.cons_append, splitOnce]
    have hprefix : (ch :: pattern).isPrefixOf (ch :: (pattern ++ back)) = true := by simp
    rw [if_pos hprefix, ← List.cons_append, List.drop_left]
  | cons first front ih =>
    have hne : ch ≠ first := fun heq => h (heq ▸ List.mem_cons_self)
    have hprefix : ¬ (ch :: pattern).isPrefixOf (first :: (front ++ (ch :: pattern ++ back))) = true := by simp [hne]
    rw [List.cons_append, splitOnce, if_neg hprefix, ih (fun hmem => h (List.mem_cons_of_mem first hmem))]
    rfl

theorem splitOnce_char (h : sep ∉ front) : splitOnce [sep] (front ++ sep :: back) = some (front, back) :=
  @splitOnce_of_head sep [] front back h

theorem splitOnce_none (h : sep ∉ front) : splitOnce [sep] front = none := by
  induction front with
  | nil => rfl
  | cons ch front ih =>
    have hne : sep ≠ ch := fun heq => h (heq ▸ List.mem_cons_self)
    have hrest := ih (fun hmem => h (List.mem_cons_of_mem ch hmem))
    simp [splitOnce, hne, hrest]

theorem splitAll_plain (h : sep ∉ front) : splitAll sep front = [front] := by
  induction front with
  | nil => rfl
  | cons ch front ih =>
    have hne : ch ≠ sep := fun heq => h (heq ▸ List.mem_cons_self)
    rw [splitAll, if_neg hne, ih (fun hmem => h (List.mem_cons_of_mem ch hmem))]

theorem splitAll_cons (h : sep ∉ front) : splitAll sep (front ++ sep :: back) = front :: splitAll sep back := by
  induction front with
  | nil => rw [List.nil_append, splitAll, if_pos rfl]
  | cons ch front ih =>
    have hne : ch ≠ sep := fun heq => h (heq ▸ List.mem_cons_self)
    rw [List.cons_append, splitAll, if_neg hne, ih (fun hmem => h (List.mem_cons_of_mem ch hmem))]

theorem splitAll_intercalate {sep : Char} : ∀ {piece : Text} {pieces : List Text}, (∀ p ∈ piece :: pieces, sep ∉ p) →
    splitAll sep (List.intercalate [sep] (piece :: pieces)) = piece :: pieces
  | piece, [], h => by
    rw [List.intercalate_singleton, splitAll_plain (h piece List.mem_cons_self)]
  | piece, next :: pieces, h => by
    rw [List.intercalate_cons_cons, List.append_assoc, List.singleton_append, splitAll_cons (h piece List.mem_cons_self),
      splitAll_intercalate (fun p hp => h p (List.mem_cons_of_mem piece hp))]

theorem mem_intercalate {ch sep : Char} : ∀ {pieces : List Text}, ch ∈ List.intercalate [sep] pieces →
    ch = sep ∨ ∃ piece ∈ pieces, ch ∈ piece
  | [], h => absurd h List.not_mem_nil
  | [piece], h => Or.inr ⟨piece, List.mem_cons_self, by rwa [List.intercalate_singleton] at h⟩
  | piece :: next :: pieces, h => by
    rw [List.intercalate_cons_cons] at h
    rcases List.mem_append.mp h with h | h
    · rcases List.mem_append.mp h with h | h
      · exact Or.inr ⟨piece, List.mem_cons_self, h⟩
      · exact Or.inl (List.mem_singleton.mp h)
    · rcases mem_intercalate h with heq | ⟨found, hfound, hmem⟩
      · exact Or.inl heq
      · exact Or.inr ⟨found, List.mem_cons_of_mem piece hfound, hmem⟩

/-! ## Lines -/

/-- A line without the carriage return before its end. -/
def stripCr (line : Text) : Text := if line.getLast? = some '\r' then line.dropLast else line

/-- `str::lines`. What follows the last line feed is a line when there is any of it. -/
def lines (text : Text) : List Text :=
  let pieces := splitAll '\n' text
  pieces.dropLast.map stripCr ++ pieces.getLast?.toList.filter (fun last => last ≠ [])

/-- Lines joined by line feeds are read back, less the carriage returns before those and a
last line that is empty. -/
theorem lines_intercalate {line : Text} {rest : List Text} (h : ∀ l ∈ line :: rest, '\n' ∉ l) :
    lines (List.intercalate ['\n'] (line :: rest)) =
      (line :: rest).dropLast.map stripCr ++ (line :: rest).getLast?.toList.filter (fun last => last ≠ []) := by
  unfold lines
  rw [splitAll_intercalate h]

theorem trim_stripCr (line : Text) : trim (stripCr line) = trim line := by
  unfold stripCr
  split
  · next hlast =>
    obtain ⟨front, rfl⟩ := List.getLast?_eq_some_iff.mp hlast
    rw [List.dropLast_concat, trim_eq, trim_eq, List.dropWhile_append]
    split
    · next hblank =>
      rw [List.isEmpty_iff.mp hblank]
      rfl
    · rw [List.rdropWhile_concat_pos _ _ _ (by decide)]
  · rfl

/-! ## UTF-8 -/

theorem Text.length_utf8 (t : Text) : t.utf8.length = t.utf8Len := by
  induction t with
  | nil => rfl
  | cons c t ih =>
    simp only [Text.utf8, Text.utf8Len, List.flatMap_cons, List.length_append, List.length_map,
      String.length_utf8EncodeChar, List.map_cons, List.sum_cons] at ih ⊢
    rw [ih]

theorem Text.utf8_inj {t u : Text} (h : t.utf8 = u.utf8) : t = u := by
  have hmap : ∀ t : Text, t.utf8 = (t.flatMap String.utf8EncodeChar).map UInt8.toFin := by
    intro t
    rw [List.map_flatMap]
    rfl
  rw [hmap, hmap] at h
  have hbytes : t.flatMap String.utf8EncodeChar = u.flatMap String.utf8EncodeChar := by
    refine List.map_injective_iff.mpr ?_ h
    intro a b hab
    exact UInt8.toFin_inj.mp hab
  have hencode : t.utf8Encode = u.utf8Encode := by
    simp only [List.utf8Encode, hbytes]
  have hdecode := congrArg ByteArray.utf8Decode? hencode
  rw [List.utf8Decode?_utf8Encode, List.utf8Decode?_utf8Encode] at hdecode
  simpa using hdecode

/-- `String::from_utf8`. -/
def fromUtf8 (bytes : Bytes) : Option Text :=
  (bytes.map UInt8.ofFin).toByteArray.utf8Decode?.map Array.toList

theorem Text.utf8Encode_eq (t : Text) : t.utf8Encode = (t.utf8.map UInt8.ofFin).toByteArray := by
  have hbytes : t.utf8.map UInt8.ofFin = t.flatMap String.utf8EncodeChar := by
    rw [Text.utf8, List.map_flatMap]
    congr 1
    funext c
    rw [List.map_map]
    calc (String.utf8EncodeChar c).map (UInt8.ofFin ∘ UInt8.toFin)
        = (String.utf8EncodeChar c).map id := List.map_congr_left (fun b _ => UInt8.ofFin_toFin b)
      _ = String.utf8EncodeChar c := List.map_id _
  rw [hbytes]
  rfl

/-- UTF-8 is read as the text it was written from, and nothing else is read. -/
theorem fromUtf8_eq_some {bytes : Bytes} {t : Text} : fromUtf8 bytes = some t ↔ t.utf8 = bytes := by
  constructor
  · intro h
    obtain ⟨chars, hdecode, rfl⟩ := Option.map_eq_some_iff.mp h
    have hsome : (bytes.map UInt8.ofFin).toByteArray.utf8Decode?.isSome = true := by rw [hdecode]; rfl
    have hencode := ByteArray.utf8Encode_get_utf8Decode? (h := hsome)
    simp only [hdecode, Option.get_some] at hencode
    rw [Text.utf8Encode_eq] at hencode
    have hdata := congrArg (fun b => b.data.toList) hencode
    simp only [List.data_toByteArray] at hdata
    refine List.map_injective_iff.mpr ?_ hdata
    intro a b hab
    exact congrArg UInt8.toFin hab
  · intro h
    unfold fromUtf8
    rw [← h, ← Text.utf8Encode_eq, List.utf8Decode?_utf8Encode]
    rfl

theorem Text.utf8_append {t u : Text} : Text.utf8 (t ++ u) = t.utf8 ++ u.utf8 := List.flatMap_append

theorem utf8Len_append (t t' : Text) : Text.utf8Len (t ++ t') = t.utf8Len + t'.utf8Len := by
  rw [Text.utf8Len, List.map_append, List.sum_append, Text.utf8Len, Text.utf8Len]

theorem utf8Len_le_intercalate {sep : Text} : ∀ {pieces : List Text} {piece : Text}, piece ∈ pieces →
    piece.utf8Len ≤ Text.utf8Len (List.intercalate sep pieces)
  | [], _, h => absurd h List.not_mem_nil
  | [first], piece, h => by rw [List.mem_singleton.mp h, List.intercalate_singleton]
  | first :: next :: pieces, piece, h => by
    rw [List.intercalate_cons_cons, utf8Len_append, utf8Len_append]
    rcases List.mem_cons.mp h with rfl | h
    · omega
    · have hrest : piece.utf8Len ≤ Text.utf8Len (List.intercalate sep (next :: pieces)) := utf8Len_le_intercalate h
      omega

theorem utf8Len_concat_char (content : Text) (ch : Char) : Text.utf8Len (content ++ [ch]) = content.utf8Len + ch.utf8Size := by
  unfold Text.utf8Len
  rw [List.map_append, List.sum_append, List.map_singleton, List.sum_singleton]

theorem utf8Size_ascii {c : Char} (h : c.toNat < 128) : c.utf8Size = 1 := by
  rw [Char.utf8Size_eq_one_iff]
  exact UInt32.le_iff_toNat_le.mpr (Nat.le_of_lt_succ h)

theorem Text.utf8Len_ascii {t : Text} (h : ∀ c ∈ t, c.toNat < 128) : t.utf8Len = t.length := by
  induction t with
  | nil => rfl
  | cons c t ih =>
    have hrest := ih (fun ch hch => h ch (List.mem_cons_of_mem c hch))
    rw [Text.utf8Len, List.map_cons, List.sum_cons, utf8Size_ascii (h c List.mem_cons_self), List.length_cons, ← hrest,
      Text.utf8Len, Nat.add_comm]

theorem Text.utf8_ascii {c : Char} (h : c.toNat < 128) : Text.utf8 [c] = [Fin.ofNat 256 c.toNat] := by
  rw [Text.utf8, List.flatMap_singleton, String.utf8EncodeChar_eq_singleton (utf8Size_ascii h)]
  refine congrArg (fun b => [b]) (Fin.ext ?_)
  exact UInt32.toNat_toUInt8 c.val

/-! ## Decimal numbers -/

/-- `u64::to_string`. -/
def decimal (n : Nat) : Text := Nat.toDigits 10 n

/-- `u64::from_str`: digits, after a plus sign if there is one, of a number that fits. -/
def parseDecimal (text : Text) : Option U64 :=
  let digits := match text with
    | '+' :: rest => rest
    | _ => text
  if digits ≠ [] ∧ digits.all Char.isDigit then
    let n := Nat.ofDigitChars 10 digits 0
    if h : n < 2 ^ 64 then some ⟨n, h⟩ else none
  else none

theorem isDigit_of_mem_decimal {n : Nat} {c : Char} (h : c ∈ decimal n) : c.isDigit = true :=
  Nat.isDigit_of_mem_toDigits (by decide) (by decide) h

theorem decimal_ne_nil (n : Nat) : decimal n ≠ [] := Nat.toDigits_ne_nil

theorem parseDecimal_decimal (n : U64) : parseDecimal (decimal n.val) = some n := by
  have hdigits : (decimal n.val).all Char.isDigit = true :=
    List.all_eq_true.mpr (fun c hc => isDigit_of_mem_decimal hc)
  have hvalue : Nat.ofDigitChars 10 (decimal n.val) 0 = n.val := Nat.ofDigitChars_ten_toDigits
  unfold parseDecimal
  split
  · next rest heq =>
    have hplus := isDigit_of_mem_decimal (n := n.val) (c := '+') (by rw [heq]; exact List.mem_cons_self)
    exact absurd hplus (by decide)
  · simp only [decimal_ne_nil, hdigits, hvalue, n.isLt, ne_eq, not_false_eq_true, and_self, if_true, dif_pos, Fin.eta]

end Misty
