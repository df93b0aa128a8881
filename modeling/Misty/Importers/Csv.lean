import Misty.Importers.Model

/- The CSV reader: one character at a time, with the state of a field, a row and a file, and
   one character of lookahead.

   What is proved:
     1. `field_read`, `row_read` — what a field and a row leave behind, whatever follows.
     2. `rows_read` — a text made of rows is read row by row: the fields of each, or an
        error for a row past a limit.
     3. `csv_reads_what_is_written` — so what is written reads back, and a row that is too
        wide or too long costs no other row.

   Correspondence (Rust ↔ Lean):
     `csv::Row`                                ↔ `Row`
     `csv::rows`, its loop, its end            ↔ `rows`, `rowsLoop`, `Scan.last`
     the variables of the loop                 ↔ `Scan`
     `push_field!`, `push_char`, `finish`      ↔ `Scan.pushField`, `Scan.pushChar`, `finish`
     `chars.peek()`, `chars.next()`            ↔ `rest.head?`, `rest.tail` -/
namespace Misty.Importers

/-- One row of a CSV file. -/
structure Row where
  line : Nat
  fields : Except RowError (List Text)

/-- What the loop keeps. -/
structure Scan where
  line : Nat
  rowLine : Nat
  fields : List Text
  field : Text
  inQuotes : Bool
  atFieldStart : Bool
  overflow : Option RowError

def finish (line : Nat) (fields : List Text) (overflow : Option RowError) : Row where
  line := line
  fields := match overflow with
    | some error => .error error
    | none => .ok fields

variable (limits : Limits)

namespace Scan

/-- Before the first character. -/
def start : Scan := ⟨1, 1, [], [], false, true, none⟩

/-- `push_field!`. -/
def pushField (self : Scan) : Scan :=
  if limits.maxCsvColumns ≤ self.fields.length then
    { self with
      overflow := self.overflow.or (some (.fieldTooLong "row" (self.fields.length + 1) limits.maxCsvColumns))
      field := [] }
  else { self with fields := self.fields ++ [self.field], field := [] }

def pushChar (self : Scan) (ch : Char) : Scan :=
  if limits.maxNoteBytes < self.field.utf8Len + ch.utf8Size then
    { self with
      overflow := self.overflow.or (some (.fieldTooLong "field" (self.field.utf8Len + ch.utf8Size) limits.maxNoteBytes)) }
  else { self with field := self.field ++ [ch] }

/-- A row that is one empty field is blank. -/
def blank (self : Scan) : Bool := self.fields = [[]]

/-- The end of a row: what is left, and the rows so far. -/
def endRow (self : Scan) (out : List Row) : Scan × List Row :=
  let s := { self with line := self.line + 1 }.pushField limits
  let next : Scan := { s with fields := [], overflow := none, atFieldStart := true, rowLine := s.line }
  if ¬ s.blank ∨ s.overflow.isSome then (next, out ++ [finish s.rowLine s.fields s.overflow]) else (next, out)

/-- After the last character. -/
def last (self : Scan) (out : List Row) : List Row :=
  if self.inQuotes then out ++ [⟨self.rowLine, .error (.invalidField "unterminated quote")⟩]
  else if self.field ≠ [] ∨ self.fields ≠ [] ∨ self.overflow.isSome then
    let s := self.pushField limits
    if ¬ s.blank ∨ s.overflow.isSome then out ++ [finish s.rowLine s.fields s.overflow] else out
  else out

end Scan

variable (delimiter : Char)

/-- The loop of `rows`. -/
def rowsLoop : Text → Scan → List Row → List Row
  | [], s, out => s.last limits out
  | ch :: rest, s, out =>
    if s.inQuotes then
      if ch = '"' then
        if rest.head? = some '"' then rowsLoop rest.tail (s.pushChar limits '"') out
        else rowsLoop rest { s with inQuotes := false } out
      else rowsLoop rest ({ s with line := if ch = '\n' then s.line + 1 else s.line }.pushChar limits ch) out
    else if ch = delimiter then rowsLoop rest { s.pushField limits with atFieldStart := true } out
    else if ch = '"' ∧ s.atFieldStart then rowsLoop rest { s with inQuotes := true, atFieldStart := false } out
    else if ch = '\r' ∨ ch = '\n' then
      let ended := s.endRow limits out
      if limits.maxRows ≤ ended.2.length then ended.2
      else rowsLoop (if ch = '\r' ∧ rest.head? = some '\n' then rest.tail else rest) ended.1 ended.2
    else rowsLoop rest ({ s with atFieldStart := false }.pushChar limits ch) out
termination_by text => text.length
decreasing_by
  all_goals simp only [List.length_cons, List.length_tail]
  all_goals try omega
  split
  · rw [List.length_tail]
    omega
  · omega

def rows (text : Text) (delimiter : Byte) (limits : Limits) : List Row :=
  rowsLoop limits (Char.ofNat delimiter.val) text .start []

/-! ## One character -/

variable {limits} {delimiter}

section
variable {ch : Char} {rest : Text} {s : Scan} {out : List Row}

theorem loop_delimiter (hs : s.inQuotes = false) :
    rowsLoop limits delimiter (delimiter :: rest) s out = rowsLoop limits delimiter rest { s.pushField limits with atFieldStart := true } out := by
  rw [rowsLoop, if_neg (by rw [hs]; exact Bool.false_ne_true), if_pos rfl]

theorem loop_open (hs : s.inQuotes = false) (hstart : s.atFieldStart = true) (hd : '"' ≠ delimiter) :
    rowsLoop limits delimiter ('"' :: rest) s out = rowsLoop limits delimiter rest { s with inQuotes := true, atFieldStart := false } out := by
  rw [rowsLoop, if_neg (by rw [hs]; exact Bool.false_ne_true), if_neg hd, if_pos ⟨rfl, hstart⟩]

theorem loop_close (hs : s.inQuotes = true) (hrest : rest.head? ≠ some '"') :
    rowsLoop limits delimiter ('"' :: rest) s out = rowsLoop limits delimiter rest { s with inQuotes := false } out := by
  rw [rowsLoop, if_pos hs, if_pos rfl, if_neg hrest]

theorem loop_escape (hs : s.inQuotes = true) :
    rowsLoop limits delimiter ('"' :: '"' :: rest) s out = rowsLoop limits delimiter rest (s.pushChar limits '"') out := by
  rw [rowsLoop, if_pos hs, if_pos rfl, List.head?_cons, if_pos rfl, List.tail_cons]

theorem loop_quoted (hs : s.inQuotes = true) (hch : ch ≠ '"') :
    rowsLoop limits delimiter (ch :: rest) s out =
      rowsLoop limits delimiter rest ({ s with line := if ch = '\n' then s.line + 1 else s.line }.pushChar limits ch) out := by
  rw [rowsLoop, if_pos hs, if_neg hch]

theorem loop_plain (hs : s.inQuotes = false) (hd : ch ≠ delimiter) (hq : ¬ (ch = '"' ∧ s.atFieldStart = true))
    (hend : ¬ (ch = '\r' ∨ ch = '\n')) :
    rowsLoop limits delimiter (ch :: rest) s out = rowsLoop limits delimiter rest ({ s with atFieldStart := false }.pushChar limits ch) out := by
  rw [rowsLoop, if_neg (by rw [hs]; exact Bool.false_ne_true), if_neg hd, if_neg hq, if_neg hend]

/-- The two ways to end a row. -/
inductive Ending where
  | lf
  | crlf
  deriving DecidableEq

def Ending.text : Ending → Text
  | lf => ['\n']
  | crlf => ['\r', '\n']

theorem loop_ending (ending : Ending) (hs : s.inQuotes = false) (hd : delimiter ≠ '\r' ∧ delimiter ≠ '\n') :
    rowsLoop limits delimiter (ending.text ++ rest) s out =
      if limits.maxRows ≤ (s.endRow limits out).2.length then (s.endRow limits out).2
      else rowsLoop limits delimiter rest (s.endRow limits out).1 (s.endRow limits out).2 := by
  have hout : ¬ s.inQuotes = true := by rw [hs]; exact Bool.false_ne_true
  cases ending with
  | lf =>
    show rowsLoop limits delimiter ('\n' :: rest) s out = _
    rw [rowsLoop, if_neg hout, if_neg (Ne.symm hd.2), if_neg (fun h => absurd h.1 (by decide)), if_pos (.inr rfl)]
    simp only [Char.reduceEq, false_and, if_false]
  | crlf =>
    show rowsLoop limits delimiter ('\r' :: '\n' :: rest) s out = _
    rw [rowsLoop, if_neg hout, if_neg (Ne.symm hd.1), if_neg (fun h => absurd h.1 (by decide)), if_pos (.inl rfl)]
    simp only [List.head?_cons, and_self, if_true, List.tail_cons]

end

/-! ## Fields -/

/-- Every quote twice. -/
def escape (content : Text) : Text := content.flatMap (fun ch => if ch = '"' then ['"', '"'] else [ch])

theorem escape_cons (ch : Char) (content : Text) : escape (ch :: content) = (if ch = '"' then ['"', '"'] else [ch]) ++ escape content :=
  List.flatMap_cons

/-- A character that neither ends a field nor a row. -/
def Inner (delimiter ch : Char) : Prop := ch ≠ delimiter ∧ ch ≠ '\r' ∧ ch ≠ '\n'

/-- A field as a file may spell it: without quotes, or in quotes with anything that is not a quote behind them. -/
inductive SpellsField (delimiter : Char) : Text → Text → Prop
  | plain {content : Text} (hinner : ∀ ch ∈ content, Inner delimiter ch) (hhead : content.head? ≠ some '"') :
    SpellsField delimiter content content
  | quoted (content : Text) {behind : Text} (hinner : ∀ ch ∈ behind, Inner delimiter ch) (hhead : behind.head? ≠ some '"') :
    SpellsField delimiter ('"' :: escape content ++ '"' :: behind) (content ++ behind)

/-- What does not go on inside the quotes of the field before it. -/
def Behind (tail : Text) : Prop := tail.head? ≠ some '"'

/-- So much of a field is read, since the state before it. -/
structure Scan.Reading (limits : Limits) (s before : Scan) (content : Text) : Prop where
  fields : s.fields = before.fields
  kept : s.overflow = none → before.overflow = none ∧ content.utf8Len ≤ limits.maxNoteBytes ∧ s.field = content
  fits : before.overflow = none → content.utf8Len ≤ limits.maxNoteBytes → s.overflow = none

theorem Scan.Reading.pushChar {s s' before : Scan} {content : Text} (h : s.Reading limits before content) (ch : Char)
    (hfields : s'.fields = s.fields) (hfield : s'.field = s.field) (hoverflow : s'.overflow = s.overflow) :
    (s'.pushChar limits ch).Reading limits before (content ++ [ch]) := by
  unfold Scan.pushChar
  have hlen := utf8Len_concat_char content ch
  by_cases hlong : limits.maxNoteBytes < s'.field.utf8Len + ch.utf8Size
  · rw [if_pos hlong]
    refine ⟨hfields.trans h.fields, fun hnone => ?_, fun hnone hle => ?_⟩
    · exact absurd (congrArg Option.isSome hnone) (by simp)
    · obtain ⟨-, -, heq⟩ := h.kept (h.fits hnone (by omega))
      rw [hfield, heq] at hlong
      omega
  · rw [if_neg hlong]
    refine ⟨hfields.trans h.fields, fun hnone => ?_, fun hnone hle => ?_⟩
    · obtain ⟨hbefore, -, heq⟩ := h.kept (hoverflow.symm.trans hnone)
      rw [hfield, heq] at hlong
      exact ⟨hbefore, by omega, congrArg (· ++ [ch]) (hfield.trans heq)⟩
    · exact hoverflow.trans (h.fits hnone (by omega))

theorem loop_plain_run : ∀ (content done : Text) {s before : Scan} (tail : Text) (out : List Row), s.inQuotes = false →
    (∀ ch ∈ content, Inner delimiter ch) → (s.atFieldStart = true → content.head? ≠ some '"') → s.Reading limits before done →
      ∃ s', rowsLoop limits delimiter (content ++ tail) s out = rowsLoop limits delimiter tail s' out ∧ s'.inQuotes = false ∧
        s'.rowLine = s.rowLine ∧ s'.Reading limits before (done ++ content)
  | [], done, s, _, tail, out, hs, _, _, h => ⟨s, rfl, hs, rfl, by rw [List.append_nil]; exact h⟩
  | ch :: content, done, s, before, tail, out, hs, hinner, hhead, h => by
    obtain ⟨hd, hcr, hlf⟩ := hinner ch List.mem_cons_self
    have hquote : ¬ (ch = '"' ∧ s.atFieldStart = true) := fun hq => hhead hq.2 (congrArg some hq.1)
    have hnext : ({ s with atFieldStart := false }.pushChar limits ch).Reading limits before (done ++ [ch]) :=
      h.pushChar ch rfl rfl rfl
    have hsame : ({ s with atFieldStart := false }.pushChar limits ch).inQuotes = false ∧
        ({ s with atFieldStart := false }.pushChar limits ch).atFieldStart = false ∧
        ({ s with atFieldStart := false }.pushChar limits ch).rowLine = s.rowLine := by
      unfold Scan.pushChar
      split <;> exact ⟨hs, rfl, rfl⟩
    obtain ⟨s', hloop, hs', hline, hread⟩ := loop_plain_run content (done ++ [ch]) tail out hsame.1
      (fun c hc => hinner c (List.mem_cons_of_mem ch hc)) (fun htrue => absurd (hsame.2.1.symm.trans htrue) Bool.false_ne_true) hnext
    refine ⟨s', ?_, hs', hline.trans hsame.2.2, ?_⟩
    · rw [List.cons_append, loop_plain hs hd hquote (not_or.mpr ⟨hcr, hlf⟩), hloop]
    · rwa [List.append_assoc, List.singleton_append] at hread

theorem loop_quoted_run : ∀ (content done : Text) {s before : Scan} (tail : Text) (out : List Row), s.inQuotes = true →
    s.atFieldStart = false → tail.head? ≠ some '"' → s.Reading limits before done →
      ∃ s', rowsLoop limits delimiter (escape content ++ '"' :: tail) s out = rowsLoop limits delimiter tail s' out ∧
        s'.inQuotes = false ∧ s'.atFieldStart = false ∧ s'.rowLine = s.rowLine ∧ s'.Reading limits before (done ++ content)
  | [], done, s, before, tail, out, hs, hstart, htail, h => by
    refine ⟨{ s with inQuotes := false }, loop_close hs htail, rfl, hstart, rfl, ?_⟩
    rw [List.append_nil]
    exact ⟨h.fields, h.kept, h.fits⟩
  | ch :: content, done, s, before, tail, out, hs, hstart, htail, h => by
    have hkeep : ∀ r : Scan, r.inQuotes = s.inQuotes → r.atFieldStart = s.atFieldStart → r.rowLine = s.rowLine →
        (r.pushChar limits ch).inQuotes = true ∧ (r.pushChar limits ch).atFieldStart = false ∧ (r.pushChar limits ch).rowLine = s.rowLine := by
      intro r hr hr' hr''
      unfold Scan.pushChar
      split <;> exact ⟨hr.trans hs, hr'.trans hstart, hr''⟩
    rw [escape_cons]
    by_cases hquote : ch = '"'
    · obtain ⟨hin, hafter, hline⟩ := hkeep s rfl rfl rfl
      obtain ⟨s', hloop, hs', hstart', hline', hread⟩ :=
        loop_quoted_run content (done ++ [ch]) tail out hin hafter htail (h.pushChar ch rfl rfl rfl)
      refine ⟨s', ?_, hs', hstart', hline'.trans hline, ?_⟩
      · rw [if_pos hquote]
        subst hquote
        exact (loop_escape hs).trans hloop
      · rwa [List.append_assoc, List.singleton_append] at hread
    · obtain ⟨hin, hafter, hline⟩ := hkeep { s with line := if ch = '\n' then s.line + 1 else s.line } rfl rfl rfl
      obtain ⟨s', hloop, hs', hstart', hline', hread⟩ :=
        loop_quoted_run content (done ++ [ch]) tail out hin hafter htail (h.pushChar ch rfl rfl rfl)
      refine ⟨s', ?_, hs', hstart', hline'.trans hline, ?_⟩
      · rw [if_neg hquote]
        exact (loop_quoted hs hquote).trans hloop
      · rwa [List.append_assoc, List.singleton_append] at hread

/-- A state at the beginning of a field. -/
structure Scan.Fresh (s : Scan) : Prop where
  field : s.field = []
  quotes : s.inQuotes = false
  start : s.atFieldStart = true

/-- What a field leaves behind, whatever follows it but a quote. -/
theorem field_read {raw content : Text} (h : SpellsField delimiter raw content) (hd : delimiter ≠ '"') {s : Scan} (hs : s.Fresh)
    (tail : Text) (htail : tail.head? ≠ some '"') (out : List Row) :
    ∃ s', rowsLoop limits delimiter (raw ++ tail) s out = rowsLoop limits delimiter tail s' out ∧ s'.inQuotes = false ∧
      s'.rowLine = s.rowLine ∧ s'.Reading limits s content := by
  have hnothing : s.Reading limits s [] := ⟨rfl, fun hnone => ⟨hnone, Nat.zero_le _, hs.field⟩, fun hnone _ => hnone⟩
  cases h with
  | plain hinner hhead => exact loop_plain_run _ [] tail out hs.quotes hinner (fun _ => hhead) hnothing
  | @quoted content behind hinner hhead =>
    have hbehind : (behind ++ tail).head? ≠ some '"' := by
      cases behind with
      | nil => exact htail
      | cons ch behind => exact hhead
    have hopened : { s with inQuotes := true, atFieldStart := false }.Reading limits s [] := ⟨rfl, hnothing.kept, hnothing.fits⟩
    obtain ⟨s₁, hloop₁, hquotes₁, hstart₁, hline₁, hread₁⟩ :=
      @loop_quoted_run limits delimiter content [] _ s (behind ++ tail) out rfl rfl hbehind hopened
    obtain ⟨s₂, hloop₂, hquotes₂, hline₂, hread₂⟩ :=
      loop_plain_run behind content tail out hquotes₁ hinner (fun htrue => absurd (hstart₁.symm.trans htrue) Bool.false_ne_true) hread₁
    refine ⟨s₂, ?_, hquotes₂, hline₂.trans hline₁, hread₂⟩
    rw [List.append_assoc, List.cons_append, List.cons_append, loop_open hs.quotes hs.start hd.symm, hloop₁, hloop₂]

/-! ## Rows -/

/-- A row within the limits of columns and of each field. -/
def Fits (limits : Limits) (contents : List Text) : Prop :=
  contents.length ≤ limits.maxCsvColumns ∧ ∀ content ∈ contents, content.utf8Len ≤ limits.maxNoteBytes

/-- A state in which so many fields of a row are stored, or the row is known to be past a limit. -/
structure Scan.Stored (limits : Limits) (s : Scan) (contents : List Text) : Prop where
  kept : s.overflow = none → Fits limits contents ∧ s.fields = contents
  fits : Fits limits contents → s.overflow = none

theorem Scan.Stored.empty {s : Scan} (hfields : s.fields = []) (hnone : s.overflow = none) : s.Stored limits [] :=
  ⟨fun _ => ⟨⟨Nat.zero_le _, fun _ h => absurd h List.not_mem_nil⟩, hfields⟩, fun _ => hnone⟩

theorem fits_concat {contents : List Text} {content : Text} : Fits limits (contents ++ [content]) ↔
    Fits limits contents ∧ content.utf8Len ≤ limits.maxNoteBytes ∧ contents.length < limits.maxCsvColumns := by
  unfold Fits
  rw [List.length_append, List.length_singleton]
  constructor
  · intro h
    exact ⟨⟨by omega, fun c hc => h.2 c (List.mem_append_left _ hc)⟩,
      h.2 content (List.mem_append_right _ (List.mem_singleton.mpr rfl)), by omega⟩
  · intro h
    refine ⟨by omega, fun c hc => ?_⟩
    rcases List.mem_append.mp hc with hc | hc
    · exact h.1.2 c hc
    · rw [List.mem_singleton.mp hc]
      exact h.2.1

theorem Scan.Stored.pushField {s before : Scan} {contents : List Text} {content : Text} (h : before.Stored limits contents)
    (hread : s.Reading limits before content) :
    (s.pushField limits).Stored limits (contents ++ [content]) ∧ (s.pushField limits).field = [] ∧
      (s.pushField limits).inQuotes = s.inQuotes ∧ (s.pushField limits).rowLine = s.rowLine := by
  unfold Scan.pushField
  by_cases hwide : limits.maxCsvColumns ≤ s.fields.length
  · rw [if_pos hwide]
    refine ⟨⟨fun hnone => ?_, fun hfits => ?_⟩, rfl, rfl, rfl⟩
    · exact absurd (congrArg Option.isSome hnone) (by simp)
    · obtain ⟨hcontents, hcontent, hroom⟩ := fits_concat.mp hfits
      have hbefore := h.fits hcontents
      rw [hread.fields, (h.kept hbefore).2] at hwide
      omega
  · rw [if_neg hwide]
    refine ⟨⟨fun hnone => ?_, fun hfits => ?_⟩, rfl, rfl, rfl⟩
    · obtain ⟨hbefore, hcontent, hfield⟩ := hread.kept hnone
      obtain ⟨hcontents, hfields⟩ := h.kept hbefore
      rw [hread.fields, hfields] at hwide
      refine ⟨fits_concat.mpr ⟨hcontents, hcontent, not_le.mp hwide⟩, ?_⟩
      show s.fields ++ [s.field] = contents ++ [content]
      rw [hread.fields, hfields, hfield]
    · obtain ⟨hcontents, hcontent, -⟩ := fits_concat.mp hfits
      exact hread.fits (h.fits hcontents) hcontent

/-- The row a file spells with these texts of its fields. -/
def rowText (delimiter : Char) (raws : List Text) : Text := List.intercalate [delimiter] raws

theorem rowText_cons (raw raw' : Text) (raws : List Text) :
    rowText delimiter (raw :: raw' :: raws) = raw ++ delimiter :: rowText delimiter (raw' :: raws) := by
  unfold rowText
  rw [List.intercalate_cons_cons, List.append_assoc, List.singleton_append]

/-- What a row leaves behind before its end. -/
theorem row_read (hd : delimiter ≠ '"') : ∀ (pieces : List (Text × Text)) (contents : List Text) {s : Scan} (tail : Text) (out : List Row),
    pieces ≠ [] → (∀ piece ∈ pieces, SpellsField delimiter piece.1 piece.2) → s.Fresh → s.Stored limits contents →
    tail.head? ≠ some '"' →
      ∃ s', rowsLoop limits delimiter (rowText delimiter (pieces.map Prod.fst) ++ tail) s out = rowsLoop limits delimiter tail s' out ∧
        s'.inQuotes = false ∧ s'.rowLine = s.rowLine ∧
        (s'.pushField limits).Stored limits (contents ++ pieces.map Prod.snd) ∧ (s'.pushField limits).rowLine = s.rowLine
  | [], _, _, _, _, hne, _, _, _, _ => absurd rfl hne
  | [piece], contents, s, tail, out, _, hspells, hfresh, hstored, htail => by
    obtain ⟨s', hloop, hquotes, hline, hread⟩ :=
      @field_read limits delimiter _ _ (hspells piece List.mem_cons_self) hd s hfresh tail htail out
    obtain ⟨hstored', -, -, hline'⟩ := hstored.pushField hread
    have htext : rowText delimiter ([piece].map Prod.fst) = piece.1 := List.intercalate_singleton
    exact ⟨s', by rw [htext]; exact hloop, hquotes, hline, hstored', hline'.trans hline⟩
  | piece :: piece' :: pieces, contents, s, tail, out, _, hspells, hfresh, hstored, htail => by
    have hsep : (delimiter :: (rowText delimiter ((piece' :: pieces).map Prod.fst) ++ tail)).head? ≠ some '"' :=
      fun h => hd (Option.some.inj h)
    obtain ⟨s₁, hloop₁, hquotes₁, hline₁, hread₁⟩ :=
      @field_read limits delimiter _ _ (hspells piece List.mem_cons_self) hd s hfresh _ hsep out
    obtain ⟨hstored₁, hfield₁, hin₁, hkept₁⟩ := hstored.pushField hread₁
    have hfresh₁ : Scan.Fresh { s₁.pushField limits with atFieldStart := true } := ⟨hfield₁, hin₁.trans hquotes₁, rfl⟩
    have hstored₁' : Scan.Stored limits { s₁.pushField limits with atFieldStart := true } (contents ++ [piece.2]) :=
      ⟨hstored₁.kept, hstored₁.fits⟩
    obtain ⟨s₂, hloop₂, hquotes₂, hline₂, hstored₂, hkept₂⟩ := row_read hd (piece' :: pieces) (contents ++ [piece.2]) tail out
      (List.cons_ne_nil _ _) (fun p hp => hspells p (List.mem_cons_of_mem piece hp)) hfresh₁ hstored₁' htail
    have hsame : (s₁.pushField limits).rowLine = s.rowLine := hkept₁.trans hline₁
    refine ⟨s₂, ?_, hquotes₂, hline₂.trans hsame, ?_, hkept₂.trans hsame⟩
    · have htext : rowText delimiter ((piece :: piece' :: pieces).map Prod.fst) =
          piece.1 ++ delimiter :: rowText delimiter ((piece' :: pieces).map Prod.fst) := rowText_cons _ _ _
      rw [htext, List.append_assoc, List.cons_append, hloop₁, loop_delimiter hquotes₁]
      exact hloop₂
    · rw [List.append_assoc] at hstored₂
      exact hstored₂

/-- What is read of a row: its fields, or an error past a limit. -/
def ReadsRow (limits : Limits) (contents : List Text) (fields : Except RowError (List Text)) : Prop :=
  (Fits limits contents → fields = .ok contents) ∧ (¬ Fits limits contents → ∃ error, fields = .error error)

theorem finish_reads {s : Scan} {contents : List Text} (h : s.Stored limits contents) (line : Nat) :
    ReadsRow limits contents (finish line s.fields s.overflow).fields := by
  unfold finish
  constructor
  · intro hfits
    have hnone := h.fits hfits
    simp only [hnone, (h.kept hnone).2]
  · intro hnot
    cases hover : s.overflow with
    | none => exact absurd (h.kept hover).1 hnot
    | some error => exact ⟨error, rfl⟩

theorem not_blank {s : Scan} {contents : List Text} (h : s.Stored limits contents) (hblank : Fits limits contents → contents ≠ [[]]) :
    ¬ s.blank = true ∨ s.overflow.isSome = true := by
  cases hover : s.overflow with
  | none =>
    obtain ⟨hfits, hfields⟩ := h.kept hover
    refine .inl (fun hb => hblank hfits ?_)
    rw [← hfields]
    exact of_decide_eq_true hb
  | some error => exact .inr rfl

/-- The end of a row gives it out and begins the next. -/
theorem endRow_spec {s : Scan} {contents : List Text} (out : List Row) (hquotes : s.inQuotes = false)
    (h : (s.pushField limits).Stored limits contents) (hblank : Fits limits contents → contents ≠ [[]]) :
    ∃ next row, s.endRow limits out = (next, out ++ [row]) ∧ ReadsRow limits contents row.fields ∧ next.Fresh ∧
      next.fields = [] ∧ next.overflow = none := by
  have hpush : ∀ line : Nat, Scan.pushField limits { s with line := line } = { s.pushField limits with line := line } := by
    intro line
    unfold Scan.pushField
    split <;> rfl
  have hfield : (s.pushField limits).field = [] := by
    unfold Scan.pushField
    split <;> rfl
  have hin : (s.pushField limits).inQuotes = false := by
    unfold Scan.pushField
    split <;> exact hquotes
  unfold Scan.endRow
  rw [hpush]
  have hgiven : ¬ Scan.blank { s.pushField limits with line := s.line + 1 } = true ∨
      (s.pushField limits).overflow.isSome = true := not_blank ⟨h.kept, h.fits⟩ hblank
  dsimp only
  rw [if_pos hgiven]
  exact ⟨_, _, rfl, finish_reads h _, ⟨hfield, hin, rfl⟩, rfl, rfl⟩

theorem last_nothing {s : Scan} (h : s.Fresh) (hfields : s.fields = []) (hnone : s.overflow = none) (out : List Row) :
    s.last limits out = out := by
  unfold Scan.last
  rw [if_neg (by rw [h.quotes]; exact Bool.false_ne_true), if_neg]
  rw [h.field, hfields, hnone]
  simp

/-- The end of the file gives out a row that has no end of its own. -/
theorem last_spec {s : Scan} {contents : List Text} (out : List Row) (hquotes : s.inQuotes = false)
    (h : (s.pushField limits).Stored limits contents) (hfits : Fits limits contents) (hblank : contents ≠ [[]]) :
    ∃ row, s.last limits out = out ++ [row] ∧ ReadsRow limits contents row.fields := by
  have hnone := h.fits hfits
  have hstored := (h.kept hnone).2
  have hsome : s.field ≠ [] ∨ s.fields ≠ [] ∨ s.overflow.isSome = true := by
    by_contra hnot
    obtain ⟨hfield, hrest⟩ := not_or.mp hnot
    obtain ⟨hfields, -⟩ := not_or.mp hrest
    rw [not_not] at hfield hfields
    refine hblank (hstored.symm.trans ?_)
    unfold Scan.pushField at hnone ⊢
    split
    · next hwide =>
      rw [if_pos hwide] at hnone
      exact absurd (congrArg Option.isSome hnone) (by simp)
    · show s.fields ++ [s.field] = [[]]
      rw [hfields, hfield]
      rfl
  unfold Scan.last
  rw [if_neg (by rw [hquotes]; exact Bool.false_ne_true), if_pos hsome]
  dsimp only
  rw [if_pos (not_blank h (fun _ => hblank))]
  exact ⟨_, rfl, finish_reads h _⟩

/-! ## Files -/

/-- A row of a file: how it is spelled, how it ends and what its fields are. -/
structure Spelled where
  text : Text
  ending : Ending
  contents : List Text

/-- The text spells a row of these fields. -/
def SpellsRow (delimiter : Char) (text : Text) (contents : List Text) : Prop :=
  ∃ pieces : List (Text × Text), pieces ≠ [] ∧ text = rowText delimiter (pieces.map Prod.fst) ∧ contents = pieces.map Prod.snd ∧
    ∀ piece ∈ pieces, SpellsField delimiter piece.1 piece.2

/-- A file of rows, the last with its end or without. -/
def fileText : List Spelled → Bool → Text
  | [], _ => []
  | line :: rest, final => line.text ++ ((if rest = [] ∧ final = false then [] else line.ending.text) ++ fileText rest final)

/-- A row that a file can hold, and that is not blank. -/
structure Spelled.Good (limits : Limits) (delimiter : Char) (line : Spelled) : Prop where
  spells : SpellsRow delimiter line.text line.contents
  given : Fits limits line.contents → line.contents ≠ [[]]

/-- A delimiter that is none of the characters with a meaning of their own. -/
structure Separates (delimiter : Char) : Prop where
  quote : delimiter ≠ '"'
  cr : delimiter ≠ '\r'
  lf : delimiter ≠ '\n'

theorem ending_head (ending : Ending) (rest : Text) : (ending.text ++ rest).head? ≠ some '"' := by
  cases ending with
  | lf => exact fun h => absurd (Option.some.inj h) (by decide)
  | crlf => exact fun h => absurd (Option.some.inj h) (by decide)

/-- A text made of rows is read row by row. -/
theorem rows_read (hd : Separates delimiter) (final : Bool) : ∀ (lines : List Spelled) {s : Scan} (out : List Row),
    (∀ line ∈ lines, line.Good limits delimiter) → (final = false → ∀ line ∈ lines.getLast?, Fits limits line.contents) →
    s.Fresh → s.fields = [] → s.overflow = none → out.length + lines.length ≤ limits.maxRows →
      ∃ read, rowsLoop limits delimiter (fileText lines final) s out = out ++ read ∧
        List.Forall₂ (fun line row => ReadsRow limits line.contents row.fields) lines read
  | [], s, out, _, _, hfresh, hfields, hnone, _ => by
    refine ⟨[], ?_, .nil⟩
    rw [fileText, rowsLoop, List.append_nil]
    exact last_nothing hfresh hfields hnone out
  | line :: rest, s, out, hgood, hlast, hfresh, hfields, hnone, hroom => by
    rw [List.length_cons] at hroom
    obtain ⟨pieces, hpieces, htext, hcontents, hspells⟩ := (hgood line List.mem_cons_self).spells
    have hgiven := (hgood line List.mem_cons_self).given
    rw [fileText, htext]
    -- the last line may be left without an end
    by_cases hend : rest = [] ∧ final = false
    · obtain ⟨rfl, rfl⟩ := hend
      rw [if_pos ⟨rfl, rfl⟩, fileText, List.append_nil]
      obtain ⟨s₁, hloop, hquotes, -, hstored, -⟩ :=
        row_read hd.quote pieces [] [] out hpieces hspells hfresh (.empty hfields hnone) (by simp)
      rw [List.nil_append, ← hcontents] at hstored
      have hfits := hlast rfl line (by simp)
      obtain ⟨row, hrow, hreads⟩ := last_spec out hquotes hstored hfits (hgiven hfits)
      rw [List.append_nil] at hloop
      refine ⟨[row], ?_, .cons hreads .nil⟩
      rw [List.append_nil, hloop, rowsLoop, hrow]
    · rw [if_neg hend]
      obtain ⟨s₁, hloop, hquotes, -, hstored, -⟩ := row_read hd.quote pieces [] (line.ending.text ++ fileText rest final) out hpieces
        hspells hfresh (.empty hfields hnone) (ending_head _ _)
      rw [List.nil_append, ← hcontents] at hstored
      obtain ⟨next, row, hrow, hreads, hfresh', hfields', hnone'⟩ := endRow_spec out hquotes hstored hgiven
      rw [hloop, loop_ending line.ending hquotes ⟨hd.cr, hd.lf⟩, hrow]
      dsimp only
      rw [List.length_append, List.length_singleton]
      by_cases hfull : limits.maxRows ≤ out.length + 1
      · -- The last row that may be read is the last there is.
        rw [if_pos hfull]
        have hrest : rest = [] := List.length_eq_zero_iff.mp (by omega)
        subst hrest
        exact ⟨[row], rfl, .cons hreads .nil⟩
      · rw [if_neg hfull]
        have hlast' : final = false → ∀ l ∈ rest.getLast?, Fits limits l.contents := by
          intro hfinal l hl
          refine hlast hfinal l ?_
          rw [List.getLast?_cons, hl]
          rfl
        obtain ⟨read, hread, hall⟩ := rows_read hd final rest (out ++ [row]) (fun l hl => hgood l (List.mem_cons_of_mem line hl)) hlast'
          hfresh' hfields' hnone' (by rw [List.length_append, List.length_singleton]; omega)
        refine ⟨row :: read, ?_, .cons hreads hall⟩
        rw [hread, List.append_assoc, List.singleton_append]

/-! ## Writing -/

/-- A character that may only stand in quotes. -/
def mustQuote (delimiter ch : Char) : Bool := ch = delimiter || ch = '"' || ch = '\r' || ch = '\n'

/-- A field as it is written, with the choice of quotes. -/
def writeField (field : Bool × Text) : Text := if field.1 then '"' :: escape field.2 ++ ['"'] else field.2

/-- A row of a table, with how each field and its end are to be written. -/
structure Line where
  fields : List (Bool × Text)
  ending : Ending

def Line.contents (line : Line) : List Text := line.fields.map Prod.snd

/-- A row as it is written. -/
def Line.written (delimiter : Char) (line : Line) : Spelled where
  text := rowText delimiter (line.fields.map writeField)
  ending := line.ending
  contents := line.contents

/-- A row of at least one field that is not one empty field, inside the limits, with quotes where they must be. -/
structure Line.Valid (limits : Limits) (delimiter : Char) (line : Line) : Prop where
  some_field : line.fields ≠ []
  not_blank : line.contents ≠ [[]]
  fits : Fits limits line.contents
  quoted : ∀ field ∈ line.fields, field.2.any (mustQuote delimiter) = true → field.1 = true

/-- A table as it is written, the last row with its end or without. -/
def written (delimiter : Char) (table : List Line) (final : Bool) : Text := fileText (table.map (Line.written delimiter)) final

theorem spellsField_write {field : Bool × Text} (h : field.2.any (mustQuote delimiter) = true → field.1 = true) :
    SpellsField delimiter (writeField field) field.2 := by
  obtain ⟨quoted, content⟩ := field
  cases quoted with
  | true =>
    have hspells : SpellsField delimiter ('"' :: escape content ++ '"' :: []) (content ++ []) :=
      .quoted content (fun ch hch => absurd hch List.not_mem_nil) (by simp)
    rw [List.append_nil] at hspells
    exact hspells
  | false =>
    have hplain : ∀ ch ∈ content, mustQuote delimiter ch = false := by
      intro ch hch
      refine Bool.eq_false_iff.mpr (fun hmust => ?_)
      exact Bool.false_ne_true (h (List.any_eq_true.mpr ⟨ch, hch, hmust⟩))
    have hparts : ∀ ch ∈ content, ch ≠ delimiter ∧ ch ≠ '"' ∧ ch ≠ '\r' ∧ ch ≠ '\n' := by
      intro ch hch
      have hch' := hplain ch hch
      simp only [mustQuote, Bool.or_eq_false_iff, decide_eq_false_iff_not] at hch'
      exact ⟨hch'.1.1.1, hch'.1.1.2, hch'.1.2, hch'.2⟩
    refine .plain (fun ch hch => ⟨(hparts ch hch).1, (hparts ch hch).2.2.1, (hparts ch hch).2.2.2⟩) ?_
    cases content with
    | nil => exact fun hhead => by cases hhead
    | cons ch rest => exact fun hhead => (hparts ch List.mem_cons_self).2.1 (Option.some.inj hhead)

theorem spellsRow_written {line : Line} (hne : line.fields ≠ [])
    (hquoted : ∀ field ∈ line.fields, field.2.any (mustQuote delimiter) = true → field.1 = true) :
    SpellsRow delimiter (line.written delimiter).text line.contents := by
  refine ⟨line.fields.map (fun field => (writeField field, field.2)), ?_, ?_, ?_, fun piece hpiece => ?_⟩
  · exact fun hnil => hne (List.map_eq_nil_iff.mp hnil)
  · rw [List.map_map]
    rfl
  · rw [List.map_map]
    rfl
  · obtain ⟨field, hfield, rfl⟩ := List.mem_map.mp hpiece
    exact spellsField_write (hquoted field hfield)

theorem Line.Valid.good {line : Line} (h : line.Valid limits delimiter) : (line.written delimiter).Good limits delimiter :=
  ⟨spellsRow_written h.some_field h.quoted, fun _ => h.not_blank⟩

theorem fileText_append : ∀ (before : List Spelled) {after : List Spelled} {final : Bool}, after ≠ [] →
    fileText (before ++ after) final = before.flatMap (fun line => line.text ++ line.ending.text) ++ fileText after final
  | [], _, _, _ => rfl
  | line :: before, after, final, hne => by
    have hmore : before ++ after ≠ [] := fun hnil => hne (List.append_eq_nil_iff.mp hnil).2
    rw [List.cons_append, fileText, if_neg (fun h => hmore h.1), fileText_append before hne, List.flatMap_cons]
    simp only [List.append_assoc]

/-- Rows read as they should be, of rows inside the limits. -/
theorem map_fields_of_reads : ∀ {lines : List Line} {read : List Row}, (∀ line ∈ lines, Fits limits line.contents) →
    List.Forall₂ (fun line row => ReadsRow limits line.contents row.fields) (lines.map (Line.written delimiter)) read →
      read.map Row.fields = lines.map (fun line => .ok line.contents)
  | [], read, _, h => by
    rw [List.map_nil, List.forall₂_nil_left_iff] at h
    rw [h]
    rfl
  | line :: lines, read, hfits, h => by
    obtain ⟨row, rest, hreads, hrest, rfl⟩ := List.forall₂_cons_left_iff.mp h
    rw [List.map_cons, List.map_cons, hreads.1 (hfits line List.mem_cons_self),
      map_fields_of_reads (fun l hl => hfits l (List.mem_cons_of_mem line hl)) hrest]
    rfl

theorem forall₂_split {α β : Type} {R : α → β → Prop} {l l' : List α} {r : List β} (h : List.Forall₂ R (l ++ l') r) :
    ∃ front back, List.Forall₂ R l front ∧ List.Forall₂ R l' back ∧ r = front ++ back :=
  ⟨r.take l.length, r.drop l.length, (List.forall₂_take_append r l l' h.flip).flip, (List.forall₂_drop_append r l l' h.flip).flip,
    (List.take_append_drop _ _).symm⟩

theorem char_of_byte : ∀ byte : Byte, byte ∉ ([34, 13, 10] : Bytes) → Char.ofNat byte.val ≠ '"' ∧ Char.ofNat byte.val ≠ '\r' ∧
    Char.ofNat byte.val ≠ '\n' := by
  decide +kernel

/-- Reading inverts writing: a table inside the limits, written with any choice of quotes and of row ends, is read back as it is; and a
row past a limit in place of one that has an end is an error of its own and leaves the others as they were. -/
theorem csv_reads_what_is_written (limits : Limits) {delimiter : Byte}
    (hmeaning : delimiter ∉ ([34, 13, 10] : Bytes)) (table : List Line) (final : Bool)
    (hvalid : ∀ line ∈ table, line.Valid limits (Char.ofNat delimiter.val)) (hrows : table.length ≤ limits.maxRows) :
    (rows (written (Char.ofNat delimiter.val) table final) delimiter limits).map Row.fields =
      table.map (fun line => .ok line.contents) ∧
    ∀ (before after : List Line) (line : Line), table = before ++ line :: after → (after ≠ [] ∨ final = true) →
      ∀ (text : Text) (contents : List Text), SpellsRow (Char.ofNat delimiter.val) text contents → ¬ Fits limits contents →
        ∃ error, (rows (before.flatMap (fun l => (l.written (Char.ofNat delimiter.val)).text ++ l.ending.text) ++
            (text ++ line.ending.text) ++ written (Char.ofNat delimiter.val) after final) delimiter limits).map Row.fields =
          before.map (fun l => .ok l.contents) ++ .error error :: after.map (fun l => .ok l.contents) := by
  obtain ⟨hquote, hcr, hlf⟩ := char_of_byte delimiter hmeaning
  have hd : Separates (Char.ofNat delimiter.val) := ⟨hquote, hcr, hlf⟩
  generalize hchar : Char.ofNat delimiter.val = separator at *
  have hfresh : Scan.start.Fresh := ⟨rfl, rfl, rfl⟩
  have hwritten : ∀ lines : List Line, (∀ line ∈ lines, line.Valid limits separator) →
      ∀ spelled ∈ lines.map (Line.written separator), spelled.Good limits separator := by
    intro lines hlines spelled hmem
    obtain ⟨line, hline, rfl⟩ := List.mem_map.mp hmem
    exact (hlines line hline).good
  have hlastfits : ∀ lines : List Line, (∀ line ∈ lines, line.Valid limits separator) →
      ∀ spelled ∈ (lines.map (Line.written separator)).getLast?, Fits limits spelled.contents := by
    intro lines hlines spelled hmem
    obtain ⟨line, hline, rfl⟩ := List.mem_map.mp (List.mem_of_getLast? hmem)
    exact (hlines line hline).fits
  constructor
  · obtain ⟨read, hread, hall⟩ := rows_read hd final (table.map (Line.written separator)) [] (hwritten table hvalid)
      (fun _ => hlastfits table hvalid) hfresh rfl rfl (by rw [List.length_map, List.length_nil]; omega)
    rw [rows, hchar, written, hread, List.nil_append]
    exact map_fields_of_reads (fun line hline => (hvalid line hline).fits) hall
  · intro before after line htable hterminated text contents hspells hover
    subst htable
    have hbefore : ∀ l ∈ before, l.Valid limits separator := fun l hl => hvalid l (List.mem_append_left _ hl)
    have hafter : ∀ l ∈ after, l.Valid limits separator :=
      fun l hl => hvalid l (List.mem_append_right _ (List.mem_cons_of_mem line hl))
    -- the wide row is one more line that is spelled, though it does not fit
    let wide : Spelled := ⟨text, line.ending, contents⟩
    have hgood : ∀ spelled ∈ before.map (Line.written separator) ++ wide :: after.map (Line.written separator),
        spelled.Good limits separator := by
      intro spelled hmem
      rcases List.mem_append.mp hmem with hmem | hmem
      · exact hwritten before hbefore spelled hmem
      · rcases List.mem_cons.mp hmem with rfl | hmem
        · exact ⟨hspells, fun hfits => absurd hfits hover⟩
        · exact hwritten after hafter spelled hmem
    -- it is not the last line left open: one follows, or it has an end
    have hlast : final = false → ∀ spelled ∈ (before.map (Line.written separator) ++ wide :: after.map (Line.written separator)).getLast?,
        Fits limits spelled.contents := by
      intro hfinal spelled hmem
      have hne : after ≠ [] := hterminated.resolve_right (by rw [hfinal]; exact Bool.false_ne_true)
      obtain ⟨next, rest, rfl⟩ := List.exists_cons_of_ne_nil hne
      refine hlastfits _ hafter spelled ?_
      rw [List.map_cons, List.getLast?_append, List.getLast?_cons_cons] at hmem
      rw [List.map_cons]
      cases hcase : (Line.written separator next :: rest.map (Line.written separator)).getLast? with
      | none => exact absurd hcase (by simp)
      | some found =>
        rw [hcase] at hmem
        exact hmem
    have hroom : ([] : List Row).length + (before.map (Line.written separator) ++ wide :: after.map (Line.written separator)).length ≤
        limits.maxRows := by
      rw [List.length_append, List.length_cons] at hrows
      rw [List.length_nil, List.length_append, List.length_cons, List.length_map, List.length_map]
      omega
    obtain ⟨read, hread, hall⟩ := rows_read hd final _ [] hgood hlast hfresh rfl rfl hroom
    obtain ⟨readBefore, readRest, hallBefore, hallRest, rfl⟩ := forall₂_split hall
    obtain ⟨row, readAfter, hwide, hallAfter, rfl⟩ := List.forall₂_cons_left_iff.mp hallRest
    obtain ⟨error, herror⟩ := hwide.2 hover
    refine ⟨error, ?_⟩
    -- the three parts are one file
    have htext : before.flatMap (fun l => (l.written separator).text ++ l.ending.text) ++ (text ++ line.ending.text) ++
        written separator after final =
        fileText (before.map (Line.written separator) ++ wide :: after.map (Line.written separator)) final := by
      have hends : ¬ (after.map (Line.written separator) = [] ∧ final = false) := by
        intro h
        rcases hterminated with hne | htrue
        · exact hne (List.map_eq_nil_iff.mp h.1)
        · exact Bool.false_ne_true (h.2.symm.trans htrue)
      rw [fileText_append _ (List.cons_ne_nil _ _), fileText, if_neg hends, List.flatMap_map, written]
      simp only [List.append_assoc]
      rfl
    rw [rows, hchar, htext, hread, List.nil_append, List.map_append, List.map_cons, herror,
      map_fields_of_reads (fun l hl => (hbefore l hl).fits) hallBefore, map_fields_of_reads (fun l hl => (hafter l hl).fits) hallAfter]

/-- One row of two fields, the second in quotes for its comma. -/
theorem csv_reads_what_is_written_sample :
    (rows (written ',' [⟨[(false, ['a']), (true, [','])], .lf⟩] true) 44 .default).map Row.fields = [.ok [['a'], [',']]] := by
  refine (csv_reads_what_is_written .default (by decide) [⟨[(false, ['a']), (true, [','])], .lf⟩] true ?_ (by decide)).1
  intro line hline
  obtain rfl := List.mem_singleton.mp hline
  refine ⟨by simp, by simp [Line.contents], ?_, by decide⟩
  unfold Fits Line.contents
  decide

end Misty.Importers
