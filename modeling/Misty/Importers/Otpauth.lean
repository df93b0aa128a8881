import Misty.Importers.Lines
import Misty.Otp.Parse

/- The importer of a list of `otpauth://` URIs, one a line.

   What is proved:
     1. `otpauth_reads` — it reads line by line: a URI that parses and is valid is an item, any
        other line that is no comment a failed row.
     2. `otpauth_isolates_iff` — so a line costs no other, as long as the file is within its
        size and no line but the first has a byte order mark that hides what it would be
        alone.

   Correspondence (Rust ↔ Lean):
     `OtpauthImporter::import`                 ↔ `otpauthImport`; one turn of its loop ↔ `readUri` -/
namespace Misty.Importers

variable (sha256 : Bytes → ByteArr 32)

/-- One turn of the loop of `OtpauthImporter::import`. -/
def readUri (number : Nat) (line : Text) (collector : Collector) : Except ImportError Collector :=
  if collector.isFull then .error (.tooManyRows collector.ctx.limits.maxRows)
  else
    let row := RowId.atLine collector.rows number
    match itemFromUri collector.format line with
    | .ok (item, warnings, uri) => .ok (collector.accept sha256 (row.labelled uri.issuer uri.account) item warnings)
    | .error error => .ok (collector.fail row error)

/-- `OtpauthImporter::import`. -/
def otpauthImport (input : Bytes) (ctx : ImportContext) : Except ImportError ImportReport := do
  let text ← decodeText input ctx.limits
  let collector ← eachLine (readUri sha256) 0 (lines text) (.new .otpauth ctx)
  if collector.finish.outcomes = [] then .error .unrecognizedFormat else .ok collector.finish

/-- The item of a URI, where it parses and is valid. -/
def uriItem (limits : Limits) (line : Text) : Option ImportedItem :=
  match itemFromUri .otpauth line with
  | .ok (item, _, _) => if validate limits item = .ok () then some item else none
  | .error _ => none

/-- A line that is no comment is one row. -/
def uriRow (limits : Limits) (line : Text) : Option (List (Option ImportedItem)) := some [uriItem limits line]

variable {sha256}

theorem readUri_yields {number : Nat} {line : Text} {c : Collector} (htidy : c.Tidy) (hkeep : c.ctx.duplicates = .keep)
    (hformat : c.format = .otpauth) (hroom : c.outcomes.length < c.ctx.limits.maxRows) :
    ∃ next, readUri sha256 number line c = .ok next ∧ Yields c next [uriItem c.ctx.limits line] := by
  have hfull : ¬ c.isFull = true := by simpa [Collector.isFull] using hroom
  unfold readUri uriItem
  rw [if_neg hfull, hformat]
  cases itemFromUri .otpauth line with
  | error error => exact ⟨_, rfl, .fail htidy _ _⟩
  | ok read => exact ⟨_, rfl, .accept htidy hkeep _ _ _⟩

theorem rowsOf_uriRow {limits : Limits} {line : Text} :
    rowsOf (uriRow limits) line = if isUriLine (trim line) then [uriItem limits (trim line)] else [] := rfl

variable (sha256) in
/-- The loop over the lines of a file that is within its limits. -/
theorem readUri_lines {ctx : ImportContext} (hkeep : ctx.duplicates = .keep) {ls : List Text} (hlines : ∀ l ∈ ls, '\n' ∉ l)
    (hne : joined ls ≠ []) (hfits : (joined ls).utf8Len ≤ ctx.limits.maxInputBytes)
    (hrows : (rowsIn (uriRow ctx.limits) ls).length ≤ ctx.limits.maxRows) :
    ∃ c : Collector, otpauthImport sha256 (joined ls).utf8 ctx =
        (if c.finish.outcomes = [] then .error .unrecognizedFormat else .ok c.finish) ∧
      Yields (.new .otpauth ctx) c (rowsIn (uriRow ctx.limits) ls) := by
  have hstep : ∀ number line (c : Collector) l, c.Tidy → c.ctx = ctx → c.format = .otpauth →
      uriRow ctx.limits line = some l → c.outcomes.length + l.length ≤ ctx.limits.maxRows →
      ∃ next, readUri sha256 number line c = .ok next ∧ Yields c next l := by
    intro number line c l htidy hctx hformat hl hroom
    cases hl
    have hlt : c.outcomes.length < c.ctx.limits.maxRows := by
      rw [hctx]
      simpa using hroom
    rw [← hctx]
    exact readUri_yields htidy (by rwa [hctx]) hformat hlt
  have hroom : (Collector.new .otpauth ctx).outcomes.length + (rowsIn (uriRow ctx.limits) ls).length ≤ ctx.limits.maxRows :=
    (Nat.zero_add _).le.trans hrows
  obtain ⟨c, hok, hyields⟩ : ∃ c, eachLine (readUri sha256) 0 (placed ls) (.new .otpauth ctx) = .ok c ∧
      Yields (.new .otpauth ctx) c (rowsIn (uriRow ctx.limits) ls) :=
    eachLine_yields id hstep (Collector.tidy_new .otpauth ctx) rfl rfl (fun _ _ _ => rfl) hroom
  refine ⟨c, ?_, hyields⟩
  unfold otpauthImport
  rw [decodeText_joined hne hfits]
  show (eachLine (readUri sha256) 0 (lines (joined (placed ls))) (.new .otpauth ctx) >>= _) = _
  rw [eachLine_lines (not_mem_placed hlines), hok]
  rfl

theorem otpauth_reads {ctx : ImportContext} (hkeep : ctx.duplicates = .keep) :
    ReadsLines (fun input => otpauthImport sha256 input ctx) ctx.limits (uriRow ctx.limits) where
  reads := by
    intro ls hlines hread hrows
    obtain ⟨c, hok, hyields⟩ := readUri_lines sha256 hkeep hlines (mem_placed_joined hread.some_uri) hread.fits hrows
    have hall : c.yields = rowsIn (uriRow ctx.limits) ls := by
      simpa [Collector.yields, Collector.new] using hyields.yields_eq
    have hne : c.finish.outcomes ≠ [] := by
      -- the line that is no comment has its outcome
      obtain ⟨l, hl, huri⟩ := hread.some_uri
      intro hnil
      have hempty : rowsIn (uriRow ctx.limits) ls = [] := by
        rw [← hall]
        exact List.map_eq_nil_iff.mpr hnil
      have hrow := List.flatMap_eq_nil_iff.mp hempty l hl
      rw [rowsOf_uriRow, if_pos huri] at hrow
      cases hrow
    refine ⟨c.finish, ?_, hall, ?_⟩
    · rw [hok, if_neg hne]
    · exact hyields.tidy.items_eq
  refuses := by
    intro ls hlines hread
    by_cases hfits : (joined ls).utf8Len ≤ ctx.limits.maxInputBytes
    · -- no line is more than a comment
      have hnone : rowsIn (uriRow ctx.limits) ls = [] := by
        refine List.flatMap_eq_nil_iff.mpr fun l hl => ?_
        rw [rowsOf_uriRow, if_neg]
        intro huri
        exact hread ⟨hfits, ⟨l, hl, huri⟩, fun _ _ _ => rfl⟩
      by_cases hne : joined ls = []
      · refine ⟨.empty, ?_⟩
        show otpauthImport sha256 (joined ls).utf8 ctx = _
        unfold otpauthImport
        rw [decodeText_utf8, if_pos hne]
        rfl
      · obtain ⟨c, hok, hyields⟩ := readUri_lines sha256 hkeep hlines hne hfits (by rw [hnone]; exact Nat.zero_le _)
        have hlength := hyields.length_eq
        rw [hnone] at hlength
        refine ⟨.unrecognizedFormat, hok.trans (if_pos ?_)⟩
        exact List.length_eq_zero_iff.mp hlength
    · have hne : joined ls ≠ [] := by
        intro hnil
        rw [hnil] at hfits
        exact hfits (Nat.zero_le _)
      refine ⟨.inputTooLarge (joined ls).utf8Len ctx.limits.maxInputBytes, ?_⟩
      show otpauthImport sha256 (joined ls).utf8 ctx = _
      unfold otpauthImport
      rw [decodeText_utf8, if_neg hne, if_pos (not_le.mp hfits)]
      rfl

/-! ## Marks within -/

theorem Led.stripScheme {line : Text} (h : Led line) : stripScheme line = .error .notOtpauth := by
  obtain ⟨ch, rest, rfl, hch⟩ := h
  have hmark : ch = Char.ofNat 0xfeff := by rw [← hch, Char.ofNat_toNat]
  subst hmark
  have hletter : toAsciiLowercase (Char.ofNat 0xfeff) ≠ toAsciiLowercase 'o' := by decide
  have hcolon : "://".toList.isPrefixOf (Char.ofNat 0xfeff :: rest) = false := by
    simp [List.isPrefixOf]
  unfold Misty.stripScheme
  rw [splitOnce, hcolon, if_neg Bool.false_ne_true]
  cases splitOnce "://".toList rest with
  | none => rfl
  | some parts => simp [eqIgnoreAsciiCase, hletter]

theorem Led.uriItem {limits : Limits} {line : Text} (h : Led line) : uriItem limits line = none := by
  unfold Importers.uriItem itemFromUri
  cases hparse : OtpUri.parseWithWarnings line with
  | error error => rfl
  | ok parsed =>
    obtain ⟨parts, _, _, _, hparsed⟩ := OtpUri.parse_eq_ok hparse
    have hsplit := hparsed.split_eq
    unfold splitUri at hsplit
    rw [h.stripScheme] at hsplit
    cases hsplit

theorem length_rowsOf_le {limits : Limits} (line : Text) : (rowsOf (uriRow limits) line).length ≤ 1 := by
  rw [rowsOf_uriRow]
  split <;> simp

theorem length_rowsIn_le {limits : Limits} (ls : List Text) : (rowsIn (uriRow limits) ls).length ≤ ls.length := by
  have hplaced : (placed ls).length = ls.length := by cases ls <;> rfl
  rw [rowsIn, List.length_flatMap, ← hplaced]
  calc ((placed ls).map fun l => (rowsOf (uriRow limits) l).length).sum
      ≤ ((placed ls).map fun _ => 1).sum := List.sum_le_sum fun l _ => length_rowsOf_le l
    _ = (placed ls).length := by simp

/-- Alone a line loses the mark in front of it. -/
theorem lineYields_otpauth {ctx : ImportContext} (hkeep : ctx.duplicates = .keep) {line : Text} (hline : '\n' ∉ line)
    (hfits : line.utf8Len ≤ ctx.limits.maxInputBytes) (hrows : 1 ≤ ctx.limits.maxRows) :
    lineYields (fun input => otpauthImport sha256 input ctx) line = rowsOf (uriRow ctx.limits) (withoutBom line) := by
  have hsame : rowsIn (uriRow ctx.limits) [line] = rowsOf (uriRow ctx.limits) (withoutBom line) := by
    simp [rowsIn, placed]
  by_cases huri : isUriLine (trim (withoutBom line)) = true
  · have hread : Readable ctx.limits (uriRow ctx.limits) [line] := by
      refine ⟨?_, ⟨withoutBom line, by simp [placed], huri⟩, fun _ _ _ => rfl⟩
      rwa [joined_singleton]
    rw [(lineYields_readable (otpauth_reads hkeep) hline ((length_rowsIn_le _).trans hrows) hread).1, hsame]
  · have hread : ¬ Readable ctx.limits (uriRow ctx.limits) [line] := by
      intro hread
      obtain ⟨l, hl, hluri⟩ := hread.some_uri
      rw [placed, List.mem_singleton] at hl
      exact huri (hl ▸ hluri)
    rw [(lineYields_refused (otpauth_reads hkeep) hline hread).1, if_neg huri, rowsOf_uriRow, if_neg huri]

/-- A line costs no other, among lines that are together within the limits, exactly when a mark that leads a later
line takes nothing from it. -/
theorem otpauth_isolates_iff {ctx : ImportContext} (hkeep : ctx.duplicates = .keep) {ls : List Text}
    (hlines : ∀ l ∈ ls, '\n' ∉ l) (hfits : (joined ls).utf8Len ≤ ctx.limits.maxInputBytes)
    (hrows : ls.length ≤ ctx.limits.maxRows) :
    IsolatesLines (fun input => otpauthImport sha256 input ctx) ls ↔
      ∀ l ∈ ls.tail, Led l → isUriLine (trim (withoutBom l)) = true ∧ uriItem ctx.limits (trim (withoutBom l)) = none := by
  have hone : ∀ l ∈ ls, 1 ≤ ctx.limits.maxRows := fun l hl => (List.length_pos_of_mem hl).trans_le hrows
  have halone : ∀ l ∈ ls, lineYields (fun input => otpauthImport sha256 input ctx) l = rowsOf (uriRow ctx.limits) (withoutBom l) :=
    fun l hl => lineYields_otpauth hkeep (hlines l hl) ((utf8Len_le_intercalate hl).trans hfits) (hone l hl)
  have hled : ∀ l, Led l → rowsOf (uriRow ctx.limits) l = [none] := by
    intro l hl
    rw [rowsOf_uriRow, if_pos hl.trim.isUriLine, hl.trim.uriItem]
  rw [isolates_iff (otpauth_reads hkeep) hlines ((length_rowsIn_le ls).trans hrows)
    (fun l hl => (length_rowsIn_le _).trans (hone l hl)) ?_]
  · by_cases hread : Readable ctx.limits (uriRow ctx.limits) ls
    · simp only [hread, true_and, not_true_eq_false, false_and, or_false]
      refine forall₂_congr fun l hl => ?_
      rw [halone l (List.mem_of_mem_tail hl)]
      by_cases hmark : Led l
      · simp only [hmark, forall_const, hled l hmark, rowsOf_uriRow]
        split
        · next huri => simp [huri, eq_comm]
        · next huri => simp [huri]
      · simp [hmark, withoutBom_of_not_led hmark]
    · simp only [hread, false_and, not_false_eq_true, true_and, false_or]
      -- nothing in the file is more than a comment
      have hnone : ∀ l ∈ placed ls, isUriLine (trim l) ≠ true := fun l hl huri => hread ⟨hfits, ⟨l, hl, huri⟩, fun _ _ _ => rfl⟩
      have hmarks : ∀ l ∈ ls.tail, ¬ Led l := by
        intro l hl hmark
        refine hnone l ?_ hmark.trim.isUriLine
        cases ls with
        | nil => cases hl
        | cons first rest => exact List.mem_cons_of_mem _ hl
      refine iff_of_true ?_ fun l hl hmark => absurd hmark (hmarks l hl)
      intro l hl
      rw [halone l hl, rowsOf_uriRow, if_neg]
      refine hnone _ ?_
      cases ls with
      | nil => cases hl
      | cons first rest =>
        obtain rfl | hl := List.mem_cons.mp hl
        · exact List.mem_cons_self
        · rw [withoutBom_of_not_led (hmarks l hl)]
          exact List.mem_cons_of_mem _ hl
  · intro _ l hl
    rw [halone l (List.mem_of_mem_tail hl)]
    by_cases hmark : Led l
    · rw [hled l hmark]
      exact length_rowsOf_le _
    · rw [withoutBom_of_not_led hmark]

/-- A URI, a line that is none, and one that would be none without its mark either. -/
def uriLines : List Text :=
  ["otpauth://totp/a?secret=MFRGGZDFMZTWQ2LK".toList, "not a URI".toList, Char.ofNat 0xfeff :: "nor this".toList]

/-- Each is read for itself. -/
theorem otpauth_isolates_iff_uriLines :
    IsolatesLines (fun input => otpauthImport endDigest input ⟨none, none, .keep, .default⟩) uriLines := by
  refine (otpauth_isolates_iff rfl (by decide) (by decide) (by decide)).mpr ?_
  intro l hl hmark
  have htail : l = "not a URI".toList ∨ l = Char.ofNat 0xfeff :: "nor this".toList := by
    simpa [uriLines] using hl
  obtain rfl | rfl := htail
  · obtain ⟨ch, rest, heq, hch⟩ := hmark
    cases heq
    exact absurd hch (by decide)
  · exact ⟨by decide +kernel, by decide +kernel⟩

end Misty.Importers
