import Misty.Importers.Fields

/- Files of lines, each a row or more of its own, and what it means that one line costs no
   other.

   What is proved:
     1. `Yields.accept`, `eachLine_yields` — under `Keep` a line adds what it yields to what
        the lines before it yielded.
     2. `isolates_iff` — an importer that reads line by line yields what its lines yield
        alone, each for itself, exactly when the file is readable and its lines mean in
        place what they mean alone; or it is not, and no line has anything in it.

   Correspondence (Rust ↔ Lean):
     the loop over `text.lines()`              ↔ `eachLine`
     the lines joined by line feeds            ↔ `joined` -/
namespace Misty.Importers

/-! ## Lines -/

/-- The loop over the lines of a file: one step for each line, trimmed, that is neither blank
nor a comment. -/
def eachLine {σ ε : Type} (step : Nat → Text → σ → Except ε σ) : Nat → List Text → σ → Except ε σ
  | _, [], s => .ok s
  | offset, raw :: rest, s =>
    if isUriLine (trim raw) then do
      let s ← step (offset + 1) (trim raw) s
      eachLine step (offset + 1) rest s
    else eachLine step (offset + 1) rest s

/-- Lines, joined. -/
def joined (ls : List Text) : Text := List.intercalate ['\n'] ls

/-- A text without the byte order mark in front. -/
def withoutBom : Text → Text
  | ch :: rest => if ch.toNat = 0xfeff then rest else ch :: rest
  | [] => []

/-- The lines as they stand in the file: the mark in front of the first is taken off. -/
def placed : List Text → List Text
  | [] => []
  | line :: rest => withoutBom line :: rest

theorem joined_singleton (line : Text) : joined [line] = line := List.intercalate_singleton

theorem decodeText_utf8 (t : Text) (limits : Limits) : decodeText t.utf8 limits =
    if t = [] then .error .empty
    else if limits.maxInputBytes < t.utf8Len then .error (.inputTooLarge t.utf8Len limits.maxInputBytes)
    else .ok (withoutBom t) := by
  have hnil : t.utf8 = [] ↔ t = [] := by
    constructor
    · intro h
      exact Text.utf8_inj (h.trans rfl)
    · intro h
      rw [h]
      rfl
  unfold decodeText
  rw [Text.length_utf8, fromUtf8_eq_some.mpr rfl]
  simp only [hnil]
  cases t with
  | nil => rfl
  | cons ch rest => rfl

theorem withoutBom_joined (line : Text) (rest : List Text) : withoutBom (joined (line :: rest)) = joined (withoutBom line :: rest) := by
  unfold joined
  cases line with
  | nil =>
    cases rest with
    | nil => rfl
    | cons next rest =>
      rw [List.intercalate_cons_cons, withoutBom, List.intercalate_cons_cons]
      rfl
  | cons ch line =>
    have hcons : ∀ (l : Text), List.intercalate ['\n'] ((ch :: l) :: rest) = ch :: List.intercalate ['\n'] (l :: rest) := by
      intro l
      cases rest with
      | nil => simp
      | cons next rest => simp [List.intercalate_cons_cons]
    rw [hcons]
    simp only [withoutBom]
    split
    · rfl
    · rw [hcons]

section
variable {σ ε : Type} {step : Nat → Text → σ → Except ε σ}

theorem eachLine_congr : ∀ {ls ms : List Text} {offset : Nat} {s : σ}, ls.map trim = ms.map trim →
    eachLine step offset ls s = eachLine step offset ms s
  | [], [], _, _, _ => rfl
  | [], _ :: _, _, _, h => by simp at h
  | _ :: _, [], _, _, h => by simp at h
  | l :: ls, m :: ms, offset, s, h => by
    obtain ⟨hhead, htail⟩ := List.cons.inj h
    have hrest : ∀ s, eachLine step (offset + 1) ls s = eachLine step (offset + 1) ms s := fun s => eachLine_congr htail
    unfold eachLine
    simp only [hhead, hrest]

theorem eachLine_concat_nil : ∀ (ls : List Text) (offset : Nat) (s : σ), eachLine step offset (ls ++ [[]]) s = eachLine step offset ls s
  | [], _, _ => rfl
  | l :: ls, offset, s => by
    rw [List.cons_append]
    unfold eachLine
    simp only [eachLine_concat_nil ls]

theorem eachLine_lines {ls : List Text} (h : ∀ l ∈ ls, '\n' ∉ l) (s : σ) :
    eachLine step 0 (lines (joined ls)) s = eachLine step 0 ls s := by
  cases hls : ls with
  | nil => rfl
  | cons line rest =>
    rw [hls] at h
    unfold joined
    rw [lines_intercalate h]
    have hne : line :: rest ≠ [] := by simp
    have hsplit : line :: rest = (line :: rest).dropLast ++ [(line :: rest).getLast hne] := (List.dropLast_concat_getLast hne).symm
    rw [List.getLast?_eq_some_getLast hne]
    generalize (line :: rest).getLast hne = last at hsplit
    have hwhole := congrArg (fun ls => eachLine step 0 ls s) hsplit
    have hstrip : ((line :: rest).dropLast.map stripCr).map trim = (line :: rest).dropLast.map trim := by
      rw [List.map_map]
      exact List.map_congr_left (fun l _ => trim_stripCr l)
    by_cases hblank : last = []
    · calc eachLine step 0 ((line :: rest).dropLast.map stripCr ++ (some last).toList.filter (fun last => last ≠ [])) s
          = eachLine step 0 (line :: rest).dropLast s := by
            rw [hblank]
            refine eachLine_congr ?_
            simpa using hstrip
        _ = eachLine step 0 ((line :: rest).dropLast ++ [last]) s := by rw [hblank, eachLine_concat_nil]
        _ = eachLine step 0 (line :: rest) s := hwhole.symm
    · calc eachLine step 0 ((line :: rest).dropLast.map stripCr ++ (some last).toList.filter (fun last => last ≠ [])) s
          = eachLine step 0 ((line :: rest).dropLast ++ [last]) s := by
            refine eachLine_congr ?_
            rw [List.map_append, List.map_append, hstrip]
            simp [hblank]
        _ = eachLine step 0 (line :: rest) s := hwhole.symm

theorem eachLine_error : ∀ {ls : List Text} {offset : Nat} {s : σ},
    (∃ l ∈ ls, isUriLine (trim l) = true ∧ ∀ number s, ∃ error, step number (trim l) s = .error error) →
    ∃ error, eachLine step offset ls s = .error error
  | [], _, _, h => by
    obtain ⟨l, hl, -⟩ := h
    exact absurd hl List.not_mem_nil
  | line :: rest, offset, s, h => by
    obtain ⟨l, hl, huri, hbad⟩ := h
    unfold eachLine
    obtain rfl | hl := List.mem_cons.mp hl
    · obtain ⟨error, herror⟩ := hbad (offset + 1) s
      rw [if_pos huri, herror]
      exact ⟨error, rfl⟩
    · split
      · cases hstep : step (offset + 1) (trim line) s with
        | error error => exact ⟨error, rfl⟩
        | ok s' => exact eachLine_error ⟨l, hl, huri, hbad⟩
      · exact eachLine_error ⟨l, hl, huri, hbad⟩

end

theorem mem_placed_joined {ls : List Text} (h : ∃ l ∈ placed ls, isUriLine (trim l) = true) : joined ls ≠ [] := by
  intro hnil
  obtain ⟨l, hl, huri⟩ := h
  cases ls with
  | nil => exact absurd hl List.not_mem_nil
  | cons first rest =>
    cases rest with
    | nil =>
      rw [joined_singleton] at hnil
      rw [hnil] at hl
      rw [List.mem_singleton.mp hl] at huri
      exact absurd huri (by decide)
    | cons next rest =>
      have hlength := congrArg List.length hnil
      simp [joined, List.intercalate_cons_cons] at hlength

/-- What a line importer reads: the text, less the mark in front, as the lines that were
joined. -/
theorem decodeText_joined {ls : List Text} {limits : Limits} (hne : joined ls ≠ []) (hfits : (joined ls).utf8Len ≤ limits.maxInputBytes) :
    decodeText (joined ls).utf8 limits = .ok (joined (placed ls)) := by
  rw [decodeText_utf8, if_neg hne, if_neg (not_lt.mpr hfits)]
  cases ls with
  | nil => exact absurd rfl hne
  | cons first rest => rw [withoutBom_joined, placed]

theorem not_mem_placed {ls : List Text} (h : ∀ l ∈ ls, '\n' ∉ l) : ∀ l ∈ placed ls, '\n' ∉ l := by
  cases ls with
  | nil => simp [placed]
  | cons first rest =>
    intro l hl
    obtain rfl | hl := List.mem_cons.mp hl
    · intro hmem
      refine h first List.mem_cons_self ?_
      cases first with
      | nil => exact hmem
      | cons ch first =>
        simp only [withoutBom] at hmem
        split at hmem
        · exact List.mem_cons_of_mem ch hmem
        · exact hmem
    · exact h l (List.mem_cons_of_mem first hl)

/-! ## Marks -/

/-- A line that begins with a byte order mark. -/
def Led (line : Text) : Prop := ∃ ch rest, line = ch :: rest ∧ ch.toNat = 0xfeff

theorem withoutBom_of_not_led {line : Text} (h : ¬ Led line) : withoutBom line = line := by
  cases line with
  | nil => rfl
  | cons ch rest =>
    have hne : ch.toNat ≠ 0xfeff := fun heq => h ⟨ch, rest, rfl, heq⟩
    simp [withoutBom, hne]

theorem Led.trim {line : Text} (h : Led line) : Led (trim line) := by
  obtain ⟨ch, rest, rfl, hch⟩ := h
  have hspace : isWhitespace ch = false := by
    unfold isWhitespace
    simp [hch]
  have hfront : (ch :: rest).dropWhile isWhitespace = ch :: rest := by simp [hspace]
  unfold Misty.trim
  rw [hfront, List.reverse_cons, List.dropWhile_append]
  split
  · exact ⟨ch, [], by simp [hspace], hch⟩
  · exact ⟨ch, _, by rw [List.reverse_append]; rfl, hch⟩

theorem Led.isUriLine {line : Text} (h : Led line) : isUriLine line = true := by
  obtain ⟨ch, rest, rfl, hch⟩ := h
  have hne : ch ≠ '#' := by
    rintro rfl
    exact absurd hch (by decide)
  simp [Importers.isUriLine, hne]

/-! ## What a line yields -/

/-- An item for each outcome that names one. -/
def Collector.yields (self : Collector) : List (Option ImportedItem) :=
  self.outcomes.map (fun outcome => outcome.item?.bind (fun found => self.items[found]?))

/-- The same of a report. -/
def ImportReport.yields (report : ImportReport) : List (Option ImportedItem) :=
  report.outcomes.map (fun outcome => outcome.item?.bind (fun found => report.items[found]?))

/-- Every outcome that names an item names one that is there, and they name all of them. -/
structure Collector.Tidy (c : Collector) : Prop where
  indexed : ∀ outcome ∈ c.outcomes, ∀ found, outcome.item? = some found → found < c.items.length
  items_eq : c.items = c.yields.reduceOption

theorem Collector.tidy_new (format : SourceFormat) (ctx : ImportContext) : (new format ctx).Tidy where
  indexed := by simp [new]
  items_eq := rfl

/-- From one collector to a later one that has yielded so much more. -/
structure Yields (before after : Collector) (more : List (Option ImportedItem)) : Prop where
  ctx_eq : after.ctx = before.ctx
  format_eq : after.format = before.format
  yields_eq : after.yields = before.yields ++ more
  tidy : after.Tidy

namespace Yields
variable {before after : Collector} {more : List (Option ImportedItem)}

theorem refl {c : Collector} (h : c.Tidy) : Yields c c [] := ⟨rfl, rfl, (List.append_nil _).symm, h⟩

theorem trans {later : Collector} {further : List (Option ImportedItem)} (h : Yields before after more)
    (h' : Yields after later further) : Yields before later (more ++ further) where
  ctx_eq := h'.ctx_eq.trans h.ctx_eq
  format_eq := h'.format_eq.trans h.format_eq
  yields_eq := by rw [h'.yields_eq, h.yields_eq, List.append_assoc]
  tidy := h'.tidy

theorem length_eq (h : Yields before after more) : after.outcomes.length = before.outcomes.length + more.length := by
  have hlength := congrArg List.length h.yields_eq
  simpa [Collector.yields] using hlength

theorem noted {c : Collector} {outcome : RowOutcome} (h : c.Tidy) (hnone : outcome.item? = none) {seen : List (ByteArr 32)} :
    Yields c { c with outcomes := c.outcomes ++ [outcome], seen := seen } [none] := by
  have hyields : Collector.yields { c with outcomes := c.outcomes ++ [outcome], seen := seen } = c.yields ++ [none] := by
    simp [Collector.yields, hnone]
  refine ⟨rfl, rfl, hyields, ?_, ?_⟩
  · intro o ho found hfound
    obtain hold | hnew := List.mem_append.mp ho
    · exact h.indexed o hold found hfound
    · rw [List.mem_singleton.mp hnew, hnone] at hfound
      cases hfound
  · rw [hyields, List.reduceOption_append]
    exact h.items_eq.trans (List.append_nil _).symm

theorem skip {c : Collector} (h : c.Tidy) (row : RowId) (reason : SkipReason) : Yields c (c.skip row reason) [none] := noted h rfl

theorem fail {c : Collector} (h : c.Tidy) (row : RowId) (error : RowError) : Yields c (c.fail row error) [none] := noted h rfl

/-- Under `Keep` a row that is offered is an item when it is valid. -/
theorem accept {sha256 : Bytes → ByteArr 32} {c : Collector} (h : c.Tidy) (hkeep : c.ctx.duplicates = .keep) (row : RowId)
    (item : ImportedItem) (warnings : List ImportWarning) :
    Yields c (c.accept sha256 row item warnings) [if validate c.ctx.limits item = .ok () then some item else none] := by
  obtain ⟨error, herror, heq⟩ | ⟨hskip, -⟩ | ⟨hskip, -⟩ | ⟨-, hvalid, seen, added, -, heq⟩ := c.accept_cases sha256 row item warnings
  · rw [heq, herror, if_neg (by simp)]
    exact fail h row error
  · rw [hkeep] at hskip
    cases hskip
  · rw [hkeep] at hskip
    cases hskip
  · rw [heq, if_pos hvalid]
    have hyields : Collector.yields ⟨c.format, c.ctx, c.items ++ [item],
        c.outcomes ++ [.imported row c.items.length (warnings ++ added)], c.batchParts, seen⟩ = c.yields ++ [some item] := by
      simp only [Collector.yields, List.map_append, List.map_singleton]
      congr 1
      · refine List.map_congr_left ?_
        intro outcome houtcome
        cases hitem : outcome.item? with
        | none => rfl
        | some found => exact List.getElem?_append_left (h.indexed outcome houtcome found hitem)
      · simp [RowOutcome.item?]
    refine ⟨rfl, rfl, hyields, ?_, ?_⟩
    · intro o ho found hfound
      rw [List.length_append, List.length_singleton]
      obtain hold | hnew := List.mem_append.mp ho
      · exact Nat.lt_succ_of_lt (h.indexed o hold found hfound)
      · rw [List.mem_singleton.mp hnew] at hfound
        cases hfound
        exact Nat.lt_succ_self _
    · rw [hyields, List.reduceOption_append, ← h.items_eq]
      rfl

end Yields

/-- What a line, in place, yields, given what a line that can be read does. -/
def rowsOf (place : Text → Option (List (Option ImportedItem))) (raw : Text) : List (Option ImportedItem) :=
  if isUriLine (trim raw) then (place (trim raw)).getD [] else []

/-- What a file of lines yields. -/
def rowsIn (place : Text → Option (List (Option ImportedItem))) (ls : List Text) : List (Option ImportedItem) :=
  (placed ls).flatMap (rowsOf place)

/-- Lines that can be read yield, one after another, what each does. -/
theorem eachLine_yields {σ ε : Type} {step : Nat → Text → σ → Except ε σ} (view : σ → Collector)
    {place : Text → Option (List (Option ImportedItem))} {ctx : ImportContext} {format : SourceFormat}
    (hstep : ∀ number line s l, (view s).Tidy → (view s).ctx = ctx → (view s).format = format → place line = some l →
      (view s).outcomes.length + l.length ≤ ctx.limits.maxRows →
      ∃ s', step number line s = .ok s' ∧ Yields (view s) (view s') l) :
    ∀ {ls : List Text} {offset : Nat} {s : σ}, (view s).Tidy → (view s).ctx = ctx → (view s).format = format →
      (∀ l ∈ ls, isUriLine (trim l) = true → (place (trim l)).isSome = true) →
      (view s).outcomes.length + (ls.flatMap (rowsOf place)).length ≤ ctx.limits.maxRows →
      ∃ s', eachLine step offset ls s = .ok s' ∧ Yields (view s) (view s') (ls.flatMap (rowsOf place))
  | [], _, s, htidy, _, _, _, _ => ⟨s, rfl, .refl htidy⟩
  | line :: rest, offset, s, htidy, hctx, hformat, hread, hroom => by
    have hrest := fun l hl => hread l (List.mem_cons_of_mem line hl)
    rw [List.flatMap_cons, List.length_append] at hroom
    unfold eachLine
    by_cases huri : isUriLine (trim line) = true
    · obtain ⟨l, hl⟩ := Option.isSome_iff_exists.mp (hread line List.mem_cons_self huri)
      have hrows : rowsOf place line = l := by rw [rowsOf, if_pos huri, hl, Option.getD_some]
      rw [hrows] at hroom
      obtain ⟨s', hok, hyields⟩ := hstep (offset + 1) (trim line) s l htidy hctx hformat hl (by omega)
      have hlength := hyields.length_eq
      obtain ⟨final, hfinal, hall⟩ := eachLine_yields view hstep hyields.tidy (hyields.ctx_eq.trans hctx)
        (hyields.format_eq.trans hformat) hrest (by omega)
      refine ⟨final, ?_, ?_⟩
      · rw [if_pos huri, hok]
        exact hfinal
      · rw [List.flatMap_cons, hrows]
        exact hyields.trans hall
    -- a line that is no URI gives no row
    · have hrows : rowsOf place line = [] := by rw [rowsOf, if_neg huri]
      rw [hrows] at hroom
      obtain ⟨final, hfinal, hall⟩ := eachLine_yields view hstep htidy hctx hformat hrest (by simpa using hroom)
      refine ⟨final, ?_, ?_⟩
      · rw [if_neg huri]
        exact hfinal
      · rw [List.flatMap_cons, hrows]
        exact hall

/-! ## One line costs no other -/

section
variable {ε : Type}

/-- The items of an import: none when there is no report. -/
def itemsOf : Except ε ImportReport → List ImportedItem
  | .ok report => report.items
  | .error _ => []

/-- What an import yields, outcome by outcome: nothing when there is no report. -/
def yieldsOf : Except ε ImportReport → List (Option ImportedItem)
  | .ok report => report.yields
  | .error _ => []

/-- What a line yields alone in a file. A line that is refused, and is neither blank nor a
comment, is to have one outcome without an item. -/
def lineYields (imp : Bytes → Except ε ImportReport) (line : Text) : List (Option ImportedItem) :=
  match imp line.utf8 with
  | .ok report => report.yields
  | .error _ => if isUriLine (trim (withoutBom line)) then [none] else []

/-- Each line of a file yields what it yields alone: the items of the others are the same
whatever it is. -/
structure IsolatesLines (imp : Bytes → Except ε ImportReport) (ls : List Text) : Prop where
  yields : yieldsOf (imp (joined ls).utf8) = ls.flatMap (lineYields imp)
  items : itemsOf (imp (joined ls).utf8) = ls.flatMap (fun line => itemsOf (imp line.utf8))

/-- Within the limit on its size, and some line is neither blank nor a comment, and all such
lines can be read where they stand. -/
structure Readable (limits : Limits) (place : Text → Option (List (Option ImportedItem))) (ls : List Text) : Prop where
  fits : (joined ls).utf8Len ≤ limits.maxInputBytes
  some_uri : ∃ l ∈ placed ls, isUriLine (trim l) = true
  reads : ∀ l ∈ placed ls, isUriLine (trim l) = true → (place (trim l)).isSome = true

/-- An importer that reads line by line. -/
structure ReadsLines (imp : Bytes → Except ε ImportReport) (limits : Limits) (place : Text → Option (List (Option ImportedItem))) :
    Prop where
  reads : ∀ ls, (∀ l ∈ ls, '\n' ∉ l) → Readable limits place ls → (rowsIn place ls).length ≤ limits.maxRows →
    ∃ report, imp (joined ls).utf8 = .ok report ∧ report.yields = rowsIn place ls ∧ report.items = report.yields.reduceOption
  refuses : ∀ ls, (∀ l ∈ ls, '\n' ∉ l) → ¬ Readable limits place ls → ∃ error, imp (joined ls).utf8 = .error error

variable {imp : Bytes → Except ε ImportReport} {limits : Limits} {place : Text → Option (List (Option ImportedItem))}

theorem lineYields_readable (h : ReadsLines imp limits place) {line : Text} (hline : '\n' ∉ line)
    (hrows : (rowsIn place [line]).length ≤ limits.maxRows) (hread : Readable limits place [line]) :
    lineYields imp line = rowsIn place [line] ∧ itemsOf (imp line.utf8) = (rowsIn place [line]).reduceOption := by
  obtain ⟨report, hok, hyields, hitems⟩ := h.reads [line] (by simpa using hline) hread hrows
  rw [joined_singleton] at hok
  constructor
  · rw [lineYields, hok]
    exact hyields
  · rw [hok, ← hyields]
    exact hitems

theorem lineYields_refused (h : ReadsLines imp limits place) {line : Text} (hline : '\n' ∉ line)
    (hread : ¬ Readable limits place [line]) :
    lineYields imp line = (if isUriLine (trim (withoutBom line)) then [none] else []) ∧ itemsOf (imp line.utf8) = [] := by
  obtain ⟨error, herror⟩ := h.refuses [line] (by simpa using hline) hread
  rw [joined_singleton] at herror
  constructor
  · rw [lineYields, herror]
  · rw [herror]
    rfl

theorem rowsIn_singleton (line : Text) : rowsIn place [line] = rowsOf place (withoutBom line) := by simp [rowsIn, placed]

theorem readable_singleton {line : Text} : Readable limits place [line] ↔
    line.utf8Len ≤ limits.maxInputBytes ∧ isUriLine (trim (withoutBom line)) = true ∧
      (place (trim (withoutBom line))).isSome = true := by
  constructor
  · intro h
    have hfits := h.fits
    rw [joined_singleton] at hfits
    obtain ⟨l, hl, huri⟩ := h.some_uri
    rw [placed, List.mem_singleton] at hl
    subst hl
    exact ⟨hfits, huri, h.reads _ List.mem_cons_self huri⟩
  · intro h
    obtain ⟨hfits, huri, hsome⟩ := h
    refine ⟨?_, ⟨_, List.mem_cons_self, huri⟩, ?_⟩
    · rw [joined_singleton]
      exact hfits
    · intro l hl _
      rw [placed, List.mem_singleton] at hl
      rw [hl]
      exact hsome

theorem lineYields_of_some (h : ReadsLines imp limits place) {line : Text} (hline : '\n' ∉ line)
    (hrows : (rowsIn place [line]).length ≤ limits.maxRows) (hfits : line.utf8Len ≤ limits.maxInputBytes)
    (huri : isUriLine (trim (withoutBom line)) = true) (hsome : (place (trim (withoutBom line))).isSome = true) :
    lineYields imp line = rowsOf place (withoutBom line) := by
  rw [(lineYields_readable h hline hrows (readable_singleton.mpr ⟨hfits, huri, hsome⟩)).1, rowsIn_singleton]

theorem lineYields_of_blank (h : ReadsLines imp limits place) {line : Text} (hline : '\n' ∉ line)
    (huri : isUriLine (trim (withoutBom line)) ≠ true) : lineYields imp line = [] := by
  rw [(lineYields_refused h hline fun hread => huri (readable_singleton.mp hread).2.1).1, if_neg huri]

theorem lineYields_of_none (h : ReadsLines imp limits place) {line : Text} (hline : '\n' ∉ line)
    (huri : isUriLine (trim (withoutBom line)) = true) (hnone : (place (trim (withoutBom line))).isSome ≠ true) :
    lineYields imp line = [none] := by
  rw [(lineYields_refused h hline fun hread => hnone (readable_singleton.mp hread).2.2).1, if_pos huri]

theorem itemsOf_line (h : ReadsLines imp limits place) {line : Text} (hline : '\n' ∉ line)
    (hrows : (rowsIn place [line]).length ≤ limits.maxRows) : itemsOf (imp line.utf8) = (lineYields imp line).reduceOption := by
  by_cases hread : Readable limits place [line]
  · obtain ⟨hyields, hitems⟩ := lineYields_readable h hline hrows hread
    rw [hitems, hyields]
  · obtain ⟨hyields, hitems⟩ := lineYields_refused h hline hread
    rw [hitems, hyields]
    split
    · rfl
    · rfl

theorem reduceOption_flatMap {α β : Type} (f : α → List (Option β)) (l : List α) :
    (l.flatMap f).reduceOption = l.flatMap (fun a => (f a).reduceOption) := by
  induction l with
  | nil => rfl
  | cons a l ih => rw [List.flatMap_cons, List.flatMap_cons, List.reduceOption_append, ih]

/-- Lists that are as long, each no longer than its own, are the same one by one when they
are the same together. -/
theorem flatMap_eq_iff {α β : Type} {f g : α → List β} : ∀ {l : List α}, (∀ a ∈ l, (g a).length ≤ (f a).length) →
    (l.flatMap f = l.flatMap g ↔ ∀ a ∈ l, f a = g a)
  | [], _ => by simp
  | a :: l, hle => by
    have hrest := fun b hb => hle b (List.mem_cons_of_mem a hb)
    have ih := flatMap_eq_iff hrest
    rw [List.flatMap_cons, List.flatMap_cons]
    constructor
    · intro h
      have hsum : ∀ {m : List α}, (∀ b ∈ m, (g b).length ≤ (f b).length) → (m.flatMap g).length ≤ (m.flatMap f).length := by
        intro m hm
        rw [List.length_flatMap, List.length_flatMap]
        exact List.sum_le_sum hm
      have htotal := congrArg List.length h
      rw [List.length_append, List.length_append] at htotal
      have hhead := hle a List.mem_cons_self
      have htail := hsum hrest
      obtain ⟨heq, hlater⟩ := List.append_inj h (by omega)
      exact List.forall_mem_cons.mpr ⟨heq, ih.mp hlater⟩
    · intro h
      obtain ⟨heq, hlater⟩ := List.forall_mem_cons.mp h
      rw [heq, ih.mpr hlater]

/-- Where the lines together and each alone are within the limit on rows, and no line yields
more alone than in place, a readable file isolates its lines exactly when each line means
in place what it means alone; a file that is refused does when no line has anything in it. -/
theorem isolates_iff (h : ReadsLines imp limits place) {ls : List Text} (hlines : ∀ l ∈ ls, '\n' ∉ l)
    (hrows : (rowsIn place ls).length ≤ limits.maxRows) (halone : ∀ l ∈ ls, (rowsIn place [l]).length ≤ limits.maxRows)
    (hle : Readable limits place ls → ∀ l ∈ ls.tail, (lineYields imp l).length ≤ (rowsOf place l).length) :
    IsolatesLines imp ls ↔
      (Readable limits place ls ∧ ∀ l ∈ ls.tail, rowsOf place l = lineYields imp l) ∨
      (¬ Readable limits place ls ∧ ∀ l ∈ ls, lineYields imp l = []) := by
  have hitems : ls.flatMap (fun line => itemsOf (imp line.utf8)) = (ls.flatMap (lineYields imp)).reduceOption := by
    rw [reduceOption_flatMap]
    exact List.flatMap_congr (fun l hl => itemsOf_line h (hlines l hl) (halone l hl))
  by_cases hread : Readable limits place ls
  · obtain ⟨report, hok, hyields, hreduce⟩ := h.reads ls hlines hread hrows
    simp only [hread, true_and, not_true_eq_false, false_and, or_false]
    -- The first line is read as it is alone, since both lose the mark in front.
    have hfirst : ∀ first rest, ls = first :: rest → rowsOf place (withoutBom first) = lineYields imp first := by
      intro first rest hls
      subst hls
      have hline := hlines first List.mem_cons_self
      by_cases huri : isUriLine (trim (withoutBom first)) = true
      · exact (lineYields_of_some h hline (halone first List.mem_cons_self)
          ((utf8Len_le_intercalate List.mem_cons_self).trans hread.fits) huri (hread.reads _ List.mem_cons_self huri)).symm
      · rw [lineYields_of_blank h hline huri, rowsOf, if_neg huri]
    have hsplit : rowsIn place ls = ls.flatMap (lineYields imp) ↔ ∀ l ∈ ls.tail, rowsOf place l = lineYields imp l := by
      cases hls : ls with
      | nil => simp [rowsIn, placed]
      | cons first rest =>
        rw [rowsIn, placed, List.flatMap_cons, List.flatMap_cons, hfirst first rest hls, List.append_cancel_left_eq, List.tail_cons]
        refine flatMap_eq_iff ?_
        intro l hl
        exact hle hread l (by rw [hls]; exact hl)
    rw [← hsplit, ← hyields]
    constructor
    · intro hall
      have hline := hall.yields
      rw [hok] at hline
      exact hline
    · intro hall
      refine ⟨?_, ?_⟩
      · rw [hok]
        exact hall
      · rw [hok, hitems, ← hall]
        exact hreduce
  · obtain ⟨error, herror⟩ := h.refuses ls hlines hread
    simp only [hread, false_and, not_false_eq_true, true_and, false_or]
    constructor
    · intro hall
      have hline := hall.yields
      rw [herror] at hline
      exact List.flatMap_eq_nil_iff.mp hline.symm
    · intro hall
      have hnil := List.flatMap_eq_nil_iff.mpr hall
      refine ⟨?_, ?_⟩
      · rw [herror, hnil]
        rfl
      · rw [herror, hitems, hnil]
        rfl

/-- Where no later line begins with a mark, every line stands there without one. -/
theorem placed_of_not_led {ls : List Text} (hmarks : ∀ l ∈ ls.tail, ¬ Led l) : placed ls = ls.map withoutBom := by
  cases ls with
  | nil => rfl
  | cons first rest =>
    have hrest : rest.map withoutBom = rest.map id :=
      List.map_congr_left fun l hl => withoutBom_of_not_led (hmarks l hl)
    rw [placed, List.map_cons, hrest, List.map_id]

/-- Where no line but the first has a mark in front, a line costs no other exactly when all that are no comments can be read. -/
theorem isolates_iff_readable (h : ReadsLines imp limits place) {ls : List Text} (hlines : ∀ l ∈ ls, '\n' ∉ l)
    (hmarks : ∀ l ∈ ls.tail, ¬ Led l) (hfits : (joined ls).utf8Len ≤ limits.maxInputBytes)
    (hrows : (rowsIn place ls).length ≤ limits.maxRows) :
    IsolatesLines imp ls ↔ ∀ l ∈ placed ls, isUriLine (trim l) = true → (place (trim l)).isSome = true := by
  have hmap := placed_of_not_led hmarks
  have hplaced : ∀ l ∈ ls, withoutBom l ∈ placed ls := by
    intro l hl
    rw [hmap]
    exact List.mem_map_of_mem hl
  have halone : ∀ l ∈ ls, (rowsIn place [l]).length ≤ limits.maxRows := by
    intro l hl
    rw [rowsIn_singleton]
    have hsub := (List.singleton_sublist.mpr (hplaced l hl)).flatMap (rowsOf place)
    rw [List.flatMap_singleton] at hsub
    exact hsub.length_le.trans hrows
  have htail : ∀ l ∈ ls.tail, withoutBom l = l := fun l hl => withoutBom_of_not_led (hmarks l hl)
  have hsame : Readable limits place ls → ∀ l ∈ ls.tail, rowsOf place l = lineYields imp l := by
    intro hread l hl
    have hmem := List.mem_of_mem_tail hl
    have hmemp := hplaced l hmem
    have hbare := htail l hl
    by_cases huri : isUriLine (trim (withoutBom l)) = true
    · rw [lineYields_of_some h (hlines l hmem) (halone l hmem) ((utf8Len_le_intercalate hmem).trans hfits) huri
        (hread.reads _ hmemp huri), hbare]
    · rw [lineYields_of_blank h (hlines l hmem) huri, rowsOf, if_neg]
      rwa [hbare] at huri
  rw [isolates_iff h hlines hrows halone fun hread l hl => by rw [hsame hread l hl]]
  constructor
  · intro hcases
    obtain ⟨hread, -⟩ | ⟨-, hnone⟩ := hcases
    · exact hread.reads
    · intro l hl huri
      by_contra hunread
      -- the line that stands there is one of the file's
      rw [hmap] at hl
      obtain ⟨l', hl', rfl⟩ := List.mem_map.mp hl
      have hline := hnone l' hl'
      rw [lineYields_of_none h (hlines l' hl') huri hunread] at hline
      cases hline
  · intro hall
    by_cases hsome : ∃ l ∈ placed ls, isUriLine (trim l) = true
    · have hread : Readable limits place ls := ⟨hfits, hsome, hall⟩
      exact .inl ⟨hread, hsame hread⟩
    · exact .inr ⟨fun hread => hsome hread.some_uri, fun l hl =>
        lineYields_of_blank h (hlines l hl) fun huri => hsome ⟨_, hplaced l hl, huri⟩⟩

end

end Misty.Importers
