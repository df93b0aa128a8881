import Misty.Importers.Lines
import Misty.Importers.Protobuf

/- The importer of Google's `otpauth-migration://` URIs, one a line, each with a message that
   holds any number of accounts.

   What is proved:
     1. `migration_reads` — lines whose payloads can be read yield a row for each of their
        accounts, so an account that is wrong costs no other.
     2. `migration_isolates_iff` — a line that cannot be read costs the file: the others keep
        what they yield alone exactly when there is no such line.

   Correspondence (Rust ↔ Lean):
     `GoogleMigrationImporter::import`         ↔ `migrationImport`
     `decode_uri`, `percent_decode`, `decode_base64` ↔ `decodeUri`, `percentDecode`, `decodeBase64`
     `read_payload`, one turn of its loop      ↔ `readPayload`, `PayloadState.step`
     `read_params`, one turn of its loop       ↔ `readParams`, `Params.step`
     `interpret`                               ↔ `Params.interpret` and what `PayloadState.step` does with it
   The four engines of the `base64` crate are a parameter. -/
namespace Misty.Importers

open Protobuf

def SCHEME : Text := "otpauth-migration://".toList

/-- The engines `decode_base64` tries, in order. -/
structure Base64 where
  standard : Bytes → Option Bytes
  standardNoPad : Bytes → Option Bytes
  urlSafe : Bytes → Option Bytes
  urlSafeNoPad : Bytes → Option Bytes

def isAsciiWhitespace (byte : Byte) : Bool := byte.val ∈ [0x20, 0x09, 0x0a, 0x0c, 0x0d]

def decodeBase64 (base64 : Base64) (input : Bytes) : Option Bytes :=
  let trimmed := input.filter (fun byte => !isAsciiWhitespace byte)
  [base64.standard, base64.standardNoPad, base64.urlSafe, base64.urlSafeNoPad].findSome? (fun engine => engine trimmed)

def percentDecode : Bytes → Option Bytes
  | [] => some []
  | byte :: rest =>
    if byte.val = 37 then
      match rest with
      | high :: low :: rest => do
        let high ← Percent.hexNibble high
        let low ← Percent.hexNibble low
        return Fin.ofNat 256 (high * 16 + low) :: (← percentDecode rest)
      | _ => none
    else (percentDecode rest).map (byte :: ·)

/-- What stops an import: an error, or a `usize` that no longer fits, which no message of a
machine's size reaches. -/
inductive Stop where
  | refused (error : ImportError)
  | overflow
  deriving DecidableEq

def Stop.ofFault : Fault → Stop
  | .error error => .refused (.protobuf error)
  | .overflow => .overflow

variable (base64 : Base64) (sha256 : Bytes → ByteArr 32)

def decodeUri (line : Text) : Except ImportError Bytes := do
  let rest ← if eqIgnoreAsciiCase (line.take SCHEME.length) SCHEME then .ok (line.drop SCHEME.length)
    else .error .unrecognizedFormat
  let query ← match splitOnce ['?'] rest with
    | some (_, query) => .ok query
    | none => .error (.missingField "data")
  let pairs := (splitAll '&' query).filterMap (splitOnce ['='])
  let raw ← match pairs.find? (fun pair => eqIgnoreAsciiCase pair.1 "data".toList) with
    | some (_, value) => .ok value
    | none => .error (.missingField "data")
  match (percentDecode raw.utf8).bind (decodeBase64 base64) with
  | some payload => .ok payload
  | none => .error (.base64 "data")

structure Params where
  secret : Option Bytes
  name : Option Text
  issuer : Option Text
  algorithm : Option U64
  digits : Option U64
  kind : Option U64
  counter : Option U64

namespace Params

def default : Params := ⟨none, none, none, none, none, none, none⟩

/-- One field of an `OtpParameters`. -/
def step (self : Params) (field : Nat × Value) : Except ProtobufError Params :=
  match field.1 with
  | 1 => .ok { self with secret := field.2.bytes? }
  | 2 => (field.2.string 2).map fun name => { self with name := some name }
  | 3 => (field.2.string 3).map fun issuer => { self with issuer := some issuer }
  | 4 => .ok { self with algorithm := field.2.varint? }
  | 5 => .ok { self with digits := field.2.varint? }
  | 6 => .ok { self with kind := field.2.varint? }
  | 7 => .ok { self with counter := field.2.varint? }
  | _ => .ok self

/-- Why an account is no item. -/
inductive Refusal where
  | skip (reason : SkipReason)
  | fail (error : RowError)

/-- The algorithm, and a warning where it was assumed. -/
def readAlgorithm (self : Params) : Except Refusal (HashAlg × List ImportWarning) :=
  match (self.algorithm.getD 0).val with
  | 0 => .ok (.sha1, [.assumedDefault "algorithm"])
  | 1 => .ok (.sha1, [])
  | 2 => .ok (.sha256, [])
  | 3 => .ok (.sha512, [])
  | 4 => .error (.skip (.unsupportedAlgorithm "MD5".toList))
  | _ => .error (.fail (.invalidField "algorithm"))

def readDigits (self : Params) : Except Refusal (Byte × List ImportWarning) :=
  match (self.digits.getD 0).val with
  | 0 => .ok (6, [.assumedDefault "digits"])
  | 1 => .ok (6, [])
  | 2 => .ok (8, [])
  | _ => .error (.fail (.invalidField "digits"))

def readKind (self : Params) : Except Refusal OtpKind :=
  match (self.kind.getD 0).val with
  | 1 => .ok .hotp
  | 2 => .ok .totp
  | 0 => .error (.fail (.missingField "type"))
  | _ => .error (.fail (.invalidField "type"))

/-- The issuer and the account: an explicit issuer wins, and a label it disagrees with is the
account. -/
def names (self : Params) : Option Text × Text :=
  let label := splitLabel (self.name.getD [])
  let issuer := (self.issuer.map trim).filter (fun issuer => issuer ≠ [])
  match issuer, label.1 with
  | some explicit, some fromLabel =>
    if explicit = fromLabel then (some explicit, label.2) else (some explicit, trim (self.name.getD []))
  | some explicit, none => (some explicit, label.2)
  | none, fromLabel => (fromLabel, label.2)

/-- `interpret`, up to what the collector is told. -/
def interpret (self : Params) : Except Refusal (ImportedItem × List ImportWarning) := do
  let (algorithm, assumedAlgorithm) ← self.readAlgorithm
  let (digits, assumedDigits) ← self.readDigits
  let kind ← self.readKind
  let secret ← match self.secret with
    | some secret => .ok secret
    | none => .error (.fail (.missingField "secret"))
  let assumedCounter := if kind = .hotp ∧ self.counter = none then [.assumedDefault "counter"] else []
  let builder := { OtpConfigBuilder.new kind ⟨secret⟩ with
    algorithm := some algorithm
    digits := some digits
    counter := self.counter.getD 0 }
  let config ← builder.build.mapError (fun error => Refusal.fail (.otp error))
  return (.new .googleMigration config self.names.1 self.names.2, assumedAlgorithm ++ assumedDigits ++ assumedCounter)

/-- `interpret`. -/
def collect (self : Params) (row : RowId) (collector : Collector) : Collector :=
  match self.interpret with
  | .ok (item, warnings) => collector.accept sha256 (row.labelled self.names.1 self.names.2) item warnings
  | .error (.skip reason) => collector.skip row reason
  | .error (.fail error) => collector.fail row error

end Params

def readParams (parent : Reader) (bytes : Bytes) : Except Fault Params := do
  let reader ← (parent.nested bytes).mapError .error
  let params ← ((fieldsFrom reader).1.map Span.field).foldlM (fun params field => (params.step field).mapError Fault.error) .default
  match (fieldsFrom reader).2 with
  | some fault => .error fault
  | none => .ok params

/-- What `read_payload` carries. -/
structure PayloadState where
  collector : Collector
  batchSize : Option U64
  batchIndex : Option U64

namespace PayloadState

/-- One field of a payload. -/
def step (line : Nat) (reader : Reader) (self : PayloadState) (field : Nat × Value) : Except Stop PayloadState :=
  match field.1 with
  | 1 =>
    if self.collector.isFull then .error (.refused (.tooManyRows self.collector.ctx.limits.maxRows))
    else
      match field.2.bytes? with
      | none => .error (.refused (.protobuf (.wrongType 1)))
      | some bytes =>
        let row := RowId.atLine self.collector.rows line
        match readParams reader bytes with
        | .ok params => .ok { self with collector := params.collect sha256 row self.collector }
        | .error (.error error) => .ok { self with collector := self.collector.fail row (.protobuf error) }
        | .error .overflow => .error .overflow
  | 3 => .ok { self with batchSize := field.2.varint? }
  | 4 => .ok { self with batchIndex := field.2.varint? }
  | _ => .ok self

/-- The part of a batch that a payload says it is. -/
def noteBatch (self : PayloadState) : Collector :=
  match self.batchSize, self.batchIndex with
  | some total, some index =>
    if h : total.val < 2 ^ 32 ∧ index.val < 2 ^ 32 then self.collector.noteBatchPart ⟨index.val, h.2⟩ ⟨total.val, h.1⟩
    else self.collector
  | _, _ => self.collector

end PayloadState

def readPayload (payload : Bytes) (line : Nat) (collector : Collector) : Except Stop Collector := do
  let reader := Reader.new payload
  let state ← ((fieldsFrom reader).1.map Span.field).foldlM (fun (state : PayloadState) field => state.step sha256 line reader field)
    ⟨collector, none, none⟩
  match (fieldsFrom reader).2 with
  | some fault => .error (.ofFault fault)
  | none => .ok state.noteBatch

/-- One turn of the loop of `GoogleMigrationImporter::import`: the collector, and whether a
payload was seen. -/
def readMigration (number : Nat) (line : Text) (state : Collector × Bool) : Except Stop (Collector × Bool) := do
  let payload ← (decodeUri base64 line).mapError .refused
  let collector ← readPayload sha256 payload number state.1
  return (collector, true)

/-- `GoogleMigrationImporter::import`. -/
def migrationImport (input : Bytes) (ctx : ImportContext) : Except Stop ImportReport := do
  let text ← (decodeText input ctx.limits).mapError .refused
  let state ← eachLine (readMigration base64 sha256) 0 (lines text) (.new .googleMigration ctx, false)
  if state.2 then .ok state.1.finish else .error (.refused .unrecognizedFormat)

/-! ## What a line yields -/

/-- The item of one account, if it is one; unless its message is past a machine's size. -/
def accountItem (limits : Limits) (reader : Reader) (bytes : Bytes) : Option (Option ImportedItem) :=
  match readParams reader bytes with
  | .ok params => some (match params.interpret with
    | .ok (item, _) => if validate limits item = .ok () then some item else none
    | .error _ => none)
  | .error (.error _) => some none
  | .error .overflow => none

/-- The accounts among the fields, when each is a message. -/
def accountsIn (limits : Limits) (reader : Reader) : List (Nat × Value) → Option (List (Option ImportedItem))
  | [] => some []
  | field :: rest =>
    if field.1 = 1 then do
      let bytes ← field.2.bytes?
      let item ← accountItem limits reader bytes
      return item :: (← accountsIn limits reader rest)
    else accountsIn limits reader rest

variable {base64 sha256}

theorem Yields.noteBatchPart {c : Collector} (h : c.Tidy) (index total : U32) : Yields c (c.noteBatchPart index total) [] := by
  unfold Collector.noteBatchPart
  split
  · exact ⟨rfl, rfl, (List.append_nil _).symm, h.indexed, h.items_eq⟩
  · exact .refl h

theorem PayloadState.noteBatch_yields {s : PayloadState} (h : s.collector.Tidy) : Yields s.collector s.noteBatch [] := by
  unfold noteBatch
  split
  · split
    · exact .noteBatchPart h _ _
    · exact .refl h
  · exact .refl h

theorem Params.collect_yields {params : Params} {row : RowId} {c : Collector} (h : c.Tidy) (hkeep : c.ctx.duplicates = .keep) :
    Yields c (params.collect sha256 row c) [match params.interpret with
      | .ok (item, _) => if validate c.ctx.limits item = .ok () then some item else none
      | .error _ => none] := by
  unfold collect
  cases params.interpret with
  | ok read => exact .accept h hkeep _ _ _
  | error refusal =>
    cases refusal with
    | skip reason => exact .skip h _ _
    | fail error => exact .fail h _ _

theorem PayloadState.step_yields {line : Nat} {reader : Reader} {s : PayloadState} {field : Nat × Value} {bytes : Bytes}
    {item : Option ImportedItem} (h : s.collector.Tidy) (hkeep : s.collector.ctx.duplicates = .keep)
    (hroom : s.collector.outcomes.length < s.collector.ctx.limits.maxRows) (hnumber : field.1 = 1)
    (hbytes : field.2.bytes? = some bytes) (hitem : accountItem s.collector.ctx.limits reader bytes = some item) :
    ∃ s', s.step sha256 line reader field = .ok s' ∧ Yields s.collector s'.collector [item] := by
  have hfull : s.collector.isFull = false := by simpa [Collector.isFull] using hroom
  unfold step
  unfold accountItem at hitem
  simp only [hnumber, hfull, hbytes, Bool.false_eq_true, if_false]
  cases hparams : readParams reader bytes with
  | ok params =>
    rw [hparams] at hitem
    cases hitem
    exact ⟨_, rfl, params.collect_yields h hkeep⟩
  | error fault =>
    rw [hparams] at hitem
    cases fault with
    | error error =>
      cases hitem
      exact ⟨_, rfl, .fail h _ _⟩
    | overflow => cases hitem

theorem PayloadState.step_other {line : Nat} {reader : Reader} {s : PayloadState} {field : Nat × Value} (hnumber : field.1 ≠ 1) :
    ∃ s', s.step sha256 line reader field = .ok s' ∧ s'.collector = s.collector := by
  unfold step
  split
  · exact absurd ‹_› hnumber
  · exact ⟨_, rfl, rfl⟩
  · exact ⟨_, rfl, rfl⟩
  · exact ⟨_, rfl, rfl⟩

theorem accountsIn_cons (limits : Limits) (reader : Reader) (field : Nat × Value) (rest : List (Nat × Value)) :
    accountsIn limits reader (field :: rest) = if field.1 = 1 then
      ((field.2.bytes?).bind (accountItem limits reader)).bind fun item =>
        (accountsIn limits reader rest).map (item :: ·)
      else accountsIn limits reader rest := by
  rw [accountsIn]
  split
  · cases field.2.bytes? with
    | none => rfl
    | some bytes =>
      cases hitem : accountItem limits reader bytes with
      | none => simp [hitem]
      | some item => cases accountsIn limits reader rest <;> simp [hitem]
  · rfl

theorem PayloadState.account_of_step {line : Nat} {reader : Reader} {s s' : PayloadState} {field : Nat × Value} (limits : Limits)
    (hnumber : field.1 = 1) (h : s.step sha256 line reader field = .ok s') :
    ∃ item, (field.2.bytes?).bind (accountItem limits reader) = some item := by
  unfold step at h
  simp only [hnumber] at h
  split at h
  · cases h
  · cases hbytes : field.2.bytes? with
    | none =>
      rw [hbytes] at h
      cases h
    | some bytes =>
      rw [hbytes] at h
      simp only [Option.bind_some]
      unfold accountItem
      cases hparams : readParams reader bytes with
      | ok params => exact ⟨_, rfl⟩
      | error fault =>
        cases fault with
        | error error => exact ⟨_, rfl⟩
        | overflow => simp [hparams] at h

/-- The fields of a payload add the accounts among them, in order. -/
theorem fold_yields {line : Nat} {reader : Reader} : ∀ (fields : List (Nat × Value)) {s : PayloadState} {l : List (Option ImportedItem)},
    s.collector.Tidy → s.collector.ctx.duplicates = .keep → accountsIn s.collector.ctx.limits reader fields = some l →
    s.collector.outcomes.length + l.length ≤ s.collector.ctx.limits.maxRows →
    ∃ s', fields.foldlM (fun (state : PayloadState) field => state.step sha256 line reader field) s = .ok s' ∧
      Yields s.collector s'.collector l
  | [], s, l, htidy, _, hl, _ => by
    cases hl
    exact ⟨s, rfl, .refl htidy⟩
  | field :: rest, s, l, htidy, hkeep, hl, hroom => by
    rw [accountsIn_cons] at hl
    rw [List.foldlM_cons]
    by_cases hnumber : field.1 = 1
    · rw [if_pos hnumber] at hl
      obtain ⟨item, hitem, hl⟩ := Option.bind_eq_some_iff.mp hl
      obtain ⟨bytes, hbytes, hitem⟩ := Option.bind_eq_some_iff.mp hitem
      obtain ⟨l, hrest, rfl⟩ := Option.map_eq_some_iff.mp hl
      rw [List.length_cons] at hroom
      obtain ⟨s', hstep, hyields⟩ : ∃ s', s.step sha256 line reader field = .ok s' ∧ Yields s.collector s'.collector [item] :=
        PayloadState.step_yields htidy hkeep (by omega) hnumber hbytes hitem
      have hlength := hyields.length_eq
      rw [List.length_singleton] at hlength
      obtain ⟨final, hfold, hall⟩ := fold_yields rest hyields.tidy (by rw [hyields.ctx_eq]; exact hkeep)
        (by rw [hyields.ctx_eq]; exact hrest) (by rw [hyields.ctx_eq]; omega)
      exact ⟨final, (bind_of_ok hstep).trans hfold, hyields.trans hall⟩
    · rw [if_neg hnumber] at hl
      obtain ⟨s', hstep, hsame⟩ : ∃ s', s.step sha256 line reader field = .ok s' ∧ s'.collector = s.collector :=
        PayloadState.step_other hnumber
      obtain ⟨final, hfold, hall⟩ := fold_yields rest (s := s') (by rwa [hsame]) (by rwa [hsame]) (by rwa [hsame]) (by rwa [hsame])
      rw [hsame] at hall
      exact ⟨final, (bind_of_ok hstep).trans hfold, hall⟩

/-- A field that should be an account and is not stops the payload. -/
theorem fold_stops {line : Nat} {reader : Reader} {limits : Limits} : ∀ (fields : List (Nat × Value)) (s : PayloadState),
    accountsIn limits reader fields = none →
    ∃ stop, fields.foldlM (fun (state : PayloadState) field => state.step sha256 line reader field) s = .error stop
  | [], _, h => by cases h
  | field :: rest, s, h => by
    rw [accountsIn_cons] at h
    rw [List.foldlM_cons]
    cases hstep : s.step sha256 line reader field with
    | error stop => exact ⟨stop, rfl⟩
    | ok s' =>
      by_cases hnumber : field.1 = 1
      · obtain ⟨item, hitem⟩ := PayloadState.account_of_step limits hnumber hstep
        rw [if_pos hnumber, hitem] at h
        exact fold_stops rest s' (Option.map_eq_none_iff.mp h)
      · rw [if_neg hnumber] at h
        exact fold_stops rest s' h

/-- The accounts of a payload, when it can be read. -/
def accountsOf (limits : Limits) (payload : Bytes) : Option (List (Option ImportedItem)) :=
  if (fieldsFrom (.new payload)).2 = none then accountsIn limits (.new payload) ((fieldsFrom (.new payload)).1.map Span.field)
  else none

theorem readPayload_yields {number : Nat} {payload : Bytes} {c : Collector} {l : List (Option ImportedItem)} (htidy : c.Tidy)
    (hkeep : c.ctx.duplicates = .keep) (hl : accountsOf c.ctx.limits payload = some l)
    (hroom : c.outcomes.length + l.length ≤ c.ctx.limits.maxRows) :
    ∃ next, readPayload sha256 payload number c = .ok next ∧ Yields c next l := by
  unfold accountsOf at hl
  split at hl
  · next hsound =>
    obtain ⟨s, hfold, hyields⟩ : ∃ s, ((fieldsFrom (.new payload)).1.map Span.field).foldlM
        (fun (state : PayloadState) field => state.step sha256 number (.new payload) field) ⟨c, none, none⟩ = .ok s ∧
        Yields c s.collector l := fold_yields _ htidy hkeep hl hroom
    refine ⟨s.noteBatch, ?_, ?_⟩
    · unfold readPayload
      refine (bind_of_ok hfold).trans ?_
      rw [hsound]
    · have hall := hyields.trans (PayloadState.noteBatch_yields hyields.tidy)
      rwa [List.append_nil] at hall
  · cases hl

theorem readPayload_stops {limits : Limits} {number : Nat} {payload : Bytes} {c : Collector}
    (h : accountsOf limits payload = none) : ∃ stop, readPayload sha256 payload number c = .error stop := by
  unfold accountsOf at h
  unfold readPayload
  dsimp only
  cases hfold : ((fieldsFrom (.new payload)).1.map Span.field).foldlM
      (fun (state : PayloadState) field => state.step sha256 number (.new payload) field) ⟨c, none, none⟩ with
  | error stop => exact ⟨stop, rfl⟩
  | ok s =>
    split at h
    · -- every account was a message
      obtain ⟨stop, hstop⟩ : ∃ stop, ((fieldsFrom (.new payload)).1.map Span.field).foldlM
          (fun (state : PayloadState) field => state.step sha256 number (.new payload) field) ⟨c, none, none⟩ = .error stop :=
        fold_stops _ _ h
      cases hfold.symm.trans hstop
    · next hfault =>
      obtain ⟨fault, hfault⟩ := Option.ne_none_iff_exists'.mp hfault
      refine ⟨.ofFault fault, (bind_of_ok rfl).trans ?_⟩
      rw [hfault]

variable (base64) in
/-- The accounts of a line, when it can be read. -/
def migrationRow (limits : Limits) (line : Text) : Option (List (Option ImportedItem)) :=
  (decodeUri base64 line).toOption.bind (accountsOf limits)

theorem readMigration_yields {number : Nat} {line : Text} {state : Collector × Bool} {l : List (Option ImportedItem)}
    (htidy : state.1.Tidy) (hkeep : state.1.ctx.duplicates = .keep) (hl : migrationRow base64 state.1.ctx.limits line = some l)
    (hroom : state.1.outcomes.length + l.length ≤ state.1.ctx.limits.maxRows) :
    ∃ next, readMigration base64 sha256 number line state = .ok next ∧ next.2 = true ∧ Yields state.1 next.1 l := by
  unfold migrationRow at hl
  unfold readMigration
  cases huri : decodeUri base64 line with
  | error error =>
    rw [huri] at hl
    cases hl
  | ok payload =>
    rw [huri] at hl
    obtain ⟨next, hok, hyields⟩ : ∃ next, readPayload sha256 payload number state.1 = .ok next ∧ Yields state.1 next l :=
      readPayload_yields htidy hkeep hl hroom
    exact ⟨(next, true), bind_of_ok (f := fun c => pure (c, true)) hok, rfl, hyields⟩

theorem readMigration_stops {limits : Limits} {number : Nat} {line : Text} {state : Collector × Bool}
    (h : migrationRow base64 limits line = none) : ∃ stop, readMigration base64 sha256 number line state = .error stop := by
  unfold migrationRow at h
  unfold readMigration
  cases huri : decodeUri base64 line with
  | error error => exact ⟨_, rfl⟩
  | ok payload =>
    rw [huri] at h
    obtain ⟨stop, hstop⟩ : ∃ stop, readPayload sha256 payload number state.1 = .error stop := readPayload_stops h
    refine ⟨stop, ?_⟩
    show (readPayload sha256 payload number state.1 >>= _) = _
    rw [hstop]
    rfl

/-- The loop over a file sees a payload when it has a line that is no comment. -/
theorem eachLine_seen : ∀ {ls : List Text} {offset : Nat} {state final : Collector × Bool},
    eachLine (readMigration base64 sha256) offset ls state = .ok final →
      final.2 = (state.2 || ls.any fun l => isUriLine (trim l))
  | [], _, state, final, h => by
    cases h
    simp
  | line :: rest, offset, state, final, h => by
    unfold eachLine at h
    split at h
    · next huri =>
      obtain ⟨next, hnext, hrest⟩ := bind_eq_ok.mp h
      have hseen : next.2 = true := by
        unfold readMigration at hnext
        obtain ⟨payload, -, hnext⟩ := bind_eq_ok.mp hnext
        obtain ⟨c, -, hnext⟩ := bind_eq_ok.mp hnext
        cases hnext
        rfl
      rw [eachLine_seen hrest, hseen]
      simp [huri]
    · next huri =>
      rw [eachLine_seen h]
      simp [huri]

theorem migrationImport_joined {ctx : ImportContext} {ls : List Text} (hlines : ∀ l ∈ ls, '\n' ∉ l) (hne : joined ls ≠ [])
    (hfits : (joined ls).utf8Len ≤ ctx.limits.maxInputBytes) :
    migrationImport base64 sha256 (joined ls).utf8 ctx =
      (eachLine (readMigration base64 sha256) 0 (placed ls) (.new .googleMigration ctx, false) >>= fun state =>
        if state.2 then .ok state.1.finish else .error (.refused .unrecognizedFormat)) := by
  unfold migrationImport
  rw [decodeText_joined hne hfits]
  show (eachLine (readMigration base64 sha256) 0 (lines (joined (placed ls))) _ >>= _) = _
  rw [eachLine_lines (not_mem_placed hlines)]

theorem migration_reads {ctx : ImportContext} (hkeep : ctx.duplicates = .keep) :
    ReadsLines (fun input => migrationImport base64 sha256 input ctx) ctx.limits (migrationRow base64 ctx.limits) where
  reads := by
    intro ls hlines hread hrows
    have hstep : ∀ number line (state : Collector × Bool) l, state.1.Tidy → state.1.ctx = ctx →
        state.1.format = .googleMigration → migrationRow base64 ctx.limits line = some l →
        state.1.outcomes.length + l.length ≤ ctx.limits.maxRows →
        ∃ next, readMigration base64 sha256 number line state = .ok next ∧ Yields state.1 next.1 l := by
      intro number line state l htidy hctx _ hl hroom
      rw [← hctx] at hl hroom
      obtain ⟨next, hok, -, hyields⟩ := readMigration_yields htidy (by rwa [hctx]) hl hroom
      exact ⟨next, hok, hyields⟩
    have hroom : (Collector.new .googleMigration ctx).outcomes.length + (rowsIn (migrationRow base64 ctx.limits) ls).length ≤
        ctx.limits.maxRows := (Nat.zero_add _).le.trans hrows
    obtain ⟨final, hok, hyields⟩ : ∃ final, eachLine (readMigration base64 sha256) 0 (placed ls)
          (.new .googleMigration ctx, false) = .ok final ∧
        Yields (.new .googleMigration ctx) final.1 (rowsIn (migrationRow base64 ctx.limits) ls) :=
      eachLine_yields Prod.fst hstep (Collector.tidy_new .googleMigration ctx) rfl rfl hread.reads hroom
    have hseen : final.2 = true := by
      obtain ⟨l, hl, huri⟩ := hread.some_uri
      rw [eachLine_seen hok, Bool.false_or]
      exact List.any_eq_true.mpr ⟨l, hl, huri⟩
    refine ⟨final.1.finish, ?_, ?_, hyields.tidy.items_eq⟩
    · show migrationImport base64 sha256 (joined ls).utf8 ctx = _
      rw [migrationImport_joined hlines (mem_placed_joined hread.some_uri) hread.fits, hok]
      exact if_pos hseen
    · exact hyields.yields_eq.trans (List.nil_append _)
  refuses := by
    intro ls hlines hread
    show ∃ stop, migrationImport base64 sha256 (joined ls).utf8 ctx = .error stop
    by_cases hne : joined ls = []
    · unfold migrationImport
      rw [decodeText_utf8, if_pos hne]
      exact ⟨_, rfl⟩
    by_cases hfits : (joined ls).utf8Len ≤ ctx.limits.maxInputBytes
    · rw [migrationImport_joined hlines hne hfits]
      cases hloop : eachLine (readMigration base64 sha256) 0 (placed ls) (.new .googleMigration ctx, false) with
      | error stop => exact ⟨stop, rfl⟩
      | ok final =>
        refine ⟨.refused .unrecognizedFormat, if_neg ?_⟩
        rw [eachLine_seen hloop, Bool.false_or]
        intro hany
        obtain ⟨l, hl, huri⟩ := List.any_eq_true.mp hany
        -- a line that is no comment and cannot be read would have stopped the loop
        refine hread ⟨hfits, ⟨l, hl, huri⟩, fun l hl huri => ?_⟩
        by_contra hnone
        obtain ⟨stop, hstop⟩ : ∃ stop, eachLine (readMigration base64 sha256) 0 (placed ls)
            (.new .googleMigration ctx, false) = .error stop :=
          eachLine_error ⟨l, hl, huri, fun number s => readMigration_stops (Option.not_isSome_iff_eq_none.mp hnone)⟩
        cases hloop.symm.trans hstop
    · unfold migrationImport
      rw [decodeText_utf8, if_neg hne, if_pos (not_le.mp hfits)]
      exact ⟨_, rfl⟩

/-- A line costs no other exactly when every line that is no comment can be read: one that cannot costs them all. An
account that is wrong, in a payload that can be read, costs itself only. -/
theorem migration_isolates_iff {ctx : ImportContext} (hkeep : ctx.duplicates = .keep) {ls : List Text}
    (hlines : ∀ l ∈ ls, '\n' ∉ l) (hmarks : ∀ l ∈ ls.tail, ¬ Led l) (hfits : (joined ls).utf8Len ≤ ctx.limits.maxInputBytes)
    (hrows : (rowsIn (migrationRow base64 ctx.limits) ls).length ≤ ctx.limits.maxRows) :
    IsolatesLines (fun input => migrationImport base64 sha256 input ctx) ls ↔
      ∀ l ∈ placed ls, isUriLine (trim l) = true → (migrationRow base64 ctx.limits (trim l)).isSome = true :=
  isolates_iff_readable (migration_reads hkeep) hlines hmarks hfits hrows

/-- The fields of the one account of a payload. -/
def accountFields : List (Nat × Value) := [(1, .bytes (asciiBytes "abcdefghij")), (2, .bytes (asciiBytes "a")), (6, .varint 2)]

/-- A payload of one account. -/
def payloadSample : Bytes := [(1, Value.bytes (accountFields.flatMap Protobuf.encodeField))].flatMap Protobuf.encodeField

/-- Engines that know how it is written. -/
def Base64.sample : Base64 where
  standard input := if input = asciiBytes "ChEKCmFiY2RlZmdoaWoSAWEwAg==" then some payloadSample else none
  standardNoPad _ := none
  urlSafe _ := none
  urlSafeNoPad _ := none

/-- A line with that payload. -/
def migrationLine : Text := "otpauth-migration://offline?data=ChEKCmFiY2RlZmdoaWoSAWEwAg%3D%3D".toList

set_option maxRecDepth 4000 in
theorem migrationRow_sample : ∃ item, migrationRow .sample .default migrationLine = some [some item] := by
  have huri : decodeUri .sample migrationLine = .ok payloadSample := by decide +kernel
  have hpayload := fieldsFrom_encode [(1, Value.bytes (accountFields.flatMap Protobuf.encodeField))]
    (r := .new payloadSample) ⟨by decide +kernel, by decide⟩ (by decide) rfl
  have haccount := fieldsFrom_encode accountFields (r := ⟨accountFields.flatMap Protobuf.encodeField, 0, 1⟩)
    ⟨by decide +kernel, by decide⟩ (by decide) rfl
  have hparams : readParams (.new payloadSample) (accountFields.flatMap Protobuf.encodeField) =
      .ok ⟨some (asciiBytes "abcdefghij"), some ['a'], none, none, none, some 2, none⟩ := by
    have hnested : (Reader.new payloadSample).nested (accountFields.flatMap Protobuf.encodeField) =
        .ok ⟨accountFields.flatMap Protobuf.encodeField, 0, 1⟩ := rfl
    have hfold : accountFields.foldlM (fun (params : Params) field => (params.step field).mapError Fault.error) .default =
        .ok ⟨some (asciiBytes "abcdefghij"), some ['a'], none, none, none, some 2, none⟩ := rfl
    unfold readParams
    rw [hnested]
    refine (bind_of_ok rfl).trans ?_
    rw [haccount.1, haccount.2, hfold]
    rfl
  have hitem : ((Params.mk (some (asciiBytes "abcdefghij")) (some ['a']) none none none (some 2) none).interpret).toOption.any
      (fun read => validate .default read.1 = .ok ()) = true := by decide +kernel
  unfold migrationRow accountsOf
  rw [huri, Except.toOption, Option.bind_some, hpayload.1, hpayload.2, if_pos rfl, accountsIn_cons, if_pos rfl]
  show ∃ item, ((accountItem .default (.new payloadSample) (accountFields.flatMap Protobuf.encodeField)).bind _) = _
  unfold accountItem
  rw [hparams]
  dsimp only
  cases hread : (Params.mk (some (asciiBytes "abcdefghij")) (some ['a']) none none none (some 2) none).interpret with
  | error refusal =>
    rw [hread] at hitem
    cases hitem
  | ok read =>
    rw [hread] at hitem
    have hvalid : validate .default read.1 = .ok () := of_decide_eq_true hitem
    refine ⟨read.1, ?_⟩
    simp [hvalid, accountsIn]

/-- The line keeps its account beside a comment. -/
theorem migration_isolates_iff_sample :
    IsolatesLines (fun input => migrationImport .sample endDigest input ⟨none, none, .keep, .default⟩)
      ["# export".toList, migrationLine] := by
  obtain ⟨item, hrow⟩ := migrationRow_sample
  have hcomment : isUriLine (trim "# export".toList) = false := by decide
  have hplain : trim migrationLine = migrationLine := by decide
  have hrows : rowsIn (migrationRow .sample .default) ["# export".toList, migrationLine] = [some item] := by
    have hfirst : withoutBom "# export".toList = "# export".toList := by decide
    have huri : isUriLine migrationLine = true := by decide
    simp only [rowsIn, placed, List.flatMap_cons, List.flatMap_nil, rowsOf, hfirst, hcomment, hplain, huri, hrow,
      Bool.false_eq_true, if_false, if_true, Option.getD_some, List.append_nil, List.nil_append]
  have hlength : (rowsIn (migrationRow .sample .default) ["# export".toList, migrationLine]).length ≤ Limits.default.maxRows := by
    rw [hrows, List.length_singleton]
    decide
  have hlines : ∀ l ∈ ["# export".toList, migrationLine], '\n' ∉ l := by decide
  have hfits : (joined ["# export".toList, migrationLine]).utf8Len ≤ Limits.default.maxInputBytes := by decide
  let ctx : ImportContext := ⟨none, none, .keep, .default⟩
  have hiff := @migration_isolates_iff .sample endDigest ctx rfl _ hlines ?_ hfits hlength
  · refine hiff.mpr ?_
    intro l hl huri
    obtain rfl | hl := List.mem_cons.mp hl
    · cases hcomment.symm.trans huri
    · rw [List.mem_singleton.mp hl, hplain, hrow]
      rfl
  · intro l hl hmark
    rw [List.tail_cons, List.mem_singleton] at hl
    obtain ⟨ch, rest, heq, hch⟩ := hmark
    rw [hl] at heq
    cases heq
    exact absurd hch (by decide)

end Misty.Importers
