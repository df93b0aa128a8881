import Misty.Importers.Mapping
import Misty.Crypto.Canonical

/- The one place a row becomes an outcome.

   Correspondence (Rust ↔ Lean):
     `context::{digest, triple_digest, pair_digest}` ↔ `digest`, `tripleDigest`, `pairDigest`
     `context::{ExistingItems, ImportContext}` ↔ the same names
     `collect::Collector`                      ↔ `Collector`
     `Collector::{accept, skip, fail, note_batch_part, is_full, rows, finish, validate}` ↔ the same names
   SHA-256 is a parameter. A set of digests is the list of them, the last first.

   Results:
   - every item an import returns is named by one outcome, in order, and under `Skip` no
     account is imported twice or left out unless it is there already
     (`import_loses_no_account`). -/
namespace Misty.Importers

/-! ## What makes two rows the same account -/

def DEDUPE_CONTEXT : Bytes := asciiBytes "misty/import-dedupe/v1"

/-- What `digest` hashes. -/
def digestInput (parts : List Bytes) : Bytes := DEDUPE_CONTEXT ++ parts.flatMap (fun part => toLe 8 part.length ++ part)

section
variable (sha256 : Bytes → ByteArr 32)

def digest (parts : List Bytes) : ByteArr 32 := sha256 (digestInput parts)

def tripleDigest (issuer : Option Text) (account : Text) (secret : SecretBytes) : ByteArr 32 :=
  digest sha256 [(trim (issuer.getD [])).utf8, (trim account).utf8, secret.bytes]

def pairDigest (issuer : Option Text) (account : Text) : ByteArr 32 :=
  digest sha256 [(trim (issuer.getD [])).utf8, (trim account).utf8]

end

structure ExistingItems where
  triples : List (ByteArr 32)
  pairs : List (ByteArr 32)
  deriving DecidableEq

namespace ExistingItems
variable (sha256 : Bytes → ByteArr 32)

def new : ExistingItems := ⟨[], []⟩

def add (self : ExistingItems) (issuer : Option Text) (account : Text) (secret : SecretBytes) : ExistingItems :=
  ⟨tripleDigest sha256 issuer account secret :: self.triples, pairDigest sha256 issuer account :: self.pairs⟩

def contains (self : ExistingItems) (issuer : Option Text) (account : Text) (secret : SecretBytes) : Bool :=
  tripleDigest sha256 issuer account secret ∈ self.triples

def containsPair (self : ExistingItems) (issuer : Option Text) (account : Text) : Bool :=
  pairDigest sha256 issuer account ∈ self.pairs

/-- The items a caller recorded, one `add` each. -/
def holding (held : List (Option Text × Text × SecretBytes)) : ExistingItems :=
  held.foldl (fun existing item => existing.add sha256 item.1 item.2.1 item.2.2) new

end ExistingItems

/-- `ImportContext`, less the passphrase. -/
structure ImportContext where
  existing : Option ExistingItems
  mapping : Option ColumnMapping
  duplicates : DuplicatePolicy
  limits : Limits
  deriving DecidableEq

/-- `OtpKind::secret_prefix_used`. -/
def secretPrefixUsed : OtpKind → Option Nat
  | .yandex => some 16
  | _ => none

/-! ## The collector -/

structure Collector where
  format : SourceFormat
  ctx : ImportContext
  items : List ImportedItem
  outcomes : List RowOutcome
  batchParts : List BatchPart
  seen : List (ByteArr 32)
  deriving DecidableEq

/-- Every one of a list passes a check; else the first error. -/
def checkEach (check : Text → Except RowError Unit) : List Text → Except RowError Unit
  | [] => .ok ()
  | value :: rest => do
    check value
    checkEach check rest

namespace Collector

def new (format : SourceFormat) (ctx : ImportContext) : Collector := ⟨format, ctx, [], [], [], []⟩

def isFull (self : Collector) : Bool := self.ctx.limits.maxRows ≤ self.outcomes.length

def rows (self : Collector) : Nat := self.outcomes.length

def skip (self : Collector) (row : RowId) (reason : SkipReason) : Collector :=
  { self with outcomes := self.outcomes ++ [.skipped row reason] }

def fail (self : Collector) (row : RowId) (error : RowError) : Collector :=
  { self with outcomes := self.outcomes ++ [.failed row error] }

def noteBatchPart (self : Collector) (index total : U32) : Collector :=
  if 1 < total.val && !self.batchParts.any (fun part => part.index = index) then
    { self with batchParts := self.batchParts ++ [⟨index, total⟩] }
  else self

def finish (self : Collector) : ImportReport := ⟨self.items, self.outcomes, self.format, self.batchParts⟩

end Collector

/-- `Collector::validate`. -/
def validate (limits : Limits) (item : ImportedItem) : Except RowError Unit := do
  let max := limits.maxTextFieldBytes
  checkEach (fun issuer => checkField "issuer" issuer max false) item.issuer.toList
  checkField "account" item.account max false
  checkEach (fun nickname => checkField "nickname" nickname max false) item.nickname.toList
  checkEach (fun note => checkField "note" note limits.maxNoteBytes true) item.note.toList
  checkEach (fun tag => checkField "tags" tag max false) item.tags
  checkEach (fun group => checkField "group" group max false) item.groups
  checkEach (fun origin => checkField "origin" origin max false) item.origins
  if limits.maxTags < item.tags.length then .error (.fieldTooLong "tags" item.tags.length limits.maxTags)
  else if limits.maxTags < item.groups.length then .error (.fieldTooLong "group" item.groups.length limits.maxTags)
  else .ok ()

namespace ImportedItem
variable (sha256 : Bytes → ByteArr 32)

/-- The digest `accept` looks an item up by. -/
def key (item : ImportedItem) : ByteArr 32 := tripleDigest sha256 item.issuer item.account item.otp.secret

/-- What `accept` finds the caller to hold already. -/
def isKnown (item : ImportedItem) (ctx : ImportContext) : Bool :=
  ctx.existing.any (fun existing => existing.contains sha256 item.issuer item.account item.otp.secret)

/-- The warnings `accept` adds to those of the importer. -/
def addedWarnings (item : ImportedItem) (ctx : ImportContext) (fresh known : Bool) : List ImportWarning :=
  (if ctx.duplicates = .keep ∧ (!fresh || known) then [.duplicateOfExisting] else []) ++
  (if !known && ctx.existing.any (fun existing => existing.containsPair sha256 item.issuer item.account) then
    [.collidesWithExisting] else []) ++
  (match secretPrefixUsed item.otp.kind with
    | some used => if used < item.otp.secret.bytes.length then [.secretPrefixUsed used] else []
    | none => [])

end ImportedItem

namespace Collector
variable (sha256 : Bytes → ByteArr 32)

def accept (self : Collector) (row : RowId) (item : ImportedItem) (warnings : List ImportWarning) : Collector :=
  match validate self.ctx.limits item with
  | .error error => self.fail row error
  | .ok () =>
    let key := item.key sha256
    let fresh : Bool := key ∉ self.seen
    let known := item.isKnown sha256 self.ctx
    let self := if fresh then { self with seen := key :: self.seen } else self
    if self.ctx.duplicates = .skip ∧ fresh = false then self.skip row .duplicateInBatch
    else if self.ctx.duplicates = .skip ∧ known = true then self.skip row .duplicateOfExisting
    else
      let warnings := warnings ++ item.addedWarnings sha256 self.ctx fresh known
      { self with
        items := self.items ++ [item]
        outcomes := self.outcomes ++ [.imported row self.items.length warnings] }

end Collector

/-- One call an importer makes on its collector. -/
inductive CollectorCall where
  | accept (row : RowId) (item : ImportedItem) (warnings : List ImportWarning)
  | skip (row : RowId) (reason : SkipReason)
  | fail (row : RowId) (error : RowError)

/-- A call, made. -/
def Collector.call (sha256 : Bytes → ByteArr 32) (self : Collector) : CollectorCall → Collector
  | .accept row item warnings => self.accept sha256 row item warnings
  | .skip row reason => self.skip row reason
  | .fail row error => self.fail row error

/-- Calls, made one after another. -/
def Collector.calls (sha256 : Bytes → ByteArr 32) (self : Collector) (calls : List CollectorCall) : Collector :=
  calls.foldl (Collector.call sha256) self

/-! ## Which account a row is -/

/-- An account: the trimmed issuer and name, and the secret. -/
structure Triple where
  issuer : Text
  account : Text
  secret : SecretBytes
  deriving DecidableEq

namespace Triple

/-- The account of an issuer, a name and a secret. -/
def of (issuer : Option Text) (account : Text) (secret : SecretBytes) : Triple := ⟨trim (issuer.getD []), trim account, secret⟩

/-- The parts a digest covers. -/
def parts (t : Triple) : List Bytes := [t.issuer.utf8, t.account.utf8, t.secret.bytes]

/-- The bytes that are hashed. -/
def message (t : Triple) : Bytes := digestInput t.parts

/-- Parts a machine can hold. -/
def Sized (t : Triple) : Prop := ∀ part ∈ t.parts, part.length < 2 ^ 64

instance (t : Triple) : Decidable t.Sized := inferInstanceAs (Decidable (∀ part ∈ t.parts, part.length < 2 ^ 64))

end Triple

/-- The account an item is. -/
def ImportedItem.triple (item : ImportedItem) : Triple := .of item.issuer item.account item.otp.secret

/-- The accounts a caller recorded. -/
def heldTriples (held : Option (List (Option Text × Text × SecretBytes))) : List Triple :=
  (held.getD []).map (fun item => .of item.1 item.2.1 item.2.2)

/-- The item a call offers. -/
def CollectorCall.item? : CollectorCall → Option ImportedItem
  | accept _ item _ => some item
  | _ => none

/-- The item an outcome names. -/
def RowOutcome.item? : RowOutcome → Option Nat
  | imported _ item _ => some item
  | _ => none

/-- The accounts an import looks at. -/
def inPlay (held : Option (List (Option Text × Text × SecretBytes))) (calls : List CollectorCall) : List Triple :=
  heldTriples held ++ (calls.filterMap CollectorCall.item?).map ImportedItem.triple

theorem delimits_part : Framing.Delimits (fun part : Bytes => part.length < 2 ^ 64) (fun part => toLe 8 part.length ++ part) := by
  refine ⟨?_⟩
  intro a b s t ha hb h
  rw [List.append_assoc, List.append_assoc] at h
  obtain ⟨hfront, hrest⟩ := List.append_inj h (by simp)
  have hlength : a.length = b.length := toLe_inj (by omega) (by omega) hfront
  exact List.append_inj hrest hlength

theorem Triple.message_inj {s t : Triple} (hs : s.Sized) (ht : t.Sized) (h : s.message = t.message) : s = t := by
  have hparts : s.parts = t.parts := by
    refine delimits_part.flatMap_inj ?_ hs ht (List.append_cancel_left h)
    intro part _ hnil
    have hlength := congrArg List.length hnil
    simp at hlength
  obtain ⟨hissuer, hrest⟩ := List.cons.inj hparts
  obtain ⟨haccount, hrest⟩ := List.cons.inj hrest
  obtain ⟨hsecret, -⟩ := List.cons.inj hrest
  cases s
  cases t
  simp only [mk.injEq]
  exact ⟨Text.utf8_inj hissuer, Text.utf8_inj haccount, congrArg SecretBytes.mk hsecret⟩

section
variable (sha256 : Bytes → ByteArr 32)

/-- The digests of what the caller holds. -/
def ImportContext.keys (ctx : ImportContext) : List (ByteArr 32) := (ctx.existing.map ExistingItems.triples).getD []

theorem isKnown_iff {item : ImportedItem} {ctx : ImportContext} : item.isKnown sha256 ctx = true ↔ item.key sha256 ∈ ctx.keys := by
  unfold ImportedItem.isKnown ImportContext.keys
  cases ctx.existing with
  | none => simp
  | some existing => simp [ExistingItems.contains, ImportedItem.key]

theorem mem_triples_foldl {d : ByteArr 32} : ∀ (held : List (Option Text × Text × SecretBytes)) (existing : ExistingItems),
    d ∈ (held.foldl (fun existing item => existing.add sha256 item.1 item.2.1 item.2.2) existing).triples ↔
      d ∈ held.map (fun item => sha256 (Triple.of item.1 item.2.1 item.2.2).message) ∨ d ∈ existing.triples
  | [], _ => by simp
  | item :: held, existing => by
    rw [List.foldl_cons, mem_triples_foldl held, List.map_cons, List.mem_cons]
    simp only [ExistingItems.add, List.mem_cons]
    constructor
    · rintro (h | h | h)
      · exact .inl (.inr h)
      · exact .inl (.inl h)
      · exact .inr h
    · rintro ((h | h) | h)
      · exact .inr (.inl h)
      · exact .inl h
      · exact .inr (.inr h)

theorem mem_keys_iff {ctx : ImportContext} {held : Option (List (Option Text × Text × SecretBytes))}
    (h : ctx.existing = held.map (ExistingItems.holding sha256)) {d : ByteArr 32} :
    d ∈ ctx.keys ↔ ∃ t ∈ heldTriples held, sha256 t.message = d := by
  unfold ImportContext.keys heldTriples
  rw [h]
  cases held with
  | none => simp
  | some held =>
    simp only [Option.map_some, Option.getD_some, ExistingItems.holding, mem_triples_foldl]
    simp [ExistingItems.new]

end

/-! ## One call after another -/

namespace Collector
variable {sha256 : Bytes → ByteArr 32}

/-- What an outcome says of the call it answers. -/
def Answers (sha256 : Bytes → ByteArr 32) (self : Collector) : CollectorCall → RowOutcome → Prop
  | .accept row item _, .imported r at_ _ => r = row ∧ self.items[at_]? = some item
  | .accept row item _, .skipped r _ =>
    r = row ∧ self.ctx.duplicates = .skip ∧ (item.key sha256 ∈ self.items.map (·.key sha256) ∨ item.key sha256 ∈ self.ctx.keys)
  | .accept row item _, .failed r error => r = row ∧ validate self.ctx.limits item = .error error
  | .skip row reason, outcome => outcome = .skipped row reason
  | .fail row error, outcome => outcome = .failed row error

/-- What holds of a collector after the calls made on it. -/
structure Kept (sha256 : Bytes → ByteArr 32) (ctx : ImportContext) (calls : List CollectorCall) (c : Collector) : Prop where
  ctx_eq : c.ctx = ctx
  indices : c.outcomes.filterMap RowOutcome.item? = List.range c.items.length
  offered : ∀ item ∈ c.items, item ∈ calls.filterMap CollectorCall.item?
  answers : List.Forall₂ (c.Answers sha256) calls c.outcomes
  seen : ∀ item ∈ c.items, item.key sha256 ∈ c.seen
  distinct : ctx.duplicates = .skip → (c.items.map (·.key sha256)).Nodup
  unknown : ctx.duplicates = .skip → ∀ item ∈ c.items, item.key sha256 ∉ ctx.keys
  covered : ctx.duplicates = .skip → ∀ d ∈ c.seen, d ∈ c.items.map (·.key sha256) ∨ d ∈ ctx.keys

theorem accept_cases (self : Collector) (sha256 : Bytes → ByteArr 32) (row : RowId) (item : ImportedItem) (warnings : List ImportWarning) :
    (∃ error, validate self.ctx.limits item = .error error ∧ self.accept sha256 row item warnings = self.fail row error) ∨
    (self.ctx.duplicates = .skip ∧ item.key sha256 ∈ self.seen ∧
      self.accept sha256 row item warnings = self.skip row .duplicateInBatch) ∨
    (self.ctx.duplicates = .skip ∧ item.key sha256 ∈ self.ctx.keys ∧
      self.accept sha256 row item warnings = { self with seen := item.key sha256 :: self.seen }.skip row .duplicateOfExisting) ∨
    ((self.ctx.duplicates = .skip → item.key sha256 ∉ self.seen ∧ item.key sha256 ∉ self.ctx.keys) ∧
      validate self.ctx.limits item = .ok () ∧ ∃ seen added, (∀ d, d ∈ seen ↔ d = item.key sha256 ∨ d ∈ self.seen) ∧
        self.accept sha256 row item warnings =
          ⟨self.format, self.ctx, self.items ++ [item], self.outcomes ++ [.imported row self.items.length (warnings ++ added)],
            self.batchParts, seen⟩) := by
  unfold accept
  cases hvalid : validate self.ctx.limits item with
  | error error => exact .inl ⟨error, rfl, rfl⟩
  | ok valid =>
    refine .inr ?_
    dsimp only
    -- the digest is looked up in the batch first, then among what the caller holds
    by_cases hseen : item.key sha256 ∈ self.seen
    · simp only [hseen, not_true_eq_false, decide_false, Bool.false_eq_true, if_false, and_true]
      by_cases hskip : self.ctx.duplicates = .skip
      · rw [if_pos hskip]
        exact .inl ⟨hskip, trivial, rfl⟩
      · rw [if_neg hskip, if_neg (fun h => hskip h.1)]
        refine .inr (.inr ⟨fun h => absurd h hskip, trivial, self.seen, _, ?_, rfl⟩)
        intro d
        constructor
        · exact .inr
        · rintro (rfl | h)
          · exact hseen
          · exact h
    · simp only [hseen, not_false_eq_true, decide_true, if_true, Bool.true_eq_false, and_false, if_false]
      by_cases hknown : item.key sha256 ∈ self.ctx.keys
      · simp only [(isKnown_iff sha256).mpr hknown, and_true]
        by_cases hskip : self.ctx.duplicates = .skip
        · rw [if_pos hskip]
          exact .inr (.inl ⟨hskip, hknown, rfl⟩)
        · rw [if_neg hskip]
          exact .inr (.inr ⟨fun h => absurd h hskip, trivial, _, _, fun d => List.mem_cons, rfl⟩)
      · have hfalse : item.isKnown sha256 self.ctx = false := Bool.eq_false_iff.mpr (fun h => hknown ((isKnown_iff sha256).mp h))
        simp only [hfalse, Bool.false_eq_true, and_false, if_false]
        exact .inr (.inr ⟨fun _ => ⟨trivial, hknown⟩, trivial, _, _, fun d => List.mem_cons, rfl⟩)

theorem Answers.mono {self later : Collector} {call : CollectorCall} {outcome : RowOutcome} (h : self.Answers sha256 call outcome)
    (hctx : later.ctx = self.ctx) (hitems : self.items <+: later.items) : later.Answers sha256 call outcome := by
  obtain ⟨added, hadded⟩ := hitems
  cases call with
  | accept row item warnings =>
    cases outcome with
    | imported r at_ warned =>
      refine ⟨h.1, ?_⟩
      have hlt : at_ < self.items.length := by
        by_contra hge
        have hnone := h.2
        rw [List.getElem?_eq_none (by omega)] at hnone
        cases hnone
      rw [← hadded, List.getElem?_append_left hlt]
      exact h.2
    | skipped r reason =>
      obtain ⟨hrow, hskip, hthere⟩ := h
      refine ⟨hrow, hctx ▸ hskip, ?_⟩
      rw [hctx, ← hadded, List.map_append, List.mem_append]
      obtain hitem | hknown := hthere
      · exact .inl (.inl hitem)
      · exact .inr hknown
    | failed r error =>
      exact ⟨h.1, hctx ▸ h.2⟩
  | skip row reason => exact h
  | fail row error => exact h

theorem Kept.start (format : SourceFormat) (ctx : ImportContext) : Kept sha256 ctx [] (new format ctx) where
  ctx_eq := rfl
  indices := rfl
  offered := by simp [new]
  answers := .nil
  seen := by simp [new]
  distinct := by simp [new]
  unknown := by simp [new]
  covered := by simp [new]

/-- An outcome more, and nothing else but digests the items and the caller cover. -/
theorem Kept.noted {ctx : ImportContext} {calls : List CollectorCall} {self : Collector} (h : Kept sha256 ctx calls self)
    {call : CollectorCall} {outcome : RowOutcome} {seen : List (ByteArr 32)} (hnone : outcome.item? = none)
    (hanswers : self.Answers sha256 call outcome) (hmore : ∀ d ∈ self.seen, d ∈ seen)
    (hseen : ctx.duplicates = .skip → ∀ d ∈ seen, d ∈ self.seen ∨ d ∈ ctx.keys) :
    Kept sha256 ctx (calls ++ [call]) { self with outcomes := self.outcomes ++ [outcome], seen := seen } where
  ctx_eq := h.ctx_eq
  indices := by
    rw [List.filterMap_append, h.indices]
    simp [hnone]
  offered := by
    intro item hitem
    rw [List.filterMap_append, List.mem_append]
    exact .inl (h.offered item hitem)
  answers := by
    refine List.rel_append ?_ (.cons ?_ .nil)
    · exact h.answers.imp (fun _ _ hold => hold.mono rfl (List.prefix_refl _))
    · exact hanswers.mono rfl (List.prefix_refl _)
  seen := fun item hitem => hmore _ (h.seen item hitem)
  distinct := h.distinct
  unknown := h.unknown
  covered := by
    intro hskip d hd
    obtain hold | hknown := hseen hskip d hd
    · exact h.covered hskip d hold
    · exact .inr hknown

theorem Kept.call {ctx : ImportContext} {calls : List CollectorCall} {self : Collector} (h : Kept sha256 ctx calls self)
    (call : CollectorCall) : Kept sha256 ctx (calls ++ [call]) (self.call sha256 call) := by
  cases call with
  | skip row reason => exact h.noted rfl rfl (fun _ hd => hd) (fun _ _ hd => .inl hd)
  | fail row error => exact h.noted rfl rfl (fun _ hd => hd) (fun _ _ hd => .inl hd)
  | accept row item warnings =>
    have hctx := h.ctx_eq
    obtain ⟨error, herror, heq⟩ | ⟨hskip, hseen, heq⟩ | ⟨hskip, hknown, heq⟩ | ⟨hfresh, -, seen, added, hmem, heq⟩ :=
      self.accept_cases sha256 row item warnings
    · change Kept sha256 ctx _ (self.accept sha256 row item warnings)
      rw [heq]
      exact h.noted rfl ⟨rfl, herror⟩ (fun _ hd => hd) (fun _ _ hd => .inl hd)
    · -- The digest was seen before: its row was imported, or the caller holds it.
      change Kept sha256 ctx _ (self.accept sha256 row item warnings)
      rw [heq]
      refine h.noted rfl ⟨rfl, hskip, ?_⟩ (fun _ hd => hd) (fun _ _ hd => .inl hd)
      rw [hctx]
      exact h.covered (hctx ▸ hskip) _ hseen
    -- the caller already holds it: reported as skipped, and its digest is remembered
    · change Kept sha256 ctx _ (self.accept sha256 row item warnings)
      rw [heq]
      refine h.noted rfl ⟨rfl, hskip, .inr hknown⟩ (fun _ hd => List.mem_cons_of_mem _ hd) ?_
      intro _ d hd
      obtain rfl | hold := List.mem_cons.mp hd
      · exact .inr (hctx ▸ hknown)
      · exact .inl hold
    -- a new account: every field of the invariant moves on by one item
    · change Kept sha256 ctx _ (self.accept sha256 row item warnings)
      rw [heq]
      rw [hctx] at hfresh
      exact
        { ctx_eq := hctx
          indices := by
            rw [List.filterMap_append, h.indices, List.length_append, List.length_singleton, List.range_succ]
            simp [RowOutcome.item?]
          offered := by
            intro other hother
            rw [List.filterMap_append, List.mem_append]
            obtain hold | hnew := List.mem_append.mp hother
            · exact .inl (h.offered other hold)
            · rw [List.mem_singleton.mp hnew]
              exact .inr (by simp [CollectorCall.item?])
          answers := by
            refine List.rel_append ?_ (.cons ⟨rfl, ?_⟩ .nil)
            · exact h.answers.imp (fun _ _ hold => hold.mono rfl (List.prefix_append _ _))
            · simp
          seen := by
            intro other hother
            rw [hmem]
            obtain hold | hnew := List.mem_append.mp hother
            · exact .inr (h.seen other hold)
            · exact .inl (congrArg _ (List.mem_singleton.mp hnew))
          distinct := by
            intro hskip
            rw [List.map_append, List.nodup_append]
            refine ⟨h.distinct hskip, List.nodup_singleton _, ?_⟩
            intro d hd e he hde
            obtain ⟨other, hother, rfl⟩ := List.mem_map.mp hd
            rw [List.map_singleton, List.mem_singleton] at he
            exact (hfresh hskip).1 (he ▸ hde ▸ h.seen other hother)
          unknown := by
            intro hskip other hother
            obtain hold | hnew := List.mem_append.mp hother
            · exact h.unknown hskip other hold
            · rw [List.mem_singleton.mp hnew]
              exact (hfresh hskip).2
          covered := by
            intro hskip d hd
            rw [List.map_append, List.mem_append]
            obtain rfl | hold := (hmem d).mp hd
            · exact .inl (.inr (by simp))
            · obtain hitem | hknown := h.covered hskip d hold
              · exact .inl (.inl hitem)
              · exact .inr hknown }

theorem kept_calls (sha256 : Bytes → ByteArr 32) (format : SourceFormat) (ctx : ImportContext) (calls : List CollectorCall) :
    Kept sha256 ctx calls ((new format ctx).calls sha256 calls) := by
  induction calls using List.reverseRecOn with
  | nil => exact .start format ctx
  | append_singleton calls call ih =>
    rw [Collector.calls, List.foldl_append]
    exact ih.call call

theorem Kept.answer {ctx : ImportContext} {calls : List CollectorCall} {self : Collector} (h : Kept sha256 ctx calls self) {k : Nat}
    {call : CollectorCall} {outcome : RowOutcome} (hcall : calls[k]? = some call) (houtcome : self.outcomes[k]? = some outcome) :
    self.Answers sha256 call outcome := by
  obtain ⟨hk, rfl⟩ := List.getElem?_eq_some_iff.mp hcall
  obtain ⟨hk', rfl⟩ := List.getElem?_eq_some_iff.mp houtcome
  exact (List.forall₂_iff_get.mp h.answers).2 k hk hk'

end Collector

/-- Every item is named by one outcome, in order. Under `Skip` no account is there twice, or
is there when the caller holds it, and a row is left out as a duplicate only when its
account is there or held. Under `Keep` every valid row is an item. -/
theorem import_loses_no_account {sha256 : Bytes → ByteArr 32} {format : SourceFormat} {ctx : ImportContext}
    {held : Option (List (Option Text × Text × SecretBytes))} {calls : List CollectorCall}
    (hheld : ctx.existing = held.map (ExistingItems.holding sha256)) (hsized : ∀ t ∈ inPlay held calls, t.Sized)
    (hsha : Set.InjOn sha256 {message | ∃ t ∈ inPlay held calls, t.message = message}) :
    let report := ((Collector.new format ctx).calls sha256 calls).finish
    (report.outcomes.length = calls.length ∧ report.outcomes.filterMap RowOutcome.item? = List.range report.items.length) ∧
    (ctx.duplicates = .skip →
      (report.items.map ImportedItem.triple).Nodup ∧ (∀ item ∈ report.items, item.triple ∉ heldTriples held) ∧
      ∀ (k : Nat) (row row' : RowId) (item : ImportedItem) (warnings : List ImportWarning) (reason : SkipReason),
        calls[k]? = some (.accept row item warnings) → report.outcomes[k]? = some (.skipped row' reason) →
        item.triple ∈ report.items.map ImportedItem.triple ∨ item.triple ∈ heldTriples held) ∧
    (ctx.duplicates = .keep → ∀ (k : Nat) (row : RowId) (item : ImportedItem) (warnings : List ImportWarning),
      calls[k]? = some (.accept row item warnings) → validate ctx.limits item = .ok () →
      ∃ at_ warnings', report.outcomes[k]? = some (.imported row at_ warnings') ∧ report.items[at_]? = some item) := by
  intro report
  have h := Collector.kept_calls sha256 format ctx calls
  -- What is said of digests is said of the accounts, since those in play are told apart.
  have hinj : ∀ s ∈ inPlay held calls, ∀ t ∈ inPlay held calls, sha256 s.message = sha256 t.message → s = t := by
    intro s hs t ht heq
    exact Triple.message_inj (hsized s hs) (hsized t ht) (hsha ⟨s, hs, rfl⟩ ⟨t, ht, rfl⟩ heq)
  have hoffered : ∀ item ∈ calls.filterMap CollectorCall.item?, item.triple ∈ inPlay held calls := by
    intro item hitem
    exact List.mem_append_right _ (List.mem_map_of_mem hitem)
  have hplay : ∀ item ∈ report.items, item.triple ∈ inPlay held calls := fun item hitem => hoffered item (h.offered item hitem)
  have hpast : ∀ t ∈ heldTriples held, t ∈ inPlay held calls := fun t ht => List.mem_append_left _ ht
  refine ⟨⟨h.answers.length_eq.symm, h.indices⟩, ?_, ?_⟩
  · intro hskip
    refine ⟨?_, ?_, ?_⟩
    · have hkeys : report.items.map (·.key sha256) = (report.items.map ImportedItem.triple).map (fun t => sha256 t.message) := by
        rw [List.map_map]
        rfl
      exact List.Nodup.of_map _ (hkeys ▸ h.distinct hskip)
    · intro item hitem hheld'
      exact h.unknown hskip item hitem ((mem_keys_iff sha256 hheld).mpr ⟨_, hheld', rfl⟩)
    · intro k row row' item warnings reason hcall houtcome
      have hin := hoffered item (List.mem_filterMap.mpr ⟨.accept row item warnings, List.mem_of_getElem? hcall, rfl⟩)
      obtain ⟨-, -, hitem | hknown⟩ := h.answer hcall houtcome
      · obtain ⟨other, hother, hkey⟩ := List.mem_map.mp hitem
        refine .inl (List.mem_map.mpr ⟨other, hother, ?_⟩)
        exact hinj _ (hplay other hother) _ hin hkey
      · rw [h.ctx_eq] at hknown
        obtain ⟨t, ht, hkey⟩ := (mem_keys_iff sha256 hheld).mp hknown
        refine .inr ?_
        rw [← hinj t (hpast t ht) _ hin hkey]
        exact ht
  · intro hkeep k row item warnings hcall hvalid
    have hk : k < report.outcomes.length := by
      have hlength : report.outcomes.length = calls.length := h.answers.length_eq.symm
      rw [hlength]
      exact (List.getElem?_eq_some_iff.mp hcall).1
    have houtcome : report.outcomes[k]? = some report.outcomes[k] := List.getElem?_eq_getElem hk
    have hanswer := h.answer hcall houtcome
    generalize report.outcomes[k] = outcome at houtcome hanswer
    cases outcome with
    | imported row' at_ warned =>
      obtain ⟨rfl, hat⟩ := hanswer
      exact ⟨at_, warned, houtcome, hat⟩
    | skipped row' reason =>
      have hskip := hanswer.2.1
      rw [h.ctx_eq, hkeep] at hskip
      cases hskip
    | failed row' error =>
      have herror := hanswer.2
      rw [h.ctx_eq, hvalid] at herror
      cases herror

/-- An item of a secret. -/
def ImportedItem.sample (secret : Bytes) : ImportedItem := .new .otpauth ⟨.totp, ⟨secret⟩, .sha1, 6, 30, 0, none⟩ none ['a']

/-- A digest that shows the end of its message. -/
def endDigest (message : Bytes) : ByteArr 32 := ⟨(message.reverse ++ List.replicate 32 0).take 32, by simp⟩

/-- A caller that holds the accounts, under a policy. -/
def ImportContext.sample (held : List (Option Text × Text × SecretBytes)) (duplicates : DuplicatePolicy) : ImportContext where
  existing := some (.holding endDigest held)
  mapping := none
  duplicates := duplicates
  limits := .default

/-- A row twice and a row the caller holds. -/
def sampleCalls : List CollectorCall :=
  [.accept (.atIndex 0) (.sample [1]) [], .accept (.atIndex 1) (.sample [1]) [], .accept (.atIndex 2) (.sample [2]) []]

theorem import_loses_no_account_sample :
    (((Collector.new .otpauth (.sample [(none, ['a'], ⟨[2]⟩)] .skip)).calls endDigest sampleCalls).finish.items.map
      ImportedItem.triple).Nodup := by
  have happart : ∀ s ∈ inPlay (some [(none, ['a'], ⟨[2]⟩)]) sampleCalls, ∀ t ∈ inPlay (some [(none, ['a'], ⟨[2]⟩)]) sampleCalls,
      endDigest s.message = endDigest t.message → s = t := by decide +kernel
  refine ((@import_loses_no_account endDigest _ _ (some [(none, ['a'], ⟨[2]⟩)]) _ rfl (by decide +kernel) ?_).2.1 rfl).1
  rintro _ ⟨s, hs, rfl⟩ _ ⟨t, ht, rfl⟩ heq
  exact congrArg Triple.message (happart s hs t ht heq)

end Misty.Importers
