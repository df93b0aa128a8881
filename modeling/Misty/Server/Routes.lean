import Misty.Lib.Ascii
import Misty.Server.Store
import Misty.Sync.Engine

/- The routes over the store: what a request asks of it, and how its outcome is
   written down. The second half reads the answers back with the client's own
   decoders: what `decode_change_feed`, `decode_put_applied` and `decode_conflict` make
   of them is what the store returned.

   Correspondence (Rust ↔ Lean):
     `error::ApiError`, `status`, `into_response` ↔ the same names
     `routes::{precondition, version_token}`   ↔ the same names
     `ServerVersion::to_if_match`              ↔ `toIfMatch`
     `routes::decode_blob`, after the base64   ↔ `decodeBlob`
     `items::{changes, put, delete, render}`   ↔ `serveChanges`, `servePut`, `serveDelete`, `render`
   A request arrives authenticated for this vault; one that does not is an answer that
   was lost. -/
namespace Misty

/-- `config::Config`, what these routes read of it. -/
structure ServerConfig where
  maxEnvelopeBytes : Nat
  limits : Limits
  maxChangesLimit : Nat

/-- `ApiError`, what the routes return of it. -/
inductive ApiError where
  | badRequest
  | unauthorized
  | forbidden
  | notFound
  | conflict (version : Text) (envelope : Option Bytes)
  | alreadyExists (what : String)
  | preconditionRequired
  | payloadTooLarge
  | rateLimited
  | quotaExceeded
  | internal
  deriving DecidableEq

namespace ApiError

def status : ApiError → Nat
  | badRequest => 400
  | unauthorized => 401
  | forbidden => 403
  | notFound => 404
  | conflict _ _ | alreadyExists _ => 409
  | preconditionRequired => 428
  | payloadTooLarge => 413
  | rateLimited => 429
  | quotaExceeded => 507
  | internal => 500

/-- `into_response`. Only a conflict says something about the item. -/
def response (self : ApiError) : Response where
  status := self.status
  body := .fields (match self with
    | conflict version envelope =>
      { RawBody.empty with version := some (.token version), envelope := envelope.map .bytes }
    | _ => .empty)

end ApiError

def versionToken (version : Nat) : Text := Nat.toDigits 10 version

def ServerVersion.toIfMatch (self : ServerVersion) : Text := '"' :: self.token ++ ['"']

/-- `precondition`, of the values of `If-Match` and `If-None-Match`. -/
def precondition (ifMatch ifNoneMatch : Option Text) : Except ApiError Nat :=
  if ifMatch.isSome ∧ ifNoneMatch.isSome then .error .badRequest
  else match ifNoneMatch with
    | some value => if value = ['*'] then .ok 0 else .error .badRequest
    | none =>
      match ifMatch with
      | none => .error .preconditionRequired
      | some value =>
        if value = ['*'] ∨ ['W', '/'] <+: value then .error .badRequest
        else
          let digits := (stripQuotes value).getD value
          if digits = [] ∨ ¬ digits.all Char.isDigit then .error .badRequest
          else
            let version := Nat.ofDigitChars 10 digits 0
            if version < 2 ^ 64 then .ok version else .error .badRequest

/-- `decode_blob` on what the base64 says. -/
def decodeBlob (max : Nat) (bytes : Bytes) : Except ApiError Bytes :=
  if max < bytes.length then .error .payloadTooLarge
  else if bytes = [] then .error .badRequest
  else .ok bytes

/-- What the client sends as headers of a `PUT`. -/
def putCondition : Option ServerVersion → Except ApiError Nat
  | some version => precondition (some version.toIfMatch) none
  | none => precondition none (some ['*'])

/-- What the client sends as headers of a `DELETE`. -/
def deleteCondition (version : Option ServerVersion) : Except ApiError Nat :=
  precondition (version.map ServerVersion.toIfMatch) none

/-- A write that went through. -/
def writeResponse (seq version : Nat) : Response where
  status := 200
  body := .fields { RawBody.empty with seq := some (.saturate seq), version := some (.token (versionToken version)) }

def render : WriteOutcome → Response
  | .ok seq version => writeResponse seq version
  | .conflict version envelope => (ApiError.conflict (versionToken version) envelope).response
  | .itemLimit | .byteLimit => ApiError.quotaExceeded.response
  | .missing => ApiError.notFound.response

/-- One `ChangeEntry`. -/
def changeEntry (p : ItemId × ServerRow) : RawChange where
  itemId := some (some p.1)
  seq := some (.saturate p.2.seq)
  version := some (.token (versionToken p.2.version))
  envelope := p.2.envelope.map .bytes
  deleted := some p.2.deleted

variable (config : ServerConfig)

/-- `items::changes`. -/
def serveChanges (since : Option I64) (limit : Nat) (server : Server) : Response :=
  let since := (since.map Subtype.val).getD 0
  if since < 0 ∨ limit = 0 ∨ config.maxChangesLimit < limit then ApiError.badRequest.response
  else
    let (rows, hasMore) := server.changes since.toNat limit
    { status := 200
      body := .fields { RawBody.empty with
        changes := some (rows.map changeEntry)
        nextSeq := some (.saturate (((rows.getLast?).map (fun p => (p.2.seq : Int))).getD since))
        hasMore := some hasMore } }

/-- A failure of the store is an internal error. -/
def renderStored (server : Server) : Except StoreError (WriteOutcome × Server) → Response × Server
  | .ok (outcome, server) => (render outcome, server)
  | .error _ => (ApiError.internal.response, server)

/-- `items::put`. -/
def servePut (itemId : ItemId) (envelope : Bytes) (version : Option ServerVersion) (now : Int)
    (server : Server) : Response × Server :=
  match putCondition version with
  | .error error => (error.response, server)
  | .ok precondition =>
    match decodeBlob config.maxEnvelopeBytes envelope with
    | .error error => (error.response, server)
    | .ok envelope => renderStored server (server.putItem config.limits itemId precondition envelope now)

/-- `items::delete`. -/
def serveDelete (itemId : ItemId) (version : Option ServerVersion) (now : Int) (server : Server) :
    Response × Server :=
  match deleteCondition version with
  | .error error => (error.response, server)
  | .ok precondition =>
    if precondition = 0 then (ApiError.badRequest.response, server)
    else renderStored server (server.deleteItem itemId precondition now)

/-- A request served. -/
def respond (now : Int) (server : Server) : Request → Response × Server
  | .changes since limit => (serveChanges config since limit server, server)
  | .put itemId envelope version => servePut config itemId envelope version now server
  | .delete itemId version => serveDelete itemId version now server

/-! ## Tokens -/

/-- The token of a version, as the client keeps it. -/
def ServerVersion.of (version : Nat) : ServerVersion := ⟨versionToken version⟩

theorem versionToken_ne_nil (version : Nat) : versionToken version ≠ [] := Nat.toDigits_ne_nil

theorem isDigit_of_mem_versionToken {version : Nat} {c : Char} (h : c ∈ versionToken version) : c.isDigit = true :=
  Nat.isDigit_of_mem_toDigits (by decide) (by decide) h

theorem versionToken_injective {a b : Nat} (h : versionToken a = versionToken b) : a = b := by
  have ha : Nat.ofDigitChars 10 (versionToken a) 0 = a := Nat.ofDigitChars_ten_toDigits
  have hb : Nat.ofDigitChars 10 (versionToken b) 0 = b := Nat.ofDigitChars_ten_toDigits
  rw [← ha, h, hb]

theorem ne_quote_of_isDigit {c : Char} (h : c.isDigit = true) : c ≠ '"' := by
  rintro rfl
  exact absurd h (by decide)

theorem parse_versionToken {version : Nat} (h : version < 2 ^ 64) :
    ServerVersion.parse (versionToken version) = .ok (.of version) := by
  have hdigit : ∀ c ∈ versionToken version, c.isDigit = true := fun c hc => isDigit_of_mem_versionToken hc
  have hstrip : stripQuotes (versionToken version) = none := by
    unfold stripQuotes
    split
    · next rest heq => exact absurd rfl (ne_quote_of_isDigit (hdigit '"' (by rw [heq]; simp)))
    · rfl
  have hsize : ∀ c ∈ versionToken version, c.utf8Size = 1 := by
    intro c hc
    have := (toNat_of_isDigit (hdigit c hc)).2
    rw [Char.utf8Size_eq_one_iff]
    show c.toNat ≤ 127
    omega
  have hlen : Text.utf8Len (versionToken version) ≤ MAX_VERSION_LEN := by
    have hcount : (versionToken version).length ≤ 20 :=
      (Nat.length_toDigits_le_iff (by decide) (by decide)).mpr (lt_of_lt_of_le h (by decide))
    unfold Text.utf8Len
    rw [List.map_congr_left hsize]
    simp only [List.map_const', List.sum_replicate, smul_eq_mul, mul_one]
    exact hcount.trans (by decide)
  have hgraphic : (versionToken version).all (fun c => isAsciiGraphic c && c ≠ '"') = true := by
    rw [List.all_eq_true]
    intro c hc
    have hnum := toNat_of_isDigit (hdigit c hc)
    have hquote := ne_quote_of_isDigit (hdigit c hc)
    simp only [isAsciiGraphic, Bool.and_eq_true, decide_eq_true_eq]
    exact ⟨⟨by omega, by omega⟩, hquote⟩
  unfold ServerVersion.parse
  rw [hstrip]
  simp only [Option.getD_none]
  rw [if_pos ⟨versionToken_ne_nil version, hlen, hgraphic⟩]
  rfl

theorem meansAbsent_of (version : Nat) : (ServerVersion.of version).meansAbsent = decide (version = 0) := by
  show decide (versionToken version = ['0']) = _
  apply decide_eq_decide.mpr
  constructor
  · intro h
    exact versionToken_injective (h.trans (Nat.toDigits_zero 10).symm)
  · rintro rfl
    exact Nat.toDigits_zero 10

theorem stripQuotes_toIfMatch (version : ServerVersion) : stripQuotes version.toIfMatch = some version.token := by
  unfold stripQuotes ServerVersion.toIfMatch
  simp

theorem putCondition_eq (version : Nat) :
    putCondition (some (.of version)) = if version < 2 ^ 64 then .ok version else .error .badRequest := by
  have hdigits : (versionToken version).all Char.isDigit = true :=
    List.all_eq_true.mpr (fun c hc => isDigit_of_mem_versionToken hc)
  have hnat : Nat.ofDigitChars 10 (versionToken version) 0 = version := Nat.ofDigitChars_ten_toDigits
  have hstrip : stripQuotes (ServerVersion.of version).toIfMatch = some (versionToken version) :=
    stripQuotes_toIfMatch _
  have hstar : (ServerVersion.of version).toIfMatch ≠ ['*'] := by
    unfold ServerVersion.toIfMatch
    simp
  have hweak : ¬ ['W', '/'] <+: (ServerVersion.of version).toIfMatch := by
    unfold ServerVersion.toIfMatch
    simp
  show precondition (some (ServerVersion.of version).toIfMatch) none = _
  unfold precondition
  simp [hstrip, hstar, hweak, versionToken_ne_nil, hdigits, hnat]

theorem putCondition_of {version : Nat} (h : version < 2 ^ 64) : putCondition (some (.of version)) = .ok version :=
  (putCondition_eq version).trans (if_pos h)

theorem eq_of_putCondition_of {version condition : Nat} (h : putCondition (some (.of version)) = .ok condition) :
    condition = version := by
  rw [putCondition_eq] at h
  split at h
  · cases h
    rfl
  · cases h

@[simp] theorem putCondition_none : putCondition none = .ok 0 := rfl

@[simp] theorem deleteCondition_none : deleteCondition none = .error .preconditionRequired := rfl

/-! ## Answers, read by the client -/

theorem eq_of_parse_versionToken {version : Nat} {v : ServerVersion}
    (h : ServerVersion.parse (versionToken version) = .ok v) : v = .of version := by
  have hstrip : stripQuotes (versionToken version) = none := by
    unfold stripQuotes
    split
    · next rest heq =>
      have hquote : '"' ∈ versionToken version := by rw [heq]; simp
      exact absurd rfl (ne_quote_of_isDigit (isDigit_of_mem_versionToken hquote))
    · rfl
  unfold ServerVersion.parse at h
  rw [hstrip] at h
  dsimp only [Option.getD_none] at h
  split at h
  · cases h
    rfl
  · cases h

theorem val_of_checkedSeq {seq : Nat} {s : I64} (h : checkedSeq (.saturate seq) = .ok s) : s.val = seq ∧ seq < 2 ^ 48 := by
  unfold checkedSeq at h
  split at h
  · next hrange =>
    cases h
    have hval : (I64.saturate (seq : Int)).val = max (-2 ^ 63) (min (seq : Int) (2 ^ 63 - 1)) := rfl
    have hmax : MAX_SEQ = 2 ^ 48 := rfl
    rw [hval, hmax] at hrange
    rw [hval]
    constructor
    · omega
    · omega
  · cases h

/-- A page entry as the client holds it. -/
def FeedChange.of (p : ItemId × ServerRow) : FeedChange where
  itemId := p.1
  seq := .saturate p.2.seq
  version := some (.of p.2.version)
  envelope := p.2.envelope
  deleted := p.2.deleted

theorem eq_of_base64Field {operation field : String} {max : Nat} {b b' : Bytes}
    (h : base64Field operation field max (.bytes b) = .ok b') : b' = b := by
  unfold base64Field at h
  dsimp only at h
  split at h
  · cases h
  · cases h
    rfl

theorem eq_of_optional {α β : Type} {decode : β → Except SyncError α} {encode : α → β} {a : Option α}
    {b : Option α} (hdecode : ∀ x y, decode (encode x) = .ok y → y = x)
    (h : optional decode (a.map encode) = .ok b) : b = a := by
  cases a with
  | none =>
    cases h
    rfl
  | some x =>
    unfold optional at h
    simp only [Option.map_some] at h
    cases hd : decode (encode x) with
    | error e =>
      rw [hd] at h
      cases h
    | ok y =>
      rw [hd] at h
      cases h
      rw [hdecode x y hd]

theorem eq_of_decodeEntry {previous : Option I64} {p : ItemId × ServerRow} {change : FeedChange}
    (h : decodeEntry previous (changeEntry p) = .ok change) : change = .of p ∧ p.2.seq < 2 ^ 48 := by
  unfold decodeEntry at h
  obtain ⟨seq, hseq, h₁⟩ := bind_eq_ok.mp h
  obtain ⟨s, hs, h₂⟩ := bind_eq_ok.mp h₁
  cases hseq
  clear h h₁
  have hseq := val_of_checkedSeq hs
  have hs' : s = .saturate p.2.seq := by
    unfold checkedSeq at hs
    split at hs
    · cases hs
      rfl
    · cases hs
  have hrest : (do
      let envelope ← (optional (base64Field "changes" "envelope" MAX_ENVELOPE_LEN) (p.2.envelope.map .bytes)).mapError .ofEntry
      let version ← optional RawVersion.intoToken (some (.token (versionToken p.2.version)))
      return ⟨p.1, s, version, envelope, p.2.deleted⟩ : Except SyncError FeedChange) = .ok change →
      change = .of p := by
    intro hok
    obtain ⟨envelope, henvelope, h₃⟩ := bind_eq_ok.mp hok
    obtain ⟨version, hversion, h₄⟩ := bind_eq_ok.mp h₃
    cases h₄
    have henv := eq_of_optional (fun x y hxy => eq_of_base64Field hxy) (mapError_eq_ok.mp henvelope)
    have hver : version = some (.of p.2.version) := by
      unfold optional at hversion
      dsimp only at hversion
      cases hv : RawVersion.intoToken (.token (versionToken p.2.version)) with
      | error e =>
        rw [hv] at hversion
        cases hversion
      | ok v =>
        rw [hv] at hversion
        cases hversion
        rw [eq_of_parse_versionToken hv]
    rw [henv, hver, hs']
    rfl
  refine ⟨?_, hseq.2⟩
  cases previous with
  | none => exact hrest h₂
  | some previous =>
    dsimp only at h₂
    split at h₂
    · cases h₂
    · exact hrest h₂

theorem eq_of_decodeEntries : ∀ {previous : Option I64} {rows : List (ItemId × ServerRow)}
    {changes : List FeedChange}, decodeEntries previous (rows.map changeEntry) = .ok changes →
    changes = rows.map FeedChange.of ∧ ∀ p ∈ rows, p.2.seq < 2 ^ 48
  | _, [], _, h => by
    cases h
    exact ⟨rfl, by simp⟩
  | previous, p :: rest, changes, h => by
    rw [List.map_cons, decodeEntries] at h
    obtain ⟨change, hchange, h⟩ := bind_eq_ok.mp h
    obtain ⟨tail, htail, h⟩ := bind_eq_ok.mp h
    cases h
    obtain ⟨rfl, hseq⟩ := eq_of_decodeEntry hchange
    obtain ⟨rfl, hall⟩ := eq_of_decodeEntries htail
    refine ⟨rfl, ?_⟩
    intro q hq
    rcases List.mem_cons.mp hq with rfl | hq
    · exact hseq
    · exact hall q hq

/-- A page of the feed, as the server had it when it answered. -/
structure Page (server : Server) (since : Int) (limit : Nat) (feed : ChangeFeed) : Prop where
  nonneg : 0 ≤ since
  changes : feed.changes = (server.changes since.toNat limit).1.map FeedChange.of
  small : ∀ p ∈ (server.changes since.toNat limit).1, p.2.seq < 2 ^ 48
  nextSeq : feed.nextSeq.val =
    (((server.changes since.toNat limit).1.getLast?).map (fun p => (p.2.seq : Int))).getD since
  hasMore : feed.hasMore = (server.changes since.toNat limit).2

theorem page_of_readChanges {config : ServerConfig} {since : Option I64} {limit : Nat} {server : Server}
    {feed : ChangeFeed} (h : readChanges (serveChanges config since limit server) = .ok feed) :
    Page server ((since.map Subtype.val).getD 0) limit feed := by
  unfold serveChanges at h
  dsimp only at h
  split at h
  · cases h
  · next hrange =>
    generalize hs : (since.map Subtype.val).getD 0 = s at *
    have hnonneg : 0 ≤ s := by omega
    have hsmall : s < 2 ^ 63 := by
      rw [← hs]
      cases since with
      | none => decide
      | some v => exact v.property.2
    obtain ⟨raw, hraw, h₁⟩ := bind_eq_ok.mp h
    cases hraw
    dsimp only [Option.getD_some] at h₁
    split at h₁
    · cases h₁
    · obtain ⟨changes, hchanges, h₂⟩ := bind_eq_ok.mp h₁
      obtain ⟨next, hnext, h₃⟩ := bind_eq_ok.mp h₂
      obtain ⟨nextSeq, hnextSeq, h₄⟩ := bind_eq_ok.mp h₃
      cases hnext
      obtain ⟨rfl, hall⟩ := eq_of_decodeEntries hchanges
      -- the next cursor is the last entry's number, or the one asked from
      have hvalue : nextSeq.val = (((server.changes s.toNat limit).1.getLast?).map
          (fun p => (p.2.seq : Int))).getD s := by
        cases hlast : (server.changes s.toNat limit).1.getLast? with
        | none =>
          rw [hlast] at hnextSeq
          have hnat : ((s.toNat : Nat) : Int) = s := Int.toNat_of_nonneg hnonneg
          have hseq : checkedSeq (.saturate ((s.toNat : Nat) : Int)) = .ok nextSeq := by
            rw [hnat]
            exact hnextSeq
          rw [(val_of_checkedSeq hseq).1, hnat]
          rfl
        | some p =>
          rw [hlast] at hnextSeq
          exact (val_of_checkedSeq hnextSeq).1
      have hfeed : feed = ⟨(server.changes s.toNat limit).1.map FeedChange.of, nextSeq,
          (server.changes s.toNat limit).2⟩ := by
        clear hchanges h₁ h₂ h₃
        split at h₄
        · split at h₄
          · cases h₄
          · cases h₄
            rfl
        · cases h₄
          rfl
      rw [hfeed]
      exact ⟨hnonneg, rfl, hall, hvalue, rfl⟩

/-- What the client makes of an honest answer to a `PUT`. -/
inductive PutTold (server : Server) (itemId : ItemId) (envelope : Bytes) (now : Int) (precondition : Nat) :
    PutOutcome → Server → Prop
  | applied {seq : I64} : precondition = server.versionAt itemId → seq.val = server.nextSeq →
      PutTold server itemId envelope now precondition (.applied seq (.of (precondition + 1)))
        (server.store itemId (precondition + 1) (some envelope) now (Nat.succ_pos _))
  | conflict {row : ServerRow} : precondition ≠ row.version → server.rows[itemId]? = some row →
      PutTold server itemId envelope now precondition (.conflict (some (.of row.version)) row.envelope) server

theorem readPut_conflict {envelope : Bytes} {version : Nat} {current : Option Bytes} {out : PutOutcome}
    (h : readPut envelope (ApiError.conflict (versionToken version) current).response = .ok out) :
    out = .conflict (if version = 0 then none else some (.of version)) current ∧
      ¬ (version = 0 ∧ current = none) := by
  obtain ⟨raw, hraw, h₁⟩ := bind_eq_ok.mp h
  cases hraw
  obtain ⟨env, henv, h₂⟩ := bind_eq_ok.mp h₁
  obtain ⟨ver, hver, h₃⟩ := bind_eq_ok.mp h₂
  have henv : env = current := eq_of_optional (fun x y hxy => eq_of_base64Field hxy) henv
  have hver : ver = some (.of version) := by
    unfold optional at hver
    dsimp only [ApiError.response] at hver
    cases hv : RawVersion.intoToken (.token (versionToken version)) with
    | error e =>
      rw [hv] at hver
      cases hver
    | ok v =>
      rw [hv] at hver
      cases hver
      rw [eq_of_parse_versionToken hv]
  have hfilter : (some (ServerVersion.of version)).filter (fun version => !version.meansAbsent) =
      if version = 0 then none else some (.of version) := by
    rw [Option.filter_some, meansAbsent_of]
    by_cases hzero : version = 0 <;> simp [hzero]
  rw [henv, hver, hfilter] at h₃
  dsimp only at h₃
  by_cases hnone : (current.isNone && (if version = 0 then none else some (ServerVersion.of version)).isNone) = true
  · rw [if_pos hnone] at h₃
    cases h₃
  · rw [if_neg hnone] at h₃
    cases h₃
    refine ⟨rfl, ?_⟩
    intro h
    obtain ⟨rfl, rfl⟩ := h
    exact hnone rfl

theorem eq_of_decodeBlob {max : Nat} {bytes bytes' : Bytes} (h : decodeBlob max bytes = .ok bytes') : bytes' = bytes := by
  unfold decodeBlob at h
  split at h
  · cases h
  · split at h
    · cases h
    · cases h
      rfl

theorem eq_of_decodeBlob_error {max : Nat} {bytes : Bytes} {error : ApiError}
    (h : decodeBlob max bytes = .error error) : error = .payloadTooLarge ∨ error = .badRequest := by
  unfold decodeBlob at h
  split at h
  · cases h
    exact .inl rfl
  · split at h
    · cases h
      exact .inr rfl
    · cases h

theorem eq_of_precondition_error {value : Option Text} {error : ApiError} (h : precondition value none = .error error) :
    error = .badRequest ∨ error = .preconditionRequired := by
  cases value with
  | none =>
    cases h
    exact .inr rfl
  | some value =>
    unfold precondition at h
    simp only [Option.isSome_some, Option.isSome_none, Bool.false_eq_true, and_false, if_false] at h
    split at h
    · cases h
      exact .inl rfl
    · split at h
      · cases h
        exact .inl rfl
      · split at h
        · cases h
        · cases h
          exact .inl rfl

theorem putTold_of_readPut {config : ServerConfig} {itemId : ItemId} {envelope : Bytes}
    {version : Option ServerVersion} {now : Int} {server : Server} {out : PutOutcome}
    (h : readPut envelope (servePut config itemId envelope version now server).1 = .ok out) :
    ∃ precondition, putCondition version = .ok precondition ∧
      PutTold server itemId envelope now precondition out (servePut config itemId envelope version now server).2 := by
  unfold servePut at h ⊢
  cases hcond : putCondition version with
  | error error =>
    rw [hcond] at h
    -- a refused precondition is never answered as an outcome
    have hstatus : error = .badRequest ∨ error = .preconditionRequired := by
      cases version with
      | none => cases hcond
      | some version => exact eq_of_precondition_error hcond
    rcases hstatus with rfl | rfl <;> cases h
  | ok precondition =>
    rw [hcond] at h
    dsimp only at h ⊢
    refine ⟨precondition, rfl, ?_⟩
    cases hblob : decodeBlob config.maxEnvelopeBytes envelope with
    | error error =>
      rw [hblob] at h
      rcases eq_of_decodeBlob_error hblob with rfl | rfl <;> cases h
    | ok bytes =>
      rw [hblob] at h
      rw [eq_of_decodeBlob hblob] at h ⊢
      dsimp only at h ⊢
      cases hput : server.putItem config.limits itemId precondition envelope now with
      | error e =>
        rw [hput] at h
        cases h
      | ok r =>
        obtain ⟨outcome, server'⟩ := r
        rw [hput] at h
        have hspec := Server.put_of_putItem hput
        cases hspec with
        -- 200: the client reads back the sequence number and version the server wrote
        | written hp hseq hlast =>
          obtain ⟨raw, hraw, h₁⟩ := bind_eq_ok.mp h
          cases hraw
          obtain ⟨seq, hseq, h₂⟩ := bind_eq_ok.mp h₁
          obtain ⟨s, hs, h₃⟩ := bind_eq_ok.mp h₂
          obtain ⟨v, hv, h₄⟩ := bind_eq_ok.mp h₃
          obtain ⟨ver, hver, h₅⟩ := bind_eq_ok.mp h₄
          cases hseq
          cases hv
          cases h₅
          rw [eq_of_parse_versionToken hver]
          exact .applied hp (val_of_checkedSeq hs).1
        -- 409: read as an outcome only where there is a row
        | conflict hp =>
          obtain ⟨rfl, hsome⟩ := readPut_conflict h
          cases hrow : server.rows[itemId]? with
          | none =>
            exact absurd ⟨by simp [Server.versionAt, hrow], by simp [hrow]⟩ hsome
          | some row =>
            have hversion : server.versionAt itemId = row.version := by simp [Server.versionAt, hrow]
            have hpos := (server.stamped itemId row hrow).2.2
            rw [hversion] at hp ⊢
            rw [if_neg (Nat.ne_of_gt hpos)]
            exact .conflict hp hrow
        | full hp hfull => rcases hfull with rfl | rfl <;> cases h

/-- What an honest server has done where the client takes a `DELETE` as done. -/
inductive DeleteTold (server : Server) (itemId : ItemId) (now : Int) (precondition : Nat) : Server → Prop
  | missing : server.rows[itemId]? = none → DeleteTold server itemId now precondition server
  | again {row : ServerRow} : server.rows[itemId]? = some row → precondition = row.version → row.envelope = none →
      DeleteTold server itemId now precondition server
  | reclaimed {row : ServerRow} : server.rows[itemId]? = some row → precondition = row.version →
      row.envelope ≠ none → DeleteTold server itemId now precondition
        (server.store itemId (precondition + 1) none now (Nat.succ_pos _))

theorem deleteTold_of_readDelete {itemId : ItemId} {version : Option ServerVersion} {now : Int} {server : Server}
    (h : readDelete (serveDelete itemId version now server).1 = .ok ()) :
    ∃ precondition, deleteCondition version = .ok precondition ∧
      DeleteTold server itemId now precondition (serveDelete itemId version now server).2 := by
  unfold serveDelete at h ⊢
  cases hcond : deleteCondition version with
  | error error =>
    rw [hcond] at h
    have hstatus := eq_of_precondition_error hcond
    rcases hstatus with rfl | rfl <;> cases h
  | ok precondition =>
    rw [hcond] at h
    dsimp only at h ⊢
    refine ⟨precondition, rfl, ?_⟩
    split at h
    · cases h
    · next hzero =>
      rw [if_neg hzero]
      cases hdelete : server.deleteItem itemId precondition now with
      | error e =>
        rw [hdelete] at h
        cases h
      | ok r =>
        obtain ⟨outcome, server'⟩ := r
        rw [hdelete] at h
        cases Server.delete_of_deleteItem hdelete with
        | missing hrow => exact .missing hrow
        | conflict hrow hp => cases h
        | again hrow hp hnone => exact .again hrow hp hnone
        | reclaimed hrow hp hsome => exact .reclaimed hrow hp hsome

end Misty
