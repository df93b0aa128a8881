import Misty.Sync.Trace
import Misty.Sync.Known

/- One pull against a server that may say anything. The world of this module is the log of
   what was called and answered, and every answer is allowed, the vault's and the state
   store's as well. What a pull has done can be read off the log: the pages it asked for,
   those it accepted, the times it asked for a smaller one, the batches the vault merged.

   Two counters end it: a page that is accepted uses one of `MAX_PAGES_PER_SYNC`, and a
   page that is too large halves the limit, at most `log2` times. The pages that are
   accepted are linked: each lies above the cursor the one before it left (`Linked`). So
   what they delivered up to the last cursor is in ascending order, every change once, and
   each was merged, recorded as reclaimed, ignored or rejected (`pull_safe`). -/
namespace Misty

/-! ## Pages in order -/

/-- The entries of a body ascend strictly from above the cursor, and the place to go on from is below none of them and
not below the cursor. -/
def RawBody.AscendsFrom (self : RawBody) (cursor : Int) : Prop :=
  ∃ (seqs : List I64) (next : I64), (self.changes.getD []).map RawChange.seq = seqs.map some ∧ self.nextSeq = some next ∧
    (cursor :: seqs.map Subtype.val).Pairwise (· < ·) ∧ ∀ seq ∈ cursor :: seqs.map Subtype.val, seq ≤ next.val

/-- The `seq`s of changes. -/
def seqsOf (changes : List FeedChange) : List Int := changes.map fun change => change.seq.val

/-- The changes of a page ascend strictly and `next_seq` is below none of them. -/
structure ChangeFeed.Ordered (feed : ChangeFeed) : Prop where
  ascends : (seqsOf feed.changes).Pairwise (· < ·)
  next : ∀ change ∈ feed.changes, change.seq.val ≤ feed.nextSeq.val

theorem eq_of_required {α : Type} {operation field : String} {o : Option α} {a : α}
    (h : required operation field o = .ok a) : o = some a := by
  cases o with
  | none => cases h
  | some b =>
    cases h
    rfl

theorem eq_of_checkedSeq {offered seq : I64} (h : checkedSeq offered = .ok seq) : seq = offered := by
  unfold checkedSeq at h
  split at h
  · cases h
    rfl
  · cases h

theorem seq_of_decodeEntry {previous : Option I64} {entry : RawChange} {change : FeedChange}
    (h : decodeEntry previous entry = .ok change) :
    entry.seq = some change.seq ∧ ∀ p ∈ previous, p.val < change.seq.val := by
  unfold decodeEntry at h
  obtain ⟨offered, hoffered, h₁⟩ := bind_eq_ok.mp h
  obtain ⟨seq, hseq, h₂⟩ := bind_eq_ok.mp h₁
  have hraw := eq_of_required hoffered
  have hsame := eq_of_checkedSeq hseq
  subst hsame
  clear h h₁
  have hrest : (do
      let envelope ← (optional (base64Field "changes" "envelope" MAX_ENVELOPE_LEN) entry.envelope).mapError .ofEntry
      let itemId ← required "changes" "item_id" (← required "changes" "item_id" entry.itemId)
      let version ← optional RawVersion.intoToken entry.version
      return ⟨itemId, seq, version, envelope, entry.deleted.getD false⟩ : Except SyncError FeedChange) = .ok change →
      change.seq = seq := by
    intro hok
    obtain ⟨_, -, h₃⟩ := bind_eq_ok.mp hok
    obtain ⟨_, -, h₄⟩ := bind_eq_ok.mp h₃
    obtain ⟨_, -, h₅⟩ := bind_eq_ok.mp h₄
    obtain ⟨_, -, h₆⟩ := bind_eq_ok.mp h₅
    cases h₆
    rfl
  cases previous with
  | none =>
    rw [hrest h₂]
    exact ⟨hraw, by simp⟩
  | some previous =>
    dsimp only at h₂
    split at h₂
    · cases h₂
    · next hlt =>
      rw [hrest h₂]
      refine ⟨hraw, ?_⟩
      intro p hp
      cases hp
      omega

theorem seqs_of_decodeEntries : ∀ {entries : List RawChange} {previous : Option I64} {changes : List FeedChange},
    decodeEntries previous entries = .ok changes →
    entries.map RawChange.seq = changes.map (fun change => some change.seq) ∧
      (seqsOf changes).Pairwise (· < ·) ∧ ∀ p ∈ previous, ∀ seq ∈ seqsOf changes, p.val < seq
  | [], previous, changes, h => by
    cases h
    simp [seqsOf]
  | entry :: rest, previous, changes, h => by
    rw [decodeEntries] at h
    obtain ⟨change, hchange, h₁⟩ := bind_eq_ok.mp h
    obtain ⟨tail, htail, h₂⟩ := bind_eq_ok.mp h₁
    cases h₂
    obtain ⟨hraw, hprevious⟩ := seq_of_decodeEntry hchange
    obtain ⟨hraws, hascends, habove⟩ := seqs_of_decodeEntries htail
    refine ⟨by simp [hraw, hraws], ?_, ?_⟩
    · exact List.pairwise_cons.mpr ⟨habove _ rfl, hascends⟩
    · intro p hp seq hseq
      have hfirst := hprevious p hp
      obtain rfl | hseq := List.mem_cons.mp hseq
      · exact hfirst
      · exact hfirst.trans (habove _ rfl seq hseq)

/-- What is read of an answer: a page in order, the `seq`s its body's. -/
theorem ordered_of_readChanges {response : Response} {feed : ChangeFeed} (h : readChanges response = .ok feed) :
    feed.Ordered ∧ ∃ raw, response.body = .fields raw ∧ raw.nextSeq = some feed.nextSeq ∧
      (raw.changes.getD []).map RawChange.seq = feed.changes.map (fun change => some change.seq) := by
  unfold readChanges at h
  split at h
  · unfold decodeChangeFeed at h
    obtain ⟨raw, hraw, h₁⟩ := bind_eq_ok.mp h
    have hbody : response.body = .fields raw := by
      cases hb : response.body with
      | long =>
        rw [hb] at hraw
        cases hraw
      | garbled =>
        rw [hb] at hraw
        cases hraw
      | fields r =>
        rw [hb] at hraw
        cases hraw
        rfl
    clear h
    dsimp only at h₁
    split at h₁
    · cases h₁
    · obtain ⟨changes, hchanges, h₂⟩ := bind_eq_ok.mp h₁
      obtain ⟨offered, hoffered, h₃⟩ := bind_eq_ok.mp h₂
      obtain ⟨nextSeq, hnextSeq, h₄⟩ := bind_eq_ok.mp h₃
      have hnext := eq_of_required hoffered
      have hsame := eq_of_checkedSeq hnextSeq
      subst hsame
      obtain ⟨hraws, hascends, -⟩ := seqs_of_decodeEntries hchanges
      clear h₁ h₂ h₃
      cases hlast : changes.getLast? with
      | none =>
        rw [hlast] at h₄
        cases h₄
        rw [List.getLast?_eq_none_iff] at hlast
        subst hlast
        exact ⟨⟨by simp [seqsOf], by simp⟩, raw, hbody, hnext, hraws⟩
      | some last =>
        rw [hlast] at h₄
        dsimp only at h₄
        split at h₄
        · cases h₄
        · next hle =>
          cases h₄
          refine ⟨⟨hascends, ?_⟩, raw, hbody, hnext, hraws⟩
          -- the last change is the greatest
          obtain ⟨front, rfl⟩ := List.getLast?_eq_some_iff.mp hlast
          intro change hmem
          obtain hmem | hmem := List.mem_append.mp hmem
          · have hlt : change.seq.val < last.seq.val := by
              unfold seqsOf at hascends
              rw [List.map_append, List.pairwise_append] at hascends
              exact hascends.2.2 _ (List.mem_map_of_mem hmem) _ (by simp)
            dsimp only
            omega
          · rw [List.mem_singleton.mp hmem]
            dsimp only
            omega
  · cases h

theorem checkPage_eq_ok {cursor : Int} {feed : ChangeFeed} : checkPage cursor feed = .ok () ↔
    (∀ change ∈ feed.changes, cursor < change.seq.val) ∧ cursor ≤ feed.nextSeq.val := by
  unfold checkPage
  cases hfind : feed.changes.find? (fun change => change.seq.val ≤ cursor) with
  | some change =>
    have hlow := List.find?_some hfind
    have hmem := List.mem_of_find?_eq_some hfind
    have hle : change.seq.val ≤ cursor := by simpa using hlow
    refine ⟨fun h => by simp at h, fun h => ?_⟩
    have hlt := h.1 change hmem
    omega
  | none =>
    have hall : ∀ change ∈ feed.changes, cursor < change.seq.val := by
      intro change hmem
      simpa using List.find?_eq_none.mp hfind change hmem
    dsimp only
    split
    · next hlt => exact ⟨fun h => (by simp at h), fun h => absurd h.2 (by omega)⟩
    · next hle => exact ⟨fun _ => ⟨hall, by omega⟩, fun _ => rfl⟩

/-- A page that is read and passes the check ascends from above the cursor. -/
theorem ascendsFrom_of_accepted {response : Response} {feed : ChangeFeed} {cursor : Int}
    (hread : readChanges response = .ok feed) (hcheck : checkPage cursor feed = .ok ()) :
    ∃ raw, response.body = .fields raw ∧ raw.AscendsFrom cursor := by
  obtain ⟨hordered, raw, hbody, hnext, hseqs⟩ := ordered_of_readChanges hread
  obtain ⟨habove, hle⟩ := checkPage_eq_ok.mp hcheck
  refine ⟨raw, hbody, feed.changes.map FeedChange.seq, feed.nextSeq, ?_, hnext, ?_, ?_⟩
  · rw [hseqs, List.map_map]
    rfl
  · rw [List.map_map]
    refine List.pairwise_cons.mpr ⟨?_, hordered.ascends⟩
    intro seq hseq
    obtain ⟨change, hmem, rfl⟩ := List.mem_map.mp hseq
    exact habove change hmem
  · intro seq hseq
    rw [List.map_map] at hseq
    obtain rfl | hseq := List.mem_cons.mp hseq
    · exact hle
    · obtain ⟨change, hmem, rfl⟩ := List.mem_map.mp hseq
      exact hordered.next change hmem

/-! ## Linked pages -/

/-- The part of a page that is applied. -/
def sliceOf (feed : ChangeFeed) : List FeedChange := (haltPage feed).2.1

/-- Where the cursor is after a page. -/
def endOf (feed : ChangeFeed) : I64 := (haltPage feed).2.2

/-- The page ends at a roster. -/
def haltsAt (feed : ChangeFeed) : Bool := (haltPage feed).1

theorem sliceOf_eq {feed : ChangeFeed} (h : haltsAt feed = false) : sliceOf feed = feed.changes := by
  unfold haltsAt haltPage at h
  unfold sliceOf haltPage
  split at h
  · cases h
  · rfl

/-- A page above the cursor, applied: what is applied of it is what it has up to where the cursor goes. -/
theorem slice_of_ordered {cursor : Int} {feed : ChangeFeed} (hordered : feed.Ordered)
    (hcheck : checkPage cursor feed = .ok ()) :
    cursor ≤ (endOf feed).val ∧ feed.changes.filter (fun change => change.seq.val ≤ (endOf feed).val) = sliceOf feed := by
  obtain ⟨habove, hle⟩ := checkPage_eq_ok.mp hcheck
  cases hfind : feed.changes.findIdx? isRosterChange with
  -- no roster on the page: the slice is all of it
  | none =>
    have hend : endOf feed = feed.nextSeq := by
      unfold endOf haltPage
      rw [hfind]
    have hslice : sliceOf feed = feed.changes := by
      unfold sliceOf haltPage
      rw [hfind]
    rw [hend, hslice]
    refine ⟨hle, List.filter_eq_self.mpr ?_⟩
    intro change hmem
    simpa using hordered.next change hmem
  -- up to the first roster: the entries ascend, so the rest is past its number
  | some i =>
    have hlt : i < feed.changes.length := (List.findIdx?_eq_some_iff_getElem.mp hfind).1
    have hend : endOf feed = feed.changes[i].seq := by
      unfold endOf haltPage
      rw [hfind]
      simp [hlt]
    have hslice : sliceOf feed = feed.changes.take (i + 1) := by
      unfold sliceOf haltPage
      rw [hfind]
    have hpair : feed.changes.Pairwise (fun a b => a.seq.val < b.seq.val) := List.pairwise_map.mp hordered.ascends
    have hbefore : ∀ change ∈ feed.changes.take (i + 1), change.seq.val ≤ feed.changes[i].seq.val := by
      intro change hmem
      obtain ⟨j, hj, rfl⟩ := List.mem_iff_getElem.mp hmem
      rw [List.length_take] at hj
      rw [List.getElem_take]
      obtain hji | rfl := Nat.lt_or_eq_of_le (show j ≤ i by omega)
      · exact (List.pairwise_iff_getElem.mp hpair j i (by omega) hlt hji).le
      · exact le_rfl
    have hafter : ∀ change ∈ feed.changes.drop (i + 1), ¬ change.seq.val ≤ feed.changes[i].seq.val := by
      intro change hmem
      obtain ⟨j, hj, rfl⟩ := List.mem_iff_getElem.mp hmem
      rw [List.length_drop] at hj
      rw [List.getElem_drop]
      exact not_le.mpr (List.pairwise_iff_getElem.mp hpair i (i + 1 + j) hlt (by omega) (by omega))
    rw [hend, hslice]
    refine ⟨(habove _ (List.getElem_mem hlt)).le, ?_⟩
    generalize feed.changes[i].seq.val = halt at hbefore hafter
    calc feed.changes.filter (fun change => change.seq.val ≤ halt)
        = (feed.changes.take (i + 1) ++ feed.changes.drop (i + 1)).filter (fun change => change.seq.val ≤ halt) := by
          rw [List.take_append_drop]
      _ = (feed.changes.take (i + 1)).filter (fun change => change.seq.val ≤ halt) ++
            (feed.changes.drop (i + 1)).filter (fun change => change.seq.val ≤ halt) := List.filter_append ..
      _ = feed.changes.take (i + 1) ++ [] := by
          rw [List.filter_eq_self.mpr (by simpa using hbefore), List.filter_eq_nil_iff.mpr (by simpa using hafter)]
      _ = feed.changes.take (i + 1) := List.append_nil _

/-- Pages one after another from one cursor to another. A page that halts is the last. -/
inductive Linked (start : Int) : List ChangeFeed → Int → Prop
  | nil : Linked start [] start
  | page {pages : List ChangeFeed} {cursor : Int} {feed : ChangeFeed} : Linked start pages cursor →
      (∀ p ∈ pages, haltsAt p = false) → feed.Ordered → checkPage cursor feed = .ok () →
      Linked start (pages ++ [feed]) (endOf feed).val

/-- What the pages delivered. -/
def deliveredBy (pages : List ChangeFeed) : List FeedChange := pages.flatMap ChangeFeed.changes

/-- What of it was applied. -/
def appliedOf (pages : List ChangeFeed) : List FeedChange := pages.flatMap sliceOf

theorem appliedOf_concat (pages : List ChangeFeed) (feed : ChangeFeed) :
    appliedOf (pages ++ [feed]) = appliedOf pages ++ sliceOf feed := by
  simp [appliedOf]

/-- Linked pages were applied up to the cursor they lead to, and no further; in order, every change once. -/
theorem Linked.applied {start cursor : Int} {pages : List ChangeFeed} (h : Linked start pages cursor) :
    start ≤ cursor ∧ (deliveredBy pages).filter (fun change => change.seq.val ≤ cursor) = appliedOf pages ∧
      (∀ change ∈ appliedOf pages, start < change.seq.val ∧ change.seq.val ≤ cursor) ∧
      (seqsOf (appliedOf pages)).Pairwise (· < ·) := by
  induction h with
  | nil => simp [deliveredBy, appliedOf, seqsOf]
  | @page pages cursor feed _ hwhole hordered hcheck ih =>
    obtain ⟨hle, -, hwithin, hascends⟩ := ih
    obtain ⟨hend, hslice⟩ := slice_of_ordered hordered hcheck
    obtain ⟨habove, -⟩ := checkPage_eq_ok.mp hcheck
    have hmem : ∀ change ∈ sliceOf feed, change ∈ feed.changes ∧ change.seq.val ≤ (endOf feed).val := by
      intro change hmem
      rw [← hslice, List.mem_filter] at hmem
      exact ⟨hmem.1, by simpa using hmem.2⟩
    -- the pages before held no roster, so all of them was applied
    have hall : deliveredBy pages = appliedOf pages := by
      unfold deliveredBy appliedOf
      exact List.flatMap_congr fun p hp => (sliceOf_eq (hwhole p hp)).symm
    refine ⟨hle.trans hend, ?_, ?_, ?_⟩
    · rw [show deliveredBy (pages ++ [feed]) = deliveredBy pages ++ feed.changes by simp [deliveredBy],
        List.filter_append, hslice, hall, appliedOf_concat, List.filter_eq_self.mpr]
      intro change hchange
      have hbound := (hwithin change hchange).2
      simp only [decide_eq_true_eq]
      omega
    · intro change hchange
      rw [appliedOf_concat] at hchange
      obtain hchange | hchange := List.mem_append.mp hchange
      · have hbound := hwithin change hchange
        omega
      · obtain ⟨hin, hbound⟩ := hmem change hchange
        have hlow := habove change hin
        omega
    · rw [appliedOf_concat]
      unfold seqsOf
      rw [List.map_append, List.pairwise_append]
      refine ⟨hascends, ?_, ?_⟩
      · rw [← hslice]
        exact (hordered.ascends.sublist (List.filter_sublist.map _))
      · intro a ha b hb
        obtain ⟨x, hx, rfl⟩ := List.mem_map.mp ha
        obtain ⟨y, hy, rfl⟩ := List.mem_map.mp hb
        have hlow := (hwithin x hx).2
        have hhigh := habove y (hmem y hy).1
        omega

theorem Linked.ends {start cursor : Int} {pages : List ChangeFeed} (h : Linked start pages cursor) :
    (start :: pages.map fun feed => (endOf feed).val).Pairwise (· ≤ ·) ∧
      ∀ c ∈ start :: pages.map fun feed => (endOf feed).val, c ≤ cursor := by
  induction h with
  | nil => simp
  | @page pages cursor feed _ _ hordered hcheck ih =>
    obtain ⟨hend, -⟩ := slice_of_ordered hordered hcheck
    obtain ⟨hpair, hle⟩ := ih
    rw [List.map_append, ← List.cons_append]
    refine ⟨List.pairwise_append.mpr ⟨hpair, by simp, ?_⟩, ?_⟩
    · intro c hc d hd
      rw [List.map_singleton, List.mem_singleton] at hd
      have hbound := hle c hc
      omega
    · intro c hc
      obtain hc | hc := List.mem_append.mp hc
      · have hbound := hle c hc
        omega
      · rw [List.map_singleton, List.mem_singleton] at hc
        omega

/-! ## What becomes of a change -/

section Fates

variable (E : Externals) (roster : Roster)

/-- Why `apply_page` rejects a change. -/
def rejectChange (change : FeedChange) : Option Rejection :=
  match change.envelope with
  | none => none
  | some envelope =>
    match verifyChange E roster change.itemId envelope with
    | .error reason => some reason
    | .ok _ => none

/-- `apply_page` ignores a change for its kind. -/
def ignoresChange (change : FeedChange) : Bool :=
  match change.envelope with
  | none => false
  | some envelope =>
    match verifyChange E roster change.itemId envelope with
    | .error _ => false
    | .ok kind => !isMerged kind

theorem foldl_take_reported : ∀ (page : List FeedChange) (sorted : SortedPage),
    (page.foldl (SortedPage.take E roster) sorted).rejected = sorted.rejected ++ page.filterMap (rejectChange E roster) ∧
    (page.foldl (SortedPage.take E roster) sorted).ignored = sorted.ignored + page.countP (ignoresChange E roster)
  | [], sorted => by simp
  | change :: rest, sorted => by
    rw [List.foldl_cons]
    obtain ⟨hrej, hign⟩ := foldl_take_reported rest (SortedPage.take E roster sorted change)
    rw [hrej, hign]
    cases henv : change.envelope with
    | none => simp [SortedPage.take, rejectChange, ignoresChange, henv]
    | some envelope =>
      cases hverify : verifyChange E roster change.itemId envelope with
      | error reason => simp [SortedPage.take, rejectChange, ignoresChange, henv, hverify]
      | ok kind =>
        cases hkind : isMerged kind with
        | true => simp [SortedPage.take, rejectChange, ignoresChange, henv, hverify, hkind]
        | false =>
          refine ⟨by simp [SortedPage.take, rejectChange, henv, hverify, hkind], ?_⟩
          simp [SortedPage.take, ignoresChange, henv, hverify, hkind]
          omega

theorem sortPage_rejected (page : List FeedChange) :
    (sortPage E roster page).rejected = page.filterMap (rejectChange E roster) :=
  (foldl_take_reported E roster page _).1.trans (List.nil_append _)

theorem sortPage_ignored (page : List FeedChange) :
    (sortPage E roster page).ignored = page.countP (ignoresChange E roster) :=
  (foldl_take_reported E roster page _).2.trans (Nat.zero_add _)

/-- One of four things becomes of every change: it is recorded as reclaimed, put into the batch, ignored for its kind,
or rejected. -/
inductive Fate (change : FeedChange) : Prop
  | reclaimed : change.envelope = none → acceptChange E roster change = some (change, none) → Fate change
  | merged {envelope : Bytes} : change.envelope = some envelope →
      batchChange E roster change = some (change.toRemote envelope) → Fate change
  | ignored : ignoresChange E roster change = true → Fate change
  | rejected {reason : Rejection} : rejectChange E roster change = some reason → Fate change

theorem fate (change : FeedChange) : Fate E roster change := by
  cases henv : change.envelope with
  | none => exact .reclaimed henv (by simp [acceptChange, henv])
  | some envelope =>
    cases hverify : verifyChange E roster change.itemId envelope with
    | error reason =>
      have hreason : rejectChange E roster change = some reason := by simp [rejectChange, henv, hverify]
      exact .rejected hreason
    | ok kind =>
      cases hkind : isMerged kind with
      | true => exact .merged henv (by simp [batchChange, henv, hverify, hkind])
      | false => exact .ignored (by simp [ignoresChange, henv, hverify, hkind])

end Fates

/-! ## The log -/

/-- A call and its answer. -/
abbrev Exchange := (q : Query) × Answer q

/-- Every call is answered in any way, and written down. -/
def Logged (q : Query) (log : List Exchange) (a : Answer q) (log' : List Exchange) : Prop := log' = log ++ [⟨q, a⟩]

/-- A page asked for: the cursor it was to be above, how many changes it was to have, and what came. -/
structure Asked where
  cursor : Int
  limit : Nat
  answer : Except SyncError ChangeFeed

namespace Asked

/-- The page, if it was read and passed the check. -/
def accepted (self : Asked) : Option ChangeFeed :=
  match self.answer with
  | .error _ => none
  | .ok feed =>
    match checkPage self.cursor feed with
    | .error _ => none
    | .ok _ => some feed

/-- The page was too large and a smaller one can be asked for. -/
def halves (self : Asked) : Bool :=
  match self.answer with
  | .error error => error.pageTooLarge && 1 < self.limit
  | .ok _ => false

end Asked

/-- The pages asked for. -/
def askedIn (log : List Exchange) : List Asked := log.filterMap fun x =>
  match x with
  | ⟨.send (.changes since limit), a⟩ => some ⟨(since.map Subtype.val).getD 0, limit, a.bind readChanges⟩
  | _ => none

/-- The pages accepted. -/
def acceptedIn (log : List Exchange) : List ChangeFeed := (askedIn log).filterMap Asked.accepted

/-- The times a smaller page was asked for. -/
def halvingsIn (log : List Exchange) : Nat := (askedIn log).countP Asked.halves

/-- The changes in the batches the vault merged. -/
def mergedIn (log : List Exchange) : List RemoteChange := log.flatMap fun x =>
  match x with
  | ⟨.mergeRemote changes, .ok _⟩ => changes
  | _ => []

/-- The changes the vault said it ignored. -/
def ignoredIn (log : List Exchange) : Nat := (log.map fun x =>
  match x with
  | ⟨.mergeRemote _, .ok report⟩ => report.ignored
  | _ => 0).sum

/-- The states saved, or meant to be. -/
def savedIn (log : List Exchange) : List SyncState := log.filterMap fun x =>
  match x with
  | ⟨.save state, _⟩ => some state
  | _ => none

section Logs

variable (log : List Exchange) (x : Exchange)

theorem askedIn_concat : askedIn (log ++ [x]) = askedIn log ++ askedIn [x] := List.filterMap_append ..

theorem acceptedIn_concat : acceptedIn (log ++ [x]) = acceptedIn log ++ acceptedIn [x] := by
  simp [acceptedIn, askedIn_concat]

theorem halvingsIn_concat : halvingsIn (log ++ [x]) = halvingsIn log + halvingsIn [x] := by
  simp [halvingsIn, askedIn_concat]

theorem mergedIn_concat : mergedIn (log ++ [x]) = mergedIn log ++ mergedIn [x] := List.flatMap_append ..

theorem ignoredIn_concat : ignoredIn (log ++ [x]) = ignoredIn log + ignoredIn [x] := by
  simp [ignoredIn]

theorem savedIn_concat : savedIn (log ++ [x]) = savedIn log ++ savedIn [x] := List.filterMap_append ..

end Logs

/-! ## The steps of a pull -/

variable {E : Externals} {roster : Roster} {I : Query → SyncEngine → List Exchange → Prop}

theorem changes_logged {since : Option I64} {limit : Nat} {s : SyncEngine} {log : List Exchange}
    (hI : I (.send (.changes since (max limit 1))) s log) :
    (changes since limit).Ensures Eq Logged I s log
      (fun feed s' log' => s' = s ∧ ∃ a, a.bind readChanges = .ok feed ∧
        log' = log ++ [⟨.send (.changes since (max limit 1)), a⟩])
      (fun e s' log' => s' = s ∧ ∃ a, a.bind readChanges = .error e ∧
        log' = log ++ [⟨.send (.changes since (max limit 1)), a⟩]) := by
  apply Prog.Ensures.bind
  apply Prog.Ensures.bind
  apply Prog.Ensures.call hI
  intro log₁ a log₂ hsame hlogged
  subst hsame
  apply Prog.Ensures.ofExcept
  · intro response hresponse
    apply Prog.Ensures.ofExcept
    · intro feed hread
      exact ⟨rfl, a, by rw [hresponse]; exact hread, hlogged⟩
    · intro e hread
      exact ⟨rfl, a, by rw [hresponse]; exact hread, hlogged⟩
  · intro e hresponse
    exact ⟨rfl, a, by rw [hresponse]; rfl, hlogged⟩

theorem save_logged {s : SyncEngine} {log : List Exchange} (hI : I (.save s.state) s log) :
    save.Ensures Eq Logged I s log (fun _ s' log' => s' = s ∧ ∃ a, log' = log ++ [⟨.save s.state, a⟩])
      (fun _ s' log' => s' = s ∧ ∃ a, log' = log ++ [⟨.save s.state, a⟩]) := by
  apply Prog.Ensures.bind
  apply Prog.Ensures.get
  apply Prog.Ensures.bind
  apply Prog.Ensures.call hI
  intro log₁ a log₂ hsame hlogged
  subst hsame
  apply Prog.Ensures.ofExcept
  · intro _ _
    exact ⟨rfl, a, hlogged⟩
  · intro e _
    exact ⟨rfl, a, hlogged⟩

/-- The report after a page, of which the vault ignored some changes more. -/
structure Reported (E : Externals) (roster : Roster) (page : List FeedChange) (more : Nat)
    (before after : SyncReport) : Prop where
  rejected : after.rejected = before.rejected ++ page.filterMap (rejectChange E roster)
  ignored : after.ignored = before.ignored + page.countP (ignoresChange E roster) + more

/-- The log after a page: its batch was merged, or there was none. -/
structure Batched (batch : List RemoteChange) (log log' : List Exchange) : Prop where
  asked : askedIn log' = askedIn log
  saved : savedIn log' = savedIn log
  merged : mergedIn log' = mergedIn log ++ batch

/-- One page applied: all of it, or nothing of it but what the report says. -/
theorem applyPage_logged (page : List FeedChange) {s : SyncEngine} {log : List Exchange}
    (hI : ∀ batch s', s'.state = s.state → I (.mergeRemote batch) s' log) :
    (applyPage E roster page).Ensures Eq Logged I s log
      (fun _ s' log' => s'.state = s.state.recordAll E (page.filterMap (acceptChange E roster)) ∧
        Batched (page.filterMap (batchChange E roster)) log log' ∧
        ∃ more, ignoredIn log' = ignoredIn log + more ∧ Reported E roster page more s.report s'.report)
      (fun _ s' log' => s'.state = s.state ∧ Reported E roster page 0 s.report s'.report ∧
        ∃ e, log' = log ++ [⟨.mergeRemote (page.filterMap (batchChange E roster)), .error e⟩]) := by
  have hrejected := sortPage_rejected E roster page
  have hignored := sortPage_ignored E roster page
  have hbatch := sortPage_batch E roster page
  have haccepted := sortPage_accepted E roster page
  unfold applyPage
  apply Prog.Ensures.bind
  apply Prog.Ensures.modify
  dsimp only
  split
  · apply Prog.Ensures.bind
    apply Prog.Ensures.bind
    refine Prog.Ensures.call (hI _ _ (by exact rfl)) ?_
    intro log₁ a log₂ hsame hlogged
    subst hsame
    rw [hbatch] at hlogged
    apply Prog.Ensures.ofExcept
    -- the batch was merged: every envelope of the page that was accepted is recorded
    · intro report hreport
      obtain rfl : a = .ok report := mapError_eq_ok.mp hreport
      apply Prog.Ensures.bind
      apply Prog.Ensures.modify
      apply recordPage_ensures
      refine ⟨by rw [haccepted], ⟨?_, ?_, ?_⟩, report.ignored, ?_, ?_, ?_⟩
      · rw [hlogged, askedIn_concat]
        exact List.append_nil _
      · rw [hlogged, savedIn_concat]
        exact List.append_nil _
      · rw [hlogged, mergedIn_concat]
        simp [mergedIn]
      · rw [hlogged, ignoredIn_concat]
        simp [ignoredIn]
      · exact congrArg (s.report.rejected ++ ·) hrejected
      · exact congrArg (s.report.ignored + · + report.ignored) hignored
    -- it was refused: none is
    · intro e herror
      cases a with
      | ok report => cases herror
      | error e' =>
        exact ⟨rfl, ⟨congrArg (s.report.rejected ++ ·) hrejected, congrArg (s.report.ignored + ·) hignored⟩, e', hlogged⟩
  -- nothing to merge, so the vault is not called
  · next hempty =>
    have hnil : page.filterMap (batchChange E roster) = [] := by
      rw [← hbatch]
      simpa using hempty
    apply recordPage_ensures
    refine ⟨by rw [haccepted], ⟨rfl, rfl, by rw [hnil, List.append_nil]⟩, 0, rfl, ?_, ?_⟩
    · exact congrArg (s.report.rejected ++ ·) hrejected
    · exact congrArg (s.report.ignored + ·) hignored

/-! ## The loop -/

/-- The cursor is not below where it started, nor below where it was saved. -/
def NeverBack (start : SyncEngine) (_ : Query) (s : SyncEngine) (log : List Exchange) : Prop :=
  ∀ c ∈ start.state.cursorVal :: (savedIn log).map SyncState.cursorVal, c ≤ s.state.cursorVal

/-- Between two pages: the pages in the log were applied, and nothing else was. -/
structure Walked (E : Externals) (roster : Roster) (start : SyncEngine) (pages : List ChangeFeed) (log : List Exchange)
    (s : SyncEngine) : Prop where
  linked : Linked start.state.cursorVal pages s.state.cursorVal
  cursor : s.state.cursor = (pages.getLast?.map endOf).or start.state.cursor
  state : s.state = { start.state.recordAll E ((appliedOf pages).filterMap (acceptChange E roster)) with
    cursor := s.state.cursor }
  accepted : acceptedIn log = pages
  asked : (askedIn log).length = pages.length + halvingsIn log
  saved : (savedIn log).map SyncState.cursorVal = pages.map fun feed => (endOf feed).val
  merged : mergedIn log = (appliedOf pages).filterMap (batchChange E roster)
  rejected : s.report.rejected = start.report.rejected ++ (appliedOf pages).filterMap (rejectChange E roster)
  ignored : s.report.ignored = start.report.ignored + (appliedOf pages).countP (ignoresChange E roster) + ignoredIn log

/-- Where a pull ends: `pages` were applied and the vault refused what `rest` has, if it has anything. -/
structure Ended (E : Externals) (roster : Roster) (start : SyncEngine) (pages rest : List ChangeFeed) (log : List Exchange)
    (s : SyncEngine) : Prop where
  linked : Linked start.state.cursorVal pages s.state.cursorVal
  cursor : s.state.cursor = (pages.getLast?.map endOf).or start.state.cursor
  state : s.state = { start.state.recordAll E ((appliedOf pages).filterMap (acceptChange E roster)) with
    cursor := s.state.cursor }
  accepted : acceptedIn log = pages ++ rest
  few : (pages ++ rest).length ≤ MAX_PAGES_PER_SYNC
  halvings : halvingsIn log ≤ Nat.log2 start.pageLimit
  asked : (askedIn log).length ≤ (pages ++ rest).length + halvingsIn log + 1
  saved : (savedIn log).map SyncState.cursorVal = pages.map fun feed => (endOf feed).val
  merged : mergedIn log = (appliedOf pages).filterMap (batchChange E roster)
  rejected : start.report.rejected ++ (appliedOf pages).filterMap (rejectChange E roster) <+: s.report.rejected
  ignored : start.report.ignored + (appliedOf pages).countP (ignoresChange E roster) + ignoredIn log ≤ s.report.ignored
  refused : ∀ feed ∈ rest, rest.length = 1 ∧ (∀ change ∈ feed.changes, s.state.cursorVal < change.seq.val) ∧
    ∃ e, ⟨.mergeRemote ((sliceOf feed).filterMap (batchChange E roster)), .error e⟩ ∈ log

namespace Walked

variable {start s s' : SyncEngine} {pages : List ChangeFeed} {log log' : List Exchange}

theorem neverBack (h : Walked E roster start pages log s) (q : Query) (hs : s'.state = s.state) :
    NeverBack start q s' log := by
  intro c hc
  rw [h.saved] at hc
  rw [hs]
  exact h.linked.ends.2 c hc

theorem ended (h : Walked E roster start pages log s) (hfew : pages.length ≤ MAX_PAGES_PER_SYNC)
    (hhalvings : halvingsIn log ≤ Nat.log2 start.pageLimit) : Ended E roster start pages [] log s where
  linked := h.linked
  cursor := h.cursor
  state := h.state
  accepted := by rw [h.accepted, List.append_nil]
  few := by rwa [List.append_nil]
  halvings := hhalvings
  asked := by rw [h.asked, List.append_nil]; omega
  saved := h.saved
  merged := h.merged
  rejected := h.rejected ▸ List.prefix_rfl
  ignored := h.ignored.ge
  refused := by simp

theorem stopped {since : Option I64} {limit : Nat} {a : Answer (.send (.changes since limit))} {q : Asked}
    (h : Walked E roster start pages log s) (hfew : pages.length ≤ MAX_PAGES_PER_SYNC)
    (hhalvings : halvingsIn log ≤ Nat.log2 start.pageLimit)
    (hq : q = ⟨(since.map Subtype.val).getD 0, limit, a.bind readChanges⟩) (hnone : q.accepted = none)
    (hwhole : q.halves = false) (hstate : s'.state = s.state) (hrejected : s'.report.rejected = s.report.rejected)
    (hignored : s'.report.ignored = s.report.ignored) :
    Ended E roster start pages [] (log ++ [⟨.send (.changes since limit), a⟩]) s' := by
  have hasked : askedIn [⟨.send (.changes since limit), a⟩] = [q] := by
    rw [hq]
    rfl
  have hhalf : halvingsIn (log ++ [⟨.send (.changes since limit), a⟩]) = halvingsIn log := by
    rw [halvingsIn_concat]
    simp [halvingsIn, hasked, hwhole]
  exact {
    linked := by rw [hstate]; exact h.linked
    cursor := by rw [hstate]; exact h.cursor
    state := by rw [hstate]; exact h.state
    accepted := by
      rw [acceptedIn_concat, h.accepted]
      simp [acceptedIn, hasked, hnone]
    few := by rwa [List.append_nil]
    halvings := by rwa [hhalf]
    asked := by
      rw [askedIn_concat, hasked, List.length_append, h.asked, hhalf, List.append_nil]
      simp
    saved := by
      rw [savedIn_concat]
      exact (congrArg _ (List.append_nil _)).trans h.saved
    merged := by
      rw [mergedIn_concat]
      exact (List.append_nil _).trans h.merged
    rejected := by rw [hrejected, h.rejected]
    ignored := by
      rw [hignored, h.ignored, ignoredIn_concat]
      exact le_rfl
    refused := by simp }

theorem halved {since : Option I64} {limit : Nat} {a : Answer (.send (.changes since limit))} {e : SyncError}
    (h : Walked E roster start pages log s) (ha : a.bind readChanges = .error e) (hlarge : e.pageTooLarge = true)
    (hlimit : 1 < limit) :
    Walked E roster start pages (log ++ [⟨.send (.changes since limit), a⟩]) s ∧
      halvingsIn (log ++ [⟨.send (.changes since limit), a⟩]) = halvingsIn log + 1 := by
  have hasked : askedIn [⟨.send (.changes since limit), a⟩] = [⟨(since.map Subtype.val).getD 0, limit, .error e⟩] := by
    rw [← ha]
    rfl
  have hhalf : halvingsIn (log ++ [⟨.send (.changes since limit), a⟩]) = halvingsIn log + 1 := by
    rw [halvingsIn_concat]
    simp [halvingsIn, hasked, Asked.halves, hlarge, hlimit]
  refine ⟨?_, hhalf⟩
  exact { h with
    accepted := by
      rw [acceptedIn_concat, h.accepted]
      simp [acceptedIn, hasked, Asked.accepted]
    asked := by
      rw [askedIn_concat, hasked, List.length_append, h.asked, hhalf]
      simp
      omega
    saved := by
      rw [savedIn_concat]
      exact (congrArg _ (List.append_nil _)).trans h.saved
    merged := by
      rw [mergedIn_concat]
      exact (List.append_nil _).trans h.merged
    ignored := by
      rw [h.ignored, ignoredIn_concat]
      rfl }

end Walked

/-- A page asked for and accepted, in the log. -/
structure Came (feed : ChangeFeed) (log log' : List Exchange) : Prop where
  accepted : acceptedIn log' = acceptedIn log ++ [feed]
  halvings : halvingsIn log' = halvingsIn log
  asked : (askedIn log').length = (askedIn log).length + 1
  saved : savedIn log' = savedIn log
  merged : mergedIn log' = mergedIn log
  ignored : ignoredIn log' = ignoredIn log

theorem came {since : Option I64} {limit : Nat} {a : Answer (.send (.changes since limit))} {feed : ChangeFeed}
    (ha : a.bind readChanges = .ok feed) (hcheck : checkPage ((since.map Subtype.val).getD 0) feed = .ok ())
    (log : List Exchange) : Came feed log (log ++ [⟨.send (.changes since limit), a⟩]) := by
  have hasked : askedIn [⟨.send (.changes since limit), a⟩] = [⟨(since.map Subtype.val).getD 0, limit, .ok feed⟩] := by
    rw [← ha]
    rfl
  have hhalf : halvingsIn [⟨.send (.changes since limit), a⟩] = 0 := by
    simp [halvingsIn, hasked, Asked.halves]
  refine ⟨?_, by rw [halvingsIn_concat, hhalf]; rfl, by rw [askedIn_concat, hasked, List.length_append]; rfl, ?_, ?_, ?_⟩
  · have haccepted : Asked.accepted ⟨(since.map Subtype.val).getD 0, limit, .ok feed⟩ = some feed := by
      unfold Asked.accepted
      dsimp only
      rw [hcheck]
    rw [acceptedIn_concat]
    unfold acceptedIn
    rw [hasked, List.filterMap_cons_some haccepted]
    rfl
  · rw [savedIn_concat]
    exact List.append_nil _
  · rw [mergedIn_concat]
    exact List.append_nil _
  · rw [ignoredIn_concat]
    rfl

theorem recordAll_cursor (accepted : List (FeedChange × Option EnvelopeKind)) (cursor : Option I64) :
    ∀ state : SyncState, ({ state with cursor := cursor } : SyncState).recordAll E accepted =
      { state.recordAll E accepted with cursor := cursor } := by
  induction accepted with
  | nil => exact fun _ => rfl
  | cons p rest ih => exact fun state => ih (state.record E p.1 p.2)

namespace Walked

variable {start s s₂ : SyncEngine} {pages : List ChangeFeed} {log log₁ log₂ : List Exchange} {feed : ChangeFeed}

/-- A page is accepted, applied, and the cursor moved and saved. -/
theorem page {more : Nat} (h : Walked E roster start pages log s)
    (hopen : ∀ p ∈ pages, haltsAt p = false) (hordered : feed.Ordered)
    (hcheck : checkPage s.state.cursorVal feed = .ok ()) (hcame : Came feed log log₁)
    (hbatched : Batched ((sliceOf feed).filterMap (batchChange E roster)) log₁ log₂)
    (hmore : ignoredIn log₂ = ignoredIn log₁ + more)
    (hstate : s₂.state = s.state.recordAll E ((sliceOf feed).filterMap (acceptChange E roster)))
    (hreported : Reported E roster (sliceOf feed) more s.report s₂.report)
    (a : Answer (.save { s₂.state with cursor := some (endOf feed) })) :
    Walked E roster start (pages ++ [feed]) (log₂ ++ [⟨.save { s₂.state with cursor := some (endOf feed) }, a⟩])
      { s₂ with state := { s₂.state with cursor := some (endOf feed) } } := by
  have haccepted : acceptedIn log₂ = acceptedIn log₁ := congrArg (List.filterMap Asked.accepted) hbatched.asked
  have hhalvings : halvingsIn log₂ = halvingsIn log₁ := congrArg (List.countP Asked.halves) hbatched.asked
  exact {
    linked := h.linked.page hopen hordered hcheck
    cursor := by simp
    state := by
      rw [hstate, h.state, recordAll_cursor, appliedOf_concat, List.filterMap_append]
      unfold SyncState.recordAll
      rw [List.foldl_append]
    accepted := by
      rw [acceptedIn_concat, haccepted, hcame.accepted, h.accepted]
      exact List.append_nil _
    asked := by
      rw [askedIn_concat, halvingsIn_concat, hhalvings, hcame.halvings, List.length_append, hbatched.asked, hcame.asked,
        h.asked, List.length_append]
      simp [askedIn, halvingsIn]
      omega
    saved := by
      rw [savedIn_concat, hbatched.saved, hcame.saved, List.map_append, List.map_append, h.saved]
      simp [savedIn, SyncState.cursorVal]
    merged := by
      rw [mergedIn_concat, hbatched.merged, hcame.merged, h.merged, appliedOf_concat, List.filterMap_append]
      simp [mergedIn]
    rejected := by
      rw [hreported.rejected, h.rejected, appliedOf_concat, List.filterMap_append, List.append_assoc]
    ignored := by
      rw [hreported.ignored, h.ignored, ignoredIn_concat, hmore, hcame.ignored, appliedOf_concat,
        List.countP_append]
      simp [ignoredIn]
      omega }

/-- A page is accepted and the vault refuses its batch. -/
theorem unmerged {e : VaultError} (h : Walked E roster start pages log s) (hfew : pages.length < MAX_PAGES_PER_SYNC)
    (hhalvings : halvingsIn log ≤ Nat.log2 start.pageLimit) (hcheck : checkPage s.state.cursorVal feed = .ok ())
    (hcame : Came feed log log₁) (hstate : s₂.state = s.state)
    (hreported : Reported E roster (sliceOf feed) 0 s.report s₂.report)
    (hlog : log₂ = log₁ ++ [⟨.mergeRemote ((sliceOf feed).filterMap (batchChange E roster)), .error e⟩]) :
    Ended E roster start pages [feed] log₂ s₂ := by
  subst hlog
  obtain ⟨habove, -⟩ := checkPage_eq_ok.mp hcheck
  exact {
    linked := by rw [hstate]; exact h.linked
    cursor := by rw [hstate]; exact h.cursor
    state := by rw [hstate]; exact h.state
    accepted := by
      rw [acceptedIn_concat, hcame.accepted, h.accepted]
      exact List.append_nil _
    few := by
      rw [List.length_append]
      exact hfew
    halvings := by
      rw [halvingsIn_concat, hcame.halvings]
      exact hhalvings
    asked := by
      rw [askedIn_concat, halvingsIn_concat, hcame.halvings, List.length_append, hcame.asked, h.asked, List.length_append]
      simp [askedIn, halvingsIn, Nat.add_right_comm]
    saved := by
      rw [savedIn_concat, hcame.saved]
      exact (congrArg _ (List.append_nil _)).trans h.saved
    merged := by
      rw [mergedIn_concat, hcame.merged]
      exact (List.append_nil _).trans h.merged
    rejected := by
      rw [hreported.rejected, h.rejected]
      exact List.prefix_append ..
    ignored := by
      rw [hreported.ignored, h.ignored, ignoredIn_concat, hcame.ignored]
      simp [ignoredIn]
    refused := by
      intro p hp
      rw [List.mem_singleton] at hp
      subst hp
      exact ⟨rfl, by rw [hstate]; exact habove, e, by simp⟩ }

end Walked

/-! ## One pull -/

theorem log2_half {limit : Nat} (h : 1 < limit) : Nat.log2 (max (limit / 2) 1) + 1 = Nat.log2 limit := by
  rw [max_eq_left (by omega), Nat.log2_def limit, if_pos (by omega)]

/-- The loop ends where a pull may end, from between two pages. -/
theorem pullLoop_ended (start : SyncEngine) (left limit : Nat) (s : SyncEngine) (log : List Exchange)
    (pages : List ChangeFeed) (h : Walked E roster start pages log s) (hopen : ∀ p ∈ pages, haltsAt p = false)
    (hleft : pages.length + left = MAX_PAGES_PER_SYNC) (hlimit : 1 ≤ limit)
    (hhalvings : halvingsIn log + Nat.log2 limit ≤ Nat.log2 start.pageLimit) :
    (pullLoop E roster left limit).Ensures Eq Logged (NeverBack start) s log
      (fun _ s' log' => ∃ pages, Ended E roster start pages [] log' s')
      (fun _ s' log' => ∃ pages rest, Ended E roster start pages rest log' s') := by
  match left with
  | 0 =>
    rw [pullLoop]
    exact Prog.Ensures.throw ⟨pages, [], h.ended (by omega) (by omega)⟩
  | left + 1 =>
    have hmax : max limit 1 = limit := max_eq_left hlimit
    rw [pullLoop]
    apply Prog.Ensures.bind
    apply Prog.Ensures.get
    apply Prog.Ensures.bind
    apply Prog.Ensures.attempt
    -- the page is asked for
    apply (changes_logged (h.neverBack _ rfl)).mono
    · intro feed s₁ log₁ hcame
      obtain ⟨rfl, a, ha, hlog₁⟩ := hcame
      apply Prog.Ensures.bind
      apply Prog.Ensures.modify
      apply Prog.Ensures.bind
      apply Prog.Ensures.ofExcept
      · intro _ hcheck
        have hcame := came ha hcheck log
        rw [← hlog₁] at hcame
        obtain ⟨response, -, hread⟩ := bind_eq_ok.mp ha
        obtain ⟨hordered, -⟩ := ordered_of_readChanges hread
        rcases hhalt : haltPage feed with ⟨halted, page, nextCursor⟩
        have hslice : sliceOf feed = page := by rw [sliceOf, hhalt]
        have hend : endOf feed = nextCursor := by rw [endOf, hhalt]
        have hhalted : haltsAt feed = halted := by rw [haltsAt, hhalt]
        subst hslice hend hhalted
        dsimp only
        apply Prog.Ensures.bind
        -- it ascends past the cursor: its slice is applied, and then the cursor moves to its end
        apply (applyPage_logged (sliceOf feed) ?_).mono
        · intro _ s₂ log₂ happlied
          obtain ⟨hstate, hbatched, more, hmore, hreported⟩ := happlied
          apply Prog.Ensures.bind
          apply Prog.Ensures.modify
          have hwalked : ∀ a, Walked E roster start (pages ++ [feed])
              (log₂ ++ [⟨.save { s₂.state with cursor := some (endOf feed) }, a⟩])
              { s₂ with state := { s₂.state with cursor := some (endOf feed) } } :=
            h.page hopen hordered hcheck hcame hbatched hmore hstate ⟨hreported.rejected, hreported.ignored⟩
          have hfew : (pages ++ [feed]).length ≤ MAX_PAGES_PER_SYNC := by
            rw [List.length_append, List.length_singleton]
            omega
          have hcount : ∀ a, halvingsIn (log₂ ++ [⟨.save { s₂.state with cursor := some (endOf feed) }, a⟩]) =
              halvingsIn log := by
            intro a
            rw [halvingsIn_concat, ← hcame.halvings]
            exact congrArg (List.countP Asked.halves) hbatched.asked
          -- the cursor saved is past every cursor saved before it
          have hsaves : NeverBack start (.save { s₂.state with cursor := some (endOf feed) })
              { s₂ with state := { s₂.state with cursor := some (endOf feed) } } log₂ := by
            intro c hc
            have hback := (hwalked (.ok ())).neverBack (.epoch) rfl
            refine hback c ?_
            rw [savedIn_concat, List.map_append, ← List.cons_append]
            exact List.mem_append_left _ hc
          apply Prog.Ensures.bind
          apply (save_logged hsaves).mono
          · intro _ s₃ log₃ hsaved
            obtain ⟨rfl, a, rfl⟩ := hsaved
            have hended := (hwalked a).ended hfew (by rw [hcount]; omega)
            dsimp only
            split
            · exact Prog.Ensures.pure ⟨_, hended⟩
            · next hwhole =>
              split
              · exact Prog.Ensures.pure ⟨_, hended⟩
              · apply pullLoop_ended start left limit _ _ (pages ++ [feed]) (hwalked a) ?_ ?_ hlimit
                  (by rw [hcount]; exact hhalvings)
                · intro p hp
                  obtain hp | hp := List.mem_append.mp hp
                  · exact hopen p hp
                  · rw [List.mem_singleton.mp hp]
                    simpa using hwhole
                · rw [List.length_append, List.length_singleton]
                  omega
          · intro e s₃ log₃ hfailed
            obtain ⟨rfl, a, rfl⟩ := hfailed
            exact ⟨pages ++ [feed], [], (hwalked a).ended hfew (by rw [hcount]; omega)⟩
        -- the vault refuses the batch: nothing of the page counts, and the cursor stays
        · intro e s₂ log₂ hrefused
          obtain ⟨hstate, hreported, e', hlog₂⟩ := hrefused
          exact ⟨pages, [feed], h.unmerged (by omega) (by omega) hcheck hcame hstate
            ⟨hreported.rejected, hreported.ignored⟩ hlog₂⟩
        · intro batch s' hs'
          have hback := h.neverBack (.mergeRemote batch) hs'
          unfold NeverBack at hback ⊢
          rw [hcame.saved]
          exact hback
      -- the page does not ascend: it is refused before anything of it is applied
      · intro e hcheck
        subst hlog₁
        refine ⟨pages, [], h.stopped (by omega) (by omega) rfl ?_ ?_ rfl rfl rfl⟩
        · rw [ha]
          unfold Asked.accepted
          dsimp only
          rw [show checkPage _ feed = .error e from hcheck]
        · rw [ha]
          rfl
    · intro e s₁ log₁ hfailed
      obtain ⟨rfl, a, ha, rfl⟩ := hfailed
      dsimp only
      split
      -- asked again for half as much: one halving fewer is left
      · next hsmaller =>
        obtain ⟨hlarge, hmany⟩ := hsmaller
        obtain ⟨hwalked, hcount⟩ := h.halved ha hlarge (hmax.symm ▸ hmany)
        have hhalf := log2_half hmany
        exact pullLoop_ended start (left + 1) (max (limit / 2) 1) _ _ pages hwalked hopen hleft (le_max_right ..)
          (by omega)
      · next hlast =>
        refine Prog.Ensures.throw ⟨pages, [], h.stopped (by omega) (by omega) rfl ?_ ?_ rfl rfl rfl⟩
        · rw [ha]
          rfl
        · rw [ha]
          unfold Asked.halves
          dsimp only
          rw [hmax]
          simpa using hlast
termination_by left + limit

/-- The changes that accepted pages delivered, up to the cursor. -/
def deliveredIn (log : List Exchange) (cursor : Int) : List FeedChange :=
  (deliveredBy (acceptedIn log)).filter (fun change => change.seq.val ≤ cursor)

/-- What one pull did, from where it started to where it ended. -/
structure PullSafe (E : Externals) (roster : Roster) (start : SyncEngine) (log : List Exchange) (s : SyncEngine) :
    Prop where
  pages : (acceptedIn log).length ≤ MAX_PAGES_PER_SYNC
  halvings : halvingsIn log ≤ Nat.log2 start.pageLimit
  asked : (askedIn log).length ≤ (acceptedIn log).length + halvingsIn log + 1
  /-- The cursor never comes down, as it is saved or as it is left. -/
  cursors : (start.state.cursorVal :: (savedIn log).map SyncState.cursorVal ++ [s.state.cursorVal]).Pairwise (· ≤ ·)
  /-- What was delivered up to the new cursor is above the old one, and no change is delivered twice. -/
  above : ∀ change ∈ deliveredIn log s.state.cursorVal, start.state.cursorVal < change.seq.val
  once : (seqsOf (deliveredIn log s.state.cursorVal)).Pairwise (· < ·)
  /-- The vault merged what is to be merged of it, and nothing else. -/
  merged : mergedIn log = (deliveredIn log s.state.cursorVal).filterMap (batchChange E roster)
  /-- What is accepted of it is recorded, and nothing else changes in the state but the cursor. -/
  recorded : s.state = { start.state.recordAll E
    ((deliveredIn log s.state.cursorVal).filterMap (acceptChange E roster)) with cursor := s.state.cursor }
  rejected : start.report.rejected ++ (deliveredIn log s.state.cursorVal).filterMap (rejectChange E roster) <+:
    s.report.rejected
  ignored : start.report.ignored + (deliveredIn log s.state.cursorVal).countP (ignoresChange E roster) + ignoredIn log ≤
    s.report.ignored
  /-- The cursor stands at the end of the last page that was applied: any but one whose batch the vault refused. -/
  stands : ∃ applied rest, acceptedIn log = applied ++ rest ∧
    s.state.cursor = (applied.getLast?.map endOf).or start.state.cursor ∧
    ∀ feed ∈ rest, rest.length = 1 ∧ (∀ change ∈ feed.changes, s.state.cursorVal < change.seq.val) ∧
      ∃ e, ⟨.mergeRemote ((sliceOf feed).filterMap (batchChange E roster)), .error e⟩ ∈ log

theorem Ended.safe {start s : SyncEngine} {pages rest : List ChangeFeed} {log : List Exchange}
    (h : Ended E roster start pages rest log s) : PullSafe E roster start log s := by
  obtain ⟨-, hdelivered, hwithin, hascends⟩ := h.linked.applied
  -- a page the vault refused lies past the cursor
  have hrest : ∀ change ∈ deliveredBy rest, ¬ change.seq.val ≤ s.state.cursorVal := by
    intro change hmem
    obtain ⟨feed, hfeed, hchange⟩ := List.mem_flatMap.mp hmem
    exact not_le.mpr ((h.refused feed hfeed).2.1 change hchange)
  have happlied : deliveredIn log s.state.cursorVal = appliedOf pages := by
    calc deliveredIn log s.state.cursorVal
        = (deliveredBy pages ++ deliveredBy rest).filter (fun change => change.seq.val ≤ s.state.cursorVal) := by
          rw [deliveredIn, h.accepted, deliveredBy, List.flatMap_append]
          rfl
      _ = appliedOf pages ++ (deliveredBy rest).filter (fun change => change.seq.val ≤ s.state.cursorVal) := by
          rw [List.filter_append, hdelivered]
      _ = appliedOf pages := by
          rw [List.filter_eq_nil_iff.mpr (by simpa using hrest), List.append_nil]
  obtain ⟨hends, hlast⟩ := h.linked.ends
  exact {
    pages := by rw [h.accepted]; exact h.few
    halvings := h.halvings
    asked := by rw [h.accepted]; exact h.asked
    cursors := by
      rw [h.saved, List.pairwise_append]
      refine ⟨hends, by simp, ?_⟩
      intro c hc d hd
      rw [List.mem_singleton.mp hd]
      exact hlast c hc
    above := by
      rw [happlied]
      exact fun change hmem => (hwithin change hmem).1
    once := by rw [happlied]; exact hascends
    merged := by rw [happlied]; exact h.merged
    recorded := by rw [happlied]; exact h.state
    rejected := by rw [happlied]; exact h.rejected
    ignored := by rw [happlied]; exact h.ignored
    stands := ⟨pages, rest, h.accepted, h.cursor, h.refused⟩ }

/-- A pull is safe against any server, and any vault and state store: whatever it is told, it ends after the pages it may
accept and the times the limit can be halved; the cursor does not come down; what was delivered up to it was in order,
each change once, and what became of each is in the log, the state and the report; one of four things becomes of every
change; and a page that does not ascend from above the cursor, or goes on from below its last change, is not accepted. -/
theorem pull_safe (E : Externals) (roster : Roster) (start : SyncEngine) :
    (pull E roster).Ensures Eq Logged (NeverBack start) start []
      (fun _ s log => PullSafe E roster start log s ∧
        s.state.cursor = ((acceptedIn log).getLast?.map endOf).or start.state.cursor)
      (fun _ s log => PullSafe E roster start log s) ∧
    (∀ change, Fate E roster change) ∧
    ∀ (since : Option I64) (limit status : Nat) (raw : RawBody), ¬ raw.AscendsFrom ((since.map Subtype.val).getD 0) →
      acceptedIn [⟨.send (.changes since limit), .ok ⟨status, .fields raw⟩⟩] = [] := by
  refine ⟨?_, fate E roster, ?_⟩
  -- before the first page nothing was asked, saved or merged
  · have hstart : Walked E roster start [] [] start := {
      linked := .nil
      cursor := by simp
      state := rfl
      accepted := rfl
      asked := rfl
      saved := rfl
      merged := rfl
      rejected := (List.append_nil _).symm
      ignored := rfl }
    have hlog : halvingsIn [] + Nat.log2 (max start.pageLimit 1) ≤ Nat.log2 start.pageLimit := by
      have hzero : halvingsIn [] = 0 := rfl
      obtain hlow | hhigh := Nat.lt_or_ge start.pageLimit 1
      · rw [hzero, show start.pageLimit = 0 by omega]
        decide
      · rw [hzero, max_eq_left hhigh, Nat.zero_add]
    apply Prog.Ensures.bind
    apply Prog.Ensures.get
    apply (pullLoop_ended start MAX_PAGES_PER_SYNC (max start.pageLimit 1) start [] [] hstart (by simp) (by simp)
      (le_max_right ..) hlog).mono
    · intro _ s log h
      obtain ⟨pages, h⟩ := h
      refine ⟨h.safe, ?_⟩
      rw [h.accepted, List.append_nil]
      exact h.cursor
    · intro e s log h
      obtain ⟨pages, rest, h⟩ := h
      exact h.safe
  · intro since limit status raw hnot
    rw [List.eq_nil_iff_forall_not_mem]
    intro feed hmem
    obtain ⟨q, hq, haccepted⟩ := List.mem_filterMap.mp hmem
    -- a page that does not ascend past the cursor is not accepted, whatever answer carried it
    have hq' : q = ⟨(since.map Subtype.val).getD 0, limit, readChanges ⟨status, .fields raw⟩⟩ := by
      simpa [askedIn, Except.bind] using hq
    subst hq'
    unfold Asked.accepted at haccepted
    split at haccepted
    · cases haccepted
    · next hread =>
      split at haccepted
      · cases haccepted
      · next hcheck =>
        obtain ⟨raw', hbody, hascends⟩ := ascendsFrom_of_accepted hread hcheck
        cases hbody
        exact hnot hascends

end Misty
