import Misty.Sync.Overwrite
import Misty.Sync.Pull
import Misty.Vault.Skipped

/- What is not queued and not past the cursor is the same on both sides.

   Any write of the server takes a number no row has had, so the rows up to a cursor
   are still the ones a page showed there, or they are gone (`Server.Extends`). A state
   that is whole therefore knows each of them as it is: by its version and fingerprint
   while it has bytes, without a fingerprint once they are reclaimed
   (`SyncState.Tracks`). Only a page moves the cursor, and it records what it passes; a
   write that is refused is about a row past the cursor, since on any other the version
   the engine sends is the row's.

   What is proved:
     1. `unqueued_rows_agree` — wherever a run can be stopped, a row the server has up
        to the cursor, of bytes the device's rosters take, is the vault's own unless
        `pending` lists its id.
     2. `quiet_devices_agree` — devices with nothing queued and nothing past their
        cursors hold the same rows as one honest server, so they hold the same items
        and groups. -/
namespace Misty

open LawfulStore (view)

/-! ## A server that moves on -/

/-- Numbers go up, and a row under an old number is the row it was. -/
structure Server.Extends (s server : Server) : Prop where
  nextSeq : s.nextSeq ≤ server.nextSeq
  old : ∀ (id : ItemId) (row : ServerRow), server.rows[id]? = some row → row.seq < s.nextSeq →
    s.rows[id]? = some row

namespace Server.Extends

variable {s t u : Server}

theorem refl (s : Server) : s.Extends s := ⟨le_rfl, fun _ _ hrow _ => hrow⟩

theorem trans (h : s.Extends t) (h' : t.Extends u) : s.Extends u where
  nextSeq := h.nextSeq.trans h'.nextSeq
  old id row hrow hlt := h.old id row (h'.old id row hrow (hlt.trans_le h.nextSeq)) hlt

theorem store (s : Server) (itemId : ItemId) (version : Nat) (envelope : Option Bytes) (now : Int)
    (hversion : 0 < version) : s.Extends (s.store itemId version envelope now hversion) where
  nextSeq := by simp
  old id row hrow hlt := by
    rw [Server.rows_store] at hrow
    split at hrow
    · -- the row written has the next number
      cases hrow
      exact absurd hlt (lt_irrefl _)
    · exact hrow

theorem sweep (s : Server) (horizon : Int) : s.Extends (s.sweep horizon) where
  nextSeq := le_rfl
  old id row hrow _ := by
    rw [Server.rows_sweep] at hrow
    exact (Option.filter_eq_some_iff.mp hrow).1

theorem put {itemId : ItemId} {precondition : Nat} {envelope : Bytes} {now : Int} {outcome : WriteOutcome}
    (h : s.Put itemId precondition envelope now outcome t) : s.Extends t := by
  cases h with
  | written _ _ _ => exact .store ..
  | conflict _ | full _ _ => exact .refl s

theorem delete {itemId : ItemId} {precondition : Nat} {now : Int} {outcome : WriteOutcome}
    (h : s.Delete itemId precondition now outcome t) : s.Extends t := by
  cases h with
  | missing _ | conflict _ _ | again _ _ _ => exact .refl s
  | reclaimed _ _ _ => exact .store ..

end Server.Extends

variable {S : Type} [LawfulStore S] {E : Externals} {config : ServerConfig} {others : Request → Prop}

theorem respond_extends (now : Int) (server : Server) (request : Request) :
    server.Extends (respond config now server request).2 := by
  cases request with
  | changes since limit => exact .refl server
  | put itemId envelope version =>
    show server.Extends (servePut config itemId envelope version now server).2
    unfold servePut
    cases putCondition version with
    | error error => exact .refl server
    | ok precondition =>
      dsimp only
      cases decodeBlob config.maxEnvelopeBytes envelope with
      | error error => exact .refl server
      | ok envelope =>
        dsimp only
        cases hput : server.putItem config.limits itemId precondition envelope now with
        | error e => exact .refl server
        | ok r => exact .put (Server.put_of_putItem hput)
  | delete itemId version =>
    show server.Extends (serveDelete itemId version now server).2
    unfold serveDelete
    cases deleteCondition version with
    | error error => exact .refl server
    | ok precondition =>
      dsimp only
      split
      · exact .refl server
      · cases hdelete : server.deleteItem itemId precondition now with
        | error e => exact .refl server
        | ok r => exact .delete (Server.delete_of_deleteItem hdelete)

theorem Service.Serves.extends {request : Request} {x x' : Service} {a : Except SyncError Response}
    (h : Service.Serves config request x a x') : x.server.Extends x'.server := by
  cases h with
  | answered now => exact respond_extends ..
  | lost now error => exact respond_extends ..
  | refused error => exact .refl _

theorem Service.Moves.extends {x x' : Service} (h : Service.Moves config others x x') : x.server.Extends x'.server := by
  cases h with
  | served now _ => exact respond_extends ..
  | swept horizon => exact .sweep ..

variable {C : Permit S Service} {st : SyncState} {w w' : World S Service}

theorem WorldStep.extends (h : WorldStep E (honest config others) C st w w') :
    w.peer.server.Extends w'.peer.server := by
  cases h with
  | moved hm =>
    obtain ⟨x, hmoves, rfl, -⟩ := hm
    exact Service.Moves.extends hmoves
  | read _ | edited _ | rotated _ _ _ | noted => exact .refl _
  | sent _ hserved =>
    obtain ⟨x, hserve, rfl, -⟩ := hserved
    cases ‹Except SyncError Response› with
    | ok response => exact Service.Serves.extends hserve
    | error e => exact Service.Serves.extends hserve
  | lost _ hserve _ => exact Service.Serves.extends hserve
  | merged hp =>
    obtain ⟨⟨amb, hanswer⟩, -⟩ := hp
    unfold World.merge at hanswer
    split at hanswer <;> cases hanswer <;> exact .refl _

theorem extends_of_steps (h : Relation.ReflTransGen (WorldStep E (honest config others) C st) w w') :
    w.peer.server.Extends w'.peer.server := by
  induction h with
  | refl => exact .refl _
  | tail _ hstep ih => exact ih.trans hstep.extends

/-! ## What a state knows of the rows up to its cursor -/

/-- The steps of a device that syncs under these rosters. -/
def Permit.under {S X : Type} (rosters : Set Roster) : Permit S X := fun _ event _ =>
  ∀ roster, event = .began (.syncOnce roster) → roster ∈ rosters

variable (E) in
/-- Each of the rosters lets these bytes through. -/
def Takes (rosters : Set Roster) (id : ItemId) (row : ServerRow) : Prop :=
  ∀ bytes, row.envelope = some bytes → ∀ roster ∈ rosters, ∃ kind, verifyChange E roster id bytes = .ok kind

variable (E) in
/-- A row is known as it is. -/
inductive SyncState.Knows (self : SyncState) (id : ItemId) (row : ServerRow) : Prop
  | held {bytes : Bytes} {known : KnownRow} {env : Envelope} : row.envelope = some bytes →
      self.known[id]? = some known → known.fingerprint = some (fingerprint E bytes) →
      known.version = some (.of row.version) → Envelope.parse bytes = .ok env →
      known.kind = env.header.kind.asU8 → Knows self id row
  | reclaimed : row.envelope = none → (∀ known, self.known[id]? = some known → known.fingerprint = none) →
      Knows self id row

variable (E) in
/-- The cursor is a number handed out, and the rows up to it are known. -/
structure SyncState.Tracks (rosters : Set Roster) (st : SyncState) (server : Server) : Prop where
  below : st.cursorVal < server.nextSeq
  knows : ∀ (id : ItemId) (row : ServerRow), server.rows[id]? = some row → (row.seq : Int) ≤ st.cursorVal →
    Takes E rosters id row → st.Knows E id row

variable {rosters : Set Roster}

theorem SyncState.Knows.congr {s t : SyncState} {id : ItemId} {row : ServerRow} (h : s.Knows E id row)
    (hsame : t.known[id]? = s.known[id]?) : t.Knows E id row := by
  cases h with
  | held hbytes hknown hfp hversion hparse hkind => exact .held hbytes (hsame.trans hknown) hfp hversion hparse hkind
  | reclaimed hnone hfp => exact .reclaimed hnone fun known hknown => hfp known (hsame.symm.trans hknown)

namespace SyncState.Tracks

variable {s t : SyncState} {server server' : Server}

theorem start (server : Server) : SyncState.new.Tracks E rosters server where
  below := by
    have hstarted := server.started
    show (0 : Int) < server.nextSeq
    omega
  knows id row hrow hle := by
    have hstamped := (server.stamped id row hrow).1
    have hle : (row.seq : Int) ≤ 0 := hle
    omega

/-- A row up to the cursor is one the server had. -/
theorem had (h : s.Tracks E rosters server) (hext : server.Extends server') {id : ItemId} {row : ServerRow}
    (hrow : server'.rows[id]? = some row) (hle : (row.seq : Int) ≤ s.cursorVal) : server.rows[id]? = some row := by
  have hbelow := h.below
  exact hext.old id row hrow (by omega)

theorem extend (h : s.Tracks E rosters server) (hext : server.Extends server') : s.Tracks E rosters server' where
  below := by
    have hbelow := h.below
    have hnext := hext.nextSeq
    omega
  knows id row hrow hle := h.knows id row (h.had hext hrow hle) hle

/-- The state changed at one id, where it still knows the row. -/
theorem touch (h : s.Tracks E rosters server) (hext : server.Extends server') (hcursor : t.cursor = s.cursor)
    {itemId : ItemId} (hother : ∀ id, itemId ≠ id → t.known[id]? = s.known[id]?)
    (hknows : ∀ row, server'.rows[itemId]? = some row → (row.seq : Int) ≤ s.cursorVal →
      Takes E rosters itemId row → t.Knows E itemId row) : t.Tracks E rosters server' := by
  have hval : t.cursorVal = s.cursorVal := by
    unfold SyncState.cursorVal
    rw [hcursor]
  refine ⟨by rw [hval]; exact (h.extend hext).below, ?_⟩
  intro id row hrow hle htakes
  rw [hval] at hle
  by_cases hid : itemId = id
  · subst hid
    exact hknows row hrow hle htakes
  · exact ((h.extend hext).knows id row hrow hle htakes).congr (hother id hid)

end SyncState.Tracks

/-! ## Answers -/

section Answers

variable {id : ItemId} {bytes : Bytes} {response : Response}
  (htracks : st.Tracks E rosters w.peer.server)
  (hserved : Served (honest config others) C w (.put id bytes (st.versionOf id)) (.ok response) w')

include htracks hserved

omit [LawfulStore S] in
theorem seq_of_applied {seq : I64} {version : ServerVersion} (hread : readPut bytes response = .ok (.applied seq version))
    {row : ServerRow} (hrow : w'.peer.server.rows[id]? = some row) : st.cursorVal < row.seq := by
  obtain ⟨x, hserve, rfl, -⟩ := hserved
  cases hserve with
  | answered now =>
    obtain ⟨precondition, -, hput⟩ := putTold_of_readPut hread
    have hrow : (servePut config id bytes (st.versionOf id) now w.peer.server).2.rows[id]? = some row := hrow
    generalize (servePut config id bytes (st.versionOf id) now w.peer.server).2 = server at hput hrow
    cases hput with
    | applied _ _ =>
      rw [Server.rows_store, if_pos rfl] at hrow
      cases hrow
      exact htracks.below

omit [LawfulStore S] in
/-- A write refused is of a row past the cursor, or of one reclaimed. -/
theorem reclaimed_of_conflict {version : Option ServerVersion} {current : Option Bytes}
    (hread : readPut bytes response = .ok (.conflict version current)) {row : ServerRow}
    (hrow : w'.peer.server.rows[id]? = some row) (hle : (row.seq : Int) ≤ st.cursorVal)
    (htakes : Takes E rosters id row) : row.envelope = none ∧ current = none := by
  obtain ⟨x, hserve, rfl, -⟩ := hserved
  cases hserve with
  | answered now =>
    obtain ⟨precondition, hcondition, hput⟩ := putTold_of_readPut hread
    have hrow : (servePut config id bytes (st.versionOf id) now w.peer.server).2.rows[id]? = some row := hrow
    generalize (servePut config id bytes (st.versionOf id) now w.peer.server).2 = server at hput hrow
    generalize hout : PutOutcome.conflict version current = out at hput
    cases hput with
    | applied _ _ => cases hout
    | @conflict row' hne hrow' =>
      cases hout
      have hsame : row' = row := Option.some.inj (hrow'.symm.trans hrow)
      subst hsame
      cases htracks.knows id row' hrow' hle htakes with
      | held _ hknown _ hversion _ _ =>
        -- the condition sent is the version the row is at
        have hsent : st.versionOf id = some (.of row'.version) := by
          unfold SyncState.versionOf
          rw [hknown, Option.bind_some, hversion]
        rw [hsent] at hcondition
        exact absurd (eq_of_putCondition_of hcondition) hne
      | reclaimed hnone _ => exact ⟨hnone, hnone⟩

end Answers

omit [LawfulStore S] in
/-- Where a `DELETE` is done, the row is gone, or past the cursor, or was reclaimed before. -/
theorem reclaimed_of_deleted {id : ItemId} {version : Option ServerVersion} {response : Response}
    (htracks : st.Tracks E rosters w.peer.server)
    (hserved : Served (honest config others) C w (.delete id version) (.ok response) w')
    (hread : readDelete response = .ok ()) {row : ServerRow} (hrow : w'.peer.server.rows[id]? = some row)
    (hle : (row.seq : Int) ≤ st.cursorVal) : row.envelope = none := by
  obtain ⟨x, hserve, rfl, -⟩ := hserved
  cases hserve with
  | answered now =>
    obtain ⟨precondition, -, hdelete⟩ := deleteTold_of_readDelete hread
    have hrow : (serveDelete id version now w.peer.server).2.rows[id]? = some row := hrow
    generalize (serveDelete id version now w.peer.server).2 = server at hdelete hrow
    cases hdelete with
    | missing hnone => exact absurd (hnone.symm.trans hrow) (by simp)
    | again hrow' _ hnone =>
      rw [Option.some.inj (hrow.symm.trans hrow')]
      exact hnone
    | reclaimed _ _ _ =>
      rw [Server.rows_store, if_pos rfl] at hrow
      cases hrow
      have hbelow := htracks.below
      have hle : (w.peer.server.nextSeq : Int) ≤ st.cursorVal := hle
      omega

/-! ## A page -/

theorem endOf_le {feed : ChangeFeed} (h : feed.Ordered) : (endOf feed).val ≤ feed.nextSeq.val := by
  unfold endOf haltPage
  cases hfind : feed.changes.findIdx? isRosterChange with
  | none => exact le_rfl
  | some i =>
    have hlt : i < feed.changes.length := (List.findIdx?_eq_some_iff_getElem.mp hfind).1
    simp only [List.getElem?_eq_getElem hlt, Option.map_some, Option.getD_some]
    exact h.next _ (List.getElem_mem hlt)

theorem val_seq_of {p : ItemId × ServerRow} (h : p.2.seq < 2 ^ 48) : (FeedChange.of p).seq.val = p.2.seq := by
  have hval : (FeedChange.of p).seq.val = max (-2 ^ 63) (min (p.2.seq : Int) (2 ^ 63 - 1)) := rfl
  rw [hval]
  omega

theorem Page.eq_of_mem {server : Server} {since : Int} {limit : Nat} {feed : ChangeFeed} (h : Page server since limit feed)
    {change : FeedChange} (hchange : change ∈ feed.changes) {row : ServerRow}
    (hrow : server.rows[change.itemId]? = some row) :
    change = .of (change.itemId, row) ∧ change.seq.val = row.seq := by
  rw [h.changes] at hchange
  obtain ⟨p, hp, rfl⟩ := List.mem_map.mp hchange
  have hsame : p.2 = row := Option.some.inj ((Server.mem_changes hp).1.symm.trans hrow)
  subst hsame
  exact ⟨rfl, val_seq_of (h.small p hp)⟩

/-- A page ends where it began, or no further than a row it shows. -/
theorem Page.endOf_le {server : Server} {since : Int} {limit : Nat} {feed : ChangeFeed} (h : Page server since limit feed)
    (hordered : feed.Ordered) : (endOf feed).val ≤ since ∨
      ∃ p ∈ (server.changes since.toNat limit).1, (endOf feed).val ≤ p.2.seq := by
  have hle := Misty.endOf_le hordered
  rw [h.nextSeq] at hle
  cases hlast : (server.changes since.toNat limit).1.getLast? with
  | none => exact .inl (by simpa [hlast] using hle)
  | some p => exact .inr ⟨p, List.mem_of_getLast? hlast, by simpa [hlast] using hle⟩

theorem acceptChange_of {roster : Roster} (hroster : roster ∈ rosters) {id : ItemId} {row : ServerRow}
    (htakes : Takes E rosters id row) : ∃ kind, acceptChange E roster (.of (id, row)) = some (.of (id, row), kind) := by
  cases henv : row.envelope with
  | none => exact ⟨none, by simp [acceptChange, FeedChange.of, henv]⟩
  | some bytes =>
    obtain ⟨kind, hkind⟩ := htakes bytes henv roster hroster
    exact ⟨some kind, by simp [acceptChange, FeedChange.of, henv, hkind]⟩

theorem SyncState.Knows.of_pageRow {t : SyncState} {server : Server} {since : Int} {limit : Nat}
    {feed : ChangeFeed} {roster : Roster} (hpage : Page server since limit feed) {id : ItemId} {row : ServerRow}
    (hrow : server.rows[id]? = some row) {r : KnownRow} (hr : t.known[id]? = some r)
    (hpagerow : PageRow (E := E) st (sortPage E roster (haltPage feed).2.1).accepted id r) : t.Knows E id row := by
  cases hpagerow with
  | @change change kind byte hacc hid _ hbyte =>
    obtain ⟨hchange, hverified⟩ := accepted_of_mem hacc
    subst hid
    obtain ⟨heq, -⟩ := hpage.eq_of_mem (mem_of_mem_haltPage hchange) hrow
    have henvelope : change.envelope = row.envelope := congrArg FeedChange.envelope heq
    have hversion : change.version = some (.of row.version) := congrArg FeedChange.version heq
    cases hverified with
    | reclaimed hnone =>
      refine .reclaimed (henvelope.symm.trans hnone) ?_
      intro known hknown
      rw [← Option.some.inj (hr.symm.trans hknown)]
      simp [hnone]
    | @verified bytes kind hsome hverify =>
      obtain ⟨env, hparse, hkind⟩ := parse_of_verifyChange hverify
      refine .held (henvelope.symm.trans hsome) hr (by simp [hsome]) hversion hparse ?_
      rw [hkind]
      exact hbyte kind rfl

/-- The state a page leaves knows what it showed. -/
theorem SyncState.Tracks.page {server : Server} {limit : Nat} {feed : ChangeFeed} {roster : Roster}
    (h : st.Tracks E rosters server) (hroster : roster ∈ rosters)
    (hread : readChanges (serveChanges config st.cursor limit server) = .ok feed)
    (hcheck : checkPage st.cursorVal feed = .ok ()) : (st.page E roster feed).Tracks E rosters server := by
  obtain ⟨hordered, -⟩ := ordered_of_readChanges hread
  obtain ⟨-, hslice⟩ := slice_of_ordered hordered hcheck
  obtain ⟨habove, -⟩ := checkPage_eq_ok.mp hcheck
  have hpage : Page server st.cursorVal limit feed := page_of_readChanges hread
  have hnonneg := hpage.nonneg
  have hcursor : (st.page E roster feed).cursorVal = (endOf feed).val := rfl
  have hend := hpage.endOf_le hordered
  constructor
  · have hbelow := h.below
    rw [hcursor]
    obtain hle | ⟨p, hp, hle⟩ := hend
    · omega
    · have hstamped := (server.stamped p.1 p.2 (Server.mem_changes hp).1).2.1
      omega
  · intro id row hrow hle htakes
    rw [hcursor] at hle
    by_cases hseq : (row.seq : Int) ≤ st.cursorVal
    · -- the page is about later rows
      refine (h.knows id row hrow hseq htakes).congr ?_
      obtain ⟨⟨q, hq, rfl⟩, -⟩ | ⟨-, hsame⟩ :=
        known_recordAll (E := E) st (sortPage E roster (haltPage feed).2.1).accepted id
      · have hmem := mem_of_mem_haltPage (accepted_of_mem hq).1
        have hlater := habove _ hmem
        rw [(hpage.eq_of_mem hmem hrow).2] at hlater
        omega
      · exact hsame
    · -- the page has the row, and records it
      have hmem : (id, row) ∈ (server.changes st.cursorVal.toNat limit).1 := by
        refine Server.changes_complete hrow (by omega) (.inr ?_)
        obtain hend | ⟨p, hp, hend⟩ := hend
        · omega
        · exact ⟨p, hp, by omega⟩
      have hin : FeedChange.of (id, row) ∈ (haltPage feed).2.1 := by
        show _ ∈ sliceOf feed
        rw [← hslice, List.mem_filter, hpage.changes, val_seq_of (hpage.small _ hmem)]
        exact ⟨List.mem_map_of_mem hmem, decide_eq_true hle⟩
      obtain ⟨-, r, hr, hpagerow⟩ | ⟨hnone, -⟩ :=
        known_recordAll (E := E) st (sortPage E roster (haltPage feed).2.1).accepted id
      · exact .of_pageRow hpage hrow hr hpagerow
      · obtain ⟨kind, haccept⟩ := acceptChange_of (E := E) hroster htakes
        refine absurd rfl (hnone (.of (id, row), kind) ?_)
        rw [sortPage_accepted]
        exact List.mem_filterMap.mpr ⟨_, hin, haccept⟩

/-! ## Runs -/

omit [LawfulStore S] in
theorem Served.extends {request : Request} {response : Response}
    (h : Served (honest config others) C w request (.ok response) w') : w.peer.server.Extends w'.peer.server := by
  obtain ⟨x, hserve, rfl, -⟩ := h
  exact Service.Serves.extends hserve

/-- A row the server reclaimed is known once its entry is gone. -/
theorem SyncState.Knows.of_remove {id : ItemId} {row : ServerRow} (h : row.envelope = none) :
    (st.remove id).Knows E id row := by
  refine .reclaimed h ?_
  intro known hknown
  rw [SyncState.known_remove, if_pos rfl] at hknown
  cases hknown

/-- It is known as well once its entry has no fingerprint. -/
theorem SyncState.Knows.of_insert {id : ItemId} {row : ServerRow} {r : KnownRow} (hr : r.fingerprint = none)
    (h : row.envelope = none) : (st.insert id r).Knows E id row := by
  refine .reclaimed h ?_
  intro known hknown
  rw [SyncState.known_insert, if_pos rfl] at hknown
  cases hknown
  exact hr

/-- Every move leaves a state that knows the rows up to its cursor, or one that was saved. -/
theorem SyncMove.tracks {st' : SyncState} (h : SyncMove E (honest config others) (.under rosters) st w st' w')
    (hst : st.Tracks E rosters w.peer.server) :
    st'.Tracks E rosters w'.peer.server ∨ Reopened E (.under rosters) st' w w' := by
  have hkept : st' = st → st'.Tracks E rosters w'.peer.server ∨ Reopened E (.under rosters) st' w w' := by
    rintro rfl
    exact h.steps.imp (fun hsteps => hst.extend (extends_of_steps hsteps)) id
  have hinsert : ∀ {itemId : ItemId} {r : KnownRow}, ∀ id, itemId ≠ id →
      (st.insert itemId r).known[id]? = st.known[id]? := by
    intro itemId r id hid
    rw [SyncState.known_insert, if_neg hid]
  have hremove : ∀ {itemId : ItemId}, ∀ id, itemId ≠ id → (st.remove itemId).known[id]? = st.known[id]? := by
    intro itemId id hid
    rw [SyncState.known_remove, if_neg hid]
  cases h with
  | moved _ | read _ | asked _ _ | lost _ _ _ | merged _ | edited _ | rotated _ _ _ | noted => exact hkept rfl
  | @pulled _ w₁ w₂ _ limit response feed roster hbegan hserved hread hcheck hd hmerged =>
    left
    obtain ⟨u, hu⟩ := hbegan
    have hlater := extends_of_steps ((hd.steps st).trans hmerged.steps)
    obtain ⟨x, hserve, rfl, -⟩ := hserved
    cases hserve with
    | answered now => exact (hst.page (hu roster rfl) hread hcheck).extend hlater
  | deleted _ hserved hread =>
    refine .inl (hst.touch hserved.extends rfl hremove ?_)
    intro row hrow hle _
    exact .of_remove (reclaimed_of_deleted hst hserved hread hrow hle)
  | applied _ _ hserved hread | published _ hserved hread =>
    refine .inl (hst.touch hserved.extends rfl hinsert ?_)
    intro row hrow hle _
    have hpast := seq_of_applied hst hserved hread hrow
    omega
  | @reclaimed _ _ row response itemId version _ _ hserved hread =>
    have hgone : ∀ row : ServerRow, w'.peer.server.rows[itemId]? = some row → (row.seq : Int) ≤ st.cursorVal →
        Takes E rosters itemId row → row.envelope = none :=
      fun row hrow hle htakes => (reclaimed_of_conflict hst hserved hread hrow hle htakes).1
    left
    cases version with
    | none =>
      refine hst.touch hserved.extends rfl hremove ?_
      intro row hrow hle htakes
      exact .of_remove (hgone row hrow hle htakes)
    | some version =>
      refine hst.touch hserved.extends rfl hinsert ?_
      intro row hrow hle htakes
      exact .of_insert rfl (hgone row hrow hle htakes)
  | @resolved _ w₁ w₂ _ row response itemId version envelope kind roster _ _ _ hserved hread _ _ hd hmerged =>
    left
    have hlater : w₁.peer.server.Extends w'.peer.server := by
      have hdrift := extends_of_steps (World.Drifts.steps (E := E) st hd)
      obtain ⟨-, rfl⟩ | ⟨-, a, hp⟩ := hmerged
      · exact hdrift
      · have hstep : WorldStep E (honest config others) (.under rosters) st _ _ := .merged hp
        exact hdrift.trans hstep.extends
    refine hst.touch (hserved.extends.trans hlater) rfl hinsert ?_
    intro row hrow hle htakes
    -- bytes came with the refusal, so the row is past the cursor
    have hrow := (hst.extend hserved.extends).had hlater hrow hle
    cases (reclaimed_of_conflict hst hserved hread hrow hle htakes).2
  | outdated _ hserved hread =>
    refine .inl (hst.touch hserved.extends rfl hinsert ?_)
    intro row hrow hle htakes
    obtain ⟨hnone, rfl⟩ := reclaimed_of_conflict hst hserved hread hrow hle htakes
    exact .of_insert rfl hnone
  | rotating rotation =>
    exact .inl ⟨hst.below, fun id row hrow hle htakes => (hst.knows id row hrow hle htakes).congr rfl⟩
  | reset => exact .inl (.start _)
  | restarted hsaved hv hc => exact .inr (.intro hsaved hv hc)

/-- Wherever a run can be stopped, the state and each that was saved know the rows up to their cursors. -/
theorem Traced.tracks {start : Service → Prop} (h : Traced E (honest config others) (.under rosters) start st w) :
    st.Tracks E rosters w.peer.server ∧ ∀ s ∈ w.saved, s.Tracks E rosters w.peer.server := by
  induction h with
  | fresh hw _ =>
    refine ⟨.start _, ?_⟩
    rw [hw.saved]
    rintro s rfl
    exact .start _
  | @step st st' w w' _ hmove ih =>
    obtain ⟨hst, hsaved⟩ := ih
    have hall : ∀ s ∈ w'.saved, s.Tracks E rosters w'.peer.server := by
      obtain hsteps | hreopened := hmove.steps
      · -- a save adds the state as it is
        clear hmove
        induction hsteps with
        | refl => exact hsaved
        | @tail u u' hto hstep ih =>
          intro s hs
          obtain hs | ⟨rfl, -, -⟩ := hstep.saved hs
          · exact (ih s hs).extend hstep.extends
          · exact hst.extend ((extends_of_steps hto).trans hstep.extends)
      · cases hreopened with
        | intro _ _ _ => exact hsaved
    obtain htracks | hreopened := hmove.tracks hst
    · exact ⟨htracks, hall⟩
    · cases hreopened with
      | intro hmem _ _ => exact ⟨hsaved _ hmem, hall⟩

/-! ## Both sides -/

/-- What the vault stores and what the server holds under an id. -/
def World.bytesAt (w : World S Service) (id : ItemId) : Set Bytes :=
  {b | (∃ stored, w.rows.rows[id]? = some stored ∧ stored.envelope = b) ∨
    ∃ row, w.peer.server.rows[id]? = some row ∧ row.envelope = some b}

/-- Wherever a run can be stopped, a row the server has up to the cursor is the vault's, unless its id is queued: for a
`PUT` where the vault has other bytes, for a `DELETE` where it has none. -/
theorem unqueued_rows_agree (E : Externals) (rosters : Set Roster) {start : Service → Prop} {r : Run S Service}
    {writes : List PendingWrite} {id : ItemId} {row : ServerRow}
    (h : Run.Reached E (honest config others) (.under rosters) start r) (hrest : r.AtRest)
    (hlists : r.Lists E (honest config others) writes) (hrow : r.world.peer.server.rows[id]? = some row)
    (hle : (row.seq : Int) ≤ r.work.state.state.cursorVal) (htakes : Takes E rosters id row)
    (hinj : Set.InjOn (fingerprint E) (r.world.bytesAt id)) :
    (∀ stored, r.world.rows.rows[id]? = some stored → ⟨id, .put⟩ ∉ writes → row.envelope = some stored.envelope) ∧
    (∀ bytes env, row.envelope = some bytes → Envelope.parse bytes = .ok env → isMerged env.header.kind = true →
      ⟨id, .delete⟩ ∉ writes → ∃ stored, r.world.rows.rows[id]? = some stored) := by
  have hknows := (h.rests hrest).tracks.1.knows id row hrow hle htakes
  have hwrites := hlists.rows
  constructor
  · intro stored hstored hput
    rw [hwrites, put_mem_pendingList E _ hstored, Bool.not_eq_false] at hput
    unfold SyncState.confirmed at hput
    cases hknows with
    | @held bytes known env hbytes hknown hfp _ _ _ =>
      rw [hknown] at hput
      have hsame : known.fingerprint = some (fingerprint E stored.envelope) := of_decide_eq_true hput
      rw [hfp] at hsame
      rw [hbytes, hinj (.inr ⟨row, hrow, hbytes⟩) (.inl ⟨stored, hstored, rfl⟩) (Option.some.inj hsame)]
    | reclaimed _ hnone =>
      -- nothing confirms a row the server reclaimed
      split at hput
      · next known hknown =>
        have hsame : known.fingerprint = some (fingerprint E stored.envelope) := of_decide_eq_true hput
        cases (hnone known hknown).symm.trans hsame
      · cases hput
  · intro bytes env hbytes hparse hkind hdelete
    by_contra habsent
    refine hdelete ?_
    rw [hwrites, mem_pendingList]
    refine .inr ((mem_pendingDeletes _ _ _).mpr ⟨rfl, ?_⟩)
    cases hknows with
    | @held bytes' known env' hbytes' hknown _ _ hparse' hkind' =>
      cases hbytes.symm.trans hbytes'
      cases hparse.symm.trans hparse'
      refine ⟨known, hknown, ?_, ?_⟩
      · have hsame : known.isDeletable = (⟨env.header.kind.asU8, none, none, none⟩ : KnownRow).isDeletable :=
          KnownRow.isDeletable_congr hkind'
        rw [hsame, isDeletable_asU8]
        exact hkind
      · intro stored hstored hid
        refine habsent ⟨stored, ?_⟩
        have hmem := Image.mem_records.mp hstored
        rwa [show stored.itemId = id from hid] at hmem
    | reclaimed hnone _ => cases hnone.symm.trans hbytes

/-- The items and groups of a table of rows: each id with its bytes. -/
def Image.objects (self : Image) : Set (ItemId × Bytes) :=
  {p | (∃ stored, self.rows[p.1]? = some stored ∧ stored.envelope = p.2) ∧
    ∃ env, Envelope.parse p.2 = .ok env ∧ isMerged env.header.kind = true}

/-- The items and groups of a server. -/
def Server.objects (self : Server) : Set (ItemId × Bytes) :=
  {p | (∃ row, self.rows[p.1]? = some row ∧ row.envelope = some p.2) ∧
    ∃ env, Envelope.parse p.2 = .ok env ∧ isMerged env.header.kind = true}

/-- Nothing is queued and nothing is past the cursor. No change was one to reject, and no row of the vault is one the
server has swept. -/
structure Run.Quiet (E : Externals) (config : ServerConfig) (others : Request → Prop) (rosters : Set Roster)
    (r : Run S Service) : Prop where
  reached : Run.Reached E (honest config others) (.under rosters) (fun _ => True) r
  rest : r.AtRest
  lists : r.Lists E (honest config others) []
  pulled : ∀ (id : ItemId) (row : ServerRow), r.world.peer.server.rows[id]? = some row →
    (row.seq : Int) ≤ r.work.state.state.cursorVal
  takes : ∀ (id : ItemId) (row : ServerRow), r.world.peer.server.rows[id]? = some row → Takes E rosters id row
  unswept : ∀ id, r.world.rows.Has id → ∃ row, r.world.peer.server.rows[id]? = some row
  distinct : ∀ id, Set.InjOn (fingerprint E) (r.world.bytesAt id)

/-- A quiet device has what the server has. -/
theorem Run.Quiet.objects_eq {r : Run S Service} (h : r.Quiet E config others rosters) :
    r.world.rows.objects = r.world.peer.server.objects := by
  have hagree := fun {id : ItemId} {row : ServerRow} (hrow : r.world.peer.server.rows[id]? = some row) =>
    unqueued_rows_agree E rosters h.reached h.rest h.lists hrow (h.pulled id row hrow) (h.takes id row hrow) (h.distinct id)
  refine Set.ext fun p => and_congr_left ?_
  rintro ⟨env, hparse, hkind⟩
  constructor
  · rintro ⟨stored, hstored, hbytes⟩
    obtain ⟨row, hrow⟩ := h.unswept p.1 ⟨stored, hstored⟩
    refine ⟨row, hrow, ?_⟩
    rw [(hagree hrow).1 stored hstored (by simp), hbytes]
  · rintro ⟨row, hrow, hbytes⟩
    obtain ⟨stored, hstored⟩ := (hagree hrow).2 p.2 env hbytes hparse hkind (by simp)
    refine ⟨stored, hstored, ?_⟩
    have hsame := (hagree hrow).1 stored hstored (by simp)
    rw [hbytes] at hsame
    exact (Option.some.inj hsame).symm

/-! ## Quiet devices of a script -/

/-- A script's runs are of these rosters when its syncs are. -/
theorem Run.Reached.upTo_under {d : Driver Service} {start : Service → Prop}
    (hserve : ∀ request x, (honest config others).serve request x (d.serve request x).1 (d.serve request x).2)
    (stop : Request → Bool) : ∀ (fuel : Nat) {r : Run S Service},
    Run.Reached E (honest config others) (.under rosters) start r →
      Run.Reached E (honest config others) (.under rosters) start (r.upTo E d stop fuel)
  | 0, _, h => h
  | fuel + 1, r, h => by
    unfold Run.upTo
    split
    · exact h
    · refine Run.Reached.upTo_under hserve stop fuel ?_
      obtain ⟨work, w⟩ := r
      cases work with
      | ok _ _ | error _ _ => exact h
      | call q s k => exact h.step (.answered ⟨d.answers hserve q w, fun _ hevent => by cases hevent⟩)

theorem Run.Reached.play_under {d : Driver Service} {start : Service → Prop}
    (hserve : ∀ request x, (honest config others).serve request x (d.serve request x).1 (d.serve request x).2)
    (fuel : Nat) : ∀ (acts : List (Act Service)) {r : Run S Service},
    (∀ f, .move f ∉ acts) → (∀ roster stop, .call (.syncOnce roster) stop ∈ acts → roster ∈ rosters) →
    Run.Reached E (honest config others) (.under rosters) start r →
      Run.Reached E (honest config others) (.under rosters) start (r.play E d fuel acts)
  | [], _, _, _, h => h
  | act :: acts, r, hmoves, hcalls, h => by
    refine Run.Reached.play_under hserve fuel acts (fun f hf => hmoves f (List.mem_cons_of_mem _ hf))
      (fun roster stop hin => hcalls roster stop (List.mem_cons_of_mem _ hin)) ?_
    cases act with
    | edit amb op =>
      unfold Run.act
      dsimp only
      split
      · next hended => exact h.step (.edited (.of_ended hended) fun _ hevent => by cases hevent)
      · exact h
    | call op stop =>
      unfold Run.act
      dsimp only
      split
      · next hended =>
        refine .upTo_under hserve stop fuel (h.step (.began (.of_ended hended) ?_))
        rintro roster heq
        cases heq
        exact hcalls roster stop List.mem_cons_self
      · exact h
    | resume stop => exact .upTo_under hserve stop fuel h
    | move f => exact absurd List.mem_cons_self (hmoves f)

/-- Whether a device with its rows in memory is quiet, under one roster. -/
def Run.isQuiet (E : Externals) (roster : Roster) (r : Run MemoryStore Service) : Bool :=
  r.work.ended && (pendingList E r.work.state.state r.world.rows.records).isEmpty &&
    r.world.peer.server.rows.toList.all (fun p => decide ((p.2.seq : Int) ≤ r.work.state.state.cursorVal) &&
      p.2.envelope.all (fun bytes => (verifyChange E roster p.1 bytes).toOption.isSome)) &&
    r.world.rows.records.all (fun stored => (r.world.peer.server.rows[stored.itemId]?).any
      (fun row => row.envelope.all (fun bytes => bytes = stored.envelope)))

theorem Run.Quiet.of_isQuiet {roster : Roster} {r : Run MemoryStore Service}
    (h : Run.Reached E (honest config others) (.under {roster}) (fun _ => True) r) (hquiet : r.isQuiet E roster = true) :
    r.Quiet E config others {roster} := by
  simp only [Run.isQuiet, Bool.and_eq_true, List.all_eq_true, decide_eq_true_eq, List.isEmpty_iff] at hquiet
  obtain ⟨⟨⟨hended, hpending⟩, hserver⟩, hrows⟩ := hquiet
  -- a row of the vault has its counterpart, and what bytes that has are the same
  have hpaired : ∀ (id : ItemId) (stored : StoredEnvelope), r.world.rows.rows[id]? = some stored →
      ∃ row, r.world.peer.server.rows[id]? = some row ∧ ∀ bytes, row.envelope = some bytes → bytes = stored.envelope := by
    intro id stored hstored
    have hid := r.world.rows.keyed id stored hstored
    have hmem : stored ∈ r.world.rows.records := Image.mem_records.mpr (by rwa [hid])
    obtain ⟨row, hrow, hall⟩ := (Option.any_eq_true _ _).mp (hrows stored hmem)
    rw [hid] at hrow
    refine ⟨row, hrow, fun bytes hbytes => ?_⟩
    rw [hbytes, Option.all_some, decide_eq_true_eq] at hall
    exact hall
  refine ⟨h, .inl (.of_ended hended), ?_, ?_, ?_, ?_, ?_⟩
  · rw [← hpending]
    exact Run.lists_of_loaded rfl
  · intro id row hrow
    exact (hserver (id, row) (OrdMap.mem_toList.mpr hrow)).1
  · intro id row hrow bytes hbytes roster' hroster'
    have hverifies := (hserver (id, row) (OrdMap.mem_toList.mpr hrow)).2
    dsimp only at hverifies
    rw [hbytes, Option.all_some] at hverifies
    cases hroster'
    cases hresult : verifyChange E roster id bytes with
    | ok kind => exact ⟨kind, rfl⟩
    | error e =>
      rw [hresult] at hverifies
      cases hverifies
  · intro id hhas
    obtain ⟨stored, hstored⟩ := hhas
    obtain ⟨row, hrow, -⟩ := hpaired id stored hstored
    exact ⟨row, hrow⟩
  · -- all the bytes at an id are one
    intro id a ha b hb _
    obtain ⟨stored, hstored, rfl⟩ | ⟨row, hrow, ha⟩ := ha
    · obtain ⟨row, hrow, hsame⟩ := hpaired id stored hstored
      obtain ⟨stored', hstored', rfl⟩ | ⟨row', hrow', hb⟩ := hb
      · rw [Option.some.inj (hstored.symm.trans hstored')]
      · cases hrow.symm.trans hrow'
        exact (hsame b hb).symm
    · obtain ⟨stored', hstored', rfl⟩ | ⟨row', hrow', hb⟩ := hb
      · obtain ⟨row', hrow', hsame⟩ := hpaired id stored' hstored'
        cases hrow.symm.trans hrow'
        exact hsame a ha
      · cases hrow.symm.trans hrow'
        exact Option.some.inj (ha.symm.trans hb)

theorem Consistent.object_of_holds {v : Vault S} (h : Consistent E v) {o : Decoded} (ho : v.Holds o) :
    ∃ stored, (view v.store).image.rows[o.itemId]? = some stored ∧
      decodeRecord E v.vaultKey v.roster stored = .ok (some o) ∧
      (o.itemId, stored.envelope) ∈ (view v.store).image.objects := by
  obtain ⟨stored, hstored, hdecode⟩ := (h.holds_iff o).mp ho
  refine ⟨stored, hstored, hdecode, ⟨stored, hstored, rfl⟩, ?_⟩
  cases decodeRecord_eq_ok.mp hdecode with
  | @object env _ _ _ hparse hkind hobject _ _ _ _ _ =>
    refine ⟨env, hparse, ?_⟩
    rw [hkind]
    obtain hitem | hgroup := hobject
    · rw [hitem]; rfl
    · rw [hgroup]; rfl

/-- Vaults in step hold the same where their rows are the same. -/
theorem Consistent.holds_of_objects {v w : Vault S} (hv : Consistent E v) (hw : Consistent E w)
    (hkey : w.vaultKey = v.vaultKey) (hroster : w.roster = v.roster)
    (hobjects : (view v.store).image.objects ⊆ (view w.store).image.objects) {o : Decoded} (ho : v.Holds o) :
    w.Holds o := by
  obtain ⟨stored, hstored, hdecode, hmem⟩ := hv.object_of_holds ho
  obtain ⟨⟨stored', hstored', hbytes⟩, env, hparse, hkind⟩ := hobjects hmem
  have hids : stored'.itemId = stored.itemId :=
    ((view w.store).image.keyed _ _ hstored').trans ((view v.store).image.keyed _ _ hstored).symm
  refine (hw.holds_iff o).mpr ⟨stored', hstored', ?_⟩
  obtain ⟨o', hdecode'⟩ := hw.decodes _ _ hstored'
  cases o' with
  | some o' =>
    rw [hkey, hroster] at hdecode' ⊢
    rw [hdecode', decodeRecord_unique hids hbytes hdecode hdecode']
  | none =>
    cases decodeRecord_eq_ok.mp hdecode' with
    | @skipped env' hparse' hkind' hitem hgroup =>
      rw [hbytes] at hparse'
      cases hparse.symm.trans hparse'
      rw [hkind'] at hkind
      simp [isMerged, hitem, hgroup] at hkind

/-- Devices of one vault that are quiet over one server hold the same items and the same groups. -/
theorem quiet_devices_agree (E : Externals) {others' : Request → Prop} {rosters' : Set Roster} {r r' : Run S Service}
    (h : r.Quiet E config others rosters) (h' : r'.Quiet E config others' rosters')
    (hserver : r'.world.peer.server = r.world.peer.server) (hkey : r'.world.vault.vaultKey = r.world.vault.vaultKey)
    (hroster : r'.world.vault.roster = r.world.vault.roster) (hstep : InStep E r.world.vault)
    (hstep' : InStep E r'.world.vault) :
    r'.world.vault.items = r.world.vault.items ∧ r'.world.vault.groups = r.world.vault.groups := by
  have hobjects : r'.world.rows.objects = r.world.rows.objects := by
    rw [h.objects_eq, h'.objects_eq, hserver]
  have hv := inStep_iff.mp hstep
  have hv' := inStep_iff.mp hstep'
  have hsame : ∀ o : Decoded, r'.world.vault.Holds o ↔ r.world.vault.Holds o := fun o =>
    ⟨hv'.holds_of_objects hv hkey.symm hroster.symm hobjects.le, hv.holds_of_objects hv' hkey hroster hobjects.ge⟩
  exact eq_of_holds (fun x => hsame (.item x)) (fun g => hsame (.group g))

/-- The run in which a group is added, pushed to an empty server and pulled back. -/
def Run.settled : Run MemoryStore Service :=
  (Run.sample [1] .empty).play (.sample [] [.sample]) .honest 40 [
    .edit (.sample 5) (.atomic (.object (.addGroup ['g']))),
    .whole (.syncOnce (.sample [1])), .whole (.syncOnce (.sample [1]))]

/-- A device that begins with nothing and pulls from that server. -/
def Run.follower : Run MemoryStore Service :=
  (Run.sample [1] Run.settled.world.peer).play (.sample [] [.sample]) .honest 40 [.whole (.syncOnce (.sample [1]))]

theorem Run.reached_under {x : Service} {fuel : Nat} (acts : List (Act Service)) (hmoves : ∀ f, .move f ∉ acts)
    (hcalls : ∀ roster stop, .call (.syncOnce roster) stop ∈ acts → roster ∈ ({.sample [1]} : Set Roster)) :
    Run.Reached (.sample [] [.sample]) (honest .sample (fun _ => False)) (.under {.sample [1]}) (fun _ => True)
      ((Run.sample [1] x).play (.sample [] [.sample]) .honest fuel acts) :=
  .play_under (fun request x => Driver.serves_honest request x) fuel acts hmoves hcalls
    (Run.reached_sample (open_sample [] [.sample]) trivial)

set_option maxRecDepth 20000 in
theorem Run.quiet_settled :
    Run.settled.Quiet (.sample [] [.sample]) .sample (fun _ => False) {.sample [1]} := by
  refine .of_isQuiet (Run.reached_under _ ?_ ?_) (by decide +kernel)
  · intro f hf
    simp [Act.whole] at hf
  · intro roster stop hin
    simp [Act.whole] at hin
    simp [hin]

set_option maxRecDepth 20000 in
theorem Run.quiet_follower :
    Run.follower.Quiet (.sample [] [.sample]) .sample (fun _ => False) {.sample [1]} := by
  refine .of_isQuiet (Run.reached_under _ ?_ ?_) (by decide +kernel)
  · intro f hf
    simp [Act.whole] at hf
  · intro roster stop hin
    simp [Act.whole] at hin
    simp [hin]

theorem Server.eq_of_lists {s t : Server} (hrows : s.rows.toList = t.rows.toList) (hnext : s.nextSeq = t.nextSeq) :
    s = t := by
  obtain ⟨rows, nextSeq, _, _, _⟩ := s
  obtain ⟨rows', nextSeq', _, _, _⟩ := t
  cases Std.ExtTreeMap.toList_inj.mp hrows
  cases hnext
  rfl

/-- The rows in memory read back as the vault. -/
def Run.isInStep (E : Externals) (r : Run MemoryStore Service) : Bool :=
  (loadRecords E r.world.vault.vaultKey r.world.vault.roster r.world.rows.records
    (.start r.world.vault.device.deviceId)).toOption.any fun l =>
      decide (l.items.items.toList = r.world.vault.items.items.toList) &&
        decide (l.groups.groups.toList = r.world.vault.groups.groups.toList)

theorem Run.inStep_of_isInStep {r : Run MemoryStore Service} (h : r.isInStep E = true) : InStep E r.world.vault := by
  obtain ⟨⟨hlc, items, groups⟩, hload, hsame⟩ := (Option.any_eq_true _ _).mp h
  simp only [Bool.and_eq_true, decide_eq_true_eq, Std.ExtTreeMap.toList_inj] at hsame
  refine ⟨hlc, ?_⟩
  have hitems : items = r.world.vault.items := ItemSet.ext_items hsame.1
  have hgroups : groups = r.world.vault.groups := GroupMap.ext_get fun i => by
    unfold GroupMap.get
    rw [hsame.2]
  rw [← hitems, ← hgroups]
  revert hload
  unfold World.rows
  cases loadRecords E r.world.vault.vaultKey r.world.vault.roster (view r.world.vault.store).image.records
    (.start r.world.vault.device.deviceId) with
  | error e => nofun
  | ok l =>
    rintro hsome
    cases hsome
    rfl

set_option maxRecDepth 20000 in
/-- The group pulled back has the bytes it was pushed with. -/
theorem unqueued_rows_agree_settled : ∃ (id : ItemId) (row : ServerRow) (stored : StoredEnvelope),
    Run.settled.world.peer.server.rows[id]? = some row ∧ Run.settled.world.rows.rows[id]? = some stored ∧
      row.envelope = some stored.envelope := by
  have hquiet := Run.quiet_settled
  have hrow : (Run.settled.world.peer.server.rows[Group.sample.id.asItemId]?).isSome = true := by decide +kernel
  have hstored : (Run.settled.world.rows.rows[Group.sample.id.asItemId]?).isSome = true := by decide +kernel
  obtain ⟨row, hrow⟩ := Option.isSome_iff_exists.mp hrow
  obtain ⟨stored, hstored⟩ := Option.isSome_iff_exists.mp hstored
  refine ⟨_, row, stored, hrow, hstored, ?_⟩
  exact (unqueued_rows_agree _ _ hquiet.reached hquiet.rest hquiet.lists hrow (hquiet.pulled _ _ hrow)
    (hquiet.takes _ _ hrow) (hquiet.distinct _)).1 stored hstored (by simp)

set_option maxRecDepth 20000 in
/-- The device that pulled the group holds what the one that pushed it holds. -/
theorem quiet_devices_agree_follower :
    Run.follower.world.vault.groups = Run.settled.world.vault.groups ∧
      (Run.settled.world.vault.groups.get Group.sample.id).isSome = true := by
  refine ⟨(quiet_devices_agree _ Run.quiet_settled Run.quiet_follower
    (Server.eq_of_lists (by decide +kernel) (by decide +kernel)) (by decide +kernel) (by decide +kernel)
    (Run.inStep_of_isInStep (by decide +kernel)) (Run.inStep_of_isInStep (by decide +kernel))).2, ?_⟩
  decide +kernel

end Misty
