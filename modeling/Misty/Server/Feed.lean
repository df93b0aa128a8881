import Misty.Server.Routes

/- The change feed, followed by a reader. Each call of the store is one step; between any
   two of them the reader may ask the route for a page after the last sequence number it
   was given, and replay the entries into a map of its own.

   What carries a run (`Follows`): a row whose number the cursor has reached is in the
   map as the table has it. A write keeps it because the row moves to a number the
   cursor has not reached; a sweep because it only takes rows away; a page because it
   skips nothing up to its last row (`Server.changes_complete`).

   Correspondence (Rust ↔ Lean):
     `items::changes`                          ↔ `serveChanges`, read back by `Response.page`
     one call of `put_item`, `delete_item`, `sweep`, one poll ↔ `FeedStep` -/
namespace Misty

open Std (ExtTreeMap)

/-- What the answer to a poll says: the entries, `next_seq`, `has_more`. -/
def Response.page (self : Response) : Option (List RawChange × I64 × Bool) :=
  match self.body with
  | .fields raw => do
    let changes ← raw.changes
    let nextSeq ← raw.nextSeq
    let hasMore ← raw.hasMore
    return (changes, nextSeq, hasMore)
  | _ => none

/-- What an entry says of its item: the version and the envelope. -/
abbrev Shown := Option RawVersion × Option RawBlob

/-- The cursor of a reader, absent before its first page, and what it has replayed. -/
structure Reader where
  since : Option I64
  seen : ExtTreeMap ItemId Shown

namespace Reader

def new : Reader := ⟨none, ∅⟩

/-- The number the next page starts after. -/
def cursor (self : Reader) : Int := (self.since.map Subtype.val).getD 0

/-- One entry replayed. -/
def replay (seen : ExtTreeMap ItemId Shown) (change : RawChange) : ExtTreeMap ItemId Shown :=
  match change.itemId with
  | some (some id) => seen.insert id (change.version, change.envelope)
  | _ => seen

/-- An answer taken in. One that is no page changes nothing. -/
def take (self : Reader) (response : Response) : Reader :=
  match response.page with
  | some (changes, nextSeq, _) => ⟨some nextSeq, changes.foldl replay self.seen⟩
  | none => self

/-- What the reader has of an item is what its row says. -/
def Agrees (self : Reader) (id : ItemId) (row : ServerRow) : Prop :=
  self.seen[id]? = some (some (.token (versionToken row.version)), row.envelope.map .bytes)

end Reader

variable (config : ServerConfig)

/-- One call of the store, or one poll. A call that fails leaves the table as it is. -/
inductive FeedStep : Server × Reader → Server × Reader → Prop
  | put {s s' : Server} {r : Reader} {limits : Limits} {itemId : ItemId} {precondition : Nat} {envelope : Bytes}
      {now : Int} {outcome : WriteOutcome} : s.putItem limits itemId precondition envelope now = .ok (outcome, s') →
      FeedStep (s, r) (s', r)
  | delete {s s' : Server} {r : Reader} {itemId : ItemId} {precondition : Nat} {now : Int} {outcome : WriteOutcome} :
      s.deleteItem itemId precondition now = .ok (outcome, s') → FeedStep (s, r) (s', r)
  | sweep {s : Server} {r : Reader} (horizon : Int) : FeedStep (s, r) (s.sweep horizon, r)
  | poll {s : Server} {r : Reader} (limit : Nat) : 1 ≤ limit →
      FeedStep (s, r) (s, r.take (serveChanges config r.since limit s))

/-- Any order of these, from an empty vault and a reader that has read nothing. -/
def FeedRun (x : Server × Reader) : Prop := Relation.ReflTransGen (FeedStep config) (.new, .new) x

/-! ## Replaying -/

theorem replay_changeEntry (seen : ExtTreeMap ItemId Shown) (p : ItemId × ServerRow) :
    Reader.replay seen (changeEntry p) =
      seen.insert p.1 (some (.token (versionToken p.2.version)), p.2.envelope.map .bytes) := rfl

theorem getElem?_replay_of_not_mem {id : ItemId} : ∀ {rows : List (ItemId × ServerRow)}
    {seen : ExtTreeMap ItemId Shown}, (∀ p ∈ rows, p.1 ≠ id) →
    ((rows.map changeEntry).foldl Reader.replay seen)[id]? = seen[id]?
  | [], _, _ => rfl
  | p :: rest, seen, h => by
    rw [List.map_cons, List.foldl_cons, getElem?_replay_of_not_mem (fun q hq => h q (List.mem_cons_of_mem _ hq)),
      replay_changeEntry, OrdMap.getElem?_insert, if_neg (h p List.mem_cons_self)]

/-- An item the entries name once ends as they have it. -/
theorem getElem?_replay_of_mem {id : ItemId} {row : ServerRow} : ∀ {rows : List (ItemId × ServerRow)}
    {seen : ExtTreeMap ItemId Shown}, (∀ p ∈ rows, p.1 = id → p.2 = row) → (id, row) ∈ rows →
    ((rows.map changeEntry).foldl Reader.replay seen)[id]? =
      some (some (.token (versionToken row.version)), row.envelope.map .bytes)
  | p :: rest, seen, hsame, hmem => by
    rw [List.map_cons, List.foldl_cons]
    by_cases hrest : (id, row) ∈ rest
    · exact getElem?_replay_of_mem (fun q hq => hsame q (List.mem_cons_of_mem _ hq)) hrest
    · have hp : p = (id, row) := by
        rcases List.mem_cons.mp hmem with h | h
        · exact h.symm
        · exact absurd h hrest
      have hnot : ∀ q ∈ rest, q.1 ≠ id := by
        intro q hq hid
        have hq' : q = (id, row) := Prod.ext hid (hsame q (List.mem_cons_of_mem _ hq) hid)
        exact hrest (hq' ▸ hq)
      subst hp
      rw [getElem?_replay_of_not_mem hnot, replay_changeEntry, OrdMap.getElem?_insert, if_pos rfl]

/-! ## A page -/

variable {config}

/-- What a poll is answered: a refusal, or a page of the store. -/
theorem page_serveChanges (since : Option I64) (limit : Nat) (server : Server) :
    (serveChanges config since limit server).page =
      if (since.map Subtype.val).getD 0 < 0 ∨ limit = 0 ∨ config.maxChangesLimit < limit then none
      else
        let s := (since.map Subtype.val).getD 0
        let rows := (server.changes s.toNat limit).1
        some (rows.map changeEntry, .saturate ((rows.getLast?.map (fun p => (p.2.seq : Int))).getD s),
          (server.changes s.toNat limit).2) := by
  unfold serveChanges
  dsimp only
  split
  · rfl
  · rfl

theorem I64.val_saturate {z : Int} (hlow : -2 ^ 63 ≤ z) (hhigh : z < 2 ^ 63) : (I64.saturate z).val = z := by
  show max (-2 ^ 63) (min z (2 ^ 63 - 1)) = z
  omega

/-- A page, taken apart: the rows it shows, and where it leaves the cursor. -/
structure PageOf (s : Server) (r : Reader) (limit : Nat) (changes : List RawChange) (nextSeq : I64)
    (hasMore : Bool) : Prop where
  changes : changes = (s.changes r.cursor.toNat limit).1.map changeEntry
  hasMore : hasMore = (s.changes r.cursor.toNat limit).2
  nextSeq : nextSeq.val = (((s.changes r.cursor.toNat limit).1.getLast?).map (fun p => (p.2.seq : Int))).getD r.cursor

namespace Reader

/-- The table and the reader at any point of a run. -/
structure Follows (s : Server) (r : Reader) : Prop where
  nonneg : 0 ≤ r.cursor
  behind : r.cursor < s.nextSeq
  small : s.nextSeq ≤ 2 ^ 63
  seen : ∀ (id : ItemId) (row : ServerRow), s.rows[id]? = some row → (row.seq : Int) ≤ r.cursor → r.Agrees id row

theorem Follows.pageOf {s : Server} {r : Reader} (h : Follows s r) {limit : Nat} {changes : List RawChange}
    {nextSeq : I64} {hasMore : Bool} (hpage : (serveChanges config r.since limit s).page = some (changes, nextSeq, hasMore)) :
    PageOf s r limit changes nextSeq hasMore := by
  rw [page_serveChanges] at hpage
  split at hpage
  · cases hpage
  · cases hpage
    refine ⟨rfl, rfl, I64.val_saturate ?_ ?_⟩
    all_goals
      have hbehind := h.behind
      have hnonneg := h.nonneg
      have hsmall := h.small
      change 0 ≤ (r.since.map Subtype.val).getD 0 at hnonneg
      change (r.since.map Subtype.val).getD 0 < _ at hbehind
      cases hlast : (s.changes ((r.since.map Subtype.val).getD 0).toNat limit).1.getLast? with
      | none =>
        simp only [Option.map_none, Option.getD_none]
        omega
      | some p =>
        have hrow := s.stamped _ _ (Server.mem_changes (List.mem_of_getLast? hlast)).1
        simp only [Option.map_some, Option.getD_some]
        omega

theorem Follows.cursor_le {s : Server} {r : Reader} (h : Follows s r) {limit : Nat} {changes : List RawChange}
    {nextSeq : I64} {hasMore : Bool} (hpage : PageOf s r limit changes nextSeq hasMore) :
    r.cursor ≤ nextSeq.val ∧ (changes ≠ [] → r.cursor < nextSeq.val) := by
  have hnonneg := h.nonneg
  rw [hpage.nextSeq, hpage.changes]
  cases hlast : (s.changes r.cursor.toNat limit).1.getLast? with
  | none =>
    have hempty := List.getLast?_eq_none_iff.mp hlast
    simp [hempty]
  | some p =>
    have hafter := (Server.mem_changes (List.mem_of_getLast? hlast)).2
    simp only [Option.map_some, Option.getD_some]
    constructor
    · omega
    · intro _
      omega

/-- A row no later than the page's last one, or any row when the page says there are no more, is in the map after
it. -/
theorem Follows.agrees {s : Server} {r : Reader} (h : Follows s r) {limit : Nat} {changes : List RawChange}
    {nextSeq : I64} {hasMore : Bool} (hpage : PageOf s r limit changes nextSeq hasMore) {id : ItemId} {row : ServerRow}
    (hrow : s.rows[id]? = some row) (hupto : hasMore = false ∨ (row.seq : Int) ≤ nextSeq.val) :
    (⟨some nextSeq, changes.foldl replay r.seen⟩ : Reader).Agrees id row := by
  have hnonneg := h.nonneg
  have hfunctional : ∀ p ∈ (s.changes r.cursor.toNat limit).1, p.1 = id → p.2 = row := by
    intro p hp hid
    have hp := (Server.mem_changes hp).1
    rw [hid] at hp
    exact Option.some.inj (hp.symm.trans hrow)
  show ((changes.foldl replay r.seen)[id]?) = _
  rw [hpage.changes]
  by_cases hmem : (id, row) ∈ (s.changes r.cursor.toNat limit).1
  · exact getElem?_replay_of_mem hfunctional hmem
  · -- not on the page: then the reader had reached it before
    have hnot : ∀ p ∈ (s.changes r.cursor.toNat limit).1, p.1 ≠ id := by
      intro p hp hid
      have hp' : p = (id, row) := Prod.ext hid (hfunctional p hp hid)
      exact hmem (hp' ▸ hp)
    rw [getElem?_replay_of_not_mem hnot]
    refine h.seen id row hrow ?_
    by_contra hlate
    have hsince : r.cursor.toNat < row.seq := by omega
    refine hmem (Server.changes_complete hrow hsince ?_)
    rcases hupto with hwhole | hle
    · exact .inl (hpage.hasMore.symm.trans hwhole)
    · rw [hpage.nextSeq] at hle
      cases hlast : (s.changes r.cursor.toNat limit).1.getLast? with
      | none =>
        simp only [hlast, Option.map_none, Option.getD_none] at hle
        omega
      | some p =>
        simp only [hlast, Option.map_some, Option.getD_some] at hle
        exact .inr ⟨p, List.mem_of_getLast? hlast, by omega⟩

/-! ## A run -/

theorem Follows.new : Follows .new .new := by
  refine ⟨by decide, by decide, by decide, ?_⟩
  intro id row hrow
  simp [Server.new] at hrow

theorem Follows.store {s : Server} {r : Reader} (h : Follows s r) {itemId : ItemId} {version : Nat}
    {envelope : Option Bytes} {now : Int} (hversion : 0 < version) (hseq : s.nextSeq < 2 ^ 63) :
    Follows (s.store itemId version envelope now hversion) r := by
  refine ⟨h.nonneg, ?_, ?_, ?_⟩
  · have hbehind := h.behind
    rw [Server.nextSeq_store]
    omega
  · rw [Server.nextSeq_store]
    omega
  · intro id row hrow hreached
    rw [Server.rows_store] at hrow
    split at hrow
    · cases hrow
      exact absurd hreached (not_le.mpr h.behind)
    · exact h.seen id row hrow hreached

theorem Follows.take {s : Server} {r : Reader} (h : Follows s r) (limit : Nat) :
    Follows s (r.take (serveChanges config r.since limit s)) := by
  unfold Reader.take
  split
  · next changes nextSeq hasMore hpage =>
    have hpage := h.pageOf hpage
    refine ⟨h.nonneg.trans (h.cursor_le hpage).1, ?_, h.small, fun id row hrow hle => h.agrees hpage hrow (.inr hle)⟩
    show nextSeq.val < _
    rw [hpage.nextSeq]
    cases hlast : (s.changes r.cursor.toNat limit).1.getLast? with
    | none => exact h.behind
    | some p =>
      have hrow := s.stamped _ _ (Server.mem_changes (List.mem_of_getLast? hlast)).1
      simp only [Option.map_some, Option.getD_some]
      omega
  · exact h

end Reader

open Reader in
theorem FeedStep.follows {x x' : Server × Reader} (hstep : FeedStep config x x') (h : Follows x.1 x.2) :
    Follows x'.1 x'.2 := by
  cases hstep with
  | put hput =>
    cases Server.put_of_putItem hput with
    | written _ hseq _ => exact h.store (Nat.succ_pos _) hseq
    | conflict _ | full _ _ => exact h
  | delete hdelete =>
    rcases Server.fits_of_deleteItem hdelete with rfl | ⟨hseq, -⟩
    · exact h
    · cases Server.delete_of_deleteItem hdelete with
      | missing _ | conflict _ _ | again _ _ _ => exact h
      | reclaimed _ _ _ => exact h.store (Nat.succ_pos _) hseq
  | sweep horizon =>
    refine ⟨h.nonneg, h.behind, h.small, ?_⟩
    intro id row hrow
    rw [Server.rows_sweep] at hrow
    exact h.seen id row (Option.filter_eq_some_iff.mp hrow).1
  | poll limit _ => exact h.take limit

theorem FeedRun.follows {x : Server × Reader} (h : FeedRun config x) : Reader.Follows x.1 x.2 := by
  induction h with
  | refl => exact .new
  | tail _ hstep ih => exact hstep.follows ih

theorem FeedStep.cursor_le {x x' : Server × Reader} (hstep : FeedStep config x x') (h : Reader.Follows x.1 x.2) :
    x.2.cursor ≤ x'.2.cursor := by
  cases hstep with
  | put _ | delete _ | sweep _ => exact le_refl _
  | @poll s r limit _ =>
    show r.cursor ≤ (r.take _).cursor
    unfold Reader.take
    split
    · next hpage => exact (h.cursor_le (h.pageOf hpage)).1
    · exact le_refl _

theorem FeedRun.cursor_le {x x' : Server × Reader} (h : FeedRun config x)
    (h' : Relation.ReflTransGen (FeedStep config) x x') : x.2.cursor ≤ x'.2.cursor := by
  induction h' with
  | refl => exact le_refl _
  | tail hsteps hstep ih => exact ih.trans (hstep.cursor_le (FeedRun.follows (h.trans hsteps)))

/-- What a write to an item does that changes the table: the row is under the number that was next. -/
structure Server.Numbers (s s' : Server) (itemId : ItemId) (seq version : Nat) : Prop where
  taken : seq = s.nextSeq
  next : s'.nextSeq = s.nextSeq + 1
  wrote : ∃ row, s'.rows[itemId]? = some row ∧ row.seq = seq ∧ row.version = version

theorem Server.numbers_store (s : Server) (itemId : ItemId) (version : Nat) (envelope : Option Bytes) (now : Int)
    (h : 0 < version) : s.Numbers (s.store itemId version envelope now h) itemId s.nextSeq version :=
  ⟨rfl, rfl, _, by rw [rows_store, if_pos rfl], rfl, rfl⟩

/-- **The feed.** At every point of a run the numbers in the table are distinct and below the next one; a write that
goes through takes exactly that one; the cursor never goes back, and a page with an entry moves it on; and after a
page that says there are no more, the reader agrees with the table on every row. -/
theorem feed_misses_nothing {s : Server} {r : Reader} (h : FeedRun config (s, r)) :
    (∀ (id id' : ItemId) (row row' : ServerRow), s.rows[id]? = some row → s.rows[id']? = some row' →
      row.seq = row'.seq → id = id') ∧
    (∀ (id : ItemId) (row : ServerRow), s.rows[id]? = some row → row.seq < s.nextSeq) ∧
    (∀ {limits : Limits} {itemId : ItemId} {precondition : Nat} {envelope : Bytes} {now : Int} {outcome : WriteOutcome}
      {s' : Server}, s.putItem limits itemId precondition envelope now = .ok (outcome, s') →
      (∀ seq version, outcome = .ok seq version → s.Numbers s' itemId seq version) ∧
      ((∀ seq version, outcome ≠ .ok seq version) → s' = s)) ∧
    (∀ {itemId : ItemId} {precondition : Nat} {now : Int} {outcome : WriteOutcome} {s' : Server},
      s.deleteItem itemId precondition now = .ok (outcome, s') →
      s' = s ∨ ∃ seq version, outcome = .ok seq version ∧ s.Numbers s' itemId seq version) ∧
    (∀ {s' : Server} {r' : Reader}, Relation.ReflTransGen (FeedStep config) (s, r) (s', r') → r.cursor ≤ r'.cursor) ∧
    (∀ limit : Nat, 1 ≤ limit → limit ≤ config.maxChangesLimit →
      (serveChanges config r.since limit s).page.isSome) ∧
    (∀ {limit : Nat} {changes : List RawChange} {nextSeq : I64} {hasMore : Bool},
      (serveChanges config r.since limit s).page = some (changes, nextSeq, hasMore) →
      (r.take (serveChanges config r.since limit s)).cursor = nextSeq.val ∧
      r.cursor ≤ nextSeq.val ∧ (changes ≠ [] → r.cursor < nextSeq.val) ∧
      (hasMore = false → ∀ (id : ItemId) (row : ServerRow), s.rows[id]? = some row →
        (r.take (serveChanges config r.since limit s)).Agrees id row)) := by
  -- what a run keeps between the server and a reader of its feed; the rest reads it off
  have hfollows : Reader.Follows s r := h.follows
  refine ⟨s.unique, fun id row hrow => (s.stamped id row hrow).2.1, ?_, ?_, ?_, ?_, ?_⟩
  · intro limits itemId precondition envelope now outcome s' hput
    cases Server.put_of_putItem hput with
    | written _ _ _ =>
      constructor
      · intro seq version heq
        cases heq
        exact s.numbers_store ..
      · intro hnone
        exact absurd rfl (hnone _ _)
    | conflict _ => exact ⟨nofun, fun _ => rfl⟩
    | full _ hfull =>
      refine ⟨?_, fun _ => rfl⟩
      intro seq version heq
      rw [heq] at hfull
      simp at hfull
  · intro itemId precondition now outcome s' hdelete
    cases Server.delete_of_deleteItem hdelete with
    | missing _ | conflict _ _ | again _ _ _ => exact .inl rfl
    | reclaimed _ _ _ => exact .inr ⟨_, _, rfl, s.numbers_store ..⟩
  · intro s' r' hsteps
    exact h.cursor_le hsteps
  · intro limit hlow hhigh
    have hnonneg := hfollows.nonneg
    change 0 ≤ (r.since.map Subtype.val).getD 0 at hnonneg
    rw [page_serveChanges, if_neg (by omega)]
    rfl
  · intro limit changes nextSeq hasMore hpage
    have htake : r.take (serveChanges config r.since limit s) = ⟨some nextSeq, changes.foldl Reader.replay r.seen⟩ := by
      unfold Reader.take
      rw [hpage]
    have hof := hfollows.pageOf hpage
    rw [htake]
    exact ⟨rfl, (hfollows.cursor_le hof).1, (hfollows.cursor_le hof).2,
      fun hwhole id row hrow => hfollows.agrees hof hrow (.inl hwhole)⟩

/-- The row of a first write is there after one poll. -/
theorem feed_misses_nothing_first : ∃ (s : Server) (r : Reader) (id : ItemId) (row : ServerRow),
    s.rows[id]? = some row ∧ (r.take (serveChanges ⟨8, ⟨8, 8⟩, 8⟩ r.since 1 s)).Agrees id row := by
  let id : ItemId := ⟨.repeated 16 7⟩
  let s := Server.new.store id 1 (some [1]) 0 Nat.one_pos
  have hput : Server.new.putItem ⟨8, 8⟩ id 0 [1] 0 = .ok (.ok 1 1, s) := by rfl
  have hrow : s.rows[id]? = some ⟨1, 1, some [1], 0⟩ := by
    rw [Server.rows_store, if_pos rfl]
    rfl
  have hpage : (serveChanges ⟨8, ⟨8, 8⟩, 8⟩ Reader.new.since 1 s).page =
      some ([changeEntry (id, ⟨1, 1, some [1], 0⟩)], .saturate 1, false) := by rfl
  have h := @feed_misses_nothing ⟨8, ⟨8, 8⟩, 8⟩ _ _ (.single (.put hput))
  exact ⟨s, .new, id, _, hrow, (h.2.2.2.2.2.2 hpage).2.2.2 rfl id _ hrow⟩

end Misty
