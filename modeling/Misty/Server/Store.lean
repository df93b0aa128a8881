import Misty.Error

/- The server's store for one vault: rows it cannot read, each with the sequence
   number and the version of its last write.

   Correspondence (Rust ↔ Lean):
     table `items`, column `vaults.next_seq`   ↔ `Server`, with what its indices and its
                                                 transactions keep true as fields
     `store::{Precondition, Written, WriteOutcome, Limits}` ↔ a `Nat`, `WriteOutcome`, `Limits`
     `SqliteStore::{put_item, delete_item, changes, sweep}` ↔ the same names
   `deleted` is not a field: the table's `CHECK` makes it say that there are no bytes. -/
namespace Misty

open Std (ExtTreeMap)

/-- One row of the server's `items`. -/
structure ServerRow where
  seq : Nat
  version : Nat
  envelope : Option Bytes
  updatedAt : Int
  deriving DecidableEq

/-- The `deleted` column. -/
def ServerRow.deleted (self : ServerRow) : Bool := self.envelope.isNone

/-- What a row takes of the byte limit. -/
def ServerRow.len (self : ServerRow) : Nat := (self.envelope.map List.length).getD 0

/-- The rows of one vault and the next sequence number. Every number a row carries was
handed out, none twice, and versions start at 1. -/
structure Server where
  rows : ExtTreeMap ItemId ServerRow
  nextSeq : Nat
  started : 0 < nextSeq
  stamped : ∀ (id : ItemId) (row : ServerRow), rows[id]? = some row →
    0 < row.seq ∧ row.seq < nextSeq ∧ 0 < row.version
  unique : ∀ (id id' : ItemId) (row row' : ServerRow), rows[id]? = some row → rows[id']? = some row' →
    row.seq = row'.seq → id = id'

structure Limits where
  maxRows : Nat
  maxBytes : Nat

/-- What stops the store itself. -/
inductive StoreError where
  | corrupt (field : String)
  deriving DecidableEq

inductive WriteOutcome where
  | ok (seq version : Nat)
  | conflict (version : Nat) (envelope : Option Bytes)
  | itemLimit
  | byteLimit
  | missing
  deriving DecidableEq

/-- `as_i64`: SQLite stores an `i64`. -/
def asI64 (field : String) (n : Nat) : Except StoreError Unit :=
  if n < 2 ^ 63 then .ok () else .error (.corrupt field)

namespace Server

/-- A vault nothing was written to. -/
def new : Server := ⟨∅, 1, Nat.one_pos, by simp, by simp⟩

/-- `allocate_seq` and the write of a row, under the next sequence number. -/
def store (self : Server) (itemId : ItemId) (version : Nat) (envelope : Option Bytes) (now : Int)
    (hversion : 0 < version) : Server where
  rows := self.rows.insert itemId ⟨self.nextSeq, version, envelope, now⟩
  nextSeq := self.nextSeq + 1
  started := Nat.succ_pos _
  stamped id row h := by
    rw [OrdMap.getElem?_insert] at h
    split at h
    · cases h
      exact ⟨self.started, Nat.lt_succ_self _, hversion⟩
    · have hrow := self.stamped id row h
      exact ⟨hrow.1, Nat.lt_succ_of_lt hrow.2.1, hrow.2.2⟩
  unique id id' row row' h h' hsame := by
    rw [OrdMap.getElem?_insert] at h h'
    split at h
    · next hid =>
      cases h
      split at h'
      · next hid' => exact hid.symm.trans hid'
      · exact absurd hsame (Nat.ne_of_gt (self.stamped id' row' h').2.1)
    · split at h'
      · cases h'
        exact absurd hsame (Nat.ne_of_lt (self.stamped id row h).2.1)
      · exact self.unique id id' row row' h h' hsame

/-- `SELECT COALESCE(SUM(LENGTH(envelope)), 0)`. -/
def bytesUsed (self : Server) : Nat := (self.rows.toList.map (fun p => p.2.len)).sum

/-- The second half of `put_item`: the limits, then the write over `current`. -/
def write (limits : Limits) (self : Server) (itemId : ItemId) (current : Option ServerRow) (envelope : Bytes)
    (now : Int) : Except StoreError (WriteOutcome × Server) := do
  let previousLen := (current.map ServerRow.len).getD 0
  -- `SUM` fails where it does not fit
  asI64 "items bytes" self.bytesUsed
  if current.isNone ∧ limits.maxRows ≤ self.rows.size then return (.itemLimit, self)
  else if limits.maxBytes < min (self.bytesUsed - previousLen + envelope.length) (2 ^ 64 - 1) then
    return (.byteLimit, self)
  else
    let version := (current.map ServerRow.version).getD 0 + 1
    asI64 "seq" self.nextSeq
    asI64 "version" version
    return (.ok self.nextSeq version, self.store itemId version (some envelope) now (Nat.succ_pos _))

def putItem (limits : Limits) (self : Server) (itemId : ItemId) (precondition : Nat) (envelope : Bytes)
    (now : Int) : Except StoreError (WriteOutcome × Server) :=
  match self.rows[itemId]? with
  | none =>
    if precondition = 0 then self.write limits itemId none envelope now
    -- Version 0 says "absent" without a second response shape.
    else .ok (.conflict 0 none, self)
  | some row =>
    if precondition = row.version then self.write limits itemId (some row) envelope now
    else .ok (.conflict row.version row.envelope, self)

def deleteItem (self : Server) (itemId : ItemId) (precondition : Nat) (now : Int) :
    Except StoreError (WriteOutcome × Server) :=
  match self.rows[itemId]? with
  | none => .ok (.missing, self)
  | some current =>
    if precondition ≠ current.version then .ok (.conflict current.version current.envelope, self)
    else if current.deleted then .ok (.ok current.seq current.version, self)
    else do
      asI64 "seq" self.nextSeq
      asI64 "version" (current.version + 1)
      return (.ok self.nextSeq (current.version + 1),
        self.store itemId (current.version + 1) none now (Nat.succ_pos _))

/-- `WHERE seq > ?2 ORDER BY seq ASC`. -/
def after (self : Server) (since : Nat) : List (ItemId × ServerRow) :=
  (self.rows.toList.filter (fun p => since < p.2.seq)).insertionSort (fun a b => a.2.seq ≤ b.2.seq)

/-- `changes`: at most `limit` of these rows, and whether there are more. -/
def changes (self : Server) (since limit : Nat) : List (ItemId × ServerRow) × Bool :=
  ((self.after since).take limit, limit < (self.after since).length)

/-- `sweep`: reclaimed rows past the horizon are dropped. -/
def sweep (self : Server) (horizon : Int) : Server where
  rows := self.rows.filter (fun _ row => !(row.deleted && row.updatedAt ≤ horizon))
  nextSeq := self.nextSeq
  started := self.started
  stamped id row h := by
    rw [ExtTreeMap.getElem?_filter'] at h
    exact self.stamped id row (Option.filter_eq_some_iff.mp h).1
  unique id id' row row' h h' := by
    rw [ExtTreeMap.getElem?_filter'] at h h'
    exact self.unique id id' row row' (Option.filter_eq_some_iff.mp h).1 (Option.filter_eq_some_iff.mp h').1

/-! ## What a write did -/

@[simp] theorem rows_store (self : Server) (itemId id : ItemId) (version : Nat) (envelope : Option Bytes) (now : Int)
    (h : 0 < version) : (self.store itemId version envelope now h).rows[id]? =
      if itemId = id then some ⟨self.nextSeq, version, envelope, now⟩ else self.rows[id]? :=
  OrdMap.getElem?_insert ..

@[simp] theorem nextSeq_store (self : Server) (itemId : ItemId) (version : Nat) (envelope : Option Bytes) (now : Int)
    (h : 0 < version) : (self.store itemId version envelope now h).nextSeq = self.nextSeq + 1 := rfl

@[simp] theorem rows_sweep (self : Server) (horizon : Int) (id : ItemId) : (self.sweep horizon).rows[id]? =
    (self.rows[id]?).filter (fun row => !(row.deleted && row.updatedAt ≤ horizon)) :=
  ExtTreeMap.getElem?_filter'

/-- The version a row is at; 0 where there is none. -/
def versionAt (self : Server) (itemId : ItemId) : Nat := ((self.rows[itemId]?).map ServerRow.version).getD 0

/-- What `put_item` comes to. -/
inductive Put (self : Server) (itemId : ItemId) (precondition : Nat) (envelope : Bytes) (now : Int) :
    WriteOutcome → Server → Prop
  | written : precondition = self.versionAt itemId → self.nextSeq < 2 ^ 63 → precondition + 1 < 2 ^ 63 →
      Put self itemId precondition envelope now (.ok self.nextSeq (precondition + 1))
        (self.store itemId (precondition + 1) (some envelope) now (Nat.succ_pos _))
  | conflict : precondition ≠ self.versionAt itemId →
      Put self itemId precondition envelope now
        (.conflict (self.versionAt itemId) ((self.rows[itemId]?).bind ServerRow.envelope)) self
  | full {outcome : WriteOutcome} : precondition = self.versionAt itemId →
      outcome = .itemLimit ∨ outcome = .byteLimit → Put self itemId precondition envelope now outcome self

theorem asI64_eq_ok {field : String} {n : Nat} {u : Unit} : asI64 field n = .ok u ↔ n < 2 ^ 63 := by
  unfold asI64
  split
  · next h => exact ⟨fun _ => h, fun _ => rfl⟩
  · next h => exact ⟨nofun, fun h' => absurd h' h⟩

theorem put_of_write {limits : Limits} {self : Server} {itemId : ItemId} {current : Option ServerRow}
    {envelope : Bytes} {now : Int} {outcome : WriteOutcome} {self' : Server} {precondition : Nat}
    (hcurrent : self.rows[itemId]? = current) (hp : precondition = self.versionAt itemId)
    (h : self.write limits itemId current envelope now = .ok (outcome, self')) :
    self.Put itemId precondition envelope now outcome self' := by
  obtain ⟨_, -, h⟩ := bind_eq_ok.mp h
  dsimp only at h
  split at h
  · cases h
    exact .full hp (.inl rfl)
  · split at h
    · cases h
      exact .full hp (.inr rfl)
    · have hversion : (current.map ServerRow.version).getD 0 + 1 = precondition + 1 := by
        rw [hp, versionAt, hcurrent]
      obtain ⟨_, hseq, h⟩ := bind_eq_ok.mp h
      obtain ⟨_, hlast, h⟩ := bind_eq_ok.mp h
      cases h
      simp only [hversion]
      rw [hversion] at hlast
      exact .written hp (asI64_eq_ok.mp hseq) (asI64_eq_ok.mp hlast)

theorem put_of_putItem {limits : Limits} {self : Server} {itemId : ItemId} {precondition : Nat} {envelope : Bytes}
    {now : Int} {outcome : WriteOutcome} {self' : Server}
    (h : self.putItem limits itemId precondition envelope now = .ok (outcome, self')) :
    self.Put itemId precondition envelope now outcome self' := by
  unfold putItem at h
  split at h
  · next hrow =>
    have hversion : self.versionAt itemId = 0 := by simp [versionAt, hrow]
    split at h
    · next hp => exact put_of_write hrow (hp.trans hversion.symm) h
    · next hp =>
      cases h
      have hconflict : self.Put itemId precondition envelope now _ self := .conflict (hversion ▸ hp)
      rw [hversion, hrow] at hconflict
      exact hconflict
  · next row hrow =>
    have hversion : self.versionAt itemId = row.version := by simp [versionAt, hrow]
    split at h
    · next hp => exact put_of_write hrow (hp.trans hversion.symm) h
    · next hp =>
      cases h
      have hconflict : self.Put itemId precondition envelope now _ self := .conflict (hversion ▸ hp)
      rw [hversion, hrow] at hconflict
      exact hconflict

/-- What `delete_item` comes to. -/
inductive Delete (self : Server) (itemId : ItemId) (precondition : Nat) (now : Int) : WriteOutcome → Server → Prop
  | missing : self.rows[itemId]? = none → Delete self itemId precondition now .missing self
  | conflict {row : ServerRow} : self.rows[itemId]? = some row → precondition ≠ row.version →
      Delete self itemId precondition now (.conflict row.version row.envelope) self
  | again {row : ServerRow} : self.rows[itemId]? = some row → precondition = row.version → row.envelope = none →
      Delete self itemId precondition now (.ok row.seq row.version) self
  | reclaimed {row : ServerRow} : self.rows[itemId]? = some row → precondition = row.version →
      row.envelope ≠ none → Delete self itemId precondition now (.ok self.nextSeq (precondition + 1))
        (self.store itemId (precondition + 1) none now (Nat.succ_pos _))

theorem delete_of_deleteItem {self : Server} {itemId : ItemId} {precondition : Nat} {now : Int}
    {outcome : WriteOutcome} {self' : Server}
    (h : self.deleteItem itemId precondition now = .ok (outcome, self')) :
    self.Delete itemId precondition now outcome self' := by
  unfold deleteItem at h
  split at h
  · next hrow =>
    cases h
    exact .missing hrow
  · next row hrow =>
    split at h
    · next hp =>
      cases h
      exact .conflict hrow hp
    · next hp =>
      have hp : precondition = row.version := not_not.mp hp
      split at h
      · next hdeleted =>
        cases h
        exact .again hrow hp (Option.isNone_iff_eq_none.mp hdeleted)
      · next hdeleted =>
        obtain ⟨_, -, h⟩ := bind_eq_ok.mp h
        obtain ⟨_, -, h⟩ := bind_eq_ok.mp h
        cases h
        subst hp
        refine .reclaimed hrow rfl ?_
        intro hnone
        exact hdeleted (Option.isNone_iff_eq_none.mpr hnone)

/-! ## The feed -/

theorem mem_after {self : Server} {since : Nat} {p : ItemId × ServerRow} :
    p ∈ self.after since ↔ self.rows[p.1]? = some p.2 ∧ since < p.2.seq := by
  unfold after
  rw [List.mem_insertionSort, List.mem_filter, ← OrdMap.mem_toList, decide_eq_true_iff]

/-- The feed goes up: no two rows share a sequence number. -/
theorem after_ascends (self : Server) (since : Nat) :
    (self.after since).Pairwise (fun a b => a.2.seq < b.2.seq) := by
  have hsorted : (self.after since).Pairwise (fun a b => a.2.seq ≤ b.2.seq) := List.pairwise_insertionSort _ _
  have hdistinct : (self.after since).Pairwise (fun a b => a.2.seq ≠ b.2.seq) := by
    refine ((List.perm_insertionSort _ _).pairwise_iff (fun h => Ne.symm h)).mpr ?_
    refine ((OrdMap.nodup_keys self.rows).filter _).imp_of_mem ?_
    intro a b ha hb hne hseq
    have hrow := fun {p : ItemId × ServerRow} (hp : p ∈ self.rows.toList.filter (fun p => decide (since < p.2.seq))) =>
      OrdMap.mem_toList.mp (List.mem_filter.mp hp).1
    exact hne (self.unique _ _ _ _ (hrow ha) (hrow hb) hseq)
  exact (hsorted.and hdistinct).imp (fun h => lt_of_le_of_ne h.1 h.2)

theorem mem_changes {self : Server} {since limit : Nat} {p : ItemId × ServerRow}
    (h : p ∈ (self.changes since limit).1) : self.rows[p.1]? = some p.2 ∧ since < p.2.seq :=
  mem_after.mp (List.mem_of_mem_take h)

/-- A page skips nothing up to its last row, and nothing at all when there are no more. -/
theorem changes_complete {self : Server} {since limit : Nat} {id : ItemId} {row : ServerRow}
    (hrow : self.rows[id]? = some row) (hsince : since < row.seq)
    (hupto : (self.changes since limit).2 = false ∨ ∃ p ∈ (self.changes since limit).1, row.seq ≤ p.2.seq) :
    (id, row) ∈ (self.changes since limit).1 := by
  have hmem : (id, row) ∈ self.after since := mem_after.mpr ⟨hrow, hsince⟩
  rcases hupto with hwhole | ⟨p, hp, hle⟩
  · have hlen : (self.after since).length ≤ limit := by simpa [changes] using hwhole
    show (id, row) ∈ List.take limit _
    rw [List.take_of_length_le hlen]
    exact hmem
  · -- what is past the cut is later than all before it
    have hascends := self.after_ascends since
    rw [← List.take_append_drop limit (self.after since)] at hmem hascends
    rcases List.mem_append.mp hmem with hin | hout
    · exact hin
    · have hlt := (List.pairwise_append.mp hascends).2.2 p hp (id, row) hout
      exact absurd hle (Nat.not_le.mpr hlt)

/-! ## Servers a vault can come to -/

/-- Every write and every sweep, from an empty vault on. -/
inductive Reached (limits : Limits) : Server → Prop
  | new : Reached limits .new
  | put {self self' : Server} {itemId : ItemId} {precondition : Nat} {envelope : Bytes} {now : Int}
      {outcome : WriteOutcome} : Reached limits self →
      self.putItem limits itemId precondition envelope now = .ok (outcome, self') → Reached limits self'
  | delete {self self' : Server} {itemId : ItemId} {precondition : Nat} {now : Int} {outcome : WriteOutcome} :
      Reached limits self → self.deleteItem itemId precondition now = .ok (outcome, self') → Reached limits self'
  | swept {self : Server} {horizon : Int} : Reached limits self → Reached limits (self.sweep horizon)

/-- A `delete_item` that changes something writes numbers that fit their columns. -/
theorem fits_of_deleteItem {self self' : Server} {itemId : ItemId} {precondition : Nat} {now : Int}
    {outcome : WriteOutcome} (h : self.deleteItem itemId precondition now = .ok (outcome, self')) :
    self' = self ∨ self.nextSeq < 2 ^ 63 ∧ precondition + 1 < 2 ^ 63 := by
  unfold deleteItem at h
  split at h
  · cases h
    exact .inl rfl
  · split at h
    · cases h
      exact .inl rfl
    · next hp =>
      split at h
      · cases h
        exact .inl rfl
      · obtain ⟨_, hseq, h₁⟩ := bind_eq_ok.mp h
        obtain ⟨_, hversion, h₂⟩ := bind_eq_ok.mp h₁
        rw [← not_not.mp hp] at hversion
        exact .inr ⟨asI64_eq_ok.mp hseq, asI64_eq_ok.mp hversion⟩

theorem Reached.version_lt {limits : Limits} {self : Server} (h : Reached limits self) :
    ∀ (id : ItemId) (row : ServerRow), self.rows[id]? = some row → row.version < 2 ^ 63 := by
  induction h with
  | new => simp [Server.new]
  | put _ hput ih =>
    cases put_of_putItem hput with
    | written _ _ hlast =>
      intro id row hrow
      rw [rows_store] at hrow
      split at hrow
      · cases hrow
        exact hlast
      · exact ih id row hrow
    | conflict _ | full _ _ => exact ih
  | delete _ hdelete ih =>
    rcases fits_of_deleteItem hdelete with rfl | ⟨-, hlast⟩
    · exact ih
    · cases delete_of_deleteItem hdelete with
      | missing _ | conflict _ _ | again _ _ _ => exact ih
      | reclaimed _ _ _ =>
        intro id row hrow
        rw [rows_store] at hrow
        split at hrow
        · cases hrow
          exact hlast
        · exact ih id row hrow
  | swept _ ih =>
    intro id row hrow
    rw [rows_sweep] at hrow
    exact ih id row (Option.filter_eq_some_iff.mp hrow).1

end Server

end Misty
