import Misty.Vault.Hlc
import Misty.Crypto.Envelope
import Misty.Lib.Exec

/- Storage: the rows, the `VaultStore` trait with its `transaction`, and the two
   backends. Every method returns the store it leaves behind in both outcomes.

   `LawfulStore` is what the vault relies on: a store can be viewed as the rows and
   the epoch a reader sees now, and the images the open transactions would be rolled
   back to; a method that fails leaves that view as it was. A refused commit is the
   exception: it may leave its transaction open, or, if that is the outermost one, have
   it rolled back by the database itself.

   Correspondence (Rust ↔ Lean):
     `store::{StoredEnvelope, VaultStore}`     ↔ `StoredEnvelope`, `VaultStore`
     `VaultStore::transaction`                 ↔ `transaction`
     `MemoryStore`, `SqliteStore`              ↔ the same names
     `rusqlite::Connection`                    ↔ `Connection`, with the statements
       `BEGIN IMMEDIATE`, `SAVEPOINT`, `COMMIT`, `RELEASE`, `ROLLBACK [TO]`
   Which statements the disk or a lock refuses is an input, `SqliteStore.faults`, and so
   is at which refused commits SQLite rolls back by itself, `SqliteStore.cancels`. -/
namespace Misty

open Std (ExtTreeMap)

/-- One row of `items`. -/
structure StoredEnvelope where
  itemId : ItemId
  kind : EnvelopeKind
  seq : Option I64
  version : Option Bytes
  envelope : Bytes
  hlcMax : Hlc
  deriving DecidableEq

/-- What the tables hold: rows under their own ids, and the epoch. -/
structure Image where
  rows : ExtTreeMap ItemId StoredEnvelope
  epoch : U32
  keyed : ∀ (id : ItemId) (r : StoredEnvelope), rows[id]? = some r → r.itemId = id

namespace Image

theorem ext_rows {a b : Image} (hr : a.rows = b.rows) (he : a.epoch = b.epoch) : a = b := by
  cases a
  cases b
  simp only [Image.mk.injEq]
  exact ⟨hr, he⟩

instance : DecidableEq Image := fun a b =>
  decidable_of_iff (a.rows = b.rows ∧ a.epoch = b.epoch)
    ⟨fun h => ext_rows h.1 h.2, fun h => ⟨congrArg rows h, congrArg epoch h⟩⟩

/-- Empty tables, at epoch 0. -/
def empty : Image := ⟨∅, 0, by simp⟩

/-- The rows in key order. -/
def records (self : Image) : List StoredEnvelope := self.rows.toList.map Prod.snd

/-- `INSERT … ON CONFLICT DO UPDATE`. -/
def put (self : Image) (record : StoredEnvelope) : Image where
  rows := self.rows.insert record.itemId record
  epoch := self.epoch
  keyed id r h := by
    rw [OrdMap.getElem?_insert] at h
    split at h
    · next hi =>
      cases h
      exact hi
    · exact self.keyed id r h

/-- `DELETE FROM items WHERE item_id = …`. -/
def remove (self : Image) (id : ItemId) : Image where
  rows := self.rows.erase id
  epoch := self.epoch
  keyed i r h := by
    rw [OrdMap.getElem?_erase] at h
    split at h
    · cases h
    · exact self.keyed i r h

/-- The `epoch` row of `meta`. -/
def setEpoch (self : Image) (epoch : U32) : Image := { self with epoch := epoch }

@[simp] theorem rows_put (i : Image) (r : StoredEnvelope) (id : ItemId) :
    (i.put r).rows[id]? = if r.itemId = id then some r else i.rows[id]? :=
  OrdMap.getElem?_insert ..

@[simp] theorem rows_remove (i : Image) (k id : ItemId) :
    (i.remove k).rows[id]? = if k = id then none else i.rows[id]? :=
  OrdMap.getElem?_erase ..

@[simp] theorem epoch_put (i : Image) (r : StoredEnvelope) : (i.put r).epoch = i.epoch := rfl
@[simp] theorem epoch_remove (i : Image) (k : ItemId) : (i.remove k).epoch = i.epoch := rfl
@[simp] theorem rows_setEpoch (i : Image) (e : U32) : (i.setEpoch e).rows = i.rows := rfl
@[simp] theorem epoch_setEpoch (i : Image) (e : U32) : (i.setEpoch e).epoch = e := rfl

theorem mem_records {i : Image} {r : StoredEnvelope} : r ∈ i.records ↔ i.rows[r.itemId]? = some r := by
  constructor
  · intro h
    obtain ⟨⟨k, r'⟩, hmem, rfl⟩ := List.mem_map.mp h
    have hget := OrdMap.mem_toList.mp hmem
    rw [i.keyed k r' hget]
    exact hget
  · intro h
    exact List.mem_map.mpr ⟨(r.itemId, r), OrdMap.mem_toList.mpr h, rfl⟩

theorem nodup_records (i : Image) : (i.records.map StoredEnvelope.itemId).Nodup := by
  have hkeys := OrdMap.nodup_keys i.rows
  unfold records
  rw [List.map_map, List.Nodup, List.pairwise_map]
  refine hkeys.imp_of_mem ?_
  intro a b ha hb hne
  show (Prod.snd a).itemId ≠ (Prod.snd b).itemId
  rw [i.keyed a.1 a.2 (OrdMap.mem_toList.mp ha), i.keyed b.1 b.2 (OrdMap.mem_toList.mp hb)]
  exact hne

end Image

/-! ## The trait -/

/-- A computation over a store, or over a vault. -/
abbrev Io (S α : Type) := EStateM VaultError S α

/-- `trait VaultStore`. -/
class VaultStore (S : Type) where
  loadAll : Io S (List StoredEnvelope)
  get : ItemId → Io S (Option StoredEnvelope)
  put : StoredEnvelope → Io S Unit
  remove : ItemId → Io S Unit
  epoch : Io S U32
  setEpoch : U32 → Io S Unit
  begin : Io S Unit
  commit : Io S Unit
  rollback : Io S Unit

/-- `VaultStore::transaction`. -/
def transaction {S α : Type} [VaultStore S] (f : Io S α) : Io S α := fun self =>
  match VaultStore.begin self with
  | .error e self => .error e self
  | .ok _ self =>
    match f self with
    | .ok value self =>
      match VaultStore.commit self with
      | .error e self => .error e self
      | .ok _ self => .ok value self
    | .error error self =>
      match VaultStore.rollback self with
      | .error e self => .error e self
      | .ok _ self => .error error self

theorem Meets.transaction {S α : Type} [VaultStore S] {f : Io S α} {s : S} {Q : α → S → Prop} {E : VaultError → S → Prop}
    (h : Meets VaultStore.begin s
      (fun _ s₁ => Meets f s₁
        (fun a s₂ => Meets VaultStore.commit s₂ (fun _ => Q a) E)
        (fun e s₂ => Meets VaultStore.rollback s₂ (fun _ => E e) E)) E) :
    Meets (Misty.transaction f) s Q E := by
  unfold Meets Misty.transaction
  unfold Meets at h
  cases hb : (VaultStore.begin : Io S Unit) s with
  | error e s₁ =>
    rw [hb] at h
    exact h
  | ok _ s₁ =>
    simp only [hb] at h ⊢
    cases hf : f s₁ with
    | ok a s₂ =>
      simp only [hf] at h ⊢
      cases hc : (VaultStore.commit : Io S Unit) s₂ with
      | ok _ s₃ =>
        simp only [hc] at h ⊢
        exact h
      | error e s₃ =>
        simp only [hc] at h ⊢
        exact h
    | error e s₂ =>
      simp only [hf] at h ⊢
      cases hc : (VaultStore.rollback : Io S Unit) s₂ with
      | ok _ s₃ =>
        simp only [hc] at h ⊢
        exact h
      | error e' s₃ =>
        simp only [hc] at h ⊢
        exact h

/-- What a reader of the store sees, and what the open transactions would restore,
innermost first. -/
structure StoreView where
  image : Image
  saved : List Image
  deriving DecidableEq

/-- What is on the disk: the image the outermost open transaction started from. -/
def StoreView.durable (v : StoreView) : Image := v.saved.getLast?.getD v.image

/-- The calls a store can refuse. -/
inductive Call where
  | loadAll
  | get
  | put
  | remove
  | epoch
  | setEpoch
  | begin
  | commit
  | rollback
  deriving DecidableEq

/-- A store that does what its trait says. `Accepts c s` says that from `s` on no call
`c` is refused. -/
class LawfulStore (S : Type) extends VaultStore S where
  view : S → StoreView
  Accepts : Call → S → Prop
  loadAll_spec : ∀ s : S, Meets loadAll s
    (fun l s' => view s' = view s ∧ l = (view s).image.records ∧ ∀ c, Accepts c s → Accepts c s')
    (fun _ s' => view s' = view s ∧ (∀ c, Accepts c s → Accepts c s') ∧ ¬ Accepts .loadAll s)
  get_spec : ∀ (id : ItemId) (s : S), Meets (get id) s
    (fun r s' => view s' = view s ∧ r = (view s).image.rows[id]? ∧ ∀ c, Accepts c s → Accepts c s')
    (fun _ s' => view s' = view s ∧ ∀ c, Accepts c s → Accepts c s')
  epoch_spec : ∀ s : S, Meets epoch s
    (fun e s' => view s' = view s ∧ e = (view s).image.epoch ∧ ∀ c, Accepts c s → Accepts c s')
    (fun _ s' => view s' = view s ∧ (∀ c, Accepts c s → Accepts c s') ∧ ¬ Accepts .epoch s)
  put_spec : ∀ (r : StoredEnvelope) (s : S), Meets (put r) s
    (fun _ s' => view s' = ⟨(view s).image.put r, (view s).saved⟩ ∧ ∀ c, Accepts c s → Accepts c s')
    (fun _ s' => view s' = view s ∧ ∀ c, Accepts c s → Accepts c s')
  remove_spec : ∀ (id : ItemId) (s : S), Meets (remove id) s
    (fun _ s' => view s' = ⟨(view s).image.remove id, (view s).saved⟩ ∧
      ∀ c, Accepts c s → Accepts c s')
    (fun _ s' => view s' = view s ∧ ∀ c, Accepts c s → Accepts c s')
  setEpoch_spec : ∀ (e : U32) (s : S), Meets (setEpoch e) s
    (fun _ s' => view s' = ⟨(view s).image.setEpoch e, (view s).saved⟩ ∧
      ∀ c, Accepts c s → Accepts c s')
    (fun _ s' => view s' = view s ∧ ∀ c, Accepts c s → Accepts c s')
  begin_spec : ∀ s : S, Meets begin s
    (fun _ s' => view s' = ⟨(view s).image, (view s).image :: (view s).saved⟩ ∧
      ∀ c, Accepts c s → Accepts c s')
    (fun _ s' => view s' = view s ∧ ∀ c, Accepts c s → Accepts c s')
  commit_spec : ∀ (s : S) (i : Image) (rest : List Image), (view s).saved = i :: rest →
    Meets commit s
      (fun _ s' => view s' = ⟨(view s).image, rest⟩ ∧ ∀ c, Accepts c s → Accepts c s')
      (fun _ s' => (view s' = view s ∨ rest = [] ∧ view s' = ⟨i, []⟩) ∧
        (∀ c, Accepts c s → Accepts c s') ∧ ¬ Accepts .commit s)
  rollback_spec : ∀ (s : S) (i : Image) (rest : List Image), (view s).saved = i :: rest →
    Meets rollback s
      (fun _ s' => view s' = ⟨i, rest⟩ ∧ ∀ c, Accepts c s → Accepts c s')
      (fun _ s' => view s' = view s ∧ (∀ c, Accepts c s → Accepts c s') ∧ ¬ Accepts .rollback s)

/-- A store that counts the transactions it has opened. -/
class CountedStore (S : Type) extends LawfulStore S where
  depth : S → Nat
  begin_depth : ∀ s : S, Meets begin s (fun _ s' => depth s' = depth s + 1) (fun _ s' => depth s' = depth s)
  commit_depth : ∀ s : S, Meets commit s (fun _ s' => depth s' + 1 = depth s) (fun _ s' => depth s' = depth s)
  rollback_depth : ∀ s : S, Meets rollback s (fun _ s' => depth s' + 1 = depth s) (fun _ s' => depth s' = depth s)

end Misty
