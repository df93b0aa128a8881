import Misty.Sync.Engine

/- The outbound queue as a set: what `pending` lists is told by the rows and by what
   the server confirmed, and a row is left off exactly when it is confirmed. -/
namespace Misty

open Std (ExtTreeMap)

variable (E : Externals) (state : SyncState)

/-- `pendingPuts` never fails: an output of 32 bytes is one the key derivation gives. -/
theorem pendingPuts_eq : ∀ rows : List StoredEnvelope, pendingPuts E state rows =
    .ok ((rows.filter (fun row => !state.confirmed row.itemId (fingerprint E row.envelope))).map
      (fun row => ⟨row.itemId, .put⟩))
  | [] => rfl
  | row :: rest => by
    unfold pendingPuts
    rw [Fingerprint.of_eq, pendingPuts_eq rest]
    show Except.ok _ = _
    cases hc : state.confirmed row.itemId (fingerprint E row.envelope) <;> simp [hc]

/-- What `pending` lists. -/
def pendingList (rows : List StoredEnvelope) : List PendingWrite :=
  ((rows.filter (fun row : StoredEnvelope => !state.confirmed row.itemId (fingerprint E row.envelope))).map
    (fun row => (⟨row.itemId, .put⟩ : PendingWrite)) ++ pendingDeletes state rows).insertionSort
      (fun a b => a.le b)

theorem pendingOf_eq (rows : List StoredEnvelope) : pendingOf E state rows = .ok (pendingList E state rows) := by
  unfold pendingOf
  rw [pendingPuts_eq]
  rfl

theorem mem_pendingList (rows : List StoredEnvelope) (write : PendingWrite) :
    write ∈ pendingList E state rows ↔
      (∃ row ∈ rows, state.confirmed row.itemId (fingerprint E row.envelope) = false ∧
        write = ⟨row.itemId, .put⟩) ∨ write ∈ pendingDeletes state rows := by
  unfold pendingList
  rw [List.mem_insertionSort, List.mem_append, List.mem_map]
  apply or_congr _ Iff.rfl
  constructor
  · intro h
    obtain ⟨row, hrow, rfl⟩ := h
    rw [List.mem_filter, Bool.not_eq_true'] at hrow
    exact ⟨row, hrow.1, hrow.2, rfl⟩
  · intro h
    obtain ⟨row, hrow, hc, rfl⟩ := h
    exact ⟨row, List.mem_filter.mpr ⟨hrow, by rw [hc]; rfl⟩, rfl⟩

theorem mem_pendingDeletes (rows : List StoredEnvelope) (write : PendingWrite) :
    write ∈ pendingDeletes state rows ↔ write.action = .delete ∧
      ∃ row, state.known[write.itemId]? = some row ∧ row.isDeletable = true ∧
        ∀ stored ∈ rows, stored.itemId ≠ write.itemId := by
  unfold pendingDeletes
  rw [List.mem_map]
  constructor
  · intro h
    obtain ⟨⟨id, row⟩, hmem, rfl⟩ := h
    rw [List.mem_filter] at hmem
    obtain ⟨hknown, hcond⟩ := hmem
    rw [Bool.and_eq_true, Bool.not_eq_true'] at hcond
    refine ⟨rfl, row, OrdMap.mem_toList.mp hknown, hcond.1, ?_⟩
    intro stored hstored hid
    have hany := List.any_eq_false.mp hcond.2 stored hstored
    exact hany (by simpa using hid)
  · intro h
    obtain ⟨haction, row, hknown, hkind, hnone⟩ := h
    refine ⟨(write.itemId, row), ?_, ?_⟩
    · rw [List.mem_filter]
      refine ⟨OrdMap.mem_toList.mpr hknown, ?_⟩
      rw [Bool.and_eq_true, Bool.not_eq_true']
      refine ⟨hkind, List.any_eq_false.mpr ?_⟩
      intro stored hstored
      simpa using hnone stored hstored
    · cases write
      cases haction
      rfl

/-- A row is listed for `PUT` exactly when it is not confirmed. -/
theorem put_mem_pendingList {image : Image} {id : ItemId} {row : StoredEnvelope} (hrow : image.rows[id]? = some row) :
    ⟨id, .put⟩ ∈ pendingList E state image.records ↔ state.confirmed id (fingerprint E row.envelope) = false := by
  have hid : row.itemId = id := image.keyed id row hrow
  rw [mem_pendingList]
  constructor
  · intro hlisted
    rcases hlisted with ⟨row', hrow', hnot, hput⟩ | hdelete
    · cases hput
      have hsame : row' = row := Option.some.inj ((Image.mem_records.mp hrow').symm.trans hrow)
      rw [← hsame]
      exact hnot
    · exact absurd ((mem_pendingDeletes state _ _).mp hdelete).1 (by simp)
  · intro hnot
    refine .inl ⟨row, Image.mem_records.mpr ?_, ?_, by rw [hid]⟩
    · rw [hid]
      exact hrow
    · rw [hid]
      exact hnot

theorem nodup_deletes (rows : List StoredEnvelope) :
    (((pendingList E state rows).filter (fun write => write.action = .delete)).map PendingWrite.itemId).Nodup := by
  have hperm : ((pendingList E state rows).filter (fun write => decide (write.action = .delete))).Perm
      (pendingDeletes state rows) := by
    refine ((List.perm_insertionSort _ _).filter _).trans ?_
    rw [List.filter_append, List.filter_eq_nil_iff.mpr, List.nil_append, List.filter_eq_self.mpr]
    · intro write hwrite
      simpa using ((mem_pendingDeletes state rows write).mp hwrite).1
    · intro write hwrite
      obtain ⟨row, -, rfl⟩ := List.mem_map.mp hwrite
      simp
  refine (hperm.map PendingWrite.itemId).nodup_iff.mpr ?_
  unfold pendingDeletes
  rw [List.map_map, List.Nodup, List.pairwise_map]
  exact (OrdMap.nodup_keys state.known).filter _

end Misty
