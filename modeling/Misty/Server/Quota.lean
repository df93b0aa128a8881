import Misty.Server.Store

/- The quotas of a vault. The byte limit is checked on the total with the old row taken
   out and the new one put in; the row limit counts rows whose bytes were reclaimed too,
   so a `put` over one of those needs no room for a row. A refused call returns before a
   sequence number is allocated. -/
namespace Misty

/-- A `Vec<u8>`, whose length is an `isize`. -/
abbrev VecBytes := {bytes : Bytes // bytes.length < 2 ^ 63}

/-- A call that writes rows. -/
inductive RowCall where
  | put (itemId : ItemId) (precondition : Nat) (envelope : VecBytes) (now : Int)
  | delete (itemId : ItemId) (precondition : Nat) (now : Int)
  | sweep (horizon : Int)

/-- A transaction's answer and what it leaves: where the store itself stops it is rolled back. -/
def Server.transact (self : Server) : Except StoreError (WriteOutcome × Server) → Option WriteOutcome × Server
  | .ok (outcome, self') => (some outcome, self')
  | .error _ => (none, self)

/-- A call made under limits. -/
def RowCall.make (limits : Limits) (self : Server) : RowCall → Option WriteOutcome × Server
  | put itemId precondition envelope now =>
    self.transact (self.putItem limits itemId precondition envelope.val now)
  | delete itemId precondition now => self.transact (self.deleteItem itemId precondition now)
  | sweep horizon => (none, self.sweep horizon)

/-- The vault after some calls, from an empty one on. -/
def Server.afterCalls (limits : Limits) (calls : List RowCall) : Server :=
  calls.foldl (fun self call => (call.make limits self).2) .new

/-- `Conflict`, `ItemLimit`, `ByteLimit`, `Missing`. -/
def WriteOutcome.refused : WriteOutcome → Bool
  | ok _ _ => false
  | _ => true

namespace Server

/-- Within the limits. -/
def Within (limits : Limits) (self : Server) : Prop :=
  self.rows.size ≤ limits.maxRows ∧ self.bytesUsed ≤ limits.maxBytes

/-- A call that is refused changes nothing, and a `put` that is not changes its own row and the next number. -/
def Costs (self : Server) (call : RowCall) (answered : Option WriteOutcome × Server) : Prop :=
  (∀ outcome, answered.1 = some outcome → outcome.refused = true → answered.2 = self) ∧
    ∀ itemId precondition envelope now seq version, call = .put itemId precondition envelope now →
      answered.1 = some (.ok seq version) →
        answered.2.nextSeq = self.nextSeq + 1 ∧ seq = self.nextSeq ∧
        answered.2.rows[itemId]? = some ⟨seq, version, some envelope.val, now⟩ ∧
        ∀ id, id ≠ itemId → answered.2.rows[id]? = self.rows[id]?

/-! ## What a call leaves -/

variable {limits : Limits} {self self' : Server} {itemId : ItemId} {current : Option ServerRow} {envelope : Bytes}
  {now : Int} {outcome : WriteOutcome}

theorem bytesUsed_store (self : Server) (itemId : ItemId) (version : Nat) (envelope : Option Bytes) (now : Int)
    (h : 0 < version) : (self.store itemId version envelope now h).bytesUsed +
      ((self.rows[itemId]?).map ServerRow.len).getD 0 = self.bytesUsed + (envelope.map List.length).getD 0 :=
  OrdMap.total_insert ServerRow.len self.rows itemId _

theorem size_store (self : Server) (itemId : ItemId) (version : Nat) (envelope : Option Bytes) (now : Int)
    (h : 0 < version) : (self.store itemId version envelope now h).rows.size =
      if itemId ∈ self.rows then self.rows.size else self.rows.size + 1 :=
  Std.ExtTreeMap.size_insert

theorem len_le_bytesUsed (self : Server) (itemId : ItemId) :
    ((self.rows[itemId]?).map ServerRow.len).getD 0 ≤ self.bytesUsed := by
  have h := OrdMap.total_eq ServerRow.len self.rows itemId
  unfold bytesUsed
  unfold OrdMap.total at h
  omega

theorem Within.write (h : Within limits self) (hvec : envelope.length < 2 ^ 63)
    (hcurrent : self.rows[itemId]? = current)
    (hwrite : self.write limits itemId current envelope now = .ok (outcome, self')) : Within limits self' := by
  obtain ⟨_, hsum, hwrite⟩ := bind_eq_ok.mp hwrite
  have hsum := asI64_eq_ok.mp hsum
  dsimp only at hwrite
  split at hwrite
  · cases hwrite
    exact h
  · next hrows =>
    split at hwrite
    · cases hwrite
      exact h
    · next hbytes =>
      obtain ⟨_, -, hwrite⟩ := bind_eq_ok.mp hwrite
      obtain ⟨_, -, hwrite⟩ := bind_eq_ok.mp hwrite
      cases hwrite
      refine ⟨?_, ?_⟩
      · rw [size_store]
        split
        · exact h.1
        · next hmem =>
          have hnone : current = none := by rw [← hcurrent]; exact Std.ExtTreeMap.getElem?_eq_none hmem
          have hroom : ¬ limits.maxRows ≤ self.rows.size := fun hfull => hrows ⟨by simp [hnone], hfull⟩
          omega
      · -- the sum is below `u64::MAX`, so nothing saturates
        have hnew := self.bytesUsed_store itemId ((current.map ServerRow.version).getD 0 + 1) (some envelope) now
          (Nat.succ_pos _)
        have hold := self.len_le_bytesUsed itemId
        rw [hcurrent] at hnew hold
        simp only [Option.map_some, Option.getD_some] at hnew
        omega

theorem Within.putItem {precondition : Nat} (h : Within limits self)
    (hvec : envelope.length < 2 ^ 63)
    (hput : self.putItem limits itemId precondition envelope now = .ok (outcome, self')) : Within limits self' := by
  unfold Server.putItem at hput
  split at hput
  · next hrow =>
    split at hput
    · exact h.write hvec hrow hput
    · cases hput
      exact h
  · next row hrow =>
    split at hput
    · exact h.write hvec hrow hput
    · cases hput
      exact h

theorem Within.deleteItem {precondition : Nat} (h : Within limits self)
    (hdelete : self.deleteItem itemId precondition now = .ok (outcome, self')) : Within limits self' := by
  cases delete_of_deleteItem hdelete with
  | missing _ | conflict _ _ | again _ _ _ => exact h
  | @reclaimed row hrow _ _ =>
    refine ⟨?_, ?_⟩
    · have hmem : itemId ∈ self.rows := by
        rw [Std.ExtTreeMap.mem_iff_isSome_getElem?, hrow]
        rfl
      rw [size_store, if_pos hmem]
      exact h.1
    · have hnew := self.bytesUsed_store itemId (precondition + 1) none now (Nat.succ_pos _)
      have hbytes := h.2
      simp only [Option.map_none, Option.getD_none] at hnew
      omega

theorem Within.sweep (h : Within limits self) (horizon : Int) : Within limits (self.sweep horizon) :=
  ⟨Std.ExtTreeMap.size_filter_le_size.trans h.1, (OrdMap.total_filter_le ServerRow.len self.rows _).trans h.2⟩

/-- Every call keeps a vault within its limits. -/
theorem Within.make (h : Within limits self) (call : RowCall) :
    Within limits (call.make limits self).2 := by
  cases call with
  | put itemId precondition envelope now =>
    show Within limits (self.transact (self.putItem limits itemId precondition envelope.val now)).2
    cases hput : self.putItem limits itemId precondition envelope.val now with
    | ok r => exact h.putItem envelope.property hput
    | error e => exact h
  | delete itemId precondition now =>
    show Within limits (self.transact (self.deleteItem itemId precondition now)).2
    cases hdelete : self.deleteItem itemId precondition now with
    | ok r => exact h.deleteItem hdelete
    | error e => exact h
  | sweep horizon => exact h.sweep horizon

theorem costs_make (limits : Limits) (self : Server) (call : RowCall) : self.Costs call (call.make limits self) := by
  cases call with
  | put itemId precondition envelope now =>
    show self.Costs _ (self.transact (self.putItem limits itemId precondition envelope.val now))
    cases hput : self.putItem limits itemId precondition envelope.val now with
    | error e =>
      refine ⟨?_, ?_⟩
      · intro outcome ho
        cases ho
      · intro _ _ _ _ _ _ _ ho
        cases ho
    | ok r =>
      obtain ⟨outcome, self'⟩ := r
      cases put_of_putItem hput with
      | written _ _ _ =>
        refine ⟨?_, ?_⟩
        · intro outcome ho hr
          cases ho
          cases hr
        · intro itemId' precondition' envelope' now' seq version hcall ho
          cases hcall
          cases ho
          refine ⟨rfl, rfl, by simp [transact], ?_⟩
          intro id hid
          simp [transact, Ne.symm hid]
      | conflict _ =>
        refine ⟨fun _ _ _ => rfl, ?_⟩
        intro _ _ _ _ _ _ _ ho
        cases ho
      | full _ hfull =>
        refine ⟨fun _ _ _ => rfl, ?_⟩
        intro _ _ _ _ _ _ _ ho
        rcases hfull with rfl | rfl
        · cases ho
        · cases ho
  | delete itemId precondition now =>
    show self.Costs _ (self.transact (self.deleteItem itemId precondition now))
    refine ⟨?_, fun _ _ _ _ _ _ hcall => by cases hcall⟩
    intro outcome ho hr
    cases hdelete : self.deleteItem itemId precondition now with
    | error e => rfl
    | ok r =>
      rw [hdelete] at ho
      obtain ⟨outcome', self'⟩ := r
      cases ho
      cases delete_of_deleteItem hdelete with
      | missing _ | conflict _ _ | again _ _ _ => rfl
      | reclaimed _ _ _ => cases hr
  | sweep horizon =>
    refine ⟨?_, ?_⟩
    · intro outcome ho
      cases ho
    · intro _ _ _ _ _ _ hcall
      cases hcall

end Server

/-- On every run from an empty vault the quotas hold, and every next call costs what it should. -/
theorem quotas_hold (limits : Limits) (calls : List RowCall) :
    (Server.afterCalls limits calls).Within limits ∧
      ∀ call : RowCall, (Server.afterCalls limits calls).Costs call (call.make limits (Server.afterCalls limits calls)) := by
  have hall : ∀ (calls : List RowCall) (self : Server), self.Within limits →
      (calls.foldl (fun self call => (call.make limits self).2) self).Within limits := by
    intro calls
    induction calls with
    | nil => exact fun self h => h
    | cons call rest ih => exact fun self h => ih _ (h.make call)
  exact ⟨hall calls .new ⟨Nat.zero_le _, Nat.zero_le _⟩, Server.costs_make limits _⟩

end Misty
