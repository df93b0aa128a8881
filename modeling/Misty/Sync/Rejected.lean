import Misty.Sync.Claimed

/- What a rejected change does to the queue: nothing. A page records only what it
   accepts, so after it a row is listed for `PUT` exactly when its bytes are not those
   the server last confirmed, in the page or before it. Which bytes these are, the page,
   the state and the vault tell beforehand: the row as it was where the merge writes
   nothing there, and else the bytes of a change of the page, or the item sealed again.
   A row whose own push was confirmed stays off the queue when the server's copy of it
   turns bad. -/
namespace Misty

open LawfulStore (view)

variable {S X : Type} [LawfulStore S] {E : Externals} {P : Peer X}

/-- A change of a page that is rejected. -/
def FeedChange.Rejected (E : Externals) (roster : Roster) (self : FeedChange) : Prop :=
  ∃ envelope reason, self.envelope = some envelope ∧ verifyChange E roster self.itemId envelope = .error reason

/-- The fingerprint last confirmed for an item: by the last change of the page that is
accepted for it, or by what is known before. -/
def SyncState.lastConfirmed (E : Externals) (self : SyncState) (roster : Roster) (page : List FeedChange)
    (id : ItemId) : Option Fingerprint :=
  match ((sortPage E roster page).accepted.filter (fun p => p.1.itemId = id)).getLast? with
  | some p => p.1.envelope.map (fingerprint E)
  | none => self.known[id]?.bind KnownRow.fingerprint

/-- What a merge stores under an id: the bytes of one of its changes, or an object sealed again. -/
inductive MergedRow where
  | taken (change : RemoteChange)
  | sealedAgain (object : Decoded)

/-- What the copies have to store under an id. A group is stored after the items. -/
def Merging.lastTouched (self : Merging) (id : ItemId) : Option Decoded :=
  ((self.touched.filterMap Except.toOption).filter (fun o => o.itemId = id)).getLast?

/-- What the merge of a batch stores under an id, if it stores anything there. -/
def Vault.mergedRow (E : Externals) (self : Vault S) (batch : List RemoteChange) (id : ItemId) : Option MergedRow :=
  match decodeChanges E self.vaultKey self.roster batch with
  | .error _ => none
  | .ok (decoded, _) =>
    match mergeDecoded (vaultForkIds E self.vaultKey) decoded ⟨self.items, self.groups, [], [], []⟩ with
    | .error _ => none
    | .ok m => (m.lastTouched id).map fun o =>
      match verbatim decoded m o with
      | some change => .taken change
      | none => .sealedAgain o

/-- The page does not last confirm what it leaves the vault under an id: the row the vault has, where the merge stores
nothing there; the bytes it takes from a change; or the bytes of the item sealed again. -/
def SyncState.Heals (E : Externals) (amb : Ambient) (self : SyncState) (v : Vault S) (roster : Roster)
    (page : List FeedChange) (id : ItemId) : Prop :=
  match v.mergedRow E (sortPage E roster page).batch id with
  | none => ∀ row, (view v.store).image.rows[id]? = some row →
      self.lastConfirmed E roster page id ≠ some (fingerprint E row.envelope)
  | some (.taken change) => self.lastConfirmed E roster page id ≠ some (fingerprint E change.envelope)
  | some (.sealedAgain o) => ∀ bytes, v.sealObject E amb o v.epoch = .ok bytes →
      self.lastConfirmed E roster page id ≠ some (fingerprint E bytes)

/-! ## What a page records -/

/-- What a page leaves is what it last confirmed. -/
theorem fingerprint_recordAll (st : SyncState) (id : ItemId) (accepted : List (FeedChange × Option EnvelopeKind)) :
    (st.recordAll E accepted).known[id]?.bind KnownRow.fingerprint =
      match (accepted.filter (fun p => p.1.itemId = id)).getLast? with
      | some p => p.1.envelope.map (fingerprint E)
      | none => st.known[id]?.bind KnownRow.fingerprint := by
  induction accepted using List.reverseRecOn with
  | nil => rfl
  | append_singleton accepted p ih =>
    rw [recordAll_append, List.filter_append]
    unfold SyncState.record
    rw [SyncState.known_insert]
    by_cases hid : p.1.itemId = id
    · simp [hid]
    · simp [hid, ih]

theorem confirmed_eq (st : SyncState) (id : ItemId) (fp : Fingerprint) :
    st.confirmed id fp = decide (st.known[id]?.bind KnownRow.fingerprint = some fp) := by
  unfold SyncState.confirmed
  cases st.known[id]? with
  | none => rfl
  | some known => rfl

/-- What `apply_page` leaves, when it ends well: what it accepted recorded, and its batch merged. -/
theorem applyPage_ensures (d : Driver X) (roster : Roster) (page : List FeedChange) (s : SyncEngine) (w : World S X) :
    (applyPage E roster page).Ensures Eq (fun q w a w' => (a, w') = d.answer E q w) (fun _ _ _ => True) s w
      (fun _ s' w' => s'.state = s.state.recordAll E (sortPage E roster page).accepted ∧
        ((sortPage E roster page).batch = [] ∧ w' = w ∨
          ∃ report, (.ok report, w') = w.merge E d.amb (sortPage E roster page).batch))
      (fun _ _ _ => True) := by
  unfold applyPage
  apply Prog.Ensures.bind
  apply Prog.Ensures.modify
  dsimp only
  split
  · apply Prog.Ensures.bind
    apply Prog.Ensures.bind
    apply Prog.Ensures.call trivial
    intro w₁ a w₂ hw hanswer
    subst hw
    have hanswer : (a, w₂) = w.merge E d.amb (sortPage E roster page).batch := hanswer
    apply Prog.Ensures.ofExcept
    · intro report hreport
      apply Prog.Ensures.bind
      apply Prog.Ensures.modify
      refine recordPage_ensures _ _ ⟨rfl, .inr ⟨report, ?_⟩⟩
      rw [← hanswer, mapError_eq_ok.mp hreport]
    · intro _ _
      trivial
  · next hbatch =>
    have hnil : (sortPage E roster page).batch = [] := by simpa using hbatch
    exact recordPage_ensures _ _ ⟨rfl, .inl ⟨hnil, rfl⟩⟩

/-! ## What a page stores -/

theorem rows_puts_last (records : List (Decoded × StoredEnvelope)) (image : Image) (id : ItemId) :
    ((records.map (fun p => Write.put p.2)).foldl Write.apply image).rows[id]? =
      match (records.filter (fun p => p.2.itemId = id)).getLast? with
      | some p => some p.2
      | none => image.rows[id]? := by
  induction records using List.reverseRecOn with
  | nil => rfl
  | append_singleton records p ih =>
    rw [List.map_append, List.foldl_append, List.filter_append]
    show (Image.put _ p.2).rows[id]? = _
    rw [Image.rows_put]
    by_cases hid : p.2.itemId = id
    · simp [hid]
    · simp [hid, ih]

/-- The last row made for an id is that of the object touched last there. -/
theorem lastTouched_recorded {amb : Ambient} {v : Vault S} {decoded : List (RemoteChange × Decoded)} {m : Merging}
    {id : ItemId} {touched : List (Result Decoded)} {records : List (Decoded × StoredEnvelope)}
    (h : List.Forall₂ (Recorded E amb v decoded m) touched records) :
    match ((touched.filterMap Except.toOption).filter (fun o => o.itemId = id)).getLast? with
    | none => (records.filter (fun p => p.2.itemId = id)).getLast? = none
    | some o => ∃ p, (records.filter (fun p => p.2.itemId = id)).getLast? = some p ∧ Recorded E amb v decoded m (.ok o) p := by
  induction h with
  | nil => rfl
  | @cons x p touched records hx _ ih =>
    have hsame : ∃ o, x = .ok o ∧ p.2.itemId = o.itemId := by
      cases hx with
      | verbatim _ => exact ⟨_, rfl, rfl⟩
      | resealed _ hr => exact ⟨_, rfl, hr.itemId⟩
    obtain ⟨o, rfl, hid⟩ := hsame
    rw [List.filterMap_cons]
    dsimp only [Except.toOption]
    by_cases hthere : o.itemId = id
    · rw [List.filter_cons_of_pos (by simpa using hthere), List.filter_cons_of_pos (by simpa [hid] using hthere),
        List.getLast?_cons, List.getLast?_cons]
      split at ih
      · next hlast =>
        rw [hlast, ih]
        exact ⟨p, rfl, hx⟩
      · next last hlast =>
        obtain ⟨q, hq, hrec⟩ := ih
        rw [hlast, hq]
        exact ⟨q, rfl, hrec⟩
    · rw [List.filter_cons_of_neg (by simpa using hthere), List.filter_cons_of_neg (by simpa [hid] using hthere)]
      exact ih

theorem row_of_merged {amb : Ambient} {batch : List RemoteChange} {v v' : Vault S} (h : Merged E amb batch v v')
    (id : ItemId) :
    match v.mergedRow E batch id with
    | none => (view v'.store).image.rows[id]? = (view v.store).image.rows[id]?
    | some (.taken change) => ∃ row, (view v'.store).image.rows[id]? = some row ∧ row.envelope = change.envelope
    | some (.sealedAgain o) => ∃ row, (view v'.store).image.rows[id]? = some row ∧
        v.sealObject E amb o v.epoch = .ok row.envelope := by
  cases h with
  | @intro u decoded ignored m records s hq hdec hm hrecords hview hw =>
    have himage : (view v'.store).image = (records.map (fun p => Write.put p.2)).foldl Write.apply (view v.store).image := by
      rw [hw]
      show (view s).image = _
      rw [hview]
    have hlast := @lastTouched_recorded _ _ _ _ _ _ _ id _ _ hrecords
    unfold Vault.mergedRow
    simp only [hdec, hm, Merging.lastTouched]
    rw [himage, rows_puts_last]
    split at hlast
    · next hnone =>
      rw [hnone, hlast]
      rfl
    · next o ho =>
      obtain ⟨p, hp, hrec⟩ := hlast
      rw [ho, hp]
      dsimp only [Option.map_some]
      cases hrec with
      | verbatim hverbatim =>
        rw [hverbatim]
        exact ⟨_, rfl, rfl⟩
      | resealed hverbatim hr =>
        rw [hverbatim]
        exact ⟨_, rfl, hr.envelope⟩

/-- The bytes a page leaves under an id are those last confirmed exactly when the item does not heal. -/
theorem heals_iff {d : Driver X} {roster : Roster} {page : List FeedChange} {s s' : SyncEngine} {w w' : World S X}
    (happlied : (applyPage E roster page s).run (d.answer E) w = (.ok (), s', w')) (id : ItemId) :
    s.state.Heals E d.amb w.vault roster page id ↔ ∀ row, w'.rows.rows[id]? = some row →
      s.state.lastConfirmed E roster page id ≠ some (fingerprint E row.envelope) := by
  have hran := (applyPage_ensures (E := E) d roster page s w).run
  rw [happlied] at hran
  obtain ⟨-, hworld⟩ := hran
  unfold SyncState.Heals
  rcases hworld with ⟨hnil, rfl⟩ | ⟨report, hmerge⟩
  · rw [hnil]
    exact Iff.rfl
  · have hrow := row_of_merged (merged_of_mergeRemote (mergeRemote_of_merge hmerge)) id
    split at hrow
    · rw [← hrow]
      exact Iff.rfl
    · next change _ =>
      obtain ⟨row, hrow, henvelope⟩ := hrow
      have hrow : w'.rows.rows[id]? = some row := hrow
      rw [hrow]
      simp [henvelope]
    · next o _ =>
      obtain ⟨row, hrow, henvelope⟩ := hrow
      have hrow : w'.rows.rows[id]? = some row := hrow
      rw [hrow]
      simp [henvelope]

/-! ## The queue -/

/-- After a page a row is listed for `PUT` exactly when its bytes are not those last confirmed. -/
theorem listed_iff_lastConfirmed {d : Driver X} {roster : Roster} {page : List FeedChange} {s s' : SyncEngine}
    {w w' : World S X} (happlied : (applyPage E roster page s).run (d.answer E) w = (.ok (), s', w'))
    {writes : List PendingWrite} (hlists : Run.Lists E P ⟨.ok ⟨⟩ s', w'⟩ writes) {id : ItemId} {row : StoredEnvelope}
    (hrow : w'.rows.rows[id]? = some row) :
    ⟨id, .put⟩ ∈ writes ↔ s.state.lastConfirmed E roster page id ≠ some (fingerprint E row.envelope) := by
  have hran := (applyPage_ensures (E := E) d roster page s w).run
  rw [happlied] at hran
  have hconfirmed : s'.state.confirmed id (fingerprint E row.envelope) =
      decide (s.state.lastConfirmed E roster page id = some (fingerprint E row.envelope)) := by
    rw [confirmed_eq, hran.1, fingerprint_recordAll]
    rfl
  rw [hlists.rows]
  refine (put_mem_pendingList E s'.state hrow).trans ?_
  rw [hconfirmed]
  exact decide_eq_false_iff_not

/-- After a page that is applied, every row a change was rejected for is listed for `PUT` exactly when each of them
heals. -/
theorem rejected_rows_listed_iff {d : Driver X} {roster : Roster} {page : List FeedChange} {s s' : SyncEngine}
    {w w' : World S X} (happlied : (applyPage E roster page s).run (d.answer E) w = (.ok (), s', w'))
    {writes : List PendingWrite} (hlists : Run.Lists E P ⟨.ok ⟨⟩ s', w'⟩ writes) :
    (∀ change ∈ page, change.Rejected E roster → w'.rows.Has change.itemId → ⟨change.itemId, .put⟩ ∈ writes) ↔
      ∀ change ∈ page, change.Rejected E roster → s.state.Heals E d.amb w.vault roster page change.itemId := by
  constructor
  · intro h change hmem hrejected
    refine (heals_iff happlied change.itemId).mpr fun row hrow => ?_
    exact (listed_iff_lastConfirmed happlied hlists hrow).mp (h change hmem hrejected ⟨row, hrow⟩)
  · intro h change hmem hrejected hhas
    obtain ⟨row, hrow⟩ := hhas
    exact (listed_iff_lastConfirmed happlied hlists hrow).mpr
      ((heals_iff happlied change.itemId).mp (h change hmem hrejected) row hrow)

/-- The server's copy of the group gone bad. -/
def tampered : List FeedChange := [⟨Group.sample.id.asItemId, .saturate 2, none, some [0], false⟩]

theorem rejected_tampered : ∀ change ∈ tampered, change.Rejected (.sample [] [.sample]) (.sample [1]) := by
  intro change hmem
  rw [List.mem_singleton.mp hmem]
  exact ⟨[0], .malformed, rfl, rfl⟩

theorem tampered_applied (s : SyncEngine) (w : World MemoryStore Service) : ∃ s' : SyncEngine, s'.state = s.state ∧
    (applyPage (.sample [] [.sample]) (.sample [1]) tampered s).run (Driver.honest.answer (.sample [] [.sample])) w =
      (.ok (), s', w) := by
  refine ⟨_, ?_, rfl⟩
  rfl

/-- The device that has added its group and not pushed it. -/
def Run.adding : Run MemoryStore Service :=
  (Run.sample [1] .empty).play (.sample [] [.sample]) .honest 40 [
    .edit (.sample 5) (.atomic (.object (.addGroup ['g'])))]

set_option maxRecDepth 20000 in
/-- A row that was never pushed is listed after the page: nothing was ever confirmed for it. -/
theorem rejected_rows_listed_iff_tampered : ∃ (s' : SyncEngine) (writes : List PendingWrite),
    (applyPage (.sample [] [.sample]) (.sample [1]) tampered Run.adding.work.state).run
        (Driver.honest.answer (.sample [] [.sample])) Run.adding.world = (.ok (), s', Run.adding.world) ∧
      Run.Lists (.sample [] [.sample]) (honest .sample (fun _ => False)) ⟨.ok ⟨⟩ s', Run.adding.world⟩ writes ∧
      ⟨Group.sample.id.asItemId, .put⟩ ∈ writes := by
  obtain ⟨s', -, happlied⟩ := tampered_applied Run.adding.work.state Run.adding.world
  have hlists := Run.lists_of_loaded (E := .sample [] [.sample]) (P := honest .sample (fun _ => False))
    (r := ⟨.ok ⟨⟩ s', Run.adding.world⟩) rfl
  have hheals : ∀ change ∈ tampered, change.Rejected (.sample [] [.sample]) (.sample [1]) →
      Run.adding.work.state.state.Heals (.sample [] [.sample]) Driver.honest.amb Run.adding.world.vault (.sample [1])
        tampered change.itemId := by
    intro change hmem _
    rw [List.mem_singleton.mp hmem]
    intro row _
    have hnone : Run.adding.work.state.state.lastConfirmed (.sample [] [.sample]) (.sample [1]) tampered
      Group.sample.id.asItemId = none := by decide +kernel
    rw [hnone]
    simp
  refine ⟨s', _, happlied, hlists, ?_⟩
  exact (rejected_rows_listed_iff happlied hlists).mpr hheals _ (List.mem_singleton_self _)
    (rejected_tampered _ (List.mem_singleton_self _)) (Option.isSome_iff_exists.mp (by decide +kernel))

set_option maxRecDepth 20000 in
/-- A group is added and its push confirmed; then the server's copy is rejected, the vault still has the row,
and the queue is empty. -/
theorem rejected_row_not_listed :
    Run.Reached (.sample [] [.sample]) (honest .sample (fun _ => False)) .all Service.Fresh .pushing ∧
    ∃ s' : SyncEngine, (applyPage (.sample [] [.sample]) (.sample [1]) tampered Run.pushing.work.state).run
        (Driver.honest.answer (.sample [] [.sample])) Run.pushing.world = (.ok (), s', Run.pushing.world) ∧
      Run.Lists (.sample [] [.sample]) (honest .sample (fun _ => False)) ⟨.ok ⟨⟩ s', Run.pushing.world⟩ [] ∧
      ∃ change ∈ tampered, change.Rejected (.sample [] [.sample]) (.sample [1]) ∧
        Run.pushing.world.rows.Has change.itemId := by
  obtain ⟨s', hstate, happlied⟩ := tampered_applied Run.pushing.work.state Run.pushing.world
  refine ⟨Run.reached_pushing, s', happlied, ?_, _, List.mem_singleton_self _, rejected_tampered _ (List.mem_singleton_self _), ?_⟩
  · have hlists := Run.lists_of_loaded (E := .sample [] [.sample]) (P := honest .sample (fun _ => False))
      (r := ⟨.ok ⟨⟩ s', Run.pushing.world⟩) rfl
    have hnone : pendingList (.sample [] [.sample]) Run.pushing.work.state.state Run.pushing.world.rows.records = [] := by
      decide +kernel
    rw [← hstate] at hnone
    rw [← hnone]
    exact hlists
  · exact Option.isSome_iff_exists.mp (by decide +kernel)

end Misty
