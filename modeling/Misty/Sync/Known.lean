import Misty.Sync.Moves

/- Where a known row comes from.

   A move changes the world by steps of its own (`WorldStep`), and leaves a known row
   as it was or learns it on one of six paths (`Learned`): a page, a write confirmed,
   refused without bytes, refused with bytes, and the two answers to a roster. An
   invariant about known rows is one that the steps keep and that holds of what each
   path learns. -/
namespace Misty

open LawfulStore (view)

/-! ## A page, sorted -/

section Page

variable (E : Externals) (roster : Roster)

/-- A change as the first loop of `apply_page` accepts it. -/
def acceptChange (change : FeedChange) : Option (FeedChange × Option EnvelopeKind) :=
  match change.envelope with
  | none => some (change, none)
  | some envelope =>
    match verifyChange E roster change.itemId envelope with
    | .ok kind => some (change, some kind)
    | .error _ => none

/-- A change as the first loop of `apply_page` puts it into the batch. -/
def batchChange (change : FeedChange) : Option RemoteChange :=
  match change.envelope with
  | none => none
  | some envelope =>
    match verifyChange E roster change.itemId envelope with
    | .ok kind => if isMerged kind then some (change.toRemote envelope) else none
    | .error _ => none

theorem foldl_take : ∀ (page : List FeedChange) (sorted : SortedPage),
    (page.foldl (SortedPage.take E roster) sorted).accepted = sorted.accepted ++ page.filterMap (acceptChange E roster) ∧
    (page.foldl (SortedPage.take E roster) sorted).batch = sorted.batch ++ page.filterMap (batchChange E roster)
  | [], sorted => by simp
  | change :: rest, sorted => by
    rw [List.foldl_cons]
    obtain ⟨hacc, hbatch⟩ := foldl_take rest (SortedPage.take E roster sorted change)
    rw [hacc, hbatch]
    cases henv : change.envelope with
    | none => simp [SortedPage.take, acceptChange, batchChange, henv]
    | some envelope =>
      cases hverify : verifyChange E roster change.itemId envelope with
      | error reason => simp [SortedPage.take, acceptChange, batchChange, henv, hverify]
      | ok kind =>
        cases hkind : isMerged kind <;>
          simp [SortedPage.take, acceptChange, batchChange, henv, hverify, hkind]

theorem sortPage_accepted (page : List FeedChange) :
    (sortPage E roster page).accepted = page.filterMap (acceptChange E roster) :=
  (foldl_take E roster page _).1.trans (List.nil_append _)

theorem sortPage_batch (page : List FeedChange) :
    (sortPage E roster page).batch = page.filterMap (batchChange E roster) :=
  (foldl_take E roster page _).2.trans (List.nil_append _)

/-- A change a page accepted. -/
inductive Accepted (change : FeedChange) : Option EnvelopeKind → Prop
  | reclaimed : change.envelope = none → Accepted change none
  | verified {envelope : Bytes} {kind : EnvelopeKind} : change.envelope = some envelope →
      verifyChange E roster change.itemId envelope = .ok kind → Accepted change (some kind)

variable {E roster}

theorem accepted_of_mem {page : List FeedChange} {change : FeedChange} {kind : Option EnvelopeKind}
    (h : (change, kind) ∈ (sortPage E roster page).accepted) : change ∈ page ∧ Accepted E roster change kind := by
  rw [sortPage_accepted, List.mem_filterMap] at h
  obtain ⟨c, hc, h⟩ := h
  unfold acceptChange at h
  split at h
  · next henv =>
    cases h
    exact ⟨hc, .reclaimed henv⟩
  · next envelope henv =>
    split at h
    · next k hk =>
      cases h
      exact ⟨hc, .verified henv hk⟩
    · cases h

theorem mem_batch {page : List FeedChange} {change : FeedChange} {envelope : Bytes} {kind : EnvelopeKind}
    (hc : change ∈ page) (henv : change.envelope = some envelope)
    (hk : verifyChange E roster change.itemId envelope = .ok kind) (hmerged : isMerged kind = true) :
    change.toRemote envelope ∈ (sortPage E roster page).batch := by
  rw [sortPage_batch, List.mem_filterMap]
  refine ⟨change, hc, ?_⟩
  unfold batchChange
  rw [henv]
  dsimp only
  rw [hk]
  dsimp only
  rw [if_pos hmerged]

theorem mem_of_mem_haltPage {feed : ChangeFeed} {change : FeedChange} (h : change ∈ (haltPage feed).2.1) :
    change ∈ feed.changes := by
  unfold haltPage at h
  split at h
  · exact List.mem_of_mem_take h
  · exact h

/-- Where the kind of a recorded row comes from. -/
inductive KindFrom (st : SyncState) (accepted : List (FeedChange × Option EnvelopeKind)) (id : ItemId) : Byte → Prop
  | verified {change : FeedChange} {kind : EnvelopeKind} : (change, some kind) ∈ accepted → change.itemId = id →
      KindFrom st accepted id kind.asU8
  | known {row : KnownRow} : st.known[id]? = some row → KindFrom st accepted id row.kind
  | unknown : KindFrom st accepted id 0

/-- What a page leaves for an id one of its changes is about: the last of them decides. -/
inductive PageRow (st : SyncState) (accepted : List (FeedChange × Option EnvelopeKind)) (id : ItemId) :
    KnownRow → Prop
  | change {change : FeedChange} {kind : Option EnvelopeKind} {byte : Byte} : (change, kind) ∈ accepted →
      change.itemId = id → KindFrom st accepted id byte → (∀ k, kind = some k → byte = k.asU8) →
      PageRow st accepted id ⟨byte, change.envelope.map (fingerprint E), change.version, some change.seq⟩

theorem recordAll_append (st : SyncState) (accepted : List (FeedChange × Option EnvelopeKind))
    (p : FeedChange × Option EnvelopeKind) :
    st.recordAll E (accepted ++ [p]) = (st.recordAll E accepted).record E p.1 p.2 := by
  unfold SyncState.recordAll
  rw [List.foldl_append]
  rfl

theorem KindFrom.mono {st : SyncState} {accepted accepted' : List (FeedChange × Option EnvelopeKind)} {id : ItemId}
    {byte : Byte} (hsub : accepted ⊆ accepted') (h : KindFrom st accepted id byte) :
    KindFrom st accepted' id byte := by
  cases h with
  | verified hmem hid => exact .verified (hsub hmem) hid
  | known hknown => exact .known hknown
  | unknown => exact .unknown

theorem PageRow.mono {st : SyncState} {accepted accepted' : List (FeedChange × Option EnvelopeKind)} {id : ItemId}
    {row : KnownRow} (hsub : accepted ⊆ accepted') (h : PageRow (E := E) st accepted id row) :
    PageRow (E := E) st accepted' id row := by
  cases h with
  | change hmem hid hkind hbyte => exact .change (hsub hmem) hid (hkind.mono hsub) hbyte

/-- The rows after a page: those it is about, and the others as they were. -/
theorem known_recordAll (st : SyncState) (accepted : List (FeedChange × Option EnvelopeKind)) (id : ItemId) :
    ((∃ p ∈ accepted, p.1.itemId = id) ∧
      ∃ row, (st.recordAll E accepted).known[id]? = some row ∧ PageRow (E := E) st accepted id row) ∨
    ((∀ p ∈ accepted, p.1.itemId ≠ id) ∧ (st.recordAll E accepted).known[id]? = st.known[id]?) := by
  induction accepted using List.reverseRecOn with
  | nil => exact .inr ⟨by simp, rfl⟩
  | append_singleton accepted p ih =>
    rw [recordAll_append]
    unfold SyncState.record
    -- the last change about a row is what is known of it
    by_cases hid : p.1.itemId = id
    · left
      refine ⟨⟨p, by simp, hid⟩, _, (SyncState.known_insert _ _ _ _).trans (if_pos hid), ?_⟩
      have hsub : accepted ⊆ accepted ++ [p] := List.subset_append_left _ _
      have hmem : (p.1, p.2) ∈ accepted ++ [p] := by simp
      refine .change hmem hid ?_ ?_
      · cases hkind : p.2 with
        | some kind => exact .verified (by rw [← hkind]; simp) hid
        | none =>
          dsimp only
          rw [hid]
          rcases ih with ⟨-, row, hrow, hpage⟩ | ⟨-, hsame⟩
          · rw [hrow]
            cases hpage with
            | change _ _ hbyte _ => exact hbyte.mono hsub
          · rw [hsame]
            cases hknown : st.known[id]? with
            | none => exact .unknown
            | some row => exact .known hknown
      · intro k hk
        rw [hk]
    · rw [SyncState.known_insert, if_neg hid]
      rcases ih with ⟨⟨q, hq, hqid⟩, row, hrow, hpage⟩ | ⟨hnone, hsame⟩
      · left
        exact ⟨⟨q, by simp [hq], hqid⟩, row, hrow, hpage.mono (List.subset_append_left _ _)⟩
      · right
        refine ⟨?_, hsame⟩
        intro q hq
        rcases List.mem_append.mp hq with hq | hq
        · exact hnone q hq
        · rw [List.mem_singleton.mp hq]
          exact hid

end Page

/-! ## Steps and sources -/

variable {S X : Type} [LawfulStore S] (E : Externals) (P : Peer X) (C : Permit S X)

/-- What a move does to the world, one thing at a time. -/
inductive WorldStep (st : SyncState) : World S X → World S X → Prop
  | moved {w w' : World S X} : w.Moves P C w' → WorldStep st w w'
  | read {w : World S X} {v : Vault S} : Quiet w.vault v → WorldStep st w { w with vault := v }
  | sent {w w' : World S X} {r : Request} {a : Except SyncError Response} : Asks E st w r →
      Served P C w r a w' → WorldStep st w w'
  | lost {w : World S X} {r : Request} {a : Except SyncError Response} {x : X} : Asks E st w r →
      P.serve r w.peer a x → C w (.dropped r) (w.ask r x) → WorldStep st w (w.ask r x)
  | merged {w w' : World S X} {changes : List RemoteChange} {a : Result MergeReport} :
      Permitted E P C (.mergeRemote changes) w a w' → WorldStep st w w'
  | edited {w : World S X} {amb : Ambient} {op : Op} : C w (.edited amb op) (w.edit E amb op) →
      WorldStep st w (w.edit E amb op)
  | rotated {w : World S X} (amb : Ambient) (op : Op) :
      op = .rotateEpoch ∨ (∃ limit, op = .rewrapToCurrentEpoch limit) → WorldStep st w (w.edit E amb op)
  | noted {w : World S X} : WorldStep st w (w.note st)

/-- A new process takes over with a saved state. -/
inductive Reopened (st' : SyncState) (w : World S X) : World S X → Prop
  | intro {v : Vault S} : st' ∈ w.saved → w.Restarts E v → C w (.restarted st') { w with vault := v } →
      Reopened st' w { w with vault := v }

/-- Where a known row comes from. -/
inductive Learned (st : SyncState) (w w' : World S X) (id : ItemId) : KnownRow → Prop
  | kept {row : KnownRow} : st.known[id]? = some row → Learned st w w' id row
  | pulled {w₁ w₂ : World S X} {limit : Nat} {response : Response} {feed : ChangeFeed} {roster : Roster}
      {row : KnownRow} : (∃ u, C u (.began (.syncOnce roster)) u) →
      Served P C w (.changes st.cursor limit) (.ok response) w₁ → readChanges response = .ok feed →
      checkPage st.cursorVal feed = .ok () → w₁.Drifts P C w₂ →
      Merges E P C (sortPage E roster (haltPage feed).2.1).batch w₂ w' →
      PageRow (E := E) st (sortPage E roster (haltPage feed).2.1).accepted id row → Learned st w w' id row
  | applied {row : StoredEnvelope} {response : Response} {seq : I64} {version : ServerVersion} :
      w.rows.rows[id]? = some row → st.confirmed id (fingerprint E row.envelope) = false →
      Served P C w (.put id row.envelope (st.versionOf id)) (.ok response) w' →
      readPut row.envelope response = .ok (.applied seq version) →
      Learned st w w' id ⟨row.kind.asU8, some (fingerprint E row.envelope), some version, some seq⟩
  | reclaimed {row : StoredEnvelope} {response : Response} {version : ServerVersion} :
      w.rows.rows[id]? = some row → st.confirmed id (fingerprint E row.envelope) = false →
      Served P C w (.put id row.envelope (st.versionOf id)) (.ok response) w' →
      readPut row.envelope response = .ok (.conflict (some version) none) →
      Learned st w w' id ⟨((st.known[id]?).map KnownRow.kind).getD 0, none, some version, none⟩
  | resolved {w₁ w₂ : World S X} {row : StoredEnvelope} {response : Response} {version : Option ServerVersion}
      {envelope : Bytes} {kind : EnvelopeKind} {roster : Roster} : (∃ u, C u (.began (.syncOnce roster)) u) →
      w.rows.rows[id]? = some row → st.confirmed id (fingerprint E row.envelope) = false →
      Served P C w (.put id row.envelope (st.versionOf id)) (.ok response) w₁ →
      readPut row.envelope response = .ok (.conflict version (some envelope)) →
      verifyConflict E roster id envelope = .ok kind → w₁.Drifts P C w₂ →
      (isMerged kind = false ∧ w' = w₂ ∨ isMerged kind = true ∧
        ∃ a, Permitted E P C (.mergeRemote [⟨id, none, none, envelope⟩]) w₂ a w') →
      Learned st w w' id (conflictRow E kind version envelope)
  | published {bytes : Bytes} {response : Response} {seq : I64} {version : ServerVersion} :
      SealsRoster E id bytes → Served P C w (.put id bytes (st.versionOf id)) (.ok response) w' →
      readPut bytes response = .ok (.applied seq version) →
      Learned st w w' id ⟨EnvelopeKind.deviceRoster.asU8, some (fingerprint E bytes), some version, some seq⟩
  | outdated {bytes : Bytes} {response : Response} {version : Option ServerVersion} {envelope : Option Bytes} :
      SealsRoster E id bytes → Served P C w (.put id bytes (st.versionOf id)) (.ok response) w' →
      readPut bytes response = .ok (.conflict version envelope) →
      Learned st w w' id ⟨EnvelopeKind.deviceRoster.asU8, envelope.map (fingerprint E), version, none⟩

variable {E P C} {st st' : SyncState} {w w' : World S X}

theorem World.Drifts.steps (st : SyncState) (h : w.Drifts P C w') : Relation.ReflTransGen (WorldStep E P C st) w w' :=
  h.lift id (fun _ _ hm => .moved hm)

theorem Merges.steps {changes : List RemoteChange} (h : Merges E P C changes w w') :
    Relation.ReflTransGen (WorldStep E P C st) w w' := by
  rcases h with ⟨-, rfl⟩ | ⟨-, report, hp⟩
  · exact .refl
  · exact .single (.merged hp)

/-- A move is made of steps, or it is a restart. -/
theorem SyncMove.steps (h : SyncMove E P C st w st' w') :
    Relation.ReflTransGen (WorldStep E P C st) w w' ∨ Reopened E C st' w w' := by
  cases h with
  | moved hm => exact .inl (.single (.moved hm))
  | read hq => exact .inl (.single (.read hq))
  | asked hask hserved => exact .inl (.single (.sent hask hserved))
  | lost hask hserve hc => exact .inl (.single (.lost hask hserve hc))
  | merged hp => exact .inl (.single (.merged hp))
  | edited hc => exact .inl (.single (.edited hc))
  | rotated amb op hop => exact .inl (.single (.rotated amb op hop))
  | noted => exact .inl (.single .noted)
  | pulled _ hserved _ _ hd hmerged =>
    exact .inl (((Relation.ReflTransGen.single (.sent .changes hserved)).trans (hd.steps st)).trans hmerged.steps)
  | deleted hask hserved _ => exact .inl (.single (.sent hask hserved))
  | applied hrow hpending hserved _ => exact .inl (.single (.sent (.put hrow hpending) hserved))
  | reclaimed hrow hpending hserved _ => exact .inl (.single (.sent (.put hrow hpending) hserved))
  | resolved _ hrow hpending hserved _ _ _ hd hmerged =>
    have hsent := (Relation.ReflTransGen.single (WorldStep.sent (.put hrow hpending) hserved)).trans
      (World.Drifts.steps st hd)
    rcases hmerged with ⟨-, rfl⟩ | ⟨-, a, hp⟩
    · exact .inl hsent
    · exact .inl (hsent.tail (.merged hp))
  | published hseals hserved _ => exact .inl (.single (.sent (.roster hseals) hserved))
  | outdated hseals hserved _ => exact .inl (.single (.sent (.roster hseals) hserved))
  | rotating _ => exact .inl .refl
  | reset => exact .inl .refl
  | restarted hsaved hv hc => exact .inr (.intro hsaved hv hc)

theorem of_known_insert {id i : ItemId} {row r : KnownRow} (h : (st.insert id row).known[i]? = some r) :
    id = i ∧ r = row ∨ st.known[i]? = some r := by
  rw [SyncState.known_insert] at h
  split at h
  · next hid =>
    cases h
    exact .inl ⟨hid, rfl⟩
  · exact .inr h

theorem of_known_remove {id i : ItemId} {r : KnownRow} (h : (st.remove id).known[i]? = some r) :
    st.known[i]? = some r := by
  rw [SyncState.known_remove] at h
  split at h
  · cases h
  · exact h

/-- After a move a known row was learned in it, or the state is a saved one. -/
theorem SyncMove.known (h : SyncMove E P C st w st' w') :
    (∀ id row, st'.known[id]? = some row → Learned E P C st w w' id row) ∨ Reopened E C st' w w' := by
  have hkept : ∀ {st' : SyncState}, st'.known = st.known → ∀ id row, st'.known[id]? = some row →
      Learned E P C st w w' id row := by
    intro st' heq id row hrow
    rw [heq] at hrow
    exact .kept hrow
  have hlearned : ∀ {id : ItemId} {r : KnownRow}, Learned E P C st w w' id r →
      ∀ i row, (st.insert id r).known[i]? = some row → Learned E P C st w w' i row := by
    intro id r hr i row hrow
    rcases of_known_insert hrow with ⟨rfl, rfl⟩ | hold
    · exact hr
    · exact .kept hold
  cases h with
  | moved _ | read _ | asked _ _ | lost _ _ _ | merged _ | edited _ | rotated _ _ _ | noted | rotating _ =>
    exact .inl (hkept rfl)
  | pulled hbegan hserved hread hcheck hd hmerged =>
    left
    intro id row hrow
    rcases known_recordAll st _ id with ⟨-, r, hr, hpage⟩ | ⟨-, hsame⟩
    · have hrow : r = row := Option.some.inj (hr.symm.trans hrow)
      rw [← hrow]
      exact .pulled hbegan hserved hread hcheck hd hmerged hpage
    · exact .kept (hsame.symm.trans hrow)
  | deleted _ _ _ => exact .inl (fun id row hrow => .kept (of_known_remove hrow))
  | applied hrow hpending hserved hread => exact .inl (hlearned (.applied hrow hpending hserved hread))
  | @reclaimed _ _ _ _ _ version hrow hpending hserved hread =>
    left
    cases version with
    | none => exact fun id row hrow => .kept (of_known_remove hrow)
    | some version => exact hlearned (.reclaimed hrow hpending hserved hread)
  | resolved hbegan hrow hpending hserved hread hverify _ hd hmerged =>
    exact .inl (hlearned (.resolved hbegan hrow hpending hserved hread hverify hd hmerged))
  | published hseals hserved hread => exact .inl (hlearned (.published hseals hserved hread))
  | outdated hseals hserved hread => exact .inl (hlearned (.outdated hseals hserved hread))
  | reset => exact .inl (fun id row hrow => absurd hrow (by simp [SyncState.new]))
  | restarted hsaved hv hc => exact .inr (.intro hsaved hv hc)

end Misty
