import Misty.Sync.Claimed

/- A refused `DELETE`. The answer 409 is an error of `delete_item`, and nothing between
   it and `sync_once` catches errors: the sync ends where it is refused, before its
   pull and its push, with the state as it was. The next sync meets the same row at the
   same version and is refused again. -/
namespace Misty

open LawfulStore (view)

/-! ## Where a refusal ends a program -/

/-- A refused `DELETE` ends the program. -/
def RefusedAt {α : Type} : (q : Query) → SyncEngine → (Answer q → Calls Query Answer SyncError SyncEngine α) → Prop
  | .send (.delete _ _), s, k => ∀ response : Response, response.status = 409 →
    k (.ok response) = .error (.server "delete item" 409) s
  | _, _, _ => True

/-- Wherever the program is. -/
def Calls.Refuses {α : Type} : Calls Query Answer SyncError SyncEngine α → Prop
  | .ok _ _ | .error _ _ => True
  | .call q s k => RefusedAt q s k ∧ ∀ a, (k a).Refuses

theorem Calls.Refuses.leads {α W : Type} {R : W → W → Prop} {T : (q : Query) → W → Answer q → W → Prop}
    {x y : Calls Query Answer SyncError SyncEngine α} {w w' : W} (h : Leads R T x w y w') (hx : x.Refuses) :
    y.Refuses := by
  induction h with
  | refl _ _ => exact hx
  | moved _ _ ih => exact ih hx
  | answered _ _ ih => exact ih (hx.2 _)

theorem Calls.Refuses.bind {α β : Type} {f : α → SyncEngine → Calls Query Answer SyncError SyncEngine β}
    (hf : ∀ a s, (f a s).Refuses) :
    ∀ {x : Calls Query Answer SyncError SyncEngine α}, x.Refuses → (x.bind f).Refuses
  | .ok a s, _ => hf a s
  | .error _ _, _ => trivial
  | .call q s k, h => by
    refine ⟨?_, fun a => Refuses.bind hf (h.2 a)⟩
    have hat := h.1
    unfold RefusedAt at hat ⊢
    split
    · intro response hstatus
      have hk := hat response hstatus
      dsimp only at hk ⊢
      rw [hk]
      rfl
    · trivial

/-- A program that a refused `DELETE` ends. -/
def Prog.Refuses {α : Type} (x : Sync α) : Prop := ∀ s, (x s).Refuses

namespace Prog.Refuses

variable {α β : Type}

theorem pure (a : α) : (Pure.pure a : Sync α).Refuses := fun _ => trivial

theorem bind {x : Sync α} {f : α → Sync β} (hx : x.Refuses) (hf : ∀ a, (f a).Refuses) : (x >>= f).Refuses :=
  fun s => Calls.Refuses.bind hf (hx s)

theorem get : (MonadState.get : Sync SyncEngine).Refuses := fun _ => trivial

theorem setState (f : SyncState → SyncState) : (Misty.setState f).Refuses := fun _ => trivial

theorem setReport (f : SyncReport → SyncReport) : (Misty.setReport f).Refuses := fun _ => trivial

theorem throw (e : SyncError) : (MonadExcept.throw e : Sync α).Refuses := fun _ => trivial

theorem ofExcept (r : Except SyncError α) : (Prog.ofExcept r : Sync α).Refuses := by
  intro s
  cases r <;> trivial

theorem call {q : Query} (hq : ∀ id version, q ≠ .send (.delete id version)) : (Prog.call q).Refuses := by
  intro s
  refine ⟨?_, fun _ => trivial⟩
  unfold RefusedAt
  split
  · exact absurd rfl (hq _ _)
  · trivial

theorem loadAll : Misty.loadAll.Refuses := (call (by simp)).bind fun _ => ofExcept _

theorem stored (itemId : ItemId) : (Misty.stored itemId).Refuses := (call (by simp)).bind fun _ => ofExcept _

theorem mergeRemote (operation : String) (changes : List RemoteChange) :
    (Misty.mergeRemote operation changes).Refuses :=
  (call (by simp)).bind fun _ => ofExcept _

theorem save : Misty.save.Refuses := get.bind fun _ => (call (by simp)).bind fun _ => ofExcept _

theorem send {request : Request} (h : ∀ id version, request ≠ .delete id version) : (Misty.send request).Refuses :=
  (call (by simpa using h)).bind fun _ => ofExcept _

theorem deleteItem (itemId : ItemId) (version : Option ServerVersion) : (Misty.deleteItem itemId version).Refuses := by
  intro s
  refine ⟨?_, fun a => ?_⟩
  · intro response hstatus
    show (Prog.ofExcept (readDelete response) : Sync Unit) s = _
    unfold readDelete Response.isSuccess
    rw [hstatus]
    rfl
  · cases a with
    | error e => trivial
    | ok response => exact ofExcept (readDelete response) s

variable {E : Externals}

theorem pending : (Misty.pending E).Refuses := loadAll.bind fun _ => get.bind fun _ => ofExcept _

theorem deleteLoop : ∀ writes : List PendingWrite, (Misty.deleteLoop writes).Refuses
  | [] => pure _
  | write :: rest => by
    unfold Misty.deleteLoop
    dsimp only
    split
    · refine get.bind fun _ => (deleteItem _ _).bind fun _ => (setState _).bind fun _ => save.bind fun _ => ?_
      exact (setReport _).bind fun _ => deleteLoop rest
    · exact deleteLoop rest

theorem recordPage : ∀ accepted : List (FeedChange × Option EnvelopeKind), (Misty.recordPage E accepted).Refuses
  | [] => pure _
  | _ :: rest => bind ((ofExcept _).bind fun _ => setState _) fun _ => recordPage rest

theorem applyPage (roster : Roster) (page : List FeedChange) : (Misty.applyPage E roster page).Refuses := by
  unfold Misty.applyPage
  refine (setReport _).bind fun _ => ?_
  dsimp only
  split
  · exact (mergeRemote _ _).bind fun _ => (setReport _).bind fun _ => recordPage _
  · exact recordPage _

theorem changes (since : Option I64) (limit : Nat) : (Misty.changes since limit).attempt.Refuses := by
  intro s
  refine ⟨trivial, fun a => ?_⟩
  cases a with
  | error e => trivial
  | ok response =>
    show (Calls.attempt ((Prog.ofExcept (readChanges response) : Sync ChangeFeed) s)).Refuses
    cases readChanges response <;> trivial

theorem pullLoop (roster : Roster) (left limit : Nat) : (Misty.pullLoop E roster left limit).Refuses := by
  match left with
  | 0 =>
    rw [Misty.pullLoop]
    exact throw _
  | left + 1 =>
    rw [Misty.pullLoop]
    refine get.bind fun s => (changes _ _).bind fun feed => ?_
    cases feed with
    | error error =>
      dsimp only
      split
      · exact pullLoop roster (left + 1) (max (limit / 2) 1)
      · exact throw _
    | ok feed =>
      refine (setReport _).bind fun _ => (ofExcept _).bind fun _ => ?_
      rcases haltPage feed with ⟨halted, page, nextCursor⟩
      refine (applyPage roster page).bind fun _ => (setState _).bind fun _ => save.bind fun _ => ?_
      split
      · exact pure _
      · split
        · exact pure _
        · exact pullLoop roster left limit
termination_by left + limit

theorem putItem (itemId : ItemId) (envelope : Bytes) (version : Option ServerVersion) :
    (Misty.putItem itemId envelope version).Refuses := by
  unfold Misty.putItem
  dsimp only
  split
  · exact (throw _).bind fun _ => (send (by simp)).bind fun _ => ofExcept _
  · exact (send (by simp)).bind fun _ => ofExcept _

theorem resolveConflict (roster : Roster) (itemId : ItemId) (version : Option ServerVersion)
    (envelope : Option Bytes) : (Misty.resolveConflict E roster itemId version envelope).Refuses := by
  have hend : (do
      Misty.save
      Misty.setReport fun report => { report with conflictsResolved := report.conflictsResolved + 1 } : Sync Unit).Refuses :=
    save.bind fun _ => setReport _
  unfold Misty.resolveConflict
  cases envelope with
  | none =>
    cases version with
    | none => exact (setState _).bind fun _ => hend
    | some version => exact (setState _).bind fun _ => hend
  | some envelope =>
    refine (ofExcept _).bind fun kind => (ofExcept _).bind fun _ => get.bind fun _ => ?_
    dsimp only
    split
    · exact throw _
    · refine (setState _).bind fun _ => ?_
      split
      · exact (mergeRemote _ _).bind fun _ => (setReport _).bind fun _ => hend
      · exact hend

theorem pushLoop (roster : Roster) (itemId : ItemId) : ∀ left, (Misty.pushLoop E roster itemId left).Refuses
  | 0 => throw _
  | left + 1 => by
    unfold Misty.pushLoop
    refine (stored itemId).bind fun row => ?_
    cases row with
    | none => exact pure _
    | some row =>
      refine (ofExcept _).bind fun _ => get.bind fun _ => ?_
      split
      · exact pure _
      · refine (putItem _ _ _).bind fun out => ?_
        cases out with
        | applied seq version => exact (setState _).bind fun _ => save.bind fun _ => setReport _
        | conflict version envelope =>
          exact (resolveConflict roster itemId version envelope).bind fun _ => pushLoop roster itemId left

theorem writeLoop (roster : Roster) : ∀ writes : List PendingWrite, (Misty.writeLoop E roster writes).Refuses
  | [] => pure _
  | write :: rest => by
    unfold Misty.writeLoop
    dsimp only
    split
    · exact (pushLoop roster write.itemId _).bind fun _ => writeLoop roster rest
    · exact writeLoop roster rest

theorem syncOnce (roster : Roster) : (Misty.syncOnce E roster).Refuses := by
  unfold Misty.syncOnce
  refine (setReport _).bind fun _ => (pending.bind fun _ => deleteLoop _).bind fun _ => ?_
  refine (get.bind fun _ => pullLoop roster _ _).bind fun _ => (pending.bind fun _ => writeLoop roster _).bind fun _ => ?_
  exact get.bind fun _ => (setReport _).bind fun _ => pending.bind fun _ => (setReport _).bind fun _ =>
    get.bind fun _ => pure _

end Prog.Refuses

/-! ## The next sync -/

variable {S : Type} [LawfulStore S] {E : Externals} {config : ServerConfig} {others : Request → Prop}

/-- A purged row the server has at another version than the one known. -/
structure World.Wedged (w : World S Service) (st : SyncState) (id : ItemId) : Prop where
  known : ∃ row, st.known[id]? = some row ∧ row.isDeletable = true
  gone : ¬ w.rows.Has id
  moved : ∃ row, w.peer.server.rows[id]? = some row ∧ deleteCondition (st.versionOf id) ≠ .ok row.version

theorem World.Wedged.congr {w w' : World S Service} {st : SyncState} {id : ItemId} (h : w.Wedged st id)
    (hvault : w'.vault = w.vault) (hserver : w'.peer.server.rows[id]? = w.peer.server.rows[id]?) :
    w'.Wedged st id := by
  refine ⟨h.known, ?_, ?_⟩
  · rw [World.rows_congr hvault]
    exact h.gone
  · rw [hserver]
    exact h.moved

theorem World.Wedged.remove {w : World S Service} {st : SyncState} {id id' : ItemId} (h : w.Wedged st id)
    (hne : id' ≠ id) : w.Wedged (st.remove id') id := by
  have hknown : (st.remove id').known[id]? = st.known[id]? := (SyncState.known_remove ..).trans (if_neg hne)
  refine ⟨by rw [hknown]; exact h.known, h.gone, ?_⟩
  have hversion : (st.remove id').versionOf id = st.versionOf id := by
    unfold SyncState.versionOf
    rw [hknown]
  rw [hversion]
  exact h.moved

theorem serveDelete_moved {server : Server} {id : ItemId} {row : ServerRow} {version : Option ServerVersion} {now : Int}
    (hrow : server.rows[id]? = some row) (hmoved : deleteCondition version ≠ .ok row.version) :
    (serveDelete id version now server).2 = server ∧ ∀ u, readDelete (serveDelete id version now server).1 ≠ .ok u := by
  refine ⟨?_, ?_⟩
  · unfold serveDelete
    cases hcond : deleteCondition version with
    | error error => rfl
    | ok precondition =>
      dsimp only
      split
      · rfl
      · unfold Server.deleteItem
        rw [hrow]
        dsimp only
        rw [if_pos (fun h => hmoved (by rw [hcond, h]))]
        rfl
  · intro u hread
    obtain ⟨precondition, hcond, hdelete⟩ := deleteTold_of_readDelete hread
    have hother : precondition ≠ row.version := fun h => hmoved (by rw [hcond, h])
    generalize (serveDelete id version now server).2 = server' at hdelete
    cases hdelete with
    | missing hnone =>
      rw [hrow] at hnone
      cases hnone
    | again hrow' hp _ =>
      rw [hrow] at hrow'
      cases hrow'
      exact hother hp
    | reclaimed hrow' hp _ =>
      rw [hrow] at hrow'
      cases hrow'
      exact hother hp

theorem serveDelete_other {server : Server} {id id' : ItemId} (hne : id' ≠ id) (version : Option ServerVersion)
    (now : Int) : (serveDelete id' version now server).2.rows[id]? = server.rows[id]? := by
  unfold serveDelete
  cases deleteCondition version with
  | error error => rfl
  | ok precondition =>
    dsimp only
    split
    · rfl
    · cases hdelete : server.deleteItem id' precondition now with
      | error e => rfl
      | ok r =>
        obtain ⟨outcome, server'⟩ := r
        cases Server.delete_of_deleteItem hdelete with
        | missing _ | conflict _ _ | again _ _ _ => rfl
        | reclaimed _ _ _ => exact (Server.rows_store _ _ _ _ _ _ (Nat.succ_pos _)).trans (if_neg hne)

theorem Service.Serves.delete_other {x x' : Service} {id id' : ItemId} {version : Option ServerVersion}
    {a : Except SyncError Response} (hne : id' ≠ id) (h : Serves config (.delete id' version) x a x') :
    x'.server.rows[id]? = x.server.rows[id]? := by
  cases h with
  | answered now => exact serveDelete_other hne version now
  | lost now error => exact serveDelete_other hne version now
  | refused error => rfl

/-- What a wedged world ensures of a program: that it fails and leaves the world wedged. -/
abbrev Prog.Wedges {α : Type} (E : Externals) (config : ServerConfig) (others : Request → Prop) (id : ItemId)
    (x : Sync α) (s : SyncEngine) (w : World S Service) (Q : α → SyncEngine → World S Service → Prop) : Prop :=
  x.Ensures Eq (Answers E (honest config others)) (fun _ _ _ => True) s w Q
    (fun _ s' w' => w'.Wedged s'.state id)

theorem loadAll_wedges {id : ItemId} {s : SyncEngine} {w : World S Service} (h : w.Wedged s.state id) :
    loadAll.Wedges E config others id s w
      (fun rows s' w' => s' = s ∧ w'.Wedged s.state id ∧ rows = w'.rows.records) := by
  apply Prog.Ensures.bind
  apply Prog.Ensures.call trivial
  intro w₁ a w₂ hr hanswer
  subst hr
  obtain ⟨v, hq, rfl, hok⟩ := onVault_quiet
    (Q := fun b _ => b = (view w.vault.store).image.records)
    ((LawfulStore.loadAll_spec w.vault.store).mono (fun _ _ h => h) (fun _ _ h => ⟨h.1, h.2.1⟩)) hanswer
  have hrows : ({ w with vault := v } : World S Service).rows = w.rows := by
    show (view v.store).image = _
    rw [hq.view]
    rfl
  have hw : ({ w with vault := v } : World S Service).Wedged s.state id := ⟨h.known, by rw [hrows]; exact h.gone, h.moved⟩
  apply Prog.Ensures.ofExcept
  · intro rows hrows'
    cases a with
    | error e => cases hrows'
    | ok rows' =>
      cases hrows'
      refine ⟨rfl, hw, ?_⟩
      rw [hrows]
      exact hok _ rfl
  · intro e _
    exact hw

theorem save_wedges {id : ItemId} {s : SyncEngine} {w : World S Service} (h : w.Wedged s.state id) :
    save.Wedges E config others id s w (fun _ s' w' => s' = s ∧ w'.Wedged s.state id) := by
  apply Prog.Ensures.bind
  apply Prog.Ensures.get
  apply Prog.Ensures.bind
  apply Prog.Ensures.call trivial
  intro w₁ a w₂ hr hanswer
  subst hr
  have hw : w₂.Wedged s.state id := by
    rcases hanswer with rfl | ⟨-, rfl⟩
    · exact h.congr rfl rfl
    · exact h
  apply Prog.Ensures.ofExcept
  · intro _ _
    exact ⟨rfl, hw⟩
  · intro _ _
    exact hw

/-- Deletes one after another: the one of the wedged row fails, if none before it does. -/
theorem deleteLoop_wedges {id : ItemId} : ∀ (writes : List PendingWrite) (s : SyncEngine) (w : World S Service),
    w.Wedged s.state id → ⟨id, .delete⟩ ∈ writes →
    (deleteLoop writes).Wedges E config others id s w (fun _ _ _ => False)
  | [], s, w, _, hmem => absurd hmem (by simp)
  | write :: rest, s, w, h, hmem => by
    unfold deleteLoop
    dsimp only
    split
    · next haction =>
      apply Prog.Ensures.bind
      apply Prog.Ensures.get
      apply Prog.Ensures.bind
      apply Prog.Ensures.bind
      apply Prog.Ensures.bind
      apply Prog.Ensures.call trivial
      intro w₁ a w₂ hr hanswer
      subst hr
      obtain ⟨x, hserves, rfl⟩ := hanswer
      have hvault : (w.hear (.delete write.itemId (s.state.versionOf write.itemId)) x a).vault = w.vault :=
        w.vault_hear _ _ _
      by_cases hid : write.itemId = id
      · -- the wedged row: whatever comes back is an error
        have hrefused : ∀ response, a = .ok response → ∀ u, readDelete response ≠ .ok u := by
          intro response ha
          cases hserves with
          | answered now =>
            cases ha
            obtain ⟨row, hrow, hmoved⟩ := h.moved
            rw [hid]
            exact (serveDelete_moved hrow hmoved).2
          | lost _ _ | refused _ => cases ha
        -- and the row stays as it was, so the row is wedged in the next sync too
        have hserver : (w.hear (.delete write.itemId (s.state.versionOf write.itemId)) x a).peer.server.rows[id]? =
            w.peer.server.rows[id]? := by
          obtain ⟨row, hrow, hmoved⟩ := h.moved
          rw [World.peer_hear]
          cases hserves with
          | answered now =>
            rw [hid]
            exact congrArg (fun server : Server => server.rows[id]?) (serveDelete_moved hrow hmoved).1
          | lost now _ =>
            rw [hid]
            exact congrArg (fun server : Server => server.rows[id]?) (serveDelete_moved hrow hmoved).1
          | refused _ => rfl
        have hw := h.congr hvault hserver
        apply Prog.Ensures.ofExcept
        · intro response ha
          apply Prog.Ensures.ofExcept
          · intro u hu
            exact absurd hu (hrefused response ha u)
          · intro _ _
            exact hw
        · intro _ _
          exact hw
      -- another row: the wedged one is still ahead
      · have hw := h.congr hvault (by rw [World.peer_hear]; exact Service.Serves.delete_other hid hserves)
        apply Prog.Ensures.ofExcept
        · intro response _
          apply Prog.Ensures.ofExcept
          · intro u _
            apply Prog.Ensures.bind
            apply Prog.Ensures.modify
            apply Prog.Ensures.bind
            apply (save_wedges (by exact hw.remove hid)).mono
            · intro _ s' w' hsaved
              obtain ⟨rfl, hw'⟩ := hsaved
              apply Prog.Ensures.bind
              apply Prog.Ensures.modify
              refine deleteLoop_wedges rest _ w' hw' ?_
              rcases List.mem_cons.mp hmem with heq | hmem
              · exact absurd (congrArg PendingWrite.itemId heq).symm hid
              · exact hmem
            · intro _ s' w' hfail
              exact hfail
          · intro _ _
            exact hw
        · intro _ _
          exact hw
    · next haction =>
      refine deleteLoop_wedges rest s w h ?_
      rcases List.mem_cons.mp hmem with rfl | hmem
      · exact absurd rfl haction
      · exact hmem

/-- While nobody moves the row on, the next sync fails where this one did. -/
theorem syncOnce_wedges {id : ItemId} {roster : Roster} {s : SyncEngine} {w : World S Service}
    (h : w.Wedged s.state id) :
    (syncOnce E roster).Wedges E config others id s w (fun _ _ _ => False) := by
  apply Prog.Ensures.bind
  apply Prog.Ensures.modify
  apply Prog.Ensures.bind
  -- the row is purged and known, so its delete is listed
  have hdeletes : (pushDeletes E).Wedges E config others id { s with report := .new } w (fun _ _ _ => False) := by
    apply Prog.Ensures.bind
    apply Prog.Ensures.bind
    apply (loadAll_wedges (by exact h)).mono
    · intro rows s' w' hloaded
      obtain ⟨rfl, hw', rfl⟩ := hloaded
      apply Prog.Ensures.bind
      apply Prog.Ensures.get
      apply Prog.Ensures.ofExcept
      · intro writes hwrites
        rw [pendingOf_eq] at hwrites
        cases hwrites
        refine deleteLoop_wedges _ _ w' hw' ?_
        obtain ⟨row, hrow, hkind⟩ := hw'.known
        refine (mem_pendingList ..).mpr (.inr ((mem_pendingDeletes ..).mpr ⟨rfl, row, hrow, hkind, ?_⟩))
        intro stored hstored hid
        have hid : stored.itemId = id := hid
        refine hw'.gone ⟨stored, ?_⟩
        rw [← hid]
        exact Image.mem_records.mp hstored
      · intro e _
        exact hw'
    · intro _ s' w' hfail
      exact hfail
  apply hdeletes.mono
  · intro _ _ _ hno
    exact hno.elim
  · intro _ _ _ hfail
    exact hfail

theorem sync_fails_of_wedged {roster : Roster} {s : SyncEngine} {w w' : World S Service} {id : ItemId}
    {y : Calls Query Answer SyncError SyncEngine Unit} (h : w.Wedged s.state id)
    (hleads : Calls.Leads Eq (Answers E (honest config others)) ((EngineOp.syncOnce roster).run E s) w y w')
    (hended : y.Ended) : ∃ e s', y = .error e s' ∧ w'.Wedged s'.state id := by
  have hfails : ((EngineOp.syncOnce roster).run E).Wedges E config others id s w (fun _ _ _ => False) := by
    apply Prog.Ensures.bind
    apply (syncOnce_wedges h).mono
    · intro _ _ _ hno
      exact hno.elim
    · intro _ _ _ hfail
      exact hfail
  have hensures := Calls.Ensures.leads (fun _ => rfl) (fun h h' => h.trans h') (fun _ _ _ _ _ _ => trivial)
    (fun _ _ _ _ _ h => h) (fun _ _ _ _ h h' => h ▸ h') hleads hfails
  cases y with
  | ok _ _ => exact hensures.elim
  | error e s' => exact ⟨e, s', rfl, hensures⟩
  | call _ _ _ => exact hended.elim

/-- A `DELETE` answered 409 ends its sync at once: no pull, no push, the state as it was, and an error that is
none of transport, authentication, quota or merge. And while nobody moves the row on, so does every later one. -/
theorem refused_delete_ends_sync (E : Externals) :
    (∀ {S X : Type} [LawfulStore S] {P : Peer X} {R : World S X → World S X → Prop} {roster : Roster}
      {s s₁ : SyncEngine} {w w₁ : World S X} {id : ItemId} {version : Option ServerVersion}
      {k : Except SyncError Response → Calls Query Answer SyncError SyncEngine Unit} {response : Response},
      Calls.Leads R (Answers E P) ((EngineOp.syncOnce roster).run E s) w (.call (.send (.delete id version)) s₁ k) w₁ →
      response.status = 409 → k (.ok response) = .error (.server "delete item" 409) s₁) ∧
    (∀ {S : Type} [LawfulStore S] {config : ServerConfig} {others : Request → Prop} {roster : Roster} {s : SyncEngine}
      {w w' : World S Service} {id : ItemId} {y : Calls Query Answer SyncError SyncEngine Unit},
      w.Wedged s.state id →
      Calls.Leads Eq (Answers E (honest config others)) ((EngineOp.syncOnce roster).run E s) w y w' → y.Ended →
      ∃ e s', y = .error e s' ∧ w'.Wedged s'.state id) := by
  refine ⟨?_, ?_⟩
  · intro S X _ P R roster s s₁ w w₁ id version k response hleads hstatus
    have hrefuses : ((EngineOp.syncOnce roster).run E).Refuses :=
      (Prog.Refuses.syncOnce roster).bind fun _ => .pure _
    exact (Calls.Refuses.leads hleads (hrefuses s)).1 response hstatus
  · intro S _ config others roster s w w' id y h hleads hended
    exact sync_fails_of_wedged h hleads hended

/-! ## A wedged device -/

/-- A second group of the device. -/
def Group.second : Group :=
  Group.create ⟨⟨ByteArr.repeated 16 6⟩⟩ ['h'] (Hlc.early 2 1) (I64.saturate MIN_WALL_MS)

/-- The externals of a vault that has two groups and deletes the first. -/
def Externals.wedging : Externals :=
  .sample [] [.sample, .second, { Group.sample with deleted := some ⟨Hlc.early 3 1, .user⟩ }]

/-- A group is pushed, another device writes its row, and the device adds a second group, deletes the first and
purges it. -/
def Run.stale : Run MemoryStore Service :=
  (Run.sample [1] .empty).play .wedging .honest 40 [
    .edit (.sample 5) (.atomic (.object (.addGroup ['g']))),
    .whole (.syncOnce (.sample [1])),
    .other (.put Group.sample.id.asItemId [1] (some (.of 1))),
    .edit (.sample 6) (.atomic (.object (.addGroup ['h']))),
    .edit (.sample 5) (.atomic (.object (.deleteGroup Group.sample.id))),
    .edit (.later 5) (.atomic .purgeTombstones)]

/-- The next sync, up to its first request. -/
def Run.refused : Run MemoryStore Service :=
  upTo .wedging .honest (fun _ => true) 5 ⟨(EngineOp.syncOnce (.sample [1])).run .wedging Run.stale.work.state, Run.stale.world⟩

/-- The next sync. -/
def Run.stuck : Run MemoryStore Service :=
  upTo .wedging .honest (fun _ => false) 40 ⟨(EngineOp.syncOnce (.sample [1])).run .wedging Run.stale.work.state, Run.stale.world⟩

theorem Run.reached_stale : Run.Reached .wedging (honest .sample (fun _ => True)) .all Service.Fresh .stale := by
  refine Run.Reached.play (fun request x => Driver.serves_honest request x) (fun _ _ _ => trivial) _ ?_
    (Run.reached_sample (open_sample [] _) Service.fresh_empty)
  intro f hf x
  simp only [Act.whole, Act.other, List.mem_cons, reduceCtorEq, Act.move.injEq, List.not_mem_nil, or_false, false_or] at hf
  rw [hf]
  exact .served 0 trivial

set_option maxRecDepth 20000 in
theorem Run.reached_stuck : Run.Reached .wedging (honest .sample (fun _ => True)) .all Service.Fresh .stuck :=
  (Run.reached_stale.step (.began (.of_ended (by decide +kernel)) trivial)).upTo
    (fun request x => Driver.serves_honest request x) (fun _ _ _ => trivial) 40

theorem Run.leads_stale (stop : Request → Bool) (fuel : Nat) :
    let r : Run MemoryStore Service := ⟨(EngineOp.syncOnce (.sample [1])).run .wedging Run.stale.work.state, Run.stale.world⟩
    Calls.Leads Eq (Answers .wedging (honest .sample (fun _ => True))) r.work r.world
      (r.upTo .wedging .honest stop fuel).work (r.upTo .wedging .honest stop fuel).world :=
  leads_upTo (fun request x => Driver.serves_honest request x) stop fuel _

set_option maxRecDepth 20000 in
theorem Run.wedged_stale : Run.stale.world.Wedged Run.stale.work.state.state Group.sample.id.asItemId := by
  have hknown : (Run.stale.work.state.state.known[Group.sample.id.asItemId]?).any KnownRow.isDeletable = true := by
    decide +kernel
  have hgone : Run.stale.world.rows.rows[Group.sample.id.asItemId]? = none := by decide +kernel
  have hmoved : (Run.stale.world.peer.server.rows[Group.sample.id.asItemId]?).any (fun row =>
      decide (deleteCondition (Run.stale.work.state.state.versionOf Group.sample.id.asItemId) ≠ .ok row.version)) = true := by
    decide +kernel
  refine ⟨Option.any_eq_true _ _ |>.mp hknown, ?_, ?_⟩
  · intro hhas
    obtain ⟨row, hrow⟩ := hhas
    rw [hgone] at hrow
    cases hrow
  · obtain ⟨row, hrow, hne⟩ := Option.any_eq_true _ _ |>.mp hmoved
    exact ⟨row, hrow, of_decide_eq_true hne⟩

set_option maxRecDepth 20000 in
/-- The write of another device wedges a purge: the sync ends at the `DELETE` with its other write still pending
and nothing pulled, and so does every sync after it. -/
theorem refused_delete_wedges_sync :
    Run.Reached .wedging (honest .sample (fun _ => True)) .all Service.Fresh .stuck ∧
    Run.stuck.work.failure = some (.server "delete item" 409) ∧ Run.stuck.work.state.report.pages = 0 ∧
    (∃ writes, Run.stuck.Lists .wedging (honest .sample (fun _ => True)) writes ∧
      ⟨Group.second.id.asItemId, .put⟩ ∈ writes) ∧
    Run.stuck.world.Wedged Run.stuck.work.state.state Group.sample.id.asItemId := by
  have hfailure : Run.stuck.work.failure = some (.server "delete item" 409) := by decide +kernel
  refine ⟨Run.reached_stuck, hfailure, by decide +kernel, ⟨_, Run.lists_of_loaded rfl, by decide +kernel⟩, ?_⟩
  have hleads := Run.leads_stale (fun _ => false) 40
  obtain ⟨e, s', hend, hwedged⟩ := sync_fails_of_wedged Run.wedged_stale hleads (.of_ended (by decide +kernel))
  have hstate : Run.stuck.work.state = s' := congrArg Calls.state hend
  rw [hstate]
  exact hwedged

set_option maxRecDepth 20000 in
/-- The purge of the stale group: its `DELETE`, were it answered 409, ends the sync, and the sync fails. -/
theorem refused_delete_ends_sync_stale :
    (∃ s k, Run.refused.work = .call (.send (.delete Group.sample.id.asItemId (some (.of 1)))) s k ∧
      k (.ok ⟨409, .garbled⟩) = .error (.server "delete item" 409) s) ∧
    ∃ e s', Run.stuck.work = .error e s' ∧ Run.stuck.world.Wedged s'.state Group.sample.id.asItemId := by
  have hasking : Run.refused.work.asking = some (.delete Group.sample.id.asItemId (some (.of 1))) := by decide +kernel
  obtain ⟨s, k, hwork⟩ := Calls.eq_of_asking hasking
  have hrefused := Run.leads_stale (fun _ => true) 5
  dsimp only at hrefused
  rw [show Run.upTo _ _ _ _ _ = Run.refused from rfl, hwork] at hrefused
  refine ⟨⟨s, k, hwork, (refused_delete_ends_sync _).1 hrefused rfl⟩, ?_⟩
  exact (refused_delete_ends_sync _).2 Run.wedged_stale (Run.leads_stale (fun _ => false) 40) (.of_ended (by decide +kernel))

end Misty
