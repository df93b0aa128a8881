import Misty.Sync.Moves
import Misty.Sync.Queue

/- Every program of the engine is made of moves: wherever it can be stopped, its state
   and the world are `Traced`. The methods are walked once, in the order of the source,
   each call answered in every way; a theorem about runs then only looks at moves. -/
namespace Misty

open LawfulStore (view)

variable {S X : Type} [LawfulStore S]

/-! ## Worlds -/

namespace World

omit [LawfulStore S] in
theorem onVault_snd {α : Type} (w : World S X) (x : Io (Vault S) α) :
    (w.onVault x).2 = { w with vault := stateAfter x w.vault } := by
  unfold onVault stateAfter
  cases x w.vault <;> rfl

omit [LawfulStore S] in
@[simp] theorem vault_ask (w : World S X) (r : Request) (x : X) : (w.ask r x).vault = w.vault := rfl

omit [LawfulStore S] in
@[simp] theorem vault_hear (w : World S X) (r : Request) (x : X) (a : Except SyncError Response) :
    (w.hear r x a).vault = w.vault := by
  cases a <;> rfl

omit [LawfulStore S] in
@[simp] theorem peer_hear (w : World S X) (r : Request) (x : X) (a : Except SyncError Response) :
    (w.hear r x a).peer = x := by
  cases a <;> rfl

@[simp] theorem vault_note (w : World S X) (st : SyncState) : (w.note st).vault = w.vault := rfl

theorem rows_congr {w w' : World S X} (h : w'.vault = w.vault) : w'.rows = w.rows := by
  unfold rows
  rw [h]

variable {P : Peer X} {C : Permit S X}

omit [LawfulStore S] in
theorem Drifts.vault {w w' : World S X} (h : w.Drifts P C w') : w'.vault = w.vault := by
  induction h with
  | refl => rfl
  | tail _ hm ih =>
    obtain ⟨x, -, rfl, -⟩ := hm
    exact ih

end World

section Trace

variable (E : Externals) (P : Peer X) (C : Permit S X) (start : X → Prop)

/-- Where a program waits its world is traced, and a request is one the engine asks. -/
def Waits (q : Query) (s : SyncEngine) (w : World S X) : Prop :=
  ∃ st, Traced E P C start st w ∧ ∀ r, q = .send r → st = s.state ∧ Asks E st w r

/-- What a program of the engine ensures while all its calls are traced. -/
abbrev Prog.Traces {α : Type} (x : Sync α) (s : SyncEngine) (w : World S X) (Q : α → SyncEngine → World S X → Prop)
    (F : SyncError → SyncEngine → World S X → Prop) : Prop :=
  x.Ensures (World.Drifts P C) (Permitted E P C) (Waits E P C start) s w Q F

/-- What a program of the engine ensures when it leaves a traced state behind however it fails. -/
abbrev Prog.Follows {α : Type} (x : Sync α) (s : SyncEngine) (w : World S X)
    (Q : α → SyncEngine → World S X → Prop) : Prop :=
  x.Traces E P C start s w Q (fun _ s' w' => Traced E P C start s'.state w')

variable {E P C start} {st : SyncState} {s : SyncEngine} {w : World S X}

theorem Traced.drifts {w' : World S X} (h : Traced E P C start st w) (hd : w.Drifts P C w') :
    Traced E P C start st w' := by
  induction hd with
  | refl => exact h
  | tail _ hm ih => exact ih.step (.moved hm)

theorem Traced.waits {q : Query} (h : Traced E P C start st w) (hq : ∀ r, q ≠ .send r) :
    Waits E P C start q s w :=
  ⟨st, h, fun r hr => absurd hr (hq r)⟩

/-- What the engine asks depends on the vault, not on the rest of the world. -/
theorem Asks.congr {w' : World S X} {r : Request} (h : Asks E st w r) (hv : w'.vault = w.vault) :
    Asks E st w' r := by
  have hrows := World.rows_congr hv
  cases h with
  | changes => exact .changes
  | delete hknown hkind hrow => exact .delete hknown hkind (hrows ▸ hrow)
  | put hrow hpending => exact .put (hrows ▸ hrow) hpending
  | roster hseals => exact .roster hseals

omit [LawfulStore S] in
theorem Served.vault {r : Request} {a : Except SyncError Response} {w' : World S X} (h : Served P C w r a w') :
    w'.vault = w.vault := by
  obtain ⟨x, -, rfl, -⟩ := h
  exact w.vault_hear r x a

/-! ## Calls -/

theorem onVault_quiet {α : Type} {x : Io S α} {a : Result α} {w' : World S X}
    {Q : α → S → Prop} (hx : Meets x w.vault.store
      (fun b s' => view s' = view w.vault.store ∧ Q b s' ∧ ∀ c, LawfulStore.Accepts c w.vault.store → LawfulStore.Accepts c s')
      (fun _ s' => view s' = view w.vault.store ∧ ∀ c, LawfulStore.Accepts c w.vault.store → LawfulStore.Accepts c s'))
    (h : (a, w') = w.onVault (Vault.onStore x)) :
    ∃ v, Quiet w.vault v ∧ w' = { w with vault := v } ∧ ∀ b, a = .ok b → Q b v.store := by
  have hmeets : Meets (Vault.onStore x) w.vault
      (fun b v => Quiet w.vault v ∧ Q b v.store) (fun _ v => Quiet w.vault v) := by
    apply Meets.onStore
    apply hx.mono
    · intro b s' h
      exact ⟨.of_store _ h.1 h.2.2, h.2.1⟩
    · intro e s' h
      exact .of_store _ h.1 h.2
  unfold World.onVault at h
  split at h
  · next b v hb =>
    cases h
    have hq := hmeets.of_ok hb
    exact ⟨v, hq.1, rfl, fun b' hb' => by cases hb'; exact hq.2⟩
  · next e v he =>
    cases h
    exact ⟨v, hmeets.of_error he, rfl, nofun⟩

theorem loadAll_follows (h : Traced E P C start s.state w) :
    loadAll.Follows E P C start s w
      (fun rows s' w' => s' = s ∧ Traced E P C start s.state w' ∧ rows = w'.rows.records) := by
  apply Prog.Ensures.bind
  apply Prog.Ensures.call (h.waits (fun r hr => by cases hr))
  intro w₁ a w₂ hd hp
  obtain ⟨v, hq, rfl, hok⟩ := onVault_quiet
    (Q := fun b _ => b = (view w₁.vault.store).image.records)
    ((LawfulStore.loadAll_spec w₁.vault.store).mono (fun _ _ h => h) (fun _ _ h => ⟨h.1, h.2.1⟩)) hp.1
  have ht := (h.drifts hd).step (.read hq)
  apply Prog.Ensures.ofExcept
  · intro rows hrows
    refine ⟨rfl, ht, ?_⟩
    rw [hok rows (mapError_eq_ok.mp hrows)]
    show _ = (view v.store).image.records
    rw [hq.view]
  · intro e _
    exact ht

theorem stored_follows (itemId : ItemId) (h : Traced E P C start s.state w) :
    (stored itemId).Follows E P C start s w
      (fun row s' w' => s' = s ∧ Traced E P C start s.state w' ∧ row = w'.rows.rows[itemId]?) := by
  apply Prog.Ensures.bind
  apply Prog.Ensures.call (h.waits (fun r hr => by cases hr))
  intro w₁ a w₂ hd hp
  obtain ⟨v, hq, rfl, hok⟩ := onVault_quiet
    (Q := fun b _ => b = (view w₁.vault.store).image.rows[itemId]?)
    (LawfulStore.get_spec itemId w₁.vault.store) hp.1
  have ht := (h.drifts hd).step (.read hq)
  apply Prog.Ensures.ofExcept
  · intro row hrow
    refine ⟨rfl, ht, ?_⟩
    rw [hok row (mapError_eq_ok.mp hrow)]
    show _ = (view v.store).image.rows[itemId]?
    rw [hq.view]
  · intro e _
    exact ht

theorem save_follows (h : Traced E P C start s.state w) :
    save.Follows E P C start s w
      (fun _ s' w' => s' = s ∧ Traced E P C start s.state w' ∧ w'.vault = w.vault) := by
  apply Prog.Ensures.bind
  apply Prog.Ensures.get
  apply Prog.Ensures.bind
  apply Prog.Ensures.call (h.waits (fun r hr => by cases hr))
  intro w₁ a w₂ hd hp
  have ht : Traced E P C start s.state w₂ ∧ w₂.vault = w₁.vault := by
    rcases hp.1 with rfl | ⟨-, rfl⟩
    · exact ⟨(h.drifts hd).step .noted, rfl⟩
    · exact ⟨h.drifts hd, rfl⟩
  apply Prog.Ensures.ofExcept
  · intro _ _
    exact ⟨rfl, ht.1, ht.2.trans hd.vault⟩
  · intro e _
    exact ht.1

theorem send_traces {r : Request} (h : Traced E P C start s.state w) (hask : Asks E s.state w r) :
    (send r).Traces E P C start s w
      (fun response s' w' => s' = s ∧ ∃ w₁, Traced E P C start s.state w₁ ∧ w₁.vault = w.vault ∧
        Served P C w₁ r (.ok response) w')
      (fun _ s' w' => s' = s ∧ Traced E P C start s.state w') := by
  have hwaits : Waits E P C start (.send r) s w :=
    ⟨s.state, h, fun r' hr => by cases hr; exact ⟨rfl, hask⟩⟩
  apply Prog.Ensures.bind
  apply Prog.Ensures.call hwaits
  intro w₁ a w₂ hd hp
  obtain ⟨⟨x, hserve, hw₂⟩, hc⟩ := hp
  have hserved : Served P C w₁ r a w₂ := ⟨x, hserve, hw₂, hc⟩
  apply Prog.Ensures.ofExcept
  · intro response ha
    subst ha
    exact ⟨rfl, w₁, h.drifts hd, hd.vault, hserved⟩
  · intro e ha
    exact ⟨rfl, (h.drifts hd).step (.asked (hask.congr hd.vault) hserved)⟩

theorem changes_traces {limit : Nat} (h : Traced E P C start s.state w) :
    (changes s.state.cursor limit).Traces E P C start s w
      (fun feed s' w' => s' = s ∧ Traced E P C start s.state w' ∧ w'.vault = w.vault ∧
        ∃ w₁ response, Traced E P C start s.state w₁ ∧
          Served P C w₁ (.changes s.state.cursor (max limit 1)) (.ok response) w' ∧ readChanges response = .ok feed)
      (fun _ s' w' => s' = s ∧ Traced E P C start s.state w') := by
  apply Prog.Ensures.bind
  apply (send_traces h .changes).mono
  · intro response s' w' hsent
    obtain ⟨rfl, w₁, ht, hv, hserved⟩ := hsent
    have ht' := ht.step (.asked .changes hserved)
    apply Prog.Ensures.ofExcept
    · intro feed hfeed
      exact ⟨rfl, ht', hserved.vault.trans hv, w₁, response, ht, hserved, hfeed⟩
    · intro e _
      exact ⟨rfl, ht'⟩
  · intro e s' w' hfail
    exact hfail

theorem putItem_follows {itemId : ItemId} {envelope : Bytes} (h : Traced E P C start s.state w)
    (hask : Asks E s.state w (.put itemId envelope (s.state.versionOf itemId))) :
    (putItem itemId envelope (s.state.versionOf itemId)).Follows E P C start s w
      (fun out s' w' => s' = s ∧ ∃ w₁ response, Traced E P C start s.state w₁ ∧ w₁.vault = w.vault ∧
        Served P C w₁ (.put itemId envelope (s.state.versionOf itemId)) (.ok response) w' ∧
        readPut envelope response = .ok out) := by
  unfold putItem
  split
  · exact Prog.Ensures.bind (Prog.Ensures.throw h)
  · apply Prog.Ensures.bind
    apply (send_traces h hask).mono
    · intro response s' w' hsent
      obtain ⟨rfl, w₁, ht, hv, hserved⟩ := hsent
      apply Prog.Ensures.ofExcept
      · intro out hout
        exact ⟨rfl, w₁, response, ht, hv, hserved, hout⟩
      · intro e _
        exact ht.step (.asked (hask.congr hv) hserved)
    · intro e s' w' hfail
      rw [hfail.1]
      exact hfail.2

theorem deleteItem_follows {itemId : ItemId} (h : Traced E P C start s.state w)
    (hask : Asks E s.state w (.delete itemId (s.state.versionOf itemId))) :
    (deleteItem itemId (s.state.versionOf itemId)).Follows E P C start s w
      (fun _ s' w' => s' = s ∧ Traced E P C start (s.state.remove itemId) w' ∧ w'.vault = w.vault) := by
  apply Prog.Ensures.bind
  apply (send_traces h hask).mono
  · intro response s' w' hsent
    obtain ⟨rfl, w₁, ht, hv, hserved⟩ := hsent
    apply Prog.Ensures.ofExcept
    · intro _ hread
      exact ⟨rfl, ht.step (.deleted (hask.congr hv) hserved hread), hserved.vault.trans hv⟩
    · intro e _
      exact ht.step (.asked (hask.congr hv) hserved)
  · intro e s' w' hfail
    rw [hfail.1]
    exact hfail.2

theorem pending_follows (h : Traced E P C start s.state w) :
    (pending E).Follows E P C start s w
      (fun writes s' w' => s' = s ∧ Traced E P C start s.state w' ∧
        writes = pendingList E s.state w'.rows.records) := by
  apply Prog.Ensures.bind
  apply (loadAll_follows h).mono
  · intro rows s' w' hread
    obtain ⟨rfl, ht, rfl⟩ := hread
    apply Prog.Ensures.bind
    apply Prog.Ensures.get
    apply Prog.Ensures.ofExcept
    · intro writes hwrites
      rw [pendingOf_eq] at hwrites
      cases hwrites
      exact ⟨rfl, ht, rfl⟩
    · intro e _
      exact ht
  · intro e s' w' hfail
    exact hfail

/-! ## The delete phase -/

theorem deleteLoop_follows : ∀ (writes : List PendingWrite) (s : SyncEngine) (w : World S X),
    ((writes.filter (fun write => write.action = .delete)).map PendingWrite.itemId).Nodup →
    (∀ write ∈ writes, write.action = .delete → ∃ row, s.state.known[write.itemId]? = some row ∧
      row.isDeletable = true ∧ ¬ w.rows.Has write.itemId) →
    Traced E P C start s.state w →
    (deleteLoop writes).Follows E P C start s w (fun _ s' w' => Traced E P C start s'.state w')
  | [], s, w, _, _, h => Prog.Ensures.pure h
  | write :: rest, s, w, hnodup, hall, h => by
    unfold deleteLoop
    have hrest := fun p hp => hall p (List.mem_cons_of_mem write hp)
    split
    · next haction =>
      obtain ⟨row, hknown, hkind, hrow⟩ := hall write (by simp) haction
      rw [List.filter_cons_of_pos (by simpa using haction), List.map_cons, List.nodup_cons] at hnodup
      apply Prog.Ensures.bind
      apply Prog.Ensures.get
      apply Prog.Ensures.bind
      apply (deleteItem_follows h (.delete hknown hkind hrow)).mono
      · intro _ s₁ w₁ hdeleted
        obtain ⟨rfl, ht, hv⟩ := hdeleted
        apply Prog.Ensures.bind
        apply Prog.Ensures.modify
        apply Prog.Ensures.bind
        apply (save_follows (s := { s₁ with state := s₁.state.remove write.itemId }) ht).mono
        · intro _ s₂ w₂ hsaved
          obtain ⟨rfl, ht₂, hv₂⟩ := hsaved
          apply Prog.Ensures.bind
          apply Prog.Ensures.modify
          refine deleteLoop_follows rest _ w₂ hnodup.2 ?_ ht₂
          -- the ids that are left are other ids, and the vault is as it was
          intro p hp hdelete
          obtain ⟨row', hknown', hkind', hrow'⟩ := hrest p hp hdelete
          have hne : write.itemId ≠ p.itemId := by
            intro hid
            apply hnodup.1
            rw [hid]
            exact List.mem_map_of_mem (List.mem_filter.mpr ⟨hp, by simpa using hdelete⟩)
          refine ⟨row', ?_, hkind', ?_⟩
          · show (s₁.state.remove write.itemId).known[p.itemId]? = _
            rw [SyncState.known_remove, if_neg hne]
            exact hknown'
          · rw [World.rows_congr (hv₂.trans hv)]
            exact hrow'
        · intro e s₂ w₂ hfail
          exact hfail
      · intro e s₁ w₁ hfail
        exact hfail
    · next haction =>
      rw [List.filter_cons_of_neg (by simpa using haction)] at hnodup
      exact deleteLoop_follows rest s w hnodup hrest h

theorem pushDeletes_follows (h : Traced E P C start s.state w) :
    (pushDeletes E).Follows E P C start s w (fun _ s' w' => Traced E P C start s'.state w') := by
  apply Prog.Ensures.bind
  apply (pending_follows h).mono
  · intro writes s' w' hlisted
    obtain ⟨rfl, ht, rfl⟩ := hlisted
    apply deleteLoop_follows _ _ _ (nodup_deletes E _ _) _ ht
    intro write hwrite haction
    rcases (mem_pendingList E _ _ _).mp hwrite with ⟨row, -, -, rfl⟩ | hdelete
    · cases haction
    · obtain ⟨-, row, hknown, hkind, hnone⟩ := (mem_pendingDeletes _ _ _).mp hdelete
      refine ⟨row, hknown, hkind, ?_⟩
      intro hhas
      obtain ⟨r, hr⟩ := hhas
      have hid := w'.rows.keyed _ _ hr
      exact hnone r (Image.mem_records.mpr (by rw [hid]; exact hr)) hid
  · intro e s' w' hfail
    exact hfail

/-! ## Pulling -/

/-- A merge is called while the engine's state may be ahead of what is traced. -/
theorem mergeRemote_traces {operation : String} {changes : List RemoteChange}
    {Q : MergeReport → SyncEngine → World S X → Prop} {F : SyncError → SyncEngine → World S X → Prop}
    (h : Traced E P C start st w)
    (hok : ∀ w₁ report w', w.Drifts P C w₁ → Permitted E P C (.mergeRemote changes) w₁ (.ok report) w' →
      Q report s w')
    (herr : ∀ w₁ e w', w.Drifts P C w₁ → Permitted E P C (.mergeRemote changes) w₁ (.error e) w' →
      ∀ e', F e' s w') :
    (mergeRemote operation changes).Traces E P C start s w Q F := by
  apply Prog.Ensures.bind
  apply Prog.Ensures.call (h.waits (fun r hr => by cases hr))
  intro w₁ a w₂ hd hp
  cases a with
  | ok report =>
    apply Prog.Ensures.ofExcept
    · intro report' hreport
      cases hreport
      exact hok w₁ report w₂ hd hp
    · intro _ herror
      cases herror
  | error e =>
    apply Prog.Ensures.ofExcept
    · nofun
    · intro e' _
      exact herr w₁ e w₂ hd hp e'

omit [LawfulStore S] in
theorem recordPage_ensures {W : Type} {w : W} {R : W → W → Prop} {T : (q : Query) → W → Answer q → W → Prop}
    {I : Query → SyncEngine → W → Prop} {Q : Unit → SyncEngine → W → Prop} {F : SyncError → SyncEngine → W → Prop} :
    ∀ (accepted : List (FeedChange × Option EnvelopeKind)) (s : SyncEngine),
      Q ⟨⟩ { s with state := s.state.recordAll E accepted } w →
      (recordPage E accepted).Ensures R T I s w Q F
  | [], s, h => Prog.Ensures.pure h
  | (change, kind) :: rest, s, h => by
    apply Prog.Ensures.bind
    apply Prog.Ensures.bind
    apply Prog.Ensures.ofExcept
    · intro fp hfp
      have hfp : fp = change.envelope.map (fingerprint E) := by
        cases henv : change.envelope with
        | none =>
          rw [henv] at hfp
          cases hfp
          rfl
        | some envelope =>
          rw [henv] at hfp
          cases hfp
          rfl
      subst hfp
      apply Prog.Ensures.modify
      exact recordPage_ensures rest _ h
    · intro e he
      cases henv : change.envelope with
      | none =>
        rw [henv] at he
        cases he
      | some envelope =>
        rw [henv] at he
        cases he

theorem applyPage_follows (roster : Roster) (page : List FeedChange) (h : Traced E P C start s.state w) :
    (applyPage E roster page).Follows E P C start s w
      (fun _ s' w' => s'.state = s.state.recordAll E (sortPage E roster page).accepted ∧
        ∃ w₁, w.Drifts P C w₁ ∧ Merges E P C (sortPage E roster page).batch w₁ w') := by
  unfold applyPage
  apply Prog.Ensures.bind
  apply Prog.Ensures.modify
  dsimp only
  split
  · next hbatch =>
    apply Prog.Ensures.bind
    apply mergeRemote_traces h
    · intro w₁ report w' hd hp
      apply Prog.Ensures.bind
      apply Prog.Ensures.modify
      apply recordPage_ensures
      exact ⟨rfl, w₁, hd, .inr ⟨by simpa using hbatch, report, hp⟩⟩
    · intro w₁ e w' hd hp _
      exact (h.drifts hd).step (.merged hp)
  · next hbatch =>
    apply recordPage_ensures
    exact ⟨rfl, w, .refl, .inl ⟨by simpa using hbatch, rfl⟩⟩

theorem pullLoop_follows (roster : Roster) (hbegan : ∃ u, C u (.began (.syncOnce roster)) u) (left limit : Nat)
    (s : SyncEngine) (w : World S X) (h : Traced E P C start s.state w) :
    (pullLoop E roster left limit).Follows E P C start s w (fun _ s' w' => Traced E P C start s'.state w') := by
  match left with
  | 0 =>
    rw [pullLoop]
    exact Prog.Ensures.throw h
  | left + 1 =>
    rw [pullLoop]
    apply Prog.Ensures.bind
    apply Prog.Ensures.get
    apply Prog.Ensures.bind
    apply Prog.Ensures.attempt
    apply (changes_traces h).mono
    · intro feed s₁ w₁ hheard
      obtain ⟨rfl, ht, hv, w₀, response, ht₀, hserved, hread⟩ := hheard
      apply Prog.Ensures.bind
      apply Prog.Ensures.modify
      apply Prog.Ensures.bind
      apply Prog.Ensures.ofExcept
      · intro _ hcheck
        rcases hhalt : haltPage feed with ⟨halted, page, nextCursor⟩
        dsimp only
        apply Prog.Ensures.bind
        apply (applyPage_follows roster page (by exact ht)).mono
        · intro _ s₂ w₂ happlied
          obtain ⟨hstate, w', hd, hmerged⟩ := happlied
          -- applying the page is one step from the world that served it
          have hpage := ht₀.step (.pulled hbegan hserved hread hcheck hd (by rw [hhalt]; exact hmerged))
          apply Prog.Ensures.bind
          apply Prog.Ensures.modify
          have hmoved : ({ s₂.state with cursor := some nextCursor } : SyncState) =
              s₁.state.page E roster feed := by
            unfold SyncState.page
            rw [hstate, hhalt]
          rw [← hmoved] at hpage
          apply Prog.Ensures.bind
          apply (save_follows (by exact hpage)).mono
          · intro _ s₃ w₃ hsaved
            obtain ⟨rfl, ht₃, -⟩ := hsaved
            dsimp only
            split
            · exact Prog.Ensures.pure ht₃
            · split
              · exact Prog.Ensures.pure ht₃
              · exact pullLoop_follows roster hbegan left limit _ w₃ ht₃
          · intro e s₃ w₃ hfail
            exact hfail
        · intro e s₂ w₂ hfail
          exact hfail
      · intro e _
        exact ht
    · intro e s₁ w₁ hfail
      obtain ⟨rfl, ht⟩ := hfail
      dsimp only
      split
      -- asked again for less: no step of the trace
      · next hsmaller => exact pullLoop_follows roster hbegan (left + 1) (max (limit / 2) 1) s₁ w₁ ht
      · exact Prog.Ensures.throw ht
termination_by left + limit

/-! ## Pushing -/

/-- A conflict is settled: the state moves at the merge, or where there is none. -/
theorem resolveConflict_follows {roster : Roster} {itemId : ItemId} {version : Option ServerVersion}
    {envelope : Option Bytes} {row : StoredEnvelope} {response : Response} {w₀ : World S X}
    (hbegan : ∃ u, C u (.began (.syncOnce roster)) u) (h : Traced E P C start s.state w₀)
    (hrow : w₀.rows.rows[itemId]? = some row)
    (hpending : s.state.confirmed itemId (fingerprint E row.envelope) = false)
    (hserved : Served P C w₀ (.put itemId row.envelope (s.state.versionOf itemId)) (.ok response) w)
    (hread : readPut row.envelope response = .ok (.conflict version envelope)) :
    (resolveConflict E roster itemId version envelope).Follows E P C start s w
      (fun _ s' w' => Traced E P C start s'.state w') := by
  have ht := h.step (.asked (.put hrow hpending) hserved)
  -- the last steps: the state is saved and the conflict counted
  have hend : ∀ (s' : SyncEngine) (w' : World S X), Traced E P C start s'.state w' →
      (do
        save
        setReport fun report => { report with conflictsResolved := report.conflictsResolved + 1 }
        : Sync Unit).Follows E P C start s' w' (fun _ s' w' => Traced E P C start s'.state w') := by
    intro s' w' h'
    apply Prog.Ensures.bind
    apply (save_follows h').mono
    · intro _ s₂ w₂ hsaved
      obtain ⟨rfl, ht₂, -⟩ := hsaved
      exact Prog.Ensures.modify ht₂
    · intro e s₂ w₂ hfail
      exact hfail
  unfold resolveConflict
  cases envelope with
  | none =>
    have hreclaimed := h.step (.reclaimed hrow hpending hserved hread)
    cases version with
    | none =>
      apply Prog.Ensures.bind
      apply Prog.Ensures.modify
      exact hend _ _ hreclaimed
    | some version =>
      apply Prog.Ensures.bind
      apply Prog.Ensures.modify
      exact hend _ _ hreclaimed
  | some envelope =>
    apply Prog.Ensures.bind
    apply Prog.Ensures.ofExcept
    · intro kind hverify
      apply Prog.Ensures.bind
      apply Prog.Ensures.ofExcept
      · intro fp hfp
        rw [Fingerprint.of_eq] at hfp
        cases hfp
        apply Prog.Ensures.bind
        apply Prog.Ensures.get
        dsimp only
        split
        · exact Prog.Ensures.bind (Prog.Ensures.throw ht)
        · next hloop =>
          apply Prog.Ensures.bind
          apply Prog.Ensures.modify
          dsimp only
          split
          · next hmerged =>
            have hresolved : ∀ {w₁ a w'}, w.Drifts P C w₁ →
                Permitted E P C (.mergeRemote [⟨itemId, none, none, envelope⟩]) w₁ a w' →
                Traced E P C start (s.state.insert itemId (conflictRow E kind version envelope)) w' :=
              fun hd hp => h.step (.resolved hbegan hrow hpending hserved hread hverify hloop hd
                (.inr ⟨hmerged, _, hp⟩))
            apply Prog.Ensures.bind
            apply mergeRemote_traces ht
            · intro w₁ report w' hd hp
              apply Prog.Ensures.bind
              apply Prog.Ensures.modify
              exact hend _ _ (hresolved hd hp)
            · intro w₁ e w' hd hp _
              exact hresolved hd hp
          · next hmerged =>
            exact hend _ _ (h.step (.resolved hbegan hrow hpending hserved hread hverify hloop .refl
              (.inl ⟨by simpa using hmerged, rfl⟩)))
      · intro e he
        cases he
    · intro e _
      exact ht

theorem pushLoop_follows {roster : Roster} (hbegan : ∃ u, C u (.began (.syncOnce roster)) u) (itemId : ItemId) :
    ∀ (left : Nat) (s : SyncEngine) (w : World S X), Traced E P C start s.state w →
      (pushLoop E roster itemId left).Follows E P C start s w (fun _ s' w' => Traced E P C start s'.state w')
  | 0, s, w, h => Prog.Ensures.throw h
  | left + 1, s, w, h => by
    unfold pushLoop
    apply Prog.Ensures.bind
    apply (stored_follows itemId h).mono
    · intro row s₁ w₁ hread
      obtain ⟨rfl, ht, hrow⟩ := hread
      cases row with
      -- the row is gone: nothing is left to push
      | none => exact Prog.Ensures.pure ht
      | some row =>
        apply Prog.Ensures.bind
        apply Prog.Ensures.ofExcept
        · intro fp hfp
          rw [Fingerprint.of_eq] at hfp
          cases hfp
          apply Prog.Ensures.bind
          apply Prog.Ensures.get
          split
          · exact Prog.Ensures.pure ht
          -- pending: the row in the vault is what the PUT carries
          · next hpending =>
            have hpending : s₁.state.confirmed itemId (fingerprint E row.envelope) = false := by
              simpa using hpending
            apply Prog.Ensures.bind
            apply (putItem_follows ht (.put hrow.symm hpending)).mono
            · intro out s₂ w₂ hput
              obtain ⟨rfl, w₀, response, ht₀, hv, hserved, hout⟩ := hput
              have hrow₀ : w₀.rows.rows[itemId]? = some row := by
                rw [World.rows_congr hv]
                exact hrow.symm
              cases out with
              | applied seq version =>
                have happlied := ht₀.step (.applied hrow₀ hpending hserved hout)
                apply Prog.Ensures.bind
                apply Prog.Ensures.modify
                apply Prog.Ensures.bind
                apply (save_follows happlied).mono
                · intro _ s₃ w₃ hsaved
                  obtain ⟨rfl, ht₃, -⟩ := hsaved
                  exact Prog.Ensures.modify ht₃
                · intro e s₃ w₃ hfail
                  exact hfail
              -- 409: the merge ends back here with one round fewer
              | conflict version envelope =>
                apply Prog.Ensures.bind
                apply (resolveConflict_follows hbegan ht₀ hrow₀ hpending hserved hout).mono
                · intro _ s₃ w₃ ht₃
                  exact pushLoop_follows hbegan itemId left s₃ w₃ ht₃
                · intro e s₃ w₃ hfail
                  exact hfail
            · intro e s₂ w₂ hfail
              exact hfail
        · intro e he
          cases he
    · intro e s₁ w₁ hfail
      exact hfail

theorem writeLoop_follows {roster : Roster} (hbegan : ∃ u, C u (.began (.syncOnce roster)) u) :
    ∀ (writes : List PendingWrite) (s : SyncEngine) (w : World S X), Traced E P C start s.state w →
      (writeLoop E roster writes).Follows E P C start s w (fun _ s' w' => Traced E P C start s'.state w')
  | [], s, w, h => Prog.Ensures.pure h
  | write :: rest, s, w, h => by
    unfold writeLoop
    split
    · apply Prog.Ensures.bind
      apply (pushLoop_follows hbegan write.itemId _ s w h).mono
      · intro _ s₁ w₁ ht
        exact writeLoop_follows hbegan rest s₁ w₁ ht
      · intro e s₁ w₁ hfail
        exact hfail
    · exact writeLoop_follows hbegan rest s w h

theorem syncOnce_follows {roster : Roster} (hbegan : ∃ u, C u (.began (.syncOnce roster)) u)
    (h : Traced E P C start s.state w) :
    (syncOnce E roster).Follows E P C start s w (fun _ s' w' => Traced E P C start s'.state w') := by
  apply Prog.Ensures.bind
  apply Prog.Ensures.modify
  apply Prog.Ensures.bind
  apply (pushDeletes_follows (s := { s with report := .new }) h).mono
  · intro _ s₁ w₁ h₁
    apply Prog.Ensures.bind
    apply Prog.Ensures.bind
    apply Prog.Ensures.get
    apply (pullLoop_follows roster hbegan _ _ s₁ w₁ h₁).mono
    · intro _ s₂ w₂ h₂
      apply Prog.Ensures.bind
      apply Prog.Ensures.bind
      apply (pending_follows h₂).mono
      · intro writes s₃ w₃ hlisted
        obtain ⟨rfl, ht₃, -⟩ := hlisted
        apply (writeLoop_follows hbegan writes s₃ w₃ ht₃).mono
        · intro _ s₄ w₄ h₄
          apply Prog.Ensures.bind
          apply Prog.Ensures.get
          apply Prog.Ensures.bind
          apply Prog.Ensures.modify
          apply Prog.Ensures.bind
          apply (pending_follows (by exact h₄)).mono
          · intro writes s₅ w₅ hlisted
            obtain ⟨rfl, ht₅, -⟩ := hlisted
            apply Prog.Ensures.bind
            apply Prog.Ensures.modify
            apply Prog.Ensures.bind
            apply Prog.Ensures.get
            exact Prog.Ensures.pure ht₅
          · intro e s₅ w₅ hfail
            exact hfail
        · intro e s₄ w₄ hfail
          exact hfail
      · intro e s₃ w₃ hfail
        exact hfail
    · intro e s₂ w₂ hfail
      exact hfail
  · intro e s₁ w₁ hfail
    exact hfail

/-! ## Rosters and rotation -/

theorem save_return {α : Type} {a : α} (h : Traced E P C start s.state w) :
    (do
      save
      return a : Sync α).Follows E P C start s w (fun _ s' w' => Traced E P C start s'.state w') := by
  apply Prog.Ensures.bind
  apply (save_follows h).mono
  · intro _ s' w' hsaved
    obtain ⟨rfl, ht, -⟩ := hsaved
    exact Prog.Ensures.pure ht
  · intro e s' w' hfail
    exact hfail

theorem pushRoster_follows {cbor : Roster → Option Bytes} {draw : SealDraw} {roster : Roster}
    {vaultKey : ByteArr 32} (h : Traced E P C start s.state w) :
    (pushRoster E cbor draw roster vaultKey).Follows E P C start s w
      (fun _ s' w' => Traced E P C start s'.state w') := by
  apply Prog.Ensures.bind
  apply Prog.Ensures.call (h.waits (fun r hr => by cases hr))
  intro w₁ epoch w₂ hd hp
  obtain ⟨⟨-, rfl⟩, -⟩ := hp
  have ht := h.drifts hd
  apply Prog.Ensures.bind
  apply Prog.Ensures.get
  apply Prog.Ensures.bind
  apply Prog.Ensures.ofExcept
  · intro sealed hsealed
    obtain ⟨itemId, bytes⟩ := sealed
    have hseals : SealsRoster E itemId bytes := ⟨_, _, _, _, _, _, hsealed⟩
    apply Prog.Ensures.bind
    apply (putItem_follows ht (.roster hseals)).mono
    · intro out s₂ w₂ hput
      obtain ⟨rfl, w₀, response, ht₀, -, hserved, hout⟩ := hput
      cases out with
      -- 200: what was published is confirmed and saved
      | applied seq version =>
        apply Prog.Ensures.bind
        apply Prog.Ensures.ofExcept
        · intro fp hfp
          rw [Fingerprint.of_eq] at hfp
          cases hfp
          apply Prog.Ensures.bind
          apply Prog.Ensures.modify
          exact save_return (ht₀.step (.published hseals hserved hout))
        · intro e he
          cases he
      -- 409: the row is noted as the server has it
      | conflict version envelope =>
        apply Prog.Ensures.bind
        have hend : ∀ fp, fp = envelope.map (fingerprint E) → Traced E P C start (s₂.state.insert itemId
            ⟨EnvelopeKind.deviceRoster.asU8, fp, version, none⟩) w₂ := by
          intro fp hfp
          rw [hfp]
          exact ht₀.step (.outdated hseals hserved hout)
        apply Prog.Ensures.ofExcept
        · intro fp hfp
          apply Prog.Ensures.bind
          apply Prog.Ensures.modify
          refine save_return (hend fp ?_)
          cases envelope with
          | none =>
            cases hfp
            rfl
          | some envelope =>
            cases hfp
            rfl
        · intro e he
          cases envelope <;> cases he
    · intro e s₂ w₂ hfail
      exact hfail
  · intro e _
    exact ht

theorem onVault_rotated {α : Type} (amb : Ambient) {op : Op} {x : Io (Vault S) α} {a : Result α} {w' : World S X}
    (hop : op = .rotateEpoch ∨ ∃ limit, op = .rewrapToCurrentEpoch limit) (hx : op.run E amb = dropping x)
    (h : Traced E P C start st w) (hcall : (a, w') = w.onVault x) : Traced E P C start st w' := by
  have hw : w' = w.edit E amb op := by
    have hw := congrArg Prod.snd hcall
    rw [World.onVault_snd] at hw
    have htook : op.took w.rows (view (stateAfter (op.run E amb) w.vault).store).image = ∅ := by
      rcases hop with rfl | ⟨limit, rfl⟩ <;> rfl
    unfold World.edit
    rw [htook, Set.union_empty, hx, stateAfter_dropping]
    exact hw
  rw [hw]
  exact h.step (.rotated amb op hop)

theorem revokeDevice_follows {cbor : Roster → Option Bytes} {draw : SealDraw} {roster : Roster}
    {revoked : DeviceId} {vaultKey : ByteArr 32} (h : Traced E P C start s.state w) :
    (revokeDevice E cbor draw roster revoked vaultKey).Follows E P C start s w
      (fun _ s' w' => Traced E P C start s'.state w') := by
  unfold revokeDevice
  obtain ⟨successor, removed⟩ := roster.remove revoked
  apply Prog.Ensures.bind
  apply Prog.Ensures.get
  apply Prog.Ensures.bind
  apply Prog.Ensures.ofExcept
  · intro successor _
    apply Prog.Ensures.bind
    apply (pushRoster_follows h).mono
    · intro pushed s₁ w₁ ht
      cases pushed with
      | superseded itemId envelope => exact Prog.Ensures.pure ht
      | applied =>
        apply Prog.Ensures.bind
        apply Prog.Ensures.call (ht.waits (fun r hr => by cases hr))
        intro w₂ a w₃ hd hp
        have ht₃ := onVault_rotated (.sample 0) (.inl rfl) rfl (ht.drifts hd) hp.1
        apply Prog.Ensures.bind
        apply Prog.Ensures.ofExcept
        · intro epoch _
          apply Prog.Ensures.bind
          apply Prog.Ensures.modify
          exact save_return (ht₃.step (.rotating _))
        · intro e _
          exact ht₃
    · intro e s₁ w₁ hfail
      exact hfail
  · intro e _
    exact h

theorem rotateStep_follows (limit : Nat) (h : Traced E P C start s.state w) :
    (rotateStep limit).Follows E P C start s w (fun _ s' w' => Traced E P C start s'.state w') := by
  apply Prog.Ensures.bind
  apply Prog.Ensures.call (h.waits (fun r hr => by cases hr))
  intro w₁ a w₂ hd hp
  obtain ⟨amb, hcall⟩ := hp.1
  have ht := onVault_rotated amb (.inr ⟨limit, rfl⟩) rfl (h.drifts hd) hcall
  apply Prog.Ensures.bind
  apply Prog.Ensures.ofExcept
  · intro progress _
    apply Prog.Ensures.bind
    apply Prog.Ensures.get
    dsimp only
    split
    · apply Prog.Ensures.bind
      apply Prog.Ensures.modify
      exact save_return (ht.step (.rotating _))
    · exact Prog.Ensures.pure ht
  · intro e _
    exact ht

theorem reset_follows (h : Traced E P C start s.state w) :
    reset.Follows E P C start s w (fun _ s' w' => Traced E P C start s'.state w') := by
  apply Prog.Ensures.bind
  apply Prog.Ensures.modify
  apply (save_follows (h.step .reset)).mono
  · intro _ s' w' hsaved
    obtain ⟨rfl, ht, -⟩ := hsaved
    exact ht
  · intro e s' w' hfail
    exact hfail

/-! ## Runs -/

theorem follows_dropping {α : Type} {x : Sync α}
    (h : x.Follows E P C start s w (fun _ s' w' => Traced E P C start s'.state w')) :
    (do
      let _ ← x
      return ⟨⟩ : Sync Unit).Follows E P C start s w (fun _ s' w' => Traced E P C start s'.state w') := by
  apply Prog.Ensures.bind
  apply h.mono
  · intro _ s' w' ht
    exact Prog.Ensures.pure ht
  · intro e s' w' hfail
    exact hfail

theorem EngineOp.run_follows {op : EngineOp} (hbegan : ∃ u, C u (.began op) u) (h : Traced E P C start s.state w) :
    (op.run E).Follows E P C start s w (fun _ s' w' => Traced E P C start s'.state w') := by
  cases op with
  | syncOnce roster => exact follows_dropping (syncOnce_follows hbegan h)
  | pushRoster cbor draw roster vaultKey => exact follows_dropping (pushRoster_follows h)
  | revokeDevice cbor draw roster revoked vaultKey => exact follows_dropping (revokeDevice_follows h)
  | rotateStep limit => exact follows_dropping (rotateStep_follows limit h)
  | reset => exact reset_follows h

theorem Run.Reached.ensures {r : Run S X} (h : Run.Reached E P C start r) :
    r.work.Ensures (World.Drifts P C) (Permitted E P C) (Waits E P C start)
      (fun _ s w => Traced E P C start s.state w) (fun _ s w => Traced E P C start s.state w) r.world := by
  -- a program that has ended leaves a traced state
  have hended : ∀ {work : Calls Query Answer SyncError SyncEngine Unit} {w : World S X}, work.Ended →
      work.Ensures (World.Drifts P C) (Permitted E P C) (Waits E P C start)
        (fun _ s w => Traced E P C start s.state w) (fun _ s w => Traced E P C start s.state w) w →
      Traced E P C start work.state.state w := by
    intro work w hwork h
    cases work with
    | ok _ _ => exact h
    | error _ _ => exact h
    | call _ _ _ => exact hwork.elim
  have hagain : ∀ {work : Calls Query Answer SyncError SyncEngine Unit} {w : World S X}, work.Ended →
      Traced E P C start work.state.state w →
      work.Ensures (World.Drifts P C) (Permitted E P C) (Waits E P C start)
        (fun _ s w => Traced E P C start s.state w) (fun _ s w => Traced E P C start s.state w) w := by
    intro work w hwork h
    cases work with
    | ok _ _ => exact h
    | error _ _ => exact h
    | call _ _ _ => exact hwork.elim
  induction h with
  | fresh hs hw hstart =>
    show Traced E P C start _ _
    rw [hs]
    exact .fresh hw hstart
  | step _ hstep ih =>
    cases hstep with
    | @moved work w w' hm =>
      refine Calls.Ensures.moved (fun h h' => h.trans h') ?_ ?_ ?_ (.single hm) ih
      · intro q s v w hd hwaits
        obtain ⟨st, ht, hask⟩ := hwaits
        exact ⟨st, ht.drifts hd, fun r hr => ⟨(hask r hr).1, (hask r hr).2.congr hd.vault⟩⟩
      · intro _ s v w hd ht
        exact ht.drifts hd
      · intro _ s v w hd ht
        exact ht.drifts hd
    | answered hp => exact ih.answered (fun w => .refl) hp
    | @dropped r s k w w' hlost hc =>
      obtain ⟨st, ht, hask⟩ := ih.1
      obtain ⟨rfl, hask⟩ := hask r rfl
      rcases hlost with rfl | ⟨a, x, hserve, rfl⟩
      · exact ht
      · exact ht.step (.lost hask hserve hc)
    | began hwork hc => exact EngineOp.run_follows ⟨_, hc⟩ (hended hwork ih)
    | edited hwork hc => exact hagain hwork ((hended hwork ih).step (.edited hc))
    | @restarted work w s v hs hv hc =>
      have hany : ∃ st, Traced E P C start st w := by
        cases work with
        | ok _ s => exact ⟨_, ih⟩
        | error _ s => exact ⟨_, ih⟩
        | call _ _ _ => exact ⟨ih.1.choose, ih.1.choose_spec.1⟩
      obtain ⟨st, ht⟩ := hany
      exact ht.step (.restarted hs hv hc)

/-- Between two methods the engine's state and its world are traced. -/
theorem Run.Reached.traced {r : Run S X} (h : Run.Reached E P C start r) (hwork : r.work.Ended) :
    Traced E P C start r.work.state.state r.world := by
  have hensures := h.ensures
  cases hr : r.work with
  | ok _ _ =>
    rw [hr] at hensures
    exact hensures
  | error _ _ =>
    rw [hr] at hensures
    exact hensures
  | call _ _ _ =>
    rw [hr] at hwork
    exact hwork.elim

/-- While a request is out the engine's state and its world are traced, and the engine asks it. -/
theorem Run.Reached.asks {r : Run S X} (h : Run.Reached E P C start r) {request : Request} {s : SyncEngine}
    {k : Except SyncError Response → Calls Query Answer SyncError SyncEngine Unit}
    (hr : r.work = .call (.send request) s k) :
    Traced E P C start s.state r.world ∧ Asks E s.state r.world request := by
  have hensures := h.ensures
  rw [hr] at hensures
  obtain ⟨st, ht, hask⟩ := hensures.1
  obtain ⟨rfl, hask⟩ := hask request rfl
  exact ⟨ht, hask⟩

end Trace

end Misty
