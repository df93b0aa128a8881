import Misty.Sync.Honest
import Misty.Sync.Queue
import Misty.Sync.Purged

/- What a row off the queue is known by. A fingerprint is recorded only where the
   server claimed the bytes: in an accepted change of a page, in the body of a
   conflict, or by taking them. So a row `pending` does not list is one the server
   claimed to hold, and an honest server held it. -/
namespace Misty

open LawfulStore (view)

variable {S X : Type} [LawfulStore S] (E : Externals) (P : Peer X)

/-! ## The list of a state -/

/-- `pending` returns these writes where the run is. -/
def Run.Lists (r : Run S X) (writes : List PendingWrite) : Prop :=
  ∃ s w, Calls.Leads (fun _ _ => False) (Answers E P) (pending E r.work.state) r.world (.ok writes s) w

variable {E P}

/-- What `pending` lists is told by the state and by the rows a reader sees. -/
theorem Run.Lists.rows {r : Run S X} {writes : List PendingWrite} (h : r.Lists E P writes) :
    writes = pendingList E r.work.state.state r.world.rows.records := by
  obtain ⟨s, w, h⟩ := h
  have hcall : pending E r.work.state = .call .loadAll r.work.state (fun answer =>
      match (answer : Result (List StoredEnvelope)) with
      | .ok rows => .ok (pendingList E r.work.state.state rows) r.work.state
      | .error e => .error (.vault "read the vault" e) r.work.state) := by
    show Calls.call _ _ _ = _
    refine congrArg _ (funext fun answer => ?_)
    cases answer with
    | error e => rfl
    | ok rows =>
      show (Prog.ofExcept (pendingOf E r.work.state.state rows) : Sync _) r.work.state = _
      rw [pendingOf_eq]
      rfl
  rw [hcall] at h
  cases h with
  | moved hno _ => exact hno.elim
  | @answered _ _ _ _ _ _ _ a hanswer hrest =>
    have hspec := LawfulStore.loadAll_spec r.world.vault.store
    unfold Meets at hspec
    have hanswer : (a, _) = r.world.onVault (Vault.onStore VaultStore.loadAll) := hanswer
    unfold World.onVault Vault.onStore at hanswer
    cases hload : (VaultStore.loadAll : Io S (List StoredEnvelope)) r.world.vault.store with
    | error e store =>
      rw [hload] at hanswer
      cases hanswer
      cases hrest with
      | moved hno _ => exact hno.elim
    | ok rows store =>
      rw [hload] at hanswer hspec
      cases hanswer
      cases hrest with
      | moved hno _ => exact hno.elim
      | refl =>
        rw [hspec.2.1]
        rfl

theorem Run.lists_of_loaded {r : Run S X} {rows : List StoredEnvelope} {store : S}
    (h : (VaultStore.loadAll : Io S (List StoredEnvelope)) r.world.vault.store = .ok rows store) :
    r.Lists E P (pendingList E r.work.state.state rows) := by
  have hanswer : r.world.onVault (Vault.onStore VaultStore.loadAll) =
      (.ok rows, { r.world with vault := { r.world.vault with store := store } }) := by
    unfold World.onVault Vault.onStore
    rw [h]
  refine ⟨r.work.state, { r.world with vault := { r.world.vault with store := store } }, ?_⟩
  refine .answered (q := Query.loadAll) (a := (.ok rows : Result (List StoredEnvelope))) hanswer.symm ?_
  show Calls.Leads _ _ ((Prog.ofExcept (pendingOf E r.work.state.state rows) : Sync _) r.work.state) _ _ _
  rw [pendingOf_eq]
  exact .refl _ _

/-! ## What the server claims -/

/-- The server said that it holds these bytes for the item: in an accepted change of a
page, in the body of a conflict, or by taking them. -/
inductive World.Claimed (E : Externals) (w : World S X) (id : ItemId) : Bytes → Prop
  | changed {since : Option I64} {limit : Nat} {response : Response} {feed : ChangeFeed} {change : FeedChange}
      {roster : Roster} {kind : EnvelopeKind} {envelope : Bytes} : (.changes since limit, response) ∈ w.told →
      readChanges response = .ok feed → change ∈ (haltPage feed).2.1 → change.itemId = id →
      change.envelope = some envelope → verifyChange E roster id envelope = .ok kind → Claimed E w id envelope
  | conflict {sent envelope : Bytes} {condition version : Option ServerVersion} {response : Response} :
      (.put id sent condition, response) ∈ w.told →
      readPut sent response = .ok (.conflict version (some envelope)) → Claimed E w id envelope
  | taken {envelope : Bytes} {condition : Option ServerVersion} {response : Response} {seq : I64}
      {version : ServerVersion} : (.put id envelope condition, response) ∈ w.told →
      readPut envelope response = .ok (.applied seq version) → Claimed E w id envelope

omit [LawfulStore S] in
theorem World.Claimed.held {config : ServerConfig} {w : World S Service} (hw : w.Truthful config) {id : ItemId}
    {envelope : Bytes} (h : w.Claimed E id envelope) : ∃ version, (id, version, some envelope) ∈ w.peer.held := by
  cases h with
  | @changed since limit response feed change _ _ _ htold hread hchange hid henv _ =>
    obtain ⟨now, server, rfl, hbefore, -⟩ := hw.told _ _ htold
    have hpage := page_of_readChanges hread
    have hmem := mem_of_mem_haltPage hchange
    rw [hpage.changes] at hmem
    obtain ⟨p, hp, rfl⟩ := List.mem_map.mp hmem
    have hrow := (Server.mem_changes hp).1
    have hid : p.1 = id := hid
    have henv : p.2.envelope = some envelope := henv
    rw [hid] at hrow
    exact ⟨p.2.version, hbefore ⟨p.2, hrow, by rw [henv]⟩⟩
  | conflict htold hread =>
    obtain ⟨now, server, rfl, hbefore, -⟩ := hw.told _ _ htold
    obtain ⟨precondition, -, hput⟩ := putTold_of_readPut hread
    generalize hout : PutOutcome.conflict _ (some envelope) = out at hput
    generalize (servePut config id _ _ now server).2 = server' at hput
    cases hput with
    | applied _ _ => cases hout
    | @conflict row _ hrow =>
      injection hout with _ henv
      exact ⟨row.version, hbefore ⟨row, hrow, by rw [henv]⟩⟩
  | taken htold hread =>
    obtain ⟨now, server, rfl, -, hafter⟩ := hw.told _ _ htold
    obtain ⟨precondition, -, hput⟩ := putTold_of_readPut hread
    have hserver : (servePut config id envelope _ now server).2.shows ⊆ w.peer.held := hafter
    generalize servePut config id envelope _ now server = served at hput hserver
    obtain ⟨response, server'⟩ := served
    cases hput with
    | applied _ _ => exact ⟨precondition + 1, hserver ⟨_, (Server.rows_store _ _ _ _ _ _ (Nat.succ_pos _)).trans (if_pos rfl), rfl⟩⟩

/-! ## Known fingerprints -/

variable {C : Permit S X} {start : X → Prop}

/-- Each fingerprint in the state is of bytes the server claimed. -/
def SyncState.Claims (E : Externals) (self : SyncState) (w : World S X) : Prop :=
  ∀ id row fp, self.known[id]? = some row → row.fingerprint = some fp →
    ∃ envelope, w.Claimed E id envelope ∧ fingerprint E envelope = fp

omit [LawfulStore S] in
theorem World.Claimed.mono {w w' : World S X} (hsub : w.told ⊆ w'.told) {id : ItemId} {envelope : Bytes}
    (h : w.Claimed E id envelope) : w'.Claimed E id envelope := by
  cases h with
  | changed htold hread hchange hid henv hverify => exact .changed (hsub htold) hread hchange hid henv hverify
  | conflict htold hread => exact .conflict (hsub htold) hread
  | taken htold hread => exact .taken (hsub htold) hread

omit [LawfulStore S] in
theorem SyncState.Claims.mono {st : SyncState} {w w' : World S X} (hsub : w.told ⊆ w'.told) (h : st.Claims E w) :
    st.Claims E w' := by
  intro id row fp hrow hfp
  obtain ⟨envelope, hclaimed, heq⟩ := h id row fp hrow hfp
  exact ⟨envelope, hclaimed.mono hsub, heq⟩

theorem WorldStep.told {st : SyncState} {w w' : World S X} (h : WorldStep E P C st w w') : w.told ⊆ w'.told := by
  cases h with
  | moved hm =>
    obtain ⟨x, -, rfl, -⟩ := hm
    exact subset_rfl
  | read _ | lost _ _ _ | edited _ | rotated _ _ _ | noted => exact subset_rfl
  | sent _ hserved =>
    obtain ⟨x, -, rfl, -⟩ := hserved
    cases ‹Except SyncError Response› with
    | ok response => exact Set.subset_insert _ _
    | error e => exact subset_rfl
  | merged hp =>
    obtain ⟨⟨amb, hanswer⟩, -⟩ := hp
    unfold World.merge at hanswer
    split at hanswer <;> cases hanswer <;> exact subset_rfl

theorem told_of_steps {st : SyncState} {w w' : World S X} (h : Relation.ReflTransGen (WorldStep E P C st) w w') :
    w.told ⊆ w'.told := by
  induction h with
  | refl => exact subset_rfl
  | tail _ hstep ih => exact ih.trans hstep.told

omit [LawfulStore S] in
theorem Served.told {w w' : World S X} {r : Request} {response : Response} (h : Served P C w r (.ok response) w') :
    (r, response) ∈ w'.told := by
  obtain ⟨x, -, rfl, -⟩ := h
  exact Set.mem_insert _ _

theorem Learned.claims {st : SyncState} {w w' : World S X} {id : ItemId} {row : KnownRow}
    (h : Learned E P C st w w' id row) (hsub : w.told ⊆ w'.told) (hst : st.Claims E w) {fp : Fingerprint}
    (hfp : row.fingerprint = some fp) : ∃ envelope, w'.Claimed E id envelope ∧ fingerprint E envelope = fp := by
  cases h with
  | kept hknown =>
    obtain ⟨envelope, hclaimed, heq⟩ := hst id row fp hknown hfp
    exact ⟨envelope, hclaimed.mono hsub, heq⟩
  | pulled _ hserved hread _ hdrifts hmerged hpage =>
    have htold := (told_of_steps ((hdrifts.steps st).trans hmerged.steps)) hserved.told
    cases hpage with
    | change hmem hid _ _ =>
      obtain ⟨envelope, henv, heq⟩ := Option.map_eq_some_iff.mp hfp
      obtain ⟨hchange, haccepted⟩ := accepted_of_mem hmem
      cases haccepted with
      | reclaimed hnone =>
        rw [hnone] at henv
        cases henv
      | verified hsome hverify =>
        rw [hsome] at henv
        cases henv
        rw [hid] at hverify
        exact ⟨envelope, .changed htold hread hchange hid hsome hverify, heq⟩
  | applied _ _ hserved hread =>
    cases hfp
    exact ⟨_, .taken hserved.told hread, rfl⟩
  -- a reclaimed row has no fingerprint
  | reclaimed _ _ _ _ => cases hfp
  | resolved _ _ _ hserved hread _ hdrifts hmerged =>
    cases hfp
    have htold := told_of_steps (hdrifts.steps st (E := E)) hserved.told
    rcases hmerged with ⟨-, rfl⟩ | ⟨-, a, hp⟩
    · exact ⟨_, .conflict htold hread, rfl⟩
    · exact ⟨_, .conflict ((WorldStep.merged hp : WorldStep E P C st _ _).told htold) hread, rfl⟩
  | published _ hserved hread =>
    cases hfp
    exact ⟨_, .taken hserved.told hread, rfl⟩
  | outdated _ hserved hread =>
    obtain ⟨envelope, rfl, heq⟩ := Option.map_eq_some_iff.mp hfp
    exact ⟨envelope, .conflict hserved.told hread, heq⟩

/-- What a state records, live or saved, was claimed. -/
theorem Traced.claims {st : SyncState} {w : World S X} (h : Traced E P C start st w) :
    st.Claims E w ∧ ∀ s ∈ w.saved, s.Claims E w := by
  have hnew : ∀ w : World S X, SyncState.new.Claims E w := by
    intro w id row fp hrow
    simp [SyncState.new] at hrow
  induction h with
  | fresh hw _ =>
    refine ⟨hnew _, ?_⟩
    intro s hs
    rw [hw.saved] at hs
    rw [Set.mem_singleton_iff.mp hs]
    exact hnew _
  | @step st st' w w' _ hmove ih =>
    -- a restart takes a saved state, and nothing was told
    have hreopens : Reopened E C st' w w' → st'.Claims E w' ∧ ∀ s ∈ w'.saved, s.Claims E w' := by
      intro h
      cases h with
      | @intro v hsaved _ _ =>
        have hsame : ∀ s ∈ w.saved, s.Claims E { w with vault := v } := fun s hs => .mono (w := w) subset_rfl (ih.2 s hs)
        exact ⟨hsame _ hsaved, hsame⟩
    rcases hmove.steps with hsteps | hreopened
    · have hsub := told_of_steps hsteps
      have hsaved : ∀ s ∈ w'.saved, s.Claims E w' := by
        clear hmove hreopens
        induction hsteps with
        | refl => exact ih.2
        | tail hsteps hstep ihs =>
          intro s hs
          rcases hstep.saved hs with hs | ⟨rfl, -, -⟩
          · exact (ihs (told_of_steps hsteps) s hs).mono hstep.told
          · exact ih.1.mono hsub
      rcases hmove.known with hknown | hreopened
      · exact ⟨fun id row fp hrow hfp => (hknown id row hrow).claims hsub ih.1 hfp, hsaved⟩
      · exact hreopens hreopened
    · exact hreopens hreopened

/-! ## Rows off the queue -/

/-- Nothing of the engine is half done: it has ended, or it waits for the server. -/
def Run.AtRest (r : Run S X) : Prop := r.work.Ended ∨ ∃ request, r.work.asking = some request

theorem Run.Reached.rests {r : Run S X} (h : Run.Reached E P C start r) (hrest : r.AtRest) :
    Traced E P C start r.work.state.state r.world := by
  rcases hrest with hended | ⟨request, hasking⟩
  · exact h.traced hended
  · obtain ⟨s, k, hwork⟩ := Calls.eq_of_asking hasking
    rw [hwork]
    exact (h.asks hwork).1

/-- The envelopes of a world: those of the rows, and those the server claimed. -/
def World.envelopes (E : Externals) (w : World S X) : Set Bytes :=
  {b | (∃ (id : ItemId) (row : StoredEnvelope), w.rows.rows[id]? = some row ∧ row.envelope = b) ∨ ∃ id, w.Claimed E id b}

/-- A row that `pending` does not list for `PUT`. -/
structure Run.Unlisted (E : Externals) (P : Peer X) (r : Run S X) (id : ItemId) (row : StoredEnvelope) : Prop where
  rest : r.AtRest
  row : r.world.rows.rows[id]? = some row
  lists : ∃ writes, r.Lists E P writes ∧ ⟨id, .put⟩ ∉ writes

theorem Run.Unlisted.confirmed {r : Run S X} {id : ItemId} {row : StoredEnvelope} (h : r.Unlisted E P id row) :
    r.work.state.state.confirmed id (fingerprint E row.envelope) = true := by
  obtain ⟨writes, hlists, hnot⟩ := h.lists
  rw [hlists.rows, put_mem_pendingList E _ h.row] at hnot
  exact Bool.not_eq_false _ ▸ hnot

/-- Whatever is edited, answered, lost or interrupted, a row the queue leaves out is one the server claimed
to hold for that id, and one an honest server held. -/
theorem unlisted_rows_were_claimed (E : Externals) :
    (∀ {S X : Type} [LawfulStore S] {P : Peer X} {start : X → Prop} {r : Run S X} {id : ItemId} {row : StoredEnvelope},
      Run.Reached E P .all start r → Set.InjOn (fingerprint E) (r.world.envelopes E) → r.Unlisted E P id row →
        r.world.Claimed E id row.envelope) ∧
    (∀ {S : Type} [LawfulStore S] {config : ServerConfig} {others : Request → Prop} {r : Run S Service} {id : ItemId}
      {row : StoredEnvelope}, Run.Reached E (honest config others) .all Service.Fresh r →
        Set.InjOn (fingerprint E) (r.world.envelopes E) → r.Unlisted E (honest config others) id row →
        ∃ version, (id, version, some row.envelope) ∈ r.world.peer.held) := by
  have hclaimed : ∀ {S X : Type} [LawfulStore S] {P : Peer X} {start : X → Prop} {r : Run S X} {id : ItemId}
      {row : StoredEnvelope}, Run.Reached E P .all start r → Set.InjOn (fingerprint E) (r.world.envelopes E) →
      r.Unlisted E P id row → r.world.Claimed E id row.envelope := by
    intro S X _ P start r id row h hinj hunlisted
    have hconfirmed := hunlisted.confirmed
    unfold SyncState.confirmed at hconfirmed
    split at hconfirmed
    · next known hknown =>
      have hfp : known.fingerprint = some (fingerprint E row.envelope) := of_decide_eq_true hconfirmed
      obtain ⟨envelope, hclaim, heq⟩ := (h.rests hunlisted.rest).claims.1 id known _ hknown hfp
      have hsame : envelope = row.envelope := hinj (Or.inr ⟨id, hclaim⟩) (Or.inl ⟨id, row, hunlisted.row, rfl⟩) heq
      rw [← hsame]
      exact hclaim
    · cases hconfirmed
  refine ⟨hclaimed, ?_⟩
  intro S _ config others r id row h hinj hunlisted
  exact (hclaimed h hinj hunlisted).held (h.rests hunlisted.rest).truthful

/-- A group is added and pushed to an empty server. -/
def Run.pushing : Run MemoryStore Service :=
  (Run.sample [1] .empty).play (.sample [] [.sample]) .honest 40 [
    .edit (.sample 5) (.atomic (.object (.addGroup ['g']))),
    .whole (.syncOnce (.sample [1]))]

theorem Run.reached_pushing :
    Run.Reached (.sample [] [.sample]) (honest .sample (fun _ => False)) .all Service.Fresh .pushing := by
  refine Run.Reached.play (fun request x => Driver.serves_honest request x) (fun _ _ _ => trivial) _ ?_
    (Run.reached_sample (open_sample [] [.sample]) Service.fresh_empty)
  intro f hf
  simp [Act.whole] at hf

/-- The envelope it pushed. -/
def Run.pushed : Bytes := ((Run.pushing.world.rows.records.head?).map StoredEnvelope.envelope).getD []

/-- What it heard: an empty page, and that the envelope was taken. -/
def Run.pushingHeard (p : Request × Response) : Bool :=
  match p.1 with
  | .changes _ _ => (readChanges p.2).toOption.all (fun feed => feed.changes = [])
  | .put _ sent _ => p.2.status = 200 && sent = pushed
  | .delete _ _ => true

set_option maxRecDepth 20000 in
theorem Run.envelopes_pushing {b : Bytes} (h : b ∈ Run.pushing.world.envelopes (.sample [] [.sample])) : b = pushed := by
  have hrows : Run.pushing.world.rows.records.all (fun row => row.envelope = pushed) = true := by decide +kernel
  have hall : ((Run.sample [1] .empty).heard (.sample [] [.sample]) .honest 40 [
      .edit (.sample 5) (.atomic (.object (.addGroup ['g']))),
      .whole (.syncOnce (.sample [1]))]).all pushingHeard = true := by decide +kernel
  have hheard : ∀ p ∈ Run.pushing.world.told, pushingHeard p = true := by
    intro p hp
    rcases (Run.told_play p _ _).mp hp with hp | hp
    · exact List.all_eq_true.mp hall p hp
    · exact hp.elim
  rcases h with ⟨id, row, hrow, rfl⟩ | ⟨id, hclaim⟩
  · have hid := Run.pushing.world.rows.keyed id row hrow
    exact of_decide_eq_true (List.all_eq_true.mp hrows row (Image.mem_records.mpr (by rw [hid]; exact hrow)))
  · cases hclaim with
    | changed htold hread hchange _ _ _ =>
      have hempty := hheard _ htold
      unfold pushingHeard at hempty
      rw [hread] at hempty
      have hchanges := of_decide_eq_true hempty
      have hmem := mem_of_mem_haltPage hchange
      rw [hchanges] at hmem
      cases hmem
    | conflict htold hread =>
      have hok := hheard _ htold
      unfold pushingHeard at hok
      dsimp only at hok
      rw [Bool.and_eq_true, decide_eq_true_iff] at hok
      unfold readPut at hread
      rw [hok.1] at hread
      obtain ⟨raw, -, h₁⟩ := bind_eq_ok.mp hread
      obtain ⟨seq, -, h₂⟩ := bind_eq_ok.mp h₁
      obtain ⟨_, -, h₃⟩ := bind_eq_ok.mp h₂
      obtain ⟨_, -, h₄⟩ := bind_eq_ok.mp h₃
      obtain ⟨_, -, h₅⟩ := bind_eq_ok.mp h₄
      cases h₅
    | taken htold _ =>
      have hok := hheard _ htold
      unfold pushingHeard at hok
      dsimp only at hok
      rw [Bool.and_eq_true, decide_eq_true_iff] at hok
      exact of_decide_eq_true hok.2

set_option maxRecDepth 20000 in
/-- The row of a pushed group is off the queue, and the server has it. -/
theorem unlisted_rows_were_claimed_group : ∃ row : StoredEnvelope,
    Run.pushing.world.rows.rows[Group.sample.id.asItemId]? = some row ∧
      Run.pushing.world.Claimed (.sample [] [.sample]) Group.sample.id.asItemId row.envelope ∧
      ∃ version, (Group.sample.id.asItemId, version, some row.envelope) ∈ Run.pushing.world.peer.held := by
  have hsome : (Run.pushing.world.rows.rows[Group.sample.id.asItemId]?).isSome = true := by decide +kernel
  obtain ⟨row, hrow⟩ := Option.isSome_iff_exists.mp hsome
  have hunlisted : Run.pushing.Unlisted (.sample [] [.sample]) (honest .sample (fun _ => False))
      Group.sample.id.asItemId row := by
    refine ⟨.inl (.of_ended (by decide +kernel)), hrow, _, Run.lists_of_loaded rfl, ?_⟩
    decide +kernel
  have hinj : Set.InjOn (fingerprint (.sample [] [.sample])) (Run.pushing.world.envelopes (.sample [] [.sample])) :=
    fun a ha b hb _ => (Run.envelopes_pushing ha).trans (Run.envelopes_pushing hb).symm
  exact ⟨row, hrow, (unlisted_rows_were_claimed _).1 Run.reached_pushing hinj hunlisted,
    (unlisted_rows_were_claimed _).2 Run.reached_pushing hinj hunlisted⟩

end Misty
