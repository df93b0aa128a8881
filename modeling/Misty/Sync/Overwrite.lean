import Misty.Sync.Claimed

/- No blind overwrite. The version a `PUT` is conditional on comes from a known row,
   and a known row is recorded with a page after its merge, with a conflict before it,
   or with a write of this device. So where merges of conflicts succeed (and versions
   name rows: none starts again after a sweep, none is of another kind), the row at
   that version was merged, or was this device's own (`Traced.explained`). -/
namespace Misty

open LawfulStore (view)

variable {S : Type} [LawfulStore S] {E : Externals} {config : ServerConfig} {others : Request → Prop}
  {C : Permit S Service}

/-! ## What versions name -/

/-- Each version of a row names what it held, and none is higher than the row's. -/
structure Service.Linear (x : Service) : Prop where
  sound : x.Sound
  functional : ∀ {id : ItemId} {n : Nat} {o o' : Option Bytes}, (id, n, o) ∈ x.held → (id, n, o') ∈ x.held → o = o'
  top : ∀ {id : ItemId} {n : Nat} {o : Option Bytes} {row : ServerRow}, x.server.rows[id]? = some row →
    (id, n, o) ∈ x.held → n ≤ row.version

/-- No row is created where one was swept. -/
def Service.Continues (x x' : Service) : Prop :=
  ∀ id : ItemId, x.server.rows[id]? = none → (∃ n o, (id, n, o) ∈ x.held) → x'.server.rows[id]? = none

theorem Service.Fresh.linear {x : Service} (h : x.Fresh) : x.Linear := by
  have hshows : ∀ {p}, p ∈ x.held → p ∈ x.server.shows := by
    intro p hp
    rw [h] at hp
    exact hp
  refine ⟨h.sound, ?_, ?_⟩
  · intro id n o o' hheld hheld'
    obtain ⟨row, hrow, heq⟩ := hshows hheld
    obtain ⟨row', hrow', heq'⟩ := hshows hheld'
    have hsame : row = row' := Option.some.inj (hrow.symm.trans hrow')
    rw [hsame] at heq
    exact (congrArg Prod.snd heq).trans (congrArg Prod.snd heq').symm
  · intro id n o row hrow hheld
    obtain ⟨row', hrow', heq⟩ := hshows hheld
    have hsame : row' = row := Option.some.inj (hrow'.symm.trans hrow)
    rw [hsame] at heq
    exact le_of_eq (congrArg Prod.fst heq)

/-- A server that wrote a row under the next version, or kept what it had or less. -/
inductive Server.Next (self : Server) : Server → Prop
  | kept {server : Server} : (∀ (id : ItemId) (row : ServerRow), server.rows[id]? = some row → self.rows[id]? = some row) →
      Next self server
  | wrote {itemId : ItemId} {envelope : Option Bytes} {now : Int} :
      Next self (self.store itemId (self.versionAt itemId + 1) envelope now (Nat.succ_pos _))

theorem Server.Put.next {self server : Server} {itemId : ItemId} {precondition : Nat} {envelope : Bytes} {now : Int}
    {outcome : WriteOutcome} (h : self.Put itemId precondition envelope now outcome server) : self.Next server := by
  cases h with
  | written hp _ _ =>
    subst hp
    exact .wrote
  | conflict _ | full _ _ => exact .kept fun _ _ hrow => hrow

theorem Server.Delete.next {self server : Server} {itemId : ItemId} {precondition : Nat} {now : Int}
    {outcome : WriteOutcome} (h : self.Delete itemId precondition now outcome server) : self.Next server := by
  cases h with
  | missing _ | conflict _ _ | again _ _ _ => exact .kept fun _ _ hrow => hrow
  | @reclaimed row hrow hp _ =>
    have hat : self.versionAt itemId = precondition := by simp [Server.versionAt, hrow, hp]
    subst hat
    exact .wrote

theorem respond_next (now : Int) (server : Server) (request : Request) :
    server.Next (respond config now server request).2 := by
  have hsame : server.Next server := .kept fun _ _ hrow => hrow
  cases request with
  | changes since limit => exact hsame
  | put itemId envelope version =>
    show server.Next (servePut config itemId envelope version now server).2
    unfold servePut
    cases putCondition version with
    | error error => exact hsame
    | ok precondition =>
      dsimp only
      cases decodeBlob config.maxEnvelopeBytes envelope with
      | error error => exact hsame
      | ok envelope =>
        dsimp only
        cases hput : server.putItem config.limits itemId precondition envelope now with
        | error e => exact hsame
        | ok r => exact (Server.put_of_putItem hput).next
  | delete itemId version =>
    show server.Next (serveDelete itemId version now server).2
    unfold serveDelete
    cases deleteCondition version with
    | error error => exact hsame
    | ok precondition =>
      dsimp only
      split
      · exact hsame
      · cases hdelete : server.deleteItem itemId precondition now with
        | error e => exact hsame
        | ok r => exact (Server.delete_of_deleteItem hdelete).next

theorem Server.next_sweep (server : Server) (horizon : Int) : server.Next (server.sweep horizon) := by
  refine .kept fun id row hrow => ?_
  rw [rows_sweep] at hrow
  exact (Option.filter_eq_some_iff.mp hrow).1

/-- A step that starts no row again keeps the versions apart. -/
theorem Service.Linear.become {x : Service} {server : Server} (hx : x.Linear) (hnext : x.server.Next server)
    (hcontinues : x.Continues (x.become server)) : (x.become server).Linear := by
  cases hnext with
  | kept hsub =>
    have hheld : ∀ {p}, p ∈ (x.become server).held → p ∈ x.held := by
      intro p hp
      rcases hp with hp | ⟨row, hrow, heq⟩
      · exact hp
      · exact hx.sound ⟨row, hsub _ _ hrow, heq⟩
    exact ⟨x.sound_become _, fun h h' => hx.functional (hheld h) (hheld h'),
      fun hrow h => hx.top (hsub _ _ hrow) (hheld h)⟩
  | @wrote itemId envelope now =>
    -- what was held of the row is of a lower version, and nothing was held of a new one
    have hbelow : ∀ {n o}, (itemId, n, o) ∈ x.held → n ≤ x.server.versionAt itemId := by
      intro n o hheld
      cases hrow : x.server.rows[itemId]? with
      | some row =>
        have hat : x.server.versionAt itemId = row.version := by simp [Server.versionAt, hrow]
        rw [hat]
        exact hx.top hrow hheld
      | none =>
        have hnone := hcontinues itemId hrow ⟨n, o, hheld⟩
        have hsome := Server.rows_store x.server itemId itemId _ envelope now (Nat.succ_pos (x.server.versionAt itemId))
        rw [if_pos rfl] at hsome
        exact absurd (hsome.symm.trans hnone) (by simp)
    have hheld : ∀ {id n o}, (id, n, o) ∈ (x.become (x.server.store itemId (x.server.versionAt itemId + 1) envelope now
        (Nat.succ_pos _))).held →
        (id, n, o) ∈ x.held ∨ id = itemId ∧ n = x.server.versionAt itemId + 1 ∧ o = envelope := by
      intro id n o hp
      rcases hp with hp | ⟨row, hrow, heq⟩
      · exact .inl hp
      · rw [Server.rows_store] at hrow
        split at hrow
        · next hid =>
          cases hrow
          cases heq
          exact .inr ⟨hid.symm, rfl, rfl⟩
        · exact .inl (hx.sound ⟨row, hrow, heq⟩)
    refine ⟨x.sound_become _, ?_, ?_⟩
    · intro id n o o' h h'
      rcases hheld h with hold | ⟨rfl, rfl, rfl⟩
      · rcases hheld h' with hold' | ⟨rfl, rfl, rfl⟩
        · exact hx.functional hold hold'
        · exact absurd (hbelow hold) (Nat.not_succ_le_self _)
      · rcases hheld h' with hold' | ⟨-, -, rfl⟩
        · exact absurd (hbelow hold') (Nat.not_succ_le_self _)
        · rfl
    · intro id n o row hrow h
      have hrow : (x.server.store itemId (x.server.versionAt itemId + 1) envelope now (Nat.succ_pos _)).rows[id]? =
        some row := hrow
      rw [Server.rows_store] at hrow
      split at hrow
      · next hid =>
        cases hrow
        subst hid
        rcases hheld h with hold | ⟨-, rfl, -⟩
        · exact Nat.le_succ_of_le (hbelow hold)
        · exact le_refl _
      · next hid =>
        rcases hheld h with hold | ⟨rfl, -, -⟩
        · exact hx.top hrow hold
        · exact absurd rfl hid

/-! ## What a known version stands for -/

/-- The row the server had under a version was merged, or pushed from here, or had no bytes; or it was of a kind the
vault does not merge, or under the id of a roster pushed from here. -/
inductive World.Explains (w : World S Service) (id : ItemId) : Option Bytes → Prop
  | reclaimed : Explains w id none
  | merged {b : Bytes} : (id, b) ∈ w.merged → Explains w id (some b)
  | pushed {b : Bytes} {version : Option ServerVersion} : .put id b version ∈ w.asked → Explains w id (some b)
  | foreign {b : Bytes} {env : Envelope} : Envelope.parse b = .ok env → isMerged env.header.kind = false →
      Explains w id (some b)
  | roster {b b' : Bytes} {version : Option ServerVersion} {env : Envelope} : .put id b version ∈ w.asked →
      Envelope.parse b = .ok env → isMerged env.header.kind = false → Explains w id (some b')

/-- Each known version is one the server had, and what it was is explained. -/
def SyncState.Explained (self : SyncState) (w : World S Service) : Prop :=
  ∀ id row version, self.known[id]? = some row → row.version = some version →
    ∃ n o, version = .of n ∧ (id, n, o) ∈ w.peer.held ∧ w.Explains id o

/-- What is remembered of the past grows. -/
structure World.Grows (w w' : World S Service) : Prop where
  merged : w.merged ⊆ w'.merged
  asked : w.asked ⊆ w'.asked
  held : w.peer.held ⊆ w'.peer.held

omit [LawfulStore S] in
theorem World.Grows.trans {u v w : World S Service} (h : u.Grows v) (h' : v.Grows w) : u.Grows w :=
  ⟨h.merged.trans h'.merged, h.asked.trans h'.asked, h.held.trans h'.held⟩

omit [LawfulStore S] in
theorem World.Explains.mono {w w' : World S Service} (h : w.Grows w') {id : ItemId} {o : Option Bytes}
    (he : w.Explains id o) : w'.Explains id o := by
  cases he with
  | reclaimed => exact .reclaimed
  | merged hmem => exact .merged (h.merged hmem)
  | pushed hmem => exact .pushed (h.asked hmem)
  | foreign hparse hkind => exact .foreign hparse hkind
  | roster hmem hparse hkind => exact .roster (h.asked hmem) hparse hkind

omit [LawfulStore S] in
theorem SyncState.Explained.mono {w w' : World S Service} (h : w.Grows w') {st : SyncState} (hst : st.Explained w) :
    st.Explained w' := by
  intro id row version hrow hversion
  obtain ⟨n, o, heq, hheld, he⟩ := hst id row version hrow hversion
  exact ⟨n, o, heq, h.held hheld, he.mono h⟩

theorem WorldStep.grows {st : SyncState} {w w' : World S Service} (h : WorldStep E (honest config others) C st w w') :
    w.Grows w' := by
  have hserves : ∀ {r a x x'}, Service.Serves config r x a x' → x.held ⊆ x'.held := by
    intro r a x x' h
    cases h with
    | answered now => exact x.held_become _
    | lost now error => exact x.held_become _
    | refused error => exact subset_rfl
  cases h with
  | moved hm =>
    obtain ⟨x, hmoves, rfl, -⟩ := hm
    exact ⟨subset_rfl, subset_rfl, (Service.Moves.keeps hmoves).2⟩
  | read _ | edited _ | rotated _ _ _ | noted => exact ⟨subset_rfl, subset_rfl, subset_rfl⟩
  | sent _ hserved =>
    obtain ⟨x, hserve, rfl, -⟩ := hserved
    cases ‹Except SyncError Response› with
    | ok response => exact ⟨subset_rfl, Set.subset_insert _ _, hserves hserve⟩
    | error e => exact ⟨subset_rfl, Set.subset_insert _ _, hserves hserve⟩
  | lost _ hserve _ => exact ⟨subset_rfl, Set.subset_insert _ _, hserves hserve⟩
  | merged hp =>
    obtain ⟨⟨amb, hanswer⟩, -⟩ := hp
    unfold World.merge at hanswer
    split at hanswer <;> cases hanswer
    · exact ⟨Set.subset_union_left, subset_rfl, subset_rfl⟩
    · exact ⟨subset_rfl, subset_rfl, subset_rfl⟩

theorem grows_of_steps {st : SyncState} {w w' : World S Service}
    (h : Relation.ReflTransGen (WorldStep E (honest config others) C st) w w') : w.Grows w' := by
  induction h with
  | refl => exact ⟨subset_rfl, subset_rfl, subset_rfl⟩
  | tail _ hstep ih => exact ih.trans hstep.grows

/-! ## Answers to a `PUT` -/

omit [LawfulStore S] in
/-- A `PUT` that was taken: its bytes are held at the version told. -/
theorem Served.put_applied {w w' : World S Service} {id : ItemId} {b : Bytes} {condition : Option ServerVersion}
    {response : Response} {seq : I64} {version : ServerVersion}
    (h : Served (honest config others) C w (.put id b condition) (.ok response) w')
    (hread : readPut b response = .ok (.applied seq version)) :
    (∃ n, version = .of n ∧ (id, n, some b) ∈ w'.peer.held) ∧ .put id b condition ∈ w'.asked := by
  obtain ⟨x, hserve, rfl, -⟩ := h
  refine ⟨?_, Set.mem_insert _ _⟩
  cases hserve with
  | answered now =>
    obtain ⟨precondition, -, hput⟩ := putTold_of_readPut hread
    obtain ⟨server, hserver, hput⟩ : ∃ server, server.shows ⊆
        (w.peer.become (servePut config id b condition now w.peer.server).2).held ∧
        PutTold w.peer.server id b now precondition (.applied seq version) server :=
      ⟨_, Set.subset_union_right, hput⟩
    cases hput with
    | applied _ _ =>
      have hrow := Server.rows_store w.peer.server id id (precondition + 1) (some b) now (Nat.succ_pos _)
      rw [if_pos rfl] at hrow
      exact ⟨precondition + 1, rfl, hserver ⟨_, hrow, rfl⟩⟩

omit [LawfulStore S] in
/-- A `PUT` that was refused: the server held what it says, at the version it says. -/
theorem Served.put_conflict {w w' : World S Service} {id : ItemId} {b : Bytes} {condition version : Option ServerVersion}
    {current : Option Bytes} {response : Response} (hsound : w.peer.Sound)
    (h : Served (honest config others) C w (.put id b condition) (.ok response) w')
    (hread : readPut b response = .ok (.conflict version current)) :
    (∃ n, version = some (.of n) ∧ (id, n, current) ∈ w'.peer.held) ∧ .put id b condition ∈ w'.asked := by
  obtain ⟨x, hserve, rfl, -⟩ := h
  refine ⟨?_, Set.mem_insert _ _⟩
  cases hserve with
  | answered now =>
    obtain ⟨precondition, -, hput⟩ := putTold_of_readPut hread
    generalize (servePut config id b condition now w.peer.server).2 = server at hput
    cases hput with
    | @conflict row _ hrow =>
      refine ⟨row.version, rfl, ?_⟩
      have hheld : (id, row.version, row.envelope) ∈ w.peer.held := hsound ⟨row, hrow, rfl⟩
      exact w.peer.held_become _ hheld

/-! ## Runs -/

/-- The vault's items and groups are under ids of their own: the server holds nothing of another kind there, and no
roster was pushed there. -/
def World.Apart (w : World S Service) : Prop :=
  ∀ (id : ItemId) (row : StoredEnvelope) (env : Envelope), w.rows.rows[id]? = some row →
    Envelope.parse row.envelope = .ok env → isMerged env.header.kind = true →
    (∀ n b env', (id, n, some b) ∈ w.peer.held → Envelope.parse b = .ok env' → isMerged env'.header.kind = true) ∧
    ∀ b version env', .put id b version ∈ w.asked → Envelope.parse b = .ok env' → isMerged env'.header.kind = true

/-- The merge of a conflict succeeds, if this is one. A page's changes have their sequence numbers, a conflict's has none. -/
def Event.ConflictMerges (event : Event) : Prop :=
  ∀ changes (a : Result MergeReport), event = .called (.mergeRemote changes) a →
    (∃ c ∈ changes, c.seq = none) → ∃ report, a = .ok report

/-- A step after which a version still says what was merged: the merge of a conflict succeeds, no row is created
again where one was swept, and ids of items and groups are used for nothing else. -/
def Permit.explicable : Permit S Service := fun w event w' =>
  event.ConflictMerges ∧ w.peer.Continues w'.peer ∧ w'.Apart

theorem merged_of_merges {P : Peer Service} {changes : List RemoteChange} {w w' : World S Service}
    (h : Merges E P C changes w w') {c : RemoteChange} (hc : c ∈ changes) : (c.itemId, c.envelope) ∈ w'.merged := by
  rcases h with ⟨rfl, -⟩ | ⟨-, report, ⟨amb, hanswer⟩, -⟩
  · cases hc
  · have hanswer : (.ok report, w') = w.merge E amb changes := hanswer
    unfold World.merge at hanswer
    split at hanswer
    · cases hanswer
      exact .inr ⟨c, hc, rfl⟩
    · cases hanswer

theorem SealsRoster.parses (hE : E.prims.Correct) {id : ItemId} {envelope : Bytes} (h : SealsRoster E id envelope) :
    ∃ env, Envelope.parse envelope = .ok env ∧ isMerged env.header.kind = false := by
  obtain ⟨cbor, draw, roster, vaultKey, epoch, identity, h⟩ := h
  unfold sealRoster at h
  obtain ⟨signer, -, h₁⟩ := bind_eq_ok.mp h
  dsimp only at h₁
  split at h₁
  · cases h₁
  · obtain ⟨itemId, -, h₂⟩ := bind_eq_ok.mp h₁
    obtain ⟨payload, -, h₃⟩ := bind_eq_ok.mp h₂
    obtain ⟨key, -, h₄⟩ := bind_eq_ok.mp h₃
    obtain ⟨bytes, hbytes, h₅⟩ := bind_eq_ok.mp h₄
    cases h₅
    obtain ⟨env, hsealed⟩ := seal_sealed hE (mapError_eq_ok.mp hbytes)
    refine ⟨env, hsealed.parses, ?_⟩
    rw [hsealed.kind_eq]
    rfl

theorem Learned.explained {st : SyncState} {w w' : World S Service} {id : ItemId} {row : KnownRow}
    (hE : E.prims.Correct) (h : Learned E (honest config others) .explicable st w w' id row) (hgrows : w.Grows w')
    (hsound : w.peer.Sound) (hst : st.Explained w) {version : ServerVersion} (hversion : row.version = some version) :
    ∃ n o, version = .of n ∧ (id, n, o) ∈ w'.peer.held ∧ w'.Explains id o := by
  cases h with
  | kept hknown => exact hst.mono hgrows id row version hknown hversion
  | pulled _ hserved hread _ hdrifts hmerged hpage =>
    have hafter := grows_of_steps ((hdrifts.steps st (E := E)).trans hmerged.steps)
    cases hpage with
    | @change change kind byte hmem hid _ _ =>
      have hversion : change.version = some version := hversion
      obtain ⟨hchange, haccepted⟩ := accepted_of_mem hmem
      -- the change is a row of the server that answered
      have hrow : ∃ n, change.version = some (.of n) ∧ (id, n, change.envelope) ∈ w'.peer.held := by
        obtain ⟨x, hserve, rfl, -⟩ := hserved
        cases hserve with
        | answered now =>
          have hfeed := mem_of_mem_haltPage hchange
          rw [(page_of_readChanges hread).changes] at hfeed
          obtain ⟨p, hp, rfl⟩ := List.mem_map.mp hfeed
          have hid : p.1 = id := hid
          have hheld : (p.1, p.2.version, p.2.envelope) ∈ w.peer.held := hsound ⟨p.2, (Server.mem_changes hp).1, rfl⟩
          rw [hid] at hheld
          exact ⟨p.2.version, rfl, hgrows.held hheld⟩
      obtain ⟨n, heq, hheld⟩ := hrow
      rw [heq] at hversion
      cases hversion
      refine ⟨n, change.envelope, rfl, hheld, ?_⟩
      cases haccepted with
      | reclaimed hnone =>
        rw [hnone]
        exact .reclaimed
      | @verified envelope kind henv hverify =>
        rw [henv]
        cases hkind : isMerged kind with
        | true =>
          have hmerge := merged_of_merges hmerged (mem_batch hchange henv hverify hkind)
          rw [← hid]
          exact .merged hmerge
        | false =>
          obtain ⟨env, hparse, hsame⟩ := parse_of_verifyChange hverify
          exact .foreign hparse (by rw [hsame]; exact hkind)
  | applied _ _ hserved hread =>
    cases hversion
    obtain ⟨⟨n, rfl, hheld⟩, hasked⟩ := hserved.put_applied hread
    exact ⟨n, _, rfl, hheld, .pushed hasked⟩
  | reclaimed _ _ hserved hread =>
    cases hversion
    obtain ⟨⟨n, heq, hheld⟩, -⟩ := hserved.put_conflict hsound hread
    cases heq
    exact ⟨n, _, rfl, hheld, .reclaimed⟩
  | resolved _ _ _ hserved hread hverify hdrifts hmerged =>
    have hversion : _ = some version := hversion
    obtain ⟨⟨n, heq, hheld⟩, -⟩ := hserved.put_conflict hsound hread
    rw [heq] at hversion
    cases hversion
    have hafter := grows_of_steps (hdrifts.steps st (E := E))
    obtain ⟨env, hparse, rfl⟩ := parse_of_verifyConflict hverify
    rcases hmerged with ⟨hkind, rfl⟩ | ⟨-, a, hp⟩
    · exact ⟨n, _, rfl, hafter.held hheld, .foreign hparse hkind⟩
    · obtain ⟨report, rfl⟩ := hp.2.1 _ _ rfl ⟨_, List.mem_singleton_self _, rfl⟩
      have hmerges : Merges E (honest config others) .explicable [⟨id, none, none, _⟩] _ w' := .inr ⟨by simp, report, hp⟩
      have hlast := (WorldStep.merged hp : WorldStep E (honest config others) .explicable st _ _).grows
      exact ⟨n, _, rfl, hlast.held (hafter.held hheld), .merged (merged_of_merges hmerges (List.mem_singleton_self _))⟩
  | published _ hserved hread =>
    cases hversion
    obtain ⟨⟨n, rfl, hheld⟩, hasked⟩ := hserved.put_applied hread
    exact ⟨n, _, rfl, hheld, .pushed hasked⟩
  | outdated hseals hserved hread =>
    have hversion : _ = some version := hversion
    obtain ⟨⟨n, heq, hheld⟩, hasked⟩ := hserved.put_conflict hsound hread
    rw [heq] at hversion
    cases hversion
    obtain ⟨env, hparse, hkind⟩ := hseals.parses hE
    refine ⟨n, _, rfl, hheld, ?_⟩
    cases ‹Option Bytes› with
    | none => exact .reclaimed
    | some b => exact .roster hasked hparse hkind

theorem WorldStep.linear {st : SyncState} {w w' : World S Service}
    (h : WorldStep E (honest config others) .explicable st w w') (hw : w.peer.Linear) : w'.peer.Linear := by
  -- a request served or a sweep, permitted
  have hserves : ∀ {r a x}, Service.Serves config r w.peer a x → w.peer.Continues x → x.Linear := by
    intro r a x hserve hcontinues
    cases hserve with
    | answered now => exact hw.become (respond_next now _ r) hcontinues
    | lost now error => exact hw.become (respond_next now _ r) hcontinues
    | refused error => exact hw
  cases h with
  | moved hm =>
    obtain ⟨x, hmoves, rfl, -, hcontinues, -⟩ := hm
    cases hmoves with
    | @served now request _ => exact hw.become (respond_next now _ request) hcontinues
    | swept horizon => exact hw.become (w.peer.server.next_sweep horizon) hcontinues
  | read _ | edited _ | rotated _ _ _ | noted => exact hw
  | sent _ hserved =>
    obtain ⟨x, hserve, rfl, -, hcontinues, -⟩ := hserved
    rw [World.peer_hear] at hcontinues ⊢
    exact hserves hserve hcontinues
  | lost _ hserve hc => exact hserves hserve hc.2.1
  | merged hp =>
    obtain ⟨⟨amb, hanswer⟩, -⟩ := hp
    unfold World.merge at hanswer
    split at hanswer <;> cases hanswer <;> exact hw

/-- In a run of explicable steps versions name what was held, and what is known of them, live or saved, is explained. -/
theorem Traced.explained (hE : E.prims.Correct) {st : SyncState} {w : World S Service}
    (h : Traced E (honest config others) .explicable Service.Fresh st w) :
    w.peer.Linear ∧ st.Explained w ∧ ∀ s ∈ w.saved, s.Explained w := by
  have hnew : ∀ w : World S Service, SyncState.new.Explained w := by
    intro w id row version hrow
    simp [SyncState.new] at hrow
  induction h with
  | fresh hw hstart =>
    refine ⟨Service.Fresh.linear hstart, hnew _, ?_⟩
    intro s hs
    rw [hw.saved] at hs
    rw [Set.mem_singleton_iff.mp hs]
    exact hnew _
  | @step st st' w w' _ hmove ih =>
    -- a restart takes a saved state, and the server is as it was
    have hreopens : Reopened E .explicable st' w w' →
        w'.peer.Linear ∧ st'.Explained w' ∧ ∀ s ∈ w'.saved, s.Explained w' := by
      intro h
      cases h with
      | @intro v hsaved _ _ =>
        have hgrows : w.Grows { w with vault := v } := ⟨subset_rfl, subset_rfl, subset_rfl⟩
        have hsame : ∀ s ∈ w.saved, s.Explained { w with vault := v } := fun s hs => (ih.2.2 s hs).mono hgrows
        exact ⟨ih.1, hsame _ hsaved, hsame⟩
    rcases hmove.steps with hsteps | hreopened
    · have hgrows := grows_of_steps hsteps
      have hrest : w'.peer.Linear ∧ ∀ s ∈ w'.saved, s.Explained w' := by
        clear hmove hreopens
        induction hsteps with
        | refl => exact ⟨ih.1, ih.2.2⟩
        | tail hsteps hstep ihs =>
          obtain ⟨hlinear, hsaved⟩ := ihs (grows_of_steps hsteps)
          refine ⟨hstep.linear hlinear, ?_⟩
          intro s hs
          rcases hstep.saved hs with hs | ⟨rfl, -, -⟩
          · exact (hsaved s hs).mono hstep.grows
          · exact ih.2.1.mono hgrows
      rcases hmove.known with hknown | hreopened
      · refine ⟨hrest.1, ?_, hrest.2⟩
        intro id row version hrow hversion
        exact (hknown id row hrow).explained hE hgrows ih.1.sound ih.2.1 hversion
      · exact hreopens hreopened
    · exact hreopens hreopened

theorem ServerVersion.of_injective {a b : Nat} (h : ServerVersion.of a = .of b) : a = b :=
  versionToken_injective (congrArg ServerVersion.token h)

/-- Where a request is out the world was left by an explicable step. -/
theorem Run.Reached.apart {P : Peer Service} {start : Service → Prop} {r : Run S Service}
    (h : Run.Reached E P .explicable start r) {request : Request} (hasking : r.work.asking = some request) :
    r.world.Apart := by
  cases h with
  | fresh _ _ _ => cases hasking
  | step _ hstep =>
    cases hstep with
    | moved hm =>
      obtain ⟨x, -, rfl, hc⟩ := hm
      exact hc.2.2
    | answered hp => exact hp.2.2.2
    | dropped _ hc | began _ hc | edited _ hc | restarted _ _ hc => exact hc.2.2

/-- In every run of explicable steps against an honest server, what the server held at the version a `PUT` of an item
or a group is conditional on was merged before, or was pushed from here; else it had no bytes. -/
theorem put_overwrites_nothing_unmerged (hE : E.prims.Correct) {r : Run S Service}
    (h : Run.Reached E (honest config others) .explicable Service.Fresh r) {id : ItemId} {envelope : Bytes}
    {env : Envelope} {n : Nat} {s : SyncEngine}
    {k : Except SyncError Response → Calls Query Answer SyncError SyncEngine Unit}
    (hr : r.work = .call (.send (.put id envelope (some (.of n)))) s k) (hparse : Envelope.parse envelope = .ok env)
    (hkind : isMerged env.header.kind = true) {b : Bytes} (hheld : (id, n, some b) ∈ r.world.peer.held) :
    (id, b) ∈ r.world.merged ∨ ∃ version, .put id b version ∈ r.world.asked := by
  have hapart : r.world.Apart := h.apart (by rw [hr]; rfl)
  obtain ⟨htraced, hask⟩ := h.asks hr
  obtain ⟨hlinear, hexplained, -⟩ := htraced.explained hE
  obtain ⟨request, hrequest, hask⟩ : ∃ request, request = .put id envelope (some (.of n)) ∧ Asks E s.state r.world request :=
    ⟨_, rfl, hask⟩
  cases hask with
  | changes | delete _ _ _ => cases hrequest
  | roster hseals =>
    injection hrequest with _ henvelope _
    obtain ⟨env', hparse', hkind'⟩ := hseals.parses hE
    rw [henvelope, hparse] at hparse'
    cases hparse'
    rw [hkind] at hkind'
    cases hkind'
  | @put itemId row hrow _ =>
    injection hrequest with hid henvelope hversion
    subst hid
    obtain ⟨known, hknown, hknownVersion⟩ := Option.bind_eq_some_iff.mp hversion
    obtain ⟨n', o, hsame, hheld', he⟩ := hexplained itemId known _ hknown hknownVersion
    rw [← ServerVersion.of_injective hsame] at hheld'
    -- one version of a row has one content
    have ho : o = some b := hlinear.functional hheld' hheld
    subst ho
    obtain ⟨hserver, hasked⟩ := hapart itemId row env hrow (by rw [henvelope]; exact hparse) hkind
    -- a known version was merged, was put by this device, or is of a kind that is not merged
    cases he with
    | merged hmerged => exact .inl hmerged
    | pushed hpushed => exact .inr ⟨_, hpushed⟩
    | foreign hparse' hkind' =>
      rw [hserver n b _ hheld hparse'] at hkind'
      cases hkind'
    | roster hpushed hparse' hkind' =>
      rw [hasked _ _ _ hpushed hparse'] at hkind'
      cases hkind'

/-! ## A row overwritten -/

/-- The group as another device renamed it. -/
def Group.renamed : Group := { Group.sample with name := ⟨['h'], Hlc.early 2 2⟩ }

/-- The externals of a vault that deletes its group, renamed elsewhere. -/
def Externals.renaming : Externals :=
  .sample [] [.sample, .buried, .renamed, { Group.renamed with deleted := some ⟨Hlc.early 2 1, .user⟩ }]

/-- The renamed group as the other device pushed it. -/
def Group.foreign : Bytes := (RemoteChange.sample .renaming 2 0 (.group .renamed)).envelope

/-- A roster the other device pushed. -/
def Roster.foreign : Bytes :=
  ((epochKey .sample (ByteArr.repeated 32 0) 0).bind fun key =>
    sealEnvelope .sample .deviceRoster 0 ⟨ByteArr.repeated 16 7⟩ [] key (.sample 2)
      ((Ambient.sample 5).draw .deviceRoster ⟨ByteArr.repeated 16 7⟩)).toOption.getD []

/-- Device 1, whose source of randomness fails while it syncs. -/
def Driver.exhausted : Driver Service :=
  { Driver.honest with amb := { Ambient.sample 5 with draw := fun _ _ => ⟨.error (.random 1), .error (.random 1)⟩ } }

/-- Any write. -/
def Request.isWrite : Request → Bool
  | .changes _ _ => false
  | .put _ _ _ | .delete _ _ => true

/-- What the two devices do. -/
def overwriting : List (Act Service) := [
  .edit (.sample 5) (.atomic (.object (.addGroup ['g']))),
  .edit (.sample 5) (.atomic (.object (.deleteGroup Group.sample.id))),
  .call (.syncOnce (.sample [1, 2])) Request.isWrite,
  .other (.put ⟨ByteArr.repeated 16 7⟩ Roster.foreign none),
  .other (.put Group.sample.id.asItemId Group.foreign none),
  .resume (fun _ => false),
  .call (.syncOnce (.sample [1, 2])) Request.isWrite]

/-- Device 1 adds a group and deletes it. While its sync is at the `PUT`, device 2 pushes a roster and the group as
it renamed it. The `PUT` is refused, the merge of the renamed group fails for want of randomness, and the sync with
it. The next one pulls up to the roster, and then pushes. -/
def Run.overwriting : Run MemoryStore Service :=
  (Run.sample [1, 2] .empty).play .renaming .exhausted 40 Misty.overwriting

theorem Driver.serves_exhausted (request : Request) (x : Service) :
    (Misty.honest .sample others).serve request x (Driver.exhausted.serve request x).1
      (Driver.exhausted.serve request x).2 :=
  .answered 0

set_option maxRecDepth 20000 in
theorem Run.reached_overwriting :
    Run.Reached .renaming (honest .sample (fun _ => True)) .all Service.Fresh .overwriting := by
  refine Run.Reached.play (fun request x => Driver.serves_exhausted request x) (fun _ _ _ => trivial) _ ?_
    (Run.reached_sample rfl Service.fresh_empty)
  intro f hf x
  simp only [Misty.overwriting, Act.other, List.mem_cons, reduceCtorEq, Act.move.injEq, List.not_mem_nil, or_false,
    false_or] at hf
  rcases hf with rfl | rfl
  · exact .served 0 trivial
  · exact .served 0 trivial

/-- What a request puts under the id of the group, and the version it is conditional on. -/
def Request.putsGroup : Request → Option (Bytes × Option ServerVersion)
  | .put id envelope version => if id = Group.sample.id.asItemId then some (envelope, version) else none
  | .changes _ _ | .delete _ _ => none

theorem Request.eq_of_putsGroup {request : Request} {p : Bytes × Option ServerVersion}
    (h : request.putsGroup = some p) : request = .put Group.sample.id.asItemId p.1 p.2 := by
  cases request with
  | put id envelope version =>
    obtain ⟨rfl, h₁⟩ := Option.ite_none_right_eq_some.mp h
    cases h₁
    rfl
  | changes _ _ | delete _ _ => cases h

/-- The run is at a `PUT` of the group, conditional on version 1. -/
def Run.putsGroup (self : Run S X) : Bool :=
  self.work.asking.any fun request => request.putsGroup.any fun p =>
    p.2 = some (.of 1) && (Envelope.parse p.1).toOption.any fun env => isMerged env.header.kind

omit [LawfulStore S] in
theorem Run.out_of_putsGroup {r : Run S X} (h : r.putsGroup = true) : ∃ envelope env s k,
    r.work = .call (.send (.put Group.sample.id.asItemId envelope (some (.of 1)))) s k ∧
      Envelope.parse envelope = .ok env ∧ isMerged env.header.kind = true := by
  obtain ⟨request, hasking, hputs⟩ := Option.any_eq_true _ _ |>.mp h
  obtain ⟨p, hp, hout⟩ := Option.any_eq_true _ _ |>.mp hputs
  obtain ⟨hversion, hany⟩ := Bool.and_eq_true _ _ ▸ hout
  obtain ⟨env, henv, hkind⟩ := Option.any_eq_true _ _ |>.mp hany
  rw [Request.eq_of_putsGroup hp, of_decide_eq_true hversion] at hasking
  obtain ⟨s, k, hwork⟩ := Calls.eq_of_asking hasking
  refine ⟨p.1, env, s, k, hwork, ?_, hkind⟩
  cases hparse : Envelope.parse p.1 with
  | ok env' =>
    rw [hparse] at henv
    cases henv
    rfl
  | error e =>
    rw [hparse] at henv
    cases henv

set_option maxRecDepth 20000 in
/-- The `PUT` that overwrites the renamed group, which was not merged and not pushed from here. -/
theorem unmerged_row_overwritten :
    Run.Reached .renaming (honest .sample (fun _ => True)) .all Service.Fresh .overwriting ∧
    ∃ envelope env s k, Run.overwriting.work = .call (.send (.put Group.sample.id.asItemId envelope (some (.of 1)))) s k ∧
      Envelope.parse envelope = .ok env ∧ isMerged env.header.kind = true ∧
      (Group.sample.id.asItemId, 1, some Group.foreign) ∈ Run.overwriting.world.peer.held ∧
      (Group.sample.id.asItemId, Group.foreign) ∉ Run.overwriting.world.merged ∧
      ∀ version, .put Group.sample.id.asItemId Group.foreign version ∉ Run.overwriting.world.asked := by
  refine ⟨Run.reached_overwriting, ?_⟩
  have hout : Run.overwriting.putsGroup = true := by decide +kernel
  obtain ⟨envelope, env, s, k, hwork, hparse, hkind⟩ := Run.out_of_putsGroup hout
  refine ⟨envelope, env, s, k, hwork, hparse, hkind, ?_, ?_, ?_⟩
  · -- the server's rows are held
    have hrow : (Run.overwriting.world.peer.server.rows[Group.sample.id.asItemId]?).any (fun row =>
        row.version = 1 && row.envelope = some Group.foreign) = true := by decide +kernel
    obtain ⟨row, hrow, hsame⟩ := Option.any_eq_true _ _ |>.mp hrow
    rw [Bool.and_eq_true, decide_eq_true_iff, decide_eq_true_iff] at hsame
    rw [← hsame.1, ← hsame.2]
    exact (Run.reached_overwriting.asks hwork).1.truthful.sound ⟨row, hrow, rfl⟩
  · have hmerges : (((Run.sample [1, 2] .empty).visits .renaming .exhausted 40 Misty.overwriting).flatMap
        (Run.merges .renaming .exhausted)).all (fun p => p ≠ (Group.sample.id.asItemId, Group.foreign)) = true := by
      decide +kernel
    intro hmem
    rcases (Run.remembers_merged.play _ _ _).mp hmem with hmem | hmem
    · exact of_decide_eq_true (List.all_eq_true.mp hmerges _ hmem) rfl
    · exact hmem.elim
  · have hasks : (((Run.sample [1, 2] .empty).visits .renaming .exhausted 40 Misty.overwriting).flatMap
        Run.asks).all (fun request => request.putsGroup.all fun p => p.1 ≠ Group.foreign) = true := by
      decide +kernel
    intro version hmem
    rcases (Run.remembers_asked.play _ _ _).mp hmem with hmem | hmem
    · have hne := List.all_eq_true.mp hasks _ hmem
      simp [Request.putsGroup] at hne
    · exact hmem.elim

/-- A server that has the renamed group. -/
def Service.renamed : Service :=
  ⟨Server.new.store Group.sample.id.asItemId 1 (some Group.foreign) 0 Nat.one_pos,
    (Server.new.store Group.sample.id.asItemId 1 (some Group.foreign) 0 Nat.one_pos).shows⟩

/-- The server has the renamed group and nothing else, and nothing was pushed. -/
structure World.Untouched (w : World S Service) : Prop where
  server : w.peer.server = Service.renamed.server
  held : w.peer.held = Service.renamed.held
  asked : ∀ id b version, .put id b version ∉ w.asked

/-- The next call is no write, and no merge of a conflict. -/
def Run.quiet (self : Run S Service) : Bool :=
  match self.work with
  | .call (.send request) _ _ => !request.isWrite
  | .call (.mergeRemote changes) _ _ => changes.all fun c => c.seq.isSome
  | _ => true

theorem parse_foreign : ∃ env, Envelope.parse Group.foreign = .ok env ∧ isMerged env.header.kind = true := by
  have hany : ((Envelope.parse Group.foreign).toOption.any fun env => isMerged env.header.kind) = true := by
    decide +kernel
  cases hparse : Envelope.parse Group.foreign with
  | ok env =>
    rw [hparse] at hany
    exact ⟨env, rfl, hany⟩
  | error e =>
    rw [hparse] at hany
    cases hany

theorem World.Untouched.apart {w : World S Service} (h : w.Untouched) : w.Apart := by
  intro id row env _ _ _
  refine ⟨?_, ?_⟩
  · intro n b env' hheld hparse
    rw [h.held] at hheld
    obtain ⟨row, hrow, heq⟩ := hheld
    have hrow : (Server.new.store Group.sample.id.asItemId 1 (some Group.foreign) 0 Nat.one_pos).rows[id]? = some row := hrow
    rw [Server.rows_store] at hrow
    split at hrow
    · cases hrow
      cases heq
      obtain ⟨env, hforeign, hkind⟩ := parse_foreign
      rw [hforeign] at hparse
      cases hparse
      exact hkind
    · simp [Server.new] at hrow
  · intro b version env' hasked
    exact absurd hasked (h.asked _ _ _)

theorem World.Untouched.permits {w w' : World S Service} (h : w.Untouched) (h' : w'.Untouched) {event : Event}
    (hevent : event.ConflictMerges) : Permit.explicable w event w' := by
  refine ⟨hevent, ?_, h'.apart⟩
  intro id hnone _
  rw [h'.server, ← h.server]
  exact hnone

theorem World.Untouched.answered {w : World S Service} (h : w.Untouched) {q : Query}
    (hq : ∀ request, q = .send request → request.isWrite = false) : (Driver.honest.answer E q w).2.Untouched := by
  cases q with
  | loadAll | stored _ | rotateEpoch | rewrap _ =>
    simp only [Driver.answer]
    rw [Run.onVault_frame]
    exact ⟨h.server, h.held, h.asked⟩
  | epoch | save _ => exact ⟨h.server, h.held, h.asked⟩
  | mergeRemote changes =>
    show (w.merge E Driver.honest.amb changes).2.Untouched
    unfold World.merge
    split <;> exact ⟨h.server, h.held, h.asked⟩
  | send request =>
    cases request with
    | put _ _ _ | delete _ _ => cases hq _ rfl
    | changes since limit =>
      refine ⟨h.server, ?_, ?_⟩
      · show w.peer.held ∪ w.peer.server.shows = _
        rw [h.server, h.held]
        exact Set.union_self _
      · intro id b version hasked
        rcases Set.mem_insert_iff.mp hasked with heq | hasked
        · cases heq
        · exact h.asked _ _ _ hasked

theorem allows_untouched : Run.Allows E (honest .sample (fun _ => False)) (Permit.explicable (S := S))
    .honest World.Untouched (fun r => r.quiet = true) := by
  have hother : ∀ {event : Event}, (∀ changes a, event ≠ .called (.mergeRemote changes) a) → event.ConflictMerges :=
    fun hne changes a heq _ => absurd heq (hne changes a)
  refine ⟨fun request x => Driver.serves_honest request x, ?_, ?_, fun w op h => h.permits h (hother (by simp))⟩
  · intro r h hquiet
    obtain ⟨work, w⟩ := r
    cases work with
    | ok _ _ | error _ _ => exact ⟨h, fun q s k hwork => by cases hwork⟩
    | call q s k =>
      have h' : (Driver.honest.answer E q w).2.Untouched := by
        refine h.answered ?_
        intro request heq
        subst heq
        exact Bool.not_eq_true' _ ▸ hquiet
      refine ⟨h', ?_⟩
      intro q' s' k' hwork
      cases hwork
      refine h.permits h' ?_
      intro changes a heq hnone
      cases heq
      obtain ⟨c, hc, hseq⟩ := hnone
      have hsome := List.all_eq_true.mp hquiet c hc
      rw [hseq] at hsome
      cases hsome
  · intro w amb op h
    have h' : (w.edit E amb op).Untouched := ⟨h.server, h.held, h.asked⟩
    exact ⟨h', h.permits h' (hother (by simp))⟩

/-- Device 1 adds the group and deletes it, and its sync merges the renamed group and is at the `PUT`. -/
def Run.overwritingMerged : Run MemoryStore Service :=
  (Run.sample [1, 2] .renamed).play .renaming .honest 40 (Misty.overwriting.take 3)

set_option maxRecDepth 20000 in
/-- The renamed group was merged before the `PUT` that overwrites it. -/
theorem put_overwrites_nothing_unmerged_group :
    (Group.sample.id.asItemId, Group.foreign) ∈ Run.overwritingMerged.world.merged ∨
      ∃ version, .put Group.sample.id.asItemId Group.foreign version ∈ Run.overwritingMerged.world.asked := by
  have hquiet : ((Run.sample [1, 2] Service.renamed).visits .renaming .honest 40 (Misty.overwriting.take 3)).all
      Run.quiet = true := by decide +kernel
  have hout : Run.overwritingMerged.putsGroup = true := by decide +kernel
  have hfresh : Run.Reached .renaming (honest .sample (fun _ => False)) .explicable Service.Fresh
      (Run.sample [1, 2] Service.renamed) :=
    Run.reached_sample rfl (show Service.renamed.Fresh from rfl)
  have hmoves : ∀ f, Act.move f ∉ Misty.overwriting.take 3 := by
    intro f hf
    simp [Misty.overwriting] at hf
  obtain ⟨huntouched, hreached⟩ := allows_untouched.play (Misty.overwriting.take 3)
    (fun f hf => absurd hf (hmoves f)) (List.all_eq_true.mp hquiet) ⟨rfl, rfl, fun _ _ _ h => h.elim⟩ hfresh
  obtain ⟨envelope, env, s, k, hwork, hparse, hkind⟩ := Run.out_of_putsGroup hout
  refine put_overwrites_nothing_unmerged Primitives.sample_correct hreached hwork hparse hkind ?_
  rw [huntouched.held]
  refine ⟨_, Server.rows_store .new _ _ 1 (some Group.foreign) 0 Nat.one_pos, ?_⟩
  rfl
end Misty
