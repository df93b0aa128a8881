import Misty.Sync.Claimed

/- A conflict the server can produce, as the client takes it. Where the server has a
   row, its answer is read back, resolved over the vault, and the next `PUT` carries the
   version the server is at. Where it has none, swept or never there, it says version 0
   and no bytes, and `decode_conflict` refuses what its documentation says is handled. -/
namespace Misty

open LawfulStore (view)

variable {S : Type} [LawfulStore S] (E : Externals) (config : ServerConfig)

/-- What a conflict carries verifies, and merges where it is an item's or a group's. -/
def Mergeable (amb : Ambient) (roster : Roster) (itemId : ItemId) (v : Vault S) (current : Option Bytes) : Prop :=
  ∀ b, current = some b → ∃ kind, verifyConflict E roster itemId b = .ok kind ∧
    (isMerged kind = true → ∃ report v', Vault.mergeRemote E amb [⟨itemId, none, none, b⟩] v = .ok report v')

/-- The vault once it has merged what a conflict carries. -/
def Vault.resolved (amb : Ambient) (itemId : ItemId) (self : Vault S) : Option Bytes → Vault S
  | none => self
  | some envelope =>
    match Envelope.parse envelope with
    | .error _ => self
    | .ok env =>
      if isMerged env.header.kind then
        stateAfter (Vault.mergeRemote E amb [⟨itemId, none, none, envelope⟩]) self
      else self

/-- The conflict is decoded and resolved over the vault, and with the row the vault then has the loop ends or its
next `PUT` is accepted by the server as it is. -/
def Resolved (d : Driver Service) (roster : Roster) (now : Int) (w : World S Service) (itemId : ItemId)
    (sent : Bytes) (response : Response) (s : SyncEngine) : Prop :=
  ∃ version current s' w' row, readPut sent response = .ok (.conflict version current) ∧
    (resolveConflict E roster itemId version current s).run (d.answer E) w = (.ok (), s', w') ∧
    w'.rows.rows[itemId]? = some row ∧
    (s'.state.confirmed itemId (fingerprint E row.envelope) = true ∨
      (servePut config itemId row.envelope (s'.state.versionOf itemId) now w.peer.server).1.status = 200)

/-- The server's limits leave room for an envelope over a row: its own size, the bytes of the vault, and the numbers
a column can hold. -/
structure Server.RoomOver (server : Server) (row : ServerRow) (envelope : Bytes) : Prop where
  size : envelope ≠ [] ∧ envelope.length ≤ config.maxEnvelopeBytes
  bytes : server.bytesUsed < 2 ^ 63 ∧
    min (server.bytesUsed - row.len + envelope.length) (2 ^ 64 - 1) ≤ config.limits.maxBytes
  numbers : server.nextSeq < 2 ^ 63 ∧ row.version + 1 < 2 ^ 63

variable {E config}

/-- The server's answer to a conflict over a row it has, read by the client. -/
theorem readPut_of_conflict {sent : Bytes} {row : ServerRow} (hversion : 0 < row.version ∧ row.version < 2 ^ 63)
    (hlen : ∀ b, row.envelope = some b → b.length ≤ MAX_ENVELOPE_LEN) :
    readPut sent (render (.conflict row.version row.envelope)) =
      .ok (.conflict (some (.of row.version)) row.envelope) := by
  have hparse : RawVersion.intoToken (.token (versionToken row.version)) = .ok (.of row.version) :=
    parse_versionToken (lt_trans hversion.2 (by decide))
  have henv : optional (base64Field "resolve conflict" "envelope" MAX_ENVELOPE_LEN) (row.envelope.map .bytes) =
      .ok row.envelope := by
    cases henv : row.envelope with
    | none => rfl
    | some b =>
      show (base64Field "resolve conflict" "envelope" MAX_ENVELOPE_LEN (.bytes b)).map some = _
      unfold base64Field
      dsimp only
      rw [if_neg (Nat.not_lt.mpr (hlen b henv))]
      rfl
  have hfilter : (some (ServerVersion.of row.version)).filter (fun version => !version.meansAbsent) =
      some (.of row.version) := by
    rw [Option.filter_some, meansAbsent_of]
    simp [Nat.ne_of_gt hversion.1]
  refine bind_eq_ok.mpr ⟨{ RawBody.empty with
    version := some (.token (versionToken row.version)), envelope := row.envelope.map .bytes }, rfl, ?_⟩
  refine bind_eq_ok.mpr ⟨row.envelope, henv, ?_⟩
  refine bind_eq_ok.mpr ⟨some (.of row.version), congrArg (Except.map some) hparse, ?_⟩
  dsimp only
  rw [hfilter, Option.isNone_some, Bool.and_false, if_neg Bool.false_ne_true]
  rfl

theorem resolved_some {amb : Ambient} {itemId : ItemId} {v : Vault S} {b : Bytes} {env : Envelope}
    (hparse : Envelope.parse b = .ok env) : v.resolved E amb itemId (some b) =
      if isMerged env.header.kind then stateAfter (Vault.mergeRemote E amb [⟨itemId, none, none, b⟩]) v else v := by
  unfold Vault.resolved
  dsimp only
  rw [hparse]

/-- The conflict recorded, and what it carries merged. -/
structure ConflictRecorded (E : Externals) (d : Driver Service) (w : World S Service) (itemId : ItemId)
    (version : ServerVersion) (current : Option Bytes) (state : SyncState) (w' : World S Service) : Prop where
  vault : w'.vault = w.vault.resolved E d.amb itemId current
  known : (state.known[itemId]?).map (fun known => (known.fingerprint, known.version)) =
    some (current.map (fingerprint E), some version)

/-- What resolving a conflict leaves, where merges and saves succeed. -/
theorem resolveConflict_ensures {d : Driver Service} {roster : Roster} {w : World S Service} {itemId : ItemId}
    {version : ServerVersion} {current : Option Bytes} {s : SyncEngine}
    (hmerges : Mergeable E d.amb roster itemId w.vault current) (hversion : s.state.versionOf itemId ≠ some version) :
    (resolveConflict E roster itemId (some version) current).Ensures Eq (fun q w a w' => (a, w') = d.answer E q w)
      (fun _ _ _ => True) s w (fun _ s' w' => ConflictRecorded E d w itemId version current s'.state w')
      (fun _ _ _ => False) := by
  -- the last steps: the state is saved and the conflict counted
  have hend : ∀ (s₁ : SyncEngine) (w₁ : World S Service),
      ConflictRecorded E d w itemId version current s₁.state w₁ →
      (do
        save
        setReport fun report => { report with conflictsResolved := report.conflictsResolved + 1 }
        : Sync Unit).Ensures Eq (fun q w a w' => (a, w') = d.answer E q w) (fun _ _ _ => True) s₁ w₁
        (fun _ s' w' => ConflictRecorded E d w itemId version current s'.state w') (fun _ _ _ => False) := by
    intro s₁ w₁ h
    apply Prog.Ensures.bind
    apply Prog.Ensures.bind
    apply Prog.Ensures.get
    apply Prog.Ensures.bind
    apply Prog.Ensures.call trivial
    intro w₂ a w₃ hw hsave
    subst hw
    cases hsave
    apply Prog.Ensures.ofExcept
    · intro _ _
      exact Prog.Ensures.modify ⟨h.vault, h.known⟩
    · intro e he
      cases he
  have hknown : ∀ (known : KnownRow), known.fingerprint = current.map (fingerprint E) → known.version = some version →
      ((s.state.insert itemId known).known[itemId]?).map (fun known => (known.fingerprint, known.version)) =
        some (current.map (fingerprint E), some version) := by
    intro known hfp hv
    rw [SyncState.known_insert, if_pos rfl, Option.map_some, hfp, hv]
  unfold resolveConflict
  cases current with
  | none =>
    apply Prog.Ensures.bind
    apply Prog.Ensures.modify
    exact hend _ _ ⟨rfl, hknown _ rfl rfl⟩
  | some b =>
    obtain ⟨kind, hkind, hmerge⟩ := hmerges b rfl
    obtain ⟨env, hparse, rfl⟩ := parse_of_verifyConflict hkind
    apply Prog.Ensures.bind
    rw [hkind]
    apply Prog.Ensures.bind
    apply Prog.Ensures.bind
    apply Prog.Ensures.get
    dsimp only
    split
    · next hloop => exact absurd hloop.2 hversion
    · apply Prog.Ensures.bind
      apply Prog.Ensures.modify
      dsimp only
      split
      · next hm =>
        obtain ⟨report, v', hrun⟩ := hmerge hm
        apply Prog.Ensures.bind
        apply Prog.Ensures.bind
        apply Prog.Ensures.call trivial
        intro w₁ a w₂ hw hanswer
        subst hw
        have hanswer : (a, w₂) = w.merge E d.amb [⟨itemId, none, none, b⟩] := hanswer
        unfold World.merge at hanswer
        rw [hrun] at hanswer
        cases hanswer
        apply Prog.Ensures.ofExcept
        · intro merged _
          apply Prog.Ensures.bind
          apply Prog.Ensures.modify
          refine hend _ _ ⟨?_, hknown _ rfl rfl⟩
          rw [resolved_some hparse, if_pos hm, stateAfter, hrun]
        · intro e he
          cases he
      · next hm =>
        refine hend _ _ ⟨?_, hknown _ rfl rfl⟩
        rw [resolved_some hparse, if_neg hm]

theorem resolved_row {amb : Ambient} {itemId : ItemId} {v : Vault S} {current : Option Bytes} {stored : StoredEnvelope}
    (hstored : (view v.store).image.rows[itemId]? = some stored) :
    ∃ row, (view (v.resolved E amb itemId current).store).image.rows[itemId]? = some row := by
  unfold Vault.resolved
  split
  · exact ⟨stored, hstored⟩
  · split
    · exact ⟨stored, hstored⟩
    · split
      · exact ((@mergeRemote_kept ∅ _ _ _ _ _ v).rows.image itemId ⟨stored, hstored⟩).resolve_right (Set.notMem_empty _)
      · exact ⟨stored, hstored⟩

theorem length_of_verifyConflict {roster : Roster} {itemId : ItemId} {b : Bytes} {kind : EnvelopeKind}
    (h : verifyConflict E roster itemId b = .ok kind) : b.length ≤ MAX_ENVELOPE_LEN := by
  unfold verifyConflict at h
  split at h
  · cases h
  · next hlen => exact Nat.not_lt.mp hlen

/-- What a conflict tells: the version and the bytes the server has, and that the condition was another version. -/
theorem Server.conflict_of_putItem {self server : Server} {limits : Limits} {itemId : ItemId} {condition version : Nat}
    {envelope : Bytes} {now : Int} {current : Option Bytes}
    (h : self.putItem limits itemId condition envelope now = .ok (.conflict version current, server)) :
    version = self.versionAt itemId ∧ current = (self.rows[itemId]?).bind ServerRow.envelope ∧
      condition ≠ self.versionAt itemId := by
  have hput := Server.put_of_putItem h
  generalize hout : (WriteOutcome.conflict version current) = out at hput
  cases hput with
  | written _ _ _ => cases hout
  | conflict hne =>
    cases hout
    exact ⟨rfl, rfl, hne⟩
  | full _ hfull => rcases hfull with rfl | rfl <;> cases hout

/-- An item with a row is written exactly when there is room for it over that. -/
theorem Server.putItem_over {self : Server} {limits : Limits} {itemId : ItemId} {row : ServerRow} {envelope : Bytes}
    (now : Int) (hrow : self.rows[itemId]? = some row) :
    (∃ seq version s', self.putItem limits itemId row.version envelope now = .ok (.ok seq version, s')) ↔
      (self.bytesUsed < 2 ^ 63 ∧ min (self.bytesUsed - row.len + envelope.length) (2 ^ 64 - 1) ≤ limits.maxBytes) ∧
        self.nextSeq < 2 ^ 63 ∧ row.version + 1 < 2 ^ 63 := by
  have hput : self.putItem limits itemId row.version envelope now = self.write limits itemId (some row) envelope now := by
    unfold putItem
    simp [hrow]
  rw [hput]
  unfold write
  simp only [Option.map_some, Option.getD_some, Option.isNone_some, Bool.false_eq_true, false_and, if_false]
  constructor
  · intro h
    obtain ⟨seq, version, s', h⟩ := h
    obtain ⟨_, hsum, h⟩ := bind_eq_ok.mp h
    split at h
    · cases h
    · next hroom =>
      obtain ⟨_, hseq, h⟩ := bind_eq_ok.mp h
      obtain ⟨_, hversion, -⟩ := bind_eq_ok.mp h
      exact ⟨⟨asI64_eq_ok.mp hsum, not_lt.mp hroom⟩, asI64_eq_ok.mp hseq, asI64_eq_ok.mp hversion⟩
  · intro h
    obtain ⟨⟨hsum, hroom⟩, hseq, hversion⟩ := h
    have hsum : asI64 "items bytes" self.bytesUsed = .ok () := asI64_eq_ok.mpr hsum
    have hseq : asI64 "seq" self.nextSeq = .ok () := asI64_eq_ok.mpr hseq
    have hversion : asI64 "version" (row.version + 1) = .ok () := asI64_eq_ok.mpr hversion
    rw [if_neg (not_lt.mpr hroom)]
    simp only [hsum, hseq, hversion, bind, Except.bind]
    exact ⟨_, _, _, rfl⟩

theorem renderStored_status {server : Server} {r : Except StoreError (WriteOutcome × Server)} :
    (renderStored server r).1.status = 200 ↔ ∃ seq version s', r = .ok (.ok seq version, s') := by
  rcases r with e | ⟨outcome, s'⟩
  · simp [renderStored, ApiError.response, ApiError.status]
  · cases outcome <;> simp [renderStored, render, writeResponse, ApiError.response, ApiError.status]

/-- A `PUT` at the version the server is at is accepted exactly when its limits leave room. -/
theorem servePut_over_iff {now : Int} {server : Server} {itemId : ItemId} {row : ServerRow} {envelope : Bytes}
    (hrow : server.rows[itemId]? = some row) (hversion : row.version < 2 ^ 64) :
    (servePut config itemId envelope (some (.of row.version)) now server).1.status = 200 ↔
      server.RoomOver config row envelope := by
  unfold servePut
  rw [putCondition_of hversion]
  dsimp only
  by_cases hmax : config.maxEnvelopeBytes < envelope.length
  · have hdecode : decodeBlob config.maxEnvelopeBytes envelope = .error .payloadTooLarge := if_pos hmax
    rw [hdecode]
    exact ⟨fun h => absurd h (show ¬ (413 : Nat) = 200 by decide), fun h => absurd h.size.2 (Nat.not_le.mpr hmax)⟩
  · by_cases hnil : envelope = []
    · have hdecode : decodeBlob config.maxEnvelopeBytes envelope = .error .badRequest :=
        (if_neg hmax).trans (if_pos hnil)
      rw [hdecode]
      exact ⟨fun h => absurd h (show ¬ (400 : Nat) = 200 by decide), fun h => absurd hnil h.size.1⟩
    · have hdecode : decodeBlob config.maxEnvelopeBytes envelope = .ok envelope := (if_neg hmax).trans (if_neg hnil)
      rw [hdecode]
      dsimp only
      rw [renderStored_status, Server.putItem_over now hrow]
      exact ⟨fun h => ⟨⟨hnil, Nat.not_lt.mp hmax⟩, h.1, h.2⟩, fun h => ⟨h.bytes, h.numbers⟩⟩

/-- The next `PUT`, once the conflict is recorded. -/
theorem ends_or_taken_iff {now : Int} {server : Server} {itemId : ItemId} {had : ServerRow} {envelope : Bytes}
    {s : SyncEngine} (hhad : server.rows[itemId]? = some had) (hlt : had.version < 2 ^ 64)
    (hknown : (s.state.known[itemId]?).map (fun known => (known.fingerprint, known.version)) =
      some (had.envelope.map (fingerprint E), some (.of had.version))) :
    (s.state.confirmed itemId (fingerprint E envelope) = true ∨
        (servePut config itemId envelope (s.state.versionOf itemId) now server).1.status = 200) ↔
      (had.envelope.map (fingerprint E) = some (fingerprint E envelope) ∨ server.RoomOver config had envelope) := by
  obtain ⟨known, hrow, heq⟩ := Option.map_eq_some_iff.mp hknown
  rw [Prod.mk.injEq] at heq
  have hconfirmed : s.state.confirmed itemId (fingerprint E envelope) = true ↔
      had.envelope.map (fingerprint E) = some (fingerprint E envelope) := by
    unfold SyncState.confirmed
    rw [hrow, ← heq.1]
    exact decide_eq_true_iff
  have hversion : s.state.versionOf itemId = some (.of had.version) := by
    unfold SyncState.versionOf
    rw [hrow]
    exact heq.2
  rw [hconfirmed, hversion, servePut_over_iff hhad hlt]

/-- An answer the store gave to a `PUT` of the vault's row is resolved, and the next `PUT` goes through, exactly when
the server still has a row for the id, and that has the bytes of the row the merge leaves the vault or room for them. -/
theorem conflict_resolved_iff {roster : Roster} {d : Driver Service} {now now' : Int} {w : World S Service}
    {itemId : ItemId} {stored : StoredEnvelope} {condition version : Nat} {current : Option Bytes} {s : SyncEngine}
    (hserver : w.peer.server.Reached config.limits) (hstored : w.rows.rows[itemId]? = some stored)
    (hcondition : putCondition (s.state.versionOf itemId) = .ok condition)
    (hput : w.peer.server.putItem config.limits itemId condition stored.envelope now =
      .ok (.conflict version current, w.peer.server))
    (hmerges : Mergeable E d.amb roster itemId w.vault current) :
    ∃ row, (view (w.vault.resolved E d.amb itemId current).store).image.rows[itemId]? = some row ∧
      (Resolved E config d roster now' w itemId stored.envelope (render (.conflict version current)) s ↔
        ∃ had, w.peer.server.rows[itemId]? = some had ∧
          (had.envelope.map (fingerprint E) = some (fingerprint E row.envelope) ∨
            w.peer.server.RoomOver config had row.envelope)) := by
  obtain ⟨row, hrow⟩ := @resolved_row S _ E d.amb itemId w.vault current stored hstored
  refine ⟨row, hrow, ?_⟩
  obtain ⟨rfl, rfl, hne⟩ := Server.conflict_of_putItem hput
  have hstale : s.state.versionOf itemId ≠ some (.of (w.peer.server.versionAt itemId)) := by
    intro h
    rw [h] at hcondition
    exact hne (eq_of_putCondition_of hcondition)
  -- the resolution itself comes to its end, whatever the answer says
  have hran := (resolveConflict_ensures hmerges hstale).run
  split at hran
  swap
  · exact hran.elim
  next s' w' hrun =>
  obtain ⟨hvault, hknown⟩ := hran
  have hrow' : w'.rows.rows[itemId]? = some row := by
    unfold World.rows
    rw [hvault]
    exact hrow
  by_cases hnone : w.peer.server.rows[itemId]? = none
  · -- version 0 and no bytes is refused
    refine ⟨fun h => ?_, fun h => ?_⟩
    · obtain ⟨_, _, _, _, _, hread, -⟩ := h
      obtain ⟨-, hsome⟩ := readPut_conflict hread
      exact absurd ⟨by simp [Server.versionAt, hnone], by simp [hnone]⟩ hsome
    · obtain ⟨_, hhad, -⟩ := h
      rw [hnone] at hhad
      cases hhad
  · obtain ⟨had, hhad⟩ := Option.ne_none_iff_exists'.mp hnone
    have hat : w.peer.server.versionAt itemId = had.version := by simp [Server.versionAt, hhad]
    have hcurrent : (w.peer.server.rows[itemId]?).bind ServerRow.envelope = had.envelope := by rw [hhad]; rfl
    have hlt : had.version < 2 ^ 63 := hserver.version_lt itemId had hhad
    have hread : readPut stored.envelope (render (.conflict (w.peer.server.versionAt itemId)
        ((w.peer.server.rows[itemId]?).bind ServerRow.envelope))) = .ok (.conflict (some (.of had.version)) had.envelope) := by
      rw [hat, hcurrent]
      refine readPut_of_conflict ⟨(w.peer.server.stamped itemId had hhad).2.2, hlt⟩ ?_
      intro b hb
      obtain ⟨kind, hkind, -⟩ := hmerges b (hcurrent.trans hb)
      exact length_of_verifyConflict hkind
    rw [hat] at hrun hknown
    rw [hcurrent] at hrun hknown
    have hends := @ends_or_taken_iff _ config now' _ _ _ row.envelope _ hhad (lt_trans hlt (by decide)) hknown
    refine ⟨fun h => ?_, fun h => ?_⟩
    · obtain ⟨version', current', s'', w'', row', hread', hrun', hrow'', hend⟩ := h
      rw [hread] at hread'
      cases hread'
      rw [hrun] at hrun'
      cases hrun'
      rw [hrow'] at hrow''
      cases hrow''
      exact ⟨had, hhad, hends.mp hend⟩
    · obtain ⟨had', hhad', hend⟩ := h
      rw [hhad] at hhad'
      cases hhad'
      exact ⟨_, _, s', w', row, hread, hrun, hrow', hends.mpr hend⟩

/-- A server whose one row was written. -/
def Server.written : Server := Server.new.store ⟨ByteArr.repeated 16 5⟩ 1 (some [1]) 0 Nat.one_pos

/-- A server whose one row was written and reclaimed. -/
def Server.reclaimed : Server := Server.written.store ⟨ByteArr.repeated 16 5⟩ 2 none 0 (by decide)

theorem Server.reached_reclaimed : Server.reclaimed.Reached ServerConfig.sample.limits := by
  have hput : Server.new.putItem ServerConfig.sample.limits ⟨ByteArr.repeated 16 5⟩ 0 [1] 0 = .ok (.ok 1 1, .written) := rfl
  have hdelete : Server.written.deleteItem ⟨ByteArr.repeated 16 5⟩ 1 0 = .ok (.ok 2 2, .reclaimed) := rfl
  exact .delete (.put .new hput) hdelete

/-- The device that pushed its group, where the server has reclaimed the row since. -/
def World.reclaimed : World MemoryStore Service := { Run.pushing.world with peer := ⟨.reclaimed, ∅⟩ }

set_option maxRecDepth 20000 in
/-- The conflict over the reclaimed row is resolved, and the vault's row goes through: there is room for it. -/
theorem conflict_resolved_iff_reclaimed : ∃ stored, World.reclaimed.rows.rows[Group.sample.id.asItemId]? = some stored ∧
    Resolved (.sample [] [.sample]) .sample .honest (.sample [1]) 0 .reclaimed Group.sample.id.asItemId stored.envelope
      (render (.conflict 2 none)) Run.pushing.work.state := by
  have hrow : (World.reclaimed.rows.rows[Group.sample.id.asItemId]?).any (fun stored => decide (stored.envelope ≠ [] ∧
    stored.envelope.length ≤ 1024)) = true := by decide +kernel
  obtain ⟨stored, hstored, hsize⟩ := (Option.any_eq_true _ _).mp hrow
  obtain ⟨hne, hlen⟩ := of_decide_eq_true hsize
  have hserver : World.reclaimed.peer.server.rows[Group.sample.id.asItemId]? = some ⟨2, 2, none, 0⟩ := by decide +kernel
  have hbytes : World.reclaimed.peer.server.bytesUsed = 0 := by decide +kernel
  have hcondition : putCondition (Run.pushing.work.state.state.versionOf Group.sample.id.asItemId) = .ok 1 := by
    decide +kernel
  have hput : World.reclaimed.peer.server.putItem ServerConfig.sample.limits Group.sample.id.asItemId 1 stored.envelope 0 =
      .ok (.conflict 2 none, World.reclaimed.peer.server) := by
    unfold Server.putItem
    rw [hserver]
    rfl
  obtain ⟨row, hrow, hiff⟩ := @conflict_resolved_iff MemoryStore _ (.sample [] [.sample]) .sample (.sample [1]) .honest 0 0
    .reclaimed Group.sample.id.asItemId stored 1 2 none Run.pushing.work.state Server.reached_reclaimed hstored hcondition hput
    (by simp [Mergeable])
  obtain rfl : stored = row := Option.some.inj (hstored.symm.trans hrow)
  refine ⟨stored, hstored, hiff.mpr ⟨_, hserver, .inr ⟨⟨hne, ?_⟩, ⟨?_, ?_⟩, by decide⟩⟩⟩
  · exact le_trans hlen (by decide)
  · rw [hbytes]
    decide
  · rw [hbytes]
    show min (0 - 0 + stored.envelope.length) (2 ^ 64 - 1) ≤ 2 ^ 20
    omega

/-- The device pushes its group, another deletes the server's row, the server sweeps it, and the device buries
the group and syncs. -/
def Run.swept : Run MemoryStore Service :=
  (Run.sample [1] .empty).play .burying .honest 40 [
    .edit (.sample 5) (.atomic (.object (.addGroup ['g']))),
    .whole (.syncOnce (.sample [1])),
    .other (.delete Group.sample.id.asItemId (some (.of 1))),
    .move (fun x => x.become (x.server.sweep 0)),
    .edit (.sample 5) (.atomic (.object (.deleteGroup Group.sample.id))),
    .whole (.syncOnce (.sample [1]))]

theorem Run.reached_swept : Run.Reached .burying (honest .sample (fun _ => True)) .all Service.Fresh .swept := by
  refine Run.Reached.play (fun request x => Driver.serves_honest request x) (fun _ _ _ => trivial) _ ?_
    (Run.reached_sample (open_sample [] _) Service.fresh_empty)
  intro f hf x
  simp only [Act.whole, Act.other, List.mem_cons, reduceCtorEq, Act.move.injEq, List.not_mem_nil, or_false, false_or] at hf
  rcases hf with rfl | rfl
  · exact .served 0 trivial
  · exact .swept 0

set_option maxRecDepth 20000 in
/-- After a sweep the store answers version 0 and no bytes, and the client refuses that answer: the write is
never pushed, and the sync ends. -/
theorem swept_row_unresolvable :
    Run.Reached .burying (honest .sample (fun _ => True)) .all Service.Fresh .swept ∧
    Run.swept.work.failure = some .conflictWithoutEnvelope ∧
    (∃ writes, Run.swept.Lists .burying (honest .sample (fun _ => True)) writes ∧
      ⟨Group.sample.id.asItemId, .put⟩ ∈ writes) ∧
    putCondition (Run.swept.work.state.state.versionOf Group.sample.id.asItemId) = .ok 1 ∧
    (∀ sent now, Run.swept.world.peer.server.putItem ServerConfig.sample.limits Group.sample.id.asItemId 1 sent now =
      .ok (.conflict 0 none, Run.swept.world.peer.server)) ∧
    ∀ sent, readPut sent (render (.conflict 0 none)) = .error .conflictWithoutEnvelope := by
  have hnone : Run.swept.world.peer.server.rows[Group.sample.id.asItemId]? = none := by decide +kernel
  refine ⟨Run.reached_swept, by decide +kernel, ⟨_, Run.lists_of_loaded rfl, by decide +kernel⟩, by decide +kernel, ?_,
    fun _ => rfl⟩
  intro sent now
  unfold Server.putItem
  rw [hnone]
  rfl

end Misty
