import Misty.Vault.Rows
import Misty.Vault.Load
import Misty.Vault.Consistent

/- What is skipped is not authenticated. Both `load` and phase 1 of `merge_remote` look
   at the kind in the header, skip what they do not model, and check a signature only
   after that. So whether a call returns does not depend on the signatures of what it
   skipped (`open_iff`, `mergeRemote_filter`), and a row whose header and column are
   rewritten to another kind is gone without an error. -/
namespace Misty

open LawfulStore (view)

variable {S : Type} [LawfulStore S] (E : Externals)

/-- The header names a kind the vault does not model. -/
def foreign (envelope : Bytes) : Bool :=
  match Envelope.parse envelope with
  | .ok env => env.header.kind ≠ .item ∧ env.header.kind ≠ .group
  | .error _ => false

/-- The envelope verifies for the id under the roster. -/
def Authentic (roster : Roster) (id : ItemId) (envelope : Bytes) : Prop :=
  ∃ env, Envelope.parse envelope = .ok env ∧ env.verify E.prims id roster = .ok ()

/-- The kind column is the header's. -/
def StoredEnvelope.KindMatches (self : StoredEnvelope) : Prop :=
  ∃ env, Envelope.parse self.envelope = .ok env ∧ env.header.kind = self.kind

/-- The store answers the two reads of `open`. -/
def Readable (store : S) : Prop :=
  ∃ epoch s records s', VaultStore.epoch store = .ok epoch s ∧ VaultStore.loadAll s = .ok records s'

/-- What `open` asks of its inputs. Of a row of another kind it asks that the column is right. -/
structure Openable (store : S) (vaultKey : ByteArr 32) (device : DeviceIdentity) (roster : Roster) : Prop where
  signed : ∃ signer, roster.verify E.prims = .ok signer
  enrolled : (roster.contains device.deviceId).isSome = true
  reads : Readable store
  columns : ∀ r ∈ (view store).image.records, foreign r.envelope = true → r.KindMatches
  modelled : ∀ r ∈ (view store).image.records, foreign r.envelope = false →
    ∃ o, decodeRecord E vaultKey roster r = .ok o

variable {E} {vaultKey : ByteArr 32} {roster : Roster}

theorem foreign_eq_true {envelope : Bytes} : foreign envelope = true ↔
    ∃ env, Envelope.parse envelope = .ok env ∧ env.header.kind ≠ .item ∧ env.header.kind ≠ .group := by
  unfold foreign
  cases Envelope.parse envelope with
  | ok env => simp
  | error e => simp

/-- A row of another kind is skipped as soon as its column is right. -/
theorem decodeRecord_foreign {r : StoredEnvelope} (h : foreign r.envelope = true) :
    (∃ o, decodeRecord E vaultKey roster r = .ok o) ↔ r.KindMatches := by
  obtain ⟨env, hparse, hitem, hgroup⟩ := foreign_eq_true.mp h
  constructor
  · intro hdec
    obtain ⟨o, hdec⟩ := hdec
    cases decodeRecord_eq_ok.mp hdec with
    | skipped hparse' hkind _ _ => exact ⟨_, hparse', hkind⟩
    | object hparse' hkind _ _ _ _ _ _ => exact ⟨_, hparse', hkind⟩
  · intro hmatches
    obtain ⟨env', hparse', hkind⟩ := hmatches
    rw [hparse] at hparse'
    cases hparse'
    rw [hkind] at hitem hgroup
    exact ⟨none, decodeRecord_eq_ok.mpr (.skipped hparse hkind hitem hgroup)⟩

/-- A row is skipped exactly when it is of another kind and its column is right. -/
theorem decodeRecord_eq_none {r : StoredEnvelope} :
    decodeRecord E vaultKey roster r = .ok none ↔ foreign r.envelope = true ∧ r.KindMatches := by
  constructor
  · intro h
    cases decodeRecord_eq_ok.mp h with
    | skipped hparse hkind hitem hgroup =>
      refine ⟨foreign_eq_true.mpr ⟨_, hparse, ?_, ?_⟩, _, hparse, hkind⟩
      · rw [hkind]
        exact hitem
      · rw [hkind]
        exact hgroup
  · intro h
    obtain ⟨hforeign, env, hparse, hkind⟩ := h
    obtain ⟨env', hparse', hitem, hgroup⟩ := foreign_eq_true.mp hforeign
    rw [hparse] at hparse'
    cases hparse'
    rw [hkind] at hitem hgroup
    exact decodeRecord_eq_ok.mpr (.skipped hparse hkind hitem hgroup)

/-- When `open` returns: nothing about a row of another kind but its column plays a part. -/
theorem open_iff {store : S} {device : DeviceIdentity} :
    (∃ v, Vault.open E store vaultKey device roster = .ok v) ↔ Openable E store vaultKey device roster := by
  constructor
  · intro h
    obtain ⟨v, hopen⟩ := h
    have hload := (opened_of_open hopen).load
    have hdec := decodes_of_loadRecords _ _ _ hload
    unfold Vault.open at hopen
    obtain ⟨signer, hverify, h₁⟩ := bind_eq_ok.mp hopen
    split at h₁
    · cases h₁
    · next henrolled =>
      obtain ⟨⟨epoch, s⟩, hepoch, h₂⟩ := bind_eq_ok.mp h₁
      obtain ⟨⟨records, s'⟩, hrecords, -⟩ := bind_eq_ok.mp h₂
      refine ⟨⟨signer, mapError_eq_ok.mp hverify⟩, by simpa [Option.isSome_iff_ne_none] using henrolled,
        ⟨epoch, s, records, s', runStore_eq_ok.mp hepoch, runStore_eq_ok.mp hrecords⟩, ?_, ?_⟩
      · intro r hr hforeign
        exact (decodeRecord_foreign hforeign).mp (hdec r hr)
      · intro r hr _
        exact hdec r hr
  · intro h
    obtain ⟨⟨signer, hverify⟩, henrolled, ⟨epoch, s, records, s', hepoch, hrecords⟩, hforeign, hmodelled⟩ := h
    obtain ⟨hview, -, -⟩ := (LawfulStore.epoch_spec store).of_ok hepoch
    obtain ⟨-, rfl, -⟩ := (LawfulStore.loadAll_spec s).of_ok hrecords
    -- a foreign row is skipped by its header; any other has to decode
    have hdec : ∀ (id : ItemId) (r : StoredEnvelope), (view s).image.rows[id]? = some r →
        ∃ o, decodeRecord E vaultKey roster r = .ok o := by
      intro id r hr
      rw [hview] at hr
      have hmem : r ∈ (view store).image.records := Image.mem_records.mpr ((view store).image.keyed id r hr ▸ hr)
      cases hkind : foreign r.envelope with
      | true => exact (decodeRecord_foreign hkind).mpr (hforeign r hmem hkind)
      | false => exact hmodelled r hmem hkind
    obtain ⟨l, hload⟩ := (loadRecords_image _ device.deviceId).mpr hdec
    have hnone : (roster.contains device.deviceId).isNone = false := by simpa using henrolled
    have hsigned : liftCrypto (roster.verify E.prims) = .ok signer := mapError_eq_ok.mpr hverify
    have hreadEpoch : runStore VaultStore.epoch store = .ok (epoch, s) := runStore_eq_ok.mpr hepoch
    have hreadAll : runStore VaultStore.loadAll s = .ok (_, s') := runStore_eq_ok.mpr hrecords
    unfold Vault.open
    simp only [hsigned, hnone, hreadEpoch, hreadAll, hload, bind, Except.bind, Bool.false_eq_true, if_false]
    exact ⟨_, rfl⟩

/-! ## Merging -/

/-- The changes of the kinds the vault models. -/
def modelled (changes : List RemoteChange) : List RemoteChange := changes.filter fun c => !foreign c.envelope

theorem decodeChange_foreign {change : RemoteChange} (h : foreign change.envelope = true) :
    decodeChange E vaultKey roster change = .ok none := by
  obtain ⟨env, hparse, hitem, hgroup⟩ := foreign_eq_true.mp h
  have hparsed : liftCrypto (Envelope.parse change.envelope) = .ok env := mapError_eq_ok.mpr hparse
  unfold decodeChange
  simp [hparsed, bind, Except.bind, hitem, hgroup]
  rfl

/-- Phase 1 does with the other kinds what it does without them, and counts them. -/
theorem decodeChanges_modelled : ∀ changes : List RemoteChange,
    decodeChanges E vaultKey roster changes = (decodeChanges E vaultKey roster (modelled changes)).map
      fun p => (p.1, p.2 + changes.countP fun c => foreign c.envelope)
  | [] => rfl
  | change :: rest => by
    have ih := decodeChanges_modelled rest
    cases hforeign : foreign change.envelope with
    | true =>
      have hmodelled : modelled (change :: rest) = modelled rest := by simp [modelled, hforeign]
      rw [hmodelled, decodeChanges, decodeChange_foreign hforeign, ih]
      cases decodeChanges E vaultKey roster (modelled rest) with
      | error e => rfl
      | ok p => simp [bind, Except.bind, Except.map, pure, Except.pure, hforeign, Nat.add_assoc]
    | false =>
      have hmodelled : modelled (change :: rest) = change :: modelled rest := by simp [modelled, hforeign]
      rw [hmodelled, decodeChanges, decodeChanges, ih]
      cases decodeChange E vaultKey roster change with
      | error e => rfl
      | ok o =>
        cases decodeChanges E vaultKey roster (modelled rest) with
        | error e => rfl
        | ok p =>
          cases o with
          | none => simp [bind, Except.bind, Except.map, pure, Except.pure, hforeign]; omega
          | some o => simp [bind, Except.bind, Except.map, pure, Except.pure, hforeign]

variable (E) in
/-- What `merge_remote` does once the batch is decoded. -/
def mergeOf (amb : Ambient) (decoded : List (RemoteChange × Decoded)) : Io (Vault S) Merging := do
  let self ← get
  let m ← liftExcept (mergeDecoded (vaultForkIds E self.vaultKey) decoded ⟨self.items, self.groups, [], [], []⟩)
  let records ← Vault.recordsFor E amb decoded m
  Vault.settle ⟨records.map (fun p => .put p.2), Vault.adoptMerge m (records.map Prod.fst)⟩
  return m

theorem mergeRemote_eq {amb : Ambient} {changes : List RemoteChange} {v : Vault S}
    {p : List (RemoteChange × Decoded) × Nat} (h : decodeChanges E v.vaultKey v.roster changes = .ok p) :
    (∃ report w, Vault.mergeRemote E amb changes v = .ok report w) ↔ ∃ m w, mergeOf E amb p.1 v = .ok m w := by
  unfold Vault.mergeRemote Vault.mergeStaged mergeOf
  simp only [bind, EStateM.bind, get, getThe, MonadStateOf.get, EStateM.get, h, liftExcept]
  cases mergeDecoded (vaultForkIds E v.vaultKey) p.1 ⟨v.items, v.groups, [], [], []⟩ with
  | error e => simp
  | ok m =>
    dsimp only
    cases Vault.recordsFor E amb p.1 m v with
    | error e u => simp
    | ok records u =>
      simp only [pure, EStateM.pure]
      cases Vault.settle ⟨records.map (fun p => .put p.2), Vault.adoptMerge m (records.map Prod.fst)⟩ u with
      | error e w => simp
      | ok a w => simp

theorem mergeRemote_modelled {amb : Ambient} {changes : List RemoteChange} {v : Vault S} :
    (∃ report w, Vault.mergeRemote E amb changes v = .ok report w) ↔
      ∃ report w, Vault.mergeRemote E amb (modelled changes) v = .ok report w := by
  cases h : decodeChanges E v.vaultKey v.roster (modelled changes) with
  | ok p =>
    have hall : decodeChanges E v.vaultKey v.roster changes =
        .ok (p.1, p.2 + changes.countP fun c => foreign c.envelope) := by
      rw [decodeChanges_modelled, h]
      rfl
    rw [mergeRemote_eq h, mergeRemote_eq hall]
  | error e =>
    have hall : decodeChanges E v.vaultKey v.roster changes = .error e := by
      rw [decodeChanges_modelled, h]
      rfl
    have hfails : ∀ {batch : List RemoteChange}, decodeChanges E v.vaultKey v.roster batch = .error e →
        ¬ ∃ report w, Vault.mergeRemote E amb batch v = .ok report w := by
      intro batch hbatch hok
      unfold Vault.mergeRemote Vault.mergeStaged at hok
      simp [bind, EStateM.bind, get, getThe, MonadStateOf.get, EStateM.get, hbatch, liftExcept] at hok
    exact iff_of_false (hfails hall) (hfails h)

/-! ## A rewritten row -/

theorem openWith_authentic {id : ItemId} {key : EpochKey} {envelope payload : Bytes}
    (h : Envelope.openWith E.prims envelope id key roster = .ok payload) : Authentic E roster id envelope := by
  obtain ⟨env, hparse, h₁⟩ := bind_eq_ok.mp h
  obtain ⟨_, hverify, -⟩ := bind_eq_ok.mp h₁
  exact ⟨env, hparse, hverify⟩

theorem decodeRecord_unique {r r' : StoredEnvelope} {o o' : Decoded} (hid : r'.itemId = r.itemId)
    (henvelope : r'.envelope = r.envelope) (h : decodeRecord E vaultKey roster r = .ok (some o))
    (h' : decodeRecord E vaultKey roster r' = .ok (some o')) : o' = o := by
  cases decodeRecord_eq_ok.mp h with
  | object hparse hkind _ hkey hopen hdec _ _ =>
    cases decodeRecord_eq_ok.mp h' with
    | object hparse' hkind' _ hkey' hopen' hdec' _ _ =>
      rw [henvelope, hparse] at hparse'
      cases hparse'
      rw [hkey] at hkey'
      cases hkey'
      rw [henvelope, hid, hopen] at hopen'
      cases hopen'
      rw [← hkind', hkind, hdec] at hdec'
      cases hdec'
      rfl

/-- A row in place of one that held an object, whose bytes are the old ones or do not verify: if the vault opens it
holds the object, exactly when the header does not name another kind with the column to match. -/
theorem rewritten_holds_iff {store store' : S} {device : DeviceIdentity} {v : Vault S} {o : Decoded}
    {r r' : StoredEnvelope} (hopen : Vault.open E store vaultKey device roster = .ok v)
    (hrow : (view store).image.rows[o.itemId]? = some r) (hdec : decodeRecord E vaultKey roster r = .ok (some o))
    (hid : r'.itemId = r.itemId) (hview : (view store').image = (view store).image.put r') (hreads : Readable store')
    (hunforged : Authentic E roster r'.itemId r'.envelope → r'.envelope = r.envelope) :
    (∀ v', Vault.open E store' vaultKey device roster = .ok v' → v'.Holds o) ↔
      ¬ (foreign r'.envelope = true ∧ r'.KindMatches) := by
  have hkey : r'.itemId = o.itemId := hid.trans (itemId_of_decodeRecord hdec).symm
  have hrow' : (view store').image.rows[o.itemId]? = some r' := by
    rw [hview, Image.rows_put, if_pos hkey]
  constructor
  · intro hall hskipped
    obtain ⟨hsigned, henrolled, -, hcolumns, hmodelled⟩ := open_iff.mp ⟨v, hopen⟩
    -- every other row is an old one
    have hmem : ∀ q ∈ (view store').image.records, q = r' ∨ q ∈ (view store).image.records := by
      intro q hq
      have hq := Image.mem_records.mp hq
      rw [hview, Image.rows_put] at hq
      split at hq
      · exact .inl (Option.some.inj hq).symm
      · exact .inr (Image.mem_records.mpr hq)
    have hopenable : Openable E store' vaultKey device roster := by
      refine ⟨hsigned, henrolled, hreads, ?_, ?_⟩
      · intro q hq hforeign
        rcases hmem q hq with rfl | hq
        · exact hskipped.2
        · exact hcolumns q hq hforeign
      · intro q hq hforeign
        rcases hmem q hq with rfl | hq
        · rw [hskipped.1] at hforeign
          cases hforeign
        · exact hmodelled q hq hforeign
    obtain ⟨v', hopen'⟩ := open_iff.mpr hopenable
    have hholds := (v'.holds_iff v'.hlc o).mp (hall v' hopen')
    obtain ⟨q, hq, hdec'⟩ := (holds_of_loadRecords (opened_of_open hopen').load o).mp hholds
    rw [hrow'] at hq
    cases hq
    rw [decodeRecord_eq_none.mpr hskipped] at hdec'
    cases hdec'
  · intro hnot v' hopen'
    have hload := (opened_of_open hopen').load
    obtain ⟨o?, hdec'⟩ := decodes_of_loadRecords _ _ _ hload r' (Image.mem_records.mpr (by rw [hkey]; exact hrow'))
    cases o? with
    | none => exact absurd (decodeRecord_eq_none.mp hdec') hnot
    | some o' =>
      have hauthentic : Authentic E roster r'.itemId r'.envelope := by
        cases decodeRecord_eq_ok.mp hdec' with
        | object _ _ _ _ hopened _ _ _ => exact openWith_authentic hopened
      obtain rfl := decodeRecord_unique hid (hunforged hauthentic) hdec hdec'
      exact (v'.holds_iff v'.hlc o').mpr ((holds_of_loadRecords hload o').mpr ⟨r', hrow', hdec'⟩)

/-! ## What is left out -/

/-- What is left out for its kind is authentic where `open` or `merge_remote` return: exactly when the rows or changes
of other kinds are, or the call fails over something else. And an item cannot be hidden by rewriting its row exactly
when the header does not get another kind with the column to match. -/
theorem skipped_authentic_iff :
    (∀ {store : S} {vaultKey : ByteArr 32} {device : DeviceIdentity} {roster : Roster},
      (∀ v, Vault.open E store vaultKey device roster = .ok v → ∀ r ∈ (view store).image.records,
          foreign r.envelope = true → Authentic E roster r.itemId r.envelope) ↔
        (Openable E store vaultKey device roster → ∀ r ∈ (view store).image.records,
          foreign r.envelope = true → Authentic E roster r.itemId r.envelope)) ∧
    (∀ {amb : Ambient} {v : Vault S} {changes : List RemoteChange},
      (∀ report w, Vault.mergeRemote E amb changes v = .ok report w → ∀ c ∈ changes,
          foreign c.envelope = true → Authentic E v.roster c.itemId c.envelope) ↔
        ((∃ report w, Vault.mergeRemote E amb (modelled changes) v = .ok report w) → ∀ c ∈ changes,
          foreign c.envelope = true → Authentic E v.roster c.itemId c.envelope)) ∧
    ∀ {store store' : S} {vaultKey : ByteArr 32} {device : DeviceIdentity} {roster : Roster} {v : Vault S}
      {o : Decoded} {r r' : StoredEnvelope}, Vault.open E store vaultKey device roster = .ok v →
      (view store).image.rows[o.itemId]? = some r → decodeRecord E vaultKey roster r = .ok (some o) →
      r'.itemId = r.itemId → (view store').image = (view store).image.put r' → Readable store' →
      (Authentic E roster r'.itemId r'.envelope → r'.envelope = r.envelope) →
      ((∀ v', Vault.open E store' vaultKey device roster = .ok v' → v'.Holds o) ↔
        ¬ (foreign r'.envelope = true ∧ r'.KindMatches)) := by
  refine ⟨?_, ?_, ?_⟩
  · intro store vaultKey device roster
    rw [← open_iff, forall_exists_index]
  · intro amb v changes
    rw [← mergeRemote_modelled]
    simp only [forall_exists_index]
  · intro store store' vaultKey device roster v o r r'
    exact rewritten_holds_iff

/-- The item, its change as its own device sealed it, and the change with another kind in the header. -/
def hidden : Decoded := .item (.fresh 1 9 0 4)

def Externals.hiding : Externals := .sample [.fresh 1 9 0 4] []

def sealedChange : RemoteChange := .sample .hiding 1 0 hidden

def hiddenEnvelope : Bytes := sealedChange.envelope.set 5 EnvelopeKind.deviceRoster.asU8

/-- Its row, and the row rewritten. -/
def sealedRow : StoredEnvelope := ⟨hidden.itemId, .item, none, none, sealedChange.envelope, hidden.maxHlc⟩

def hiddenRow : StoredEnvelope := { sealedRow with kind := .deviceRoster, envelope := hiddenEnvelope }

def sealedStore : MemoryStore := stateAfter (VaultStore.put sealedRow) .new

def hiddenStore : MemoryStore := stateAfter (VaultStore.put hiddenRow) sealedStore

theorem not_authentic_hidden : ¬ Authentic .hiding (.sample [1]) hidden.itemId hiddenEnvelope := by
  intro h
  obtain ⟨env, hparse, hverify⟩ := h
  have hrefused : (Envelope.parse hiddenEnvelope).toOption.all (fun env =>
      (env.verify .sample hidden.itemId (.sample [1])).toOption.isNone) = true := by decide +kernel
  rw [hparse] at hrefused
  have hverify : env.verify .sample hidden.itemId (.sample [1]) = .ok () := hverify
  simp [Except.toOption, hverify] at hrefused

set_option maxRecDepth 20000 in
/-- An item is hidden exactly because its rewritten row is of another kind, the column included. -/
theorem skipped_authentic_iff_hidden :
    (∀ v', Vault.open .hiding hiddenStore (ByteArr.repeated 32 0) (.sample 1) (.sample [1]) = .ok v' → v'.Holds hidden) ↔
      ¬ (foreign hiddenRow.envelope = true ∧ hiddenRow.KindMatches) := by
  have hsome : (Vault.open .hiding sealedStore (ByteArr.repeated 32 0) (.sample 1) (.sample [1])).toOption.any
      (fun _ => true) = true := by decide
  obtain ⟨v, hopen, -⟩ := exists_of_toOption_any hsome
  have hrow : (view sealedStore).image.rows[hidden.itemId]? = some sealedRow := by decide
  have hdec : decodeRecord .hiding (ByteArr.repeated 32 0) (.sample [1]) sealedRow = .ok (some hidden) := by
    decide
  have hreads : Readable hiddenStore := ⟨_, _, _, _, rfl, rfl⟩
  exact skipped_authentic_iff.2.2 hopen hrow hdec rfl rfl hreads fun h => absurd h not_authentic_hidden

set_option maxRecDepth 20000 in
/-- The row of an item, its header and its column rewritten: the vault opens without the item. The change is ignored
as well. The envelope is not authentic. -/
theorem rewritten_row_is_skipped :
    hiddenRow.envelope.drop HEADER_LEN = sealedRow.envelope.drop HEADER_LEN ∧
    ¬ Authentic .hiding (.sample [1]) hidden.itemId hiddenEnvelope ∧
    (∃ v, Vault.open .hiding sealedStore (ByteArr.repeated 32 0) (.sample 1) (.sample [1]) = .ok v ∧ v.Holds hidden) ∧
    (∃ v, Vault.open .hiding hiddenStore (ByteArr.repeated 32 0) (.sample 1) (.sample [1]) = .ok v ∧ ¬ v.Holds hidden) ∧
    ∃ report w, Vault.mergeRemote .hiding (.sample 5) [{ sealedChange with envelope := hiddenEnvelope }]
        (Vault.sample MemoryStore.new [1]) = .ok report w ∧ report.ignored = 1 := by
  refine ⟨by decide, not_authentic_hidden, ?_, ?_, ?_⟩
  · have hholds : (Vault.open .hiding sealedStore (ByteArr.repeated 32 0) (.sample 1) (.sample [1])).toOption.any
        (fun v => v.items.get hidden.itemId = some (.fresh 1 9 0 4)) = true := by decide
    obtain ⟨v, hopen, hget⟩ := exists_of_toOption_any hholds
    have hitem := of_decide_eq_true hget
    exact ⟨v, hopen, hitem⟩
  · have hgone : (Vault.open .hiding hiddenStore (ByteArr.repeated 32 0) (.sample 1) (.sample [1])).toOption.any
        (fun v => v.items.get hidden.itemId = none) = true := by decide
    obtain ⟨v, hopen, hget⟩ := exists_of_toOption_any hgone
    refine ⟨v, hopen, fun hholds => ?_⟩
    have hsome : v.items.get hidden.itemId = some (.fresh 1 9 0 4) := hholds
    rw [of_decide_eq_true hget] at hsome
    cases hsome
  · exact ⟨_, _, rfl, rfl⟩

end Misty
