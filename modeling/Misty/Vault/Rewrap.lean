import Misty.Vault.Consistent
import Misty.Crypto.Sealing

/- Rewrapping, call after call.

   What is proved:
     1. `rewrap_spec` — over a store that refuses nothing a call goes through exactly when
        every row it chose has an object that can be encoded; then those rows are at the
        vault's epoch and nothing else moved.
     2. `rewrap_progresses_iff` — the calls reach the end in the time they should, and take
        no row back, exactly when every stale row is an item's or a group's, is behind the
        vault, and holds an object that can be encoded.
     3. `rewrap_stuck_and_back` — a stale row of the settings stops it for good, and a row
        ahead of the vault is taken back.

   A store that succeeds, a source of randomness that does and a cipher that encrypts are
   hypotheses of the theorems: the host and the cipher bring them, not this code. -/
namespace Misty

variable {S : Type} [LawfulStore S]

open LawfulStore (view)

/-! ## What the outside provides -/

/-- A set of stores from which no call rewrapping makes is refused. -/
structure Willing (W : S → Prop) : Prop where
  loadAll : ∀ s, W s → Meets VaultStore.loadAll s (fun _ s' => W s') (fun _ _ => False)
  get : ∀ id s, W s → Meets (VaultStore.get id) s (fun _ s' => W s') (fun _ _ => False)
  begin : ∀ s, W s → Meets VaultStore.begin s (fun _ s' => W s') (fun _ _ => False)
  put : ∀ r s, W s → Meets (VaultStore.put r) s (fun _ s' => W s') (fun _ _ => False)
  commit : ∀ s, W s → (view s).saved ≠ [] → Meets VaultStore.commit s (fun _ s' => W s') (fun _ _ => False)

theorem MemoryStore.willing : Willing (fun _ : MemoryStore => True) where
  loadAll _ _ := trivial
  get _ _ _ := trivial
  begin _ _ := trivial
  put _ _ _ := trivial
  commit s _ h := by
    obtain ⟨image, snapshots⟩ := s
    cases snapshots with
    | nil => exact absurd rfl h
    | cons i rest => exact trivial

/-- The random bytes of every seal are there. -/
def Ambient.Draws (amb : Ambient) : Prop :=
  ∀ kind id, ∃ itemKey nonces, amb.draw kind id = ⟨.ok itemKey, .ok nonces⟩

variable {E : Externals} {amb : Ambient}

theorem length_of_encode {o : Decoded} {payload : Bytes} (h : o.encode E.cbor = .ok payload) :
    payload.length ≤ MAX_PAYLOAD_LEN := by
  cases o with
  | item x =>
    simp only [Decoded.encode, encodeItem, bind_eq_ok, checkPayloadLen_eq_ok] at h
    obtain ⟨_, -, buf, -, _, hlen, hret⟩ := h
    cases hret
    exact hlen.trans (by decide)
  | group g =>
    simp only [Decoded.encode, encodeGroup, bind_eq_ok, checkPayloadLen_eq_ok] at h
    obtain ⟨_, -, buf, -, _, hlen, hret⟩ := h
    cases hret
    exact hlen.trans (by decide)

omit [LawfulStore S] in
/-- What can be encoded can be sealed, and nothing else can. -/
theorem sealObject_iff (hencrypts : E.prims.Encrypts) (hdraws : amb.Draws) (v : Vault S) (o : Decoded) (epoch : U32) :
    (∃ bytes, v.sealObject E amb o epoch = .ok bytes) ↔ ∃ payload, o.encode E.cbor = .ok payload := by
  constructor
  · intro h
    obtain ⟨bytes, h⟩ := h
    obtain ⟨payload, hpayload, -⟩ := bind_eq_ok.mp h
    exact ⟨payload, hpayload⟩
  · intro h
    obtain ⟨payload, hpayload⟩ := h
    obtain ⟨itemKey, nonces, hdraw⟩ := hdraws o.kind o.itemId
    obtain ⟨rest, hbytes⟩ := sealEnvelope_ok hencrypts o.kind o.itemId
      (length_of_encode hpayload) ⟨epoch, E.prims.hkdf v.vaultKey.val (asciiBytes "misty/epoch/v1") epoch.toLeBytes.val 32⟩
      v.device itemKey nonces
    refine ⟨(Header.mk o.kind epoch v.device.deviceId nonces.1 nonces.2).toBytes ++ rest,
      bind_eq_ok.mpr ⟨payload, hpayload, bind_eq_ok.mpr ⟨_, mapError_eq_ok.mpr (epochKey_eq ..), ?_⟩⟩⟩
    rw [hdraw]
    exact mapError_eq_ok.mpr hbytes

/-- The header of a row. -/
def StoredEnvelope.header? (self : StoredEnvelope) : Option Header :=
  (Envelope.parse self.envelope).toOption.map Envelope.header

theorem header_of_resealed (hP : E.prims.Correct) {v : Vault S} {o : Decoded} {r : StoredEnvelope}
    (h : Resealed E amb v o r) : ∃ header, r.header? = some header ∧ header.epoch = v.epoch := by
  have he := h.envelope
  unfold Vault.sealObject at he
  obtain ⟨payload, -, he⟩ := bind_eq_ok.mp he
  obtain ⟨key, hkey, he⟩ := bind_eq_ok.mp he
  have hkey' := mapError_eq_ok.mp hkey
  rw [epochKey_eq] at hkey'
  cases hkey'
  obtain ⟨env, hsealed⟩ := seal_sealed hP (mapError_eq_ok.mp he)
  exact ⟨env.header, by simp [StoredEnvelope.header?, hsealed.parses, Except.toOption], hsealed.epoch_eq⟩

/-! ## One row -/

variable (E) in
/-- The object of a stale row is there and can be encoded. -/
def Vault.Ready (v : Vault S) (stale : ItemId × EnvelopeKind) : Prop :=
  ∃ o payload, v.staleObject stale.1 stale.2 = .ok o ∧ o.encode E.cbor = .ok payload

/-- Some rows were sealed again at the vault's epoch, and that is all. -/
structure Rewrapped (v w : Vault S) (ids : List ItemId) : Prop where
  store : w = { v with store := w.store }
  saved : (view w.store).saved = (view v.store).saved
  kept : ∀ id ∉ ids, (view w.store).image.rows[id]? = (view v.store).image.rows[id]?
  sealed : ∀ id ∈ ids, ∃ r header, (view w.store).image.rows[id]? = some r ∧ r.header? = some header ∧
    header.epoch = v.epoch

theorem Rewrapped.refl (v : Vault S) : Rewrapped v v [] := ⟨rfl, rfl, fun _ _ => rfl, by simp⟩

theorem Rewrapped.trans {v u w : Vault S} {ids ids' : List ItemId} (h : Rewrapped v u ids) (h' : Rewrapped u w ids') :
    Rewrapped v w (ids ++ ids') where
  store := by
    rw [h'.store, h.store]
  saved := h'.saved.trans h.saved
  kept id hid := by
    rw [List.mem_append, not_or] at hid
    rw [h'.kept id hid.2, h.kept id hid.1]
  sealed id hid := by
    have hepoch : u.epoch = v.epoch := by rw [h.store]
    by_cases hmem : id ∈ ids'
    · obtain ⟨r, header, hrow, hheader, hsame⟩ := h'.sealed id hmem
      exact ⟨r, header, hrow, hheader, hsame.trans hepoch⟩
    · rw [h'.kept id hmem]
      exact h.sealed id ((List.mem_append.mp hid).resolve_right hmem)

variable {W : S → Prop}

theorem Willing.transaction (hW : Willing W) {s : S} (hs : W s) (r : StoredEnvelope) :
    Meets (Misty.transaction (writeAll [.put r])) s
      (fun _ s' => W s' ∧ view s' = ⟨(view s).image.put r, (view s).saved⟩) (fun _ _ => False) := by
  apply Meets.transaction
  apply ((hW.begin s hs).and (LawfulStore.begin_spec s)).mono
  · intro _ s₁ h₁
    obtain ⟨hw₁, hv₁, -⟩ := h₁
    apply Meets.bind
    apply ((hW.put r s₁ hw₁).and (LawfulStore.put_spec r s₁)).mono
    · intro _ s₂ h₂
      obtain ⟨hw₂, hv₂, -⟩ := h₂
      have hsaved : (view s₂).saved = (view s).image :: (view s).saved := by rw [hv₂, hv₁]
      apply Meets.pure
      apply ((hW.commit s₂ hw₂ (by rw [hsaved]; simp)).and (LawfulStore.commit_spec s₂ _ _ hsaved)).mono
      · intro _ s₃ h₃
        refine ⟨h₃.1, ?_⟩
        rw [h₃.2.1, hv₂, hv₁]
      · intro e s₃ h₃
        exact h₃.1.elim
    · intro e s₂ h₂
      exact h₂.1.elim
  · intro e s₁ h₁
    exact h₁.1.elim

theorem Willing.record (hW : Willing W) {v : Vault S} (hs : W v.store) (o : Decoded) :
    Meets (Vault.record E amb o) v
      (fun r u => W u.store ∧ u = { v with store := u.store } ∧ view u.store = view v.store ∧ Resealed E amb v o r)
      (fun _ _ => ¬ ∃ bytes, v.sealObject E amb o v.epoch = .ok bytes) := by
  apply Meets.bind
  apply Meets.onStore
  apply ((hW.get o.itemId v.store hs).and (LawfulStore.get_spec o.itemId v.store)).mono
  · intro previous s h
    obtain ⟨hw, hv, hprev, -⟩ := h
    apply Meets.bind
    apply Meets.get
    apply Meets.bind
    apply Meets.liftExcept
    · intro envelope henvelope
      exact Meets.pure ⟨hw, rfl, hv, rfl, rfl, rfl, by rw [hprev], by rw [hprev], henvelope⟩
    · intro e herr hok
      obtain ⟨bytes, hbytes⟩ := hok
      have hsame : Vault.sealObject E amb { v with store := s } o v.epoch = v.sealObject E amb o v.epoch := rfl
      rw [hsame, hbytes] at herr
      cases herr
  · intro e s h
    exact h.1.elim

/-- One row is sealed again exactly when its object is ready. -/
theorem rewrapOne_spec (hP : E.prims.Correct) (hencrypts : E.prims.Encrypts) (hdraws : amb.Draws) (hW : Willing W)
    {v : Vault S} (hs : W v.store) (id : ItemId) (kind : EnvelopeKind) :
    Meets (Vault.rewrapOne E amb id kind) v
      (fun _ w => W w.store ∧ v.Ready E (id, kind) ∧ Rewrapped v w [id])
      (fun _ _ => ¬ v.Ready E (id, kind)) := by
  apply Meets.bind
  apply Meets.get
  apply Meets.bind
  apply Meets.liftExcept
  · intro o ho
    have hid := (staleObject_eq_ok ho).2.1
    apply Meets.bind
    apply (hW.record hs o).mono
    · intro r u hu
      obtain ⟨hwu, hu, hview, hr⟩ := hu
      apply Meets.bind
      apply Meets.onStore
      apply (hW.transaction hwu r).mono
      · intro _ s' hs'
        -- sealing is possible exactly when the object still encodes
        obtain ⟨payload, hpayload⟩ := (sealObject_iff hencrypts hdraws v o v.epoch).mp ⟨_, hr.envelope⟩
        obtain ⟨header, hheader, hepoch⟩ := header_of_resealed hP hr
        refine Meets.modify ⟨hs'.1, ⟨o, payload, ho, hpayload⟩, ?_, ?_, ?_, ?_⟩
        · rw [hu]
        · show (view s').saved = _
          rw [hs'.2, hview]
        · intro other hother
          show (view s').image.rows[other]? = _
          rw [hs'.2, hview, Image.rows_put, if_neg]
          rw [hr.itemId, hid]
          exact fun heq => hother (List.mem_singleton.mpr heq.symm)
        · intro other hother
          rw [List.mem_singleton.mp hother]
          refine ⟨r, header, ?_, hheader, hepoch⟩
          show (view s').image.rows[id]? = _
          rw [hs'.2, Image.rows_put, if_pos (hr.itemId.trans hid)]
      · intro e s' h
        exact h.elim
    · intro e u hnot hready
      obtain ⟨o', payload, ho', hpayload⟩ := hready
      rw [ho] at ho'
      cases ho'
      exact hnot ((sealObject_iff hencrypts hdraws v o v.epoch).mpr ⟨payload, hpayload⟩)
  · intro e herr hready
    obtain ⟨o', payload, ho', -⟩ := hready
    rw [herr] at ho'
    cases ho'

omit [LawfulStore S] in
theorem Vault.Ready.congr {v u : Vault S} {s : S} (h : u = { v with store := s }) {stale : ItemId × EnvelopeKind} :
    u.Ready E stale ↔ v.Ready E stale := by
  rw [h]
  exact Iff.rfl

/-- The loop seals the rows again exactly when they are all ready. -/
theorem rewrapLoop_spec (hP : E.prims.Correct) (hencrypts : E.prims.Encrypts) (hdraws : amb.Draws) (hW : Willing W) :
    ∀ (chosen : List (ItemId × EnvelopeKind)) (v : Vault S), W v.store → (chosen.map Prod.fst).Nodup →
      Meets (Vault.rewrapLoop E amb chosen) v
        (fun _ w => W w.store ∧ (∀ stale ∈ chosen, v.Ready E stale) ∧ Rewrapped v w (chosen.map Prod.fst))
        (fun _ _ => ¬ ∀ stale ∈ chosen, v.Ready E stale)
  | [], v, hs, _ => Meets.pure ⟨hs, by simp, .refl v⟩
  | (id, kind) :: rest, v, hs, hnodup => by
    have hnodup := (List.nodup_cons.mp hnodup).2
    apply Meets.bind
    apply (rewrapOne_spec hP hencrypts hdraws hW hs id kind).mono
    · intro _ u hu
      obtain ⟨hwu, hready, hone⟩ := hu
      have hcongr : ∀ stale, u.Ready E stale ↔ v.Ready E stale := fun stale => Vault.Ready.congr hone.store
      apply (rewrapLoop_spec hP hencrypts hdraws hW rest u hwu hnodup).mono
      · intro _ w hw
        obtain ⟨hww, hall, hrest⟩ := hw
        refine ⟨hww, ?_, hone.trans hrest⟩
        intro stale hmem
        cases List.mem_cons.mp hmem with
        | inl heq => exact heq ▸ hready
        | inr hmem => exact (hcongr stale).mp (hall stale hmem)
      · intro e w hw hall
        exact hw fun stale hmem => (hcongr stale).mpr (hall stale (List.mem_cons_of_mem _ hmem))
    · intro e u hu hall
      exact hu (hall _ List.mem_cons_self)

/-! ## One call -/

/-- What `rewrap_to_current_epoch` notes of a row. -/
def staleEntry (epoch : U32) (r : StoredEnvelope) : Option (ItemId × EnvelopeKind) :=
  r.header?.bind fun header => if header.epoch ≠ epoch then some (r.itemId, header.kind) else none

theorem staleRows_eq {epoch : U32} {rows : List StoredEnvelope} (h : ∀ r ∈ rows, r.header?.isSome) :
    Vault.staleRows epoch rows = .ok (rows.filterMap (staleEntry epoch)) := by
  induction rows with
  | nil => rfl
  | cons r rest ih =>
    have hrest := ih fun r' hr' => h r' (List.mem_cons_of_mem _ hr')
    have hr := h r List.mem_cons_self
    unfold StoredEnvelope.header? at hr
    cases hparse : Envelope.parse r.envelope with
    | error e =>
      rw [hparse] at hr
      cases hr
    | ok env =>
      have hheader : r.header? = some env.header := by simp [StoredEnvelope.header?, hparse, Except.toOption]
      simp only [Vault.staleRows, liftCrypto, hparse, Except.mapError, hrest, bind, Except.bind, List.filterMap_cons,
        staleEntry, hheader, Option.bind_some]
      split
      · rfl
      · rfl

/-- The rows at another epoch, as a call finds them. -/
def Vault.stale (v : Vault S) : List (ItemId × EnvelopeKind) :=
  (view v.store).image.records.filterMap (staleEntry v.epoch)

/-- The rows a call seals again. -/
def Vault.chosen (v : Vault S) (limit : Nat) : List (ItemId × EnvelopeKind) :=
  (v.stale.insertionSort (fun a b => a.1 ≤ b.1)).take limit

/-- Every row has a header. -/
def Vault.Headed (v : Vault S) : Prop :=
  ∀ (id : ItemId) (r : StoredEnvelope), (view v.store).image.rows[id]? = some r → r.header?.isSome

theorem Vault.mem_stale {v : Vault S} {id : ItemId} {kind : EnvelopeKind} : (id, kind) ∈ v.stale ↔
    ∃ r header, (view v.store).image.rows[id]? = some r ∧ r.header? = some header ∧ header.epoch ≠ v.epoch ∧
      header.kind = kind := by
  unfold Vault.stale
  rw [List.mem_filterMap]
  constructor
  · intro h
    obtain ⟨r, hmem, hentry⟩ := h
    obtain ⟨header, hheader, hentry⟩ := Option.bind_eq_some_iff.mp hentry
    split at hentry
    · next hne =>
      cases hentry
      exact ⟨r, header, Image.mem_records.mp hmem, hheader, hne, rfl⟩
    · cases hentry
  · intro h
    obtain ⟨r, header, hrow, hheader, hne, hkind⟩ := h
    have hid := (view v.store).image.keyed id r hrow
    refine ⟨r, Image.mem_records.mpr (hid ▸ hrow), ?_⟩
    simp [staleEntry, hheader, hne, hid, hkind]

theorem Vault.nodup_stale (v : Vault S) : (v.stale.map Prod.fst).Nodup := by
  unfold Vault.stale
  rw [List.Nodup, List.pairwise_map]
  have hrecords := List.pairwise_map.mp (view v.store).image.nodup_records
  refine hrecords.filterMap (staleEntry v.epoch) ?_
  intro r r' hne a ha b hb heq
  obtain ⟨_, _, ha⟩ := Option.bind_eq_some_iff.mp ha
  obtain ⟨_, _, hb⟩ := Option.bind_eq_some_iff.mp hb
  split at ha
  · split at hb
    · cases ha
      cases hb
      exact hne heq
    · cases hb
  · cases ha

theorem Vault.mem_chosen {v : Vault S} {limit : Nat} {stale : ItemId × EnvelopeKind} (h : stale ∈ v.chosen limit) :
    stale ∈ v.stale :=
  (List.mem_insertionSort _).mp (List.mem_of_mem_take h)

theorem Vault.nodup_chosen (v : Vault S) (limit : Nat) : ((v.chosen limit).map Prod.fst).Nodup := by
  have hsort : ((v.stale.insertionSort (fun a b => a.1 ≤ b.1)).map Prod.fst).Nodup :=
    ((List.perm_insertionSort _ v.stale).map Prod.fst).nodup_iff.mpr v.nodup_stale
  exact hsort.sublist ((List.take_sublist _ _).map Prod.fst)

theorem Vault.length_chosen (v : Vault S) (limit : Nat) : (v.chosen limit).length = min limit v.stale.length := by
  unfold Vault.chosen
  rw [List.length_take, List.length_insertionSort]

/-- A call goes through exactly when every row it chose is ready. -/
theorem rewrap_spec (hP : E.prims.Correct) (hencrypts : E.prims.Encrypts) (hdraws : amb.Draws) (hW : Willing W)
    (limit : Nat) {v : Vault S} (hs : W v.store) (hheaded : v.Headed) :
    Meets (Vault.rewrapToCurrentEpoch E amb limit) v
      (fun p w => W w.store ∧ (∀ stale ∈ v.chosen limit, v.Ready E stale) ∧
        Rewrapped v w ((v.chosen limit).map Prod.fst) ∧ p.remaining = v.stale.length - (v.chosen limit).length)
      (fun _ _ => ¬ ∀ stale ∈ v.chosen limit, v.Ready E stale) := by
  apply Meets.bind
  apply Meets.onStore
  apply ((hW.loadAll v.store hs).and (LawfulStore.loadAll_spec v.store)).mono
  · intro records s h
    obtain ⟨hws, hview, rfl, -⟩ := h
    have hloaded : Rewrapped v { v with store := s } [] :=
      ⟨rfl, by rw [hview], fun id _ => by rw [hview], by simp⟩
    have hstale : Vault.staleRows v.epoch (view v.store).image.records = .ok v.stale := by
      refine staleRows_eq fun r hr => hheaded _ r (Image.mem_records.mp hr)
    apply Meets.bind
    apply Meets.get
    apply Meets.bind
    apply Meets.liftExcept
    · intro stale hok
      rw [hstale] at hok
      cases hok
      apply Meets.bind
      apply (rewrapLoop_spec hP hencrypts hdraws hW (v.chosen limit) { v with store := s } hws (v.nodup_chosen limit)).mono
      · intro _ w hw
        obtain ⟨hww, hall, hrewrapped⟩ := hw
        exact Meets.pure ⟨hww, hall, hloaded.trans hrewrapped, rfl⟩
      · intro e w hw
        exact hw
    · intro e herr
      rw [hstale] at herr
      cases herr
  · intro e s h
    exact h.1.elim

/-! ## Call after call -/

theorem Rewrapped.mem_stale {v u : Vault S} {ids : List ItemId} (h : Rewrapped v u ids) {id : ItemId}
    {kind : EnvelopeKind} : (id, kind) ∈ u.stale ↔ (id, kind) ∈ v.stale ∧ id ∉ ids := by
  have hepoch : u.epoch = v.epoch := by rw [h.store]
  rw [Vault.mem_stale, Vault.mem_stale, hepoch]
  by_cases hid : id ∈ ids
  · obtain ⟨r, header, hrow, hheader, hsame⟩ := h.sealed id hid
    refine iff_of_false ?_ fun hboth => hboth.2 hid
    intro hstale
    obtain ⟨r', header', hrow', hheader', hne, -⟩ := hstale
    rw [hrow] at hrow'
    cases hrow'
    rw [hheader] at hheader'
    cases hheader'
    exact hne hsame
  · rw [h.kept id hid]
    simp [hid]

theorem Rewrapped.length_stale {v u : Vault S} {ids : List ItemId} (h : Rewrapped v u ids) (hnodup : ids.Nodup)
    (hstale : ∀ id ∈ ids, ∃ kind, (id, kind) ∈ v.stale) : u.stale.length = v.stale.length - ids.length := by
  have hids : (u.stale.map Prod.fst).toFinset = (v.stale.map Prod.fst).toFinset \ ids.toFinset := by
    ext id
    simp only [List.mem_toFinset, List.mem_map, Prod.exists, exists_and_right, exists_eq_right, Finset.mem_sdiff]
    constructor
    · intro hmem
      obtain ⟨kind, hkind⟩ := hmem
      exact ⟨⟨kind, (h.mem_stale.mp hkind).1⟩, (h.mem_stale.mp hkind).2⟩
    · intro hmem
      obtain ⟨⟨kind, hkind⟩, hnot⟩ := hmem
      exact ⟨kind, h.mem_stale.mpr ⟨hkind, hnot⟩⟩
  have hsub : ids.toFinset ⊆ (v.stale.map Prod.fst).toFinset := by
    intro id hid
    obtain ⟨kind, hkind⟩ := hstale id (List.mem_toFinset.mp hid)
    exact List.mem_toFinset.mpr (List.mem_map.mpr ⟨(id, kind), hkind, rfl⟩)
  have hcard := congrArg Finset.card hids
  rw [Finset.card_sdiff_of_subset hsub, List.toFinset_card_of_nodup u.nodup_stale,
    List.toFinset_card_of_nodup v.nodup_stale, List.toFinset_card_of_nodup hnodup, List.length_map,
    List.length_map] at hcard
  exact hcard

theorem Rewrapped.headed {v u : Vault S} {ids : List ItemId} (h : Rewrapped v u ids) (hv : v.Headed) : u.Headed := by
  intro id r hrow
  by_cases hid : id ∈ ids
  · obtain ⟨r', header, hrow', hheader, -⟩ := h.sealed id hid
    rw [hrow'] at hrow
    cases hrow
    rw [hheader]
    rfl
  · rw [h.kept id hid] at hrow
    exact hv id r hrow

variable (E) in
/-- The vault after so many calls. -/
def Vault.rewrappedBy (v : Vault S) (amb : Nat → Ambient) (limit : Nat) : Nat → Vault S
  | 0 => v
  | k + 1 => stateAfter (Vault.rewrapToCurrentEpoch E (amb k) limit) (v.rewrappedBy amb limit k)

/-- How far the calls have come. -/
structure Vault.Reaching (E : Externals) (W : S → Prop) (v : Vault S) (limit k : Nat) (u : Vault S)
    (ids : List ItemId) : Prop where
  rewrapped : Rewrapped v u ids
  willing : W u.store
  nodup : ids.Nodup
  ready : ∀ id ∈ ids, ∃ kind, (id, kind) ∈ v.stale ∧ v.Ready E (id, kind)
  count : ids.length = min (k * limit) v.stale.length

theorem Vault.Reaching.next {v u w : Vault S} {limit k : Nat} {ids : List ItemId}
    (h : v.Reaching E W limit k u ids) (hready : ∀ stale ∈ u.chosen limit, u.Ready E stale) (hw : W w.store)
    (hrewrapped : Rewrapped u w ((u.chosen limit).map Prod.fst)) :
    v.Reaching E W limit (k + 1) w (ids ++ (u.chosen limit).map Prod.fst) where
  rewrapped := h.rewrapped.trans hrewrapped
  willing := hw
  nodup := by
    refine List.nodup_append.mpr ⟨h.nodup, u.nodup_chosen limit, ?_⟩
    intro id hid id' hid' heq
    obtain ⟨⟨other, kind⟩, hmem, rfl⟩ := List.mem_map.mp hid'
    rw [heq] at hid
    exact (h.rewrapped.mem_stale.mp (Vault.mem_chosen hmem)).2 hid
  ready id hid := by
    cases List.mem_append.mp hid with
    | inl hid => exact h.ready id hid
    | inr hid =>
      obtain ⟨⟨other, kind⟩, hmem, rfl⟩ := List.mem_map.mp hid
      exact ⟨kind, (h.rewrapped.mem_stale.mp (Vault.mem_chosen hmem)).1,
        (Vault.Ready.congr h.rewrapped.store).mp (hready _ hmem)⟩
  count := by
    have hstale := h.rewrapped.length_stale h.nodup fun id hid => (h.ready id hid).imp fun _ => And.left
    have hcount := h.count
    rw [List.length_append, List.length_map, Vault.length_chosen, hstale, Nat.succ_mul]
    omega

/-- What a call should leave: nothing changed but rows, none of them taken back, and `limit` of the stale ones done. -/
structure Vault.Advances (v u w : Vault S) (p : RewrapProgress) (limit k : Nat) : Prop where
  items : w.items = v.items
  groups : w.groups = v.groups
  clock : w.hlc = v.hlc
  forward : ∀ (id : ItemId) (r : StoredEnvelope) (header : Header), (view u.store).image.rows[id]? = some r → r.header? = some header →
    ∃ (r' : StoredEnvelope) (header' : Header), (view w.store).image.rows[id]? = some r' ∧
      r'.header? = some header' ∧ header.epoch ≤ header'.epoch
  remaining : p.remaining = v.stale.length - (k + 1) * limit

variable (E) in
/-- Calls one after another succeed and advance. -/
def Vault.Progresses (v : Vault S) (amb : Nat → Ambient) (limit : Nat) : Prop :=
  ∀ k, ∃ p w, Vault.rewrapToCurrentEpoch E (amb k) limit (v.rewrappedBy E amb limit k) = .ok p w ∧
    v.Advances (v.rewrappedBy E amb limit k) w p limit k

variable (E) in
/-- Every row at another epoch is an item's or a group's, behind the vault, and of an object that can be encoded. -/
def Vault.Lags (v : Vault S) : Prop :=
  ∀ (id : ItemId) (r : StoredEnvelope) (header : Header), (view v.store).image.rows[id]? = some r →
    r.header? = some header → header.epoch ≠ v.epoch →
    (r.kind = .item ∨ r.kind = .group) ∧ header.epoch < v.epoch ∧
    ∃ o payload, v.Holds o ∧ o.itemId = id ∧ o.kind = r.kind ∧ o.encode E.cbor = .ok payload

section Opening

variable {store : S} {vaultKey : ByteArr 32} {device : DeviceIdentity} {roster : Roster} {v : Vault S}

theorem reads_of_opened (h : Opened E store vaultKey device roster v) {id : ItemId} {r : StoredEnvelope}
    (hrow : (view v.store).image.rows[id]? = some r) : ∃ o, Reads E vaultKey roster r o := by
  have hload := (loadRecords_image (view store).image device.deviceId).mp ⟨_, h.load⟩
  rw [h.view] at hrow
  obtain ⟨o, ho⟩ := hload id r hrow
  exact ⟨o, decodeRecord_eq_ok.mp ho⟩

theorem kind_of_opened (h : Opened E store vaultKey device roster v) {id : ItemId} {r : StoredEnvelope}
    (hrow : (view v.store).image.rows[id]? = some r) : ∃ header, r.header? = some header ∧ header.kind = r.kind := by
  obtain ⟨o, hreads⟩ := reads_of_opened h hrow
  cases hreads with
  | skipped hparse hkind _ _ => exact ⟨_, by simp [StoredEnvelope.header?, hparse, Except.toOption], hkind⟩
  | object hparse hkind _ _ _ _ _ _ =>
    exact ⟨_, by simp [StoredEnvelope.header?, hparse, Except.toOption], hkind⟩

theorem headed_of_opened (h : Opened E store vaultKey device roster v) : v.Headed := by
  intro id r hrow
  obtain ⟨header, hheader, -⟩ := kind_of_opened h hrow
  rw [hheader]
  rfl

/-- The object the loop finds for a row is the one the row was read as. -/
theorem ready_iff_of_opened (h : Opened E store vaultKey device roster v) {id : ItemId} {r : StoredEnvelope}
    (hrow : (view v.store).image.rows[id]? = some r) : v.Ready E (id, r.kind) ↔
      (r.kind = .item ∨ r.kind = .group) ∧
        ∃ o payload, v.Holds o ∧ o.itemId = id ∧ o.kind = r.kind ∧ o.encode E.cbor = .ok payload := by
  constructor
  · intro hready
    obtain ⟨o, payload, hobject, hencode⟩ := hready
    obtain ⟨hholds, hid, -⟩ := staleObject_eq_ok hobject
    obtain ⟨r', hrow', hdecode⟩ := (holds_of_loadRecords h.load o).mp (by cases o <;> exact hholds)
    rw [hid, ← h.view, hrow] at hrow'
    cases hrow'
    cases decodeRecord_eq_ok.mp hdecode with
    | object _ _ hkind _ _ hpayload _ _ =>
      exact ⟨hkind, o, payload, hholds, hid, kind_of_decodePayload hkind hpayload, hencode⟩
  · intro hlags
    obtain ⟨-, o, payload, hholds, hid, hkind, hencode⟩ := hlags
    refine ⟨o, payload, ?_, hencode⟩
    rw [← hkind, ← hid]
    cases o with
    | item x =>
      have hget : v.items.get x.id = some x := hholds
      simp [Vault.staleObject, Vault.item, Decoded.kind, Decoded.itemId, hget, Except.map]
    | group g =>
      have hget : v.groups.get g.id = some g := hholds
      simp [Vault.staleObject, Vault.group, Decoded.kind, Decoded.itemId, hget, Except.map]

end Opening

section Calls

variable {amb : Nat → Ambient} {limit : Nat} {v : Vault S}

theorem Vault.Reaching.start (hs : W v.store) : v.Reaching E W limit 0 v [] where
  rewrapped := .refl v
  willing := hs
  nodup := .nil
  ready := by simp
  count := by simp

theorem Vault.Reaching.call (hP : E.prims.Correct) (hencrypts : E.prims.Encrypts) (hdraws : ∀ n, (amb n).Draws)
    (hW : Willing W) (hheaded : v.Headed) {k : Nat} {u : Vault S} {ids : List ItemId}
    (h : v.Reaching E W limit k u ids) :
    Meets (Vault.rewrapToCurrentEpoch E (amb k) limit) u
      (fun p w => (∀ stale ∈ u.chosen limit, u.Ready E stale) ∧
        v.Reaching E W limit (k + 1) w (ids ++ (u.chosen limit).map Prod.fst) ∧
        Rewrapped u w ((u.chosen limit).map Prod.fst) ∧ p.remaining = v.stale.length - (k + 1) * limit)
      (fun _ _ => ¬ ∀ stale ∈ u.chosen limit, u.Ready E stale) := by
  apply (rewrap_spec hP hencrypts (hdraws k) hW limit h.willing (h.rewrapped.headed hheaded)).mono
  · intro p w hok
    obtain ⟨hw, hready, hrewrapped, hremaining⟩ := hok
    refine ⟨hready, h.next hready hw hrewrapped, hrewrapped, ?_⟩
    have hstale := h.rewrapped.length_stale h.nodup fun id hid => (h.ready id hid).imp fun _ => And.left
    have hcount := h.count
    rw [hremaining, Vault.length_chosen, hstale, Nat.succ_mul]
    omega
  · intro e w herr
    exact herr

/-- When every stale row is ready and behind, no call stops. -/
theorem Vault.progresses_of_ready (hP : E.prims.Correct) (hencrypts : E.prims.Encrypts) (hdraws : ∀ n, (amb n).Draws)
    (hW : Willing W) (hs : W v.store) (hheaded : v.Headed) (hready : ∀ stale ∈ v.stale, v.Ready E stale)
    (hbehind : ∀ (id : ItemId) (r : StoredEnvelope) (header : Header), (view v.store).image.rows[id]? = some r →
      r.header? = some header → header.epoch ≤ v.epoch) : v.Progresses E amb limit := by
  -- the calls so far went through; so does the next
  have hall : ∀ k, ∃ ids, v.Reaching E W limit k (v.rewrappedBy E amb limit k) ids ∧
      ∃ p w, Vault.rewrapToCurrentEpoch E (amb k) limit (v.rewrappedBy E amb limit k) = .ok p w ∧
        v.Reaching E W limit (k + 1) w (ids ++ ((v.rewrappedBy E amb limit k).chosen limit).map Prod.fst) ∧
        Rewrapped (v.rewrappedBy E amb limit k) w (((v.rewrappedBy E amb limit k).chosen limit).map Prod.fst) ∧
        p.remaining = v.stale.length - (k + 1) * limit := by
    have hnext : ∀ (k : Nat) {u : Vault S} {ids : List ItemId}, v.Reaching E W limit k u ids →
        ∃ p w, Vault.rewrapToCurrentEpoch E (amb k) limit u = .ok p w ∧
          v.Reaching E W limit (k + 1) w (ids ++ (u.chosen limit).map Prod.fst) ∧
          Rewrapped u w ((u.chosen limit).map Prod.fst) ∧ p.remaining = v.stale.length - (k + 1) * limit := by
      intro k u ids h
      have hcall := h.call hP hencrypts hdraws hW hheaded
      cases hrun : Vault.rewrapToCurrentEpoch E (amb k) limit u with
      | ok p w => exact ⟨p, w, rfl, (hcall.of_ok hrun).2⟩
      | error e w =>
        refine absurd ?_ (hcall.of_error hrun)
        intro stale hmem
        exact (Vault.Ready.congr h.rewrapped.store).mpr
          (hready stale (h.rewrapped.mem_stale.mp (Vault.mem_chosen hmem)).1)
    intro k
    induction k with
    | zero => exact ⟨[], .start hs, hnext 0 (.start hs)⟩
    | succ k ih =>
      obtain ⟨ids, -, p, w, hrun, hreach, -⟩ := ih
      have hw : v.rewrappedBy E amb limit (k + 1) = w := by
        rw [Vault.rewrappedBy, stateAfter, hrun]
      rw [hw]
      exact ⟨_, hreach, hnext (k + 1) hreach⟩
  intro k
  obtain ⟨ids, hreach, p, w, hrun, hreach', hrewrapped, hremaining⟩ := hall k
  refine ⟨p, w, hrun, ?_, ?_, ?_, ?_, hremaining⟩
  · rw [hreach'.rewrapped.store]
  · rw [hreach'.rewrapped.store]
  · rw [hreach'.rewrapped.store]
  · intro id r header hrow hheader
    by_cases hmem : id ∈ ((v.rewrappedBy E amb limit k).chosen limit).map Prod.fst
    · obtain ⟨r', header', hrow', hheader', hepoch⟩ := hrewrapped.sealed id hmem
      obtain ⟨⟨other, kind⟩, hchosen, rfl⟩ := List.mem_map.mp hmem
      -- a row chosen now was not chosen before: it is the row of the start
      have hnot := (hreach.rewrapped.mem_stale.mp (Vault.mem_chosen hchosen)).2
      rw [hreach.rewrapped.kept _ hnot] at hrow
      have hsame : (v.rewrappedBy E amb limit k).epoch = v.epoch := by rw [hreach.rewrapped.store]
      refine ⟨r', header', hrow', hheader', ?_⟩
      rw [hepoch, hsame]
      exact hbehind _ r header hrow hheader
    · exact ⟨r, header, (hrewrapped.kept id hmem).trans hrow, hheader, le_rfl⟩

/-- Calls that all went through found their rows ready, and took none of them back. -/
theorem Vault.Progresses.reaching (h : v.Progresses E amb limit) (hP : E.prims.Correct) (hencrypts : E.prims.Encrypts)
    (hdraws : ∀ n, (amb n).Draws) (hW : Willing W) (hs : W v.store) (hheaded : v.Headed) (k : Nat) :
    ∃ ids, v.Reaching E W limit k (v.rewrappedBy E amb limit k) ids ∧
      ∀ id ∈ ids, ∀ (r : StoredEnvelope) (header : Header), (view v.store).image.rows[id]? = some r →
        r.header? = some header → header.epoch ≤ v.epoch := by
  induction k with
  | zero => exact ⟨[], .start hs, by simp⟩
  | succ k ih =>
    obtain ⟨ids, hreach, hbehind⟩ := ih
    obtain ⟨p, w, hrun, hadvances⟩ := h k
    obtain ⟨-, hnext, hrewrapped, -⟩ := (hreach.call hP hencrypts hdraws hW hheaded).of_ok hrun
    have hw : v.rewrappedBy E amb limit (k + 1) = w := by
      rw [Vault.rewrappedBy, stateAfter, hrun]
    rw [hw]
    refine ⟨_, hnext, ?_⟩
    intro id hid r header hrow hheader
    by_cases hbefore : id ∈ ids
    · exact hbehind id hbefore r header hrow hheader
    · -- the row this call found is the one of the start, and the row it left is the vault's
      have hchosen := (List.mem_append.mp hid).resolve_left hbefore
      obtain ⟨r', header', hrow', hheader', hle⟩ :=
        hadvances.forward id r header ((hreach.rewrapped.kept id hbefore).trans hrow) hheader
      obtain ⟨r'', header'', hrow'', hheader'', hepoch⟩ := hrewrapped.sealed id hchosen
      rw [hrow''] at hrow'
      cases hrow'
      rw [hheader''] at hheader'
      cases hheader'
      have hsame : (v.rewrappedBy E amb limit k).epoch = v.epoch := by rw [hreach.rewrapped.store]
      rw [hepoch, hsame] at hle
      exact hle

end Calls

/-- Rewrapping makes progress and never goes back, exactly on these vaults: a vault that was opened over a store that
refuses nothing is rewrapped, call after call, to no stale rows in as many calls as it takes at `limit` a call, with
nothing but rows changed and none of them taken back, if and only if every row at another epoch is an item's or a
group's, is behind the vault, and holds an object that can be encoded. -/
theorem rewrap_progresses_iff (E : Externals) (hP : E.prims.Correct) (hencrypts : E.prims.Encrypts) {amb : Nat → Ambient}
    (hdraws : ∀ n, (amb n).Draws) {W : S → Prop} (hW : Willing W) {store : S} {vaultKey : ByteArr 32}
    {device : DeviceIdentity} {roster : Roster} {v : Vault S} (hopen : Vault.open E store vaultKey device roster = .ok v)
    (hs : W v.store) {limit : Nat} (hlimit : 1 ≤ limit) : v.Progresses E amb limit ↔ v.Lags E := by
  have hopened := opened_of_open hopen
  have hheaded := headed_of_opened hopened
  constructor
  · intro hprogresses id r header hrow hheader hne
    obtain ⟨ids, hreach, hbehind⟩ :=
      hprogresses.reaching hP hencrypts hdraws hW hs hheaded v.stale.length
    -- by then nothing is stale
    have hstale := hreach.rewrapped.length_stale hreach.nodup fun id hid => (hreach.ready id hid).imp fun _ => And.left
    have hcount := hreach.count
    have hmany : v.stale.length ≤ v.stale.length * limit := Nat.le_mul_of_pos_right _ hlimit
    have hnil : (v.rewrappedBy E amb limit v.stale.length).stale = [] := List.eq_nil_of_length_eq_zero (by omega)
    have hmem : (id, header.kind) ∈ v.stale := Vault.mem_stale.mpr ⟨r, header, hrow, hheader, hne, rfl⟩
    have hid : id ∈ ids := by
      by_contra hnot
      have hleft := hreach.rewrapped.mem_stale.mpr ⟨hmem, hnot⟩
      rw [hnil] at hleft
      cases hleft
    obtain ⟨kind, hkind, hready⟩ := hreach.ready id hid
    obtain ⟨r', header', hrow', hheader', -, rfl⟩ := Vault.mem_stale.mp hkind
    rw [hrow] at hrow'
    cases hrow'
    rw [hheader] at hheader'
    cases hheader'
    obtain ⟨header', hheader', hcolumn⟩ := kind_of_opened hopened hrow
    rw [hheader] at hheader'
    cases hheader'
    rw [hcolumn] at hready
    obtain ⟨hmodelled, hobject⟩ := (ready_iff_of_opened hopened hrow).mp hready
    exact ⟨hmodelled, lt_of_le_of_ne (hbehind id hid r header hrow hheader) hne, hobject⟩
  · intro hlags
    refine Vault.progresses_of_ready hP hencrypts hdraws hW hs hheaded ?_ ?_
    · intro stale hmem
      obtain ⟨id, kind⟩ := stale
      obtain ⟨r, header, hrow, hheader, hne, rfl⟩ := Vault.mem_stale.mp hmem
      obtain ⟨hmodelled, -, hobject⟩ := hlags id r header hrow hheader hne
      obtain ⟨header', hheader', hcolumn⟩ := kind_of_opened hopened hrow
      rw [hheader] at hheader'
      cases hheader'
      rw [hcolumn]
      exact (ready_iff_of_opened hopened hrow).mpr ⟨hmodelled, hobject⟩
    · intro id r header hrow hheader
      by_cases heq : header.epoch = v.epoch
      · exact heq.le
      · exact (hlags id r header hrow hheader heq).2.1.le

/-! ## Values for the worked instances -/

theorem Ambient.sample_draws (n : Byte) : (Ambient.sample n).Draws := fun _ _ => ⟨_, _, rfl⟩

/-- One item, and its row as device 1 sealed it at an epoch. -/
def Externals.rewrapping : Externals := .sample [.fresh 1 9 0 4] []

def StoredEnvelope.sealedAt (epoch : U32) : StoredEnvelope where
  itemId := (Item.fresh 1 9 0 4).id
  kind := .item
  seq := none
  version := none
  envelope := (RemoteChange.sample .rewrapping 1 epoch (.item (.fresh 1 9 0 4))).envelope
  hlcMax := (Item.fresh 1 9 0 4).maxHlc

/-- The settings, sealed at epoch 0. -/
def StoredEnvelope.settings : StoredEnvelope where
  itemId := ⟨ByteArr.repeated 16 7⟩
  kind := .settings
  seq := none
  version := none
  envelope := (sealEnvelope .sample .settings 0 ⟨ByteArr.repeated 16 7⟩ [] ⟨0, ByteArr.repeated 32 0⟩ (.sample 1)
    ((Ambient.sample 5).draw .settings ⟨ByteArr.repeated 16 7⟩)).toOption.getD []
  hlcMax := Hlc.early 0 4

/-- A store of one row, at epoch 1. -/
def MemoryStore.ofRow (r : StoredEnvelope) : MemoryStore := ⟨(Image.empty.setEpoch 1).put r, []⟩

/-- It opened as a vault. -/
abbrev OpensAs (r : StoredEnvelope) (v : Vault MemoryStore) : Prop :=
  Vault.open .rewrapping (.ofRow r) (ByteArr.repeated 32 0) (.sample 1) (.sample [1]) = .ok v

set_option maxRecDepth 20000 in
/-- A row behind the vault is brought up. -/
theorem rewrap_progresses_iff_behind : ∃ v, OpensAs (.sealedAt 0) v ∧
    v.Progresses .rewrapping (fun _ => .sample 5) 1 := by
  have hholds : (Vault.open .rewrapping (MemoryStore.ofRow (.sealedAt 0)) (ByteArr.repeated 32 0) (.sample 1)
      (.sample [1])).toOption.any (fun v => v.items.get (Item.fresh 1 9 0 4).id = some (.fresh 1 9 0 4)) = true := by
    decide +kernel
  obtain ⟨v, hopen, hget⟩ := exists_of_toOption_any hholds
  have hitem := of_decide_eq_true hget
  refine ⟨v, hopen, (rewrap_progresses_iff .rewrapping Primitives.sample_correct Primitives.sample_encrypts
    (fun _ => Ambient.sample_draws 5) MemoryStore.willing hopen trivial le_rfl).mpr ?_⟩
  have hopened := opened_of_open hopen
  have hepoch : v.epoch = 1 := hopened.epoch
  intro id r header hrow hheader _
  rw [hopened.view] at hrow
  have hrow' := (Image.rows_put (Image.empty.setEpoch 1) (.sealedAt 0) id).symm.trans hrow
  split at hrow'
  · next hid =>
    cases hrow'
    have hzero : (StoredEnvelope.sealedAt 0).header?.any (fun h => h.epoch = 0) = true := by decide +kernel
    rw [hheader] at hzero
    have hsmall : header.epoch = 0 := of_decide_eq_true hzero
    have hencode : (encodeItem (Externals.sample [.fresh 1 9 0 4] []).cbor (.fresh 1 9 0 4)).toOption.any
        (fun _ => true) = true := by decide +kernel
    obtain ⟨payload, hpayload, -⟩ := exists_of_toOption_any hencode
    refine ⟨.inl rfl, by rw [hsmall, hepoch]; decide, .item (.fresh 1 9 0 4), payload, hitem, hid, rfl, hpayload⟩
  · simp [Image.setEpoch, Image.empty] at hrow'

set_option maxRecDepth 20000 in
/-- A row of the settings from before a rotation stops every call, and a row ahead of the vault is taken back to the
vault's epoch. -/
theorem rewrap_stuck_and_back :
    (∃ v, OpensAs .settings v ∧ ∃ e w, Vault.rewrapToCurrentEpoch .rewrapping (.sample 5) 100 v = .error e w) ∧
    ∃ v, OpensAs (.sealedAt 2) v ∧ ∃ p w r header, Vault.rewrapToCurrentEpoch .rewrapping (.sample 5) 100 v = .ok p w ∧
      (view w.store).image.rows[(Item.fresh 1 9 0 4).id]? = some r ∧ r.header? = some header ∧
      (StoredEnvelope.sealedAt 2).header?.any (fun before => header.epoch < before.epoch) = true := by
  constructor
  · have hfails : (Vault.open .rewrapping (MemoryStore.ofRow .settings) (ByteArr.repeated 32 0) (.sample 1)
        (.sample [1])).toOption.any (fun v =>
          match Vault.rewrapToCurrentEpoch .rewrapping (.sample 5) 100 v with
          | .ok _ _ => false
          | .error _ _ => true) = true := by decide +kernel
    obtain ⟨v, hopen, hrun⟩ := exists_of_toOption_any hfails
    split at hrun
    · cases hrun
    · next e w heq => exact ⟨v, hopen, e, w, heq⟩
  · have hback : (Vault.open .rewrapping (MemoryStore.ofRow (.sealedAt 2)) (ByteArr.repeated 32 0) (.sample 1)
        (.sample [1])).toOption.any (fun v =>
          match Vault.rewrapToCurrentEpoch .rewrapping (.sample 5) 100 v with
          | .ok _ w => ((view w.store).image.rows[(Item.fresh 1 9 0 4).id]?.bind StoredEnvelope.header?).any
              (fun header => (StoredEnvelope.sealedAt 2).header?.any (fun before => header.epoch < before.epoch))
          | .error _ _ => false) = true := by decide +kernel
    obtain ⟨v, hopen, hrun⟩ := exists_of_toOption_any hback
    split at hrun
    · next p w heq =>
      obtain ⟨header, hheader, hlt⟩ := (Option.any_eq_true _ _).mp hrun
      obtain ⟨r, hrow, hheader⟩ := Option.bind_eq_some_iff.mp hheader
      exact ⟨v, hopen, p, w, r, header, heq, hrow, hheader, hlt⟩
    · cases hrun

end Misty
