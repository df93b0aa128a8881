import Misty.Vault.Capacity
import Misty.Vault.Clock
import Misty.Vault.Consistent
import Misty.Vault.Stamp

/- The clock of an open vault has seen every clock of what the vault holds
   (`Vault.Seen`), so the next reading it issues is later than all of them. A load and a
   merge bring clocks in and observe them, a local write brings in the reading it was
   stamped with, and nothing else adds a clock. -/
namespace Misty

/-! ## Observing -/

/-- A clock inside its window that has seen these clocks. -/
def HlcClock.Covers (c : HlcClock) (clocks : Set Hlc) : Prop :=
  Hlc.inWindow c.last.wallMs = true ∧ ∀ h ∈ clocks, c.Saw h

theorem HlcClock.Covers.mono {c c' : HlcClock} {clocks clocks' : Set Hlc} (h : c.Covers clocks) (hle : c.time ≤ c'.time)
    (hwindow : Hlc.inWindow c'.last.wallMs = true) (hsub : ∀ k ∈ clocks', k ∈ clocks) : c'.Covers clocks' :=
  ⟨hwindow, fun k hk => (h.2 k (hsub k hk)).mono hle⟩

theorem HlcClock.observeAll_eq (c : HlcClock) (hlcs : List Hlc) : c.observeAll hlcs = c.afterAll (hlcs.map .observe) := by
  unfold observeAll afterAll
  rw [List.foldl_map]
  rfl

theorem HlcClock.Covers.observeAll {c : HlcClock} {clocks clocks' : Set Hlc} {hlcs : List Hlc} (h : c.Covers clocks)
    (hnew : ∀ k ∈ clocks', k ∈ hlcs ∧ Hlc.inWindow k.wallMs = true ∨ k ∈ clocks) :
    (c.observeAll hlcs).Covers clocks' := by
  have hregular : Regular c.deviceId c := ⟨rfl, h.1⟩
  rw [observeAll_eq]
  refine ⟨(hregular.afterAll _).window, fun k hk => ?_⟩
  rcases hnew k hk with ⟨hmem, hw⟩ | hk
  · exact saw_of_observed _ (List.mem_map_of_mem hmem) hw
  · exact (h.2 k hk).mono (time_le_afterAll _ c)

/-! ## What comes in -/

/-- The clocks of an object are inside the window. -/
def Decoded.Windowed (o : Decoded) : Prop := ∀ k ∈ o.everyHlc, Hlc.inWindow k.wallMs = true

theorem Decoded.windowed_of_payload {C : Cbor} {kind : EnvelopeKind} {payload : Bytes} {o : Decoded}
    (h : decodePayload C kind payload = .ok o) : o.Windowed := by
  unfold decodePayload at h
  split at h
  · cases hx : decodeItem C payload with
    | error e =>
      rw [hx] at h
      cases h
    | ok x =>
      rw [hx] at h
      cases h
      exact (validate_eq_ok.mp (validate_of_decodeItem hx)).1.clocks_valid
  · cases hg : decodeGroup C payload with
    | error e =>
      rw [hg] at h
      cases h
    | ok g =>
      rw [hg] at h
      cases h
      obtain ⟨_, -, hclocks⟩ := bind_eq_ok.mp (validate_of_decodeGroup hg)
      exact checkHlcs_eq_ok.mp hclocks

theorem windowed_of_record {E : Externals} {vaultKey : ByteArr 32} {roster : Roster} {r : StoredEnvelope} {o : Decoded}
    (h : decodeRecord E vaultKey roster r = .ok (some o)) : o.Windowed := by
  cases decodeRecord_eq_ok.mp h with
  | object _ _ _ _ _ hobject _ _ => exact Decoded.windowed_of_payload hobject

theorem windowed_of_change {E : Externals} {vaultKey : ByteArr 32} {roster : Roster} {change : RemoteChange}
    {o : Decoded} (h : decodeChange E vaultKey roster change = .ok (some o)) : o.Windowed := by
  cases decodeChange_eq_ok.mp h with
  | object _ _ _ _ hobject _ => exact Decoded.windowed_of_payload hobject

/-! ## Loading -/

/-- The clock of a load has seen what was loaded. -/
def Loaded.Seen (l : Loaded) : Prop := l.hlc.Covers {k | ∃ o : Decoded, l.Holds o ∧ k ∈ o.everyHlc}

theorem Loaded.seen_start (device : DeviceId) : (start device).Seen := by
  refine ⟨(HlcClock.regular_new device).window, fun k hk => ?_⟩
  obtain ⟨o, ho, -⟩ := hk
  exact absurd ho (not_holds_start device o)

theorem Loaded.Seen.take {l l' : Loaded} {o : Decoded} (h : l.Seen) (ho : o.Windowed) (htake : l.take (some o) = .ok l') :
    l'.Seen := by
  have hall : l'.hlc = l.hlc.observeAll o.everyHlc ∧ ∀ o', l'.Holds o' → o' = o ∨ l.Holds o' := by
    cases o with
    | item x =>
      obtain ⟨items, hinsert, hret⟩ := bind_eq_ok.mp htake
      cases hret
      unfold ItemSet.insert at hinsert
      split at hinsert <;> cases hinsert
      refine ⟨rfl, fun o' ho' => ?_⟩
      cases o' with
      | item y => exact ((ItemSet.holds_replace _ _ _).mp ho').imp (congrArg _) (fun hy => hy.1)
      | group g => exact .inr ho'
    | group g =>
      cases htake
      refine ⟨rfl, fun o' ho' => ?_⟩
      cases o' with
      | item y => exact .inr ho'
      | group y => exact ((GroupMap.holds_insert _ _ _).mp ho').imp (congrArg _) (fun hy => hy.1)
  unfold Seen
  rw [hall.1]
  refine h.observeAll (fun k hk => ?_)
  obtain ⟨o', ho', hk⟩ := hk
  rcases hall.2 o' ho' with rfl | ho'
  · exact .inl ⟨hk, ho k hk⟩
  · exact .inr ⟨o', ho', hk⟩

theorem Loaded.Seen.records {E : Externals} {vaultKey : ByteArr 32} {roster : Roster} :
    ∀ {rows : List StoredEnvelope} {l l' : Loaded}, l.Seen → loadRecords E vaultKey roster rows l = .ok l' → l'.Seen
  | [], l, l', h, hload => by
    cases hload
    exact h
  | r :: rows, l, l', h, hload => by
    obtain ⟨o, ho, hload₁⟩ := bind_eq_ok.mp hload
    obtain ⟨l₁, htake, hrest⟩ := bind_eq_ok.mp hload₁
    refine records ?_ hrest
    cases o with
    | none =>
      cases htake
      exact h
    | some o => exact h.take (windowed_of_record ho) htake

/-! ## Merging -/

theorem Item.windowed_later {a b : Item} (ha : (Decoded.item a).Windowed) (hb : (Decoded.item b).Windowed) :
    (Decoded.item (a.later b)).Windowed := by
  intro k hk
  rcases Item.mem_everyHlc.mp hk with hk | hk
  · rcases fieldClocks_later hk with hk | hk
    · exact ha k (Item.mem_everyHlc.mpr (.inl hk))
    · exact hb k (Item.mem_everyHlc.mpr (.inl hk))
  · have hstone : stoneClock (mergeTombstone a.deleted b.deleted) = (k : WithBot Hlc) := hk
    rcases mergeTombstone_eq_or a.deleted b.deleted with hone | hone
    · exact ha k (Item.mem_everyHlc.mpr (.inr (hone ▸ hstone)))
    · exact hb k (Item.mem_everyHlc.mpr (.inr (hone ▸ hstone)))

theorem Group.windowed_later {a b : Group} (ha : (Decoded.group a).Windowed) (hb : (Decoded.group b).Windowed) :
    (Decoded.group (a.later b)).Windowed := by
  have hregister : ∀ {V : Type} [DecidableEq V] (r s : Lww V), Hlc.inWindow r.hlc.wallMs = true →
      Hlc.inWindow s.hlc.wallMs = true → Hlc.inWindow (r.later s).hlc.wallMs = true := by
    intro V _ r s hr hs
    rcases Lww.later_eq_or r s with h | h <;> rw [h] <;> assumption
  intro k hk
  rcases Group.mem_everyHlc.mp hk with rfl | rfl | rfl | hk
  · exact hregister _ _ (ha _ (Group.mem_everyHlc.mpr (.inl rfl))) (hb _ (Group.mem_everyHlc.mpr (.inl rfl)))
  · exact hregister _ _ (ha _ (Group.mem_everyHlc.mpr (.inr (.inl rfl)))) (hb _ (Group.mem_everyHlc.mpr (.inr (.inl rfl))))
  · exact hregister _ _ (ha _ (Group.mem_everyHlc.mpr (.inr (.inr (.inl rfl)))))
      (hb _ (Group.mem_everyHlc.mpr (.inr (.inr (.inl rfl)))))
  · have hstone : stoneClock (mergeTombstone a.deleted b.deleted) = (k : WithBot Hlc) := hk
    rcases mergeTombstone_eq_or a.deleted b.deleted with hone | hone
    · exact ha k (Group.mem_everyHlc.mpr (.inr (.inr (.inr (hone ▸ hstone)))))
    · exact hb k (Group.mem_everyHlc.mpr (.inr (.inr (.inr (hone ▸ hstone)))))

/-- The clocks of the copies are inside the window. -/
def Merging.Windowed (m : Merging) : Prop := ∀ o : Decoded, m.Holds o → o.Windowed

theorem Merging.Windowed.step {fork : ForkIds} {m m' : Merging} {o : Decoded} (h : m.Windowed) (ho : o.Windowed)
    (hstep : m.Step fork o m') : m'.Windowed := by
  cases hstep with
  | @item x ids items conflicts habs =>
    obtain ⟨t, habsorb, -⟩ := ItemSet.absorb_spec habs
    intro o' ho'
    cases o' with
    | group g => exact h (.group g) ho'
    | item y =>
      have hheld : ∀ (i : ItemId) (z : Item), m.items.items[i]? = some z → (Decoded.item z).Windowed := by
        intro i z hz
        have hid := m.items.keyed i z hz
        subst hid
        exact h (.item z) hz
      refine habsorb.keeps_forall (P := fun z => (Decoded.item z).Windowed) ?_ ?_ hheld ho y.id y ho'
      · exact fun z _ hz => hz
      · intro a b w hw ha hb
        rw [(Item.joined_eq_ok hw).2.2.2]
        exact Item.windowed_later ha hb
  | @group g w hid hw =>
    intro o' ho'
    cases o' with
    | item y => exact h (.item y) ho'
    | group y =>
      rcases (GroupMap.holds_insert _ _ _).mp ho' with rfl | hy
      · rcases hw with ⟨-, rfl⟩ | ⟨own, hown, hw⟩
        · exact ho
        · have hownid := GroupMap.id_of_get hown
          rw [← hownid] at hown
          rw [(Group.merge_eq_ok hw).2.2]
          exact Group.windowed_later (h (.group own) hown) ho
      · exact h (.group y) hy.1

/-! ## The vault -/

variable {S : Type}

/-- The clock of a vault has seen every clock of what it holds. -/
def Vault.Seen (v : Vault S) : Prop := v.hlc.Covers {k | ∃ o : Decoded, v.Holds o ∧ k ∈ o.everyHlc}

theorem Vault.Seen.windowed {v : Vault S} (h : v.Seen) {o : Decoded} (ho : v.Holds o) : o.Windowed :=
  fun k hk => (h.2 k ⟨o, ho, hk⟩).2

theorem Vault.Seen.of_holds {v w : Vault S} (h : v.Seen) (hle : v.hlc.time ≤ w.hlc.time)
    (hwindow : Hlc.inWindow w.hlc.last.wallMs = true) (hholds : ∀ o : Decoded, w.Holds o → v.Holds o) : w.Seen :=
  h.mono hle hwindow (fun _ hk => hk.imp fun o ho => ⟨hholds o ho.1, ho.2⟩)

variable [LawfulStore S] {E : Externals} {amb : Ambient}

theorem Vault.Seen.quiet {v w : Vault S} (h : v.Seen) (hq : Quiet v w) : w.Seen :=
  h.of_holds hq.time (hq.window h.1) fun o ho => (hq.holds_iff o).mp ho

theorem Wrote.seen {v w : Vault S} (h : v.Seen) (hw : Wrote v w) : w.Seen := by
  cases hw with
  | @refused u s hq hw =>
    subst hw
    exact (h.quiet hq).of_holds le_rfl (h.quiet hq).1 fun o ho => ho
  | @adopted u s o hq hs hw =>
    subst hw
    have hseen := h.quiet hq
    have hclock : (({ u with store := s } : Vault S).adopt o).hlc = u.hlc := by
      cases o <;> rfl
    unfold Vault.Seen
    rw [hclock]
    refine ⟨hseen.1, fun k hk => ?_⟩
    obtain ⟨o', ho', hk⟩ := hk
    rcases Vault.holds_of_adopt ho' with rfl | ho'
    · have hold : ∀ {y : Decoded}, v.Holds y → k ∈ y.everyHlc → u.hlc.Saw k :=
        fun hy hk => (h.2 k ⟨_, hy, hk⟩).mono hq.time
      cases hs with
      | made ht _ hnew => exact hnew k hk ▸ (ht h.1).2
      | written hy _ _ ht hclocks =>
        rcases hclocks.mem k hk with rfl | hk
        · exact (ht h.1).2
        · exact hold hy hk
      | kept hy _ _ hclocks => exact hold hy (hclocks ▸ hk)
    · exact hseen.2 k ⟨o', ho', hk⟩

/-- A merge observes the clocks of everything it touched. -/
theorem Vault.Seen.merged {v u w : Vault S} (h : v.Seen) (hq : Quiet v u) {changes : List RemoteChange}
    {decoded : List (RemoteChange × Decoded)} {ignored : Nat} {m : Merging} {rows : List (Decoded × StoredEnvelope)}
    (hdec : decodeChanges E v.vaultKey v.roster changes = .ok (decoded, ignored))
    (hm : mergeDecoded (vaultForkIds E v.vaultKey) decoded ⟨v.items, v.groups, [], [], []⟩ = .ok m)
    (hrows : List.Forall₂ (Recorded E amb v decoded m) m.touched rows)
    (hsettled : Settled ⟨rows.map (fun p => .put p.2), Vault.adoptMerge m (rows.map Prod.fst)⟩ u w) : w.Seen := by
  obtain ⟨s, -, -, rfl⟩ := hsettled
  -- what was decoded passed the window check, and merging makes up no clock
  have hwindowed : m.Windowed := by
    refine mergeDecoded_induct (P := Merging.Windowed) decoded _ m ?_ ?_ hm
    · intro p hp m₁ m₂ hm₁ hmerge
      exact hm₁.step (windowed_of_change (mem_of_decodeChanges hdec p hp).2) (Merging.step_of_merge hmerge)
    · intro o ho
      have hheld : v.Holds o := by
        cases o <;> exact ho
      exact h.windowed hheld
  have hwithin := Merging.within_of_mergeDecoded hm
  have hclock : (Vault.adoptMerge m (rows.map Prod.fst) { u with store := s }).hlc =
      u.hlc.observeAll ((rows.map Prod.fst).flatMap Decoded.everyHlc) := by
    unfold HlcClock.observeAll
    rw [List.foldl_flatMap]
    rfl
  unfold Vault.Seen
  rw [hclock]
  refine (h.quiet hq).observeAll (fun k hk => ?_)
  obtain ⟨o, ho, hk⟩ := hk
  have hheld : m.Holds o := by
    cases o <;> exact ho
  by_cases htouched : .ok o ∈ m.touched
  · -- a touched object has a row, and is observed with it
    obtain ⟨p, hp, hrec⟩ := Merging.exists_of_forall₂ hrows _ htouched
    have hpo : p.1 = o := by
      cases hrec <;> rfl
    refine .inl ⟨List.mem_flatMap.mpr ⟨o, List.mem_map.mpr ⟨p, hp, hpo⟩, hk⟩, hwindowed o hheld k hk⟩
  · refine .inr ⟨o, (hq.holds_iff o).mpr ?_, hk⟩
    rw [Merging.mem_touched] at htouched
    cases o with
    | item x =>
      have hx : m.items.get x.id = some x := hheld
      rwa [hwithin.sameItems x.id fun hid => htouched ⟨hheld, hid⟩] at hx
    | group g =>
      have hg : m.groups.get g.id = some g := hheld
      rwa [hwithin.sameGroups g.id fun hid => htouched ⟨hheld, hid⟩] at hg

theorem Move.seen {op : Op} {v w : Vault S} (hop : ∀ objectOp, ¬ op.Commits objectOp) (h : v.Seen)
    (hmove : Move E amb op v w) : w.Seen := by
  cases hmove with
  | quiet hq => exact h.quiet hq
  | @settled u staged hq hp hsettled =>
    cases hp with
    | object hcommits _ _ => exact absurd hcommits (hop _)
    | purged hstaged =>
      cases hstaged
      obtain ⟨s, -, -, rfl⟩ := hsettled
      refine (h.quiet hq).of_holds le_rfl (h.quiet hq).1 fun o ho => ?_
      cases o with
      | item x =>
        have hx : (List.foldl ItemSet.purge u.items _).get x.id = some x := ho
        rw [ItemSet.get_purges] at hx
        split at hx
        · cases hx
        · exact hx
      | group g =>
        have hg : (List.foldl GroupMap.remove u.groups _).get g.id = some g := ho
        rw [GroupMap.get_removes] at hg
        split at hg
        · cases hg
        · exact hg
    | merged hdec hm hrows => exact h.merged hq hdec hm hrows hsettled
    | rewrapped _ _ =>
      obtain ⟨s, -, -, rfl⟩ := hsettled
      exact (h.quiet hq).of_holds le_rfl (h.quiet hq).1 fun o ho => ho
  | rotated _ _ _ _ hw =>
    subst hw
    exact h.of_holds le_rfl h.1 fun o ho => ho
  | torn hq _ hw =>
    subst hw
    exact (h.quiet hq).of_holds le_rfl (h.quiet hq).1 fun o ho => ho

theorem Op.seen (op : Op) {v : Vault S} (h : v.Seen) : (stateAfter (op.run E amb) v).Seen := by
  have hmoves : (∀ objectOp, ¬ op.Commits objectOp) → (stateAfter (op.run E amb) v).Seen := by
    intro hop
    exact op.run_induct (P := Vault.Seen) h fun u w hu _ hmove => hmove.seen hop hu
  cases op with
  | atomic op =>
    cases op with
    | object op =>
      apply Meets.stateAfter
      apply (op.wrote v).mono
      · exact fun _ w hw => hw.seen h
      · exact fun _ w hw => hw.seen h
    | purgeTombstones | mergeRemote _ =>
      refine hmoves fun objectOp hcommits => ?_
      cases hcommits
  | sweepTrash =>
    apply Meets.stateAfter
    apply Meets.bind
    apply (sweep_induct (P := Vault.Seen) (fun _ _ hu hw => hw.seen hu) h).mono
    · exact fun _ w hw => Meets.pure hw
    · exact fun _ w hw => hw
  | rotateEpoch | rewrapToCurrentEpoch _ =>
    refine hmoves fun objectOp hcommits => ?_
    cases hcommits

theorem Vault.Seen.of_opened {store : S} {vaultKey : ByteArr 32} {device : DeviceIdentity} {roster : Roster}
    {v : Vault S} (h : Opened E store vaultKey device roster v) : v.Seen := by
  have hloaded : Loaded.Seen ⟨v.hlc, v.items, v.groups⟩ := (Loaded.seen_start _).records h.load
  refine ⟨hloaded.1, fun k hk => hloaded.2 k ?_⟩
  obtain ⟨o, ho, hk⟩ := hk
  exact ⟨o, (v.holds_iff v.hlc o).mp ho, hk⟩

/-- After any run of operations, whatever failed in it, the clock has seen every clock of what the vault holds. -/
theorem Reached.seen {Cond : Ambient → Op → Vault S → Prop} {v : Vault S} (h : Reached E Cond v) : v.Seen := by
  induction h with
  | opened hopen _ => exact .of_opened (opened_of_open hopen)
  | @step v amb op _ _ ih => exact op.seen ih

end Misty
