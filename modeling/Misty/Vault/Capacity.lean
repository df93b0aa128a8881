import Misty.Vault.Union
import Misty.Vault.Codec
import Mathlib.Tactic.DeriveCountable

/- What the limits leave room for. Versions that are each valid merge to one that is
   (`Sound.later`): a register, a clock or an element of the merge is that of a
   version, and the counts add up to what the decoder accepts. The one limit that a
   merge can pass is the length of the whole payload, which no bound on the parts
   implies. -/
namespace Misty

open Std (ExtTreeMap)

/-! ## Validity, field by field -/

/-- `Hlc::new` accepts the clock. -/
def Hlc.Valid (self : Hlc) : Prop := Hlc.inWindow self.wallMs = true

/-- What `validate` asks of the value of a register. -/
def Register.Valid : (r : Register) → r.Value → Prop
  | .issuer, (value : Text) => checkRequiredLabel "issuer" value MAX_ISSUER_LEN = .ok ()
  | .account, (value : Text) => checkRequiredLabel "account" value MAX_ACCOUNT_LEN = .ok ()
  | .nickname, (value : Option Text) =>
    checkSome (fun nickname => checkRequiredLabel "nickname" nickname MAX_NICKNAME_LEN) value = .ok ()
  | .note, (value : Option Text) => checkSome (fun note => checkProse "note" note MAX_NOTE_LEN) value = .ok ()
  | .icon, (value : IconRef) => value.validate = .ok ()
  | .digits, (value : Byte) => checkDigits value = .ok value
  | .period, (value : U16) => checkPeriod value = .ok value
  | _, _ => True

/-- The clocks of an element are valid. -/
def OrSetEntry.Valid (self : OrSetEntry) : Prop := ∀ h ∈ self.added :: self.removed.toList, h.Valid

/-- The elements of a set are valid, and so are their clocks. -/
def OrSet.Valid {T : Type} [LinearOrder T] (label : T → Prop) (self : OrSet T) : Prop :=
  ∀ (k : T) (e : OrSetEntry), self.entries[k]? = some e → label k ∧ e.Valid

/-- All that `validate` asks but the counts. -/
structure Item.Sound (x : Item) : Prop where
  registers : ∀ r, r.Valid (x.register r).value ∧ (x.register r).hlc.Valid
  groups : x.groups.Valid (fun _ => True)
  tags : x.tags.Valid (fun tag => checkRequiredLabel "tags" tag MAX_TAG_LEN = .ok ())
  origins : x.origins.Valid (fun origin => checkRequiredLabel "origins" origin MAX_ORIGIN_LEN = .ok ())
  deleted : ∀ t, x.deleted = some t → t.hlc.Valid
  secret : x.secret.checkLen = .ok ()

/-- The counts `validate` bounds. -/
structure Item.Within (max devices : Nat) (x : Item) : Prop where
  tags : x.tags.storedLen ≤ max
  origins : x.origins.storedLen ≤ max
  groups : x.groups.storedLen ≤ max
  usage : x.usage.len ≤ devices

theorem checkHlcs_eq_ok : ∀ {hlcs : List Hlc}, checkHlcs hlcs = .ok () ↔ ∀ h ∈ hlcs, h.Valid
  | [] => by simp [checkHlcs]
  | h :: rest => by
    have hnew : (∃ a, Hlc.new h.wallMs h.counter h.deviceId = .ok a) ↔ h.Valid := by
      unfold Hlc.new Hlc.Valid
      split
      · next hw => simp [hw]
      · next hw => simp [hw]
    unfold checkHlcs
    rw [bind_eq_ok, List.forall_mem_cons, ← hnew]
    constructor
    · intro hok
      obtain ⟨a, ha, hrest⟩ := hok
      exact ⟨⟨a, ha⟩, checkHlcs_eq_ok.mp hrest⟩
    · intro hok
      obtain ⟨⟨a, ha⟩, hrest⟩ := hok
      exact ⟨a, ha, checkHlcs_eq_ok.mpr hrest⟩

theorem checkLabels_eq_ok {field : String} {max : Nat} : ∀ {labels : List Text},
    checkLabels field max labels = .ok () ↔ ∀ label ∈ labels, checkRequiredLabel field label max = .ok ()
  | [] => by simp [checkLabels]
  | label :: rest => by
    unfold checkLabels
    rw [bind_eq_ok, List.forall_mem_cons, ← checkLabels_eq_ok]
    constructor
    · intro h
      obtain ⟨_, hlabel, hrest⟩ := h
      exact ⟨hlabel, hrest⟩
    · intro h
      exact ⟨(), h.1, h.2⟩

theorem checkDigits_eq_ok {digits d : Byte} (h : checkDigits digits = .ok d) : d = digits := by
  unfold checkDigits at h
  split at h <;> cases h
  rfl

theorem checkPeriod_eq_ok {period p : U16} (h : checkPeriod period = .ok p) : p = period := by
  unfold checkPeriod at h
  split at h <;> cases h
  rfl

theorem otp_eq_ok {x : Item} : (∃ config, liftOtp x.otp = .ok config) ↔
    x.secret.checkLen = .ok () ∧ checkDigits x.digits.value = .ok x.digits.value ∧
      checkPeriod x.period.value = .ok x.period.value := by
  constructor
  · intro h
    obtain ⟨config, h⟩ := h
    have hbuild := mapError_eq_ok.mp h
    obtain ⟨_, hsecret, h₁⟩ := bind_eq_ok.mp hbuild
    obtain ⟨d, hdigits, h₂⟩ := bind_eq_ok.mp h₁
    obtain ⟨p, hperiod, -⟩ := bind_eq_ok.mp h₂
    have hd : checkDigits x.digits.value = .ok d := hdigits
    have hp : checkPeriod x.period.value = .ok p := hperiod
    refine ⟨hsecret, ?_, ?_⟩
    · rw [hd, checkDigits_eq_ok hd]
    · rw [hp, checkPeriod_eq_ok hp]
  · intro h
    obtain ⟨hsecret, hdigits, hperiod⟩ := h
    have hbuild : ∃ config, x.otp = .ok config := by
      unfold Item.otp OtpConfigBuilder.build
      simp only [hsecret, hdigits, hperiod, bind, Except.bind]
      exact ⟨_, rfl⟩
    obtain ⟨config, hconfig⟩ := hbuild
    exact ⟨config, mapError_eq_ok.mpr hconfig⟩

theorem setHlcs_valid {T : Type} [LinearOrder T] {s : OrSet T} :
    (∀ h ∈ Item.setHlcs s, h.Valid) ↔ ∀ (k : T) (e : OrSetEntry), s.entries[k]? = some e → e.Valid := by
  unfold Item.setHlcs
  simp only [List.mem_flatMap, forall_exists_index, and_imp]
  constructor
  · intro h k e hget hlc hmem
    exact h hlc (k, e) (OrdMap.mem_toList.mpr hget) hmem
  · intro h hlc p hp hmem
    exact h p.1 p.2 (OrdMap.mem_toList.mp hp) hlc hmem

theorem registerHlcs_valid {x : Item} : (∀ h ∈ x.registerHlcs, h.Valid) ↔ ∀ r, (x.register r).hlc.Valid := by
  simp only [Item.registerHlcs, List.forall_mem_cons, List.not_mem_nil, false_imp_iff, implies_true, and_true]
  constructor
  · intro h r
    obtain ⟨h₁, h₂, h₃, h₄, h₅, h₆, h₇, h₈, h₉, h₁₀, h₁₁, h₁₂, h₁₃, h₁₄, h₁₅, h₁₆, h₁₇⟩ := h
    cases r <;> assumption
  · intro h
    exact ⟨h .kind, h .algorithm, h .digits, h .period, h .pin, h .issuer, h .account, h .nickname, h .note,
      h .icon, h .color, h .favorite, h .manualOrder, h .archived, h .hidden, h .requiresRevealAuth, h .trashedAt⟩

theorem Item.Sound.clocks_valid {x : Item} (hx : x.Sound) : ∀ h ∈ x.everyHlc, h.Valid := by
  simp only [Item.everyHlc, List.forall_mem_append]
  refine ⟨⟨⟨⟨registerHlcs_valid.mpr fun r => (hx.registers r).2, ?_⟩, ?_⟩, ?_⟩, ?_⟩
  · exact setHlcs_valid.mpr fun k e hget => (hx.groups k e hget).2
  · exact setHlcs_valid.mpr fun k e hget => (hx.tags k e hget).2
  · exact setHlcs_valid.mpr fun k e hget => (hx.origins k e hget).2
  · intro hlc hmem
    cases hd : x.deleted with
    | none => simp [hd] at hmem
    | some t =>
      simp only [hd, Option.toList_some, List.map_cons, List.map_nil, List.mem_singleton] at hmem
      rw [hmem]
      exact hx.deleted t hd

theorem validate_eq_ok {x : Item} :
    x.validate = .ok () ↔ x.Sound ∧ x.Within MAX_DECODED_SET_ENTRIES MAX_USAGE_DEVICES := by
  constructor
  · intro h
    obtain ⟨husage, hgroups, htags, horigins⟩ := Item.counts_of_validate h
    refine ⟨?_, htags, horigins, hgroups, husage⟩
    -- the checks in the order the code makes them
    unfold Item.validate at h
    obtain ⟨_, hissuer, h₁⟩ := bind_eq_ok.mp h
    obtain ⟨_, haccount, h₂⟩ := bind_eq_ok.mp h₁
    obtain ⟨_, hnickname, h₃⟩ := bind_eq_ok.mp h₂
    obtain ⟨_, hnote, h₄⟩ := bind_eq_ok.mp h₃
    obtain ⟨_, hicon, h₅⟩ := bind_eq_ok.mp h₄
    obtain ⟨_, -, h₆⟩ := bind_eq_ok.mp h₅
    obtain ⟨_, -, h₇⟩ := bind_eq_ok.mp h₆
    obtain ⟨_, -, h₈⟩ := bind_eq_ok.mp h₇
    obtain ⟨_, htagLabels, h₉⟩ := bind_eq_ok.mp h₈
    obtain ⟨_, horiginLabels, h₁₀⟩ := bind_eq_ok.mp h₉
    rw [if_neg (not_lt.mpr husage)] at h₁₀
    obtain ⟨_, hhlcs, h₁₁⟩ := bind_eq_ok.mp h₁₀
    obtain ⟨config, hotp, -⟩ := bind_eq_ok.mp h₁₁
    have hclocks := checkHlcs_eq_ok.mp hhlcs
    simp only [Item.everyHlc, List.forall_mem_append] at hclocks
    obtain ⟨⟨⟨⟨hregisters, hgroupHlcs⟩, htagHlcs⟩, horiginHlcs⟩, hstone⟩ := hclocks
    obtain ⟨hsecret, hdigits, hperiod⟩ := otp_eq_ok.mp ⟨config, hotp⟩
    refine ⟨?_, ?_, ?_, ?_, ?_, hsecret⟩
    · intro r
      refine ⟨?_, registerHlcs_valid.mp hregisters r⟩
      cases r with
      | issuer => exact hissuer
      | account => exact haccount
      | nickname => exact hnickname
      | note => exact hnote
      | icon => exact hicon
      | digits => exact hdigits
      | period => exact hperiod
      | kind | algorithm | pin | color | favorite | manualOrder | archived | hidden | requiresRevealAuth | trashedAt =>
        trivial
    · intro k e hget
      exact ⟨trivial, setHlcs_valid.mp hgroupHlcs k e hget⟩
    · intro k e hget
      exact ⟨checkLabels_eq_ok.mp htagLabels k (OrdMap.mem_keys.mpr ⟨e, hget⟩), setHlcs_valid.mp htagHlcs k e hget⟩
    · intro k e hget
      exact ⟨checkLabels_eq_ok.mp horiginLabels k (OrdMap.mem_keys.mpr ⟨e, hget⟩),
        setHlcs_valid.mp horiginHlcs k e hget⟩
    · intro t ht
      exact hstone t.hlc (by simp [ht])
  · intro h
    obtain ⟨⟨hregisters, hgroups, htags, horigins, hdeleted, hsecret⟩, htagLen, horiginLen, hgroupLen, husage⟩ := h
    -- the other way: each check on its own passes, so they all do
    have hlabels : ∀ {field : String} {max : Nat} {s : OrSet Text},
        s.Valid (fun label => checkRequiredLabel field label max = .ok ()) → checkLabels field max s.entries.keys = .ok () := by
      intro field max s hs
      refine checkLabels_eq_ok.mpr fun label hlabel => ?_
      obtain ⟨e, hget⟩ := OrdMap.mem_keys.mp hlabel
      exact (hs label e hget).1
    have hclocks : checkHlcs x.everyHlc = .ok () :=
      checkHlcs_eq_ok.mpr (Item.Sound.clocks_valid ⟨hregisters, hgroups, htags, horigins, hdeleted, hsecret⟩)
    have hlen : ∀ {field : String} {found : Nat}, found ≤ MAX_DECODED_SET_ENTRIES → checkSetLen field found = .ok () :=
      checkSetLen_eq_ok.mpr
    obtain ⟨config, hotp⟩ := otp_eq_ok.mpr ⟨hsecret, (hregisters .digits).1, (hregisters .period).1⟩
    have hissuer : checkRequiredLabel "issuer" x.issuer.value MAX_ISSUER_LEN = .ok () := (hregisters .issuer).1
    have haccount : checkRequiredLabel "account" x.account.value MAX_ACCOUNT_LEN = .ok () := (hregisters .account).1
    have hnickname : checkSome (fun nickname => checkRequiredLabel "nickname" nickname MAX_NICKNAME_LEN)
        x.nickname.value = .ok () := (hregisters .nickname).1
    have hnote : checkSome (fun note => checkProse "note" note MAX_NOTE_LEN) x.note.value = .ok () :=
      (hregisters .note).1
    have hicon : x.icon.value.validate = .ok () := (hregisters .icon).1
    simp only [Item.validate, hissuer, haccount, hnickname, hnote, hicon, hlen htagLen, hlen horiginLen,
      hlen hgroupLen, hlabels htags, hlabels horigins,
      if_neg (not_lt.mpr husage), hclocks, hotp, bind, Except.bind, pure, Except.pure]

/-! ## What a merge keeps -/

theorem OrSetEntry.Valid.merge {e f : OrSetEntry} (he : e.Valid) (hf : f.Valid) : (e.merge f).Valid := by
  have hmax : ∀ {a b : WithBot Hlc}, (∀ h ∈ a.toList, h.Valid) → (∀ h ∈ b.toList, h.Valid) →
      ∀ h ∈ (if a < b then b else a).toList, h.Valid := by
    intro a b ha hb
    split
    · exact hb
    · exact ha
  unfold OrSetEntry.Valid at *
  rw [List.forall_mem_cons] at *
  refine ⟨?_, hmax he.2 hf.2⟩
  unfold OrSetEntry.merge
  dsimp only
  split
  · exact hf.1
  · exact he.1

theorem OrSet.Valid.merge {T : Type} [LinearOrder T] {label : T → Prop} {a b : OrSet T} (ha : a.Valid label)
    (hb : b.Valid label) : (a.merge b).Valid label := by
  intro k e hget
  unfold OrSet.merge at hget
  rw [OrdMap.getElem?_joinWith] at hget
  rcases OrdMap.meet_eq_some hget with h | h | ⟨f, g, hf, hg, rfl⟩
  · exact ha k e h
  · exact hb k e h
  · exact ⟨(ha k f hf).1, (ha k f hf).2.merge (hb k g hg).2⟩

theorem OrSet.storedLen_merge_le {T : Type} [LinearOrder T] (a b : OrSet T) :
    (a.merge b).storedLen ≤ a.storedLen + b.storedLen :=
  OrdMap.size_joinWith_le ..

theorem UsageCounter.len_merge_le (a b : UsageCounter) : (a.merge b).len ≤ a.len + b.len :=
  OrdMap.size_joinWith_le ..

namespace Item

theorem Sound.later {x y : Item} (hx : x.Sound) (hy : y.Sound) : (x.later y).Sound where
  registers r := by
    rw [register_later]
    rcases Lww.later_eq_or (x.register r) (y.register r) with h | h
    · rw [h]
      exact hx.registers r
    · rw [h]
      exact hy.registers r
  groups := hx.groups.merge hy.groups
  tags := hx.tags.merge hy.tags
  origins := hx.origins.merge hy.origins
  deleted t ht := by
    rcases mergeTombstone_eq_or x.deleted y.deleted with h | h
    · exact hx.deleted t (h.symm.trans ht)
    · exact hy.deleted t (h.symm.trans ht)
  secret := hx.secret

theorem Within.later {x y : Item} {m n d e : Nat} (hx : x.Within m d) (hy : y.Within n e) :
    (x.later y).Within (m + n) (d + e) where
  tags := (OrSet.storedLen_merge_le ..).trans (Nat.add_le_add hx.tags hy.tags)
  origins := (OrSet.storedLen_merge_le ..).trans (Nat.add_le_add hx.origins hy.origins)
  groups := (OrSet.storedLen_merge_le ..).trans (Nat.add_le_add hx.groups hy.groups)
  usage := (UsageCounter.len_merge_le ..).trans (Nat.add_le_add hx.usage hy.usage)

theorem Within.mono {x : Item} {m n d e : Nat} (h : x.Within m d) (hm : m ≤ n) (hd : d ≤ e) : x.Within n e :=
  ⟨h.tags.trans hm, h.origins.trans hm, h.groups.trans hm, h.usage.trans hd⟩

end Item

/-! ## Families -/

/-- At most 32 versions of one item as its writers may leave them: each valid and within what
this device's own API adds, and no two of them with a clock that stands for two values. -/
structure VersionFamily (family : List Item) : Prop where
  count : family.length ≤ 32
  same : ∀ x ∈ family, ∀ y ∈ family, x.id = y.id ∧ x.secret = y.secret
  mergeable : ∀ x ∈ family, ∀ y ∈ family, ∀ field, x.joined y ≠ .error (.clockCollision field)
  valid : ∀ x ∈ family, x.validate = .ok ()
  within : ∀ x ∈ family, x.Within MAX_SET_ENTRIES 8

namespace VersionFamily

variable {family : List Item} (h : VersionFamily family)
include h

theorem agrees : ∀ x ∈ family, ∀ y ∈ family, x.Agrees y := by
  intro x hx y hy
  obtain ⟨hid, hsecret⟩ := h.same x hx y hy
  rcases Item.joined_outcome hid hsecret with ⟨hagree, -⟩ | ⟨r, -, herr⟩
  · exact hagree
  · exact absurd herr (h.mergeable x hx y hy r.name)

/-- MergeTree any of the versions in any order goes through: every register met on the way is one
of theirs. -/
theorem run_ok : ∀ t : MergeTree, t.leaves ⊆ family → ∃ w, t.run = .ok w ∧ w.UnionOf t.leaves ∧ w.Sound ∧
    w.Within (t.leaves.length * MAX_SET_ENTRIES) (t.leaves.length * 8)
  | .version x, hsub => by
    have hx : x ∈ family := hsub (by simp [MergeTree.leaves])
    refine ⟨x, rfl, .single x, (validate_eq_ok.mp (h.valid x hx)).1, ?_⟩
    simpa [MergeTree.leaves] using h.within x hx
  | .merge l r, hsub => by
    obtain ⟨hl, hr⟩ := List.append_subset.mp hsub
    obtain ⟨a, hla, haUnion, haSound, haWithin⟩ := run_ok l hl
    obtain ⟨b, hrb, hbUnion, hbSound, hbWithin⟩ := run_ok r hr
    obtain ⟨x, hx, -⟩ := haUnion.deleted.1
    obtain ⟨y, hy, -⟩ := hbUnion.deleted.1
    obtain ⟨hid, hsecret⟩ := h.same x (hl hx) y (hr hy)
    rw [(haUnion.same x hx).1, (hbUnion.same y hy).1] at hid
    rw [(haUnion.same x hx).2, (hbUnion.same y hy).2] at hsecret
    have hagree : a.Agrees b := by
      intro k
      obtain ⟨x', hx', hkx⟩ := (haUnion.register k).1
      obtain ⟨y', hy', hky⟩ := (hbUnion.register k).1
      rw [hkx, hky]
      exact h.agrees x' (hl hx') y' (hr hy') k
    refine ⟨a.later b, ?_, haUnion.later hbUnion hid hsecret, haSound.later hbSound, ?_⟩
    · simp only [MergeTree.run, hla, hrb, bind, Except.bind]
      rcases Item.joined_outcome hid hsecret with ⟨-, hok⟩ | ⟨k, hk, -⟩
      · exact hok
      · exact absurd (hagree k) hk
    · simpa only [MergeTree.leaves, List.length_append, Nat.add_mul] using haWithin.later hbWithin

/-- The merge of the whole family is its union, and it is valid: 32 versions fill what the
decoder accepts. -/
theorem run_valid {t : MergeTree} (ht : t.leaves.Perm family) :
    ∃ w, t.run = .ok w ∧ w.UnionOf family ∧ w.validate = .ok () := by
  obtain ⟨w, hrun, hunion, hsound, hwithin⟩ := h.run_ok t ht.subset
  have hlen : t.leaves.length ≤ 32 := ht.length_eq ▸ h.count
  refine ⟨w, hrun, hunion.perm ht, validate_eq_ok.mpr ⟨hsound, hwithin.mono ?_ ?_⟩⟩
  · exact Nat.mul_le_mul_right _ hlen
  · exact Nat.mul_le_mul_right 8 hlen

/-- Every union of the family is what some order of merging ends with: on a tie of the
tombstones, the version whose tombstone it holds goes first. -/
theorem reached {w : Item} (hw : w.UnionOf family) : ∃ t : MergeTree, t.leaves.Perm family ∧ t.run = .ok w := by
  obtain ⟨⟨x, hx, hstone⟩, hlatest⟩ := hw.deleted
  have hperm : (MergeTree.chain x (family.erase x)).leaves.Perm family := by
    rw [MergeTree.leaves_chain]
    exact (List.perm_cons_erase hx).symm
  obtain ⟨v, hrun, hunion, -⟩ := h.run_valid hperm
  obtain ⟨a, ha, hkeep⟩ := MergeTree.deleted_foldl _ _ _ hrun
  cases ha
  have hdeleted : v.deleted = x.deleted := by
    refine hkeep fun y hy => ?_
    rw [← hstone]
    exact hlatest y (List.mem_of_mem_erase hy)
  rw [← hunion.unique h.agrees hw (hdeleted.trans hstone.symm)]
  exact ⟨_, hperm, hrun⟩

end VersionFamily

/-- CBOR writes the item in what a payload may take. -/
def Item.Fits (C : Cbor) (x : Item) : Prop :=
  ∃ payload, C.writeItem (ItemWire.fromItem x) = .ok payload ∧ payload.length ≤ MAX_ITEM_PAYLOAD_LEN

theorem encodeItem_eq_ok {C : Cbor} {x : Item} (hvalid : x.validate = .ok ()) :
    (∃ payload, encodeItem C x = .ok payload) ↔ x.Fits C := by
  unfold encodeItem Item.Fits
  simp only [hvalid, bind_eq_ok, cborError, mapError_eq_ok, checkPayloadLen_eq_ok]
  constructor
  · intro h
    obtain ⟨_, _, -, payload, hwrite, _, hlen, -⟩ := h
    exact ⟨payload, hwrite, hlen⟩
  · intro h
    obtain ⟨payload, hwrite, hlen⟩ := h
    exact ⟨payload, (), trivial, payload, hwrite, (), hlen, rfl⟩

/-- The family merges in every order to a valid item that can be stored and read back. -/
def RoomFor (C : Cbor) (family : List Item) : Prop :=
  ∀ t : MergeTree, t.leaves.Perm family → ∃ w payload, t.run = .ok w ∧ w.validate = .ok () ∧
    encodeItem C w = .ok payload ∧ decodeItem C payload = .ok w

/-- The limits leave room for the merge of a family exactly when CBOR writes its union in at most
`MAX_ITEM_PAYLOAD_LEN` bytes: every other limit holds of the union by itself. -/
theorem room_for_merge_iff {C : Cbor} (hC : C.Faithful) {family : List Item} (h : VersionFamily family) :
    RoomFor C family ↔ ∀ w : Item, w.UnionOf family → w.Fits C := by
  constructor
  · intro hroom w hw
    obtain ⟨t, hperm, hrun⟩ := h.reached hw
    obtain ⟨v, payload, hv, hvalid, hencode, -⟩ := hroom t hperm
    cases hrun.symm.trans hv
    exact (encodeItem_eq_ok hvalid).mp ⟨payload, hencode⟩
  · intro hfits t hperm
    obtain ⟨w, hrun, hunion, hvalid⟩ := h.run_valid hperm
    obtain ⟨payload, hencode⟩ := (encodeItem_eq_ok hvalid).mpr (hfits w hunion)
    exact ⟨w, payload, hrun, hvalid, hencode, decodeItem_encodeItem hC hencode⟩

/-- Two versions of a fresh item, written by two devices. -/
def smallFamily : List Item := [Item.fresh 1 9 0 4, Item.fresh 1 9 1 5]

theorem family_small : VersionFamily smallFamily := by
  have hwithin : ∀ x ∈ smallFamily, x.Within MAX_SET_ENTRIES 8 := by
    simp only [smallFamily, List.forall_mem_cons, List.not_mem_nil, false_imp_iff, implies_true, and_true]
    exact ⟨⟨by decide, by decide, by decide, by decide⟩, ⟨by decide, by decide, by decide, by decide⟩⟩
  refine ⟨by decide, by decide, ?_, by decide, hwithin⟩
  have hok : ∀ x ∈ smallFamily, ∀ y ∈ smallFamily, (x.joined y).isOk = true := by decide
  intro x hx y hy field herr
  have hfalse := hok x hx y hy
  rw [herr] at hfalse
  cases hfalse

/-- The two versions merged, and written in one byte. -/
theorem room_for_merge_small :
    RoomFor (Cbor.table [.fromItem (Item.fresh 1 9 1 5)] []) smallFamily := by
  refine (room_for_merge_iff (Cbor.table_faithful _ _) family_small).mpr ?_
  intro w hw
  have hjoined : (Item.fresh 1 9 0 4).joined (Item.fresh 1 9 1 5) = .ok (Item.fresh 1 9 1 5) := by decide
  obtain ⟨v, hrun, hunion, -⟩ := family_small.run_valid (t := .merge (.version (Item.fresh 1 9 0 4))
    (.version (Item.fresh 1 9 1 5))) (.refl _)
  have hv : v = Item.fresh 1 9 1 5 := Except.ok.inj (hrun.symm.trans hjoined)
  have hdeleted : v.deleted = w.deleted := by
    obtain ⟨x, hx, hd⟩ := hw.deleted.1
    have hnone : ∀ x ∈ smallFamily, x.deleted = none := by decide
    rw [hv, hd, hnone x hx]
    rfl
  rw [← hunion.unique family_small.agrees hw hdeleted, hv]
  exact ⟨[ITEM_FORMAT_VERSION], by decide, by decide⟩

/-! ## A family there is no room for -/

/-- The bytes of text in a set on the wire. -/
def setTextLen (entries : List (SetEntry Text)) : Nat := (entries.map fun p => p.1.utf8Len).sum

/-- The bytes of text in a record. -/
def ItemWire.textLen (self : ItemWire) : Nat :=
  self.isr.value.utf8Len + self.acc.value.utf8Len + (self.nck.value.map Text.utf8Len).getD 0 +
    (self.nte.value.map Text.utf8Len).getD 0 + setTextLen self.tag + setTextLen self.org

/-- CBOR copies text as it is. -/
def Cbor.Carries (C : Cbor) : Prop := ∀ wire payload, C.writeItem wire = .ok payload → wire.textLen ≤ payload.length

instance Char.countable : Countable Char := Function.Injective.countable (fun _ _ h => Char.toNat_inj.mp h)
instance Text.countable : Countable Text := inferInstanceAs (Countable (List Char))
deriving instance Countable for ItemId, GroupId, DeviceId, BlobId, Hlc, Lww, MaxWins, MinWins, IconRef,
  TombstoneReason, Tombstone
instance {T : Type} [Countable T] : Countable (SetEntry T) := inferInstanceAs (Countable (T × Hlc × WithBot Hlc))
deriving instance Countable for GroupWire, ItemWire

/-- A record by its number, as long as that and `len` together. -/
noncomputable def numberedPayload {W : Type} [Countable W] (version : Byte) (len : Nat) (w : W) : Bytes :=
  version :: List.replicate (Nat.pair ((exists_injective_nat W).choose w) len) 0

/-- The record with the number a payload gives. -/
noncomputable def numberedRecord (W : Type) [Countable W] (payload : Bytes) : Except String W :=
  match Function.partialInv (exists_injective_nat W).choose (payload.length - 1).unpair.1 with
  | some w => .ok w
  | none => .error "no such record"

theorem numberedRecord_numberedPayload {W : Type} [Countable W] (version : Byte) (len : Nat) (w : W) :
    numberedRecord W (numberedPayload version len w) = .ok w := by
  have hinv := Function.partialInv_left (exists_injective_nat W).choose_spec w
  simp [numberedRecord, numberedPayload, hinv]

/-- A writer for every record, which takes at least the bytes of its text. -/
noncomputable def Cbor.numbered : Cbor where
  writeItem w := .ok (numberedPayload w.v w.textLen w)
  readItem := numberedRecord ItemWire
  writeGroup w := .ok (numberedPayload w.v 0 w)
  readGroup := numberedRecord GroupWire
  readVersion payload := (payload.head?.map Except.ok).getD (.error "empty")

theorem Cbor.numbered_faithful : Cbor.numbered.Faithful where
  item wire payload h := by
    cases h
    exact ⟨numberedRecord_numberedPayload .., rfl⟩
  group wire payload h := by
    cases h
    exact ⟨numberedRecord_numberedPayload .., rfl⟩

theorem Cbor.numbered_carries : Cbor.numbered.Carries := by
  intro wire payload h
  cases h
  have hle := Nat.right_le_pair ((exists_injective_nat ItemWire).choose wire) wire.textLen
  simp only [numberedPayload, List.length_cons, List.length_replicate]
  omega

/-- A set of elements all added at one reading. -/
def OrSet.addedAt {T : Type} [LinearOrder T] (hlc : Hlc) : List T → OrSet T
  | [] => .new
  | k :: rest => (addedAt hlc rest).add k hlc

theorem OrSet.getElem?_addedAt {T : Type} [LinearOrder T] (hlc : Hlc) (ks : List T) : ∀ k,
    (OrSet.addedAt hlc ks).entries[k]? = if k ∈ ks then some ⟨hlc, ⊥⟩ else none := by
  induction ks with
  | nil => simp [addedAt, OrSet.new]
  | cons a rest ih =>
    intro k
    unfold addedAt OrSet.add
    rw [ih a]
    by_cases ha : a ∈ rest
    · -- the element is there already, with this very clock
      rw [if_pos ha]
      dsimp only
      rw [if_neg (lt_irrefl hlc), ih k]
      by_cases hk : k = a
      · simp [hk, ha]
      · simp [hk]
    · rw [if_neg ha]
      dsimp only
      rw [OrdMap.getElem?_insert, ih k]
      by_cases hk : a = k
      · simp [hk]
      · simp [hk, Ne.symm hk]

theorem OrSet.keys_addedAt {T : Type} [LinearOrder T] {hlc : Hlc} {ks : List T} {k : T} :
    k ∈ (OrSet.addedAt hlc ks).entries.keys ↔ k ∈ ks := by
  rw [OrdMap.mem_keys]
  simp only [OrSet.getElem?_addedAt]
  split <;> simp [*]

theorem OrSet.storedLen_addedAt {T : Type} [LinearOrder T] (hlc : Hlc) (ks : List T) :
    (OrSet.addedAt hlc ks).storedLen ≤ ks.length := by
  have hsub : (OrSet.addedAt hlc ks).entries.keys ⊆ ks := fun k hk => OrSet.keys_addedAt.mp hk
  have hlen := (List.subperm_of_subset ExtTreeMap.nodup_keys hsub).length_le
  rwa [ExtTreeMap.length_keys] at hlen

/-- Numbers below which `longOrigin` has names to give. -/
def longOrigins : Nat := 9 * MAX_SET_ENTRIES

/-- A host name of 253 bytes: an ideograph that counts, then ASCII. -/
def longOrigin (n : Nat) : Text := Char.ofNat (0x4e00 + n) :: List.replicate 250 'a'

theorem toNat_longOrigin {n : Nat} (h : n < longOrigins) : (Char.ofNat (0x4e00 + n)).toNat = 0x4e00 + n := by
  unfold longOrigins MAX_SET_ENTRIES at h
  have hvalid : (0x4e00 + n).isValidChar := .inl (by omega)
  rw [Char.ofNat, dif_pos hvalid]
  rfl

theorem longOrigin_injective {m n : Nat} (hm : m < longOrigins) (hn : n < longOrigins)
    (h : longOrigin m = longOrigin n) : m = n := by
  have hchar := congrArg Char.toNat (List.cons.inj h).1
  rw [toNat_longOrigin hm, toNat_longOrigin hn] at hchar
  omega

theorem utf8Len_longOrigin {n : Nat} (h : n < longOrigins) : (longOrigin n).utf8Len = MAX_ORIGIN_LEN := by
  have hnat := toNat_longOrigin h
  have hsize : (Char.ofNat (0x4e00 + n)).utf8Size = 3 := by
    unfold longOrigins MAX_SET_ENTRIES at h
    unfold Char.toNat at hnat
    simp only [Char.utf8Size, UInt32.le_iff_toNat_le, UInt32.toNat_ofNatLT]
    rw [if_neg (by omega), if_neg (by omega), if_pos (by omega)]
  have hascii : 'a'.utf8Size = 1 := by decide
  rw [longOrigin, Text.utf8Len, List.map_cons, List.sum_cons, hsize, List.map_replicate, List.sum_replicate, hascii]
  rfl

theorem checkChars_eq_ok {refused : Char → Bool} {field : String} : ∀ {value : Text} {index : Nat},
    (∀ ch ∈ value, refused ch = false) → checkChars refused field value index = .ok ()
  | [], _, _ => rfl
  | ch :: rest, index, h => by
    unfold checkChars
    rw [h ch List.mem_cons_self]
    exact checkChars_eq_ok fun c hc => h c (List.mem_cons_of_mem _ hc)

theorem trim_ne_nil {ch : Char} {rest : Text} (hch : isWhitespace ch = false) : trim (ch :: rest) ≠ [] := by
  intro h
  unfold trim at h
  rw [List.reverse_eq_nil_iff, List.dropWhile_eq_nil_iff, List.dropWhile_cons_of_neg (by simp [hch])] at h
  have hws := h ch (by simp)
  rw [hch] at hws
  cases hws

theorem longOrigin_accepted {n : Nat} (h : n < longOrigins) :
    checkRequiredLabel "origins" (longOrigin n) MAX_ORIGIN_LEN = .ok () := by
  have hnat := toNat_longOrigin h
  unfold longOrigins MAX_SET_ENTRIES at h
  -- the ideographs up to 0x5700 are neither refused nor white space
  have hhead : isAlwaysForbidden (Char.ofNat (0x4e00 + n)) = false := by
    simp only [isAlwaysForbidden, hnat, Bool.or_eq_false_iff, Bool.and_eq_false_iff, decide_eq_false_iff_not]
    omega
  have hspace : isWhitespace (Char.ofNat (0x4e00 + n)) = false := by
    simp only [isWhitespace, hnat, Bool.or_eq_false_iff, Bool.and_eq_false_iff, decide_eq_false_iff_not]
    omega
  have hne : ∀ c : Char, c.toNat < 0x4e00 → Char.ofNat (0x4e00 + n) ≠ c := by
    intro c hc heq
    rw [← heq, hnat] at hc
    omega
  have hlabel : checkLabel "origins" (longOrigin n) MAX_ORIGIN_LEN = .ok () := by
    unfold checkLabel checkText
    rw [utf8Len_longOrigin h, if_neg (lt_irrefl _)]
    refine checkChars_eq_ok fun ch hch => ?_
    rcases List.mem_cons.mp hch with rfl | hch
    · simp [hhead, hne '\t' (by decide), hne '\n' (by decide), hne '\r' (by decide)]
    · rw [List.eq_of_mem_replicate hch]
      decide
  simp only [checkRequiredLabel, hlabel, bind, Except.bind]
  exact if_neg (trim_ne_nil hspace)

/-- The item with other origins. -/
def Item.atOrigins (x : Item) (origins : OrSet Text) : Item := { x with origins }

@[simp] theorem Item.register_atOrigins (x : Item) (origins : OrSet Text) (r : Register) :
    (x.atOrigins origins).register r = x.register r := by
  cases r <;> rfl

@[simp] theorem Item.id_atOrigins (x : Item) (origins : OrSet Text) : (x.atOrigins origins).id = x.id := rfl

@[simp] theorem Item.secret_atOrigins (x : Item) (origins : OrSet Text) : (x.atOrigins origins).secret = x.secret := rfl

@[simp] theorem Item.origins_atOrigins (x : Item) (origins : OrSet Text) : (x.atOrigins origins).origins = origins :=
  rfl

theorem Item.Within.atOrigins {x : Item} {m d : Nat} (h : x.Within m d) {origins : OrSet Text}
    (hlen : origins.storedLen ≤ m) : (x.atOrigins origins).Within m d :=
  ⟨h.tags, hlen, h.groups, h.usage⟩

theorem Item.Sound.atOrigins {x : Item} (h : x.Sound) {origins : OrSet Text}
    (hvalid : origins.Valid fun origin => checkRequiredLabel "origins" origin MAX_ORIGIN_LEN = .ok ()) :
    (x.atOrigins origins).Sound where
  registers r := by
    rw [register_atOrigins]
    exact h.registers r
  groups := h.groups
  tags := h.tags
  origins := hvalid
  deleted := h.deleted
  secret := h.secret

/-- The names of one version. -/
def ownOrigins (i : Nat) : List Text := (List.range' (i * MAX_SET_ENTRIES) MAX_SET_ENTRIES).map longOrigin

/-- A version with 256 origins that no other of these versions names. -/
def Item.crowded (i : Nat) : Item := (Item.fresh 1 9 0 4).atOrigins (.addedAt (Hlc.early 0 4) (ownOrigins i))

/-- Nine versions, written by nine devices apart. -/
def crowdedFamily : List Item := (List.range 9).map Item.crowded

theorem mem_crowdedFamily {x : Item} : x ∈ crowdedFamily ↔ ∃ i < 9, Item.crowded i = x := by
  simp [crowdedFamily]

theorem sound_crowded {i : Nat} (hi : i < 9) : (Item.crowded i).Sound := by
  have hfresh := (validate_eq_ok.mp (show (Item.fresh 1 9 0 4).validate = .ok () by decide)).1
  refine hfresh.atOrigins fun k e hget => ?_
  rw [OrSet.getElem?_addedAt] at hget
  split at hget
  · next hk =>
    cases hget
    obtain ⟨n, hn, rfl⟩ := List.mem_map.mp hk
    rw [List.mem_range'_1] at hn
    refine ⟨longOrigin_accepted ?_, fun h hh => ?_⟩
    · unfold longOrigins
      unfold MAX_SET_ENTRIES at *
      omega
    · rw [List.mem_singleton.mp hh]
      exact show Hlc.inWindow (Hlc.early 0 4).wallMs = true by decide
  · cases hget

theorem within_crowded (i : Nat) : (Item.crowded i).Within MAX_SET_ENTRIES 8 := by
  have hfresh : (Item.fresh 1 9 0 4).Within MAX_SET_ENTRIES 8 := ⟨by decide, by decide, by decide, by decide⟩
  refine hfresh.atOrigins ((OrSet.storedLen_addedAt ..).trans ?_)
  rw [ownOrigins, List.length_map, List.length_range']

theorem family_crowded : VersionFamily crowdedFamily where
  count := by simp [crowdedFamily]
  same x hx y hy := by
    obtain ⟨i, -, rfl⟩ := mem_crowdedFamily.mp hx
    obtain ⟨j, -, rfl⟩ := mem_crowdedFamily.mp hy
    simp only [Item.crowded, Item.id_atOrigins, Item.secret_atOrigins, and_self]
  mergeable x hx y hy field herr := by
    obtain ⟨i, -, rfl⟩ := mem_crowdedFamily.mp hx
    obtain ⟨j, -, rfl⟩ := mem_crowdedFamily.mp hy
    have hagree : (Item.crowded i).Agrees (Item.crowded j) := by
      intro r _
      simp only [Item.crowded, Item.register_atOrigins]
    have hok : (Item.crowded i).joined (Item.crowded j) = .ok _ := Item.joined_ok (by simp [Item.crowded]) (by simp [Item.crowded]) hagree
    cases hok.symm.trans herr
  valid x hx := by
    obtain ⟨i, hi, rfl⟩ := mem_crowdedFamily.mp hx
    exact validate_eq_ok.mpr ⟨sound_crowded hi, (within_crowded i).mono (by decide) (by decide)⟩
  within x hx := by
    obtain ⟨i, -, rfl⟩ := mem_crowdedFamily.mp hx
    exact within_crowded i

theorem origins_crowded {w : Item} (hw : w.UnionOf crowdedFamily) {n : Nat} (hn : n < longOrigins) :
    longOrigin n ∈ w.origins.entries.keys := by
  unfold longOrigins at hn
  have hi : n / MAX_SET_ENTRIES < 9 := by
    unfold MAX_SET_ENTRIES at *
    omega
  have hmem : Item.crowded (n / MAX_SET_ENTRIES) ∈ crowdedFamily := mem_crowdedFamily.mpr ⟨_, hi, rfl⟩
  have hle : (Item.crowded (n / MAX_SET_ENTRIES)).counters ≤ w.counters := hw.counters.1 ⟨_, hmem, rfl⟩
  have hview : (Item.crowded (n / MAX_SET_ENTRIES)).origins.view ≤ w.origins.view := hle.2.2.2.2.2.2
  have hkey : longOrigin n ∈ (Item.crowded (n / MAX_SET_ENTRIES)).origins.entries.keys := by
    rw [Item.crowded, Item.origins_atOrigins]
    refine OrSet.keys_addedAt.mpr (List.mem_map.mpr ⟨n, ?_, rfl⟩)
    rw [List.mem_range'_1]
    unfold MAX_SET_ENTRIES
    omega
  obtain ⟨e, he⟩ := OrdMap.mem_keys.mp hkey
  obtain ⟨f, hf, -⟩ := OrdMap.getElem?_of_view_le hview he
  exact OrdMap.mem_keys.mpr ⟨f, hf⟩

theorem textLen_crowded {w : Item} (hw : w.UnionOf crowdedFamily) :
    MAX_ITEM_PAYLOAD_LEN < (ItemWire.fromItem w).textLen := by
  have hnodup : ((List.range longOrigins).map longOrigin).Nodup := by
    refine List.Nodup.map_on ?_ List.nodup_range
    intro m hm n hn heq
    exact longOrigin_injective (List.mem_range.mp hm) (List.mem_range.mp hn) heq
  have hsub : (List.range longOrigins).map longOrigin ⊆ w.origins.entries.keys := by
    intro k hk
    obtain ⟨n, hn, rfl⟩ := List.mem_map.mp hk
    exact origins_crowded hw (List.mem_range.mp hn)
  obtain ⟨l, hperm, hsublist⟩ := List.subperm_of_subset hnodup hsub
  have hnames : ((List.range longOrigins).map fun n => (longOrigin n).utf8Len).sum = longOrigins * MAX_ORIGIN_LEN := by
    have hconst : (List.range longOrigins).map (fun n => (longOrigin n).utf8Len) =
        (List.range longOrigins).map fun _ => MAX_ORIGIN_LEN :=
      List.map_congr_left fun n hn => utf8Len_longOrigin (List.mem_range.mp hn)
    rw [hconst, List.map_const', List.length_range, List.sum_replicate, smul_eq_mul]
  have hset : setTextLen (ItemWire.fromItem w).org = (w.origins.entries.keys.map Text.utf8Len).sum := by
    simp only [setTextLen, ItemWire.fromItem, setToWire, ← ExtTreeMap.map_fst_toList_eq_keys, List.map_map]
    rfl
  calc MAX_ITEM_PAYLOAD_LEN < longOrigins * MAX_ORIGIN_LEN := by decide
    _ = (l.map Text.utf8Len).sum := by
      rw [← hnames, (hperm.map Text.utf8Len).sum_eq, List.map_map]
      rfl
    _ ≤ (w.origins.entries.keys.map Text.utf8Len).sum :=
      (hsublist.map Text.utf8Len).sum_le_sum fun _ _ => Nat.zero_le _
    _ ≤ (ItemWire.fromItem w).textLen := by
      rw [← hset]
      exact Nat.le_add_left ..

/-- Nine versions, each as the limits want them, that no CBOR which carries their text can write
merged: their host names alone take 569 KiB. There is such a CBOR. -/
theorem no_room_for_merge : VersionFamily crowdedFamily ∧ (∃ C : Cbor, C.Faithful ∧ C.Carries) ∧
    ∀ C : Cbor, C.Faithful → C.Carries → ¬ RoomFor C crowdedFamily := by
  refine ⟨family_crowded, ⟨.numbered, Cbor.numbered_faithful, Cbor.numbered_carries⟩, ?_⟩
  intro C _ hcarries hroom
  have hleaves : (MergeTree.chain (Item.crowded 0) ((List.range' 1 8).map Item.crowded)).leaves.Perm crowdedFamily := by
    rw [MergeTree.leaves_chain]
    exact .refl _
  obtain ⟨w, payload, hrun, -, hencode, -⟩ := hroom _ hleaves
  obtain ⟨v, hv, hunion, hvalid⟩ := family_crowded.run_valid hleaves
  cases hv.symm.trans hrun
  obtain ⟨buf, hwrite, hlen⟩ := (encodeItem_eq_ok hvalid).mp ⟨payload, hencode⟩
  have hlong := textLen_crowded hunion
  have hcarried := hcarries _ _ hwrite
  omega

end Misty
