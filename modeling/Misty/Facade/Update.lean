import Mathlib.Data.Set.Insert
import Misty.Facade.Holding

/- Editing an item through the facade. The fields of an edit are one write of the vault;
   its groups, tags and origins are not: each list is compared, as text, with what the
   set shows, what is missing is added and what is not wanted is removed, a write for each.

   What is proved:
     1. `OrSet.members_add`, `OrSet.members_remove` — under a reading later than every clock
        of a set, an add and a remove do to its members what their names say.
     2. `Turns` — a command that succeeds takes the item it names from one value to another
        and leaves every other object alone; one rule for each way commands are put together.
     3. `update_replaces` — an update that is answered with success has written its fields
        under a reading later than every clock the item had, and its sets are what the lists
        say: tags exactly the list, groups and origins up to how an element is spelled.

   A spelling matters where an element is held already. What a set shows is one spelling
   of each member. A list that names a held group in capitals, or a held origin with a
   blank, adds what is there and then removes it. -/
namespace Misty

/-! ## Members -/

namespace OrSet

variable {T : Type} [LinearOrder T]

/-- The current members. -/
def members (self : OrSet T) : Set T := {x | self.contains x = true}

theorem mem_members {self : OrSet T} {x : T} : x ∈ self.members ↔ self.contains x = true := Iff.rfl

theorem contains_eq {self : OrSet T} {x : T} : self.contains x = (self.entries[x]?).any OrSetEntry.isPresent := rfl

theorem mem_iter {self : OrSet T} {x : T} : x ∈ self.iter ↔ self.contains x = true := by
  rw [contains_eq, Option.any_eq_true]
  simp only [iter, List.mem_map, List.mem_filter]
  constructor
  · intro h
    obtain ⟨p, ⟨hp, hpresent⟩, rfl⟩ := h
    exact ⟨p.2, OrdMap.mem_toList.mp hp, hpresent⟩
  · intro h
    obtain ⟨entry, hentry, hpresent⟩ := h
    exact ⟨(x, entry), ⟨OrdMap.mem_toList.mpr hentry, hpresent⟩, rfl⟩

theorem contains_insert (entries : Std.ExtTreeMap T OrSetEntry) (element x : T) (entry : OrSetEntry) :
    (OrSet.mk (entries.insert element entry)).contains x =
      if element = x then entry.isPresent else (OrSet.mk entries).contains x := by
  rw [contains_eq, contains_eq]
  show ((entries.insert element entry)[x]?).any OrSetEntry.isPresent = _
  rw [OrdMap.getElem?_insert]
  split <;> simp

theorem members_add {self : OrSet T} {h : Hlc} (hlater : ∀ k ∈ Item.setHlcs self, k < h) (element : T) :
    (self.add element h).members = self.members ∪ {element} := by
  ext x
  rw [Set.union_singleton, Set.mem_insert_iff, mem_members, mem_members]
  have hclock : ∀ {entry : OrSetEntry}, self.entries[element]? = some entry → ∀ k, entry.Carries k → k < h :=
    fun hentry k hk => hlater k (Item.mem_setHlcs.mpr ⟨element, _, hentry, hk⟩)
  unfold add
  split
  · rw [contains_insert]
    by_cases hx : element = x
    · simp [hx, OrSetEntry.isPresent]
    · simp [hx, Ne.symm hx]
  · next entry hentry =>
    rw [if_pos (hclock hentry _ (.inl rfl)), contains_insert]
    by_cases hx : element = x
    · have hremoved : entry.removed ≤ (h : WithBot Hlc) := by
        cases hr : entry.removed with
        | bot => exact bot_le
        | coe removed => exact WithBot.coe_le_coe.mpr (hclock hentry removed (.inr hr)).le
      simp [hx, OrSetEntry.isPresent, hremoved]
    · simp [hx, Ne.symm hx]

theorem members_remove {self : OrSet T} {h : Hlc} (hlater : ∀ k ∈ Item.setHlcs self, k < h) (element : T) :
    (self.remove element h).members = self.members \ {element} := by
  ext x
  rw [Set.mem_sdiff, Set.mem_singleton_iff, mem_members, mem_members]
  unfold remove
  split
  · next hnone =>
    by_cases hx : x = element
    · simp [hx, contains_eq, hnone]
    · simp [hx]
  · next entry hentry =>
    have hclock : ∀ k, entry.Carries k → k < h :=
      fun k hk => hlater k (Item.mem_setHlcs.mpr ⟨element, entry, hentry, hk⟩)
    have hremoved : ¬ (h : WithBot Hlc) ≤ entry.removed := by
      cases hr : entry.removed with
      | bot => exact WithBot.not_coe_le_bot h
      | coe removed => exact fun hle => absurd (WithBot.coe_le_coe.mp hle) (hclock removed (.inr hr)).not_ge
    rw [if_neg hremoved, contains_insert]
    by_cases hx : element = x
    · have hadded : ¬ (h : WithBot Hlc) ≤ (entry.added : WithBot Hlc) :=
        fun hle => absurd (WithBot.coe_le_coe.mp hle) (hclock entry.added (.inl rfl)).not_ge
      simp [hx, OrSetEntry.isPresent, hadded]
    · simp [hx, Ne.symm hx]

end OrSet

/-! ## One set of an item -/

/-- One of the sets of an item, to read and to replace. -/
structure Item.SetField (T : Type) [LinearOrder T] where
  get : Item → OrSet T
  put : Item → OrSet T → Item
  get_put : ∀ x s, get (put x s) = s
  put_put : ∀ x s t, put (put x s) t = put x t
  put_get : ∀ x, put x (get x) = x
  clocks : ∀ x, ∀ k ∈ Item.setHlcs (get x), k ∈ x.everyHlc

namespace Item

/-- The groups of an item. -/
def groupsField : SetField GroupId where
  get x := x.groups
  put x s := { x with groups := s }
  get_put _ _ := rfl
  put_put _ _ _ := rfl
  put_get _ := rfl
  clocks _ _ hk := mem_everyHlc.mpr (.inl (.inr (.inl hk)))

/-- The tags of an item. -/
def tagsField : SetField Text where
  get x := x.tags
  put x s := { x with tags := s }
  get_put _ _ := rfl
  put_put _ _ _ := rfl
  put_get _ := rfl
  clocks _ _ hk := mem_everyHlc.mpr (.inl (.inr (.inr (.inl hk))))

/-- The origins of an item. -/
def originsField : SetField Text where
  get x := x.origins
  put x s := { x with origins := s }
  get_put _ _ := rfl
  put_put _ _ _ := rfl
  put_get _ := rfl
  clocks _ _ hk := mem_everyHlc.mpr (.inl (.inr (.inr (.inr hk))))

namespace SetField

variable {T : Type} [LinearOrder T] (field : SetField T)

/-- The item with the members of one set changed. -/
def Moves (f : Set T → Set T) (y x : Item) : Prop :=
  ∃ s, x = field.put y s ∧ s.members = f (field.get y).members

variable {field} {f g : Set T → Set T} {y z x : Item}

theorem Moves.refl (x : Item) : field.Moves (fun s => s) x x := ⟨field.get x, (field.put_get x).symm, rfl⟩

theorem Moves.trans (h : field.Moves f y z) (h' : field.Moves g z x) : field.Moves (g ∘ f) y x := by
  obtain ⟨s, rfl, hs⟩ := h
  obtain ⟨t, rfl, ht⟩ := h'
  refine ⟨t, field.put_put y s t, ?_⟩
  rw [ht, field.get_put, hs]
  rfl

theorem moves_add {h : Hlc} (hlater : ∀ k ∈ y.everyHlc, k < h) (element : T) :
    field.Moves (· ∪ {element}) y (field.put y ((field.get y).add element h)) :=
  ⟨_, rfl, OrSet.members_add (fun k hk => hlater k (field.clocks y k hk)) element⟩

theorem moves_remove {h : Hlc} (hlater : ∀ k ∈ y.everyHlc, k < h) (element : T) :
    field.Moves (· \ {element}) y (field.put y ((field.get y).remove element h)) :=
  ⟨_, rfl, OrSet.members_remove (fun k hk => hlater k (field.clocks y k hk)) element⟩

end SetField

end Item

/-! ## One write -/

namespace Vault

variable {S : Type} [LawfulStore S] {E : Externals} {amb : Ambient} {v : Vault S} {id : ItemId}

/-- One item of a vault became another in `R`, and no other object changed. -/
def Edited (id : ItemId) (R : Item → Item → Prop) (v w : Vault S) : Prop :=
  ∃ y x, v.items.get id = some y ∧ w.items.get id = some x ∧ R y x ∧
    (∀ i, i ≠ id → w.items.get i = v.items.get i) ∧ w.groups = v.groups

/-- A copy of an item on its way to be committed: made under a reading later than every clock of the item. -/
def Copied (id : ItemId) (change : Item → Hlc → Result Item) (v : Vault S) (x : Item) (u : Vault S) : Prop :=
  Quiet v u ∧ ∃ y h, v.items.get id = some y ∧ y.id = id ∧ change y h = .ok x ∧ ∀ k ∈ y.everyHlc, k < h

theorem mutated_copied (hseen : v.Seen) (now : U64) (change : Item → Hlc → Result Item) :
    Meets (mutated id now change) v (Copied id change v) (fun _ _ => True) := by
  apply (mutated_spec id now change v).mono
  · intro x u hx
    obtain ⟨hq, y, h, hget, hid, hchange, hticked⟩ := hx
    subst hid
    refine ⟨hq, y, h, hget, rfl, hchange, fun k hk => ?_⟩
    have hsaw := hseen.2 k ⟨.item y, hget, hk⟩
    exact Hlc.lt_of_time (hsaw.1.trans_lt (hticked hseen.1).1.1)
  · exact fun _ _ _ => trivial

theorem commit_edits {draft : Io (Vault S) Item} {change : Item → Hlc → Result Item} {R : Item → Item → Prop}
    (hdraft : Meets draft v (Copied id change v) (fun _ _ => True))
    (hchange : ∀ y x h, change y h = .ok x → (∀ k ∈ y.everyHlc, k < h) → x.id = y.id ∧ R y x) :
    Meets (draft >>= commitItem E amb) v (fun _ w => Edited id R v w) (fun _ _ => True) := by
  apply Meets.bind
  apply hdraft.mono
  · intro x u hx
    obtain ⟨hq, y, h, hget, hid, hok, hlater⟩ := hx
    obtain ⟨hxid, hR⟩ := hchange y x h hok hlater
    apply Meets.bind
    apply Meets.bind
    apply (record_spec E amb (.item x) u).mono
    · intro r u' hr
      obtain ⟨hq', -, -⟩ := hr
      apply Meets.pure
      apply (settle_spec _ u').mono
      · intro _ w hsettled
        obtain ⟨s, -, -, rfl⟩ := hsettled
        have hitems : (adopt (.item x) { u' with store := s }).items = v.items.replace x := by
          show u'.items.replace x = _
          rw [hq'.items, hq.items]
        refine ⟨y, x, hget, ?_, hR, fun i hi => ?_, hq'.groups.trans hq.groups⟩
        · rw [hitems, ItemSet.get_replace, if_pos (hxid.trans hid)]
        · rw [hitems, ItemSet.get_replace, if_neg]
          exact fun heq => hi (heq.symm.trans (hxid.trans hid))
      · exact fun _ _ _ => trivial
    · exact fun _ _ _ => trivial
  · exact fun _ _ _ => trivial

theorem guard_copied {α : Type} {r : Result α} {change : Item → Hlc → Result Item} {draft : Io (Vault S) Item}
    (hdraft : Meets draft v (Copied id change v) (fun _ _ => True)) :
    Meets (liftExcept r >>= fun _ => draft) v (Copied id change v) (fun _ _ => True) := by
  apply Meets.bind
  exact Meets.liftExcept (fun _ _ => hdraft) (fun _ _ => trivial)

/-- The item an edit writes. -/
def Written (edit : Edit) (y x : Item) : Prop := ∃ h, (∀ k ∈ y.everyHlc, k < h) ∧ x = edit.write y h

theorem update_edits (hseen : v.Seen) (edit : Edit) :
    Meets (Vault.update E amb id edit) v (fun _ w => Edited id (Written edit) v w) (fun _ _ => True) := by
  have hcopied : Meets (updated E amb id edit) v (Copied id (fun x hlc => edit.apply x hlc) v) (fun _ _ => True) := by
    apply Meets.bind
    apply (mutated_copied hseen (amb.clock 0) _).mono
    · intro x u hx
      apply Meets.bind
      apply Meets.get
      dsimp only
      split
      · exact trivial
      · exact Meets.pure hx
    · exact fun _ _ _ => trivial
  refine commit_edits hcopied ?_
  intro y x h hok hlater
  obtain ⟨_, -, hx⟩ := bind_eq_ok.mp hok
  cases hx
  exact ⟨rfl, h, hlater, rfl⟩

theorem addTag_edits (hseen : v.Seen) (tag : Text) :
    Meets (addTag E amb id tag) v (fun _ w => Edited id (Item.tagsField.Moves (· ∪ {tag})) v w) (fun _ _ => True) := by
  refine commit_edits (guard_copied (mutated_copied hseen _ _)) ?_
  intro y x h hok hlater
  obtain ⟨_, -, hx⟩ := bind_eq_ok.mp hok
  cases hx
  exact ⟨rfl, Item.SetField.moves_add hlater tag⟩

theorem removeTag_edits (hseen : v.Seen) (tag : Text) :
    Meets (removeTag E amb id tag) v (fun _ w => Edited id (Item.tagsField.Moves (· \ {tag})) v w) (fun _ _ => True) := by
  refine commit_edits (mutated_copied hseen _ _) ?_
  intro y x h hok hlater
  cases hok
  exact ⟨rfl, Item.SetField.moves_remove hlater tag⟩

theorem addOrigin_edits (hseen : v.Seen) (origin : Text) :
    Meets (addOrigin E amb id origin) v
      (fun _ w => Edited id (Item.originsField.Moves (· ∪ {normaliseOrigin E.toLowercase origin})) v w)
      (fun _ _ => True) := by
  refine commit_edits (guard_copied (mutated_copied hseen _ _)) ?_
  intro y x h hok hlater
  obtain ⟨_, -, hx⟩ := bind_eq_ok.mp hok
  cases hx
  exact ⟨rfl, Item.SetField.moves_add hlater _⟩

theorem removeOrigin_edits (hseen : v.Seen) (origin : Text) :
    Meets (removeOrigin E amb id origin) v
      (fun _ w => Edited id (Item.originsField.Moves (· \ {normaliseOrigin E.toLowercase origin})) v w)
      (fun _ _ => True) := by
  refine commit_edits (mutated_copied hseen _ _) ?_
  intro y x h hok hlater
  cases hok
  exact ⟨rfl, Item.SetField.moves_remove hlater _⟩

theorem addToGroup_edits (hseen : v.Seen) (g : GroupId) :
    Meets (addToGroup E amb id g) v (fun _ w => Edited id (Item.groupsField.Moves (· ∪ {g})) v w) (fun _ _ => True) := by
  refine commit_edits (Meets.bind (Meets.get (guard_copied (mutated_copied hseen _ _)))) ?_
  intro y x h hok hlater
  obtain ⟨_, -, hx⟩ := bind_eq_ok.mp hok
  cases hx
  exact ⟨rfl, Item.SetField.moves_add hlater g⟩

theorem removeFromGroup_edits (hseen : v.Seen) (g : GroupId) :
    Meets (removeFromGroup E amb id g) v (fun _ w => Edited id (Item.groupsField.Moves (· \ {g})) v w)
      (fun _ _ => True) := by
  refine commit_edits (mutated_copied hseen _ _) ?_
  intro y x h hok hlater
  cases hok
  exact ⟨rfl, Item.SetField.moves_remove hlater g⟩

end Vault

/-! ## Commands -/

/-- A set of an item after a list took its place. What the set showed is compared with the list as text. -/
def Replaced {T : Type} [LinearOrder T] (shown : T → Text) (read : Text → Option T) (wanted : List Text)
    (before after : OrSet T) : Prop :=
  after.members = (before.members ∪ {x | ∃ d ∈ wanted, d ∉ before.iter.map shown ∧ read d = some x}) \
    {x | ∃ c ∈ before.iter.map shown, c ∉ wanted ∧ read c = some x}

/-- An item one of whose sets a list took the place of, where there is a list. -/
def Item.SetField.Takes {T : Type} [LinearOrder T] (field : SetField T) (shown : T → Text) (read : Text → Option T)
    (wanted : Option (List Text)) (y z : Item) : Prop :=
  ∃ s, z = field.put y s ∧ match wanted with
    | none => s = field.get y
    | some wanted => Replaced shown read wanted (field.get y) s

namespace Core

variable {S : Type}

/-- The open vault holds an item under an id, and every other object as another vault does. -/
def At (v : Vault S) (iid : ItemId) (y : Item) (core : Core S) : Prop :=
  ∃ session, core.lifecycle = .unlocked session ∧ session.vault.Seen ∧ session.vault.items.get iid = some y ∧
    (∀ i, i ≠ iid → session.vault.items.get i = v.items.get i) ∧ session.vault.groups = v.groups

section Programs

variable [LawfulStore S] {E : Externals} {v : Vault S} {iid : ItemId} {α β : Type} {R Q : Item → Item → Prop}

/-- A program that succeeds takes the item from one value to another. -/
def Turns (E : Externals) (v : Vault S) (iid : ItemId) (R : Item → Item → Prop) (x : Act S α) : Prop :=
  ∀ core w y, At v iid y core → x.Ensures Eq (Hears E) (fun _ _ _ => True) core w
    (fun _ core' _ => ∃ z, R y z ∧ At v iid z core') (fun _ _ _ => True)

theorem Turns.mono {x : Act S α} (h : Turns E v iid R x) (hR : ∀ y z, R y z → Q y z) : Turns E v iid Q x := by
  intro core w y hy
  apply (h core w y hy).mono
  · intro _ core' _ hz
    obtain ⟨z, hRz, hz⟩ := hz
    exact ⟨z, hR y z hRz, hz⟩
  · exact fun _ _ _ _ => trivial

theorem Turns.pure (a : α) : Turns E v iid Eq (pure a : Act S α) := fun _ _ y hy => ⟨y, rfl, hy⟩

theorem Turns.bind {x : Act S α} {f : α → Act S β} (hx : Turns E v iid R x) (hf : ∀ a, Turns E v iid Q (f a)) :
    Turns E v iid (Relation.Comp R Q) (x >>= f) := by
  intro core w y hy
  apply Prog.Ensures.bind
  apply (hx core w y hy).mono
  · intro a core' w' hz
    obtain ⟨z, hRz, hz⟩ := hz
    apply (hf a core' w' z hz).mono
    · intro _ core'' _ hz'
      obtain ⟨z', hQz, hz'⟩ := hz'
      exact ⟨z', ⟨z, hRz, hQz⟩, hz'⟩
    · exact fun _ _ _ _ => trivial
  · exact fun _ _ _ _ => trivial

theorem Turns.parsed {r : Except FacadeError α} {f : α → Act S β} (hf : ∀ a, r = .ok a → Turns E v iid R (f a)) :
    Turns E v iid R (Prog.ofExcept r >>= f) := by
  intro core w y hy
  apply Prog.Ensures.bind
  apply Prog.Ensures.ofExcept
  · exact fun a ha => hf a ha core w y hy
  · exact fun _ _ => trivial

theorem turns_extend : Turns E v iid Eq (extend : Act S Unit) := by
  intro core w y hy
  obtain ⟨session, hl, hseen, hget, hother, hgroups⟩ := hy
  apply Prog.Ensures.bind
  apply Prog.Ensures.call trivial
  intro _ now _ _ _
  refine ⟨y, rfl, { session with deadlineMs := I64.saturatingAdd now core.timeoutMs }, ?_, hseen, hget, hother, hgroups⟩
  show (core.extendDeadline now).lifecycle = _
  unfold extendDeadline
  simp only [hl]

theorem session_ensures {core : Core S} {session₀ : Session S} (hl : core.lifecycle = .unlocked session₀)
    (w : Transcript S) :
    (session (S := S)).Ensures Eq (Hears E) (fun _ _ _ => True) core w
      (fun session core' w' => session = session₀ ∧ core' = core ∧ w' = w) (fun _ _ _ => True) := by
  apply Prog.Ensures.bind
  apply Prog.Ensures.get
  rw [hl]
  exact ⟨rfl, rfl, rfl⟩

/-- A call of the vault that edits one item of it. -/
theorem calling_edits {core : Core S} {session₀ : Session S} (hl : core.lifecycle = .unlocked session₀)
    {x : Ambient → Io (Vault S) α}
    (hx : ∀ amb, Meets (x amb) session₀.vault (fun _ w => session₀.vault.Edited iid R w) (fun _ _ => True))
    (hseen : ∀ amb, (stateAfter (x amb) session₀.vault).Seen) (w : Transcript S) :
    (calling x).Ensures Eq (Hears E) (fun _ _ _ => True) core w
      (fun _ core' _ => ∃ y z, session₀.vault.items.get iid = some y ∧ R y z ∧ At session₀.vault iid z core')
      (fun _ _ _ => True) := by
  apply Prog.Ensures.bind
  apply Prog.Ensures.bind
  apply (session_ensures hl w).mono
  · intro session core' w' h
    obtain ⟨rfl, rfl, rfl⟩ := h
    apply Prog.Ensures.bind
    apply Prog.Ensures.call trivial
    intro _ (amb : Ambient) w₁ _ _
    have hseen := hseen amb
    have hx := hx amb
    cases hrun : x amb session.vault with
    | error e vault => exact trivial
    | ok a vault =>
      rw [show stateAfter (x amb) session.vault = vault by simp only [stateAfter, hrun]] at hseen
      obtain ⟨y, z, hy, hz, hR, hother, hgroups⟩ := hx.of_ok hrun
      refine ⟨y, z, hy, hR, { session with vault := vault }, ?_, hseen, hz, hother, hgroups⟩
      show (core'.withVault vault).lifecycle = _
      unfold withVault
      simp only [hl]
  · exact fun _ _ _ _ => trivial

theorem turns_calling {x : Ambient → Io (Vault S) α}
    (hx : ∀ amb (u : Vault S), u.Seen → Meets (x amb) u (fun _ w => u.Edited iid R w) (fun _ _ => True))
    (hseen : ∀ amb (u : Vault S), u.Seen → (stateAfter (x amb) u).Seen) : Turns E v iid R (calling x) := by
  intro core w y hy
  obtain ⟨session, hl, hvault, hget, hother, hgroups⟩ := hy
  apply (calling_edits hl (fun amb => hx amb _ hvault) (fun amb => hseen amb _ hvault) w).mono
  · intro _ core' _ h
    obtain ⟨y', z, hget', hR, session', hl', hvault', hz, hother', hgroups'⟩ := h
    obtain rfl := Option.some.inj (hget.symm.trans hget')
    exact ⟨z, hR, session', hl', hvault', hz, fun i hi => (hother' i hi).trans (hother i hi), hgroups'.trans hgroups⟩
  · exact fun _ _ _ _ => trivial

/-- A loop over texts that does the same to one set as each of them does. -/
theorem turns_each {T : Type} [LinearOrder T] {field : Item.SetField T} {read : Text → Option T} {f : Text → Act S Unit}
    {c : Set T → Set T → Set T} (hnone : ∀ s, c s ∅ = s) (hunion : ∀ s a b, c (c s a) b = c s (a ∪ b))
    (hf : ∀ d, Turns E v iid (fun y z => ∃ e, read d = some e ∧ field.Moves (c · {e}) y z) (f d))
    (l : List Text) : Turns E v iid (field.Moves (c · {e | ∃ d ∈ l, read d = some e})) (each f l) := by
  induction l with
  | nil =>
    refine (Turns.pure ()).mono ?_
    intro y z hyz
    subst hyz
    have hid : (c · {e | ∃ d ∈ ([] : List Text), read d = some e}) = fun s => s := by
      funext s
      simp [hnone]
    rw [hid]
    exact .refl y
  | cons d rest ih =>
    refine ((hf d).bind fun _ => ih).mono ?_
    intro y z h
    obtain ⟨m, ⟨e, hread, hfirst⟩, hrest⟩ := h
    have hcomp : (c · {e | ∃ a ∈ d :: rest, read a = some e}) =
        (c · {e | ∃ a ∈ rest, read a = some e}) ∘ (c · {e}) := by
      funext s
      have hsets : {e | ∃ a ∈ d :: rest, read a = some e} = {e} ∪ {e | ∃ a ∈ rest, read a = some e} := by
        ext a
        simp [hread, eq_comm]
      simp only [Function.comp, hunion, hsets]
    rw [hcomp]
    exact hfirst.trans hrest

theorem turns_replacing {T : Type} [LinearOrder T] (field : Item.SetField T) {shown : T → Text} {read : Text → Option T}
    {wanted : Option (List Text)} {add remove : Text → Act S Unit}
    (hadd : ∀ d, Turns E v iid (fun y z => ∃ e, read d = some e ∧ field.Moves (· ∪ {e}) y z) (add d))
    (hremove : ∀ d, Turns E v iid (fun y z => ∃ e, read d = some e ∧ field.Moves (· \ {e}) y z) (remove d)) :
    Turns E v iid (field.Takes shown read wanted)
      (replacing iid wanted (fun x => (field.get x).iter.map shown) add remove) := by
  cases wanted with
  | none =>
    refine (Turns.pure ()).mono ?_
    intro y z hyz
    subst hyz
    exact ⟨field.get y, (field.put_get y).symm, rfl⟩
  | some wanted =>
    intro core w y hy
    obtain ⟨session, hl, hvault, hget, hother, hgroups⟩ := id hy
    have hitem : session.vault.item iid = .ok y := by
      unfold Vault.item
      rw [hget]
    apply Prog.Ensures.bind
    apply Prog.Ensures.bind
    apply (session_ensures hl w).mono
    · intro session' core' w' h
      obtain ⟨rfl, rfl, rfl⟩ := h
      dsimp only
      rw [hitem]
      have hadds := turns_each (c := (· ∪ ·)) Set.union_empty (fun _ _ _ => Set.union_assoc _ _ _) hadd
        (stringDiff ((field.get y).iter.map shown) wanted).1
      have hremoves := turns_each (c := (· \ ·)) (fun _ => Set.sdiff_empty) (fun _ _ _ => Set.sdiff_sdiff) hremove
        (stringDiff ((field.get y).iter.map shown) wanted).2
      apply ((hadds.bind fun _ => hremoves) core' w' y hy).mono
      · intro _ core'' _ h
        obtain ⟨z, ⟨m, hfirst, hrest⟩, hz⟩ := h
        obtain ⟨s, rfl, hs⟩ := hfirst.trans hrest
        refine ⟨field.put y s, ⟨s, rfl, hs.trans ?_⟩, hz⟩
        simp only [stringDiff, Function.comp, List.mem_filter, decide_eq_true_eq, and_assoc]
      · exact fun _ _ _ _ => trivial
    · exact fun _ _ _ _ => trivial

/-! ## An update -/

/-- What an update leaves of an item: its fields written under a reading later than every clock it had, and its sets
what the lists say, where there are lists. -/
structure Replaces (E : Externals) (edit : Dto.EditInput) (built : Edit) (y x : Item) : Prop where
  fields : ∃ h, (∀ k ∈ y.everyHlc, k < h) ∧
    x = { built.write y h with groups := x.groups, tags := x.tags, origins := x.origins }
  tags : match edit.tags with
    | none => x.tags = y.tags
    | some wanted => ∀ t, x.tags.contains t = true ↔ t ∈ wanted
  groups : match edit.groups with
    | none => x.groups = y.groups
    | some wanted => ∀ g, x.groups.contains g = true ↔
        (∃ t ∈ wanted, parseGroupId t = .ok g) ∧ (y.groups.contains g = true → g.toHex ∈ wanted)
  origins : match edit.origins with
    | none => x.origins = y.origins
    | some wanted => ∀ o, x.origins.contains o = true ↔
        (y.origins.contains o = true ∨ ∃ t ∈ wanted, y.origins.contains t = false ∧ normaliseOrigin E.toLowercase t = o) ∧
          ∀ c, y.origins.contains c = true → c ∉ wanted → normaliseOrigin E.toLowercase c ≠ o

theorem Replaced.tags {wanted : List Text} {before after : OrSet Text} (h : Replaced id some wanted before after) (t : Text) :
    after.contains t = true ↔ t ∈ wanted := by
  have ht := Set.ext_iff.mp h t
  simp only [OrSet.mem_members, List.map_id, Set.mem_sdiff, Set.mem_union, Set.mem_ofPred_eq, Option.some.injEq,
    OrSet.mem_iter] at ht
  rw [ht]
  constructor
  · intro h
    obtain ⟨hheld | ⟨d, hd, -, rfl⟩, hnot⟩ := h
    · by_contra hwanted
      exact hnot ⟨t, hheld, hwanted, rfl⟩
    · exact hd
  · intro hwanted
    refine ⟨?_, ?_⟩
    · by_cases hheld : before.contains t = true
      · exact .inl hheld
      · exact .inr ⟨t, hwanted, hheld, rfl⟩
    · intro hgone
      obtain ⟨c, -, hc, rfl⟩ := hgone
      exact hc hwanted

theorem Replaced.groups {wanted : List Text} {before after : OrSet GroupId}
    (h : Replaced GroupId.toHex (fun t => (parseGroupId t).toOption) wanted before after) (g : GroupId) :
    after.contains g = true ↔
      (∃ t ∈ wanted, parseGroupId t = .ok g) ∧ (before.contains g = true → g.toHex ∈ wanted) := by
  have hread : ∀ {t : Text} {a : GroupId}, (parseGroupId t).toOption = some a ↔ parseGroupId t = .ok a := by
    intro t a
    cases parseGroupId t <;> simp [Except.toOption]
  -- what the set shows of a group reads back as the group
  have hshown : ∀ {t : Text}, t ∈ before.iter.map GroupId.toHex → parseGroupId t = .ok g → before.contains g = true ∧ t = g.toHex := by
    intro t ht hparse
    obtain ⟨a, ha, rfl⟩ := List.mem_map.mp ht
    rw [parseGroupId_toHex] at hparse
    cases hparse
    exact ⟨OrSet.mem_iter.mp ha, rfl⟩
  have hg := Set.ext_iff.mp h g
  simp only [OrSet.mem_members, Set.mem_sdiff, Set.mem_union, Set.mem_ofPred_eq, hread] at hg
  rw [hg]
  constructor
  · intro hin
    obtain ⟨hin, hnot⟩ := hin
    have hkeep : before.contains g = true → g.toHex ∈ wanted := by
      intro hheld
      by_contra hwanted
      exact hnot ⟨g.toHex, List.mem_map_of_mem (OrSet.mem_iter.mpr hheld), hwanted, parseGroupId_toHex g⟩
    refine ⟨?_, hkeep⟩
    obtain hheld | ⟨t, ht, -, hparse⟩ := hin
    · exact ⟨g.toHex, hkeep hheld, parseGroupId_toHex g⟩
    · exact ⟨t, ht, hparse⟩
  · intro hin
    obtain ⟨⟨t, ht, hparse⟩, hkeep⟩ := hin
    refine ⟨?_, ?_⟩
    · by_cases hheld : before.contains g = true
      · exact .inl hheld
      · exact .inr ⟨t, ht, fun hmem => hheld (hshown hmem hparse).1, hparse⟩
    · intro hgone
      obtain ⟨c, hc, hnot, hparse⟩ := hgone
      obtain ⟨hheld, rfl⟩ := hshown hc hparse
      exact hnot (hkeep hheld)

theorem Replaced.origins {toLowercase : Text → Text} {wanted : List Text} {before after : OrSet Text}
    (h : Replaced id (fun o => some (normaliseOrigin toLowercase o)) wanted before after) (o : Text) :
    after.contains o = true ↔
      (before.contains o = true ∨ ∃ t ∈ wanted, before.contains t = false ∧ normaliseOrigin toLowercase t = o) ∧
        ∀ c, before.contains c = true → c ∉ wanted → normaliseOrigin toLowercase c ≠ o := by
  have ho := Set.ext_iff.mp h o
  simp only [OrSet.mem_members, List.map_id, Set.mem_sdiff, Set.mem_union, Set.mem_ofPred_eq, Option.some.injEq,
    OrSet.mem_iter, Bool.not_eq_true] at ho
  rw [ho]
  simp only [not_exists, not_and, ne_eq]

theorem turns_element {T : Type} [LinearOrder T] {field : Item.SetField T} {f : Set T → Set T} (op : ObjectOp) (e : T)
    (read : Text → Option T) {d : Text} (hread : read d = some e)
    (hop : ∀ amb (u : Vault S), u.Seen → Meets (op.run E amb) u (fun _ w => u.Edited iid (field.Moves f) w) (fun _ _ => True))
    {x : Ambient → Io (Vault S) Unit} (hx : ∀ amb, op.run E amb = x amb) {c : Set T → Set T → Set T} (hf : f = (c · {e})) :
    Turns E v iid (fun y z => ∃ e, read d = some e ∧ field.Moves (c · {e}) y z) (calling x) := by
  refine (turns_calling (R := field.Moves f) ?_ ?_).mono ?_
  · exact fun amb u hu => hx amb ▸ hop amb u hu
  · exact fun amb u hu => hx amb ▸ (Op.atomic (.object op)).seen hu
  · exact fun y z h => ⟨e, hread, hf ▸ h⟩

theorem turns_groups (wanted : Option (List Text)) :
    Turns E v iid (Item.groupsField.Takes GroupId.toHex (fun t => (parseGroupId t).toOption) wanted)
      (replacing iid wanted (fun x => x.groups.iter.map GroupId.toHex) (addGroupText E iid) (removeGroupText E iid)) := by
  refine turns_replacing Item.groupsField ?_ ?_
  · intro d
    refine Turns.parsed fun g hg => turns_element (.addToGroup iid g) g
      (fun t => (parseGroupId t).toOption) ?_ (fun amb u hu => Vault.addToGroup_edits hu g)
      (fun _ => rfl) rfl
    rw [hg]
    rfl
  · intro d
    refine Turns.parsed fun g hg => turns_element (.removeFromGroup iid g) g
      (fun t => (parseGroupId t).toOption) ?_ (fun amb u hu => Vault.removeFromGroup_edits hu g) (fun _ => rfl) rfl
    rw [hg]
    rfl

theorem turns_tags (wanted : Option (List Text)) :
    Turns E v iid (Item.tagsField.Takes id some wanted)
      (replacing iid wanted (fun x => x.tags.iter) (fun t => calling fun amb => Vault.addTag E amb iid t)
        (fun t => calling fun amb => Vault.removeTag E amb iid t)) := by
  have hshown : (fun x : Item => x.tags.iter) = fun x => (Item.tagsField.get x).iter.map id := by
    funext x
    exact (List.map_id _).symm
  rw [hshown]
  refine turns_replacing Item.tagsField ?_ ?_
  · exact fun t => turns_element (.addTag iid t) t some rfl (fun amb u hu => Vault.addTag_edits hu t) (fun _ => rfl) rfl
  · exact fun t => turns_element (.removeTag iid t) t some rfl (fun amb u hu => Vault.removeTag_edits hu t) (fun _ => rfl) rfl

theorem turns_origins (wanted : Option (List Text)) :
    Turns E v iid (Item.originsField.Takes id (fun o => some (normaliseOrigin E.toLowercase o)) wanted)
      (replacing iid wanted (fun x => x.origins.iter) (fun o => calling fun amb => Vault.addOrigin E amb iid o)
        (fun o => calling fun amb => Vault.removeOrigin E amb iid o)) := by
  have hshown : (fun x : Item => x.origins.iter) = fun x => (Item.originsField.get x).iter.map id := by
    funext x
    exact (List.map_id _).symm
  rw [hshown]
  refine turns_replacing Item.originsField ?_ ?_
  · exact fun o => turns_element (.addOrigin iid o) _
      (fun o => some (normaliseOrigin E.toLowercase o)) rfl (fun amb u hu => Vault.addOrigin_edits hu o) (fun _ => rfl) rfl
  · exact fun o => turns_element (.removeOrigin iid o) _
      (fun o => some (normaliseOrigin E.toLowercase o)) rfl (fun amb u hu => Vault.removeOrigin_edits hu o)
      (fun _ => rfl) rfl

/-- The fields written, then each list in the place of its set. -/
theorem replaces_of_takes {edit : Dto.EditInput} {built : Edit} {y a b x : Item} {h : Hlc}
    (hlater : ∀ k ∈ y.everyHlc, k < h)
    (hgroups : Item.groupsField.Takes GroupId.toHex (fun t => (parseGroupId t).toOption) edit.groups (built.write y h) a)
    (htags : Item.tagsField.Takes id some edit.tags a b)
    (horigins : Item.originsField.Takes id (fun o => some (normaliseOrigin E.toLowercase o)) edit.origins b x) :
    Replaces E edit built y x := by
  obtain ⟨groups, rfl, hgroups⟩ := hgroups
  obtain ⟨tags, rfl, htags⟩ := htags
  obtain ⟨origins, rfl, horigins⟩ := horigins
  refine ⟨⟨h, hlater, rfl⟩, ?_, ?_, ?_⟩
  · cases hwanted : edit.tags with
    | none =>
      rw [hwanted] at htags
      exact htags
    | some wanted =>
      rw [hwanted] at htags
      exact Replaced.tags htags
  · cases hwanted : edit.groups with
    | none =>
      rw [hwanted] at hgroups
      exact hgroups
    | some wanted =>
      rw [hwanted] at hgroups
      exact Replaced.groups hgroups
  · cases hwanted : edit.origins with
    | none =>
      rw [hwanted] at horigins
      exact horigins
    | some wanted =>
      rw [hwanted] at horigins
      exact Replaced.origins horigins

theorem doUpdate_ensures {core : Core S} {session : Session S} (hl : core.lifecycle = .unlocked session)
    (hseen : session.vault.Seen) (id : Text) (edit : Dto.EditInput) (w : Transcript S) :
    (doUpdate E id edit).Ensures Eq (Hears E) (fun _ _ _ => True) core w
      (fun _ core' _ => ∃ iid built y x, parseItemId id = .ok iid ∧ buildEdit edit = .ok built ∧
        session.vault.items.get iid = some y ∧ Replaces E edit built y x ∧ At session.vault iid x core')
      (fun _ _ _ => True) := by
  apply Prog.Ensures.bind
  apply Prog.Ensures.ofExcept
  · intro iid hid
    apply Prog.Ensures.bind
    apply Prog.Ensures.ofExcept
    · intro built hbuilt
      apply Prog.Ensures.bind
      apply (calling_edits hl (fun amb => Vault.update_edits hseen built)
        (fun amb => (Op.atomic (.object (.update iid built))).seen hseen) w).mono
      · intro _ core₁ w₁ h
        obtain ⟨y, y₁, hget, ⟨h, hlater, rfl⟩, hat⟩ := h
        have hsets : Turns E session.vault iid _ _ := (turns_groups edit.groups).bind fun _ =>
          (turns_tags edit.tags).bind fun _ => (turns_origins edit.origins).bind fun _ => turns_extend
        apply (hsets core₁ w₁ _ hat).mono
        · intro _ core' _ h
          obtain ⟨x, ⟨a, hgroups, b, htags, c, horigins, rfl⟩, hx⟩ := h
          exact ⟨iid, built, y, c, hid, hbuilt, hget, replaces_of_takes hlater hgroups htags horigins, hx⟩
        · exact fun _ _ _ _ => trivial
      · exact fun _ _ _ _ => trivial
    · exact fun _ _ => trivial
  · exact fun _ _ => trivial

theorem doUpdate_locked {core : Core S} (hlocked : ¬ core.Unlocked) (id : Text) (edit : Dto.EditInput) (w : Transcript S) :
    (doUpdate E id edit).Ensures Eq (Hears E) (fun _ _ _ => True) core w (fun _ _ _ => False) (fun _ _ _ => True) := by
  apply Prog.Ensures.bind
  apply Prog.Ensures.ofExcept
  · intro iid _
    apply Prog.Ensures.bind
    apply Prog.Ensures.ofExcept
    · intro built _
      show Calls.Ensures _ _ _ _ _ ((calling (fun amb => Vault.update E amb iid built) >>= _) core) w
      rw [Prog.bind_of_error (calling_locked hlocked _)]
      exact trivial
    · exact fun _ _ => trivial
  · exact fun _ _ => trivial

end Programs

/-- An update that is answered with success has done to the item it names what the edit says, and nothing to any other
object. -/
theorem update_replaces {S : Type} [LawfulStore S] {E : Externals} {cbor : Roster → Option Bytes}
    {Cond : List (Event S) → Task S → Event S → Prop} {log : List (Event S)} {t u : Task S} {c : Sent} {id : Text}
    {edit : Dto.EditInput} {w : Transcript S} (hrun : Run E cbor Cond log t) (hc : c.command = .update id edit)
    (hstep : Step E cbor t (.served c w (.result (.ok ()))) u) :
    ∃ before after iid built y x, t.phase.core.lifecycle = .unlocked before ∧ u.phase.core.lifecycle = .unlocked after ∧
      parseItemId id = .ok iid ∧ buildEdit edit = .ok built ∧ before.vault.items.get iid = some y ∧
      after.vault.items.get iid = some x ∧ Replaces E edit built y x ∧
      (∀ i, i ≠ iid → after.vault.items.get i = before.vault.items.get i) ∧ after.vault.groups = before.vault.groups := by
  cases hstep with
  | @served core core' _ _ _ hp hsync hran =>
    rw [hc] at hran
    -- the clock is past every stamp of the vault in every state a run reaches
    have hseen : Holding Vault.Seen core := by
      have hcore := (hrun.holds kept_seen).core
      rw [hp] at hcore
      exact hcore
    rw [core_after, hp]
    by_cases hopen : core.Unlocked
    · obtain ⟨before, hl⟩ := hopen
      have hen : (answer E cbor (.update id edit)).Ensures Eq (Hears E) (fun _ _ _ => True) core []
          (fun reply core' _ => reply = .result (.ok ()) → ∃ iid built y x, parseItemId id = .ok iid ∧
            buildEdit edit = .ok built ∧ before.vault.items.get iid = some y ∧ Replaces E edit built y x ∧
            At before.vault iid x core') (fun _ _ _ => True) := by
        apply Prog.Ensures.bind
        apply Prog.Ensures.attempt
        apply (doUpdate_ensures hl (hseen before hl) id edit []).mono
        · exact fun _ _ _ h _ => h
        · intro e _ _ _ herr
          cases herr
      obtain ⟨iid, built, y, x, hid, hbuilt, hget, hrep, after, hl', -, hx, hother, hgroups⟩ := hen.ran hran rfl
      exact ⟨before, after, iid, built, y, x, hl, hl', hid, hbuilt, hget, hx, hrep, hother, hgroups⟩
    · -- a locked vault is told so, whatever was wrong before
      have hen : (answer E cbor (.update id edit)).Ensures Eq (Hears E) (fun _ _ _ => True) core []
          (fun reply _ _ => reply ≠ .result (.ok ())) (fun _ _ _ => True) := by
        apply Prog.Ensures.bind
        apply Prog.Ensures.attempt
        apply (doUpdate_locked hopen id edit []).mono
        · exact fun _ _ _ h => h.elim
        · intro e _ _ _ herr
          cases herr
      exact absurd rfl (hen.ran hran)

/-! ## Worked instance -/

/-- The sample under one tag. -/
def taggedSample : Item := { addedSample with tags := addedSample.tags.add ['x'] (Hlc.early 3 1) }

/-- An item is added, and then its tags are replaced by one. -/
theorem update_replaces_tag : ∃ (t u : Task MemoryStore) (before after : Session MemoryStore) (y x : Item),
    t.phase.core.lifecycle = .unlocked before ∧ u.phase.core.lifecycle = .unlocked after ∧
      before.vault.items.get addedSample.id = some y ∧ after.vault.items.get addedSample.id = some x ∧
      ∀ tag : Text, x.tags.contains tag = true ↔ tag ∈ [['x']] := by
  let E : Externals := .sample [addedSample, taggedSample] []
  let cbor : Roster → Option Bytes := fun _ => none
  let c : Command := .update (hexEncode addedSample.id.bytes.val) { tags := some [['x']] }
  have hall : ((addedCore E cbor).bind (serving E cbor c)).isSome = true := by decide +kernel
  obtain ⟨updated, hupdated⟩ := Option.isSome_iff_exists.mp hall
  obtain ⟨core, hadded, hserving⟩ := Option.bind_eq_some_iff.mp hupdated
  obtain ⟨log, hrun⟩ := run_added hadded
  obtain ⟨w, hruns⟩ := runs_serving hserving
  have hsent := Run.step hrun (.sent c (fun _ h => by cases h)) trivial
  have hwoke := Run.step hsent (.woke (I64.saturate 0) rfl rfl) trivial
  obtain ⟨before, after, iid, built, y, x, hl, hl', hid, -, hget, hx, hrep, -⟩ :=
    update_replaces hwoke rfl (.served rfl (fun h => by cases h) hruns)
  have hparse : parseItemId (hexEncode addedSample.id.bytes.val) = .ok addedSample.id := by
    unfold parseItemId
    rw [parseId_hexEncode]
    rfl
  rw [hparse] at hid
  cases hid
  exact ⟨_, _, before, after, y, x, hl, hl', hget, hx, hrep.tags⟩

end Core

end Misty
