import Misty.Vault.Move
import Misty.Vault.Backends

/- Telling accounts apart. Within one site's accounts the live items are to have
   distinct nicknames, no nickname being one of the values. `add` and `update` check
   it against the whole vault, and an edit that leaves the names alone keeps it.
   `merge_duplicate` writes a nickname and checks nothing: the rule holds along the
   local writes in which it is given none, or one that is not taken
   (`distinguishable_of_local_writes`). -/
namespace Misty

open LawfulStore (view)

variable {S : Type} [LawfulStore S] (E : Externals)

/-- The folded nickname, if there is one. -/
def Item.foldedNickname (self : Item) : Option Text := self.nickname.value.map (fold E.toLowercase)

/-- Live items of one site and account have different folded nicknames. -/
def Vault.Distinguishable (self : Vault S) : Prop :=
  ∀ x y : Item, self.items.get x.id = some x → self.items.get y.id = some y → x.isLive = true → y.isLive = true →
    x.sameSiteKey E.toLowercase = y.sameSiteKey E.toLowercase → x.foldedNickname E = y.foldedNickname E → x.id = y.id

/-- The item an operation is on is live. -/
def ObjectOp.OnLive (v : Vault S) (op : ObjectOp) : Prop :=
  ∀ id y, op.target = some id → v.items.get id = some y → y.isLive = true

/-- A nickname that comes with a duplicate is no other's among the accounts of the item's site. -/
def ObjectOp.NicknameFree (v : Vault S) (op : ObjectOp) : Prop :=
  ∀ existing new n y, op = .mergeDuplicate existing new → new.nickname = some n → v.items.get existing = some y →
    ∀ other ∈ v.sameSiteCluster E y.issuer.value y.account.value, other.id ≠ existing →
      other.foldedNickname E ≠ some (fold E.toLowercase n)

/-- A local write, whatever comes of it. -/
inductive LocalWrite (Cond : ObjectOp → Vault S → Prop) (v : Vault S) : Vault S → Prop
  | intro {amb : Ambient} {op : ObjectOp} : Cond op v →
      LocalWrite Cond v (stateAfter ((Op.atomic (.object op)).run E amb) v)

variable {E} {amb : Ambient}

omit [LawfulStore S] in
theorem Vault.Distinguishable.congr {v w : Vault S} (h : v.Distinguishable E) (hitems : w.items = v.items) :
    w.Distinguishable E := by
  unfold Vault.Distinguishable
  rw [hitems]
  exact h

omit [LawfulStore S] in
theorem Vault.mem_cluster {v : Vault S} {x y : Item} (hget : v.items.get y.id = some y) (hlive : y.isLive = true)
    (hsite : y.sameSiteKey E.toLowercase = x.sameSiteKey E.toLowercase) :
    y ∈ v.sameSiteCluster E x.issuer.value x.account.value :=
  (Vault.mem_sameSiteCluster E).mpr ⟨hget, hlive, hsite⟩

omit [LawfulStore S] in
/-- An item no other live item of its site is named like can be stored. -/
theorem Vault.Distinguishable.replace {v : Vault S} (h : v.Distinguishable E) {x : Item}
    (hx : x.isLive = true → ∀ other ∈ v.sameSiteCluster E x.issuer.value x.account.value, other.id ≠ x.id →
      other.foldedNickname E ≠ x.foldedNickname E) : (v.adopt (.item x)).Distinguishable E := by
  intro a b ha hb hlivea hliveb hsite hname
  have hheld : ∀ {y : Item}, (v.adopt (.item x)).items.get y.id = some y →
      y = x ∨ v.items.get y.id = some y ∧ y.id ≠ x.id :=
    fun hy => (ItemSet.holds_replace _ _ _).mp hy
  rcases hheld ha with rfl | ⟨holda, hida⟩
  · rcases hheld hb with rfl | ⟨holdb, hidb⟩
    · rfl
    · exact absurd hname.symm (hx hlivea b (Vault.mem_cluster holdb hliveb hsite.symm) hidb)
  · rcases hheld hb with rfl | ⟨holdb, hidb⟩
    · exact absurd hname (hx hliveb a (Vault.mem_cluster holda hlivea hsite) hida)
    · exact h a b holda holdb hlivea hliveb hsite hname

omit [LawfulStore S] in
/-- `check_same_site`: a new item that passes is named like no account of its site. -/
theorem nickname_of_checkSameSite {v : Vault S} {new : NewItem} (h : v.checkSameSite E new = .ok ()) :
    ∀ other ∈ v.sameSiteCluster E new.issuer new.account,
      other.foldedNickname E ≠ new.nickname.map (fold E.toLowercase) := by
  intro other hmem hname
  unfold Vault.checkSameSite at h
  dsimp only at h
  split at h
  · cases h
  · split at h
    · cases h
    · next hnone =>
      have hfind := List.find?_eq_none.mp (Option.eq_none_iff_forall_ne_some.mpr hnone) other hmem
      exact hfind (decide_eq_true hname)

omit [LawfulStore S] in
/-- What a local write is about to commit can be told from the other accounts of its site. -/
theorem Drafted.distinguishable {v w : Vault S} {op : ObjectOp} {o : Decoded} (h : Drafted E amb v w op o)
    (hlive : op.OnLive v) (hfree : op.NicknameFree E v) (hv : v.Distinguishable E) :
    (v.adopt o).Distinguishable E := by
  cases h with
  | added _ _ hsite => exact hv.replace fun _ other hmem _ => nickname_of_checkSameSite hsite other hmem
  | @edited y x hget htarget hid _ hnames =>
    have hylive := hlive y.id y htarget hget
    refine hv.replace fun hxlive other hmem hne => ?_
    -- with the old names the item was told from the others before
    have hold : x.issuer = y.issuer → x.account = y.account → other.foldedNickname E ≠ y.foldedNickname E := by
      intro hissuer haccount hname
      rw [hissuer, haccount] at hmem
      obtain ⟨hother, hotherLive, hsite⟩ := (Vault.mem_sameSiteCluster E).mp hmem
      exact hne ((hv other y hother hget hotherLive hylive hsite hname).trans hid.symm)
    cases hnames with
    | same hsame =>
      have hnick : x.foldedNickname E = y.foldedNickname E := by
        unfold Item.foldedNickname
        rw [hsame.nickname]
      rw [hnick]
      exact hold hsame.issuer hsame.account
    | @duplicated existing new hissuer haccount hnick =>
      rcases hnick with hnick | ⟨n, hn, hnick⟩
      · have hsame : x.foldedNickname E = y.foldedNickname E := by
          unfold Item.foldedNickname
          rw [hnick]
        rw [hsame]
        exact hold hissuer haccount
      · have hwritten : x.foldedNickname E = some (fold E.toLowercase n) := by
          unfold Item.foldedNickname
          rw [hnick]
          rfl
        have hexisting : existing = y.id := Option.some.inj htarget
        rw [hissuer, haccount] at hmem
        rw [hwritten]
        subst hexisting
        exact hfree _ new n y rfl hn hget other hmem (hid ▸ hne)
    | updated hcheck => exact hcheck other hmem hne
  | groupAdded _ _ => exact hv.congr rfl
  | groupEdited _ _ _ => exact hv.congr rfl

theorem LocalWrite.distinguishable {v w : Vault S}
    (h : LocalWrite E (fun op v => op.OnLive v ∧ op.NicknameFree E v) v w) (hv : v.Distinguishable E) :
    w.Distinguishable E := by
  obtain ⟨hlive, hfree⟩ := h
  refine Op.run_induct _ hv ?_
  intro u w' hu hstart hmove
  obtain rfl := hstart trivial
  cases hmove with
  | quiet hq => exact hu.congr hq.items
  | settled hq hp hsettled =>
    cases hp with
    | object hcommits hdrafted _ =>
      cases hcommits
      obtain ⟨s, -, -, rfl⟩ := hsettled
      have hadopted := hdrafted.distinguishable hlive hfree hu
      -- the model is adopted into the vault as the transaction left it
      refine hadopted.congr ?_
      cases ‹Decoded› with
      | item x => exact congrArg (fun items : ItemSet => items.replace x) hq.items
      | group g => exact hq.items
  | rotated hop _ _ _ _ => cases hop
  | torn hq _ hw => exact hu.congr (by rw [hw]; exact hq.items)

/-- Along the local writes on live items, failed ones included, the live accounts of a site stay apart, if no
duplicate comes with a nickname that another of them has. -/
theorem distinguishable_of_local_writes {v w : Vault S}
    (h : Relation.ReflTransGen (LocalWrite E (fun op v => op.OnLive v ∧ op.NicknameFree E v)) v w)
    (hv : v.Distinguishable E) : w.Distinguishable E := by
  induction h with
  | refl => exact hv
  | tail _ hwrite ih => exact hwrite.distinguishable ih

/-! ## Two accounts with one nickname -/

/-- An account of the site to add. -/
def NewItem.sample (secret : Byte) (nickname : Option Text) : NewItem :=
  { NewItem.totp ⟨[secret]⟩ ['s'] ['a'] with nickname := nickname }

/-- The first account, called `w`. -/
def Item.first : Item :=
  Item.create ⟨ByteArr.repeated 16 5⟩ (.sample 1 (some ['w'])) (Hlc.early 1 1) (I64.saturate MIN_WALL_MS)

/-- The second, without a nickname. -/
def Item.second : Item :=
  Item.create ⟨ByteArr.repeated 16 6⟩ (.sample 2 none) (Hlc.early 2 1) (I64.saturate MIN_WALL_MS)

/-- The externals of a vault that adds both and merges a duplicate into the second. -/
def Externals.duplicating : Externals :=
  .sample [.first, .second, Vault.duplicateChange (.sample 2 (some ['W'])) .second (Hlc.early 3 1)] []

/-- A vault with the first account. -/
def Vault.one : Vault MemoryStore :=
  stateAfter ((Op.atomic (.object (.add (.sample 1 (some ['w']))))).run .duplicating (.sample 5)) (.sample .new [1])

/-- A vault with both. -/
def Vault.two : Vault MemoryStore :=
  stateAfter ((Op.atomic (.object (.add (.sample 2 none)))).run .duplicating (.sample 6)) .one

/-- The same credential as the second, called `W`, is merged into it. -/
def Vault.twins : Vault MemoryStore :=
  stateAfter ((Op.atomic (.object (.mergeDuplicate Item.second.id (.sample 2 (some ['W']))))).run .duplicating
    (.sample 7)) .two

theorem Vault.distinguishable_empty : (Vault.sample MemoryStore.new [1]).Distinguishable .duplicating := by
  intro x y hx
  simp [Vault.sample, ItemSet.new, ItemSet.get] at hx

/-- One account is told from the others. -/
theorem distinguishable_of_local_writes_one : Vault.one.Distinguishable .duplicating := by
  refine distinguishable_of_local_writes (.single (.intro ⟨?_, ?_⟩)) Vault.distinguishable_empty
  · intro id y htarget
    cases htarget
  · intro existing new n y hop
    cases hop

set_option maxRecDepth 20000 in
/-- A duplicate gives the second account the nickname of the first, in other case. -/
theorem duplicate_takes_nickname :
    (Vault.sample MemoryStore.new [1]).Distinguishable .duplicating ∧
      Relation.ReflTransGen (LocalWrite .duplicating (fun op v => op.OnLive v)) (.sample .new [1]) Vault.twins ∧
      ¬ Vault.twins.Distinguishable .duplicating := by
  refine ⟨Vault.distinguishable_empty, ?_, ?_⟩
  · have hone : LocalWrite .duplicating (fun op v => op.OnLive v) (Vault.sample MemoryStore.new [1]) .one :=
      .intro fun id y htarget => by cases htarget
    have htwo : LocalWrite .duplicating (fun op v => op.OnLive v) Vault.one .two :=
      .intro fun id y htarget => by cases htarget
    have htwins : LocalWrite .duplicating (fun op v => op.OnLive v) Vault.two .twins := by
      refine .intro fun id y htarget hget => ?_
      have hlive : (Vault.two.items.get Item.second.id).all Item.isLive = true := by decide
      cases htarget
      rw [hget] at hlive
      exact hlive
    exact .tail (.tail (.single hone) htwo) htwins
  · intro h
    have hsome : (Vault.twins.items.get Item.first.id).isSome = true ∧ (Vault.twins.items.get Item.second.id).isSome = true := by
      decide
    obtain ⟨x, hx⟩ := Option.isSome_iff_exists.mp hsome.1
    obtain ⟨y, hy⟩ := Option.isSome_iff_exists.mp hsome.2
    have hpair : ((Vault.twins.items.get Item.first.id).any fun x => (Vault.twins.items.get Item.second.id).any fun y =>
        x.isLive && y.isLive && x.sameSiteKey Externals.duplicating.toLowercase =
          y.sameSiteKey Externals.duplicating.toLowercase &&
        x.foldedNickname .duplicating = y.foldedNickname .duplicating) = true := by decide
    rw [hx, hy] at hpair
    simp only [Option.any_some, Bool.and_eq_true, decide_eq_true_iff] at hpair
    obtain ⟨⟨⟨hlivex, hlivey⟩, hsite⟩, hname⟩ := hpair
    have hidx := ItemSet.id_of_get hx
    have hidy := ItemSet.id_of_get hy
    have heq := h x y (by rw [hidx]; exact hx) (by rw [hidy]; exact hy) hlivex hlivey hsite hname
    rw [hidx, hidy] at heq
    exact absurd heq (by decide)

end Misty
