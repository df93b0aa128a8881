import Misty.Vault.Merge
import Misty.Vault.Edit

/- Convergence of the item sets. A `Plan` is any way to combine sets with `merge`
   and single items with `absorb`; two plans over the same items that both go
   through end with the same map, and the only error a plan can meet (besides a
   derivation of ids that fails) is a displacement that does not settle.

   The premise is the clocks': no two registers of one field, and no two
   tombstones, carry one clock with two values. The derived ids need not be
   distinct. -/
namespace Misty

open Std (ExtTreeMap)

/-- A way to combine item sets. -/
inductive Plan where
  | set (s : ItemSet)
  | merge (p q : Plan)
  | absorb (p : Plan) (x : Item)

namespace Plan

/-- Running a plan, with the one conflict list every call appends to. -/
def run (fork : ForkIds) : Plan → List Conflict → Result ItemSet × List Conflict
  | set s, cs => (.ok s, cs)
  | merge p q, cs =>
    match p.run fork cs with
    | (.error e, cs) => (.error e, cs)
    | (.ok a, cs) =>
      match q.run fork cs with
      | (.error e, cs) => (.error e, cs)
      | (.ok b, cs) =>
        match a.merge fork b cs with
        | (.error e, _, cs) => (.error e, cs)
        | (.ok _, s, cs) => (.ok s, cs)
  | absorb p x, cs =>
    match p.run fork cs with
    | (.error e, cs) => (.error e, cs)
    | (.ok a, cs) =>
      match a.absorb fork x cs with
      | (.error e, _, cs) => (.error e, cs)
      | (.ok _, s, cs) => (.ok s, cs)

/-- The items a plan combines. -/
def items : Plan → Set Item
  | set s => Arena.items s.items
  | merge p q => p.items ∪ q.items
  | absorb p x => insert x p.items

end Plan

/-- No clock stands for two values of one field, nor for two tombstones. -/
structure CollisionFree (F : Set Item) : Prop where
  registers : ∀ x ∈ F, ∀ y ∈ F, ∀ r : Register,
    (x.register r).hlc = (y.register r).hlc → (x.register r).value = (y.register r).value
  tombstones : ∀ x ∈ F, ∀ y ∈ F, ∀ t u : Tombstone,
    x.deleted = some t → y.deleted = some u → t.hlc = u.hlc → t.reason = u.reason

/-- Every register and the tombstone of `x` are some item's of the family. -/
structure Drawn (F : Set Item) (x : Item) : Prop where
  registers : ∀ r, ∃ b ∈ F, x.register r = b.register r
  tombstone : x.deleted = none ∨ ∃ b ∈ F, x.deleted = b.deleted

namespace Drawn

variable {F : Set Item}

theorem of_mem {x : Item} (h : x ∈ F) : Drawn F x :=
  ⟨fun _ => ⟨x, h, rfl⟩, .inr ⟨x, h, rfl⟩⟩

theorem rebind {x : Item} (h : Drawn F x) (i : ItemId) : Drawn F (x.rebind i) :=
  ⟨fun r => by simpa using h.registers r, h.tombstone⟩

theorem later {x y : Item} (hx : Drawn F x) (hy : Drawn F y) : Drawn F (x.later y) := by
  refine ⟨fun r => ?_, ?_⟩
  · rw [Item.register_later]
    rcases Lww.later_eq_or (x.register r) (y.register r) with h | h
    · rw [h]
      exact hx.registers r
    · rw [h]
      exact hy.registers r
  · rcases mergeTombstone_eq_or x.deleted y.deleted with h | h
    · simp only [Item.later, h]
      exact hx.tombstone
    · simp only [Item.later, h]
      exact hy.tombstone

variable (hF : CollisionFree F)
include hF

theorem agrees {x y : Item} (hx : Drawn F x) (hy : Drawn F y) : x.Agrees y := by
  intro r
  obtain ⟨a, ha, hxa⟩ := hx.registers r
  obtain ⟨b, hb, hyb⟩ := hy.registers r
  rw [hxa, hyb]
  exact hF.registers a ha b hb r

theorem stonesAgree {x y : Item} (hx : Drawn F x) (hy : Drawn F y) :
    StonesAgree x.deleted y.deleted := by
  intro hclock
  cases hdx : x.deleted with
  | none =>
    cases hdy : y.deleted with
    | none => rfl
    | some u =>
      rw [hdx, hdy] at hclock
      cases hclock
  | some t =>
    cases hdy : y.deleted with
    | none =>
      rw [hdx, hdy] at hclock
      cases hclock
    | some u =>
      rw [hdx, hdy] at hclock
      have hhlc : t.hlc = u.hlc := Option.some.inj hclock
      rcases hx.tombstone with h | ⟨a, ha, hxa⟩
      · rw [hdx] at h
        cases h
      rcases hy.tombstone with h | ⟨b, hb, hyb⟩
      · rw [hdy] at h
        cases h
      have hreason := hF.tombstones a ha b hb t u (hxa ▸ hdx) (hyb ▸ hdy) hhlc
      cases t
      cases u
      cases hhlc
      cases hreason
      rfl

/-- Two items of one credential in the family merge to their least upper bound. -/
theorem isLUB_joined {x y w : Item} (hx : Drawn F x) (hy : Drawn F y) (h : x.joined y = .ok w) :
    IsLUB {x.content, y.content} w.content ∧ Drawn F w := by
  rw [(Item.joined_eq_ok h).2.2.2]
  exact ⟨Item.isLUB_later (hx.agrees hF hy) (hx.stonesAgree hF hy), hx.later hy⟩

end Drawn

namespace ItemSet

variable {F : Set Item} (hF : CollisionFree F) {fork : ForkIds}

/-- Every item of the set is drawn from the family. -/
def DrawnFrom (F : Set Item) (s : ItemSet) : Prop := ∀ x ∈ Arena.items s.items, Drawn F x

include hF

theorem absorb_same {s s' : ItemSet} {x : Item} {cs cs' : List Conflict} {ids : List ItemId}
    (h : s.absorb fork x cs = (.ok ids, s', cs')) (hs : s.DrawnFrom F) (hx : Drawn F x) :
    (arena fork).Same Item.content (Insert.insert x (Arena.items s.items)) (Arena.items s'.items) ∧
      s'.DrawnFrom F := by
  obtain ⟨t, habs, -⟩ := absorb_spec h
  have hjoin : ∀ a b w, Drawn F a → Drawn F b → a.id = b.id → a.secret = b.secret →
      a.joined b = .ok w → IsLUB {a.content, b.content} w.content ∧ Drawn F w :=
    fun a b w ha hb _ _ hw => ha.isLUB_joined hF hb hw
  refine ⟨?_, ?_⟩
  · exact Arena.same_absorb Item.content_rebind (fun x i => Drawn.rebind (i := i)) hjoin habs
      (keyed_arena fork s) hs hx
  · exact habs.fit (fun x i => Drawn.rebind (i := i)) hjoin (keyed_arena fork s) hs hx

theorem merge_same {a b s' : ItemSet} {cs cs' : List Conflict} {ids : List ItemId}
    (h : a.merge fork b cs = (.ok ids, s', cs')) (ha : a.DrawnFrom F) (hb : b.DrawnFrom F) :
    (arena fork).Same Item.content (Arena.items a.items ∪ Arena.items b.items)
      (Arena.items s'.items) ∧ s'.DrawnFrom F := by
  -- the items absorbed so far are in the set, those to come are still in the list
  obtain ⟨t, ⟨hsame, hdrawn, -⟩, -⟩ := mergeLoop_induct
    (fun rest s _ => (arena fork).Same Item.content (Arena.items a.items ∪ Arena.items b.items)
      (Arena.items s.items ∪ {x | x ∈ rest}) ∧ s.DrawnFrom F ∧ ∀ x ∈ rest, Drawn F x)
    (by
      rintro x rest s s' cs cs' t ids ⟨hsame, hs, hrest⟩ habs
      obtain ⟨hx, hs'⟩ := absorb_same hF habs hs (hrest x (by simp))
      refine ⟨hsame.trans ?_, hs', fun y hy => hrest y (by simp [hy])⟩
      have hsplit : Arena.items s.items ∪ {y | y ∈ x :: rest} =
          Insert.insert x (Arena.items s.items) ∪ {y | y ∈ rest} := by
        ext y
        simp only [Set.mem_union, Set.mem_ofPred_eq, List.mem_cons, Set.mem_insert_iff]
        tauto
      rw [hsplit]
      exact hx.union _)
    b.iter a cs [] ids s' cs' ⟨by
      have hiter : {x | x ∈ b.iter} = Arena.items b.items := by
        ext x
        constructor
        · intro hx
          exact ⟨x.id, mem_iter.mp hx⟩
        · rintro ⟨i, hi⟩
          refine mem_iter.mpr ?_
          rw [b.keyed i x hi]
          exact hi
      rw [hiter]
      exact .refl _, ha, fun x hx => hb x ⟨x.id, mem_iter.mp hx⟩⟩ h
  exact ⟨by simpa using hsame, hdrawn⟩

theorem absorbLoop_error : ∀ (steps : Nat) (x : Item) (s s' : ItemSet) (cs cs' : List Conflict)
    (touched : List ItemId) (e : VaultError), s.DrawnFrom F → Drawn F x →
    absorbLoop fork steps [x] s cs touched = (.error e, s', cs') →
    e = .mergeDidNotSettle MAX_MERGE_STEPS ∨ ∃ i secret, fork i secret = .error e
  | 0, x, s, s', cs, cs', touched, e, _, _, h => by
    simp only [absorbLoop, Prod.mk.injEq, Except.error.injEq] at h
    exact .inl h.1.symm
  | steps + 1, x, s, s', cs, cs', touched, e, hs, hx, h => by
    cases absorbLoop_round fork steps s x cs touched with
    | placed _ hout =>
      rw [hout, absorbLoop_nil] at h
      cases h
    | @refused own e' hy hsec hj hout =>
      have hown : Drawn F own := hs own ⟨_, hy⟩
      rcases Item.joined_outcome (id_of_get hy) hsec with ⟨-, hok⟩ | ⟨r, hr, -⟩
      · rw [hok] at hj
        cases hj
      · exact absurd (hown.agrees hF hx r) hr
    | joined _ _ _ hout =>
      rw [hout, absorbLoop_nil] at h
      cases h
    | stuck secret _ _ hf hout =>
      rw [hout] at h
      cases h
      exact .inr ⟨_, secret, hf⟩
    | kept _ _ _ hout =>
      rw [hout] at h
      exact absorbLoop_error steps _ _ _ _ _ _ _ hs (hx.rebind _) h
    | @evicted own j hy _ _ hout =>
      rw [hout] at h
      refine absorbLoop_error steps _ _ _ _ _ _ _ ?_ ((hs own ⟨_, hy⟩).rebind _) h
      rintro z ⟨i, hi⟩
      rw [replace_items, OrdMap.getElem?_insert] at hi
      split at hi
      · cases hi
        exact hx
      · exact hs z ⟨i, hi⟩

theorem mergeLoop_error : ∀ (items : List Item) (s s' : ItemSet) (cs cs' : List Conflict)
    (touched : List ItemId) (e : VaultError), s.DrawnFrom F → (∀ x ∈ items, Drawn F x) →
    mergeLoop fork items s cs touched = (.error e, s', cs') →
    e = .mergeDidNotSettle MAX_MERGE_STEPS ∨ ∃ i secret, fork i secret = .error e
  | [], s, s', cs, cs', touched, e, _, _, h => by simp [mergeLoop] at h
  | x :: items, s, s', cs, cs', touched, e, hs, hxs, h => by
    unfold mergeLoop at h
    split at h
    · next e' s₁ cs₁ habs =>
      cases h
      exact absorbLoop_error hF _ _ _ _ _ _ _ _ hs (hxs x (by simp)) habs
    · next ids s₁ cs₁ habs =>
      obtain ⟨-, hs₁⟩ := absorb_same hF habs hs (hxs x (by simp))
      exact mergeLoop_error items _ _ _ _ _ _ hs₁ (fun y hy => hxs y (by simp [hy])) h

end ItemSet

namespace Plan

variable {F : Set Item} (hF : CollisionFree F) {fork : ForkIds}
include hF

/-- A plan that goes through ends with a set that stands for its items. -/
theorem run_same : ∀ (p : Plan) (cs cs' : List Conflict) (s : ItemSet), p.items ⊆ F →
    p.run fork cs = (.ok s, cs') →
    (ItemSet.arena fork).Same Item.content p.items (Arena.items s.items) ∧ s.DrawnFrom F
  | .set s₀, cs, cs', s, hsub, h => by
    obtain ⟨rfl, rfl⟩ : _ ∧ _ := by simpa [run] using h
    exact ⟨.refl _, fun x hx => .of_mem (hsub hx)⟩
  | .merge p q, cs, cs', s, hsub, h => by
    unfold run at h
    split at h
    · cases h
    next a cs₁ hp =>
    split at h
    · cases h
    next b cs₂ hq =>
    split at h
    · cases h
    next ids s' cs₃ hm =>
    cases h
    obtain ⟨hpa, ha⟩ := run_same p cs cs₁ a (fun x hx => hsub (.inl hx)) hp
    obtain ⟨hqb, hb⟩ := run_same q cs₁ cs₂ b (fun x hx => hsub (.inr hx)) hq
    obtain ⟨hab, hs⟩ := ItemSet.merge_same hF hm ha hb
    refine ⟨?_, hs⟩
    -- merging what both sides come to is merging what they were given
    have hleft := hpa.union q.items
    have hright := hqb.union (Arena.items a.items)
    rw [Set.union_comm, Set.union_comm (Arena.items b.items)] at hright
    exact (hleft.trans hright).trans hab
  | .absorb p x, cs, cs', s, hsub, h => by
    unfold run at h
    split at h
    · cases h
    next a cs₁ hp =>
    split at h
    · cases h
    next ids s' cs₂ hx =>
    cases h
    obtain ⟨hpa, ha⟩ := run_same p cs cs₁ a (fun y hy => hsub (.inr hy)) hp
    obtain ⟨hab, hs⟩ := ItemSet.absorb_same hF hx ha (.of_mem (hsub (.inl rfl)))
    refine ⟨?_, hs⟩
    have hins := hpa.union {x}
    rw [Set.union_singleton, Set.union_singleton] at hins
    exact hins.trans hab

theorem run_error : ∀ (p : Plan) (cs cs' : List Conflict) (e : VaultError), p.items ⊆ F →
    p.run fork cs = (.error e, cs') →
    e = .mergeDidNotSettle MAX_MERGE_STEPS ∨ ∃ i secret, fork i secret = .error e
  | .set s₀, cs, cs', e, _, h => by simp [run] at h
  | .merge p q, cs, cs', e, hsub, h => by
    have hpsub : p.items ⊆ F := fun x hx => hsub (.inl hx)
    have hqsub : q.items ⊆ F := fun x hx => hsub (.inr hx)
    unfold run at h
    split at h
    · next e' cs₁ hp =>
      cases h
      exact run_error p _ _ _ hpsub hp
    next a cs₁ hp =>
    split at h
    · next e' cs₂ hq =>
      cases h
      exact run_error q _ _ _ hqsub hq
    next b cs₂ hq =>
    split at h
    · next e' s' cs₃ hm =>
      cases h
      obtain ⟨-, ha⟩ := run_same hF p _ _ _ hpsub hp
      obtain ⟨-, hb⟩ := run_same hF q _ _ _ hqsub hq
      exact ItemSet.mergeLoop_error hF _ _ _ _ _ _ _ ha
        (fun x hx => hb x ⟨x.id, ItemSet.mem_iter.mp hx⟩) hm
    · cases h
  | .absorb p x, cs, cs', e, hsub, h => by
    have hpsub : p.items ⊆ F := fun y hy => hsub (.inr hy)
    unfold run at h
    split at h
    · next e' cs₁ hp =>
      cases h
      exact run_error p _ _ _ hpsub hp
    next a cs₁ hp =>
    split at h
    · next e' s' cs₂ hx =>
      cases h
      obtain ⟨-, ha⟩ := run_same hF p _ _ _ hpsub hp
      exact ItemSet.absorbLoop_error hF _ _ _ _ _ _ _ _ ha (.of_mem (hsub (.inl rfl))) hx
    · cases h

end Plan

/-- Merging converges: whatever plan the items are combined by, a run that goes
through ends with the same map; and where it does not go through, it did not
settle, or the derivation of an id failed. -/
theorem merge_converges (fork : ForkIds) (p : Plan) (hfree : CollisionFree p.items) :
    (∀ q : Plan, q.items = p.items → ∀ cs ds cs' ds' a b, p.run fork cs = (.ok a, cs') →
      q.run fork ds = (.ok b, ds') → a.items = b.items) ∧
    (∀ cs cs' e, p.run fork cs = (.error e, cs') →
      e = .mergeDidNotSettle MAX_MERGE_STEPS ∨ ∃ i secret, fork i secret = .error e) := by
  refine ⟨?_, fun cs cs' e h => Plan.run_error hfree p cs cs' e subset_rfl h⟩
  intro q hq cs ds cs' ds' a b ha hb
  obtain ⟨hpa, -⟩ := Plan.run_same hfree p cs cs' a subset_rfl ha
  obtain ⟨hqb, -⟩ := Plan.run_same hfree q ds ds' b (hq ▸ subset_rfl) hb
  rw [hq] at hqb
  exact Arena.eq_of_same (fun x y => Item.ext_content) (ItemSet.keyed_arena fork a)
    (ItemSet.keyed_arena fork b) (hpa.symm.trans hqb)

/-- Two devices that hold two secrets under one id, merged. -/
def twoSecrets : Plan :=
  (Plan.set (ItemSet.new.replace (Item.fresh 1 9 0 4))).merge
    (.set (ItemSet.new.replace (Item.fresh 1 8 0 5)))

/-- The same items absorbed one by one into an empty set, the smaller secret twice. -/
def twoSecretsAbsorbed : Plan :=
  (((Plan.set ItemSet.new).absorb (Item.fresh 1 8 0 5)).absorb (Item.fresh 1 9 0 4)).absorb
    (Item.fresh 1 8 0 5)

theorem items_twoSecrets : twoSecrets.items = {Item.fresh 1 8 0 5, Item.fresh 1 9 0 4} := by
  have h : ∀ x : Item, Arena.items (ItemSet.new.replace x).items = {x} := by
    intro x
    rw [ItemSet.replace_items, Arena.items_insert (by simp [ItemSet.new])]
    simp [Arena.items, ItemSet.new]
  simp only [twoSecrets, Plan.items, h]
  exact Set.union_comm _ _

theorem items_twoSecretsAbsorbed : twoSecretsAbsorbed.items = twoSecrets.items := by
  have hempty : Arena.items ItemSet.new.items = ∅ := by simp [Arena.items, ItemSet.new]
  simp only [items_twoSecrets, twoSecretsAbsorbed, Plan.items, hempty]
  ext x
  simp only [Set.mem_insert_iff, Set.mem_empty_iff_false, Set.mem_singleton_iff]
  tauto

theorem merge_converges_two_secrets :
    (twoSecrets.run forkBySecret []).1 = (twoSecretsAbsorbed.run forkBySecret []).1 := by
  have hfree : CollisionFree twoSecrets.items := by
    rw [items_twoSecrets]
    refine ⟨?_, ?_⟩
    · rintro x (rfl | rfl) y (rfl | rfl) r h
      · rfl
      · cases r <;> exact absurd h (by decide)
      · cases r <;> exact absurd h (by decide)
      · rfl
    · rintro x (rfl | rfl) y _ t u h _ _ <;> cases h
  have hconv := (merge_converges forkBySecret twoSecrets hfree).1 twoSecretsAbsorbed
    items_twoSecretsAbsorbed [] [] _ _ _ _ rfl rfl
  exact congrArg Except.ok (ItemSet.ext_items hconv)

end Misty
