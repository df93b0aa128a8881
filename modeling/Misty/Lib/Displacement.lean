import Misty.Lib.OrdMap

/- Maps with displacement. Entries carry a slot and a rank; a slot keeps the
   entry of the smallest rank, entries of one rank are joined, and an entry that
   loses its slot moves on to the slot `fork` derives for it, where the same rule
   applies. `Absorb` is one insertion with everything it displaces.

   What is proved, for any rank order and any `fork`, injective or not:
     1. `Absorb.settles` — an entry that went in is found again by walking its own
        chain of slots, in an entry of its rank and at least its content, and no
        later insertion undoes that.
     2. `Absorb.unchanged` — a slot that is not reported keeps its entry.
     3. `occupies_unique` and `same_absorb` — what a map holds after any
        insertions is determined by the set of entries that went in, so the order
        and the grouping of the insertions cannot matter. -/
namespace Misty

open Std (ExtTreeMap)

/-- Entries with a slot and a rank, where a displaced entry goes, and how two
entries of one rank are joined. -/
structure Arena (I S X : Type*) where
  slot : X → I
  rank : X → S
  rebind : X → I → X
  fork : I → S → Option I
  join : X → X → X → Prop
  slot_rebind : ∀ x i, slot (rebind x i) = i
  rank_rebind : ∀ x i, rank (rebind x i) = rank x
  slot_join : ∀ {a b w}, join a b w → slot w = slot a
  rank_join : ∀ {a b w}, join a b w → rank w = rank a

namespace Arena

attribute [simp] slot_rebind rank_rebind

/-! ## What a set of entries determines -/

section Determined

variable {I S C X : Type*} [LinearOrder S] [PartialOrder C] {A : Arena I S X} {content : X → C}

variable (A) in
/-- The entries `F` together with every entry they can be pushed on to. -/
inductive Pushed (F : Set X) : X → Prop
  | base {x} : x ∈ F → Pushed F x
  | move {x y j} : Pushed F x → Pushed F y → A.slot y = A.slot x → A.rank y < A.rank x →
      A.fork (A.slot x) (A.rank x) = some j → Pushed F (A.rebind x j)

variable (A content) in
/-- The contents that arrive at slot `i` with rank `s`. -/
def Held (K : X → Prop) (i : I) (s : S) : Set C :=
  content '' {x | K x ∧ A.slot x = i ∧ A.rank x = s}

variable (A content) in
/-- `y` is what its slot is left with when the entries `K` arrive: the least rank,
with the join of what arrives under that rank. -/
structure Wins (K : X → Prop) (y : X) : Prop where
  arrives : ∃ x, K x ∧ A.slot x = A.slot y ∧ A.rank x = A.rank y
  least : ∀ x, K x → A.slot x = A.slot y → A.rank y ≤ A.rank x
  lub : IsLUB (A.Held content K (A.slot y) (A.rank y)) (content y)

variable (A content) in
/-- Two sets of entries no further entries can tell apart. -/
def Same (F G : Set X) : Prop :=
  ∀ H y, A.Wins content (A.Pushed (F ∪ H)) y ↔ A.Wins content (A.Pushed (G ∪ H)) y

theorem Same.refl (F : Set X) : A.Same content F F := fun _ _ => Iff.rfl

theorem Same.symm {F G : Set X} (h : A.Same content F G) : A.Same content G F :=
  fun H y => (h H y).symm

theorem Same.trans {F G K : Set X} (h : A.Same content F G) (h' : A.Same content G K) :
    A.Same content F K :=
  fun H y => (h H y).trans (h' H y)

theorem Same.union {F G : Set X} (h : A.Same content F G) (K : Set X) :
    A.Same content (F ∪ K) (G ∪ K) := by
  intro H y
  rw [Set.union_assoc, Set.union_assoc]
  exact h (K ∪ H) y

/-- An arrival that loses its slot to another does not decide any slot. -/
theorem wins_insert {K : X → Prop} {x y : X} (hy : K y) (hslot : A.slot y = A.slot x)
    (hlt : A.rank y < A.rank x) (z : X) :
    A.Wins content (fun a => a = x ∨ K a) z ↔ A.Wins content K z := by
  -- where `z` competes with the loser at all, the winner is below both
  have hheld : (∀ a, K a → A.slot a = A.slot z → A.rank z ≤ A.rank a) →
      ∀ a, (a = x ∨ K a) ∧ A.slot a = A.slot z ∧ A.rank a = A.rank z ↔
        K a ∧ A.slot a = A.slot z ∧ A.rank a = A.rank z := by
    intro hleast a
    refine and_congr_left (fun ha => or_iff_right_of_imp ?_)
    rintro rfl
    have hzy := hleast y hy (hslot.trans ha.1)
    exact absurd (ha.2 ▸ hlt) hzy.not_gt
  constructor
  · rintro ⟨⟨a, ha⟩, hleast, hlub⟩
    have hK : ∀ a, K a → A.slot a = A.slot z → A.rank z ≤ A.rank a :=
      fun a ha => hleast a (.inr ha)
    refine ⟨⟨a, (hheld hK a).mp ha⟩, hK, ?_⟩
    simpa only [Held, hheld hK] using hlub
  · rintro ⟨⟨a, ha⟩, hleast, hlub⟩
    refine ⟨⟨a, (hheld hleast a).mpr ha⟩, ?_, ?_⟩
    · rintro a (rfl | ha) hsl
      · exact (hleast y hy (hslot.trans hsl)).trans hlt.le
      · exact hleast a ha hsl
    · simpa only [Held, hheld hleast] using hlub

/-- Pushing on the loser of a slot changes nothing about what the slots end with. -/
theorem same_move {F : Set X} {x y : X} {j : I} (hy : y ∈ F) (hslot : A.slot y = A.slot x)
    (hlt : A.rank y < A.rank x) (hf : A.fork (A.slot x) (A.rank x) = some j) :
    A.Same content (insert x F) (insert (A.rebind x j) F) := by
  intro H z
  have hyF : A.Pushed (insert (A.rebind x j) F ∪ H) y := .base (by simp [hy])
  have hpushed : A.Pushed (insert x F ∪ H) =
      fun a => a = x ∨ A.Pushed (insert (A.rebind x j) F ∪ H) a := by
    funext a
    refine propext ⟨fun ha => ?_, ?_⟩
    · induction ha with
      | @base a ha =>
        rcases ha with (rfl | ha) | ha
        · exact .inl rfl
        · exact .inr (.base (by simp [ha]))
        · exact .inr (.base (by simp [ha]))
      | @move a b k _ _ h1 h2 h3 ih1 ih2 =>
        refine .inr ?_
        rcases ih1 with rfl | ih1
        · rw [hf] at h3
          cases h3
          exact .base (by simp)
        · rcases ih2 with rfl | ih2
          · -- whatever the loser would push on, the winner pushes on as well
            exact .move ih1 hyF (hslot.trans h1) (hlt.trans h2) h3
          · exact .move ih1 ih2 h1 h2 h3
    · rintro (rfl | ha)
      · exact .base (by simp)
      · induction ha with
        | @base a ha =>
          rcases ha with (rfl | ha) | ha
          · exact .move (.base (by simp)) (.base (by simp [hy] : y ∈ _)) hslot hlt hf
          · exact .base (by simp [ha])
          · exact .base (by simp [ha])
        | move _ _ h1 h2 h3 ih1 ih2 => exact .move ih1 ih2 h1 h2 h3
  rw [hpushed]
  exact wins_insert hyF hslot hlt z

/-- Replacing two entries of one slot and rank by their join changes nothing
about what the slots end with. -/
theorem same_join (hc : ∀ x i, content (A.rebind x i) = content x) {F : Set X} {x y w : X}
    (hx : A.slot x = A.slot w ∧ A.rank x = A.rank w)
    (hy : A.slot y = A.slot w ∧ A.rank y = A.rank w)
    (hw : IsLUB {content y, content x} (content w)) :
    A.Same content (insert x (insert y F)) (insert w F) := by
  intro H z
  obtain ⟨hxs, hxr⟩ := hx
  obtain ⟨hys, hyr⟩ := hy
  have hyw : content y ≤ content w := hw.1 (by simp)
  have hxw : content x ≤ content w := hw.1 (by simp)
  have hout : ∀ a, A.Pushed (insert x (insert y F) ∪ H) a → ∃ b, A.Pushed (insert w F ∪ H) b ∧
      A.slot b = A.slot a ∧ A.rank b = A.rank a ∧ content a ≤ content b := by
    intro a ha
    induction ha with
    | @base a ha =>
      rcases ha with (rfl | rfl | ha) | ha
      · exact ⟨w, .base (by simp), hxs.symm, hxr.symm, hxw⟩
      · exact ⟨w, .base (by simp), hys.symm, hyr.symm, hyw⟩
      · exact ⟨a, .base (by simp [ha]), rfl, rfl, le_rfl⟩
      · exact ⟨a, .base (by simp [ha]), rfl, rfl, le_rfl⟩
    | @move a b k _ _ h1 h2 h3 ih1 ih2 =>
      obtain ⟨a', ha', has, har, hac⟩ := ih1
      obtain ⟨b', hb', hbs, hbr, -⟩ := ih2
      have h1' : A.slot b' = A.slot a' := by rw [hbs, h1, has]
      have h2' : A.rank b' < A.rank a' := by rw [hbr, har]; exact h2
      refine ⟨A.rebind a' k, .move ha' hb' h1' h2' (by rw [has, har]; exact h3), by simp, ?_, ?_⟩
      · simpa using har
      · simpa [hc] using hac
  -- conversely, whatever the joined entry reaches, both entries reach
  have hin : ∀ b, A.Pushed (insert w F ∪ H) b → A.Pushed (insert x (insert y F) ∪ H) b ∨
      (content b = content w ∧
        (∃ a, A.Pushed (insert x (insert y F) ∪ H) a ∧ A.slot a = A.slot b ∧ A.rank a = A.rank b ∧
          content a = content x) ∧
        ∃ a, A.Pushed (insert x (insert y F) ∪ H) a ∧ A.slot a = A.slot b ∧ A.rank a = A.rank b ∧
          content a = content y) := by
    intro b hb
    induction hb with
    | @base b hb =>
      rcases hb with (rfl | hb) | hb
      · exact .inr ⟨rfl, ⟨x, .base (by simp), hxs, hxr, rfl⟩, ⟨y, .base (by simp), hys, hyr, rfl⟩⟩
      · exact .inl (.base (by simp [hb]))
      · exact .inl (.base (by simp [hb]))
    | @move a b k _ _ h1 h2 h3 ih1 ih2 =>
      have hb : ∃ b', A.Pushed (insert x (insert y F) ∪ H) b' ∧ A.slot b' = A.slot b ∧
          A.rank b' = A.rank b := by
        rcases ih2 with hb | ⟨-, ⟨b', hb', hs, hr, -⟩, -⟩
        · exact ⟨b, hb, rfl, rfl⟩
        · exact ⟨b', hb', hs, hr⟩
      obtain ⟨b', hb', hbs, hbr⟩ := hb
      have hpush : ∀ a', A.Pushed (insert x (insert y F) ∪ H) a' → A.slot a' = A.slot a →
          A.rank a' = A.rank a → A.Pushed (insert x (insert y F) ∪ H) (A.rebind a' k) := by
        intro a' ha' hs hr
        exact .move ha' hb' (by rw [hbs, h1, hs]) (by rw [hbr, hr]; exact h2)
          (by rw [hs, hr]; exact h3)
      rcases ih1 with ha | ⟨hcw, ⟨a₁, ha₁, hs₁, hr₁, hc₁⟩, ⟨a₂, ha₂, hs₂, hr₂, hc₂⟩⟩
      · exact .inl (hpush a ha rfl rfl)
      · refine .inr ⟨by rw [hc, hcw], ⟨_, hpush a₁ ha₁ hs₁ hr₁, by simp, by simpa using hr₁, ?_⟩,
          ⟨_, hpush a₂ ha₂ hs₂ hr₂, by simp, by simpa using hr₂, ?_⟩⟩
        · rw [hc, hc₁]
        · rw [hc, hc₂]
  have hinAny : ∀ b, A.Pushed (insert w F ∪ H) b → ∃ a, A.Pushed (insert x (insert y F) ∪ H) a ∧
      A.slot a = A.slot b ∧ A.rank a = A.rank b := by
    intro b hb
    rcases hin b hb with hb | ⟨-, ⟨a, ha, hs, hr, -⟩, -⟩
    · exact ⟨b, hb, rfl, rfl⟩
    · exact ⟨a, ha, hs, hr⟩
  have hub : upperBounds (A.Held content (A.Pushed (insert x (insert y F) ∪ H)) (A.slot z)
      (A.rank z)) = upperBounds (A.Held content (A.Pushed (insert w F ∪ H)) (A.slot z)
      (A.rank z)) := by
    ext c
    constructor
    · rintro hub _ ⟨b, ⟨hb, hs, hr⟩, rfl⟩
      rcases hin b hb with hb | ⟨hcw, ⟨a₁, ha₁, hs₁, hr₁, hc₁⟩, ⟨a₂, ha₂, hs₂, hr₂, hc₂⟩⟩
      · exact hub ⟨b, ⟨hb, hs, hr⟩, rfl⟩
      · rw [hcw]
        refine hw.2 ?_
        rintro _ (rfl | rfl)
        · exact hub ⟨a₂, ⟨ha₂, hs₂.trans hs, hr₂.trans hr⟩, hc₂⟩
        · exact hub ⟨a₁, ⟨ha₁, hs₁.trans hs, hr₁.trans hr⟩, hc₁⟩
    · rintro hub _ ⟨a, ⟨ha, hs, hr⟩, rfl⟩
      obtain ⟨b, hb, hbs, hbr, hle⟩ := hout a ha
      exact hle.trans (hub ⟨b, ⟨hb, hbs.trans hs, hbr.trans hr⟩, rfl⟩)
  constructor
  · rintro ⟨⟨a, ha, hs, hr⟩, hleast, hlub⟩
    obtain ⟨b, hb, hbs, hbr, -⟩ := hout a ha
    refine ⟨⟨b, hb, hbs.trans hs, hbr.trans hr⟩, ?_, ?_⟩
    · intro b hb hs
      obtain ⟨a, ha, has, har⟩ := hinAny b hb
      exact har ▸ hleast a ha (has.trans hs)
    · unfold IsLUB at hlub ⊢
      rwa [← hub]
  · rintro ⟨⟨b, hb, hs, hr⟩, hleast, hlub⟩
    obtain ⟨a, ha, has, har⟩ := hinAny b hb
    refine ⟨⟨a, ha, has.trans hs, har.trans hr⟩, ?_, ?_⟩
    · intro a ha hs
      obtain ⟨b, hb, hbs, hbr, -⟩ := hout a ha
      exact hbr ▸ hleast b hb (hbs.trans hs)
    · unfold IsLUB at hlub ⊢
      rwa [hub]

end Determined

/-! ## Insertion -/

section Insertion

variable {I S X : Type*} [LinearOrder I] (A : Arena I S X)

/-- The slots an entry of rank `s` can be moved to, one displacement after
another, from slot `i`. -/
def Chain (s : S) : I → I → Prop := Relation.ReflTransGen (fun i j => A.fork i s = some j)

/-- Every entry of the map sits in its own slot. -/
def Keyed (m : ExtTreeMap I X) : Prop := ∀ (i : I) x, m[i]? = some x → A.slot x = i

variable {A}

theorem Keyed.insert {m : ExtTreeMap I X} (h : A.Keyed m) (x : X) :
    A.Keyed (m.insert (A.slot x) x) := by
  intro i y hy
  rw [OrdMap.getElem?_insert] at hy
  split at hy
  · next hi =>
    cases hy
    exact hi
  · exact h i y hy

variable [LinearOrder S]

variable (A) in
/-- `Absorb m x m' t`: inserting `x` into `m` gives `m'`, and `t` lists the slots
the insertion stopped at. -/
inductive Absorb : ExtTreeMap I X → X → ExtTreeMap I X → List I → Prop
  | place {m x} : m[A.slot x]? = none → Absorb m x (m.insert (A.slot x) x) [A.slot x]
  | join {m x y w} : m[A.slot x]? = some y → A.rank y = A.rank x → A.join y x w →
      Absorb m x (m.insert (A.slot x) w) [A.slot x]
  | keep {m x y j m' t} : m[A.slot x]? = some y → A.rank y < A.rank x →
      A.fork (A.slot x) (A.rank x) = some j → Absorb m (A.rebind x j) m' t →
      Absorb m x m' (A.slot x :: t)
  | evict {m x y j m' t} : m[A.slot x]? = some y → A.rank x < A.rank y →
      A.fork (A.slot x) (A.rank y) = some j →
      Absorb (m.insert (A.slot x) x) (A.rebind y j) m' t → Absorb m x m' (A.slot x :: t)

theorem Absorb.unchanged {m m' : ExtTreeMap I X} {x : X} {t : List I} (h : A.Absorb m x m' t)
    (i : I) (hi : i ∉ t) : m'[i]? = m[i]? := by
  induction h with
  | place _ | join _ _ _ =>
    rw [OrdMap.getElem?_insert, if_neg]
    intro e
    exact hi (by simp [e])
  | keep _ _ _ _ ih => exact ih (fun hm => hi (List.mem_cons_of_mem _ hm))
  | evict _ _ _ _ ih =>
    rw [ih (fun hm => hi (List.mem_cons_of_mem _ hm)), OrdMap.getElem?_insert, if_neg]
    intro e
    exact hi (by simp [e])

/-- A slot once taken stays taken, its rank never grows, and as long as the rank stays what the join climbs never
falls. -/
theorem Absorb.rises {C : Type*} [Preorder C] {f : X → C} (hj : ∀ a b w, A.join a b w → f a ≤ f w)
    {m m' : ExtTreeMap I X} {x : X} {t : List I} (h : A.Absorb m x m' t) : ∀ (i : I) y, m[i]? = some y →
      ∃ y', m'[i]? = some y' ∧ A.rank y' ≤ A.rank y ∧ (A.rank y' = A.rank y → f y ≤ f y') := by
  induction h with
  | @place m x hn =>
    intro i y hy
    have hne : A.slot x ≠ i := by
      rintro rfl
      rw [hn] at hy
      cases hy
    exact ⟨y, by rw [OrdMap.getElem?_insert, if_neg hne, hy], le_rfl, fun _ => le_rfl⟩
  | @join m x y w hy hrank hw =>
    intro i z hz
    by_cases hi : A.slot x = i
    · subst hi
      rw [hy] at hz
      cases hz
      exact ⟨w, by simp, (A.rank_join hw).le, fun _ => hj _ _ _ hw⟩
    · exact ⟨z, by rw [OrdMap.getElem?_insert, if_neg hi, hz], le_rfl, fun _ => le_rfl⟩
  | keep _ _ _ _ ih => exact ih
  | @evict m x y j m' t hy hlt _ _ ih =>
    intro i z hz
    by_cases hi : A.slot x = i
    · subst hi
      rw [hy] at hz
      cases hz
      -- the slot has a smaller rank from here on
      obtain ⟨y', hy', hle, -⟩ := ih (A.slot x) x (by simp)
      exact ⟨y', hy', hle.trans hlt.le, fun heq => absurd heq (hle.trans_lt hlt).ne⟩
    · exact ih i z (by rw [OrdMap.getElem?_insert, if_neg hi, hz])

theorem Absorb.rank_le {m m' : ExtTreeMap I X} {x : X} {t : List I} (h : A.Absorb m x m' t) (i : I) (y : X)
    (hy : m[i]? = some y) : ∃ y', m'[i]? = some y' ∧ A.rank y' ≤ A.rank y := by
  obtain ⟨y', hy', hle, -⟩ := h.rises (f := fun _ => ()) (fun _ _ _ _ => le_rfl) i y hy
  exact ⟨y', hy', hle⟩

theorem Absorb.occupied {m m' : ExtTreeMap I X} {x : X} {t : List I} (h : A.Absorb m x m' t) :
    A.slot x ∈ t ∧ ∃ y, m'[A.slot x]? = some y := by
  cases h with
  | place _ => simp
  | join _ _ _ => simp
  | @keep _ _ y j _ t hy _ _ h =>
    obtain ⟨y', hy', -⟩ := h.rank_le _ y hy
    exact ⟨by simp, y', hy'⟩
  | @evict _ _ y j _ t hy _ _ h =>
    obtain ⟨y', hy', -⟩ := h.rank_le (A.slot x) x (by simp)
    exact ⟨by simp, y', hy'⟩

/-- Every entry of the map after an insertion has the rank of an entry that was
there or went in, and sits where that entry can be pushed to; every reported slot is
such a place as well. -/
theorem Absorb.origin {m m' : ExtTreeMap I X} {x : X} {t : List I} (h : A.Absorb m x m' t)
    (P : I → S → Prop) (hP : ∀ i s s' j, P i s → P i s' → s' < s → A.fork i s = some j → P j s)
    (hm : ∀ (i : I) y, m[i]? = some y → P i (A.rank y)) (hx : P (A.slot x) (A.rank x)) :
    (∀ (i : I) y, m'[i]? = some y → P i (A.rank y)) ∧ ∀ i ∈ t, ∃ s, P i s := by
  induction h with
  | @place m x _ =>
    refine ⟨?_, by simpa using ⟨_, hx⟩⟩
    intro i y hy
    rw [OrdMap.getElem?_insert] at hy
    split at hy
    · next hi =>
      cases hy
      exact hi ▸ hx
    · exact hm i y hy
  | @join m x y w hy hrank hw =>
    refine ⟨?_, by simpa using ⟨_, hx⟩⟩
    intro i z hz
    rw [OrdMap.getElem?_insert] at hz
    split at hz
    · next hi =>
      cases hz
      rw [A.rank_join hw, hrank]
      exact hi ▸ hx
    · exact hm i z hz
  | @keep m x y j m' t hy hlt hf _ ih =>
    -- the slot it forks to is one `hP` allows
    have hj : P (A.slot (A.rebind x j)) (A.rank (A.rebind x j)) := by
      simpa using hP _ _ _ _ hx (hm _ _ hy) hlt hf
    obtain ⟨h1, h2⟩ := ih hm hj
    refine ⟨h1, ?_⟩
    intro i hi
    rcases List.mem_cons.mp hi with rfl | hi
    · exact ⟨_, hx⟩
    · exact h2 i hi
  | @evict m x y j m' t hy hlt hf _ ih =>
    have hj : P (A.slot (A.rebind y j)) (A.rank (A.rebind y j)) := by
      simpa using hP _ _ _ _ (hm _ _ hy) hx hlt hf
    -- the newcomer takes the slot it asked for, which `hx` allows
    have hm' : ∀ (i : I) z, (m.insert (A.slot x) x)[i]? = some z → P i (A.rank z) := by
      intro i z hz
      rw [OrdMap.getElem?_insert] at hz
      split at hz
      · next hi =>
        cases hz
        exact hi ▸ hx
      · exact hm i z hz
    obtain ⟨h1, h2⟩ := ih hm' hj
    refine ⟨h1, ?_⟩
    intro i hi
    rcases List.mem_cons.mp hi with rfl | hi
    · exact ⟨_, hx⟩
    · exact h2 i hi

theorem Absorb.keeps_forall {P : X → Prop} (hmove : ∀ x i, P x → P (A.rebind x i))
    (hjoin : ∀ a b w, A.join a b w → P a → P b → P w) {m m' : ExtTreeMap I X} {x : X} {t : List I}
    (h : A.Absorb m x m' t) (hm : ∀ (i : I) y, m[i]? = some y → P y) (hx : P x) :
    ∀ (i : I) y, m'[i]? = some y → P y := by
  have hinsert : ∀ {n : ExtTreeMap I X} {j : I} {z : X}, (∀ (i : I) y, n[i]? = some y → P y) → P z →
      ∀ (i : I) y, (n.insert j z)[i]? = some y → P y := by
    intro n j z hn hz i y hy
    rw [OrdMap.getElem?_insert] at hy
    split at hy
    · cases hy
      exact hz
    · exact hn i y hy
  induction h with
  | place _ => exact hinsert hm hx
  | join hy _ hw => exact hinsert hm (hjoin _ _ _ hw (hm _ _ hy) hx)
  | keep _ _ _ _ ih => exact ih hm (hmove _ _ hx)
  | evict hy _ _ _ ih => exact ih (hinsert hm hx) (hmove _ _ (hm _ _ hy))

variable (A) in
/-- An entry of `F`, or one pushed on from there, arrives at the slot with the rank. -/
def Arrives (F : Set X) (i : I) (s : S) : Prop :=
  ∃ x, A.Pushed F x ∧ A.slot x = i ∧ A.rank x = s

/-- Insertions of entries of `F` leave and report only places `F` can be pushed to. -/
theorem Absorb.arrives {F : Set X} {m m' : ExtTreeMap I X} {x : X} {t : List I}
    (h : A.Absorb m x m' t) (hm : ∀ (i : I) y, m[i]? = some y → A.Arrives F i (A.rank y))
    (hx : x ∈ F) :
    (∀ (i : I) y, m'[i]? = some y → A.Arrives F i (A.rank y)) ∧ ∀ i ∈ t, ∃ s, A.Arrives F i s := by
  refine h.origin (A.Arrives F) ?_ hm ⟨x, .base hx, rfl, rfl⟩
  intro i s s' j hs hs' hlt hf
  obtain ⟨y, hy, rfl, rfl⟩ := hs
  obtain ⟨z, hz, hzi, rfl⟩ := hs'
  exact ⟨A.rebind y j, .move hy hz hzi hlt hf, A.slot_rebind y j, A.rank_rebind y j⟩

/-! ## Settled entries -/

section Settled

variable {C : Type*} [Preorder C] {content : X → C}

variable (A content) in
/-- Walking the chain of `x` through `m` ends at an entry of the same rank with at
least the content of `x`; on the way every slot is held by a smaller rank. -/
inductive Settled (m : ExtTreeMap I X) : X → Prop
  | here {x y} : m[A.slot x]? = some y → A.rank y = A.rank x → content x ≤ content y → Settled m x
  | next {x y j} : m[A.slot x]? = some y → A.rank y < A.rank x →
      A.fork (A.slot x) (A.rank x) = some j → Settled m (A.rebind x j) → Settled m x

variable (hc : ∀ x i, content (A.rebind x i) = content x)
include hc

theorem Settled.mono {m : ExtTreeMap I X} {u : X} (h : A.Settled content m u) :
    ∀ x, A.slot x = A.slot u → A.rank x = A.rank u → content x ≤ content u →
      A.Settled content m x := by
  induction h with
  | here hy hr hle =>
    intro x hs hrx hcx
    exact .here (by rw [hs]; exact hy) (hr.trans hrx.symm) (hcx.trans hle)
  | next hy hlt hf _ ih =>
    intro x hs hrx hcx
    refine .next (by rw [hs]; exact hy) (by rw [hrx]; exact hlt) (by rw [hs, hrx]; exact hf) ?_
    exact ih _ (by simp) (by simpa using hrx) (by simpa [hc] using hcx)

theorem Settled.covered {m : ExtTreeMap I X} {x : X} (h : A.Settled content m x) :
    ∃ (i : I) (y : X), m[i]? = some y ∧ A.rank y = A.rank x ∧ A.Chain (A.rank x) (A.slot x) i ∧
      content x ≤ content y := by
  induction h with
  | here hy hr hle => exact ⟨_, _, hy, hr, .refl, hle⟩
  | next hy hlt hf _ ih =>
    obtain ⟨i, y, hy', hr, hch, hle⟩ := ih
    rw [A.rank_rebind] at hr
    rw [A.rank_rebind, A.slot_rebind] at hch
    rw [hc] at hle
    exact ⟨i, y, hy', hr, .head hf hch, hle⟩

/-- An insertion settles its entry and unsettles none. Both halves need each
other: an evicted entry is settled again by the rest of the insertion. -/
theorem Absorb.settles (hj : ∀ a b w, A.join a b w → content a ≤ content w ∧ content b ≤ content w)
    {m m' : ExtTreeMap I X} {x : X} {t : List I} (h : A.Absorb m x m' t) :
    A.Settled content m' x ∧ ∀ u, A.Settled content m u → A.Settled content m' u := by
  induction h with
  | @place m x hn =>
    refine ⟨.here (OrdMap.getElem?_insert .. |>.trans (if_pos rfl)) rfl le_rfl, ?_⟩
    intro u hu
    -- the slot was free, so no entry moved
    have hkeep : ∀ (i : I) y, m[i]? = some y → (m.insert (A.slot x) x)[i]? = some y := by
      intro i y hy
      rw [OrdMap.getElem?_insert, if_neg, hy]
      rintro rfl
      rw [hn] at hy
      cases hy
    induction hu with
    | here hy hr hle => exact .here (hkeep _ _ hy) hr hle
    | next hy hlt hf _ ih => exact .next (hkeep _ _ hy) hlt hf ih
  | @join m x y w hy hrank hw =>
    obtain ⟨hyw, hxw⟩ := hj _ _ _ hw
    have hrw : A.rank w = A.rank y := A.rank_join hw
    refine ⟨.here (OrdMap.getElem?_insert .. |>.trans (if_pos rfl)) (hrw.trans hrank) hxw, ?_⟩
    intro u hu
    -- the entry in the slot grows and keeps its rank
    have hgrow : ∀ (i : I) z, m[i]? = some z → ∃ z', (m.insert (A.slot x) w)[i]? = some z' ∧
        A.rank z' = A.rank z ∧ content z ≤ content z' := by
      intro i z hz
      by_cases hi : A.slot x = i
      · subst hi
        rw [hy] at hz
        cases hz
        exact ⟨w, by simp, hrw, hyw⟩
      · exact ⟨z, by rw [OrdMap.getElem?_insert, if_neg hi, hz], rfl, le_rfl⟩
    induction hu with
    | here hz hr hle =>
      obtain ⟨z', hz', hr', hle'⟩ := hgrow _ _ hz
      exact .here hz' (hr'.trans hr) (hle.trans hle')
    | next hz hlt hf _ ih =>
      obtain ⟨z', hz', hr', -⟩ := hgrow _ _ hz
      exact .next hz' (hr' ▸ hlt) hf ih
  | @keep m x y j m' t hy hlt hf hrest ih =>
    obtain ⟨hx, hold⟩ := ih
    obtain ⟨y', hy', hle⟩ := hrest.rank_le _ _ hy
    exact ⟨.next hy' (hle.trans_lt hlt) hf hx, hold⟩
  | @evict m x y j m' t hy hlt hf hrest ih =>
    obtain ⟨hmoved, hold⟩ := ih
    have hself : (m.insert (A.slot x) x)[A.slot x]? = some x := by simp
    refine ⟨hold x (.here hself rfl le_rfl), ?_⟩
    intro u hu
    induction hu with
    | @here u z hz hr hle =>
      by_cases hi : A.slot x = A.slot u
      · -- `u` was settled in the entry that is being evicted: it follows it
        rw [← hi, hy] at hz
        cases hz
        obtain ⟨x', hx', hle'⟩ := hrest.rank_le _ _ hself
        refine .next (hi ▸ hx') (hr ▸ hle'.trans_lt hlt) (by rw [← hi, ← hr]; exact hf) ?_
        exact hmoved.mono hc _ (by simp) (by simp [hr]) (by simpa [hc] using hle)
      -- another slot: the entry is where it was
      · refine hold u (.here ?_ hr hle)
        rw [OrdMap.getElem?_insert, if_neg hi, hz]
    | @next u z k hz hlt' hf' _ ihu =>
      -- the slot `u` was turned away from is still held by something that ranks before it
      have htaken : ∃ z', m'[A.slot u]? = some z' ∧ A.rank z' < A.rank u := by
        by_cases hi : A.slot x = A.slot u
        · rw [← hi, hy] at hz
          cases hz
          obtain ⟨x', hx', hle'⟩ := hrest.rank_le _ _ hself
          exact ⟨x', hi ▸ hx', hle'.trans_lt (hlt.trans hlt')⟩
        · obtain ⟨z', hz', hle'⟩ := hrest.rank_le (A.slot u) z
            (by rw [OrdMap.getElem?_insert, if_neg hi, hz])
          exact ⟨z', hz', hle'.trans_lt hlt'⟩
      obtain ⟨z', hz', hlt''⟩ := htaken
      exact .next hz' hlt'' hf' ihu

end Settled

/-! ## Order independence -/

section Convergence

variable {C : Type*} [PartialOrder C] {content : X → C}

/-- The entries a map holds. -/
def items (m : ExtTreeMap I X) : Set X := {x | ∃ i : I, m[i]? = some x}

theorem items_insert {m : ExtTreeMap I X} {i : I} {x : X} (h : m[i]? = none) :
    items (m.insert i x) = insert x (items m) := by
  ext z
  constructor
  · rintro ⟨k, hk⟩
    rw [OrdMap.getElem?_insert] at hk
    split at hk
    · cases hk
      exact .inl rfl
    · exact .inr ⟨k, hk⟩
  · rintro (rfl | ⟨k, hk⟩)
    · exact ⟨i, by simp⟩
    · refine ⟨k, ?_⟩
      rw [OrdMap.getElem?_insert, if_neg, hk]
      rintro rfl
      rw [h] at hk
      cases hk

theorem items_erase {m : ExtTreeMap I X} {i : I} {y : X} (h : m[i]? = some y) :
    items m = insert y (items (m.erase i)) := by
  rw [← items_insert (i := i) (by simp)]
  congr 1
  refine OrdMap.ext (fun k => ?_)
  simp only [OrdMap.getElem?_insert, OrdMap.getElem?_erase]
  split
  · next hk => rw [← hk, h]
  · rfl

theorem items_replace {m : ExtTreeMap I X} {i : I} (x : X) :
    items (m.insert i x) = insert x (items (m.erase i)) := by
  rw [← items_insert (i := i) (by simp)]
  congr 1
  refine OrdMap.ext (fun k => ?_)
  simp only [OrdMap.getElem?_insert, OrdMap.getElem?_erase]
  split <;> rfl

theorem wins_items (hext : ∀ x y, A.slot x = A.slot y → A.rank x = A.rank y →
    content x = content y → x = y) {m : ExtTreeMap I X} (hm : A.Keyed m) (y : X) :
    A.Wins content (A.Pushed (items m)) y ↔ m[A.slot y]? = some y := by
  -- each slot holds one entry, so nothing is pushed out of it
  have hstill : ∀ a, A.Pushed (items m) a → m[A.slot a]? = some a := by
    intro a ha
    induction ha with
    | base ha =>
      obtain ⟨i, hi⟩ := ha
      rw [hm i _ hi]
      exact hi
    | move _ _ hs hlt _ ih1 ih2 =>
      rw [hs, ih1] at ih2
      cases ih2
      exact absurd hlt (lt_irrefl _)
  have hsole : ∀ a, A.Pushed (items m) a → ∀ b, A.Pushed (items m) b → A.slot a = A.slot b →
      a = b := by
    intro a ha b hb hs
    have h := hstill a ha
    rw [hs, hstill b hb] at h
    exact (Option.some.inj h).symm
  -- so the join over a slot is over one element
  have hheld : ∀ a, A.Pushed (items m) a →
      A.Held content (A.Pushed (items m)) (A.slot a) (A.rank a) = {content a} := by
    intro a ha
    ext c
    constructor
    · rintro ⟨b, ⟨hb, hs, -⟩, rfl⟩
      rw [hsole b hb a ha hs]
      rfl
    · rintro rfl
      exact ⟨a, ⟨ha, rfl, rfl⟩, rfl⟩
  constructor
  · rintro ⟨⟨a, ha, hs, hr⟩, -, hlub⟩
    rw [← hs, ← hr, hheld a ha] at hlub
    have hya : y = a := hext _ _ hs.symm hr.symm (hlub.unique isLUB_singleton)
    rw [hya]
    exact hstill a ha
  · intro hy
    have hyP : A.Pushed (items m) y := .base ⟨_, hy⟩
    refine ⟨⟨y, hyP, rfl, rfl⟩, ?_, ?_⟩
    · intro a ha hs
      rw [hsole a ha y hyP hs]
    · rw [hheld y hyP]
      exact isLUB_singleton

variable (hc : ∀ x i, content (A.rebind x i) = content x) {Fit : X → Prop}
  (hbind : ∀ x i, Fit x → Fit (A.rebind x i))
  (hjoin : ∀ a b w, Fit a → Fit b → A.slot a = A.slot b → A.rank a = A.rank b → A.join a b w →
    IsLUB {content a, content b} (content w) ∧ Fit w)

include hbind hjoin in
theorem Absorb.fit {m m' : ExtTreeMap I X} {x : X} {t : List I} (h : A.Absorb m x m' t)
    (hm : A.Keyed m) (hfit : ∀ y ∈ items m, Fit y) (hx : Fit x) : ∀ y ∈ items m', Fit y := by
  induction h with
  | place hn =>
    rw [items_insert hn]
    rintro y (rfl | hy)
    · exact hx
    · exact hfit y hy
  | @join m x y w hy hrank hw =>
    rw [items_replace]
    rw [items_erase hy] at hfit
    rintro z (rfl | hz)
    · exact (hjoin _ _ _ (hfit y (.inl rfl)) hx (hm _ _ hy) hrank hw).2
    · exact hfit z (.inr hz)
  | keep _ _ _ _ ih => exact ih hm hfit (hbind _ _ hx)
  | @evict m x y j m' t hy hlt hf _ ih =>
    refine ih (hm.insert x) ?_ (hbind _ _ (hfit y ⟨_, hy⟩))
    rw [items_replace]
    rw [items_erase hy] at hfit
    rintro z (rfl | hz)
    · exact hx
    · exact hfit z (.inr hz)

include hc hbind hjoin in
/-- An insertion adds its entry to what the map stands for, and nothing else. -/
theorem same_absorb {m m' : ExtTreeMap I X} {x : X} {t : List I} (h : A.Absorb m x m' t)
    (hm : A.Keyed m) (hfit : ∀ y ∈ items m, Fit y) (hx : Fit x) :
    A.Same content (insert x (items m)) (items m') := by
  induction h with
  | place hn =>
    rw [items_insert hn]
    exact .refl _
  | @join m x y w hy hrank hw =>
    have hslot : A.slot y = A.slot x := hm _ _ hy
    have hlub := (hjoin _ _ _ (hfit y ⟨_, hy⟩) hx hslot hrank hw).1
    rw [items_replace, items_erase hy]
    refine same_join hc ?_ ?_ hlub
    · rw [A.slot_join hw, A.rank_join hw]
      exact ⟨hslot.symm, hrank.symm⟩
    · rw [A.slot_join hw, A.rank_join hw]
      exact ⟨rfl, rfl⟩
  | @keep m x y j m' t hy hlt hf _ ih =>
    have hmem : y ∈ items m := ⟨_, hy⟩
    exact (same_move hmem (hm _ _ hy) hlt hf).trans (ih hm hfit (hbind _ _ hx))
  | @evict m x y j m' t hy hlt hf _ ih =>
    have hslot : A.slot y = A.slot x := hm _ _ hy
    have hyfit := hfit y ⟨_, hy⟩
    rw [items_replace] at ih
    rw [items_erase hy] at hfit ⊢
    rw [Set.insert_comm]
    refine (same_move (by simp) hslot.symm hlt (hslot ▸ hf)).trans
      (ih (hm.insert x) ?_ (hbind _ _ hyfit))
    rintro z (rfl | hz)
    · exact hx
    · exact hfit z (.inr hz)

/-- Two maps that stand for the same entries are equal. -/
theorem eq_of_same (hext : ∀ x y, A.slot x = A.slot y → A.rank x = A.rank y →
    content x = content y → x = y) {m m' : ExtTreeMap I X} (hm : A.Keyed m) (hm' : A.Keyed m')
    (h : A.Same content (items m) (items m')) : m = m' := by
  have hiff : ∀ y, m[A.slot y]? = some y ↔ m'[A.slot y]? = some y := by
    intro y
    rw [← wins_items hext hm, ← wins_items hext hm']
    simpa using h ∅ y
  refine OrdMap.ext (fun k => Option.ext (fun y => ?_))
  constructor
  · intro hk
    have hs := hm _ _ hk
    subst hs
    exact (hiff y).mp hk
  · intro hk
    have hs := hm' _ _ hk
    subst hs
    exact (hiff y).mpr hk

end Convergence

end Insertion

end Arena

end Misty
