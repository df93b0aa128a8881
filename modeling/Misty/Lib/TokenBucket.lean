import Mathlib

/- Token buckets. A bucket holds an amount and the instant of its last charge; it refills
   at a steady rate up to a capacity, and a charge takes one token when there is one. The
   amounts are of any ordered type with the arithmetic the program counts in, rounding or
   not: `Steady` is the order that arithmetic keeps, `Counts` is how far it strays from
   exact numbers.

   What is proved:
     1. `like_none_iff` — a bucket reads like no bucket at all from then on exactly when
        it is full, so those are the ones a table may drop.
     2. `Counts.granted_le` — the tokens granted in a window come to the capacity, what the
        window refills, and the rounding of the refills in it.
     3. `Counts.grants_all` — charges that stay within that in every window that opens with
        one of them are all granted. -/
namespace Misty

namespace TokenBucket

/-- How fast a bucket refills, and up to what. -/
structure Rule (F : Type) where
  perSecond : F
  capacity : F

structure Bucket (F : Type) where
  tokens : F
  updated : Nat
  deriving DecidableEq

section

variable {F : Type} [LinearOrder F] [Add F] [Sub F] [Mul F] [NatCast F] (secs : Nat → F) (rule : Rule F)

set_option linter.unusedSectionVars false

/-- What a bucket comes to, past the capacity if need be. -/
def Bucket.refilled (self : Bucket F) (now : Nat) : F := self.tokens + secs (now - self.updated) * rule.perSecond

/-- Brought up to date. -/
def Bucket.settled (self : Bucket F) (now : Nat) : Bucket F := ⟨min (self.refilled secs rule now) rule.capacity, now⟩

/-- A token taken, when there is one. -/
def Bucket.spend (self : Bucket F) : Bucket F :=
  if ((1 : Nat) : F) ≤ self.tokens then { self with tokens := self.tokens - ((1 : Nat) : F) } else self

/-- What a charge finds: a bucket that is not there is a full one. -/
def found (b : Option (Bucket F)) (now : Nat) : Bucket F := (b.getD ⟨rule.capacity, now⟩).settled secs rule now

/-- What the charges at these instants find, each spending what it can. -/
def reads : Option (Bucket F) → List Nat → List (Nat × F)
  | _, [] => []
  | b, t :: ts => (t, (found secs rule b t).tokens) :: reads (some (found secs rule b t).spend) ts

/-- What those charges leave. -/
def left (b : Option (Bucket F)) (ts : List Nat) : Option (Bucket F) :=
  ts.foldl (fun b t => some (found secs rule b t).spend) b

/-- From then on there is no telling the two apart. -/
def Like (t : Nat) (b b' : Option (Bucket F)) : Prop := ∀ now, t ≤ now → found secs rule b now = found secs rule b' now

/-- The order the arithmetic keeps. -/
structure Steady : Prop where
  still : ∀ a : F, a ≤ a + secs 0 * rule.perSecond
  grows : ∀ (a : F) (m n : Nat), m ≤ n → a + secs m * rule.perSecond ≤ a + secs n * rule.perSecond

variable {secs rule} {b b' : Option (Bucket F)} {t t' : Nat}

@[simp] theorem Bucket.updated_spend (b : Bucket F) : b.spend.updated = b.updated := by
  unfold Bucket.spend
  split <;> rfl

@[simp] theorem updated_found (b : Option (Bucket F)) (now : Nat) : (found secs rule b now).updated = now := rfl

theorem found_le (b : Option (Bucket F)) (now : Nat) : (found secs rule b now).tokens ≤ rule.capacity := min_le_right _ _

@[simp] theorem map_fst_reads (b : Option (Bucket F)) (ts : List Nat) : (reads secs rule b ts).map Prod.fst = ts := by
  induction ts generalizing b with
  | nil => rfl
  | cons t ts ih => simp [reads, ih]

theorem Like.refl (t : Nat) (b : Option (Bucket F)) : Like secs rule t b b := fun _ _ => rfl

theorem Like.trans {b'' : Option (Bucket F)} (h : Like secs rule t b b') (h' : Like secs rule t b' b'') :
    Like secs rule t b b'' := fun now hle => (h now hle).trans (h' now hle)

theorem Like.mono (h : Like secs rule t b b') (hle : t ≤ t') : Like secs rule t' b b' :=
  fun now hnow => h now (hle.trans hnow)

theorem Steady.refilled_mono (hs : Steady secs rule) (b : Bucket F) {m n : Nat} (hmn : m ≤ n) :
    b.refilled secs rule m ≤ b.refilled secs rule n :=
  hs.grows _ _ _ (by omega)

theorem found_none (hs : Steady secs rule) (now : Nat) : found secs rule none now = ⟨rule.capacity, now⟩ := by
  have hstill : rule.capacity ≤ (⟨rule.capacity, now⟩ : Bucket F).refilled secs rule now := by
    simpa [Bucket.refilled] using hs.still rule.capacity
  simp [found, Bucket.settled, min_eq_right hstill]

/-- A bucket reads like none, which is a new one at each charge, exactly when it is full. -/
theorem like_none_iff (hs : Steady secs rule) {b : Bucket F} :
    Like secs rule t (some b) none ↔ rule.capacity ≤ b.refilled secs rule t := by
  constructor
  · intro h
    have hfound := congrArg Bucket.tokens (h t le_rfl)
    rw [found_none hs] at hfound
    exact min_eq_right_iff.mp hfound
  · intro hfull now hle
    have hsome : rule.capacity ≤ b.refilled secs rule now := hfull.trans (hs.refilled_mono b hle)
    rw [found_none hs]
    simp [found, Bucket.settled, min_eq_right hsome]

theorem Like.symm (h : Like secs rule t b b') : Like secs rule t b' b := fun now hle => (h now hle).symm

theorem short_iff (hs : Steady secs rule) :
    (∃ x, b = some x ∧ x.refilled secs rule t < rule.capacity) ↔ ¬ Like secs rule t b none := by
  cases b with
  | none => simpa using Like.refl t none
  | some x => simp [like_none_iff hs]

theorem Like.short_iff (hs : Steady secs rule) (h : Like secs rule t b b') :
    (∃ x, b = some x ∧ x.refilled secs rule t < rule.capacity) ↔
      ∃ x, b' = some x ∧ x.refilled secs rule t < rule.capacity := by
  rw [TokenBucket.short_iff hs, TokenBucket.short_iff hs]
  exact not_congr ⟨h.symm.trans, h.trans⟩

/-- Buckets that are full may be dropped. -/
theorem Like.filter (hs : Steady secs rule) {p : Bucket F → Bool}
    (h : ∀ x, b = some x → p x = false → rule.capacity ≤ x.refilled secs rule t) :
    Like secs rule t (b.filter p) b := by
  cases b with
  | none => exact .refl _ _
  | some x =>
    cases hp : p x with
    | true =>
      rw [Option.filter_some, if_pos hp]
      exact .refl _ _
    | false =>
      have hlike := (like_none_iff hs).mpr (h x rfl hp)
      rw [Option.filter_some, if_neg (by simp [hp])]
      exact hlike.symm

/-! ## Counting -/

/-- The arithmetic against exact numbers: `r` is refilled a tick, and a refill rounds by at most `e`. -/
structure Counts (secs : Nat → F) (rule : Rule F) (value : F → ℚ) (r e : ℚ) : Prop where
  steady : Steady secs rule
  still : ∀ a : F, a + secs 0 * rule.perSecond = a
  mono : StrictMono value
  one : value ((1 : Nat) : F) = 1
  capacity : 0 ≤ value rule.capacity
  spend : ∀ a, ((1 : Nat) : F) ≤ a → a ≤ rule.capacity → value (a - ((1 : Nat) : F)) = value a - 1
  most : ∀ (a : F) (n : Nat), 0 ≤ value a → value a ≤ value rule.capacity →
    value (min (a + secs n * rule.perSecond) rule.capacity) ≤ value a + r * n + e
  least : ∀ (a : F) (n : Nat), 0 ≤ value a → value a ≤ value rule.capacity →
    min (value a + r * n - e) (value rule.capacity) ≤ value (min (a + secs n * rule.perSecond) rule.capacity)
  rate : 0 ≤ r
  error : 0 ≤ e

/-- Charges in a window. -/
def within (s u : Nat) (ts : List Nat) : Nat := ts.countP (fun x => s ≤ x ∧ x ≤ u)

/-- The instants past the first of a window at which there are charges: so often it is refilled. -/
def turns (s u : Nat) (ts : List Nat) : Nat := (ts.toFinset.filter (fun x => s < x ∧ x ≤ u)).card

/-- Tokens granted in a window. -/
def granted (s u : Nat) (l : List (Nat × F)) : Nat :=
  l.countP (fun p => (s ≤ p.1 ∧ p.1 ≤ u) ∧ ((1 : Nat) : F) ≤ p.2)

theorem within_cons (s u t : Nat) (ts : List Nat) :
    within s u (t :: ts) = within s u ts + if s ≤ t ∧ t ≤ u then 1 else 0 := by
  simp [within, List.countP_cons]

theorem turns_cons {s u t : Nat} {ts : List Nat} (hst : s ≤ t) (htu : t ≤ u) (hafter : ∀ x ∈ ts, t ≤ x) :
    turns s u (t :: ts) = turns t u ts + if s < t then 1 else 0 := by
  unfold turns
  rw [List.toFinset_cons, Finset.filter_insert]
  obtain hlt | rfl := hst.lt_or_eq
  · have hrest : insert t (ts.toFinset.filter (fun x => s < x ∧ x ≤ u)) = insert t (ts.toFinset.filter (fun x => t < x ∧ x ≤ u)) := by
      ext x
      simp only [Finset.mem_insert, Finset.mem_filter, List.mem_toFinset]
      refine or_congr_right' fun hne => and_congr_right fun hx => and_congr_left' ?_
      have hle := hafter x hx
      omega
    rw [if_pos ⟨hlt, htu⟩, if_pos hlt, hrest, Finset.card_insert_of_notMem (by simp)]
  · rw [if_neg (fun h => absurd h.1 (lt_irrefl s)), if_neg (lt_irrefl s), Nat.add_zero]

theorem turns_mono {s s' u : Nat} {ts ts' : List Nat} (hs : s ≤ s') (hts : ∀ x ∈ ts, x ∈ ts') : turns s' u ts ≤ turns s u ts' := by
  refine Finset.card_le_card fun x hx => ?_
  simp only [Finset.mem_filter, List.mem_toFinset] at hx ⊢
  exact ⟨hts x hx.1, hs.trans_lt hx.2.1, hx.2.2⟩

theorem turns_self (s : Nat) (ts : List Nat) : turns s s ts = 0 := by
  refine Finset.card_eq_zero.mpr (Finset.filter_eq_empty_iff.mpr fun x _ h => ?_)
  omega

theorem granted_cons (s u : Nat) (p : Nat × F) (l : List (Nat × F)) :
    granted s u (p :: l) = granted s u l + if (s ≤ p.1 ∧ p.1 ≤ u) ∧ ((1 : Nat) : F) ≤ p.2 then 1 else 0 := by
  simp [granted, List.countP_cons]

theorem granted_past {s u : Nat} {b : Option (Bucket F)} {ts : List Nat} (h : ∀ x ∈ ts, u < x) :
    granted s u (reads secs rule b ts) = 0 := by
  refine List.countP_eq_zero.mpr fun p hp => ?_
  have hmap : (reads secs rule b ts).map Prod.fst = ts := map_fst_reads b ts
  have hmem : p.1 ∈ ts := by
    rw [← hmap]
    exact List.mem_map_of_mem hp
  have hlt := h _ hmem
  simp only [decide_eq_true_eq, not_and]
  omega

/-- What a bucket may hold. -/
def Bucket.Sane (value : F → ℚ) (rule : Rule F) (self : Bucket F) : Prop :=
  0 ≤ value self.tokens ∧ value self.tokens ≤ value rule.capacity

variable {value : F → ℚ} {r e : ℚ}

namespace Counts

variable (hc : Counts secs rule value r e)
include hc

theorem sane_found {b : Option (Bucket F)} (hb : ∀ x, b = some x → x.Sane value rule) (now : Nat) :
    (found secs rule b now).Sane value rule := by
  refine ⟨?_, hc.mono.monotone (found_le b now)⟩
  have hsane : (b.getD ⟨rule.capacity, now⟩).Sane value rule := by
    cases b with
    | none => exact ⟨hc.capacity, le_rfl⟩
    | some x => exact hb x rfl
  have hgrown : value (b.getD ⟨rule.capacity, now⟩).tokens ≤ value ((b.getD ⟨rule.capacity, now⟩).refilled secs rule now) := by
    refine hc.mono.monotone ((hc.steady.still _).trans ?_)
    exact hc.steady.grows _ _ _ (Nat.zero_le _)
  show 0 ≤ value (min _ _)
  rw [hc.mono.monotone.map_min]
  exact le_min (hsane.1.trans hgrown) hc.capacity

/-- What is left is what was found less what was granted. -/
theorem value_spend {b : Bucket F} (hb : b.tokens ≤ rule.capacity) :
    value b.spend.tokens = value b.tokens - if ((1 : Nat) : F) ≤ b.tokens then 1 else 0 := by
  unfold Bucket.spend
  split
  · next h => exact hc.spend _ h hb
  · simp

/-- What a charge finds is what was left and what was refilled since, up to the rounding of a refill. -/
theorem found_most {b : Bucket F} (hb : b.Sane value rule) {t : Nat} (hle : b.updated ≤ t) :
    value (found secs rule (some b) t).tokens ≤ value b.tokens + r * ((t : ℚ) - b.updated) + if b.updated < t then e else 0 := by
  obtain hlt | rfl := hle.lt_or_eq
  · have hmost := hc.most b.tokens (t - b.updated) hb.1 hb.2
    rw [Nat.cast_sub hle] at hmost
    rwa [if_pos hlt]
  · rw [if_neg (lt_irrefl _), sub_self, mul_zero, add_zero, add_zero]
    refine hc.mono.monotone ((min_le_left _ _).trans_eq ?_)
    show b.tokens + secs (b.updated - b.updated) * rule.perSecond = b.tokens
    rw [Nat.sub_self, hc.still]

/-- The capacity is found, or what was left and what was refilled since, up to the rounding of a refill. -/
theorem found_least {b : Bucket F} (hb : b.Sane value rule) {t : Nat} (hle : b.updated ≤ t) :
    min (value b.tokens + r * ((t : ℚ) - b.updated) - if b.updated < t then e else 0) (value rule.capacity) ≤
      value (found secs rule (some b) t).tokens := by
  obtain hlt | rfl := hle.lt_or_eq
  · have hleast := hc.least b.tokens (t - b.updated) hb.1 hb.2
    rw [Nat.cast_sub hle] at hleast
    rwa [if_pos hlt]
  · rw [if_neg (lt_irrefl _), sub_self, mul_zero, add_zero, sub_zero, ← hc.mono.monotone.map_min]
    refine hc.mono.monotone (min_le_min_right _ (le_of_eq ?_))
    show b.tokens = b.tokens + secs (b.updated - b.updated) * rule.perSecond
    rw [Nat.sub_self, hc.still]

theorem sane_spend {b : Option (Bucket F)} (hb : ∀ x, b = some x → x.Sane value rule) (now : Nat) :
    (found secs rule b now).spend.Sane value rule := by
  have hfound := hc.sane_found hb now
  unfold Bucket.Sane at hfound ⊢
  rw [hc.value_spend (found_le b now)]
  split
  · next h =>
    have hone := hc.mono.monotone h
    rw [hc.one] at hone
    constructor <;> linarith
  · simpa using hfound

/-- From one charge on: what is granted comes out of what the bucket held and what it refills. -/
theorem granted_from {s u : Nat} {ts : List Nat} {b : Bucket F} (hb : b.Sane value rule) (hs : s ≤ b.updated)
    (hu : b.updated ≤ u) (hafter : ∀ x ∈ ts, b.updated ≤ x) (hsorted : ts.Pairwise (· ≤ ·)) :
    (granted s u (reads secs rule (some b) ts) : ℚ) ≤
      value b.tokens + r * ((u : ℚ) - b.updated) + e * turns b.updated u ts := by
  have hstart : 0 ≤ value b.tokens + r * ((u : ℚ) - b.updated) := by
    have hspan : (0 : ℚ) ≤ (u : ℚ) - b.updated := by
      rw [sub_nonneg]
      exact_mod_cast hu
    linarith [hb.1, mul_nonneg hc.rate hspan]
  induction ts generalizing b with
  | nil => simpa [reads, granted, turns] using hstart
  | cons t ts ih =>
    have hbt := hafter t List.mem_cons_self
    rw [List.pairwise_cons] at hsorted
    by_cases htu : t ≤ u
    · have hfound := hc.found_most hb hbt
      have hspent := hc.value_spend (b := found secs rule (some b) t) (found_le _ _)
      have hsane : (found secs rule (some b) t).spend.Sane value rule :=
        hc.sane_spend (fun x hx => Option.some.inj hx ▸ hb) t
      have hspan : (0 : ℚ) ≤ (u : ℚ) - t := by
        rw [sub_nonneg]
        exact_mod_cast htu
      have hrest := ih hsane (by simp; omega) (by simpa using htu) (by simpa using hsorted.1) hsorted.2
        (by simpa using add_nonneg hsane.1 (mul_nonneg hc.rate hspan))
      have hin : s ≤ t ∧ t ≤ u := ⟨hs.trans hbt, htu⟩
      simp only [reads, granted_cons, turns_cons hbt htu hsorted.1, hin, and_self, true_and, Nat.cast_add, Nat.cast_ite,
        Nat.cast_one, Nat.cast_zero, Bucket.updated_spend, updated_found] at hrest ⊢
      rw [hspent] at hrest
      -- what is gained up to this charge and what is gained after it
      have hsplit : r * ((u : ℚ) - b.updated) = r * ((u : ℚ) - t) + r * ((t : ℚ) - b.updated) := by ring
      rw [hsplit, mul_add, mul_ite, mul_one, mul_zero]
      linarith
    · -- the window is over
      have hpast : ∀ x ∈ t :: ts, u < x := by
        intro x hx
        obtain rfl | hx := List.mem_cons.mp hx
        · omega
        · have := hsorted.1 x hx
          omega
      rw [granted_past hpast, Nat.cast_zero]
      have hround := mul_nonneg hc.error (Nat.cast_nonneg (α := ℚ) (turns b.updated u (t :: ts)))
      linarith

/-- The tokens granted in a window come to the capacity, what the window refills, and the rounding. -/
theorem granted_le {s u : Nat} (hsu : s ≤ u) {ts : List Nat} {b : Option (Bucket F)}
    (hb : ∀ x, b = some x → x.Sane value rule) (hsorted : ts.Pairwise (· ≤ ·)) :
    (granted s u (reads secs rule b ts) : ℚ) ≤ value rule.capacity + r * ((u : ℚ) - s) + e * turns s u ts := by
  have hspan : (0 : ℚ) ≤ (u : ℚ) - s := by
    rw [sub_nonneg]
    exact_mod_cast hsu
  have hstart : 0 ≤ value rule.capacity + r * ((u : ℚ) - s) := add_nonneg hc.capacity (mul_nonneg hc.rate hspan)
  induction ts generalizing b with
  | nil => simpa [reads, granted, turns] using hstart
  | cons t ts ih =>
    rw [List.pairwise_cons] at hsorted
    have hsane := hc.sane_spend hb t
    by_cases hst : s ≤ t
    · by_cases htu : t ≤ u
      · -- the window opens with this charge, which finds the capacity at most
        have hfound := (hc.sane_found hb t).2
        have hspent := hc.value_spend (b := found secs rule b t) (found_le _ _)
        have hrest := hc.granted_from (s := s) (u := u) hsane (by simpa using hst) (by simpa using htu)
          (by simpa using hsorted.1) hsorted.2
        simp only [reads, granted_cons, hst, htu, and_self, true_and, Nat.cast_add, Nat.cast_ite,
          Nat.cast_one, Nat.cast_zero, Bucket.updated_spend, updated_found] at hrest ⊢
        rw [hspent] at hrest
        have hlate : r * ((u : ℚ) - t) ≤ r * ((u : ℚ) - s) := by
          refine mul_le_mul_of_nonneg_left ?_ hc.rate
          have hcast : (s : ℚ) ≤ t := by exact_mod_cast hst
          linarith
        have hturns : e * (turns t u ts : ℚ) ≤ e * turns s u (t :: ts) := by
          refine mul_le_mul_of_nonneg_left ?_ hc.error
          exact_mod_cast turns_mono hst fun x hx => List.mem_cons_of_mem t hx
        linarith
      -- the window is over: nothing counts any more
      · have hpast : ∀ x ∈ t :: ts, u < x := by
          intro x hx
          obtain rfl | hx := List.mem_cons.mp hx
          · omega
          · have := hsorted.1 x hx
            omega
        rw [granted_past hpast, Nat.cast_zero]
        have hround := mul_nonneg hc.error (Nat.cast_nonneg (α := ℚ) (turns s u (t :: ts)))
        linarith
    -- the window has not begun: what this charge leaves is a sane bucket still
    · have hturns : e * (turns s u ts : ℚ) ≤ e * turns s u (t :: ts) := by
        refine mul_le_mul_of_nonneg_left ?_ hc.error
        exact_mod_cast turns_mono le_rfl fun x hx => List.mem_cons_of_mem t hx
      have hrest := ih (fun x hx => Option.some.inj hx ▸ hsane) hsorted.2
      simp only [reads, granted_cons, hst, false_and, if_false, Nat.add_zero]
      linarith

/-- Charges that keep to what the bucket held and to what every window gives are all granted. -/
theorem grants_from {ts : List Nat} {b : Bucket F} (hb : b.Sane value rule) (hafter : ∀ x ∈ ts, b.updated ≤ x)
    (hsorted : ts.Pairwise (· ≤ ·))
    (hown : ∀ u, b.updated ≤ u →
      within 0 u ts + e * turns b.updated u ts ≤ value b.tokens + r * ((u : ℚ) - b.updated))
    (hwindows : ∀ s ∈ ts, ∀ u, s ≤ u → within s u ts + e * turns s u ts ≤ value rule.capacity + r * ((u : ℚ) - s)) :
    ∀ p ∈ reads secs rule (some b) ts, ((1 : Nat) : F) ≤ p.2 := by
  have herror := hc.error
  induction ts generalizing b with
  | nil => simp [reads]
  | cons t ts ih =>
    have hbt := hafter t List.mem_cons_self
    rw [List.pairwise_cons] at hsorted
    have hleast := hc.found_least hb hbt
    -- what this charge counts for, in the windows that end with it or later
    have hcount : ∀ {s u : Nat}, s ≤ t → t ≤ u → (within s u (t :: ts) : ℚ) = within s u ts + 1 := by
      intro s u hs hu
      rw [within_cons, if_pos ⟨hs, hu⟩, Nat.cast_add, Nat.cast_one]
    have hsame : ∀ u, within t u ts = within 0 u ts := by
      intro u
      refine List.countP_congr fun x hx => ?_
      have hle := hsorted.1 x hx
      simp [hle]
    have hfirst : ∀ u, t ≤ u → (within 0 u ts : ℚ) + 1 + e * turns t u ts + (if b.updated < t then e else 0) ≤
        value b.tokens + r * ((u : ℚ) - b.updated) := by
      intro u hu
      have h := hown u (hbt.trans hu)
      rw [hcount (Nat.zero_le _) hu, turns_cons hbt hu hsorted.1] at h
      push_cast at h
      rw [mul_add, mul_ite, mul_one, mul_zero] at h
      linarith
    have hwindow : ∀ u, t ≤ u → (within 0 u ts : ℚ) + 1 + e * turns t u ts ≤ value rule.capacity + r * ((u : ℚ) - t) := by
      intro u hu
      have h := hwindows t List.mem_cons_self u hu
      rw [hcount le_rfl hu, turns_cons le_rfl hu hsorted.1, if_neg (lt_irrefl t), Nat.add_zero, hsame] at h
      exact h
    have hone : ((1 : Nat) : F) ≤ (found secs rule (some b) t).tokens := by
      rw [← hc.mono.le_iff_le, hc.one]
      have h := hfirst t le_rfl
      have h' := hwindow t le_rfl
      rw [turns_self, Nat.cast_zero, mul_zero] at h h'
      have hrest : 0 ≤ (within 0 t ts : ℚ) := Nat.cast_nonneg _
      refine le_trans (le_min ?_ ?_) hleast <;> linarith
    have hspent := hc.value_spend (b := found secs rule (some b) t) (found_le _ _)
    rw [if_pos hone] at hspent
    intro p hp
    obtain rfl | hp := List.mem_cons.mp hp
    · exact hone
    · refine ih (hc.sane_spend (fun x hx => Option.some.inj hx ▸ hb) t) (by simpa using hsorted.1) hsorted.2 ?_ ?_ p hp
      · intro u hu
        rw [Bucket.updated_spend, updated_found] at hu ⊢
        have h := hfirst u hu
        have h' := hwindow u hu
        rw [hspent]
        -- whichever the bucket was limited by
        obtain hlow | hlow := min_le_iff.mp hleast
        · have hsplit : r * ((u : ℚ) - b.updated) = r * ((u : ℚ) - t) + r * ((t : ℚ) - b.updated) := by ring
          rw [hsplit] at h
          linarith
        · linarith
      · intro s hs u hsu
        have h := hwindows s (List.mem_cons_of_mem t hs) u hsu
        have hwithin : (within s u ts : ℚ) ≤ within s u (t :: ts) := by
          rw [within_cons]
          exact_mod_cast Nat.le_add_right _ _
        have hturns : e * (turns s u ts : ℚ) ≤ e * turns s u (t :: ts) := by
          refine mul_le_mul_of_nonneg_left ?_ herror
          exact_mod_cast turns_mono le_rfl fun x hx => List.mem_cons_of_mem t hx
        linarith

theorem grants_all {ts : List Nat} (hsorted : ts.Pairwise (· ≤ ·))
    (hwindows : ∀ s ∈ ts, ∀ u, s ≤ u → within s u ts + e * turns s u ts ≤ value rule.capacity + r * ((u : ℚ) - s)) :
    ∀ p ∈ reads secs rule none ts, ((1 : Nat) : F) ≤ p.2 := by
  cases ts with
  | nil => simp [reads]
  | cons t ts =>
    have hafter : ∀ x ∈ t :: ts, t ≤ x := by
      simpa using (List.pairwise_cons.mp hsorted).1
    refine hc.grants_from (b := ⟨rule.capacity, t⟩) ⟨hc.capacity, le_rfl⟩ hafter hsorted ?_ hwindows
    intro u hu
    have hsame : within 0 u (t :: ts) = within t u (t :: ts) := by
      refine List.countP_congr fun x hx => ?_
      have hle := hafter x hx
      simp [hle]
    rw [hsame]
    exact hwindows t List.mem_cons_self u hu

end Counts

end

end TokenBucket

end Misty
