import Misty.Vault.Join
import Misty.Lib.Displacement

/- Merging a set of items. Two versions of one credential are merged; two
   credentials under one id are both kept, the smaller secret under the id and the
   other under the id a `ForkIds` derives for it, where the same rule applies.

   `absorb_spec` reads the loop as one insertion of `Misty.Lib.Displacement`: the
   slot is the id, the rank is the secret.

   Correspondence (Rust ↔ Lean):
     `merge::{ForkIds, ItemSet}`               ↔ `ForkIds`, `ItemSet`
     `conflict::local_keeps_id`                ↔ `localKeepsId`
     `ItemSet::{get, iter, insert, purge, replace}` ↔ the same names
     `ItemSet::{absorb, merge}`                ↔ `ItemSet.absorb`, `ItemSet.merge`
   `absorb` and `merge` return the set and the conflict list they leave behind on
   an error as well: an error in the middle of `absorb` has already taken the local
   item out. -/
namespace Misty

open Std (ExtTreeMap)

/-- Where a forked item's id comes from. The derivation may fail. -/
abbrev ForkIds := ItemId → SecretBytes → Result ItemId

/-- A derivation of ids that depends on the secret alone, so that it is not injective. -/
def forkBySecret : ForkIds := fun _ secret => .ok ⟨ByteArr.repeated 16 (secret.bytes.headD 0)⟩

def localKeepsId (own remote : SecretBytes) : Bool := own ≤ remote

/-- `dedup` on a sorted list. -/
def dedup : List ItemId → List ItemId
  | [] => []
  | [a] => [a]
  | a :: b :: rest => if a = b then dedup (b :: rest) else a :: dedup (b :: rest)

/-- `sort_unstable` and `dedup`. -/
def sortDedup (ids : List ItemId) : List ItemId := dedup (ids.insertionSort (· ≤ ·))

theorem mem_dedup : ∀ (l : List ItemId) (i : ItemId), i ∈ dedup l ↔ i ∈ l
  | [], i => Iff.rfl
  | [a], i => Iff.rfl
  | a :: b :: rest, i => by
    have ih := mem_dedup (b :: rest) i
    unfold dedup
    split
    · next hab =>
      rw [ih, hab]
      simp
    · rw [List.mem_cons, ih, List.mem_cons (a := i) (b := a)]

theorem nodup_dedup : ∀ (l : List ItemId), l.Pairwise (· ≤ ·) → (dedup l).Nodup
  | [], _ => List.nodup_nil
  | [a], _ => List.nodup_singleton a
  | a :: b :: rest, h => by
    obtain ⟨ha, hrest⟩ := List.pairwise_cons.mp h
    have ih := nodup_dedup (b :: rest) hrest
    unfold dedup
    split
    · exact ih
    · next hab =>
      refine List.nodup_cons.mpr ⟨?_, ih⟩
      -- everything after the first entry is at least the second one, which is not the first
      rw [mem_dedup]
      intro hmem
      obtain ⟨hb, -⟩ := List.pairwise_cons.mp hrest
      rcases List.mem_cons.mp hmem with rfl | hmem
      · exact hab rfl
      · exact hab (le_antisymm (ha b (by simp)) (hb a hmem))

theorem nodup_sortDedup (l : List ItemId) : (sortDedup l).Nodup :=
  nodup_dedup _ (List.pairwise_insertionSort _ _)

@[simp] theorem mem_sortDedup (l : List ItemId) (i : ItemId) : i ∈ sortDedup l ↔ i ∈ l := by
  rw [sortDedup, mem_dedup, List.mem_insertionSort]

/-! ## The set -/

/-- A vault's items, each under its own id. -/
structure ItemSet where
  items : ExtTreeMap ItemId Item
  keyed : ∀ (id : ItemId) (x : Item), items[id]? = some x → x.id = id

namespace ItemSet

theorem ext_items {a b : ItemSet} (h : a.items = b.items) : a = b := by
  cases a
  cases b
  simp only [ItemSet.mk.injEq]
  exact h

instance : DecidableEq ItemSet := fun _ _ =>
  decidable_of_iff _ ⟨ext_items, congrArg ItemSet.items⟩

def new : ItemSet := ⟨∅, by simp⟩

def get (self : ItemSet) (id : ItemId) : Option Item := self.items[id]?

/-- `ItemSet::iter`, in id order. -/
def iter (self : ItemSet) : List Item := self.items.toList.map Prod.snd

def replace (self : ItemSet) (item : Item) : ItemSet where
  items := self.items.insert item.id item
  keyed id x h := by
    rw [OrdMap.getElem?_insert] at h
    split at h
    · next hi =>
      cases h
      exact hi
    · exact self.keyed id x h

def insert (self : ItemSet) (item : Item) : Result ItemSet :=
  if (self.get item.id).isSome then .error (.itemExists item.id) else .ok (self.replace item)

def purge (self : ItemSet) (id : ItemId) : ItemSet where
  items := self.items.erase id
  keyed i x h := by
    rw [OrdMap.getElem?_erase] at h
    split at h
    · cases h
    · exact self.keyed i x h

@[simp] theorem get_replace (s : ItemSet) (x : Item) (i : ItemId) :
    (s.replace x).get i = if x.id = i then some x else s.get i :=
  OrdMap.getElem?_insert ..

@[simp] theorem get_purge (s : ItemSet) (id i : ItemId) :
    (s.purge id).get i = if id = i then none else s.get i :=
  OrdMap.getElem?_erase ..

theorem holds_replace (s : ItemSet) (x y : Item) :
    (s.replace x).get y.id = some y ↔ y = x ∨ s.get y.id = some y ∧ y.id ≠ x.id := by
  rw [get_replace]
  split
  · next hid => simp [hid, eq_comm]
  · next hid =>
    constructor
    · intro h
      exact .inr ⟨h, Ne.symm hid⟩
    · rintro (rfl | h)
      · exact absurd rfl hid
      · exact h.1

theorem id_of_get {s : ItemSet} {i : ItemId} {x : Item} (h : s.get i = some x) : x.id = i :=
  s.keyed i x h

theorem ext_get {a b : ItemSet} (h : ∀ i, a.get i = b.get i) : a = b := ext_items (OrdMap.ext h)

theorem mem_iter {s : ItemSet} {x : Item} : x ∈ s.iter ↔ s.get x.id = some x := by
  constructor
  · intro h
    obtain ⟨⟨i, y⟩, hmem, rfl⟩ := List.mem_map.mp h
    have hget := OrdMap.mem_toList.mp hmem
    rw [s.keyed i y hget]
    exact hget
  · intro h
    exact List.mem_map.mpr ⟨(x.id, x), OrdMap.mem_toList.mpr h, rfl⟩

/-! ## Absorbing -/

/-- The loop of `ItemSet::absorb` with `steps` rounds left. -/
def absorbLoop (fork : ForkIds) : Nat → List Item → ItemSet → List Conflict → List ItemId →
    Result (List ItemId) × ItemSet × List Conflict
  | _, [], self, conflicts, touched => (.ok (sortDedup touched), self, conflicts)
  | 0, _ :: _, self, conflicts, _ => (.error (.mergeDidNotSettle MAX_MERGE_STEPS), self, conflicts)
  | steps + 1, candidate :: queue, self, conflicts, touched =>
    match self.get candidate.id with
    | none =>
      absorbLoop fork steps queue (self.replace candidate) conflicts (touched ++ [candidate.id])
    | some own =>
      let self := self.purge candidate.id
      if own.secret = candidate.secret then
        match own.merge candidate conflicts with
        | (.error e, conflicts) => (.error e, self, conflicts)
        | (.ok merged, conflicts) =>
          absorbLoop fork steps queue (self.replace merged) conflicts (touched ++ [merged.id])
      else
        let (keeper, mover) :=
          if localKeepsId own.secret candidate.secret then (own, candidate) else (candidate, own)
        match fork keeper.id mover.secret with
        | .error e => (.error e, self, conflicts)
        | .ok forked =>
          absorbLoop fork steps (queue ++ [mover.rebind forked]) (self.replace keeper)
            (conflicts ++ [.divergentSecret keeper.id forked]) (touched ++ [keeper.id])

def absorb (fork : ForkIds) (self : ItemSet) (incoming : Item) (conflicts : List Conflict) :
    Result (List ItemId) × ItemSet × List Conflict :=
  absorbLoop fork MAX_MERGE_STEPS [incoming] self conflicts []

/-- The loop of `ItemSet::merge` over the items of the other set. -/
def mergeLoop (fork : ForkIds) : List Item → ItemSet → List Conflict → List ItemId →
    Result (List ItemId) × ItemSet × List Conflict
  | [], self, conflicts, touched => (.ok (sortDedup touched), self, conflicts)
  | item :: rest, self, conflicts, touched =>
    match self.absorb fork item conflicts with
    | (.error e, self, conflicts) => (.error e, self, conflicts)
    | (.ok ids, self, conflicts) => mergeLoop fork rest self conflicts (touched ++ ids)

def merge (fork : ForkIds) (self other : ItemSet) (conflicts : List Conflict) :
    Result (List ItemId) × ItemSet × List Conflict :=
  mergeLoop fork other.iter self conflicts []

/-! ## Absorbing as displacement -/

/-- Items under their ids, ranked by their secrets. -/
def arena (fork : ForkIds) : Arena ItemId SecretBytes Item where
  slot := Item.id
  rank := Item.secret
  rebind := Item.rebind
  fork id secret := (fork id secret).toOption
  join a b w := a.joined b = .ok w
  slot_rebind _ _ := rfl
  rank_rebind _ _ := rfl
  slot_join h := by rw [(Item.joined_eq_ok h).2.2.2]; rfl
  rank_join h := by rw [(Item.joined_eq_ok h).2.2.2]; rfl

theorem keyed_arena (fork : ForkIds) (s : ItemSet) : (arena fork).Keyed s.items := s.keyed

theorem replace_items (s : ItemSet) (x : Item) : (s.replace x).items = s.items.insert x.id x := rfl

theorem replace_purge (s : ItemSet) (x : Item) : (s.purge x.id).replace x = s.replace x := by
  refine ext_get (fun i => ?_)
  simp only [get_replace, get_purge]
  split <;> rfl

theorem replace_self {s : ItemSet} {x : Item} (h : s.get x.id = some x) : s.replace x = s := by
  refine ext_get (fun i => ?_)
  rw [get_replace]
  split
  · next hi => rw [← hi, h]
  · rfl

theorem absorbLoop_nil (fork : ForkIds) (steps : Nat) (s : ItemSet) (cs : List Conflict)
    (touched : List ItemId) :
    absorbLoop fork steps [] s cs touched = (.ok (sortDedup touched), s, cs) := by
  cases steps <;> rfl

/-- What one round of the loop does with its candidate. -/
inductive Round (fork : ForkIds) (s : ItemSet) (x : Item) (steps : Nat) (cs : List Conflict)
    (touched : List ItemId) (out : Result (List ItemId) × ItemSet × List Conflict) : Prop
  | placed : s.get x.id = none →
      out = absorbLoop fork steps [] (s.replace x) cs (touched ++ [x.id]) → Round fork s x steps cs touched out
  | refused {own e} : s.get x.id = some own → own.secret = x.secret → own.joined x = .error e →
      out = (.error e, s.purge x.id, cs ++ own.pinReport x) → Round fork s x steps cs touched out
  | joined {own w} : s.get x.id = some own → own.secret = x.secret → own.joined x = .ok w →
      out = absorbLoop fork steps [] (s.replace w) (cs ++ own.pinReport x) (touched ++ [x.id]) →
      Round fork s x steps cs touched out
  | stuck {own e} (secret : SecretBytes) : s.get x.id = some own → own.secret ≠ x.secret →
      fork x.id secret = .error e → out = (.error e, s.purge x.id, cs) → Round fork s x steps cs touched out
  | kept {own j} : s.get x.id = some own → own.secret < x.secret → fork x.id x.secret = .ok j →
      out = absorbLoop fork steps [x.rebind j] s (cs ++ [.divergentSecret x.id j]) (touched ++ [x.id]) →
      Round fork s x steps cs touched out
  | evicted {own j} : s.get x.id = some own → x.secret < own.secret → fork x.id own.secret = .ok j →
      out = absorbLoop fork steps [own.rebind j] (s.replace x) (cs ++ [.divergentSecret x.id j])
        (touched ++ [x.id]) → Round fork s x steps cs touched out

theorem absorbLoop_round (fork : ForkIds) (steps : Nat) (s : ItemSet) (x : Item)
    (cs : List Conflict) (touched : List ItemId) :
    Round fork s x steps cs touched (absorbLoop fork (steps + 1) [x] s cs touched) := by
  cases hget : s.get x.id with
  | none =>
    refine .placed hget ?_
    simp only [absorbLoop, hget]
  | some own =>
    have hid : own.id = x.id := id_of_get hget
    by_cases hsec : own.secret = x.secret
    · cases hj : own.joined x with
      | error e =>
        refine .refused hget hsec hj ?_
        simp only [absorbLoop, hget, hsec, if_true, Item.merge, hj]
      | ok w =>
        have hw : w.id = x.id := by
          rw [(Item.joined_eq_ok hj).2.2.2, ← hid]
          rfl
        refine .joined hget hsec hj ?_
        simp only [absorbLoop, hget, hsec, if_true, Item.merge, hj]
        rw [← hw, replace_purge]
    · by_cases hle : own.secret ≤ x.secret
      · have hkeep : localKeepsId own.secret x.secret = true := decide_eq_true hle
        cases hf : fork x.id x.secret with
        | error e =>
          refine .stuck x.secret hget hsec hf ?_
          simp only [absorbLoop, hget, hsec, if_false, hkeep, if_true, hid, hf]
        | ok j =>
          refine .kept hget (lt_of_le_of_ne hle hsec) hf ?_
          simp only [absorbLoop, hget, hsec, if_false, hkeep, if_true, hid, hf, List.nil_append]
          rw [← hid, replace_purge, replace_self (hid ▸ hget)]
      · have hkeep : localKeepsId own.secret x.secret = false := decide_eq_false hle
        cases hf : fork x.id own.secret with
        | error e =>
          refine .stuck own.secret hget hsec hf ?_
          simp only [absorbLoop, hget, hsec, if_false, hkeep, hf, Bool.false_eq_true]
        | ok j =>
          refine .evicted hget (not_le.mp hle) hf ?_
          simp only [absorbLoop, hget, hsec, if_false, hkeep, hf, List.nil_append, Bool.false_eq_true]
          rw [replace_purge]

/-- A run of the loop that returns is one insertion. -/
theorem absorbLoop_spec (fork : ForkIds) : ∀ (steps : Nat) (x : Item) (s : ItemSet)
    (cs : List Conflict) (touched ids : List ItemId) (s' : ItemSet) (cs' : List Conflict),
    absorbLoop fork steps [x] s cs touched = (.ok ids, s', cs') →
    ∃ t, (arena fork).Absorb s.items x s'.items t ∧ ∀ i, i ∈ ids ↔ i ∈ touched ∨ i ∈ t
  | 0, x, s, cs, touched, ids, s', cs', h => by simp [absorbLoop] at h
  | steps + 1, x, s, cs, touched, ids, s', cs', h => by
    cases absorbLoop_round fork steps s x cs touched with
    | placed hn hout =>
      rw [hout, absorbLoop_nil] at h
      obtain ⟨rfl, rfl, rfl⟩ : _ ∧ _ ∧ _ := by simpa using h
      exact ⟨[x.id], .place hn, by simp⟩
    | refused _ _ _ hout =>
      rw [hout] at h
      cases h
    | @joined own w hy hsec hj hout =>
      have hw : w.id = x.id := by
        rw [(Item.joined_eq_ok hj).2.2.2, ← id_of_get hy]
        rfl
      rw [hout, absorbLoop_nil] at h
      obtain ⟨rfl, rfl, rfl⟩ : _ ∧ _ ∧ _ := by simpa using h
      refine ⟨[x.id], ?_, by simp⟩
      rw [replace_items, hw]
      exact .join hy hsec hj
    | stuck _ _ _ _ hout =>
      rw [hout] at h
      cases h
    | @kept own j hy hlt hf hout =>
      rw [hout] at h
      obtain ⟨t, habs, hmem⟩ := absorbLoop_spec fork steps _ _ _ _ _ _ _ h
      refine ⟨x.id :: t, .keep hy hlt (congrArg Except.toOption hf) habs, ?_⟩
      intro i
      rw [hmem]
      simp [or_assoc]
    | @evicted own j hy hlt hf hout =>
      rw [hout] at h
      obtain ⟨t, habs, hmem⟩ := absorbLoop_spec fork steps _ _ _ _ _ _ _ h
      refine ⟨x.id :: t, .evict hy hlt (congrArg Except.toOption hf) habs, ?_⟩
      intro i
      rw [hmem]
      simp [or_assoc]

/-- `ItemSet::absorb`, when it returns, is one insertion, and it reports the ids
the insertion stopped at. -/
theorem absorb_spec {fork : ForkIds} {s s' : ItemSet} {x : Item} {cs cs' : List Conflict}
    {ids : List ItemId} (h : s.absorb fork x cs = (.ok ids, s', cs')) :
    ∃ t, (arena fork).Absorb s.items x s'.items t ∧ ∀ i, i ∈ ids ↔ i ∈ t := by
  obtain ⟨t, habs, hmem⟩ := absorbLoop_spec fork _ _ _ _ _ _ _ _ h
  exact ⟨t, habs, by simpa using hmem⟩

/-- The loop of `merge`, one `absorb` at a time: what each of them carries over to
the items still to come holds when the loop returns. -/
theorem mergeLoop_induct {fork : ForkIds} (P : List Item → ItemSet → List ItemId → Prop)
    (hstep : ∀ x rest s s' cs cs' t ids, P (x :: rest) s t →
      s.absorb fork x cs = (.ok ids, s', cs') → P rest s' (t ++ ids)) :
    ∀ (items : List Item) (s : ItemSet) (cs : List Conflict) (touched ids : List ItemId)
      (s' : ItemSet) (cs' : List Conflict), P items s touched →
    mergeLoop fork items s cs touched = (.ok ids, s', cs') → ∃ t, P [] s' t ∧ ∀ i, i ∈ ids ↔ i ∈ t
  | [], s, cs, touched, ids, s', cs', hs, h => by
    obtain ⟨rfl, rfl, rfl⟩ : _ ∧ _ ∧ _ := by simpa [mergeLoop] using h
    exact ⟨touched, hs, by simp⟩
  | x :: items, s, cs, touched, ids, s', cs', hs, h => by
    unfold mergeLoop at h
    split at h
    · cases h
    · next ids₁ s₁ cs₁ habs =>
      exact mergeLoop_induct P hstep items s₁ cs₁ _ ids s' cs' (hstep _ _ _ _ _ _ _ _ hs habs) h

end ItemSet

end Misty
