import Mathlib

/- Ordered maps. A BTreeMap is Lean's own `Std.ExtTreeMap`: two maps are equal
   when they answer every lookup alike. This file adds what a key type with a
   linear order gives (the lookup equations stated with `=` on keys) and the one
   operation the library lacks: `joinWith`, the loop that folds the entries of
   one map into another and combines the values that meet under one key. -/
namespace Misty

open Std (ExtTreeMap)

/-- Comparing equal is being equal, for the order every key type here carries. -/
instance instLawfulEqOrdOfLinearOrder {α : Type*} [LinearOrder α] : Std.LawfulEqOrd α :=
  ⟨fun h => compare_eq_iff_eq.mp h⟩

/-- The order of the keys is one a map can be built on. -/
instance instTransCmpOfLinearOrder {α : Type*} [LinearOrder α] : Std.TransCmp (compare : α → α → Ordering) :=
  Std.LawfulBCmp.toTransCmp

namespace OrdMap

variable {α β : Type*} [LinearOrder α]

@[simp] theorem getElem?_insert (t : ExtTreeMap α β) (k a : α) (v : β) [Decidable (k = a)] :
    (t.insert k v)[a]? = if k = a then some v else t[a]? := by
  rw [ExtTreeMap.getElem?_insert]
  simp only [compare_eq_iff_eq]

@[simp] theorem getElem?_erase (t : ExtTreeMap α β) (k a : α) [Decidable (k = a)] :
    (t.erase k)[a]? = if k = a then none else t[a]? := by
  rw [ExtTreeMap.getElem?_erase]
  simp only [compare_eq_iff_eq]

theorem ext {s t : ExtTreeMap α β} (h : ∀ k : α, s[k]? = t[k]?) : s = t :=
  ExtTreeMap.ext_getElem? h

theorem mem_toList {t : ExtTreeMap α β} {k : α} {v : β} :
    (k, v) ∈ t.toList ↔ t[k]? = some v :=
  ExtTreeMap.mem_toList_iff_getElem?_eq_some

theorem nodup_keys (t : ExtTreeMap α β) : t.toList.Pairwise (fun a b => a.1 ≠ b.1) :=
  t.distinct_keys_toList.imp (fun h e => h (compare_eq_iff_eq.mpr e))

/-! ## Folding one map into another -/

/-- What two maps hold together under one key. -/
def meet (f : β → β → β) : Option β → Option β → Option β
  | some x, some y => some (f x y)
  | some x, none => some x
  | none, y => y

@[simp] theorem meet_none_right (f : β → β → β) (x : Option β) : meet f x none = x := by
  cases x <;> rfl

/-- The entries of `b` folded into `a`: a key both hold gets `f` of the two
values, a key only `b` holds is copied over. -/
def joinWith (f : β → β → β) (a b : ExtTreeMap α β) : ExtTreeMap α β :=
  b.foldl (fun acc k v => acc.insert k (match acc[k]? with
    | some w => f w v
    | none => v)) a

/-- The loop over a list of entries with distinct keys, read at one key. -/
theorem getElem?_foldl (f : β → β → β) (k : α) : ∀ (l : List (α × β)) (a : ExtTreeMap α β),
    l.Pairwise (fun x y => x.1 ≠ y.1) →
    (l.foldl (fun acc p => acc.insert p.1 (match acc[p.1]? with
      | some w => f w p.2
      | none => p.2)) a)[k]? = meet f a[k]? ((l.find? (fun p => p.1 = k)).map Prod.snd)
  | [], a, _ => by simp
  | (k', v) :: l, a, h => by
    rw [List.pairwise_cons] at h
    obtain ⟨hk, hl⟩ := h
    rw [List.foldl_cons, getElem?_foldl f k l _ hl, getElem?_insert]
    by_cases hkk : k' = k
    · subst hkk
      have hnone : l.find? (fun p => p.1 = k') = none := by
        rw [List.find?_eq_none]
        intro p hp
        simpa using (hk p hp).symm
      simp only [hnone, Option.map_none, meet_none_right, if_true, List.find?_cons, decide_true,
        Option.map_some]
      cases a[k']? <;> rfl
    · simp [hkk]

theorem find?_toList (t : ExtTreeMap α β) (k : α) :
    (t.toList.find? (fun p => p.1 = k)).map Prod.snd = t[k]? := by
  cases hf : t.toList.find? (fun p => p.1 = k) with
  | some p =>
    have hp := List.mem_of_find?_eq_some hf
    have hk : p.1 = k := by simpa using List.find?_some hf
    obtain ⟨k', v⟩ := p
    subst hk
    exact (mem_toList.mp hp).symm
  | none =>
    cases ht : t[k]? with
    | none => rfl
    | some v =>
      have := List.find?_eq_none.mp hf (k, v) (mem_toList.mpr ht)
      simp at this

@[simp] theorem getElem?_joinWith (f : β → β → β) (a b : ExtTreeMap α β) (k : α) :
    (joinWith f a b)[k]? = meet f a[k]? b[k]? := by
  unfold joinWith
  rw [ExtTreeMap.foldl_eq_foldl_toList, getElem?_foldl f k _ a (nodup_keys b), find?_toList]

theorem mem_keys {t : ExtTreeMap α β} {k : α} : k ∈ t.keys ↔ ∃ v, t[k]? = some v := by
  rw [ExtTreeMap.mem_keys, ExtTreeMap.mem_iff_isSome_getElem?, Option.isSome_iff_exists]

/-- What two maps hold under one key comes from one of them, or from both. -/
theorem meet_eq_some {f : β → β → β} {x y : Option β} {v : β} (h : meet f x y = some v) :
    x = some v ∨ y = some v ∨ ∃ a b, x = some a ∧ y = some b ∧ v = f a b := by
  cases x with
  | none => exact .inr (.inl h)
  | some a =>
    cases y with
    | none => exact .inl h
    | some b => exact .inr (.inr ⟨a, b, rfl, rfl, (Option.some.inj h).symm⟩)

theorem keys_joinWith {f : β → β → β} {a b : ExtTreeMap α β} {k : α} :
    k ∈ (joinWith f a b).keys ↔ k ∈ a.keys ∨ k ∈ b.keys := by
  simp only [mem_keys, getElem?_joinWith]
  cases a[k]? <;> cases b[k]? <;> simp [meet]

theorem size_joinWith_le (f : β → β → β) (a b : ExtTreeMap α β) : (joinWith f a b).size ≤ a.size + b.size := by
  have hsub : (joinWith f a b).keys ⊆ a.keys ++ b.keys := by
    intro k hk
    exact List.mem_append.mpr (keys_joinWith.mp hk)
  have hlen := (List.subperm_of_subset ExtTreeMap.nodup_keys hsub).length_le
  rwa [List.length_append, ExtTreeMap.length_keys, ExtTreeMap.length_keys, ExtTreeMap.length_keys] at hlen

/-! ## Totals -/

/-- What the values of a map come to. -/
def total (f : β → Nat) (t : ExtTreeMap α β) : Nat := (t.toList.map (fun p => f p.2)).sum

theorem nodup_toList (t : ExtTreeMap α β) : t.toList.Nodup :=
  (nodup_keys t).imp (fun h e => h (congrArg Prod.fst e))

theorem total_eq (f : β → Nat) (t : ExtTreeMap α β) (k : α) :
    total f t = ((t[k]?).map f).getD 0 + ((t.toList.filter (fun p => p.1 ≠ k)).map (fun p => f p.2)).sum := by
  have hrest : (t.toList.filter (fun p => p.1 ≠ k)).Nodup := (nodup_toList t).filter _
  cases hk : t[k]? with
  | none =>
    have hall : t.toList.filter (fun p => p.1 ≠ k) = t.toList := by
      rw [List.filter_eq_self]
      intro p hp
      simp only [ne_eq, decide_eq_true_eq]
      intro he
      rw [← he, mem_toList.mp hp] at hk
      cases hk
    rw [hall]
    simp [total]
  | some v =>
    have hperm : t.toList.Perm ((k, v) :: t.toList.filter (fun p => p.1 ≠ k)) := by
      refine (List.perm_ext_iff_of_nodup (nodup_toList t) ?_).mpr ?_
      · exact List.nodup_cons.mpr ⟨by simp, hrest⟩
      · intro p
        by_cases hp : p.1 = k
        · subst hp
          obtain ⟨k, w⟩ := p
          simp only [List.mem_cons, List.mem_filter, mem_toList, hk]
          simp [eq_comm]
        · simp only [List.mem_cons, List.mem_filter]
          simp [hp, Prod.ext_iff]
    unfold total
    rw [(hperm.map _).sum_eq, List.map_cons, List.sum_cons]
    rfl

theorem total_insert (f : β → Nat) (t : ExtTreeMap α β) (k : α) (v : β) :
    total f (t.insert k v) + ((t[k]?).map f).getD 0 = total f t + f v := by
  have hrest : ((t.insert k v).toList.filter (fun p => p.1 ≠ k)).Perm (t.toList.filter (fun p => p.1 ≠ k)) := by
    refine (List.perm_ext_iff_of_nodup ((nodup_toList _).filter _) ((nodup_toList _).filter _)).mpr ?_
    intro p
    simp only [List.mem_filter, ne_eq, decide_eq_true_eq]
    refine and_congr_left (fun hne => ?_)
    rw [mem_toList (t := t.insert k v), mem_toList (t := t), getElem?_insert, if_neg (Ne.symm hne)]
  have hsum := (hrest.map (fun p => f p.2)).sum_eq
  have hnew := total_eq f (t.insert k v) k
  have hold := total_eq f t k
  simp only [getElem?_insert, if_true, Option.map_some, Option.getD_some] at hnew
  omega

theorem total_filter_le (f : β → Nat) (t : ExtTreeMap α β) (g : α → β → Bool) : total f (t.filter g) ≤ total f t := by
  unfold total
  rw [ExtTreeMap.toList_filter]
  exact (List.filter_sublist.map _).sum_le_sum (fun _ _ => Nat.zero_le _)

end OrdMap

end Misty
