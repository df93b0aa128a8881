import Mathlib.Order.Bounds.Basic
import Mathlib.Order.MinMax
import Mathlib.Data.List.Basic
import Mathlib.Tactic.Common

/- The Levenshtein distance: the fewest characters inserted, deleted or replaced on the way
   from one list to another. `Edits` says that so many are enough, reading both lists
   from the front; the distance is the least such number. The reading can as well be from
   the back, which gives the recurrence a table of prefixes is filled with. -/
namespace Misty.EditDistance

variable {α : Type}

/-- `n` edits lead from one list to the other. -/
inductive Edits : List α → List α → Nat → Prop
  | nil : Edits [] [] 0
  | keep {x : α} {l r : List α} {n : Nat} : Edits l r n → Edits (x :: l) (x :: r) n
  | replace {x y : α} {l r : List α} {n : Nat} : Edits l r n → Edits (x :: l) (y :: r) (n + 1)
  | delete {x : α} {l r : List α} {n : Nat} : Edits l r n → Edits (x :: l) r (n + 1)
  | insert {y : α} {l r : List α} {n : Nat} : Edits l r n → Edits l (y :: r) (n + 1)

variable {l r l' r' : List α} {m n : Nat} {x y : α}

theorem Edits.append (h : Edits l r m) (h' : Edits l' r' n) : Edits (l ++ l') (r ++ r') (m + n) := by
  induction h with
  | nil => rwa [Nat.zero_add]
  | keep _ ih => exact ih.keep
  | replace _ ih =>
    rw [Nat.add_right_comm]
    exact ih.replace
  | delete _ ih =>
    rw [Nat.add_right_comm]
    exact ih.delete
  | insert _ ih =>
    rw [Nat.add_right_comm]
    exact ih.insert

theorem Edits.reverse (h : Edits l r n) : Edits l.reverse r.reverse n := by
  induction h with
  | nil => exact .nil
  | @keep x l r n _ ih =>
    rw [List.reverse_cons, List.reverse_cons]
    exact ih.append (.keep .nil)
  | @replace x y l r n _ ih =>
    rw [List.reverse_cons, List.reverse_cons]
    exact ih.append (.replace .nil)
  | @delete x l r n _ ih =>
    rw [List.reverse_cons, ← List.append_nil r.reverse]
    exact ih.append (.delete .nil)
  | @insert y l r n _ ih =>
    rw [List.reverse_cons, ← List.append_nil l.reverse]
    exact ih.append (.insert .nil)

theorem edits_reverse : Edits l.reverse r.reverse n ↔ Edits l r n := by
  constructor
  · intro h
    have hback := h.reverse
    rwa [List.reverse_reverse, List.reverse_reverse] at hback
  · exact Edits.reverse

theorem edits_insertAll : ∀ r : List α, Edits [] r r.length
  | [] => .nil
  | _ :: r => (edits_insertAll r).insert

theorem edits_deleteAll : ∀ l : List α, Edits l [] l.length
  | [] => .nil
  | _ :: l => (edits_deleteAll l).delete

section Distance

variable [DecidableEq α]

/-- The distance, from the front. -/
def levenshtein : List α → List α → Nat
  | [], r => r.length
  | _ :: l, [] => l.length + 1
  | x :: l, y :: r =>
    min (min (levenshtein l (y :: r) + 1) (levenshtein (x :: l) r + 1)) (levenshtein l r + if x = y then 0 else 1)

theorem edits_levenshtein (l r : List α) : Edits l r (levenshtein l r) := by
  fun_induction levenshtein l r with
  | case1 r => exact edits_insertAll r
  | case2 x l => exact (edits_deleteAll l).delete
  | case3 x l y r hdelete hinsert hboth =>
    rcases min_choice (min (levenshtein l (y :: r) + 1) (levenshtein (x :: l) r + 1))
      (levenshtein l r + if x = y then 0 else 1) with h | h
    · rcases min_choice (levenshtein l (y :: r) + 1) (levenshtein (x :: l) r + 1) with h' | h'
      · rw [h, h']
        exact hdelete.delete
      · rw [h, h']
        exact hinsert.insert
    · rw [h]
      split
      · next heq =>
        subst heq
        exact hboth.keep
      · exact hboth.replace

theorem levenshtein_le (h : Edits l r n) : levenshtein l r ≤ n := by
  induction h with
  | nil =>
    rw [levenshtein]
    exact Nat.le_refl 0
  | keep _ ih =>
    rw [levenshtein, if_pos rfl]
    omega
  | @replace x y l r n _ ih =>
    rw [levenshtein]
    split <;> omega
  | @delete x l r n _ ih =>
    cases r with
    | nil =>
      cases l <;> simp only [levenshtein, List.length_nil, List.length_cons] at ih ⊢ <;> omega
    | cons y r =>
      rw [levenshtein]
      omega
  | @insert y l r n _ ih =>
    cases l with
    | nil =>
      simp only [levenshtein, List.length_cons] at ih ⊢
      omega
    | cons x l =>
      rw [levenshtein]
      omega

theorem isLeast_levenshtein (l r : List α) : IsLeast {n | Edits l r n} (levenshtein l r) :=
  ⟨edits_levenshtein l r, fun _ h => levenshtein_le h⟩

theorem levenshtein_reverse (l r : List α) : levenshtein l.reverse r.reverse = levenshtein l r := by
  apply (isLeast_levenshtein l.reverse r.reverse).unique
  simp only [edits_reverse]
  exact isLeast_levenshtein l r

theorem levenshtein_nil_right : ∀ l : List α, levenshtein l [] = l.length
  | [] => by rw [levenshtein]
  | _ :: _ => by rw [levenshtein, List.length_cons]

theorem levenshtein_concat : levenshtein (l ++ [x]) (r ++ [y]) =
    min (min (levenshtein l (r ++ [y]) + 1) (levenshtein (l ++ [x]) r + 1)) (levenshtein l r + if x = y then 0 else 1) := by
  calc levenshtein (l ++ [x]) (r ++ [y])
      = levenshtein (x :: l.reverse) (y :: r.reverse) := by
        rw [← levenshtein_reverse, List.reverse_append, List.reverse_append]
        rfl
    _ = _ := by
        rw [levenshtein, ← levenshtein_reverse l (r ++ [y]), ← levenshtein_reverse (l ++ [x]) r, ← levenshtein_reverse l r,
          List.reverse_append, List.reverse_append]
        rfl

end Distance

end Misty.EditDistance
