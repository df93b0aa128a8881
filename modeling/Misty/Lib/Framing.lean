import Mathlib.Data.List.Basic
import Mathlib.Tactic.Common

/- Self-delimiting encodings. An encoding delimits itself on a set of values when what it
   writes for two of them, each followed by anything, is the same only if the values and
   what follows are. Encodings of a fixed width do, and one after another does; what is
   written for a list of values, one after another, then says which list it was. -/
namespace Misty.Framing

variable {α β γ : Type}

/-- What is read back says where it ends. -/
structure Delimits (D : α → Prop) (f : α → List β) : Prop where
  inj : ∀ {a b : α} {s t : List β}, D a → D b → f a ++ s = f b ++ t → a = b ∧ s = t

variable {D : α → Prop} {f : α → List β}

theorem Delimits.of_width {n : Nat} (hlength : ∀ a, D a → (f a).length = n) (hinj : ∀ a b, D a → D b → f a = f b → a = b) :
    Delimits D f := by
  refine ⟨?_⟩
  intro a b s t ha hb h
  obtain ⟨hf, hst⟩ := List.append_inj h ((hlength a ha).trans (hlength b hb).symm)
  exact ⟨hinj a b ha hb hf, hst⟩

/-- One encoding, then one that may depend on what was read. -/
theorem Delimits.pair {D' : γ → Prop} {g : γ → List β} (hf : Delimits D f) (hg : Delimits D' g) :
    Delimits (fun p : α × γ => D p.1 ∧ D' p.2) (fun p => f p.1 ++ g p.2) := by
  refine ⟨?_⟩
  intro a b s t ha hb h
  rw [List.append_assoc, List.append_assoc] at h
  obtain ⟨h₁, hrest⟩ := hf.inj ha.1 hb.1 h
  obtain ⟨h₂, hst⟩ := hg.inj ha.2 hb.2 hrest
  exact ⟨Prod.ext h₁ h₂, hst⟩

theorem Delimits.of_parts {D' : γ → Prop} {g : γ → List β} (parts : α → γ) (hg : Delimits D' g)
    (hD : ∀ a, D a → D' (parts a)) (hf : ∀ a, D a → f a = g (parts a))
    (hinj : ∀ a b, parts a = parts b → a = b) : Delimits D f := by
  refine ⟨?_⟩
  intro a b s t ha hb h
  rw [hf a ha, hf b hb] at h
  obtain ⟨hparts, hst⟩ := hg.inj (hD a ha) (hD b hb) h
  exact ⟨hinj a b hparts, hst⟩

/-- A list of values, one after another to the end. -/
theorem Delimits.flatMap_inj (hf : Delimits D f) (hnonempty : ∀ a, D a → f a ≠ []) :
    ∀ {l m : List α}, (∀ a ∈ l, D a) → (∀ a ∈ m, D a) → l.flatMap f = m.flatMap f → l = m
  | [], [], _, _, _ => rfl
  | [], b :: m, _, hm, h => by
    rw [List.flatMap_nil, List.flatMap_cons] at h
    exact absurd (List.append_eq_nil_iff.mp h.symm).1 (hnonempty b (hm b List.mem_cons_self))
  | a :: l, [], hl, _, h => by
    rw [List.flatMap_nil, List.flatMap_cons] at h
    exact absurd (List.append_eq_nil_iff.mp h).1 (hnonempty a (hl a List.mem_cons_self))
  | a :: l, b :: m, hl, hm, h => by
    rw [List.flatMap_cons, List.flatMap_cons] at h
    obtain ⟨hab, hrest⟩ := hf.inj (hl a List.mem_cons_self) (hm b List.mem_cons_self) h
    have ih := flatMap_inj hf hnonempty (fun x hx => hl x (List.mem_cons_of_mem a hx))
      (fun x hx => hm x (List.mem_cons_of_mem b hx)) hrest
    rw [hab, ih]

end Misty.Framing
