import Mathlib.Order.Basic

/- Programs with a state that survives an error. `EStateM` returns the state in
   both outcomes, as a method on `&mut self` leaves its receiver behind when it
   returns `Err`. `Meets x s Q E` says what `x`, started in `s`, leaves behind in
   each outcome; the rules below take a program apart one step at a time. -/
namespace Misty

universe u

variable {ε σ α β : Type u}

/-- Started in `s`, `x` ends in `Q` when it succeeds and in `E` when it fails. -/
def Meets (x : EStateM ε σ α) (s : σ) (Q : α → σ → Prop) (E : ε → σ → Prop) : Prop :=
  match x s with
  | .ok a s' => Q a s'
  | .error e s' => E e s'

/-- The state a program leaves behind, whatever its outcome. -/
def stateAfter (x : EStateM ε σ α) (s : σ) : σ :=
  match x s with
  | .ok _ s' => s'
  | .error _ s' => s'

theorem exists_of_toOption_any {x : Except ε α} {p : α → Bool} (h : x.toOption.any p = true) :
    ∃ a, x = .ok a ∧ p a = true := by
  cases x with
  | ok a => exact ⟨a, rfl, h⟩
  | error e => cases h

/-- A pure result as a program. -/
def liftExcept (r : Except ε α) : EStateM ε σ α := fun s =>
  match r with
  | .ok a => .ok a s
  | .error e => .error e s

theorem run_bind_ok {x : EStateM ε σ α} {f : α → EStateM ε σ β} {s s' : σ} {a : α}
    (h : x s = .ok a s') : (x >>= f) s = f a s' := by
  show EStateM.bind x f s = f a s'
  unfold EStateM.bind
  rw [h]

theorem run_bind_error {x : EStateM ε σ α} {f : α → EStateM ε σ β} {s s' : σ} {e : ε}
    (h : x s = .error e s') : (x >>= f) s = .error e s' := by
  show EStateM.bind x f s = _
  unfold EStateM.bind
  rw [h]

namespace Meets

variable {x : EStateM ε σ α} {s : σ} {Q Q' : α → σ → Prop} {E E' : ε → σ → Prop}

theorem of_ok {a : α} {s' : σ} (h : Meets x s Q E) (hx : x s = .ok a s') : Q a s' := by
  unfold Meets at h
  rw [hx] at h
  exact h

theorem of_error {e : ε} {s' : σ} (h : Meets x s Q E) (hx : x s = .error e s') : E e s' := by
  unfold Meets at h
  rw [hx] at h
  exact h

theorem intro (hok : ∀ a s', x s = .ok a s' → Q a s') (herr : ∀ e s', x s = .error e s' → E e s') :
    Meets x s Q E := by
  unfold Meets
  split
  · next a s' h => exact hok a s' h
  · next e s' h => exact herr e s' h

theorem mono (h : Meets x s Q E) (hQ : ∀ a s', Q a s' → Q' a s') (hE : ∀ e s', E e s' → E' e s') :
    Meets x s Q' E' :=
  intro (fun a s' hx => hQ a s' (h.of_ok hx)) (fun e s' hx => hE e s' (h.of_error hx))

theorem and (h : Meets x s Q E) (h' : Meets x s Q' E') :
    Meets x s (fun a s' => Q a s' ∧ Q' a s') (fun e s' => E e s' ∧ E' e s') :=
  intro (fun _ _ hx => ⟨h.of_ok hx, h'.of_ok hx⟩) (fun _ _ hx => ⟨h.of_error hx, h'.of_error hx⟩)

/-- A postcondition of both outcomes, read off the state that is left. -/
theorem stateAfter {P : σ → Prop} (h : Meets x s (fun _ => P) (fun _ => P)) :
    P (Misty.stateAfter x s) := by
  unfold Misty.stateAfter
  split
  · next a s' hx => exact h.of_ok hx
  · next e s' hx => exact h.of_error hx

theorem after : Meets x s (fun _ s' => s' = Misty.stateAfter x s) (fun _ s' => s' = Misty.stateAfter x s) := by
  apply intro
  · intro a s' hx
    unfold Misty.stateAfter
    rw [hx]
  · intro e s' hx
    unfold Misty.stateAfter
    rw [hx]

theorem pure {a : α} (h : Q a s) : Meets (Pure.pure a) s Q E := h

theorem throw {e : ε} (h : E e s) : Meets (MonadExcept.throw e : EStateM ε σ α) s Q E := h

theorem bind {f : α → EStateM ε σ β} {R : β → σ → Prop}
    (h : Meets x s (fun a s' => Meets (f a) s' R E) E) : Meets (x >>= f) s R E := by
  unfold Meets at h
  show (match EStateM.bind x f s with
    | .ok a s' => R a s'
    | .error e s' => E e s')
  unfold EStateM.bind
  split at h
  · next a s' hx =>
    rw [hx]
    exact h
  · next e s' hx =>
    rw [hx]
    exact h

theorem get {Q : σ → σ → Prop} (h : Q s s) : Meets (MonadState.get : EStateM ε σ σ) s Q E := h

theorem modify {f : σ → σ} {Q : PUnit → σ → Prop} (h : Q ⟨⟩ (f s)) :
    Meets (MonadState.modifyGet (fun s => (⟨⟩, f s)) : EStateM ε σ PUnit) s Q E := h

theorem liftExcept {r : Except ε α} (hok : ∀ a, r = .ok a → Q a s) (herr : ∀ e, r = .error e → E e s) :
    Meets (Misty.liftExcept r) s Q E := by
  cases r with
  | ok a => exact hok a rfl
  | error e => exact herr e rfl

end Meets

end Misty
