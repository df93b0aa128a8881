import Mathlib.Logic.Relation

/- Programs that call out of themselves. Between two calls a program computes on a
   state of its own; at a call it waits, and the world may move before it answers.
   `Calls` is what a program does next, a tree with one branch for each answer.

   A world is any type with two relations: `R` is what happens to it while a program
   waits, `T` how it answers a call. `Ensures` is the rely-guarantee reading of a
   tree: an assertion holds at every call, whatever the world does and answers. It
   survives every move (`moved`) and every answer (`answered`), which is all a run of
   several programs over one world consists of. -/
namespace Misty

variable {Q : Type} {A : Q → Type} {ε σ α β W : Type}

/-- What a program does next: end with the state it leaves, or call and go on with the
answer. -/
inductive Calls (Q : Type) (A : Q → Type) (ε σ α : Type) where
  | ok (a : α) (s : σ)
  | error (e : ε) (s : σ)
  | call (q : Q) (s : σ) (k : A q → Calls Q A ε σ α)

namespace Calls

/-- The state a program holds, at a call or at its end. -/
def state : Calls Q A ε σ α → σ
  | ok _ s => s
  | error _ s => s
  | call _ s _ => s

/-- One program after another. -/
def bind (x : Calls Q A ε σ α) (f : α → σ → Calls Q A ε σ β) : Calls Q A ε σ β :=
  match x with
  | ok a s => f a s
  | error e s => error e s
  | call q s k => call q s (fun a => (k a).bind f)

/-- A failure as a value. -/
def attempt : Calls Q A ε σ α → Calls Q A ε σ (Except ε α)
  | ok a s => ok (.ok a) s
  | error e s => ok (.error e) s
  | call q s k => call q s (fun a => (k a).attempt)

/-- The program run against a world that answers by a function. -/
def run (answer : (q : Q) → W → A q × W) : Calls Q A ε σ α → W → Except ε α × σ × W
  | ok a s, w => (.ok a, s, w)
  | error e s, w => (.error e, s, w)
  | call q _ k, w => (k (answer q w).1).run answer (answer q w).2

/-! ## Assertions -/

section Assertions

variable (R : W → W → Prop) (T : (q : Q) → W → A q → W → Prop) (I : Q → σ → W → Prop)

/-- Whatever the world does, `I` holds at every call, and the program ends in `P` when it
succeeds and in `F` when it fails. -/
def Ensures (P : α → σ → W → Prop) (F : ε → σ → W → Prop) : Calls Q A ε σ α → W → Prop
  | ok a s, w => P a s w
  | error e s, w => F e s w
  | call q s k, w => I q s w ∧ ∀ w₁ a w₂, R w w₁ → T q w₁ a w₂ → Ensures P F (k a) w₂

variable {R T I} {P P' : α → σ → W → Prop} {F F' : ε → σ → W → Prop}

theorem Ensures.mono (hP : ∀ a s w, P a s w → P' a s w) (hF : ∀ e s w, F e s w → F' e s w) :
    ∀ {x : Calls Q A ε σ α} {w : W}, x.Ensures R T I P F w → x.Ensures R T I P' F' w
  | ok a s, w, h => hP a s w h
  | error e s, w, h => hF e s w h
  | call _ _ _, _, h => ⟨h.1, fun w₁ a w₂ hr ht => (h.2 w₁ a w₂ hr ht).mono hP hF⟩

theorem Ensures.bind {B : β → σ → W → Prop} {f : α → σ → Calls Q A ε σ β} :
    ∀ {x : Calls Q A ε σ α} {w : W},
      x.Ensures R T I (fun a s w => (f a s).Ensures R T I B F w) F w →
      (x.bind f).Ensures R T I B F w
  | ok _ _, _, h => h
  | error _ _, _, h => h
  | call _ _ _, _, h => ⟨h.1, fun w₁ a w₂ hr ht => (h.2 w₁ a w₂ hr ht).bind⟩

theorem Ensures.attempt {B : Except ε α → σ → W → Prop} :
    ∀ {x : Calls Q A ε σ α} {w : W},
      x.Ensures R T I (fun a => B (.ok a)) (fun e => B (.error e)) w →
      x.attempt.Ensures R T I B F w
  | ok _ _, _, h => h
  | error _ _, _, h => h
  | call _ _ _, _, h => ⟨h.1, fun w₁ a w₂ hr ht => (h.2 w₁ a w₂ hr ht).attempt⟩

theorem Ensures.true : ∀ (x : Calls Q A ε σ α) (w : W),
    x.Ensures R T (fun _ _ _ => True) (fun _ _ _ => True) (fun _ _ _ => True) w
  | ok _ _, _ => trivial
  | error _ _, _ => trivial
  | call _ _ k, _ => ⟨trivial, fun _ a w₂ _ _ => Ensures.true (k a) w₂⟩

/-- What holds of a waiting program holds after the world has moved, when the
assertions are about things no move changes. -/
theorem Ensures.moved (htrans : ∀ {u v w : W}, R u v → R v w → R u w)
    (hI : ∀ q s {v w : W}, R v w → I q s v → I q s w)
    (hP : ∀ a s {v w : W}, R v w → P a s v → P a s w) (hF : ∀ e s {v w : W}, R v w → F e s v → F e s w)
    {x : Calls Q A ε σ α} {v w : W} (hr : R v w) (h : x.Ensures R T I P F v) : x.Ensures R T I P F w := by
  cases x with
  | ok a s => exact hP a s hr h
  | error e s => exact hF e s hr h
  | call q s k => exact ⟨hI q s hr h.1, fun w₁ a w₂ hr' ht => h.2 w₁ a w₂ (htrans hr hr') ht⟩

theorem Ensures.answered (hrefl : ∀ w : W, R w w) {q : Q} {s : σ} {k : A q → Calls Q A ε σ α} {w w' : W}
    {a : A q} (h : (call q s k).Ensures R T I P F w) (ht : T q w a w') : (k a).Ensures R T I P F w' :=
  h.2 w a w' (hrefl w) ht

end Assertions

/-! ## Runs -/

/-- A program at work: moves of the world, and answers. -/
inductive Leads (R : W → W → Prop) (T : (q : Q) → W → A q → W → Prop) :
    Calls Q A ε σ α → W → Calls Q A ε σ α → W → Prop
  | refl (x : Calls Q A ε σ α) (w : W) : Leads R T x w x w
  | moved {x y : Calls Q A ε σ α} {w w₁ w' : W} : R w w₁ → Leads R T x w₁ y w' → Leads R T x w y w'
  | answered {q : Q} {s : σ} {k : A q → Calls Q A ε σ α} {y : Calls Q A ε σ α} {w w₁ w' : W} {a : A q} :
      T q w a w₁ → Leads R T (k a) w₁ y w' → Leads R T (call q s k) w y w'

/-- What a program ensures holds of all it leads to. -/
theorem Ensures.leads {R : W → W → Prop} {T : (q : Q) → W → A q → W → Prop} {I : Q → σ → W → Prop}
    {P : α → σ → W → Prop} {F : ε → σ → W → Prop} (hrefl : ∀ w : W, R w w)
    (htrans : ∀ {u v w : W}, R u v → R v w → R u w) (hI : ∀ q s {v w : W}, R v w → I q s v → I q s w)
    (hP : ∀ a s {v w : W}, R v w → P a s v → P a s w) (hF : ∀ e s {v w : W}, R v w → F e s v → F e s w)
    {x y : Calls Q A ε σ α} {w w' : W} (h : Leads R T x w y w') (hx : x.Ensures R T I P F w) :
    y.Ensures R T I P F w' := by
  induction h with
  | refl _ _ => exact hx
  | moved hr _ ih => exact ih (Ensures.moved (R := R) htrans hI hP hF hr hx)
  | answered ht _ ih => exact ih (hx.answered hrefl ht)

theorem Ensures.ran {T : (q : Q) → W → A q → W → Prop} {I : Q → σ → W → Prop} {P : α → σ → W → Prop}
    {F : ε → σ → W → Prop} {x y : Calls Q A ε σ α} {w w' : W} (hx : x.Ensures Eq T I P F w)
    (h : Leads Eq T x w y w') : y.Ensures Eq T I P F w' :=
  hx.leads (fun _ => rfl) (fun h h' => h.trans h') (fun _ _ _ _ hr hi => hr ▸ hi) (fun _ _ _ _ hr hp => hr ▸ hp)
    (fun _ _ _ _ hr hf => hr ▸ hf) h

/-- A world that answers by a function leads a program to its end. -/
theorem leads_run {R : W → W → Prop} {T : (q : Q) → W → A q → W → Prop}
    {answer : (q : Q) → W → A q × W} (ht : ∀ q w, T q w (answer q w).1 (answer q w).2) :
    ∀ (x : Calls Q A ε σ α) (w : W), ∃ y, Leads R T x w y (x.run answer w).2.2 ∧
      y = match (x.run answer w).1 with
        | .ok a => ok a (x.run answer w).2.1
        | .error e => error e (x.run answer w).2.1
  | ok a s, w => ⟨_, .refl _ _, rfl⟩
  | error e s, w => ⟨_, .refl _ _, rfl⟩
  | call q s k, w => by
    obtain ⟨y, hy, hend⟩ := leads_run ht (k (answer q w).1) (answer q w).2
    exact ⟨y, .answered (ht q w) hy, hend⟩

/-- What a program ensures holds of where a world that answers by a function takes it. -/
theorem Ensures.run {answer : (q : Q) → W → A q × W} {I : Q → σ → W → Prop} {P : α → σ → W → Prop}
    {F : ε → σ → W → Prop} : ∀ {x : Calls Q A ε σ α} {w : W},
      x.Ensures Eq (fun q w a w' => (a, w') = answer q w) I P F w →
      match x.run answer w with
      | (.ok a, s, w') => P a s w'
      | (.error e, s, w') => F e s w'
  | ok _ _, _, h => h
  | error _ _, _, h => h
  | call _ _ _, w, h => (h.2 w _ _ rfl rfl).run

/-! ## Several programs -/

section Pool

variable (R : Nat → W → W → Prop) (T : Nat → (q : Q) → W → A q → W → Prop) (I : Nat → Q → σ → W → Prop)

/-- Each program of a pool keeps its assertions, relying on `R` of its own place: what the others do is part of what
the world does to it. One that has ended is in `P` or in `F`. -/
def Standing (P : α → σ → W → Prop) (F : ε → σ → W → Prop) (pool : List (Calls Q A ε σ α)) (w : W) : Prop :=
  ∀ (i : Nat) (x : Calls Q A ε σ α), pool[i]? = some x → x.Ensures (R i) (T i) (I i) P F w

/-- Each program of a pool keeps its assertions, however it ends. -/
def Guarded (pool : List (Calls Q A ε σ α)) (w : W) : Prop :=
  ∀ (i : Nat) (x : Calls Q A ε σ α), pool[i]? = some x → x.Ensures (R i) (T i) (I i) (fun _ _ _ => True) (fun _ _ _ => True) w

variable {R T I} {P : α → σ → W → Prop} {F : ε → σ → W → Prop} {pool : List (Calls Q A ε σ α)} {w w' : W}

theorem Standing.nil : Standing R T I P F ([] : List (Calls Q A ε σ α)) w := by
  intro i x h
  simp at h

theorem Standing.concat (h : Standing R T I P F pool w) {x : Calls Q A ε σ α}
    (hx : x.Ensures (R pool.length) (T pool.length) (I pool.length) P F w) :
    Standing R T I P F (pool ++ [x]) w := by
  intro i y hy
  rcases Nat.lt_trichotomy i pool.length with hlt | rfl | hgt
  · rw [List.getElem?_append_left hlt] at hy
    exact h i y hy
  · rw [List.getElem?_append_right (Nat.le_refl _), Nat.sub_self] at hy
    cases hy
    exact hx
  · rw [List.getElem?_eq_none (by simp; omega)] at hy
    cases hy

theorem Standing.moved (htrans : ∀ i {u v w : W}, R i u v → R i v w → R i u w)
    (hI : ∀ i q s {v w : W}, R i v w → I i q s v → I i q s w)
    (hP : ∀ i a s {v w : W}, R i v w → P a s v → P a s w) (hF : ∀ i e s {v w : W}, R i v w → F e s v → F e s w)
    (h : Standing R T I P F pool w) (hr : ∀ i, R i w w') : Standing R T I P F pool w' :=
  fun i x hx => Ensures.moved (R := R i) (htrans i) (hI i) (hP i) (hF i) (hr i) (h i x hx)

/-- One program becomes another, and that is a move of the world to the others. -/
theorem Standing.set (htrans : ∀ i {u v w : W}, R i u v → R i v w → R i u w)
    (hI : ∀ i q s {v w : W}, R i v w → I i q s v → I i q s w)
    (hP : ∀ i a s {v w : W}, R i v w → P a s v → P a s w) (hF : ∀ i e s {v w : W}, R i v w → F e s v → F e s w)
    (h : Standing R T I P F pool w) {i : Nat} {y : Calls Q A ε σ α} (hy : y.Ensures (R i) (T i) (I i) P F w')
    (hr : ∀ j, j ≠ i → R j w w') : Standing R T I P F (pool.set i y) w' := by
  intro j x hx
  by_cases hj : j = i
  · subst hj
    rcases Nat.lt_or_ge j pool.length with hlt | hge
    · rw [List.getElem?_set_self hlt] at hx
      cases hx
      exact hy
    · rw [List.getElem?_eq_none (by simpa using hge)] at hx
      cases hx
  · rw [List.getElem?_set_ne (Ne.symm hj)] at hx
    exact Ensures.moved (R := R j) (htrans j) (hI j) (hP j) (hF j) (hr j hj) (h j x hx)

theorem Guarded.nil : Guarded R T I ([] : List (Calls Q A ε σ α)) w := Standing.nil

theorem Guarded.concat (h : Guarded R T I pool w) {x : Calls Q A ε σ α}
    (hx : x.Ensures (R pool.length) (T pool.length) (I pool.length) (fun _ _ _ => True) (fun _ _ _ => True) w) :
    Guarded R T I (pool ++ [x]) w :=
  Standing.concat h hx

theorem Guarded.moved (htrans : ∀ i {u v w : W}, R i u v → R i v w → R i u w)
    (hI : ∀ i q s {v w : W}, R i v w → I i q s v → I i q s w) (h : Guarded R T I pool w) (hr : ∀ i, R i w w') :
    Guarded R T I pool w' :=
  Standing.moved (R := R) htrans hI (fun _ _ _ _ _ _ _ => trivial) (fun _ _ _ _ _ _ _ => trivial) h hr

/-- One program is answered, and that is a move of the world to the others. -/
theorem Guarded.answered (hrefl : ∀ i (w : W), R i w w) (htrans : ∀ i {u v w : W}, R i u v → R i v w → R i u w)
    (hI : ∀ i q s {v w : W}, R i v w → I i q s v → I i q s w) (h : Guarded R T I pool w) {i : Nat} {q : Q} {s : σ}
    {k : A q → Calls Q A ε σ α} {a : A q} (hi : pool[i]? = some (call q s k)) (ht : T i q w a w')
    (hr : ∀ j, j ≠ i → R j w w') : Guarded R T I (pool.set i (k a)) w' :=
  Standing.set (R := R) htrans hI (fun _ _ _ _ _ _ _ => trivial) (fun _ _ _ _ _ _ _ => trivial) h
    ((h i _ hi).answered (hrefl i) ht) hr

theorem Guarded.dropped (h : Guarded R T I pool w) (i : Nat) (e : ε) (s : σ) :
    Guarded R T I (pool.set i (error e s)) w := by
  intro j x hx
  by_cases hj : j = i
  · subst hj
    rcases Nat.lt_or_ge j pool.length with hlt | hge
    · rw [List.getElem?_set_self hlt] at hx
      cases hx
      exact trivial
    · rw [List.getElem?_eq_none (by simpa using hge)] at hx
      cases hx
  · rw [List.getElem?_set_ne (Ne.symm hj)] at hx
    exact h j x hx

theorem Guarded.asks (h : Guarded R T I pool w) {i : Nat} {q : Q} {s : σ} {k : A q → Calls Q A ε σ α}
    (hi : pool[i]? = some (call q s k)) : I i q s w := (h i _ hi).1

end Pool

end Calls

/-! ## Programs -/

/-- A program: what it does from each state of its own. -/
def Prog (Q : Type) (A : Q → Type) (ε σ α : Type) : Type := σ → Calls Q A ε σ α

namespace Prog

instance : Monad (Prog Q A ε σ) where
  pure a := fun s => .ok a s
  bind x f := fun s => (x s).bind f

instance : MonadStateOf σ (Prog Q A ε σ) where
  get := fun s => .ok s s
  set s := fun _ => .ok ⟨⟩ s
  modifyGet f := fun s => .ok (f s).1 (f s).2

instance : MonadExceptOf ε (Prog Q A ε σ) where
  throw e := fun s => .error e s
  tryCatch x f := fun s => (x s).attempt.bind (fun r s => match r with
    | .ok a => .ok a s
    | .error e => f e s)

/-- A call. -/
def call (q : Q) : Prog Q A ε σ (A q) := fun s => .call q s (fun a => .ok a s)

/-- A failure as a value. -/
def attempt (x : Prog Q A ε σ α) : Prog Q A ε σ (Except ε α) := fun s => (x s).attempt

/-- A pure result as a program. -/
def ofExcept (r : Except ε α) : Prog Q A ε σ α := fun s =>
  match r with
  | .ok a => .ok a s
  | .error e => .error e s

theorem bind_of_ok {x : Prog Q A ε σ α} {f : α → Prog Q A ε σ β} {s s' : σ} {a : α} (h : x s = .ok a s') :
    (x >>= f) s = f a s' := by
  show (x s).bind f = _
  rw [h]
  rfl

theorem bind_of_error {x : Prog Q A ε σ α} {f : α → Prog Q A ε σ β} {s s' : σ} {e : ε} (h : x s = .error e s') :
    (x >>= f) s = .error e s' := by
  show (x s).bind f = _
  rw [h]
  rfl

theorem attempt_of_error {x : Prog Q A ε σ α} {s s' : σ} {e : ε} (h : x s = .error e s') :
    x.attempt s = .ok (.error e) s' := by
  show (x s).attempt = _
  rw [h]
  rfl

variable (R : W → W → Prop) (T : (q : Q) → W → A q → W → Prop) (I : Q → σ → W → Prop)

/-- What a program ensures when it starts in state `s` of its own and `w` of the world. -/
def Ensures (x : Prog Q A ε σ α) (s : σ) (w : W) (P : α → σ → W → Prop) (F : ε → σ → W → Prop) : Prop :=
  (x s).Ensures R T I P F w

variable {R T I} {P P' : α → σ → W → Prop} {F F' : ε → σ → W → Prop} {s : σ} {w : W}

theorem Ensures.mono {x : Prog Q A ε σ α} (h : x.Ensures R T I s w P F)
    (hP : ∀ a s w, P a s w → P' a s w) (hF : ∀ e s w, F e s w → F' e s w) :
    x.Ensures R T I s w P' F' :=
  Calls.Ensures.mono hP hF h

theorem Ensures.pure {a : α} (h : P a s w) : (Pure.pure a : Prog Q A ε σ α).Ensures R T I s w P F := h

theorem Ensures.throw {e : ε} (h : F e s w) :
    (MonadExcept.throw e : Prog Q A ε σ α).Ensures R T I s w P F := h

theorem Ensures.bind {x : Prog Q A ε σ α} {f : α → Prog Q A ε σ β} {B : β → σ → W → Prop}
    (h : x.Ensures R T I s w (fun a s w => (f a).Ensures R T I s w B F) F) :
    (x >>= f).Ensures R T I s w B F :=
  Calls.Ensures.bind h

theorem Ensures.get {P : σ → σ → W → Prop} (h : P s s w) :
    (MonadState.get : Prog Q A ε σ σ).Ensures R T I s w P F := h

theorem Ensures.modify {f : σ → σ} {P : PUnit → σ → W → Prop} (h : P ⟨⟩ (f s) w) :
    (MonadState.modifyGet (fun s => (⟨⟩, f s)) : Prog Q A ε σ PUnit).Ensures R T I s w P F := h

theorem Ensures.ofExcept {r : Except ε α} (hok : ∀ a, r = .ok a → P a s w)
    (herr : ∀ e, r = .error e → F e s w) : (ofExcept r : Prog Q A ε σ α).Ensures R T I s w P F := by
  cases r with
  | ok a => exact hok a rfl
  | error e => exact herr e rfl

theorem Ensures.attempt {x : Prog Q A ε σ α} {B : Except ε α → σ → W → Prop}
    (h : x.Ensures R T I s w (fun a => B (.ok a)) (fun e => B (.error e))) :
    x.attempt.Ensures R T I s w B F :=
  Calls.Ensures.attempt h

theorem Ensures.call {q : Q} {P : A q → σ → W → Prop} (hI : I q s w)
    (h : ∀ w₁ a w₂, R w w₁ → T q w₁ a w₂ → P a s w₂) :
    (call q : Prog Q A ε σ (A q)).Ensures R T I s w P F :=
  ⟨hI, h⟩

/-! ### Keeping an assertion -/

variable (R T I) in
/-- A program that keeps an assertion about its state and the world however it ends, and leaves what `B` says when it
succeeds. -/
def Keeping (J : σ → W → Prop) (x : Prog Q A ε σ α) (s : σ) (w : W) (B : α → σ → W → Prop) : Prop :=
  x.Ensures R T I s w (fun a s w => J s w ∧ B a s w) (fun _ s w => J s w)

namespace Keeping

variable {J : σ → W → Prop} {B : α → σ → W → Prop} {x : Prog Q A ε σ α}

theorem pure {a : α} (h : J s w) (hB : B a s w) : (Pure.pure a : Prog Q A ε σ α).Keeping R T I J s w B := ⟨h, hB⟩

theorem throw {e : ε} (h : J s w) : (MonadExcept.throw e : Prog Q A ε σ α).Keeping R T I J s w B := h

theorem bind {f : α → Prog Q A ε σ β} {D : β → σ → W → Prop} (hx : x.Keeping R T I J s w B)
    (hf : ∀ a s w, J s w → B a s w → (f a).Keeping R T I J s w D) : (x >>= f).Keeping R T I J s w D :=
  Ensures.bind (Ensures.mono hx (fun a s w h => hf a s w h.1 h.2) (fun _ _ _ h => h))

theorem mono {D : α → σ → W → Prop} (hx : x.Keeping R T I J s w B) (hB : ∀ a s w, B a s w → D a s w) :
    x.Keeping R T I J s w D :=
  Ensures.mono hx (fun a s w h => ⟨h.1, hB a s w h.2⟩) (fun _ _ _ h => h)

theorem get (h : J s w) :
    (MonadState.get : Prog Q A ε σ σ).Keeping R T I J s w (fun a s' w' => a = s ∧ s' = s ∧ w' = w) :=
  ⟨h, rfl, rfl, rfl⟩

theorem modify {f : σ → σ} (h : J (f s) w) :
    (MonadState.modifyGet (fun s => (⟨⟩, f s)) : Prog Q A ε σ PUnit).Keeping R T I J s w
      (fun _ s' w' => s' = f s ∧ w' = w) :=
  ⟨h, rfl, rfl⟩

theorem ofExcept {r : Except ε α} (h : J s w) :
    (ofExcept r : Prog Q A ε σ α).Keeping R T I J s w (fun a s' w' => r = .ok a ∧ s' = s ∧ w' = w) :=
  Ensures.ofExcept (fun _ ha => ⟨h, ha, rfl, rfl⟩) (fun _ _ => h)

theorem attempt (hx : x.Keeping R T I J s w B) :
    x.attempt.Keeping R T I J s w (fun r s' w' => ∀ a, r = .ok a → B a s' w') := by
  apply Ensures.attempt
  apply Ensures.mono hx
  · intro a s' w' h
    refine ⟨h.1, ?_⟩
    intro b hb
    cases hb
    exact h.2
  · intro e s' w' h
    exact ⟨h, nofun⟩

end Keeping

end Prog

/-! ## One program over another -/

section Handle

variable {Q' : Type} {B : Q' → Type} {τ : Type}

/-- A program over another: each call is what `h` does for it, and `put` keeps what the program holds. -/
def Calls.handle (h : (q : Q) → Prog Q' B ε τ (A q)) (put : σ → τ → τ) : Calls Q A ε σ α → τ → Calls Q' B ε τ α
  | ok a s, t => ok a (put s t)
  | error e s, t => error e (put s t)
  | call q s k, t => (h q (put s t)).bind (fun a t => (k a).handle h put t)

/-- Whatever it is told, a program ends with a value in `P` when it succeeds. -/
def Calls.Yielding (x : Calls Q A ε σ α) (P : α → Prop) : Prop :=
  x.Ensures (fun _ _ : Unit => True) (fun _ _ _ _ => True) (fun _ _ _ => True) (fun a _ _ => P a) (fun _ _ _ => True) ()

variable {R : W → W → Prop} {T : (q : Q') → W → B q → W → Prop} {I : Q' → τ → W → Prop} {J : τ → W → Prop}
  {h : (q : Q) → Prog Q' B ε τ (A q)} {put : σ → τ → τ} {P : α → Prop}

/-- What each handler keeps, the program over them keeps. -/
theorem Calls.Ensures.handle (hput : ∀ s t w, J t w → J (put s t) w)
    (hh : ∀ q t w, J t w → (h q).Keeping R T I J t w (fun _ _ _ => True)) :
    ∀ {x : Calls Q A ε σ α} {t : τ} {w : W}, x.Yielding P → J t w →
      (x.handle h put t).Ensures R T I (fun a t w => J t w ∧ P a) (fun _ t w => J t w) w
  | ok _ s, t, w, hx, ht => ⟨hput s t w ht, hx⟩
  | error _ s, t, w, _, ht => hput s t w ht
  | call q s k, t, w, hx, ht => by
    apply Calls.Ensures.bind
    apply Calls.Ensures.mono _ _ (hh q (put s t) w (hput s t w ht))
    · intro a t' w' h'
      exact Calls.Ensures.handle hput hh (hx.2 () a () trivial trivial) h'.1
    · intro e t' w' h'
      exact h'

/-- A program that keeps an assertion at every call holds it now. -/
theorem Calls.Ensures.state {x : Calls Q' B ε τ α} {w : W}
    (hx : x.Ensures R T (fun _ => J) (fun _ => J) (fun _ => J) w) : J x.state w := by
  cases x with
  | ok a s => exact hx
  | error e s => exact hx
  | call q s k => exact hx.1

end Handle

end Misty
