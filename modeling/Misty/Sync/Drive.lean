import Misty.Sync.Trace
import Misty.Vault.Backends

/- Runs that can be computed. A `Driver` answers every call by a function: the vault
   answers as it does, a save succeeds, and a request is served by a script. What a
   driver leads a run to is reached (`Run.Reached.upTo`, `Run.Reached.play`), so a
   statement about runs can be tried on the one a script describes. -/
namespace Misty

open LawfulStore (view)

variable {S X : Type} [LawfulStore S] (E : Externals)

/-- The host while a call is answered, and the other side as a function. -/
structure Driver (X : Type) where
  amb : Ambient
  serve : Request → X → Except SyncError Response × X

/-- The other side of a script, which does nothing by itself. -/
def Peer.scripted (serve : Request → X → Except SyncError Response × X) : Peer X where
  serve request x a x' := (a, x') = serve request x
  moves _ _ := False

/-- A call answered. -/
def Driver.answer (self : Driver X) : (q : Query) → World S X → Answer q × World S X
  | .loadAll, w => w.onVault (Vault.onStore VaultStore.loadAll)
  | .stored itemId, w => w.onVault (Vault.onStore (VaultStore.get itemId))
  | .mergeRemote changes, w => w.merge E self.amb changes
  | .epoch, w => (w.vault.epoch, w)
  | .rotateEpoch, w => w.onVault Vault.rotateEpoch
  | .rewrap limit, w => w.onVault (Vault.rewrapToCurrentEpoch E self.amb limit)
  | .save state, w => (.ok (), w.note state)
  | .send request, w =>
    ((self.serve request w.peer).1, w.hear request (self.serve request w.peer).2 (self.serve request w.peer).1)

variable {E} {P : Peer X} {C : Permit S X} {start : X → Prop} {d : Driver X}

/-- A driver answers as the world may, when its script does. -/
theorem Driver.answers (hserve : ∀ request x, P.serve request x (d.serve request x).1 (d.serve request x).2)
    (q : Query) (w : World S X) : Answers E P q w (d.answer E q w).1 (d.answer E q w).2 := by
  cases q with
  | loadAll | stored _ | rotateEpoch => rfl
  | mergeRemote _ | rewrap _ => exact ⟨d.amb, rfl⟩
  | epoch => exact ⟨rfl, rfl⟩
  | save state => exact .inl rfl
  | send request => exact ⟨_, hserve request w.peer, rfl⟩

namespace Calls

/-- The request a program waits for. -/
def asking {α : Type} : Calls Query Answer SyncError SyncEngine α → Option Request
  | .call (.send request) _ _ => some request
  | _ => none

theorem eq_of_asking {α : Type} {x : Calls Query Answer SyncError SyncEngine α} {request : Request}
    (h : x.asking = some request) : ∃ s k, x = .call (.send request) s k := by
  unfold asking at h
  split at h
  · cases h
    exact ⟨_, _, rfl⟩
  · cases h

/-- The error a program has ended with. -/
def failure {α : Type} : Calls Query Answer SyncError SyncEngine α → Option SyncError
  | .error e _ => some e
  | _ => none

/-- Whether a program has ended. -/
def ended {α : Type} : Calls Query Answer SyncError SyncEngine α → Bool
  | .ok _ _ | .error _ _ => true
  | .call _ _ _ => false

theorem Ended.of_ended {α : Type} {x : Calls Query Answer SyncError SyncEngine α} (h : x.ended = true) : x.Ended := by
  cases x with
  | ok _ _ | error _ _ => trivial
  | call _ _ _ => cases h

end Calls

/-- A step of a script. -/
inductive Act (X : Type) where
  | edit (amb : Ambient) (op : Op)
  /-- A method, up to the first request to stop at or to its end. -/
  | call (op : EngineOp) (stop : Request → Bool)
  /-- A method that stopped, further on. -/
  | resume (stop : Request → Bool)
  | move (f : X → X)

/-- A method run to its end. -/
def Act.whole (op : EngineOp) : Act X := .call op (fun _ => false)

namespace Run

variable (E d)

/-- One call answered. -/
def next (self : Run S X) : Run S X :=
  match self.work with
  | .call q _ k => ⟨k (d.answer E q self.world).1, (d.answer E q self.world).2⟩
  | _ => self

/-- Calls answered until a request is out that the driver is to stop at, or the
program has ended, or the fuel. -/
def upTo (stop : Request → Bool) : Nat → Run S X → Run S X
  | 0, self => self
  | fuel + 1, self => if self.work.asking.any stop then self else upTo stop fuel (self.next E d)

/-- One step of a script. Nothing is begun or edited while a method is at work. -/
def act (fuel : Nat) (self : Run S X) : Act X → Run S X
  | .edit amb op => if self.work.ended then ⟨self.work, self.world.edit E amb op⟩ else self
  | .call op stop =>
    if self.work.ended then upTo E d stop fuel ⟨op.run E self.work.state, self.world⟩ else self
  | .resume stop => upTo E d stop fuel self
  | .move f => ⟨self.work, { self.world with peer := f self.world.peer }⟩

/-- A script. -/
def play (fuel : Nat) (acts : List (Act X)) (self : Run S X) : Run S X := acts.foldl (act E d fuel) self

/-- The runs at which `upTo` answers a call. -/
def visitsUpTo (stop : Request → Bool) : Nat → Run S X → List (Run S X)
  | 0, _ => []
  | fuel + 1, self =>
    if self.work.asking.any stop then [] else self :: visitsUpTo stop fuel (self.next E d)

/-- The runs at which one step of a script answers a call. -/
def visitsAct (fuel : Nat) (self : Run S X) : Act X → List (Run S X)
  | .call op stop =>
    if self.work.ended then visitsUpTo E d stop fuel ⟨op.run E self.work.state, self.world⟩ else []
  | .resume stop => visitsUpTo E d stop fuel self
  | .edit _ _ | .move _ => []

/-- The runs at which a script answers a call. -/
def visits (fuel : Nat) : List (Act X) → Run S X → List (Run S X)
  | [], _ => []
  | act :: acts, self => self.visitsAct E d fuel act ++ visits fuel acts (self.act E d fuel act)

variable {E d}

/-! ## What a script reaches -/

/-- A driver's answers are permitted, where `J` holds, at the runs with `K`. -/
structure Allows (E : Externals) (P : Peer X) (C : Permit S X) (d : Driver X) (J : World S X → Prop)
    (K : Run S X → Prop) : Prop where
  serve : ∀ request x, P.serve request x (d.serve request x).1 (d.serve request x).2
  next : ∀ r : Run S X, J r.world → K r →
    J (r.next E d).world ∧ ∀ q s k, r.work = .call q s k →
      C r.world (.called q (d.answer E q r.world).1) (d.answer E q r.world).2
  edit : ∀ w amb op, J w → J (w.edit E amb op) ∧ C w (.edited amb op) (w.edit E amb op)
  began : ∀ w op, J w → C w (.began op) w

variable {J : World S X → Prop} {K : Run S X → Prop}

theorem Allows.upTo (hd : Allows E P C d J K) {stop : Request → Bool} : ∀ (fuel : Nat) {r : Run S X},
    (∀ v ∈ r.visitsUpTo E d stop fuel, K v) → J r.world → Reached E P C start r →
      J (r.upTo E d stop fuel).world ∧ Reached E P C start (r.upTo E d stop fuel)
  | 0, r, _, hj, h => ⟨hj, h⟩
  | fuel + 1, r, hk, hj, h => by
    unfold Run.upTo
    unfold visitsUpTo at hk
    split
    · exact ⟨hj, h⟩
    · next hstop =>
      rw [if_neg hstop] at hk
      obtain ⟨hj', hc⟩ := hd.next r hj (hk r List.mem_cons_self)
      refine Allows.upTo hd fuel (fun v hv => hk v (List.mem_cons_of_mem _ hv)) hj' ?_
      obtain ⟨work, w⟩ := r
      cases work with
      | ok _ _ | error _ _ => exact h
      | call q s k => exact h.step (.answered ⟨d.answers hd.serve q w, hc q s k rfl⟩)

/-- What a script leads to is reached, where its steps are permitted. -/
theorem Allows.play (hd : Allows E P C d J K) {fuel : Nat} : ∀ (acts : List (Act X)) {r : Run S X},
    (∀ f, .move f ∈ acts → ∀ w, J w → P.moves w.peer (f w.peer) ∧
      J { w with peer := f w.peer } ∧ C w .moved { w with peer := f w.peer }) →
    (∀ v ∈ r.visits E d fuel acts, K v) → J r.world → Reached E P C start r →
      J (r.play E d fuel acts).world ∧ Reached E P C start (r.play E d fuel acts)
  | [], r, _, _, hj, h => ⟨hj, h⟩
  | act :: acts, r, hmoves, hk, hj, h => by
    have hact : J (r.act E d fuel act).world ∧ Reached E P C start (r.act E d fuel act) := by
      have hk' : ∀ v ∈ r.visitsAct E d fuel act, K v := fun v hv => hk v (List.mem_append_left _ hv)
      cases act with
      | edit amb op =>
        unfold Run.act
        dsimp only
        split
        · next hended =>
          obtain ⟨hj', hc⟩ := hd.edit r.world amb op hj
          exact ⟨hj', h.step (.edited (.of_ended hended) hc)⟩
        · exact ⟨hj, h⟩
      | call op stop =>
        unfold Run.act
        unfold visitsAct at hk'
        dsimp only at hk' ⊢
        split
        · next hended =>
          rw [if_pos hended] at hk'
          exact hd.upTo fuel hk' hj (h.step (.began (.of_ended hended) (hd.began r.world op hj)))
        · exact ⟨hj, h⟩
      | resume stop => exact hd.upTo fuel hk' hj h
      | move f =>
        obtain ⟨hmove, hj', hc⟩ := hmoves f List.mem_cons_self r.world hj
        exact ⟨hj', h.step (.moved ⟨_, hmove, rfl, hc⟩)⟩
    exact Allows.play hd acts (fun f hf => hmoves f (List.mem_cons_of_mem _ hf))
      (fun v hv => hk v (List.mem_append_right _ hv)) hact.1 hact.2

theorem Allows.always (hserve : ∀ request x, P.serve request x (d.serve request x).1 (d.serve request x).2)
    (hc : ∀ (w w' : World S X) event, C w event w') : Allows E P C d (fun _ => True) (fun _ => True) :=
  ⟨hserve, fun _ _ _ => ⟨trivial, fun _ _ _ _ => hc _ _ _⟩, fun _ _ _ _ => ⟨trivial, hc _ _ _⟩, fun _ _ _ => hc _ _ _⟩

theorem Reached.upTo (hserve : ∀ request x, P.serve request x (d.serve request x).1 (d.serve request x).2)
    (hc : ∀ (w w' : World S X) event, C w event w') {stop : Request → Bool} (fuel : Nat) {r : Run S X}
    (h : Reached E P C start r) : Reached E P C start (r.upTo E d stop fuel) :=
  ((Allows.always hserve hc).upTo fuel (fun _ _ => trivial) trivial h).2

theorem Reached.play (hserve : ∀ request x, P.serve request x (d.serve request x).1 (d.serve request x).2)
    (hc : ∀ (w w' : World S X) event, C w event w') {fuel : Nat} (acts : List (Act X)) {r : Run S X}
    (hmoves : ∀ f, .move f ∈ acts → ∀ x, P.moves x (f x)) (h : Reached E P C start r) :
    Reached E P C start (r.play E d fuel acts) :=
  ((Allows.always hserve hc).play acts (fun f hf w _ => ⟨hmoves f hf w.peer, trivial, hc _ _ _⟩)
    (fun _ _ => trivial) trivial h).2

theorem leads_upTo (hserve : ∀ request x, P.serve request x (d.serve request x).1 (d.serve request x).2)
    {R : World S X → World S X → Prop} (stop : Request → Bool) : ∀ (fuel : Nat) (r : Run S X),
    Calls.Leads R (Answers E P) r.work r.world (r.upTo E d stop fuel).work (r.upTo E d stop fuel).world
  | 0, r => .refl _ _
  | fuel + 1, r => by
    unfold Run.upTo
    split
    · exact .refl _ _
    · have hrest := leads_upTo hserve (R := R) stop fuel (r.next E d)
      obtain ⟨work, w⟩ := r
      cases work with
      | ok _ _ | error _ _ => exact hrest
      | call q s k => exact .answered (d.answers hserve q w) hrest

/-! ## What a script leaves behind -/

/-- What a world remembers in `g` grows by `f` with each call answered, and not otherwise. -/
structure Remembers {Y : Type} (E : Externals) (d : Driver X) (g : World S X → Set Y) (f : Run S X → List Y) :
    Prop where
  next : ∀ (r : Run S X) y, y ∈ g (r.next E d).world ↔ y ∈ f r ∨ y ∈ g r.world
  edit : ∀ w amb op, g (w.edit E amb op) = g w
  move : ∀ w x, g { w with peer := x } = g w

section

variable {Y : Type} {g : World S X → Set Y} {f : Run S X → List Y}

theorem Remembers.upTo (hg : Remembers E d g f) {stop : Request → Bool} (y : Y) : ∀ (fuel : Nat) (r : Run S X),
    y ∈ g (r.upTo E d stop fuel).world ↔ y ∈ (r.visitsUpTo E d stop fuel).flatMap f ∨ y ∈ g r.world
  | 0, r => by simp [Run.upTo, visitsUpTo]
  | fuel + 1, r => by
    unfold Run.upTo visitsUpTo
    split
    · simp
    · rw [Remembers.upTo hg y fuel, hg.next, List.flatMap_cons, List.mem_append]
      tauto

theorem Remembers.play (hg : Remembers E d g f) {fuel : Nat} (y : Y) : ∀ (acts : List (Act X)) (r : Run S X),
    y ∈ g (r.play E d fuel acts).world ↔ y ∈ (r.visits E d fuel acts).flatMap f ∨ y ∈ g r.world
  | [], r => by simp [Run.play, visits]
  | act :: acts, r => by
    rw [Run.play, List.foldl_cons]
    show y ∈ g (Run.play E d fuel acts _).world ↔ _
    rw [Remembers.play hg y acts, visits, List.flatMap_append, List.mem_append]
    have hact : y ∈ g (r.act E d fuel act).world ↔ y ∈ (r.visitsAct E d fuel act).flatMap f ∨ y ∈ g r.world := by
      cases act with
      | edit amb op =>
        unfold Run.act
        dsimp only
        split <;> simp [visitsAct, hg.edit]
      | call op stop =>
        unfold Run.act visitsAct
        dsimp only
        split
        · exact hg.upTo y fuel _
        · simp
      | resume stop => exact hg.upTo y fuel r
      | move f => simp [Run.act, visitsAct, hg.move]
    rw [hact]
    tauto

end

variable (d) in
/-- The answer the next call brings. -/
def hears (self : Run S X) : List (Request × Response) :=
  match self.work.asking with
  | some request =>
    match (d.serve request self.world.peer).1 with
    | .ok response => [(request, response)]
    | .error _ => []
  | none => []

variable (E d) in
/-- The answers a script brings. -/
def heard (fuel : Nat) (acts : List (Act X)) (self : Run S X) : List (Request × Response) :=
  (self.visits E d fuel acts).flatMap (hears d)

/-- The request that is out. -/
def asks (self : Run S X) : List Request := self.work.asking.toList

variable (E d) in
/-- The envelopes the next call merges. -/
def merges (self : Run S X) : List (ItemId × Bytes) :=
  match self.work with
  | .call (.mergeRemote changes) _ _ =>
    match Vault.mergeRemote E d.amb changes self.world.vault with
    | .ok _ _ => changes.map fun c => (c.itemId, c.envelope)
    | .error _ _ => []
  | _ => []

omit [LawfulStore S] in
theorem onVault_frame {α : Type} (w : World S X) (x : Io (Vault S) α) :
    (w.onVault x).2 = { w with vault := (w.onVault x).2.vault } := by
  unfold World.onVault
  split <;> rfl

theorem remembers_told : Remembers E d (fun w : World S X => w.told) (hears d) := by
  refine ⟨?_, fun _ _ _ => rfl, fun _ _ => rfl⟩
  intro r p
  obtain ⟨work, w⟩ := r
  cases work with
  | ok _ _ | error _ _ => simp [next, hears, Calls.asking]
  | call q s k =>
    cases q with
    | loadAll | stored _ | rotateEpoch | rewrap _ =>
      simp only [next, hears, Calls.asking, Driver.answer]
      rw [onVault_frame]
      simp
    | epoch | save _ => simp [next, hears, Calls.asking, Driver.answer, World.note]
    | mergeRemote changes =>
      have hmerge : (w.merge E d.amb changes).2.told = w.told := by
        unfold World.merge
        split <;> rfl
      simp [next, hears, Calls.asking, Driver.answer, hmerge]
    | send request =>
      cases hserve : (d.serve request w.peer).1 <;>
        simp [next, hears, Calls.asking, Driver.answer, World.hear, World.ask, hserve]

theorem remembers_asked : Remembers E d (fun w : World S X => w.asked) asks := by
  refine ⟨?_, fun _ _ _ => rfl, fun _ _ => rfl⟩
  intro r p
  obtain ⟨work, w⟩ := r
  cases work with
  | ok _ _ | error _ _ => simp [next, asks, Calls.asking]
  | call q s k =>
    cases q with
    | loadAll | stored _ | rotateEpoch | rewrap _ =>
      simp only [next, asks, Calls.asking, Driver.answer]
      rw [onVault_frame]
      simp
    | epoch | save _ => simp [next, asks, Calls.asking, Driver.answer, World.note]
    | mergeRemote changes =>
      have hmerge : (w.merge E d.amb changes).2.asked = w.asked := by
        unfold World.merge
        split <;> rfl
      simp [next, asks, Calls.asking, Driver.answer, hmerge]
    | send request =>
      cases hserve : (d.serve request w.peer).1 <;>
        simp [next, asks, Calls.asking, Driver.answer, World.hear, World.ask, hserve]

theorem remembers_merged : Remembers E d (fun w : World S X => w.merged) (merges E d) := by
  refine ⟨?_, fun _ _ _ => rfl, fun _ _ => rfl⟩
  intro r p
  obtain ⟨work, w⟩ := r
  cases work with
  | ok _ _ | error _ _ => simp [next, merges]
  | call q s k =>
    cases q with
    | loadAll | stored _ | rotateEpoch | rewrap _ =>
      simp only [next, merges, Driver.answer]
      rw [onVault_frame]
      simp
    | epoch | save _ => simp [next, merges, Driver.answer, World.note]
    | mergeRemote changes =>
      simp only [next, merges, Driver.answer, World.merge]
      cases Vault.mergeRemote E d.amb changes w.vault with
      | ok report v =>
        have hmem : p ∈ changes.map (fun c => (c.itemId, c.envelope)) ↔ ∃ c ∈ changes, p = (c.itemId, c.envelope) := by
          simp [eq_comm]
        rw [hmem]
        exact or_comm
      | error e v => simp
    | send request =>
      cases hserve : (d.serve request w.peer).1 <;>
        simp [next, merges, Driver.answer, World.hear, World.ask, hserve]

theorem told_play {fuel : Nat} (p : Request × Response) (acts : List (Act X)) (r : Run S X) :
    p ∈ (r.play E d fuel acts).world.told ↔ p ∈ heard E d fuel acts r ∨ p ∈ r.world.told :=
  remembers_told.play p acts r

end Run

/-! ## Values for the worked instances -/

/-- Device 1 with an empty vault in memory, before any sync. -/
def World.sample (devices : List Byte) (x : X) : World MemoryStore X where
  vault := .sample MemoryStore.new devices
  peer := x
  saved := {.new}
  purged := ∅
  merged := ∅
  asked := ∅
  told := ∅

/-- The engine of the device, before any sync. -/
def SyncEngine.sample : SyncEngine := ⟨.new, .new, .sample 1, 10⟩

/-- The run that has not begun. -/
def Run.sample (devices : List Byte) (x : X) : Run MemoryStore X := ⟨.ok ⟨⟩ .sample, .sample devices x⟩

/-- The host, when the tombstones of its start can be dropped. -/
def Ambient.later (n : Byte) : Ambient :=
  { Ambient.sample n with clock := fun _ => ⟨MIN_WALL_MS + 100 * 24 * 3600 * 1000, by decide⟩ }

/-- A server that takes every write and has nothing to tell. -/
def Driver.agreeable : Driver Unit where
  amb := .sample 5
  serve _ _ := (.ok ⟨200, .fields { RawBody.empty with
    nextSeq := some (.saturate 0)
    seq := some (.saturate 1)
    version := some (.number (.saturate 1)) }⟩, ())

theorem Run.reached_sample {devices : List Byte} {x : X}
    (hopen : Vault.open E MemoryStore.new (ByteArr.repeated 32 0) (.sample 1) (.sample devices) =
      .ok (.sample .new devices)) (hstart : start x) {C : Permit MemoryStore X} :
    Reached E P C start (.sample devices x) :=
  .fresh rfl ⟨⟨_, _, _, _, hopen⟩, rfl, rfl, rfl, rfl, rfl, rfl⟩ hstart

end Misty
