import Misty.Vault.Hlc

/- The replicated registers, one for each merge rule, and the order each of them
   climbs. Every merge is a least upper bound in that order, with two exceptions
   the code makes: an `Lww` register refuses two values under one clock, and a
   tombstone keeps its own side (`Misty.Vault.Model`).

   Correspondence (Rust ↔ Lean):
     `crdt::Lww::{set, merge}`                 ↔ `Lww.set`, `Lww.merge`
     `crdt::{MaxWins, MinWins}`                ↔ `MaxWins`, `MinWins`
     `crdt::{OrSetEntry, OrSet}`               ↔ `OrSetEntry`, `OrSet`
     `crdt::UsageCounter`                      ↔ `UsageCounter`
   `Option<T>` under its derived order (`None` first) is `WithBot T`. -/
namespace Misty

open Std (ExtTreeMap)

/-! ## Bounds in maps -/

/-- A pair is bounded by exactly what its least upper bound is below. -/
theorem isLUB_pair_iff {α : Type*} [Preorder α] {a b c : α} :
    IsLUB {a, b} c ↔ ∀ z, c ≤ z ↔ a ≤ z ∧ b ≤ z := by
  rw [isLUB_iff_le_iff]
  refine forall_congr' (fun z => ?_)
  simp [upperBounds]

/-- A map read as a function: an absent key is below every value. -/
def OrdMap.view {α β : Type*} [LinearOrder α] (m : ExtTreeMap α β) : α → WithBot β := fun k => m[k]?

theorem OrdMap.view_injective {α β : Type*} [LinearOrder α] :
    Function.Injective (OrdMap.view (α := α) (β := β)) :=
  fun _ _ h => OrdMap.ext (fun k => congrFun h k)

/-- Folding one map into another by a join is the join of the two. -/
theorem OrdMap.view_joinWith {α β : Type*} [LinearOrder α] [SemilatticeSup β]
    (a b : ExtTreeMap α β) : OrdMap.view (OrdMap.joinWith (· ⊔ ·) a b) = OrdMap.view a ⊔ OrdMap.view b := by
  funext k
  show (OrdMap.joinWith (· ⊔ ·) a b)[k]? = (a[k]? ⊔ b[k]? : WithBot β)
  rw [OrdMap.getElem?_joinWith]
  cases a[k]? with
  | none => exact (bot_sup_eq (α := WithBot β) _).symm
  | some x =>
    cases b[k]? with
    | none => exact (sup_bot_eq (α := WithBot β) _).symm
    | some y => rfl

theorem OrdMap.getElem?_of_view_le {α β : Type*} [LinearOrder α] [Preorder β] {a b : ExtTreeMap α β}
    (h : OrdMap.view a ≤ OrdMap.view b) {k : α} {v : β} (hk : a[k]? = some v) :
    ∃ w, b[k]? = some w ∧ v ≤ w := by
  have hle : OrdMap.view a k ≤ OrdMap.view b k := h k
  have ha : OrdMap.view a k = (v : WithBot β) := hk
  rw [ha] at hle
  cases hb : b[k]? with
  | none =>
    have hbot : OrdMap.view b k = ⊥ := hb
    rw [hbot] at hle
    exact absurd hle (WithBot.not_coe_le_bot v)
  | some w =>
    have hw : OrdMap.view b k = (w : WithBot β) := hb
    rw [hw] at hle
    exact ⟨w, rfl, WithBot.coe_le_coe.mp hle⟩

theorem OrdMap.view_le_insert {α β : Type*} [LinearOrder α] [Preorder β] {m : ExtTreeMap α β} {k : α}
    {v : β} (h : ∀ w, m[k]? = some w → w ≤ v) : OrdMap.view m ≤ OrdMap.view (m.insert k v) := by
  intro a
  have hval : OrdMap.view (m.insert k v) a = if k = a then (v : WithBot β) else OrdMap.view m a :=
    OrdMap.getElem?_insert ..
  rw [hval]
  split
  · next hk =>
    subst hk
    cases hm : m[k]? with
    | none =>
      have hbot : OrdMap.view m k = ⊥ := hm
      rw [hbot]
      exact bot_le
    | some w =>
      have hw : OrdMap.view m k = (w : WithBot β) := hm
      rw [hw]
      exact WithBot.coe_le_coe.mpr (h w hm)
  · exact le_refl _

/-! ## Last writer wins -/

/-- A value together with the clock of the write that produced it. -/
structure Lww (T : Type) where
  value : T
  hlc : Hlc
  deriving DecidableEq

namespace Lww

variable {T : Type}

/-- `Lww::set`: a local write, ignored unless it is later. -/
def set (self : Lww T) (value : T) (hlc : Hlc) : Lww T :=
  if self.hlc < hlc then ⟨value, hlc⟩ else self

/-- Equal clocks carry equal values. -/
def Agrees (a b : Lww T) : Prop := a.hlc = b.hlc → a.value = b.value

/-- The later of two registers. -/
def later (a b : Lww T) : Lww T := if a.hlc < b.hlc then b else a

variable [DecidableEq T]

instance (a b : Lww T) : Decidable (a.Agrees b) := inferInstanceAs (Decidable (_ → _))

def merge (self other : Lww T) (field : String) : Result (Lww T) :=
  if self.hlc < other.hlc then .ok ⟨other.value, other.hlc⟩
  else if other.hlc < self.hlc then .ok self
  else if self.value = other.value then .ok self
  else .error (.clockCollision field)

theorem merge_eq (a b : Lww T) (field : String) :
    a.merge b field = if a.Agrees b then .ok (a.later b) else .error (.clockCollision field) := by
  unfold merge later Agrees
  by_cases hlt : a.hlc < b.hlc
  · simp [hlt, hlt.ne]
  · by_cases hgt : b.hlc < a.hlc
    · simp [hlt, hgt, hgt.ne']
    · have heq : a.hlc = b.hlc := le_antisymm (not_lt.mp hgt) (not_lt.mp hlt)
      simp [heq]

omit [DecidableEq T]

theorem Agrees.symm {a b : Lww T} (h : a.Agrees b) : b.Agrees a := fun e => (h e.symm).symm

theorem Agrees.eq {a b : Lww T} (h : a.Agrees b) (e : a.hlc = b.hlc) : a = b := by
  cases a
  cases b
  simp only [Lww.mk.injEq]
  exact ⟨h e, e⟩

theorem later_eq_or (a b : Lww T) : a.later b = a ∨ a.later b = b := by
  unfold later
  split
  · exact .inr rfl
  · exact .inl rfl

@[simp] theorem hlc_later (a b : Lww T) : (a.later b).hlc = max a.hlc b.hlc := by
  unfold later
  split
  · next h => exact (max_eq_right h.le).symm
  · next h => exact (max_eq_left (not_lt.mp h)).symm

theorem later_comm {a b : Lww T} (h : a.Agrees b) : a.later b = b.later a := by
  unfold later
  by_cases hlt : a.hlc < b.hlc
  · rw [if_pos hlt, if_neg hlt.not_gt]
  · by_cases hgt : b.hlc < a.hlc
    · rw [if_neg hlt, if_pos hgt]
    · rw [if_neg hlt, if_neg hgt]
      exact h.eq (le_antisymm (not_lt.mp hgt) (not_lt.mp hlt))

/-- A register is below another when the other replaces it in a merge. -/
instance : PartialOrder (Lww T) where
  le a b := a = b ∨ a.hlc < b.hlc
  le_refl a := .inl rfl
  le_trans a b c := by
    rintro (rfl | hab) (rfl | hbc)
    · exact .inl rfl
    · exact .inr hbc
    · exact .inr hab
    · exact .inr (hab.trans hbc)
  le_antisymm a b := by
    rintro (rfl | hab) (h | hba)
    · rfl
    · rfl
    · exact h.symm
    · exact absurd hab hba.not_gt

theorem hlc_mono {a b : Lww T} (h : a ≤ b) : a.hlc ≤ b.hlc := by
  rcases h with rfl | h
  · exact le_rfl
  · exact h.le

theorem later_le_iff {a b : Lww T} (h : a.Agrees b) (z : Lww T) : a.later b ≤ z ↔ a ≤ z ∧ b ≤ z := by
  have hle : ∀ {c d : Lww T}, c.hlc < d.hlc → d ≤ z → c ≤ z :=
    fun hcd hdz => .inr (hcd.trans_le (hlc_mono hdz))
  unfold later
  by_cases hlt : a.hlc < b.hlc
  · rw [if_pos hlt]
    exact ⟨fun hb => ⟨hle hlt hb, hb⟩, fun hab => hab.2⟩
  · rw [if_neg hlt]
    by_cases hgt : b.hlc < a.hlc
    · exact ⟨fun ha => ⟨ha, hle hgt ha⟩, fun hab => hab.1⟩
    · have heq := h.eq (le_antisymm (not_lt.mp hgt) (not_lt.mp hlt))
      rw [← heq]
      exact ⟨fun ha => ⟨ha, ha⟩, fun hab => hab.1⟩

theorem le_set (a : Lww T) (value : T) (hlc : Hlc) : a ≤ a.set value hlc := by
  unfold set
  split
  · next h => exact .inr h
  · exact le_rfl

end Lww

/-! ## Extrema -/

/-- A register that only ever increases. -/
structure MaxWins (T : Type) where
  value : T
  deriving DecidableEq

/-- A register that only ever decreases. -/
structure MinWins (T : Type) where
  value : T
  deriving DecidableEq

def MaxWins.set {T : Type} [LinearOrder T] (self : MaxWins T) (value : T) : MaxWins T :=
  if self.value < value then ⟨value⟩ else self

theorem MaxWins.le_set {T : Type} [LinearOrder T] (self : MaxWins T) (value : T) :
    self.value ≤ (self.set value).value := by
  unfold set
  split
  · next h => exact h.le
  · exact le_refl _

def MaxWins.merge {T : Type} [LinearOrder T] (self other : MaxWins T) : MaxWins T :=
  ⟨max self.value other.value⟩

def MinWins.merge {T : Type} [LinearOrder T] (self other : MinWins T) : MinWins T :=
  ⟨min self.value other.value⟩

/-! ## Observed-remove sets -/

/-- The two clocks one element carries; `removed` is `⊥` for an element that was
never removed. -/
structure OrSetEntry where
  added : Hlc
  removed : WithBot Hlc
  deriving DecidableEq

namespace OrSetEntry

/-- `OrSetEntry::is_present`: add wins on a tie. -/
def isPresent (self : OrSetEntry) : Bool := self.removed ≤ (self.added : WithBot Hlc)

def maxHlc (self : OrSetEntry) : Hlc :=
  match self.removed with
  | none => self.added
  | some removed => if self.added < removed then removed else self.added

/-- One step of `OrSet::merge` on an element both sides know. -/
def merge (self incoming : OrSetEntry) : OrSetEntry where
  added := if self.added < incoming.added then incoming.added else self.added
  removed := if self.removed < incoming.removed then incoming.removed else self.removed

theorem if_lt_eq_max {α : Type*} [LinearOrder α] (a b : α) : (if a < b then b else a) = max a b := by
  split
  · next h => exact (max_eq_right h.le).symm
  · next h => exact (max_eq_left (not_lt.mp h)).symm

/-- The two clocks, each in its own order. -/
def clocks (e : OrSetEntry) : Hlc × WithBot Hlc := (e.added, e.removed)

theorem clocks_injective : Function.Injective clocks := by
  rintro ⟨a, r⟩ ⟨a', r'⟩ h
  cases h
  rfl

instance : PartialOrder OrSetEntry := PartialOrder.lift clocks clocks_injective

theorem le_def {a b : OrSetEntry} : a ≤ b ↔ a.added ≤ b.added ∧ a.removed ≤ b.removed := Iff.rfl

theorem merge_le_iff (a b z : OrSetEntry) : a.merge b ≤ z ↔ a ≤ z ∧ b ≤ z := by
  simp only [le_def, merge, if_lt_eq_max, max_le_iff]
  tauto

instance : SemilatticeSup OrSetEntry where
  sup := merge
  le_sup_left a b := ((merge_le_iff a b _).mp le_rfl).1
  le_sup_right a b := ((merge_le_iff a b _).mp le_rfl).2
  sup_le a b c hac hbc := (merge_le_iff a b c).mpr ⟨hac, hbc⟩

end OrSetEntry

/-- A set whose removed elements stay on record. -/
structure OrSet (T : Type) [LinearOrder T] where
  entries : ExtTreeMap T OrSetEntry
  deriving DecidableEq

namespace OrSet

variable {T : Type} [LinearOrder T]

def new : OrSet T := ⟨∅⟩

/-- `OrSet::iter`, the current members. -/
def iter (self : OrSet T) : List T := (self.entries.toList.filter (fun p => p.2.isPresent)).map Prod.fst

/-- `OrSet::stored_len`, members and removed elements together. -/
def storedLen (self : OrSet T) : Nat := self.entries.size

def contains (self : OrSet T) (element : T) : Bool := (self.entries[element]?).any OrSetEntry.isPresent

def maxHlc (self : OrSet T) : Option Hlc := (self.entries.toList.map (fun p => p.2.maxHlc)).max?

def add (self : OrSet T) (element : T) (hlc : Hlc) : OrSet T :=
  match self.entries[element]? with
  | none => ⟨self.entries.insert element ⟨hlc, ⊥⟩⟩
  | some entry =>
    if entry.added < hlc then ⟨self.entries.insert element { entry with added := hlc }⟩ else self

/-- `OrSet::remove`. An element that was never added is not recorded. -/
def remove (self : OrSet T) (element : T) (hlc : Hlc) : OrSet T :=
  match self.entries[element]? with
  | none => self
  | some entry =>
    if (hlc : WithBot Hlc) ≤ entry.removed then self
    else ⟨self.entries.insert element { entry with removed := hlc }⟩

/-- `OrSet::merge`, element by element. -/
def merge (self other : OrSet T) : OrSet T :=
  ⟨OrdMap.joinWith OrSetEntry.merge self.entries other.entries⟩

/-- The set as the clocks it holds for every element. -/
def view (self : OrSet T) : T → WithBot OrSetEntry := OrdMap.view self.entries

theorem view_injective : Function.Injective (view (T := T)) := by
  rintro ⟨a⟩ ⟨b⟩ h
  exact congrArg OrSet.mk (OrdMap.view_injective h)

@[simp] theorem view_merge (a b : OrSet T) : (a.merge b).view = a.view ⊔ b.view :=
  OrdMap.view_joinWith a.entries b.entries

theorem view_le_add (self : OrSet T) (element : T) (hlc : Hlc) :
    self.view ≤ (self.add element hlc).view := by
  unfold add
  split
  · next hn =>
    apply OrdMap.view_le_insert
    intro w hw
    rw [hn] at hw
    cases hw
  · next entry he =>
    split
    · next hlt =>
      apply OrdMap.view_le_insert
      intro w hw
      rw [he] at hw
      cases hw
      exact ⟨hlt.le, le_refl _⟩
    · exact le_refl _

theorem view_le_remove (self : OrSet T) (element : T) (hlc : Hlc) :
    self.view ≤ (self.remove element hlc).view := by
  unfold remove
  split
  · exact le_refl _
  · next entry he =>
    split
    · exact le_refl _
    · next hlt =>
      apply OrdMap.view_le_insert
      intro w hw
      rw [he] at hw
      cases hw
      exact ⟨le_refl _, (not_le.mp hlt).le⟩

end OrSet

/-! ## Usage -/

/-- How often a token was used, counted per device. -/
structure UsageCounter where
  perDevice : ExtTreeMap DeviceId U64
  deriving DecidableEq

namespace UsageCounter

def new : UsageCounter := ⟨∅⟩

def forDevice (self : UsageCounter) (device : DeviceId) : U64 := (self.perDevice[device]?).getD 0

/-- `UsageCounter::len`, the devices named. -/
def len (self : UsageCounter) : Nat := self.perDevice.size

/-- `UsageCounter::increment`, saturating. -/
def increment (self : UsageCounter) (device : DeviceId) (amount : U64) : UsageCounter :=
  if amount = 0 then self
  else ⟨self.perDevice.insert device (U64.saturatingAdd (self.forDevice device) amount)⟩

/-- `UsageCounter::merge`, the maximum per device. -/
def merge (self other : UsageCounter) : UsageCounter :=
  ⟨OrdMap.joinWith max self.perDevice other.perDevice⟩

/-- The counter as what it holds for every device. -/
def view (self : UsageCounter) : DeviceId → WithBot U64 := OrdMap.view self.perDevice

theorem view_injective : Function.Injective view := by
  rintro ⟨a⟩ ⟨b⟩ h
  exact congrArg UsageCounter.mk (OrdMap.view_injective h)

@[simp] theorem view_merge (a b : UsageCounter) : (a.merge b).view = a.view ⊔ b.view :=
  OrdMap.view_joinWith a.perDevice b.perDevice

theorem view_le_increment (self : UsageCounter) (device : DeviceId) (amount : U64) :
    self.view ≤ (self.increment device amount).view := by
  unfold increment
  split
  · exact le_refl _
  · apply OrdMap.view_le_insert
    intro w hw
    have hself : self.forDevice device = w := by rw [forDevice, hw]; rfl
    rw [hself]
    show w.val ≤ (U64.saturatingAdd w amount).val
    rw [U64.val_saturatingAdd]
    omega

end UsageCounter

end Misty
