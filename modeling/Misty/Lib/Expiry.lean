import Misty.Lib.OrdMap

/- Tables whose entries expire. `reap` drops what has expired by a moment; readers that
   look only at what is still live cannot tell. `Lags` is the relation between a table
   and one that was reaped, at any moments before, along the way: they agree except where
   an expired entry is missing from the second. Every operation that treats the two alike
   keeps it, and a lookup of a live entry answers the same in both. -/
namespace Misty

open Std (ExtTreeMap)

namespace Expiry

variable {α β : Type*} [LinearOrder α] (expires : β → Int)

/-- What is left at a moment. -/
def reap (now : Int) (t : ExtTreeMap α β) : ExtTreeMap α β := t.filter (fun _ v => now < expires v)

/-- An entry that has not expired. -/
def live (now : Int) (t : ExtTreeMap α β) (k : α) : Option β := (t[k]?).filter (fun v => now < expires v)

/-- `s` is `t` without some of what had expired by `now`. -/
def Lags (now : Int) (t s : ExtTreeMap α β) : Prop :=
  ∀ k : α, s[k]? = t[k]? ∨ s[k]? = none ∧ ∃ v, t[k]? = some v ∧ expires v ≤ now

variable {expires} {now now' : Int} {t s : ExtTreeMap α β} {k : α} {v : β}

@[simp] theorem getElem?_reap (now : Int) (t : ExtTreeMap α β) (k : α) :
    (reap expires now t)[k]? = live expires now t k :=
  ExtTreeMap.getElem?_filter'

theorem live_eq_some : live expires now t k = some v ↔ t[k]? = some v ∧ now < expires v := by
  simp [live, Option.filter_eq_some_iff]

theorem live_eq_none_of_none (h : t[k]? = none) : live expires now t k = none := by
  simp [live, h]

theorem live_eq_none_of_expired (h : t[k]? = some v) (hv : expires v ≤ now) : live expires now t k = none := by
  simp [live, h, hv]

/-! ## Lagging -/

theorem Lags.refl (now : Int) (t : ExtTreeMap α β) : Lags expires now t t := fun _ => .inl rfl

theorem Lags.mono (h : Lags expires now t s) (hle : now ≤ now') : Lags expires now' t s := by
  intro k
  rcases h k with h | ⟨hnone, v, hv, hexpired⟩
  · exact .inl h
  · exact .inr ⟨hnone, v, hv, hexpired.trans hle⟩

theorem Lags.sub (h : Lags expires now t s) (hs : s[k]? = some v) : t[k]? = some v := by
  rcases h k with heq | ⟨hnone, _⟩
  · exact heq.symm.trans hs
  · cases hnone.symm.trans hs

theorem Lags.expired (h : Lags expires now t s) (ht : t[k]? = some v) (hs : s[k]? = none) : expires v ≤ now := by
  rcases h k with heq | ⟨_, v', hv', hexpired⟩
  · rw [hs, ht] at heq
    cases heq
  · cases ht.symm.trans hv'
    exact hexpired

theorem Lags.live (h : Lags expires now t s) (k : α) : live expires now s k = live expires now t k := by
  rcases h k with heq | ⟨hnone, v, hv, hexpired⟩
  · rw [Expiry.live, heq, Expiry.live]
  · rw [live_eq_none_of_none hnone, live_eq_none_of_expired hv hexpired]

theorem Lags.insert (h : Lags expires now t s) (k : α) (v : β) : Lags expires now (t.insert k v) (s.insert k v) := by
  intro k'
  rw [OrdMap.getElem?_insert, OrdMap.getElem?_insert]
  by_cases hk : k = k'
  · simp [hk]
  · simpa [hk] using h k'

theorem Lags.erase (h : Lags expires now t s) (k : α) : Lags expires now (t.erase k) (s.erase k) := by
  intro k'
  rw [OrdMap.getElem?_erase, OrdMap.getElem?_erase]
  by_cases hk : k = k'
  · simp [hk]
  · simpa [hk] using h k'

theorem Lags.filter (h : Lags expires now t s) (p : β → Bool) :
    Lags expires now (t.filter (fun _ v => p v)) (s.filter (fun _ v => p v)) := by
  intro k
  rw [ExtTreeMap.getElem?_filter', ExtTreeMap.getElem?_filter']
  rcases h k with heq | ⟨hnone, v, hv, hexpired⟩
  · exact .inl (by rw [heq])
  · rw [hnone, hv]
    by_cases hp : p v = true
    · exact .inr ⟨rfl, v, by simp [hp], hexpired⟩
    · exact .inl (by simp [Option.filter, hp])

theorem Lags.reap (h : Lags expires now t s) : Lags expires now t (reap expires now s) := by
  intro k
  rw [getElem?_reap]
  cases hs : s[k]? with
  | none =>
    rw [live_eq_none_of_none hs]
    rcases h k with heq | hlost
    · exact .inl (hs.symm.trans heq)
    · exact .inr ⟨rfl, hlost.2⟩
  | some v =>
    have ht := h.sub hs
    by_cases hv : expires v ≤ now
    · exact .inr ⟨live_eq_none_of_expired hs hv, v, ht, hv⟩
    · exact .inl ((live_eq_some.mpr ⟨hs, not_le.mp hv⟩).trans ht.symm)

end Expiry

end Misty
