import Misty.Lib.OrdMap
import Misty.Server.Doubles
import Misty.Types

/- `misty-server/src/rate_limit.rs`: the token buckets of addresses and vaults.

   An instant is a number of nanoseconds; a check reads it before it takes the lock, so the
   calls of a run are in the order in which they take the lock, and their instants need not
   be: `saturating_duration_since` is the subtraction of natural numbers. The map is only
   looked up, counted and filtered, so its order is of no account.

   What is proved, of every run of checks and evictions whose instants do not step back:
     1. `answers_alone` — what a key is answered is told by its own checks: evictions,
        shedding and other keys do not show.
     2. `held_after_evict_iff` — an eviction leaves the keys that are short of a full bucket.
     3. `admitted_le` — the checks admitted in a window come to the burst, what the window
        refills, and the rounding of the refills in it.
     4. `conforming_admitted` — checks that keep to that in every window that opens with one
        of them are all admitted.
   The first holds for a key whose rate no other exceeds, and for any key while the table
   has room: a check that sheds judges every bucket at its own rate, so a slower key's
   bucket can be dropped before it is full. -/
namespace Misty

open Std (ExtTreeMap)

inductive IpAddr where
  | v4 (octets : ByteArr 4)
  | v6 (octets : ByteArr 16)
  deriving DecidableEq

/-- What a bucket counts against. -/
inductive Key where
  | ip (address : IpAddr)
  | vault (id : VaultId)
  deriving DecidableEq

namespace Key

/-- A key among the addresses and the vaults. -/
def place : Key → (ByteArr 4 ⊕ₗ ByteArr 16) ⊕ₗ VaultId
  | ip (.v4 octets) => Sum.inlₗ (Sum.inlₗ octets)
  | ip (.v6 octets) => Sum.inlₗ (Sum.inrₗ octets)
  | vault id => Sum.inrₗ id

theorem place_injective : Function.Injective place := by
  intro a b h
  obtain (_ | _) | _ := a <;> obtain (_ | _) | _ := b <;> simp_all [place]

end Key

instance : LinearOrder Key := LinearOrder.lift' Key.place Key.place_injective

structure Rate where
  perMinute : Fin (2 ^ 32)
  capacity : Fin (2 ^ 32)
  deriving DecidableEq

/-- The configuration a limiter reads. -/
structure RateConfig where
  rateLimitIpPerMinute : Fin (2 ^ 32)
  rateLimitVaultPerMinute : Fin (2 ^ 32)
  rateLimitBurst : Fin (2 ^ 32)

/-- `ApiError::RateLimited`. -/
structure RateLimited where
  retryAfterSecs : Nat
  deriving DecidableEq

structure RateLimiter where
  buckets : ExtTreeMap Key (TokenBucket.Bucket F64)
  /-- Whether the lock is. -/
  poisoned : Bool
  ip : Rate
  vault : Rate
  maxBuckets : Nat

/-- The refill of a rate. -/
def Rate.rule (self : Rate) : TokenBucket.Rule F64 := f64Rule self.perMinute self.capacity

theorem Rate.val_capacity (self : Rate) : self.rule.capacity.val = self.capacity.val :=
  F64.val_natCast (self.capacity.isLt.le.trans (by decide))

theorem Rate.steady (self : Rate) : TokenBucket.Steady asSecsF64 self.rule := F64.steady self.perMinute self.capacity

theorem Rate.counts (self : Rate) :
    TokenBucket.Counts asSecsF64 self.rule Subtype.val (self.perMinute.val / (60 * 10 ^ 9)) (self.capacity.val / 2 ^ 50) :=
  F64.counts self.perMinute.isLt self.capacity.isLt

/-- What a check that finds so many tokens is answered. -/
def Rate.answer (self : Rate) (tokens : F64) : Except RateLimited Unit :=
  if ((1 : Nat) : F64) ≤ tokens then .ok ()
  else
    let wait := max (F64.ceil ((((1 : Nat) : F64) - tokens) / self.rule.perSecond)) ((1 : Nat) : F64)
    .error ⟨F64.toU64 (min wait ((3600 : Nat) : F64))⟩

namespace RateLimiter

def new (config : RateConfig) : RateLimiter where
  buckets := ∅
  poisoned := false
  ip := ⟨config.rateLimitIpPerMinute, config.rateLimitBurst⟩
  vault := ⟨config.rateLimitVaultPerMinute, config.rateLimitBurst⟩
  maxBuckets := 100000

/-- The buckets a check of a key that may be new goes on with: at the cap, those that look
full at the rate of this key are dropped. -/
def shed (self : RateLimiter) (key : Key) (rate : Rate) (now : Nat) : ExtTreeMap Key (TokenBucket.Bucket F64) :=
  if self.maxBuckets ≤ self.buckets.size ∧ self.buckets[key]? = none then
    self.buckets.filter (fun _ bucket => bucket.refilled asSecsF64 rate.rule now < rate.rule.capacity)
  else self.buckets

def check (self : RateLimiter) (key : Key) (rate : Rate) (now : Nat) : Except RateLimited Unit × RateLimiter :=
  if rate.perMinute = 0 ∨ rate.capacity = 0 then (.ok (), self)
  else if self.poisoned then (.error ⟨1⟩, self)
  else
    let buckets := self.shed key rate now
    let bucket := TokenBucket.found asSecsF64 rate.rule buckets[key]? now
    (rate.answer bucket.tokens, { self with buckets := buckets.insert key bucket.spend })

/-- The rate of a key, by its kind. -/
def rateOf (self : RateLimiter) : Key → Rate
  | .ip _ => self.ip
  | .vault _ => self.vault

/-- `RateLimiter::check_ip` and `check_vault`. -/
def checkIp (self : RateLimiter) (address : IpAddr) (now : Nat) : Except RateLimited Unit × RateLimiter :=
  self.check (.ip address) self.ip now

def checkVault (self : RateLimiter) (vault : VaultId) (now : Nat) : Except RateLimited Unit × RateLimiter :=
  self.check (.vault vault) self.vault now

def evictIdle (self : RateLimiter) (now : Nat) : RateLimiter :=
  if self.poisoned then self
  else { self with
    buckets := self.buckets.filter (fun key bucket =>
      bucket.refilled asSecsF64 (self.rateOf key).rule now < (self.rateOf key).rule.capacity) }

end RateLimiter

/-! ## Runs -/

/-- A call on the limiter. -/
inductive LimiterCall where
  | checkIp (address : IpAddr)
  | checkVault (vault : VaultId)
  | evictIdle

/-- The key a call charges. -/
def LimiterCall.key : LimiterCall → Option Key
  | checkIp address => some (.ip address)
  | checkVault vault => some (.vault vault)
  | evictIdle => none

/-- A check and what it was answered. -/
structure Checked where
  now : Nat
  key : Key
  answer : Except RateLimited Unit

namespace RateLimiter

/-- One call. -/
def serve (self : RateLimiter) (now : Nat) : LimiterCall → Option Checked × RateLimiter
  | .checkIp address => (some ⟨now, .ip address, (self.checkIp address now).1⟩, (self.checkIp address now).2)
  | .checkVault vault => (some ⟨now, .vault vault, (self.checkVault vault now).1⟩, (self.checkVault vault now).2)
  | .evictIdle => (none, self.evictIdle now)

/-- The checks of a run, with their answers. -/
def log : RateLimiter → List (Nat × LimiterCall) → List Checked
  | _, [] => []
  | self, (now, call) :: calls => (self.serve now call).1.toList ++ log (self.serve now call).2 calls

/-- The limiter after a run. -/
def after (self : RateLimiter) (calls : List (Nat × LimiterCall)) : RateLimiter :=
  calls.foldl (fun limiter c => (limiter.serve c.1 c.2).2) self

end RateLimiter

/-- When a run checks a key. -/
def checksOf (key : Key) (calls : List (Nat × LimiterCall)) : List Nat :=
  calls.filterMap fun c => if c.2.key = some key then some c.1 else none

/-- The checks of a key that has the limiter to itself, and never is forgotten. -/
def alone (rate : Rate) (key : Key) (b : Option (TokenBucket.Bucket F64)) (ts : List Nat) : List Checked :=
  if rate.perMinute = 0 ∨ rate.capacity = 0 then ts.map fun t => ⟨t, key, .ok ()⟩
  else (TokenBucket.reads asSecsF64 rate.rule b ts).map fun p => ⟨p.1, key, rate.answer p.2⟩

namespace RateLimiter

variable {self : RateLimiter} {key k : Key} {now t : Nat}

/-- The kind of a call does not matter beyond its key. -/
theorem serve_of_key {call : LimiterCall} (h : call.key = some key) :
    self.serve now call =
      (some ⟨now, key, (self.check key (self.rateOf key) now).1⟩, (self.check key (self.rateOf key) now).2) := by
  cases call <;> cases h <;> rfl

theorem serve_of_evict {call : LimiterCall} (h : call.key = none) :
    self.serve now call = (none, self.evictIdle now) := by
  cases call <;> cases h
  rfl

theorem check_frame (self : RateLimiter) (key : Key) (rate : Rate) (now : Nat) :
    (self.check key rate now).2 = { self with buckets := (self.check key rate now).2.buckets } := by
  unfold check
  split
  · rfl
  · split <;> rfl

theorem evictIdle_frame (self : RateLimiter) (now : Nat) :
    self.evictIdle now = { self with buckets := (self.evictIdle now).buckets } := by
  unfold evictIdle
  split <;> rfl

theorem serve_frame (self : RateLimiter) (now : Nat) (call : LimiterCall) :
    (self.serve now call).2 = { self with buckets := (self.serve now call).2.buckets } := by
  cases call with
  | checkIp address => exact check_frame ..
  | checkVault vault => exact check_frame ..
  | evictIdle => exact evictIdle_frame ..

/-- A shed shows to no key that refills at least as fast as the one that is checked. -/
theorem shed_like (hcap : (self.rateOf key).capacity = (self.rateOf k).capacity)
    (h : (self.rateOf key).perMinute ≤ (self.rateOf k).perMinute ∨ self.buckets.size < self.maxBuckets) :
    TokenBucket.Like asSecsF64 (self.rateOf k).rule now (self.shed key (self.rateOf key) now)[k]? self.buckets[k]? := by
  unfold shed
  split
  · next hfull =>
    rw [ExtTreeMap.getElem?_filter']
    refine .filter (Rate.steady _) fun bucket _ hdropped => ?_
    obtain hslower | hroom := h
    · -- full at a slower rate is full at its own
      have hrefilled : (self.rateOf key).rule.capacity ≤ bucket.refilled asSecsF64 (self.rateOf key).rule now := by
        simpa using hdropped
      have hcapacity : (self.rateOf k).rule.capacity = (self.rateOf key).rule.capacity := by
        unfold Rate.rule f64Rule
        rw [hcap]
      rw [hcapacity]
      exact hrefilled.trans (F64.faster _ _ hslower _)
    · omega
  · exact .refl _ _

theorem shed_self (key : Key) (rate : Rate) (now : Nat) : (self.shed key rate now)[key]? = self.buckets[key]? := by
  unfold shed
  split
  · next hnew => simp [hnew.2]
  · rfl

theorem evictIdle_like (k : Key) (now : Nat) :
    TokenBucket.Like asSecsF64 (self.rateOf k).rule now (self.evictIdle now).buckets[k]? self.buckets[k]? := by
  unfold evictIdle
  split
  · exact .refl _ _
  · rw [ExtTreeMap.getElem?_filter']
    exact .filter (Rate.steady _) fun bucket _ hdropped => by simpa using hdropped

/-- A call that does not charge a key leaves its bucket as good as it was. -/
theorem serve_like (hcap : self.ip.capacity = self.vault.capacity) {call : LimiterCall}
    (hother : call.key ≠ some k)
    (h : (∀ key, (self.rateOf key).perMinute ≤ (self.rateOf k).perMinute) ∨ self.buckets.size < self.maxBuckets) :
    TokenBucket.Like asSecsF64 (self.rateOf k).rule now (self.serve now call).2.buckets[k]? self.buckets[k]? := by
  cases hkey : call.key with
  | none =>
    rw [serve_of_evict hkey]
    exact evictIdle_like k now
  | some key =>
    have hne : key ≠ k := fun heq => hother (heq ▸ hkey)
    have hsame : (self.rateOf key).capacity = (self.rateOf k).capacity := by
      cases key <;> cases k <;> simp [rateOf, hcap]
    rw [serve_of_key hkey]
    unfold check
    split
    · exact .refl _ _
    · split
      · exact .refl _ _
      · simp only [OrdMap.getElem?_insert, hne, if_false]
        exact shed_like hsame (h.imp_left fun hall => hall key)

/-- A call that charges a key answers, and leaves, what the bucket alone would. -/
theorem serve_charged (hpoisoned : self.poisoned = false) (hon : ¬ ((self.rateOf k).perMinute = 0 ∨ (self.rateOf k).capacity = 0))
    {call : LimiterCall} (hkey : call.key = some k) {b : Option (TokenBucket.Bucket F64)}
    (hlike : TokenBucket.Like asSecsF64 (self.rateOf k).rule t self.buckets[k]? b) (hle : t ≤ now) :
    (self.serve now call).1 =
        some ⟨now, k, (self.rateOf k).answer (TokenBucket.found asSecsF64 (self.rateOf k).rule b now).tokens⟩ ∧
      (self.serve now call).2.buckets[k]? = some (TokenBucket.found asSecsF64 (self.rateOf k).rule b now).spend := by
  have hfound := hlike now hle
  rw [serve_of_key hkey]
  unfold check
  rw [if_neg hon, hpoisoned]
  simp [shed_self, hfound]

@[simp] theorem poisoned_serve (self : RateLimiter) (now : Nat) (call : LimiterCall) :
    (self.serve now call).2.poisoned = self.poisoned := by
  rw [serve_frame]

@[simp] theorem ip_serve (self : RateLimiter) (now : Nat) (call : LimiterCall) :
    (self.serve now call).2.ip = self.ip := by
  rw [serve_frame]

@[simp] theorem vault_serve (self : RateLimiter) (now : Nat) (call : LimiterCall) :
    (self.serve now call).2.vault = self.vault := by
  rw [serve_frame]

@[simp] theorem maxBuckets_serve (self : RateLimiter) (now : Nat) (call : LimiterCall) :
    (self.serve now call).2.maxBuckets = self.maxBuckets := by
  rw [serve_frame]

@[simp] theorem rateOf_serve (self : RateLimiter) (now : Nat) (call : LimiterCall) (key : Key) :
    (self.serve now call).2.rateOf key = self.rateOf key := by
  cases key <;> simp [rateOf]

theorem checksOf_of_key {call : LimiterCall} (h : call.key = some k) (calls : List (Nat × LimiterCall)) :
    checksOf k ((now, call) :: calls) = now :: checksOf k calls := by simp [checksOf, h]

theorem checksOf_of_ne {call : LimiterCall} (h : call.key ≠ some k) (calls : List (Nat × LimiterCall)) :
    checksOf k ((now, call) :: calls) = checksOf k calls := by simp [checksOf, h]

theorem log_of_ne {call : LimiterCall} (h : call.key ≠ some k) (calls : List (Nat × LimiterCall)) :
    (self.log ((now, call) :: calls)).filter (fun c => c.key = k) =
      ((self.serve now call).2.log calls).filter (fun c => c.key = k) := by
  have hnone : (self.serve now call).1.toList.filter (fun c => c.key = k) = [] := by
    cases hk : call.key with
    | none => simp [serve_of_evict hk]
    | some key =>
      have hne : key ≠ k := fun heq => h (heq ▸ hk)
      simp [serve_of_key hk, hne]
  rw [log, List.filter_append, hnone, List.nil_append]

/-- No rate is faster than the key's, or the table always has room. -/
def Undisturbed (self : RateLimiter) (k : Key) (calls : List (Nat × LimiterCall)) : Prop :=
  (∀ key, (self.rateOf key).perMinute ≤ (self.rateOf k).perMinute) ∨
    ∀ earlier, earlier <+: calls → (self.after earlier).buckets.size < self.maxBuckets

theorem Undisturbed.head {calls : List (Nat × LimiterCall)} (h : self.Undisturbed k calls) :
    (∀ key, (self.rateOf key).perMinute ≤ (self.rateOf k).perMinute) ∨ self.buckets.size < self.maxBuckets :=
  h.imp_right fun hroom => hroom [] (List.nil_prefix)

theorem Undisturbed.tail {call : LimiterCall} {calls : List (Nat × LimiterCall)}
    (h : self.Undisturbed k ((now, call) :: calls)) : (self.serve now call).2.Undisturbed k calls := by
  refine h.imp ?_ ?_
  · intro hall key
    simpa using hall key
  · intro hroom earlier hearlier
    rw [maxBuckets_serve]
    exact hroom ((now, call) :: earlier) (List.cons_prefix_cons.mpr ⟨rfl, hearlier⟩)

/-- Through a run, a bucket alone answers what the table answers, and stays as good as the one in the table. -/
theorem run_alone {rate : Rate} (hon : ¬ (rate.perMinute = 0 ∨ rate.capacity = 0)) :
    ∀ (calls : List (Nat × LimiterCall)) {self : RateLimiter} {b : Option (TokenBucket.Bucket F64)} {t : Nat},
    self.rateOf k = rate → self.poisoned = false → self.ip.capacity = self.vault.capacity →
    self.Undisturbed k calls → TokenBucket.Like asSecsF64 rate.rule t self.buckets[k]? b →
    (∀ c ∈ calls, t ≤ c.1) → (calls.map Prod.fst).Pairwise (· ≤ ·) →
      (self.log calls).filter (fun c => c.key = k) = alone rate k b (checksOf k calls) ∧
      ∀ now, t ≤ now → (∀ c ∈ calls, c.1 ≤ now) →
        TokenBucket.Like asSecsF64 rate.rule now (self.after calls).buckets[k]?
          (TokenBucket.left asSecsF64 rate.rule b (checksOf k calls))
  | [], self, b, t, _, _, _, _, hlike, _, _ => by
    refine ⟨?_, fun now hle _ => hlike.mono hle⟩
    simp [log, alone, checksOf, TokenBucket.reads]
  | (now, call) :: calls, self, b, t, hrate, hpoisoned, hcap, hund, hlike, hafter, hsorted => by
    rw [List.map_cons, List.pairwise_cons] at hsorted
    have htnow : t ≤ now := hafter _ List.mem_cons_self
    have hlater : ∀ c ∈ calls, now ≤ c.1 := fun c hc => hsorted.1 _ (List.mem_map_of_mem hc)
    have hon' : ¬ ((self.rateOf k).perMinute = 0 ∨ (self.rateOf k).capacity = 0) := by rwa [hrate]
    have hrate' : (self.serve now call).2.rateOf k = rate := by simpa using hrate
    have hpoisoned' : (self.serve now call).2.poisoned = false := by simpa using hpoisoned
    have hcap' : (self.serve now call).2.ip.capacity = (self.serve now call).2.vault.capacity := by simpa using hcap
    -- a call that charges the key is answered from its bucket; any other leaves the bucket alike
    by_cases hkey : call.key = some k
    · rw [← hrate] at hlike
      obtain ⟨hanswer, hleft⟩ := serve_charged hpoisoned hon' hkey hlike htnow
      rw [hrate] at hanswer hleft
      have hnext : TokenBucket.Like asSecsF64 rate.rule now (self.serve now call).2.buckets[k]?
          (some (TokenBucket.found asSecsF64 rate.rule b now).spend) := by
        rw [hleft]
        exact .refl _ _
      obtain ⟨hlog, hend⟩ := run_alone hon calls hrate' hpoisoned' hcap' hund.tail hnext hlater hsorted.2
      rw [checksOf_of_key hkey]
      refine ⟨?_, ?_⟩
      · rw [log, hanswer]
        simp [hlog, alone, TokenBucket.reads, if_neg hon]
      · intro now' hle hbefore
        exact hend now' (hbefore _ List.mem_cons_self) fun c hc => hbefore c (List.mem_cons_of_mem _ hc)
    · have hnext : TokenBucket.Like asSecsF64 rate.rule now (self.serve now call).2.buckets[k]? b := by
        have hserve : TokenBucket.Like asSecsF64 (self.rateOf k).rule now (self.serve now call).2.buckets[k]? self.buckets[k]? :=
          serve_like hcap hkey hund.head
        rw [hrate] at hserve
        exact hserve.trans (hlike.mono htnow)
      obtain ⟨hlog, hend⟩ := run_alone hon calls hrate' hpoisoned' hcap' hund.tail hnext hlater hsorted.2
      rw [checksOf_of_ne hkey]
      refine ⟨(log_of_ne hkey calls).trans hlog, ?_⟩
      intro now' hle hbefore
      exact hend now' (hbefore _ List.mem_cons_self) fun c hc => hbefore c (List.mem_cons_of_mem _ hc)

theorem after_frame (calls : List (Nat × LimiterCall)) (self : RateLimiter) :
    self.after calls = { self with buckets := (self.after calls).buckets } := by
  induction calls generalizing self with
  | nil => rfl
  | cons c calls ih =>
    refine (ih (self.serve c.1 c.2).2).trans ?_
    simp only [poisoned_serve, ip_serve, vault_serve, maxBuckets_serve]
    rfl

theorem run_off {rate : Rate} (hoff : rate.perMinute = 0 ∨ rate.capacity = 0) :
    ∀ (calls : List (Nat × LimiterCall)) {self : RateLimiter}, self.rateOf k = rate →
      (self.log calls).filter (fun c => c.key = k) = (checksOf k calls).map fun t => ⟨t, k, .ok ()⟩
  | [], _, _ => by simp [log, checksOf]
  | (now, call) :: calls, self, hrate => by
    have ih := run_off hoff calls (show (self.serve now call).2.rateOf k = rate by simpa using hrate)
    have hoff' : (self.rateOf k).perMinute = 0 ∨ (self.rateOf k).capacity = 0 := by rwa [hrate]
    by_cases hkey : call.key = some k
    · rw [log, List.filter_append, ih, checksOf_of_key hkey]
      simp [serve_of_key hkey, check, hoff']
    · rw [log_of_ne hkey, ih, checksOf_of_ne hkey]

end RateLimiter

/-! ## Results -/

/-- Checks of a key that were admitted in a window. -/
def admitted (k : Key) (s u : Nat) (log : List Checked) : Nat :=
  log.countP fun c => c.key = k ∧ (s ≤ c.now ∧ c.now ≤ u) ∧ c.answer.isOk

variable {config : RateConfig} {k : Key} {calls : List (Nat × LimiterCall)}

/-- What a key is answered is what it would be answered with the limiter to itself. -/
theorem answers_alone (hsorted : (calls.map Prod.fst).Pairwise (· ≤ ·))
    (hund : (RateLimiter.new config).Undisturbed k calls) :
    ((RateLimiter.new config).log calls).filter (fun c => c.key = k) =
      alone ((RateLimiter.new config).rateOf k) k none (checksOf k calls) := by
  by_cases hoff : ((RateLimiter.new config).rateOf k).perMinute = 0 ∨
      ((RateLimiter.new config).rateOf k).capacity = 0
  · rw [RateLimiter.run_off hoff calls rfl, alone, if_pos hoff]
  · refine (RateLimiter.run_alone hoff calls rfl rfl rfl hund (t := 0) ?_ (fun _ _ => Nat.zero_le _) hsorted).1
    simpa [RateLimiter.new] using TokenBucket.Like.refl 0 none

/-- An eviction leaves the keys whose buckets, never forgotten, would be short of full. -/
theorem held_after_evict_iff (hsorted : (calls.map Prod.fst).Pairwise (· ≤ ·))
    (hund : (RateLimiter.new config).Undisturbed k calls) {rate : Rate}
    (hrate : (RateLimiter.new config).rateOf k = rate) (hon : ¬ (rate.perMinute = 0 ∨ rate.capacity = 0))
    {now : Nat} (hnow : ∀ c ∈ calls, c.1 ≤ now) :
    ((((RateLimiter.new config).after calls).evictIdle now).buckets[k]?).isSome ↔
      ∃ bucket, TokenBucket.left asSecsF64 rate.rule none (checksOf k calls) = some bucket ∧
        bucket.refilled asSecsF64 rate.rule now < rate.rule.capacity := by
  have hstart : TokenBucket.Like asSecsF64 rate.rule 0 (RateLimiter.new config).buckets[k]? none := by
    simpa [RateLimiter.new] using TokenBucket.Like.refl 0 none
  have hlike := (RateLimiter.run_alone hon calls hrate rfl rfl hund hstart (fun _ _ => Nat.zero_le _) hsorted).2
    now (Nat.zero_le _) hnow
  rw [← hlike.short_iff (Rate.steady _)]
  have hrate' : ((RateLimiter.new config).after calls).rateOf k = rate := by
    rw [RateLimiter.after_frame, ← hrate]
    cases k <;> rfl
  have hpoisoned : ((RateLimiter.new config).after calls).poisoned = false := by
    rw [RateLimiter.after_frame]
    rfl
  unfold RateLimiter.evictIdle
  rw [hpoisoned, if_neg Bool.false_ne_true, Option.isSome_iff_exists]
  refine exists_congr fun bucket => ?_
  rw [ExtTreeMap.getElem?_filter', Option.filter_eq_some_iff, hrate', decide_eq_true_eq]

theorem Rate.isOk_answer (rate : Rate) (tokens : F64) :
    (rate.answer tokens).isOk = decide (((1 : Nat) : F64) ≤ tokens) := by
  unfold Rate.answer
  split
  · next h => simp [h, Except.isOk, Except.toBool]
  · next h => simp [h, Except.isOk, Except.toBool]

/-- The admissions of a key are the tokens its bucket grants. -/
theorem admitted_eq {log : List Checked} {rate : Rate} (hon : ¬ (rate.perMinute = 0 ∨ rate.capacity = 0)) {ts : List Nat}
    (h : log.filter (fun c => c.key = k) = alone rate k none ts) (s u : Nat) :
    admitted k s u log = TokenBucket.granted s u (TokenBucket.reads asSecsF64 rate.rule none ts) := by
  have hfilter : admitted k s u log =
      (log.filter (fun c => c.key = k)).countP fun c => (s ≤ c.now ∧ c.now ≤ u) ∧ c.answer.isOk := by
    rw [List.countP_filter]
    refine List.countP_congr fun c _ => ?_
    simp [and_comm]
  rw [hfilter, h, alone, if_neg hon, List.countP_map]
  refine List.countP_congr fun p _ => ?_
  simp [Rate.isOk_answer]

theorem sorted_checksOf (hsorted : (calls.map Prod.fst).Pairwise (· ≤ ·)) (k : Key) :
    (checksOf k calls).Pairwise (· ≤ ·) := by
  have hsub : (checksOf k calls).Sublist (calls.map Prod.fst) := by
    have hmap : checksOf k calls = (calls.filter (fun c => c.2.key = some k)).map Prod.fst := by
      unfold checksOf
      rw [← List.filterMap_eq_map, ← List.filterMap_eq_filter, List.filterMap_filterMap]
      refine List.filterMap_congr fun c _ => ?_
      by_cases hc : c.2.key = some k <;> simp [hc, Option.guard]
    rw [hmap]
    exact List.filter_sublist.map _
  exact hsorted.sublist hsub

/-- The checks admitted in a window come to the burst, what the window refills, and the
rounding: a `2 ^ 50`th of the burst for each instant past the first at which the key is checked. -/
theorem admitted_le (hsorted : (calls.map Prod.fst).Pairwise (· ≤ ·))
    (hund : (RateLimiter.new config).Undisturbed k calls) {rate : Rate} (hrate : (RateLimiter.new config).rateOf k = rate)
    (hon : ¬ (rate.perMinute = 0 ∨ rate.capacity = 0)) {s u : Nat} (hsu : s ≤ u) :
    (admitted k s u ((RateLimiter.new config).log calls) : ℚ) ≤
      rate.capacity.val + rate.perMinute.val / (60 * 10 ^ 9) * ((u : ℚ) - s) +
        rate.capacity.val / 2 ^ 50 * TokenBucket.turns s u (checksOf k calls) := by
  have halone := answers_alone hsorted hund
  rw [hrate] at halone
  have hgranted := rate.counts.granted_le hsu (b := none) (fun _ h => nomatch h) (sorted_checksOf hsorted k)
  rw [admitted_eq hon halone]
  rwa [rate.val_capacity] at hgranted

/-- Checks that keep to the burst and the refill, less the rounding, in every window that
opens with one of them are all admitted. -/
theorem conforming_admitted (hsorted : (calls.map Prod.fst).Pairwise (· ≤ ·))
    (hund : (RateLimiter.new config).Undisturbed k calls) {rate : Rate} (hrate : (RateLimiter.new config).rateOf k = rate)
    (hwindows : ∀ s ∈ checksOf k calls, ∀ u, s ≤ u →
      TokenBucket.within s u (checksOf k calls) + rate.capacity.val / 2 ^ 50 * TokenBucket.turns s u (checksOf k calls) ≤
        rate.capacity.val + rate.perMinute.val / (60 * 10 ^ 9) * ((u : ℚ) - s)) :
    ∀ c ∈ (RateLimiter.new config).log calls, c.key = k → c.answer = .ok () := by
  intro c hmem hkey
  have hfiltered : c ∈ ((RateLimiter.new config).log calls).filter (fun c => c.key = k) :=
    List.mem_filter.mpr ⟨hmem, by simpa using hkey⟩
  rw [answers_alone hsorted hund, hrate, alone] at hfiltered
  split at hfiltered
  · obtain ⟨t, -, rfl⟩ := List.mem_map.mp hfiltered
    rfl
  · obtain ⟨p, hp, rfl⟩ := List.mem_map.mp hfiltered
    have hone := rate.counts.grants_all (sorted_checksOf hsorted k)
      (fun s hs u hsu => (hwindows s hs u hsu).trans_eq (by rw [rate.val_capacity])) p hp
    exact if_pos hone

/-! ## A worked run -/

/-- A limiter that takes two checks at once. -/
def RateConfig.sample : RateConfig := ⟨60, 60, 2⟩

/-- An address that checks three times at once, with a vault and an eviction in between. -/
def LimiterCall.sample : List (Nat × LimiterCall) :=
  let address := IpAddr.v4 (ByteArr.repeated 4 127)
  [(0, .checkIp address), (0, .checkVault ⟨ByteArr.repeated 16 1⟩), (0, .checkIp address), (5, .evictIdle),
    (5, .checkIp address)]

/-- The address of that run. -/
def Key.sample : Key := .ip (.v4 (ByteArr.repeated 4 127))

theorem undisturbed_sample (calls : List (Nat × LimiterCall)) : (RateLimiter.new RateConfig.sample).Undisturbed .sample calls := by
  refine .inl fun key => ?_
  cases key <;> exact le_rfl

/-- The address is answered as if nothing else had been called: its third check is refused. -/
theorem answers_alone_sample :
    ((RateLimiter.new RateConfig.sample).log LimiterCall.sample).filter (fun c => c.key = .sample) =
        alone ⟨60, 2⟩ .sample none [0, 0, 5] ∧
      (alone ⟨60, 2⟩ .sample none [0, 0, 5]).map Checked.answer = [.ok (), .ok (), .error ⟨1⟩] :=
  ⟨answers_alone (by decide) (undisturbed_sample _), by decide +kernel⟩

/-- The address is not forgotten while it is short of its burst. -/
theorem held_after_evict_iff_sample :
    ((((RateLimiter.new RateConfig.sample).after LimiterCall.sample).evictIdle 7).buckets[Key.sample]?).isSome :=
  (held_after_evict_iff (by decide) (undisturbed_sample _) rfl (by decide) (by decide)).mpr ⟨_, rfl, by decide +kernel⟩

/-- In its first five nanoseconds the address has two checks admitted, and no window gives it more. -/
theorem admitted_le_sample :
    (admitted .sample 0 5 ((RateLimiter.new RateConfig.sample).log LimiterCall.sample) : ℚ) ≤
      2 + 60 / (60 * 10 ^ 9) * 5 + 2 / 2 ^ 50 := by
  have hrate : (RateLimiter.new RateConfig.sample).rateOf .sample = ⟨60, 2⟩ := rfl
  have h := @admitted_le RateConfig.sample .sample LimiterCall.sample (by decide) (undisturbed_sample _) _ hrate (by decide) 0 5
    (by decide)
  have hturns : TokenBucket.turns 0 5 (checksOf .sample LimiterCall.sample) = 1 := by decide
  rw [hturns] at h
  refine h.trans_eq ?_
  norm_num

/-- Two checks at once keep to the burst, whatever the rounding. -/
theorem conforming_admitted_sample : checksOf .sample (LimiterCall.sample.take 3) = [0, 0] ∧
    ∀ c ∈ (RateLimiter.new RateConfig.sample).log (LimiterCall.sample.take 3), c.key = .sample → c.answer = .ok () := by
  have hchecks : checksOf .sample (LimiterCall.sample.take 3) = [0, 0] := by decide
  refine ⟨hchecks, @conforming_admitted RateConfig.sample .sample _ (by decide) (undisturbed_sample _) ⟨60, 2⟩ rfl ?_⟩
  intro s hs u hsu
  rw [hchecks] at hs ⊢
  obtain rfl : s = 0 := by simpa using hs
  have hcount : (TokenBucket.within 0 u [0, 0] : ℚ) ≤ 2 := by
    exact_mod_cast (List.countP_le_length : TokenBucket.within 0 u [0, 0] ≤ 2)
  have hturns : TokenBucket.turns 0 u [0, 0] = 0 := by simp [TokenBucket.turns]
  have hrefill : (0 : ℚ) ≤ ((60 : Fin (2 ^ 32)).val : ℚ) / (60 * 10 ^ 9) * ((u : ℚ) - (0 : Nat)) := by
    rw [Nat.cast_zero, sub_zero]
    positivity
  have hburst : ((2 : Fin (2 ^ 32)).val : ℚ) = 2 := by norm_num
  rw [hturns, Nat.cast_zero, mul_zero, add_zero]
  show _ ≤ ((2 : Fin (2 ^ 32)).val : ℚ) + ((60 : Fin (2 ^ 32)).val : ℚ) / (60 * 10 ^ 9) * ((u : ℚ) - (0 : Nat))
  linarith

end Misty
