import Misty.Server.Requests

/- Where sessions, challenges and devices come from: what is true of the tables and the
   log in every state, and what one store call needs to keep it (`Sound.run`). A call needs
   little: a challenge is stored under the hash of a value no challenge was stored under, a
   token for a session whose device has signed, a sponsored device for the session that
   asks. That the handlers call the store only so is `Server.Binding`. -/
namespace Misty

/-! ## The tables after a call -/

namespace Server.SqliteStore

/-- What `admit_device` comes to. -/
inductive Admitted (s : Server.SqliteStore) (vaultId : VaultId) (deviceId : DeviceId) (key : ByteArr 32)
    (sponsor : Option DeviceId) (now : Int) : Admission → Server.SqliteStore → Prop
  | present : s.device vaultId deviceId = some key → Admitted s vaultId deviceId key sponsor now .alreadyPresent s
  | refused {admission : Admission} : admission = .keyMismatch ∨ admission = .needsSponsor ∨ admission = .vaultLimit →
      Admitted s vaultId deviceId key sponsor now admission s
  | bootstrapped : s.device vaultId deviceId = none → s.vaults[vaultId]? = none → sponsor = none →
      Admitted s vaultId deviceId key sponsor now .bootstrapped
        ((s.insertVault vaultId now).insertDevice vaultId deviceId ⟨key, now, none⟩)
  | admitted {sponsoring : DeviceId} : s.device vaultId deviceId = none → (s.vaults[vaultId]?).isSome = true →
      sponsor = some sponsoring → Admitted s vaultId deviceId key sponsor now .admitted
        (s.insertDevice vaultId deviceId ⟨key, now, some sponsoring⟩)

variable (s : Server.SqliteStore) (vaultId : VaultId) (deviceId : DeviceId) (key : ByteArr 32) (sponsor : Option DeviceId)
  (now : Int) (maxVaults : Option Nat)

theorem admitted : Admitted s vaultId deviceId key sponsor now
    (s.admitDevice vaultId deviceId key sponsor now maxVaults).1
    (s.admitDevice vaultId deviceId key sponsor now maxVaults).2 := by
  unfold admitDevice
  cases hknown : s.device vaultId deviceId with
  | some known =>
    by_cases hkey : known = key
    · subst hkey
      simpa using .present hknown
    · simpa [hkey] using .refused (.inl rfl)
  | none =>
    cases hvault : s.vaults[vaultId]? with
    | none =>
      cases sponsor with
      | some p => simpa using .refused (.inr (.inl rfl))
      | none =>
        by_cases hlimit : maxVaults.any (fun max => decide (max ≤ s.vaults.size)) = true
        · simpa [hlimit] using .refused (.inr (.inr rfl))
        · simpa [hlimit] using .bootstrapped hknown hvault rfl
    | some t =>
      cases sponsor with
      | none => simpa using .refused (.inr (.inl rfl))
      | some p => simpa using .admitted hknown (by simp [hvault]) rfl

variable {s vaultId deviceId key sponsor now maxVaults}

theorem devices_serve {call : StoreCall}
    (h : ∀ vaultId deviceId key sponsor maxVaults, call ≠ .admitDevice vaultId deviceId key sponsor maxVaults) :
    (s.serve now call).2.devices = s.devices ∧ (s.serve now call).2.vaults = s.vaults := by
  by_cases hrelays : call.relays = true
  · obtain ⟨enrollments, hs⟩ := serve_relays s now hrelays
    rw [hs]
    exact ⟨rfl, rfl⟩
  cases call with
  | admitDevice vaultId deviceId key sponsor maxVaults => exact absurd rfl (h vaultId deviceId key sponsor maxVaults)
  | consumeRefreshToken tokenHash =>
    simp only [serve, consumeRefreshToken, revokeFamily]
    repeat' split
    all_goals exact ⟨rfl, rfl⟩
  | enrollBegin _ _ _ _ | enrollTakeRequest _ | enrollComplete _ _ | enrollTakeResponse _ => exact absurd rfl hrelays
  | _ => exact ⟨rfl, rfl⟩

theorem device_insertDevice {row : DeviceRow} {v : VaultId} {d : DeviceId} :
    (s.insertDevice vaultId deviceId row).device v d =
      if vaultId = v ∧ deviceId = d then some row.ed25519Pub else s.device v d := by
  simp only [device, insertDevice, OrdMap.getElem?_insert]
  by_cases h : vaultId = v ∧ deviceId = d
  · simp [h]
  · have hkey : ¬ toLex (vaultId, deviceId) = toLex (v, d) := by simpa using h
    simp [h, hkey]

theorem device_serve {v : VaultId} {d : DeviceId} (h : s.device v d = some key) (call : StoreCall) :
    (s.serve now call).2.device v d = some key := by
  by_cases hcall : ∀ vaultId deviceId key sponsor maxVaults, call ≠ .admitDevice vaultId deviceId key sponsor maxVaults
  · unfold device
    rw [(devices_serve hcall).1]
    exact h
  · simp only [ne_eq, not_forall, not_not] at hcall
    obtain ⟨vaultId, deviceId, presented, sponsor, maxVaults, rfl⟩ := hcall
    have hadmitted := admitted s vaultId deviceId presented sponsor now maxVaults
    show (s.admitDevice vaultId deviceId presented sponsor now maxVaults).2.device v d = some key
    -- a new row is that of a device that had none
    have hother : s.device vaultId deviceId = none → ¬ (vaultId = v ∧ deviceId = d) := by
      intro hnone hsame
      rw [hsame.1, hsame.2, h] at hnone
      cases hnone
    generalize (s.admitDevice vaultId deviceId presented sponsor now maxVaults).1 = admission at hadmitted
    generalize (s.admitDevice vaultId deviceId presented sponsor now maxVaults).2 = s' at hadmitted
    cases hadmitted with
    | present _ => exact h
    | refused _ => exact h
    | bootstrapped hnone _ _ =>
      rw [device_insertDevice, if_neg (hother hnone)]
      exact h
    | admitted hnone _ _ =>
      rw [device_insertDevice, if_neg (hother hnone)]
      exact h

end Server.SqliteStore

namespace Server.SqliteStore

variable {s : Server.SqliteStore} {now : Int} {k : TokenHash} {call : StoreCall}

/-- A challenge there after a call was there and not taken, or the call stored it. -/
theorem challenges_serve {row : ChallengeRow} (h : (s.serve now call).2.challenges[k]? = some row) :
    (s.challenges[k]? = some row ∧ call ≠ .takeChallenge k) ∨
      ∃ expiresAt, call = .putChallenge k row.challenge.vaultId row.challenge.deviceId expiresAt := by
  by_cases hrelays : call.relays = true
  · obtain ⟨enrollments, hs⟩ := serve_relays s now hrelays
    rw [hs] at h
    refine .inl ⟨h, ?_⟩
    intro hcall
    subst hcall
    cases hrelays
  cases call with
  | putChallenge nonceHash vaultId deviceId expiresAt =>
    simp only [serve, putChallenge, OrdMap.getElem?_insert] at h
    split at h
    · next hk =>
      cases h
      exact .inr ⟨expiresAt, by rw [hk]⟩
    · exact .inl ⟨h, by simp⟩
  | takeChallenge nonceHash =>
    simp only [serve, getElem?_challenges_takeChallenge] at h
    split at h
    · cases h
    · next hk => exact .inl ⟨h, by simpa using hk⟩
  | sweep => exact .inl ⟨(Expiry.live_eq_some.mp ((Expiry.getElem?_reap now s.challenges k).symm.trans h)).1, by simp⟩
  | admitDevice vaultId deviceId key sponsor maxVaults =>
    obtain ⟨vaults, devices, hs⟩ := serve_admitDevice s now vaultId deviceId key sponsor maxVaults
    rw [hs] at h
    exact .inl ⟨h, by simp⟩
  | consumeRefreshToken tokenHash =>
    simp only [serve, consumeRefreshToken] at h
    refine .inl ⟨?_, by simp⟩
    repeat' split at h
    all_goals exact h
  | enrollBegin _ _ _ _ | enrollTakeRequest _ | enrollComplete _ _ | enrollTakeResponse _ => exact absurd rfl hrelays
  | _ => exact .inl ⟨h, by simp⟩

theorem accessTokens_serve {row : AccessRow} (h : (s.serve now call).2.accessTokens[k]? = some row) :
    s.accessTokens[k]? = some row ∨ ∃ expiresAt, call = .putAccessToken k row.session expiresAt := by
  by_cases hrelays : call.relays = true
  · obtain ⟨enrollments, hs⟩ := serve_relays s now hrelays
    rw [hs] at h
    exact .inl h
  have hrevoke : ∀ family, (s.revokeFamily family now).accessTokens[k]? = some row → s.accessTokens[k]? = some row := by
    intro family hrow
    rw [getElem?_accessTokens_revokeFamily] at hrow
    exact (Option.filter_eq_some_iff.mp hrow).1
  cases call with
  | putAccessToken tokenHash session expiresAt =>
    simp only [serve, getElem?_accessTokens_putAccessToken] at h
    split at h
    · next hk =>
      cases h
      exact .inr ⟨expiresAt, by rw [hk]⟩
    · exact .inl h
  | consumeRefreshToken tokenHash =>
    refine .inl ?_
    have hc := consumed s tokenHash now
    simp only [serve] at h
    generalize (s.consumeRefreshToken tokenHash now).1 = outcome at hc
    generalize (s.consumeRefreshToken tokenHash now).2 = s' at hc h
    cases hc with
    | rejected => exact h
    | reused _ _ => exact hrevoke _ h
    | rotated _ _ => exact h
  | revokeFamily family => exact .inl (hrevoke family h)
  | sweep => exact .inl (Expiry.live_eq_some.mp ((Expiry.getElem?_reap now s.accessTokens k).symm.trans h)).1
  | admitDevice vaultId deviceId key sponsor maxVaults =>
    obtain ⟨vaults, devices, hs⟩ := serve_admitDevice s now vaultId deviceId key sponsor maxVaults
    rw [hs] at h
    exact .inl h
  | enrollBegin _ _ _ _ | enrollTakeRequest _ | enrollComplete _ _ | enrollTakeResponse _ => exact absurd rfl hrelays
  | _ => exact .inl h

theorem refreshTokens_serve {row : RefreshRow} (h : (s.serve now call).2.refreshTokens[k]? = some row) :
    (∃ old, s.refreshTokens[k]? = some old ∧ old.session = row.session) ∨
      ∃ expiresAt, call = .putRefreshToken k row.session expiresAt := by
  by_cases hrelays : call.relays = true
  · obtain ⟨enrollments, hs⟩ := serve_relays s now hrelays
    rw [hs] at h
    exact .inl ⟨row, h, rfl⟩
  cases call with
  | putRefreshToken tokenHash session expiresAt =>
    simp only [serve, getElem?_refreshTokens_putRefreshToken] at h
    split at h
    · next hk =>
      cases h
      exact .inr ⟨expiresAt, by rw [hk]⟩
    · exact .inl ⟨row, h, rfl⟩
  | consumeRefreshToken tokenHash =>
    refine .inl ?_
    have hc := consumed s tokenHash now
    simp only [serve] at h
    generalize (s.consumeRefreshToken tokenHash now).1 = outcome at hc
    generalize (s.consumeRefreshToken tokenHash now).2 = s' at hc h
    cases hc with
    | rejected => exact ⟨row, h, rfl⟩
    | reused _ _ => exact ⟨row, h, rfl⟩
    | @rotated old hold _ =>
      -- the row that is marked consumed keeps its session
      simp only [OrdMap.getElem?_insert] at h
      split at h
      · next hk =>
        cases h
        exact ⟨old, hk ▸ hold, rfl⟩
      · exact ⟨row, h, rfl⟩
  | sweep =>
    have hold := (Expiry.live_eq_some.mp ((Expiry.getElem?_reap now s.refreshTokens k).symm.trans h)).1
    exact .inl ⟨row, hold, rfl⟩
  | admitDevice vaultId deviceId key sponsor maxVaults =>
    obtain ⟨vaults, devices, hs⟩ := serve_admitDevice s now vaultId deviceId key sponsor maxVaults
    rw [hs] at h
    exact .inl ⟨row, h, rfl⟩
  | enrollBegin _ _ _ _ | enrollTakeRequest _ | enrollComplete _ _ | enrollTakeResponse _ => exact absurd rfl hrelays
  | _ => exact .inl ⟨row, h, rfl⟩

end Server.SqliteStore

/-! ## What has happened -/

/-- The call stores a token for a session. -/
def issues (session : Session) : StoreCall → Prop
  | .putAccessToken _ s _ => s = session
  | .putRefreshToken _ s _ => s = session
  | _ => False

/-- A challenge is stored under this hash. -/
def putsChallenge (nonceHash : TokenHash) : StoreOutcome → Bool
  | ⟨.putChallenge stored _ _ _, _⟩ => stored = nonceHash
  | _ => false

/-- A challenge is taken from under this hash. -/
def takesChallenge (nonceHash : TokenHash) : StoreOutcome → Bool
  | ⟨.takeChallenge taken, challenge⟩ => taken = nonceHash && (challenge : Option Challenge).isSome
  | _ => false

namespace AuthWorld

/-- A token was stored for a session. -/
def Issued (self : AuthWorld) (session : Session) : Prop := ∃ o ∈ self.log, issues session o.1

/-- A challenge was stored under a hash for the device of a vault. -/
def Challenged (self : AuthWorld) (nonceHash : TokenHash) (challenge : Challenge) : Prop :=
  ∃ expiresAt, ⟨.putChallenge nonceHash challenge.vaultId challenge.deviceId expiresAt, ()⟩ ∈ self.log

/-- A challenge was redeemed. -/
def Redeemed (self : AuthWorld) (nonceHash : TokenHash) (challenge : Challenge) : Prop :=
  ⟨.takeChallenge nonceHash, some challenge⟩ ∈ self.log

def puts (self : AuthWorld) (nonceHash : TokenHash) : Nat := self.log.countP (putsChallenge nonceHash)

def takes (self : AuthWorld) (nonceHash : TokenHash) : Nat := self.log.countP (takesChallenge nonceHash)

/-- A device signed a nonce it was challenged with, under the key that is stored for it. -/
structure Signed (P : AuthPrims) (w : AuthWorld) (vaultId : VaultId) (deviceId : DeviceId) (nonce : Bytes)
    (key : ByteArr 32) : Prop where
  presented : ∃ request, .verify request ∈ w.received ∧ request.vaultId = vaultId ∧ request.deviceId = deviceId ∧
    request.nonce = some nonce ∧ ∃ signature, request.sig = some signature ∧
      verifySignature P key vaultId deviceId nonce signature = true
  redeemed : w.Redeemed (tokenHash P nonce) ⟨vaultId, deviceId⟩
  stored : w.store.device vaultId deviceId = some key

/-- The device of a session signed. -/
def Backed (P : AuthPrims) (self : AuthWorld) (session : Session) : Prop :=
  ∃ nonce key, self.Signed P session.vaultId session.deviceId nonce key

/-- A session of a device of the vault was presented. -/
def Vouched (self : AuthWorld) (vaultId : VaultId) (sponsor : DeviceId) : Prop :=
  ∃ (tokenHash : TokenHash) (session : Session), ⟨.accessToken tokenHash, some session⟩ ∈ self.log ∧
    session.vaultId = vaultId ∧ session.deviceId = sponsor

/-- What time only adds to. -/
structure Later (w w' : AuthWorld) : Prop where
  log : w.log <:+ w'.log
  owner : ∀ {value : Bytes} {i : Nat}, w.owner value = some i → w'.owner value = some i
  received : w.received ⊆ w'.received
  device : ∀ {vaultId : VaultId} {deviceId : DeviceId} {key : ByteArr 32},
    w.store.device vaultId deviceId = some key → w'.store.device vaultId deviceId = some key

variable {P : AuthPrims} {w w' w₁ : AuthWorld}

theorem Later.refl (w : AuthWorld) : Later w w := ⟨List.suffix_refl _, id, fun _ => id, id⟩

theorem Later.trans (h : Later w w₁) (h' : Later w₁ w') : Later w w' :=
  ⟨h.log.trans h'.log, fun ho => h'.owner (h.owner ho), h.received.trans h'.received, fun hd => h'.device (h.device hd)⟩

theorem Later.run (w : AuthWorld) (now : Int) (call : StoreCall) : Later w (w.run now call) :=
  ⟨List.suffix_cons _ _, id, fun _ => id, fun hd => Server.SqliteStore.device_serve hd call⟩

theorem Later.issued (h : Later w w') {session : Session} : w.Issued session → w'.Issued session :=
  fun ⟨o, ho, hissues⟩ => ⟨o, h.log.subset ho, hissues⟩

theorem Later.challenged (h : Later w w') {k : TokenHash} {c : Challenge} : w.Challenged k c → w'.Challenged k c :=
  fun ⟨e, he⟩ => ⟨e, h.log.subset he⟩

theorem Later.signed (h : Later w w') {vaultId : VaultId} {deviceId : DeviceId} {nonce : Bytes} {key : ByteArr 32}
    (hs : w.Signed P vaultId deviceId nonce key) : w'.Signed P vaultId deviceId nonce key := by
  obtain ⟨request, hreceived, hrest⟩ := hs.presented
  exact ⟨⟨request, h.received hreceived, hrest⟩, h.log.subset hs.redeemed, h.device hs.stored⟩

theorem Later.backed (h : Later w w') {session : Session} : w.Backed P session → w'.Backed P session :=
  fun ⟨nonce, key, hs⟩ => ⟨nonce, key, h.signed hs⟩

theorem Later.vouched (h : Later w w') {vaultId : VaultId} {sponsor : DeviceId} :
    w.Vouched vaultId sponsor → w'.Vouched vaultId sponsor :=
  fun ⟨k, session, hmem, hrest⟩ => ⟨k, session, h.log.subset hmem, hrest⟩

theorem Later.answered {i : Nat} {q : AuthQuery} {a : q.Answer} (h : Answered i q w a w') : Later w w' := by
  cases h with
  | checkVault _ _ _ => exact .refl _
  | @randomArray n w value hfresh =>
    refine ⟨List.suffix_refl _, ?_, fun _ => id, id⟩
    intro other j hj
    show Function.update w.owner value.val (some i) other = some j
    by_cases hsame : other = value.val
    · rw [hsame, hfresh] at hj
      cases hj
    · rw [Function.update_of_ne hsame]
      exact hj
  | nowUnixMs _ => exact .refl _
  | store now call w => exact .run w now call

theorem Later.move (h : AuthMove w w') : Later w w' := by
  cases h with
  | received request => exact ⟨List.suffix_refl _, id, Set.subset_insert _ _, id⟩
  | swept now _ => exact .run w now .sweep
  | revoked family now => exact .run w now _
  | ticked _ => exact ⟨List.suffix_refl _, id, fun _ => id, id⟩

/-! ## Tokens -/

theorem log_run (w : AuthWorld) (now : Int) (call : StoreCall) :
    (w.run now call).log = ⟨call, (w.store.serve now call).1⟩ :: w.log := rfl

theorem mem_log_run {call own : StoreCall} {a : call.Answer} {now : Int}
    (h : (⟨call, a⟩ : StoreOutcome) ∈ (w.run now own).log) : (⟨call, a⟩ : StoreOutcome) ∈ w.log ∨
      own = call ∧ a = (w.store.serve now call).1 := by
  rcases List.mem_cons.mp h with heq | hmem
  · injection heq with hcall ha
    subst hcall
    exact .inr ⟨rfl, eq_of_heq ha⟩
  · exact .inl hmem

/-- A token there, or an answer from one, is for a session a token was stored for, and the device of one signed. -/
structure Sessions (P : AuthPrims) (w : AuthWorld) : Prop where
  access : ∀ {k : TokenHash} {row : AccessRow}, w.store.accessTokens[k]? = some row → w.Issued row.session
  refresh : ∀ {k : TokenHash} {row : RefreshRow}, w.store.refreshTokens[k]? = some row → w.Issued row.session
  resolved : ∀ {k : TokenHash} {session : Session}, ⟨.accessToken k, some session⟩ ∈ w.log → w.Issued session
  rotated : ∀ {k : TokenHash} {session : Session}, ⟨.consumeRefreshToken k, .rotated session⟩ ∈ w.log →
    w.Issued session
  backed : ∀ {session : Session}, w.Issued session → w.Backed P session

theorem issued_run (now : Int) {call : StoreCall} {session : Session} (h : issues session call) :
    (w.run now call).Issued session := ⟨_, List.mem_cons_self, h⟩

theorem Sessions.run (h : Sessions P w) {now : Int} {call : StoreCall}
    (hcall : ∀ session, issues session call → w.Backed P session) : Sessions P (w.run now call) := by
  have hlater := Later.run w now call
  refine ⟨?_, ?_, ?_, ?_, ?_⟩
  · intro k row hrow
    rcases Server.SqliteStore.accessTokens_serve hrow with hold | ⟨expiresAt, rfl⟩
    · exact hlater.issued (h.access hold)
    · exact issued_run now rfl
  · intro k row hrow
    rcases Server.SqliteStore.refreshTokens_serve hrow with ⟨old, hold, hsession⟩ | ⟨expiresAt, rfl⟩
    · rw [← hsession]
      exact hlater.issued (h.refresh hold)
    · exact issued_run now rfl
  · intro k session hmem
    rcases mem_log_run hmem with hold | ⟨rfl, hanswer⟩
    · exact hlater.issued (h.resolved hold)
    · -- the answer is that of a row
      obtain ⟨row, hrow, rfl⟩ := Option.map_eq_some_iff.mp (Eq.symm hanswer)
      exact hlater.issued (h.access (Expiry.live_eq_some.mp hrow).1)
  · intro k session hmem
    rcases mem_log_run hmem with hold | ⟨rfl, hanswer⟩
    · exact hlater.issued (h.rotated hold)
    · have hc := Server.SqliteStore.consumed w.store k now
      have houtcome : (w.store.consumeRefreshToken k now).1 = .rotated session := hanswer.symm
      rw [houtcome] at hc
      generalize (w.store.consumeRefreshToken k now).2 = s' at hc
      cases hc with
      | rotated hrow _ => exact hlater.issued (h.refresh hrow)
  · intro session ⟨o, ho, hissues⟩
    rcases List.mem_cons.mp ho with rfl | hold
    · exact hlater.backed (hcall session hissues)
    · exact hlater.backed (h.backed ⟨o, hold, hissues⟩)

/-! ## Challenges -/

/-- A challenge there, or redeemed, was stored; no more were taken or are there than were stored; and one at most is
stored under a hash, which is that of a value the server drew. -/
structure Nonces (P : AuthPrims) (w : AuthWorld) : Prop where
  row : ∀ {k : TokenHash} {row : ChallengeRow}, w.store.challenges[k]? = some row → w.Challenged k row.challenge
  redeemed : ∀ {k : TokenHash} {c : Challenge}, w.Redeemed k c → w.Challenged k c
  once : ∀ k : TokenHash, w.takes k + (if (w.store.challenges[k]?).isSome then 1 else 0) ≤ w.puts k
  fresh : ∀ k : TokenHash, w.puts k ≤ 1
  drawn : ∀ {k : TokenHash} {c : Challenge}, w.Challenged k c → ∃ nonce, (w.owner nonce).isSome = true ∧
    k = tokenHash P nonce

theorem puts_run (now : Int) (call : StoreCall) (k : TokenHash) : (w.run now call).puts k =
    w.puts k + if putsChallenge k ⟨call, (w.store.serve now call).1⟩ then 1 else 0 := List.countP_cons

theorem takes_run (now : Int) (call : StoreCall) (k : TokenHash) : (w.run now call).takes k =
    w.takes k + if takesChallenge k ⟨call, (w.store.serve now call).1⟩ then 1 else 0 := List.countP_cons

theorem putsChallenge_iff {k : TokenHash} {call : StoreCall} {a : call.Answer} : putsChallenge k ⟨call, a⟩ = true ↔
    ∃ vaultId deviceId expiresAt, call = .putChallenge k vaultId deviceId expiresAt := by
  cases call <;> simp [putsChallenge]

theorem takesChallenge_iff {k : TokenHash} {call : StoreCall} {now : Int} {s : Server.SqliteStore} :
    takesChallenge k ⟨call, (s.serve now call).1⟩ = true ↔
      call = .takeChallenge k ∧ (s.takeChallenge k now).1.isSome = true := by
  cases call with
  | takeChallenge taken =>
    simp only [takesChallenge, Bool.and_eq_true, decide_eq_true_iff, StoreCall.takeChallenge.injEq]
    constructor
    · intro ⟨hk, hsome⟩
      subst hk
      exact ⟨rfl, hsome⟩
    · intro ⟨hk, hsome⟩
      subst hk
      exact ⟨rfl, hsome⟩
  | _ => simp [takesChallenge]

theorem Nonces.run (h : Nonces P w) {now : Int} {call : StoreCall}
    (hcall : ∀ k vaultId deviceId expiresAt, call = .putChallenge k vaultId deviceId expiresAt →
      w.puts k = 0 ∧ ∃ nonce, (w.owner nonce).isSome = true ∧ k = tokenHash P nonce) : Nonces P (w.run now call) := by
  have hlater := Later.run w now call
  refine ⟨?_, ?_, ?_, ?_, ?_⟩
  -- a stored challenge was put there by some call
  · intro k row hrow
    rcases Server.SqliteStore.challenges_serve hrow with ⟨hold, _⟩ | ⟨expiresAt, rfl⟩
    · exact hlater.challenged (h.row hold)
    · exact ⟨expiresAt, List.mem_cons_self⟩
  -- a redeemed one was stored
  · intro k c hmem
    rcases mem_log_run hmem with hold | ⟨rfl, hanswer⟩
    · exact hlater.challenged (h.redeemed hold)
    · obtain ⟨row, hrow, rfl⟩ := Option.map_eq_some_iff.mp (Eq.symm hanswer)
      exact hlater.challenged (h.row (Expiry.live_eq_some.mp hrow).1)
  · intro k
    -- puts, takes and the row that is there keep in step
    have honce := h.once k
    rw [puts_run, takes_run]
    cases hrow : (w.run now call).store.challenges[k]? with
    | some row =>
      rcases Server.SqliteStore.challenges_serve hrow with ⟨hold, hkept⟩ | ⟨expiresAt, rfl⟩
      · -- it was there before, and this call does not take it
        have hno : takesChallenge k ⟨call, (w.store.serve now call).1⟩ = false := by
          rw [Bool.eq_false_iff, Ne, takesChallenge_iff]
          exact fun hboth => hkept hboth.1
        rw [hold] at honce
        simp only [hno, Option.isSome_some, if_true, Bool.false_eq_true, if_false] at honce ⊢
        omega
      · -- it is stored now
        have hput : putsChallenge k ⟨.putChallenge k row.challenge.vaultId row.challenge.deviceId expiresAt, ()⟩ = true := by
          simp [putsChallenge]
        simp only [Server.SqliteStore.serve, hput, takesChallenge, Option.isSome_some, if_true, Bool.false_eq_true, if_false]
        omega
    | none =>
      simp only [Option.isSome_none, Bool.false_eq_true, if_false]
      by_cases htakes : takesChallenge k ⟨call, (w.store.serve now call).1⟩ = true
      · -- what it takes was there
        obtain ⟨rfl, hsome⟩ := takesChallenge_iff.mp htakes
        obtain ⟨c, hc⟩ := Option.isSome_iff_exists.mp hsome
        obtain ⟨old, hold, _⟩ := Option.map_eq_some_iff.mp hc
        rw [(Expiry.live_eq_some.mp hold).1] at honce
        simp only [htakes, Option.isSome_some, if_true] at honce ⊢
        omega
      · simp only [htakes, Bool.false_eq_true, if_false]
        omega
  · intro k
    rw [puts_run]
    split
    · next hput =>
      obtain ⟨vaultId, deviceId, expiresAt, rfl⟩ := putsChallenge_iff.mp hput
      have hzero := (hcall k _ _ _ rfl).1
      omega
    · exact h.fresh k
  · intro k c hputs
    obtain ⟨expiresAt, hmem⟩ := hputs
    rcases mem_log_run hmem with hold | ⟨rfl, _⟩
    · exact h.drawn ⟨expiresAt, hold⟩
    · exact (hcall k _ _ _ rfl).2

/-! ## Devices -/

/-- The row of a device. -/
def deviceRow (w : AuthWorld) (vaultId : VaultId) (deviceId : DeviceId) : Option DeviceRow :=
  w.store.devices[toLex (vaultId, deviceId)]?

/-- A device's vault exists; one device of a vault at most has no sponsor; and a sponsor asked. -/
structure Devices (w : AuthWorld) : Prop where
  vault : ∀ {vaultId : VaultId} {deviceId : DeviceId} {row : DeviceRow}, w.deviceRow vaultId deviceId = some row →
    (w.store.vaults[vaultId]?).isSome = true
  founder : ∀ {vaultId : VaultId} {deviceId other : DeviceId} {row row' : DeviceRow},
    w.deviceRow vaultId deviceId = some row → w.deviceRow vaultId other = some row' → row.admittedBy = none →
    row'.admittedBy = none → deviceId = other
  vouched : ∀ {vaultId : VaultId} {deviceId sponsor : DeviceId} {row : DeviceRow},
    w.deviceRow vaultId deviceId = some row → row.admittedBy = some sponsor → w.Vouched vaultId sponsor

/-- A new row is the only one its vault and device have, and the others are as they were. -/
theorem deviceRow_insert {s : Server.SqliteStore} {vaultId v : VaultId} {deviceId d : DeviceId} {row new : DeviceRow}
    (h : (s.insertDevice vaultId deviceId new).devices[toLex (v, d)]? = some row) :
    (v = vaultId ∧ d = deviceId ∧ row = new) ∨ s.devices[toLex (v, d)]? = some row := by
  simp only [Server.SqliteStore.insertDevice, OrdMap.getElem?_insert] at h
  split at h
  · next hkey =>
    cases h
    obtain ⟨rfl, rfl⟩ : vaultId = v ∧ deviceId = d := by simpa using hkey
    exact .inl ⟨rfl, rfl, rfl⟩
  · exact .inr h

theorem Devices.congr (h : Devices w) (hdevices : w'.store.devices = w.store.devices)
    (hvaults : w'.store.vaults = w.store.vaults) (hlater : Later w w') : Devices w' := by
  have hrow : ∀ vaultId deviceId, w'.deviceRow vaultId deviceId = w.deviceRow vaultId deviceId := by
    intro vaultId deviceId
    simp only [deviceRow, hdevices]
  refine ⟨?_, ?_, ?_⟩
  · intro vaultId deviceId row h'
    rw [hvaults]
    exact h.vault ((hrow _ _).symm.trans h')
  · intro vaultId deviceId other row row' h₁ h₂
    exact h.founder ((hrow _ _).symm.trans h₁) ((hrow _ _).symm.trans h₂)
  · intro vaultId deviceId sponsor row h' hsponsor
    exact hlater.vouched (h.vouched ((hrow _ _).symm.trans h') hsponsor)

theorem Devices.bootstrapped (h : Devices w) {vaultId : VaultId} {deviceId : DeviceId} {row : DeviceRow} {now : Int}
    (hvault : w.store.vaults[vaultId]? = none) (hrow : row.admittedBy = none) (hlater : Later w w')
    (hstore : w'.store = (w.store.insertVault vaultId now).insertDevice vaultId deviceId row) : Devices w' := by
  have hnone : ∀ {d : DeviceId} {r : DeviceRow}, w.store.devices[toLex (vaultId, d)]? ≠ some r := by
    intro d r hr
    have hsome := h.vault hr
    rw [hvault] at hsome
    cases hsome
  refine ⟨?_, ?_, ?_⟩
  · intro v d r hr
    rw [hstore]
    show (((w.store.vaults.insert vaultId now)[v]?)).isSome = true
    rw [OrdMap.getElem?_insert]
    split
    · rfl
    · next hv =>
      rw [deviceRow, hstore] at hr
      rcases deviceRow_insert hr with ⟨rfl, _, _⟩ | hold
      · exact absurd rfl hv
      · exact h.vault hold
  · intro v d other r r' hr hr' hfounder hfounder'
    rw [deviceRow, hstore] at hr hr'
    rcases deviceRow_insert hr with ⟨rfl, rfl, rfl⟩ | hold
    · rcases deviceRow_insert hr' with ⟨_, rfl, rfl⟩ | hold'
      · rfl
      · exact absurd hold' hnone
    · rcases deviceRow_insert hr' with ⟨rfl, rfl, rfl⟩ | hold'
      · exact absurd hold hnone
      · exact h.founder hold hold' hfounder hfounder'
  · intro v d sponsor r hr hsponsor
    rw [deviceRow, hstore] at hr
    rcases deviceRow_insert hr with ⟨rfl, rfl, rfl⟩ | hold
    · rw [hrow] at hsponsor
      cases hsponsor
    · exact hlater.vouched (h.vouched hold hsponsor)

theorem Devices.admitted (h : Devices w) {vaultId : VaultId} {deviceId sponsor : DeviceId} {row : DeviceRow}
    (hvault : (w.store.vaults[vaultId]?).isSome = true) (hrow : row.admittedBy = some sponsor)
    (hvouched : w.Vouched vaultId sponsor) (hlater : Later w w')
    (hstore : w'.store = w.store.insertDevice vaultId deviceId row) : Devices w' := by
  refine ⟨?_, ?_, ?_⟩
  · intro v d r hr
    rw [deviceRow, hstore] at hr
    rw [hstore]
    rcases deviceRow_insert hr with ⟨rfl, _, _⟩ | hold
    · exact hvault
    · exact h.vault hold
  · intro v d other r r' hr hr' hfounder hfounder'
    rw [deviceRow, hstore] at hr hr'
    -- the new row has a sponsor
    have hold : ∀ {d : DeviceId} {r : DeviceRow}, (w.store.insertDevice vaultId deviceId row).devices[toLex (v, d)]? = some r →
        r.admittedBy = none → w.store.devices[toLex (v, d)]? = some r := by
      intro d r hr hnone
      rcases deviceRow_insert hr with ⟨_, _, rfl⟩ | hold
      · rw [hrow] at hnone
        cases hnone
      · exact hold
    exact h.founder (hold hr hfounder) (hold hr' hfounder') hfounder hfounder'
  · intro v d p r hr hsponsor
    rw [deviceRow, hstore] at hr
    rcases deviceRow_insert hr with ⟨rfl, rfl, rfl⟩ | hold
    · rw [hrow] at hsponsor
      cases hsponsor
      exact hlater.vouched hvouched
    · exact hlater.vouched (h.vouched hold hsponsor)

theorem Devices.run (h : Devices w) {now : Int} {call : StoreCall}
    (hcall : ∀ vaultId deviceId key sponsor maxVaults,
      call = .admitDevice vaultId deviceId key (some sponsor) maxVaults → w.Vouched vaultId sponsor) :
    Devices (w.run now call) := by
  have hlater := Later.run w now call
  by_cases hadmits : ∀ vaultId deviceId key sponsor maxVaults,
      call ≠ .admitDevice vaultId deviceId key sponsor maxVaults
  · have hserved : (w.store.serve now call).2.devices = w.store.devices ∧ (w.store.serve now call).2.vaults = w.store.vaults :=
      Server.SqliteStore.devices_serve hadmits
    exact h.congr hserved.1 hserved.2 hlater
  · simp only [ne_eq, not_forall, not_not] at hadmits
    obtain ⟨vaultId, deviceId, key, sponsor, maxVaults, rfl⟩ := hadmits
    have hadmitted := Server.SqliteStore.admitted w.store vaultId deviceId key sponsor now maxVaults
    have hstore : (w.run now (.admitDevice vaultId deviceId key sponsor maxVaults)).store =
        (w.store.admitDevice vaultId deviceId key sponsor now maxVaults).2 := rfl
    generalize (w.store.admitDevice vaultId deviceId key sponsor now maxVaults).1 = admission at hadmitted
    generalize (w.store.admitDevice vaultId deviceId key sponsor now maxVaults).2 = s' at hadmitted hstore
    cases hadmitted with
    | present _ => exact h.congr (by rw [hstore]) (by rw [hstore]) hlater
    | refused _ => exact h.congr (by rw [hstore]) (by rw [hstore]) hlater
    | bootstrapped _ hvault _ => exact h.bootstrapped hvault rfl hlater hstore
    | admitted _ hvault hsponsor =>
      subst hsponsor
      exact h.admitted hvault rfl (hcall _ _ _ _ _ rfl) hlater hstore

/-! ## All of it -/

/-- Where everything comes from. -/
structure Sound (P : AuthPrims) (w : AuthWorld) : Prop where
  sessions : Sessions P w
  nonces : Nonces P w
  devices : Devices w

/-- What a call of the handler at a place needs. -/
def Allowed (P : AuthPrims) (i : Nat) (w : AuthWorld) : StoreCall → Prop
  | .putChallenge k _ _ _ => w.puts k = 0 ∧ ∃ nonce, w.owner nonce = some i ∧ k = tokenHash P nonce
  | .putAccessToken _ session _ => w.Backed P session
  | .putRefreshToken _ session _ => w.Backed P session
  | .admitDevice vaultId _ _ (some sponsor) _ => w.Vouched vaultId sponsor
  | _ => True

theorem Sound.new : Sound P .new := by
  refine ⟨⟨?_, ?_, ?_, ?_, ?_⟩, ⟨?_, ?_, ?_, ?_, ?_⟩, ⟨?_, ?_, ?_⟩⟩
  · intro k row hrow
    simp [AuthWorld.new, Server.SqliteStore.new] at hrow
  · intro k row hrow
    simp [AuthWorld.new, Server.SqliteStore.new] at hrow
  · intro k session hmem
    cases hmem
  · intro k session hmem
    cases hmem
  · intro session ⟨o, ho, _⟩
    cases ho
  · intro k row hrow
    simp [AuthWorld.new, Server.SqliteStore.new] at hrow
  · intro k c hmem
    cases hmem
  · intro k
    simp [AuthWorld.new, Server.SqliteStore.new, takes, puts]
  · intro k
    simp [AuthWorld.new, puts]
  · intro k c ⟨e, hmem⟩
    cases hmem
  · intro vaultId deviceId row hrow
    simp [AuthWorld.new, Server.SqliteStore.new, deviceRow] at hrow
  · intro vaultId deviceId other row row' hrow
    simp [AuthWorld.new, Server.SqliteStore.new, deviceRow] at hrow
  · intro vaultId deviceId sponsor row hrow
    simp [AuthWorld.new, Server.SqliteStore.new, deviceRow] at hrow

theorem Sound.run (h : Sound P w) {now : Int} {call : StoreCall} {i : Nat} (hcall : Allowed P i w call) :
    Sound P (w.run now call) := by
  refine ⟨h.sessions.run ?_, h.nonces.run ?_, h.devices.run ?_⟩
  · intro session hissues
    cases call with
    | putAccessToken _ s _ =>
      obtain rfl : s = session := hissues
      exact hcall
    | putRefreshToken _ s _ =>
      obtain rfl : s = session := hissues
      exact hcall
    | _ => exact hissues.elim
  · intro k vaultId deviceId expiresAt heq
    subst heq
    obtain ⟨hzero, nonce, howner, hk⟩ := hcall
    exact ⟨hzero, nonce, by rw [howner]; rfl, hk⟩
  · intro vaultId deviceId key sponsor maxVaults heq
    subst heq
    exact hcall

theorem Sound.later (h : Sound P w) (hlater : Later w w') (hlog : w'.log = w.log) (hstore : w'.store = w.store) :
    Sound P w' := by
  refine ⟨⟨?_, ?_, ?_, ?_, ?_⟩, ⟨?_, ?_, ?_, ?_, ?_⟩, h.devices.congr (by rw [hstore]) (by rw [hstore]) hlater⟩
  · rw [hstore]
    exact fun hrow => hlater.issued (h.sessions.access hrow)
  · rw [hstore]
    exact fun hrow => hlater.issued (h.sessions.refresh hrow)
  · rw [hlog]
    exact fun hmem => hlater.issued (h.sessions.resolved hmem)
  · rw [hlog]
    exact fun hmem => hlater.issued (h.sessions.rotated hmem)
  · intro session hissued
    simp only [Issued, hlog] at hissued
    exact hlater.backed (h.sessions.backed hissued)
  · rw [hstore]
    exact fun hrow => hlater.challenged (h.nonces.row hrow)
  · intro k c hmem
    simp only [Redeemed, hlog] at hmem
    exact hlater.challenged (h.nonces.redeemed hmem)
  · simp only [takes, puts, hlog, hstore]
    exact h.nonces.once
  · simp only [puts, hlog]
    exact h.nonces.fresh
  · intro k c hchallenged
    simp only [Challenged, hlog] at hchallenged
    obtain ⟨nonce, howner, hk⟩ := h.nonces.drawn hchallenged
    obtain ⟨i, hi⟩ := Option.isSome_iff_exists.mp howner
    exact ⟨nonce, by rw [hlater.owner hi]; rfl, hk⟩

theorem Sound.answered (h : Sound P w) {i : Nat} {q : AuthQuery} {a : q.Answer} (ht : Answered i q w a w')
    (hcall : ∀ now call, q = .store now call → Allowed P i w call) : Sound P w' := by
  have hlater := Later.answered ht
  cases ht with
  | checkVault _ _ _ => exact h
  | randomArray _ _ => exact h.later hlater rfl rfl
  | nowUnixMs _ => exact h
  | store now call w => exact h.run (hcall now call rfl)

theorem Sound.move (h : Sound P w) (hm : AuthMove w w') : Sound P w' := by
  have hlater := Later.move hm
  cases hm with
  | received request => exact h.later hlater rfl rfl
  | swept now _ => exact h.run (i := 0) trivial
  | revoked family now => exact h.run (i := 0) trivial
  | ticked _ => exact h.later hlater rfl rfl

end AuthWorld

end Misty
