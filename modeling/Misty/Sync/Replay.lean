import Misty.Sync.Roster

/- A server that keeps every roster it was given. Honest devices seal rosters, and the
   client is presented any of those, as often as the server likes, and adopts what it
   opens. A run is the events so far, the newest first.

   A roster carries no revision, and `check_successor` compares nothing of the two rosters
   but the signer's key. So an old roster, signed by a device that is still a member, is
   adopted again, and with it a device that was removed since (`revoked_device_returns`).
   Where no roster sealed before a removal brings the device back, the check of the signer
   is enough: who comes back was signed for since, by a member of the roster trusted just
   before (`revoked_stays_revoked`). -/
namespace Misty

/-- What happens to rosters. -/
inductive RosterEvent where
  | sealed (roster : Roster) (envelope : Bytes)
  | adopted (roster : Roster)

/-- The roster trusted: the last one adopted. -/
def trustedIn : List RosterEvent → Option Roster
  | [] => none
  | .adopted roster :: _ => some roster
  | .sealed _ _ :: before => trustedIn before

/-- The device is in the roster. -/
def Roster.Has (self : Roster) (id : DeviceId) : Prop := (self.contains id).isSome = true

instance (self : Roster) (id : DeviceId) : Decidable (self.Has id) := inferInstanceAs (Decidable (_ = true))

/-- What is written of a roster reads back as it. -/
def ReadsBack (cbor : Roster → Option Bytes) (fromCbor : Bytes → Option Roster) : Prop :=
  ∀ roster bytes, cbor roster = some bytes → fromCbor bytes = some roster

variable (E : Externals) (cbor : Roster → Option Bytes) (fromCbor : Bytes → Option Roster) (vaultKey : ByteArr 32)

/-- A run: some device seals a roster, or the client is presented one that was sealed and adopts what it opens. `C` narrows
what it is presented. -/
inductive RosterRun (C : List RosterEvent → Roster → Prop) (anchor : Roster) : List RosterEvent → Prop
  | start : RosterRun C anchor [.adopted anchor]
  | sealed {log : List RosterEvent} {draw : SealDraw} {roster : Roster} {epoch : U32} {identity : DeviceIdentity}
      {itemId : ItemId} {envelope : Bytes} : RosterRun C anchor log →
      sealRoster E cbor draw roster vaultKey epoch identity = .ok (itemId, envelope) →
      RosterRun C anchor (.sealed roster envelope :: log)
  | adopted {log : List RosterEvent} {roster current next : Roster} {envelope : Bytes} {itemId : ItemId} :
      RosterRun C anchor log → .sealed roster envelope ∈ log → trustedIn log = some current → C log roster →
      openRoster E fromCbor envelope itemId vaultKey current = .ok next → RosterRun C anchor (.adopted next :: log)

/-- The device was removed when `now` was adopted, and `later` is what has happened since. -/
def RemovedBy (log later : List RosterEvent) (now : Roster) (before : List RosterEvent) (id : DeviceId) : Prop :=
  log = later ++ .adopted now :: before ∧ ¬ now.Has id ∧ ∃ prev, trustedIn before = some prev ∧ prev.Has id

/-- A roster with the device was sealed since, and adopted by who trusted one without it; it is signed by a device of that
one, under the key it has there. -/
def PutBack (P : Primitives) (later : List RosterEvent) (now : Roster) (before : List RosterEvent) (id : DeviceId) : Prop :=
  ∃ rest earlier current roster envelope, later = rest ++ .adopted roster :: earlier ∧
    trustedIn (earlier ++ .adopted now :: before) = some current ∧ ¬ current.Has id ∧ roster.Has id ∧
    .sealed roster envelope ∈ earlier ∧ current.Succeeds P roster

/-- A device that was removed is in no roster adopted since, unless it was put back. -/
def StaysRevoked (P : Primitives) (log : List RosterEvent) : Prop :=
  ∀ later now before id, RemovedBy log later now before id → ∀ next, .adopted next ∈ later → next.Has id →
    PutBack P later now before id

/-- A roster with a device that was removed and is still out was sealed since the removal. -/
def NotReplayed (log : List RosterEvent) (roster : Roster) : Prop :=
  ∀ later now before id, RemovedBy log later now before id → (∀ next, .adopted next ∈ later → ¬ next.Has id) →
    roster.Has id → ∃ envelope, .sealed roster envelope ∈ later

variable {E cbor fromCbor vaultKey}

theorem encodeRoster_ok {roster : Roster} {payload : Bytes} (h : encodeRoster cbor roster = .ok payload) :
    cbor roster = some payload := by
  obtain ⟨bytes, hbytes, h⟩ := bind_eq_ok.mp h
  split at h
  · cases h
  · cases h
    cases hc : cbor roster with
    | none =>
      rw [hc] at hbytes
      cases hbytes
    | some b =>
      rw [hc] at hbytes
      cases hbytes
      rfl

theorem openRoster_sealed (hP : E.prims.Correct) (hcbor : ReadsBack cbor fromCbor)
    {draw : SealDraw} {roster current next : Roster} {epoch : U32} {identity : DeviceIdentity} {address itemId : ItemId}
    {envelope : Bytes} (hseal : sealRoster E cbor draw roster vaultKey epoch identity = .ok (address, envelope))
    (hopen : openRoster E fromCbor envelope itemId vaultKey current = .ok next) : next = roster := by
  obtain ⟨_, _, hseal⟩ := bind_eq_ok.mp hseal
  split at hseal
  · cases hseal
  obtain ⟨_, haddress, hseal⟩ := bind_eq_ok.mp hseal
  obtain ⟨payload, hpayload, hseal⟩ := bind_eq_ok.mp hseal
  obtain ⟨key, hkey, hseal⟩ := bind_eq_ok.mp hseal
  obtain ⟨_, hsealed, hseal⟩ := bind_eq_ok.mp hseal
  cases hseal
  obtain ⟨env, hs⟩ := seal_sealed hP (mapError_eq_ok.mp hsealed)
  obtain ⟨address', haddress', hopen⟩ := bind_eq_ok.mp hopen
  split at hopen
  · cases hopen
  next hitem =>
  rw [haddress] at haddress'
  cases haddress'
  rw [not_not] at hitem
  subst hitem
  obtain ⟨parsed, hparsed, hopen⟩ := bind_eq_ok.mp hopen
  have hsame : env = parsed := by
    have hboth := hs.parses.symm.trans (mapError_eq_ok.mp hparsed)
    cases hboth
    rfl
  subst hsame
  split at hopen
  · cases hopen
  obtain ⟨_, _, hopen⟩ := bind_eq_ok.mp hopen
  obtain ⟨key', hkey', hopen⟩ := bind_eq_ok.mp hopen
  obtain ⟨payload', hpayload', hopen⟩ := bind_eq_ok.mp hopen
  split at hopen
  · cases hopen
  obtain ⟨read, hread, hopen⟩ := bind_eq_ok.mp hopen
  obtain ⟨_, _, hopen⟩ := bind_eq_ok.mp hopen
  cases hopen
  -- the key is that of the epoch in the header, so the payload is what was sealed
  have hkeys : key' = key := by
    rw [hs.epoch_eq] at hkey'
    have hkey := mapError_eq_ok.mp hkey
    have hkey' := mapError_eq_ok.mp hkey'
    rw [epochKey_eq] at hkey hkey'
    cases hkey
    cases hkey'
    rfl
  have hpayloads : payload' = payload := by
    rw [hkeys] at hpayload'
    have hboth := hs.decrypts.symm.trans (mapError_eq_ok.mp hpayload')
    cases hboth
    rfl
  have hread' : fromCbor payload' = some next := by
    cases hf : fromCbor payload' with
    | none =>
      rw [hf] at hread
      cases hread
    | some r =>
      rw [hf] at hread
      cases hread
      rfl
  have hwritten := hcbor roster payload (encodeRoster_ok hpayload)
  rw [hpayloads, hwritten] at hread'
  cases hread'
  rfl

/-! ## A device that comes back -/

theorem trustedIn_append {now current : Roster} {before : List RosterEvent} : ∀ {later : List RosterEvent},
    trustedIn (later ++ .adopted now :: before) = some current → current = now ∨ .adopted current ∈ later
  | [], h => by
    cases h
    exact .inl rfl
  | .adopted roster :: later, h => by
    cases h
    exact .inr List.mem_cons_self
  | .sealed _ _ :: later, h => by
    have hrest : trustedIn (later ++ .adopted now :: before) = some current := h
    rcases trustedIn_append hrest with heq | hmem
    · exact .inl heq
    · exact .inr (List.mem_cons_of_mem _ hmem)

variable {C : List RosterEvent → Roster → Prop} {anchor : Roster} {log : List RosterEvent}

theorem sealed_of_mem (h : RosterRun E cbor fromCbor vaultKey C anchor log)
    {roster : Roster} {envelope : Bytes} (hmem : .sealed roster envelope ∈ log) : ∃ draw epoch identity itemId,
      sealRoster E cbor draw roster vaultKey epoch identity = .ok (itemId, envelope) := by
  induction h with
  | start =>
    rcases List.mem_cons.mp hmem with heq | hnil
    · cases heq
    · cases hnil
  | sealed _ hseal ih =>
    rcases List.mem_cons.mp hmem with heq | hbefore
    · cases heq
      exact ⟨_, _, _, _, hseal⟩
    · exact ih hbefore
  | adopted _ _ _ _ _ ih =>
    rcases List.mem_cons.mp hmem with heq | hbefore
    · cases heq
    · exact ih hbefore

theorem PutBack.cons {P : Primitives} {later before : List RosterEvent} {now : Roster} {id : DeviceId}
    (h : PutBack P later now before id) (event : RosterEvent) : PutBack P (event :: later) now before id := by
  obtain ⟨rest, earlier, current, roster, envelope, rfl, hrest⟩ := h
  exact ⟨event :: rest, earlier, current, roster, envelope, rfl, hrest⟩

theorem not_removedBy_start {later before : List RosterEvent} {now : Roster} {id : DeviceId} :
    ¬ RemovedBy [.adopted anchor] later now before id := by
  intro h
  obtain ⟨hlog, -, prev, htrusted, -⟩ := h
  cases later with
  | nil =>
    cases hlog
    cases htrusted
  | cons event later =>
    have hlength := congrArg List.length hlog
    simp at hlength

theorem RemovedBy.of_cons {event : RosterEvent} {later before : List RosterEvent} {now : Roster} {id : DeviceId}
    (h : RemovedBy (event :: log) (event :: later) now before id) : RemovedBy log later now before id :=
  ⟨(List.cons.inj h.1).2, h.2⟩

/-- By induction on the run: the first roster with the device again is adopted by who trusts one without it, and so is signed
by a device of that one; that it was sealed since is the condition. -/
theorem revoked_stays_revoked (hP : E.prims.Correct) (hcbor : ReadsBack cbor fromCbor)
    (h : RosterRun E cbor fromCbor vaultKey NotReplayed anchor log) : StaysRevoked E.prims log := by
  induction h with
  | start => exact fun _ _ _ _ hremoved => absurd hremoved not_removedBy_start
  | @sealed log _ roster _ _ _ envelope hrun _ ih =>
    intro later now before id hremoved next hmem hnext
    cases later with
    | nil => cases hmem
    | cons event later =>
      obtain rfl := (List.cons.inj hremoved.1).1
      refine (ih later now before id hremoved.of_cons next ?_ hnext).cons _
      exact (List.mem_cons.mp hmem).resolve_left (by simp)
  | @adopted log roster current next' envelope itemId hrun hsealed htrusted hnew hopen ih =>
    intro later now before id hremoved next hmem hnext
    cases later with
    | nil => cases hmem
    | cons event later =>
      obtain rfl := (List.cons.inj hremoved.1).1
      have hbefore := hremoved.of_cons
      by_cases hback : ∃ r, .adopted r ∈ later ∧ r.Has id
      · -- it was there already
        obtain ⟨r, hr, hhas⟩ := hback
        exact (ih later now before id hbefore r hr hhas).cons _
      · have hout : ∀ r, .adopted r ∈ later → ¬ r.Has id := fun r hr hhas => hback ⟨r, hr, hhas⟩
        rcases List.mem_cons.mp hmem with heq | hlater
        swap
        · exact absurd hnext (hout next hlater)
        cases heq
        obtain ⟨_, _, _, _, hseal⟩ := sealed_of_mem hrun hsealed
        have hroster := openRoster_sealed hP hcbor hseal hopen
        subst hroster
        rw [hbefore.1] at htrusted
        -- nothing trusted since the removal has the device
        have hcurrent : ¬ current.Has id := by
          rcases trustedIn_append htrusted with heq | hadopted
          · rw [heq]
            exact hbefore.2.1
          · exact hout current hadopted
        obtain ⟨since, hsince⟩ := hnew later now before id hbefore hout hnext
        exact ⟨[], later, current, _, since, rfl, htrusted, hcurrent, hnext, hsince,
          (checkSuccessor_ok (openRoster_ok hopen)).2⟩

/-! ## An old roster again -/

/-- The CBOR of two rosters, of devices 1 and 2 and of device 1. -/
def twoCbor (roster : Roster) : Option Bytes :=
  if roster = .sample [1, 2] then some [2] else if roster = .sample [1] then some [1] else none

def twoFromCbor (bytes : Bytes) : Option Roster :=
  if bytes = [2] then some (.sample [1, 2]) else if bytes = [1] then some (.sample [1]) else none

theorem twoCbor_reads : ReadsBack twoCbor twoFromCbor := by
  intro roster bytes h
  unfold twoCbor at h
  split at h
  · next heq =>
    cases h
    rw [heq]
    rfl
  · split at h
    · next heq =>
      cases h
      rw [heq]
      rfl
    · cases h

/-- Device 1 seals them. -/
def twoSealed (devices : List Byte) : Except SyncError (ItemId × Bytes) :=
  sealRoster (.sample [] []) twoCbor ⟨.ok (.repeated 32 0), .ok (.repeated 24 0, .repeated 24 0)⟩ (.sample devices)
    (.repeated 32 7) 0 (.sample 1)

/-- Opened by a client that trusts the other. -/
def twoOpened (devices trusted : List Byte) : Except SyncError Roster := do
  let (itemId, envelope) ← twoSealed devices
  openRoster (.sample [] []) twoFromCbor envelope itemId (.repeated 32 7) (.sample trusted)

theorem two_opened {devices trusted : List Byte}
    (h : (twoOpened devices trusted).toOption.any (fun roster => roster = .sample devices) = true) :
    ∃ itemId envelope, twoSealed devices = .ok (itemId, envelope) ∧
      openRoster (.sample [] []) twoFromCbor envelope itemId (.repeated 32 7) (.sample trusted) = .ok (.sample devices) := by
  obtain ⟨roster, hopened, heq⟩ := exists_of_toOption_any h
  obtain ⟨⟨itemId, envelope⟩, hseal, hopen⟩ := bind_eq_ok.mp hopened
  rw [of_decide_eq_true heq] at hopen
  exact ⟨itemId, envelope, hseal, hopen⟩

theorem two_removed : ∃ itemId envelope, twoSealed [1] = .ok (itemId, envelope) ∧
    openRoster (.sample [] []) twoFromCbor envelope itemId (.repeated 32 7) (.sample [1, 2]) = .ok (.sample [1]) :=
  two_opened (by decide +kernel)

theorem two_again : ∃ itemId envelope, twoSealed [1, 2] = .ok (itemId, envelope) ∧
    openRoster (.sample [] []) twoFromCbor envelope itemId (.repeated 32 7) (.sample [1]) = .ok (.sample [1, 2]) :=
  two_opened (by decide +kernel)

/-- Device 2 is removed and enrolled again: who comes back was signed for by device 1, since. -/
theorem revoked_stays_revoked_enrolled : ∃ first second : Bytes,
    RosterRun (.sample [] []) twoCbor twoFromCbor (.repeated 32 7) NotReplayed (.sample [1, 2])
      [.adopted (.sample [1, 2]), .sealed (.sample [1, 2]) first, .adopted (.sample [1]), .sealed (.sample [1]) second,
        .adopted (.sample [1, 2])] ∧
    PutBack .sample [.adopted (.sample [1, 2]), .sealed (.sample [1, 2]) first] (.sample [1])
      [.sealed (.sample [1]) second, .adopted (.sample [1, 2])] (DeviceIdentity.sample 2).deviceId := by
  obtain ⟨itemId₁, second, hseal₁, hopen₁⟩ := two_removed
  obtain ⟨itemId₂, first, hseal₂, hopen₂⟩ := two_again
  have hnow : ¬ (Roster.sample [1]).Has (DeviceIdentity.sample 2).deviceId := by decide
  have hnext : (Roster.sample [1, 2]).Has (DeviceIdentity.sample 2).deviceId := by decide
  -- nobody was removed before device 2
  have hremoves : NotReplayed [.sealed (.sample [1]) second, .adopted (.sample [1, 2])] (.sample [1]) := by
    intro later now before id hremoved _ _
    cases later with
    | nil => cases hremoved.1
    | cons event later =>
      obtain rfl := (List.cons.inj hremoved.1).1
      exact absurd hremoved.of_cons not_removedBy_start
  have hreturns : NotReplayed [.sealed (.sample [1, 2]) first, .adopted (.sample [1]), .sealed (.sample [1]) second,
      .adopted (.sample [1, 2])] (.sample [1, 2]) := by
    intro later now before id hremoved _ _
    cases later with
    | nil => cases hremoved.1
    | cons event later =>
      obtain rfl := (List.cons.inj hremoved.1).1
      exact ⟨first, List.mem_cons_self⟩
  have hrun : RosterRun (.sample [] []) twoCbor twoFromCbor (.repeated 32 7) NotReplayed (.sample [1, 2])
      [.adopted (.sample [1, 2]), .sealed (.sample [1, 2]) first, .adopted (.sample [1]), .sealed (.sample [1]) second,
        .adopted (.sample [1, 2])] :=
    .adopted (.sealed (.adopted (.sealed .start hseal₁) List.mem_cons_self rfl hremoves hopen₁) hseal₂) List.mem_cons_self rfl
      hreturns hopen₂
  refine ⟨first, second, hrun, ?_⟩
  exact revoked_stays_revoked Primitives.sample_correct twoCbor_reads hrun _ _ _ _ ⟨rfl, hnow, _, rfl, hnext⟩ _
    List.mem_cons_self hnext

/-- A revoked device returns: the client adopts the roster without device 2, and then the first one again, that was sealed
before. -/
theorem revoked_device_returns : ¬ ∀ (E : Externals) (cbor : Roster → Option Bytes) (fromCbor : Bytes → Option Roster)
    (vaultKey : ByteArr 32), E.prims.Correct → ReadsBack cbor fromCbor → ∀ (anchor : Roster) (log : List RosterEvent),
      RosterRun E cbor fromCbor vaultKey (fun _ _ => True) anchor log → StaysRevoked E.prims log := by
  intro h
  obtain ⟨itemId₁, second, hseal₁, hopen₁⟩ := two_removed
  obtain ⟨itemId₂, first, hseal₂, hopen₂⟩ := two_again
  have hnow : ¬ (Roster.sample [1]).Has (DeviceIdentity.sample 2).deviceId := by decide
  have hnext : (Roster.sample [1, 2]).Has (DeviceIdentity.sample 2).deviceId := by decide
  have hkept : RosterEvent.sealed (.sample [1, 2]) first ∈ [.adopted (.sample [1]), .sealed (.sample [1]) second,
      .sealed (.sample [1, 2]) first, .adopted (.sample [1, 2])] :=
    List.mem_cons_of_mem _ (List.mem_cons_of_mem _ List.mem_cons_self)
  have hrun : RosterRun (.sample [] []) twoCbor twoFromCbor (.repeated 32 7) (fun _ _ => True) (.sample [1, 2])
      [.adopted (.sample [1, 2]), .adopted (.sample [1]), .sealed (.sample [1]) second, .sealed (.sample [1, 2]) first,
        .adopted (.sample [1, 2])] :=
    .adopted (.adopted (.sealed (.sealed .start hseal₂) hseal₁) List.mem_cons_self rfl trivial hopen₁) hkept rfl trivial hopen₂
  obtain ⟨rest, earlier, current, roster, envelope, hlater, -, -, -, hsealed, -⟩ :=
    h (.sample [] []) twoCbor twoFromCbor (.repeated 32 7) Primitives.sample_correct twoCbor_reads _ _ hrun
      [.adopted (.sample [1, 2])] _ _ _ ⟨rfl, hnow, _, rfl, hnext⟩ _ List.mem_cons_self hnext
  -- nothing was sealed since
  have hnil : earlier = [] := by
    have hlength := congrArg List.length hlater
    simp only [List.length_cons, List.length_nil, List.length_append] at hlength
    exact List.eq_nil_of_length_eq_zero (by omega)
  rw [hnil] at hsealed
  cases hsealed

end Misty
