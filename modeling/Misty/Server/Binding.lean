import Misty.Server.Provenance

/- Sessions are bound to the device key. A handler calls the store only as `Sound.run` needs
   it, whatever the other handlers do between its calls: they add to the log, never change
   the key of a device, and store no challenge under a value that this one drew. So every
   state of a run is sound (`System.of_run`), and what is asked of sessions, nonces and
   devices is read off that (`sessions_are_bound`).

   Hashing is taken to be injective on what the server hashed in the run: the values it
   drew and the nonces it was presented. -/
namespace Misty

open AuthWorld

/-- The values drawn, and the nonces presented. -/
def AuthWorld.hashed (self : AuthWorld) : Set Bytes :=
  {value | (self.owner value).isSome = true ∨
    ∃ request, .verify request ∈ self.received ∧ request.nonce = some value}

theorem AuthWorld.Later.hashed {w w' : AuthWorld} (h : Later w w') : w.hashed ⊆ w'.hashed := by
  intro value hvalue
  rcases hvalue with howner | ⟨request, hreceived, hnonce⟩
  · obtain ⟨i, hi⟩ := Option.isSome_iff_exists.mp howner
    exact .inl (by rw [h.owner hi]; rfl)
  · exact .inr ⟨request, h.received hreceived, hnonce⟩

section Handlers

variable (P : AuthPrims) (V : Set Bytes) (i : Nat)

/-- What the others do while the handler at a place waits. -/
structure Around (w w' : AuthWorld) : Prop where
  later : Later w w'
  puts : ∀ {nonce : Bytes}, w.owner nonce = some i → w'.puts (tokenHash P nonce) = w.puts (tokenHash P nonce)

/-- How its calls are answered. -/
structure Replied (q : AuthQuery) (w : AuthWorld) (a : q.Answer) (w' : AuthWorld) : Prop where
  answered : Answered i q w a w'
  before : Sound P w
  sound : Sound P w'
  hashed : w'.hashed ⊆ V

/-- What it needs when it calls. -/
def Needs (q : AuthQuery) (_ : Unit) (w : AuthWorld) : Prop := ∀ now call, q = .store now call → Allowed P i w call

/-- A part of a handler that calls only so, and what it leaves when it does not fail. -/
def Keeps {α : Type} (x : Auth α) (w : AuthWorld) (B : α → AuthWorld → Prop) : Prop :=
  x.Ensures (Around P i) (Replied P V i) (Needs P i) () w (fun a _ => B a) (fun _ _ _ => True)

variable {P V i} {w w' w₁ : AuthWorld}

theorem Around.refl (w : AuthWorld) : Around P i w w := ⟨.refl w, fun _ => rfl⟩

theorem Around.trans (h : Around P i w w₁) (h' : Around P i w₁ w') : Around P i w w' :=
  ⟨h.later.trans h'.later, fun ho => (h'.puts (h.later.owner ho)).trans (h.puts ho)⟩

theorem Replied.later {q : AuthQuery} {a : q.Answer} (h : Replied P V i q w a w') : Later w w' := .answered h.answered

theorem Allowed.around (h : Around P i w w') {call : StoreCall} (hw : Allowed P i w call) : Allowed P i w' call := by
  cases call with
  | putChallenge k _ _ _ =>
    obtain ⟨hzero, nonce, howner, rfl⟩ := hw
    exact ⟨(h.puts howner).trans hzero, nonce, h.later.owner howner, rfl⟩
  | putAccessToken _ _ _ => exact h.later.backed hw
  | putRefreshToken _ _ _ => exact h.later.backed hw
  | admitDevice _ _ _ sponsor _ =>
    cases sponsor with
    | none => exact trivial
    | some _ => exact h.later.vouched hw
  | _ => exact trivial

namespace Keeps

variable {α β : Type} {B : α → AuthWorld → Prop}

theorem pure {a : α} (h : B a w) : Keeps P V i (Pure.pure a) w B := h

theorem throw {e : ApiError} : Keeps P V i (MonadExcept.throw e : Auth α) w B := trivial

theorem bind {x : Auth α} {f : α → Auth β} {B : β → AuthWorld → Prop}
    (h : Keeps P V i x w (fun a w => Keeps P V i (f a) w B)) : Keeps P V i (x >>= f) w B :=
  Prog.Ensures.bind h

theorem mono {B' : α → AuthWorld → Prop} {x : Auth α} (h : Keeps P V i x w B) (hB : ∀ a w, B a w → B' a w) :
    Keeps P V i x w B' :=
  Prog.Ensures.mono h (fun a _ => hB a) (fun _ _ _ h => h)

theorem orFail {o : Option α} {e : ApiError} (h : ∀ a, o = some a → B a w) : Keeps P V i (orFail e o) w B := by
  cases o with
  | none => exact trivial
  | some a => exact h a rfl

theorem ofExcept {r : Except ApiError α} (h : ∀ a, r = .ok a → B a w) : Keeps P V i (Prog.ofExcept r) w B :=
  Prog.Ensures.ofExcept h (fun _ _ => trivial)

theorem call {q : AuthQuery} {B : q.Answer → AuthWorld → Prop} (hneeds : Needs P i q () w)
    (h : ∀ w₁ a w₂, Around P i w w₁ → Replied P V i q w₁ a w₂ → B a w₂) : Keeps P V i (Prog.call q) w B :=
  Prog.Ensures.call hneeds h

theorem randomArray {n : Nat} {B : ByteArr n → AuthWorld → Prop}
    (h : ∀ w₁ a w₂, Around P i w w₁ → Replied P V i (.randomArray n) w₁ a w₂ → B a w₂) :
    Keeps P V i (randomArray n) w B := call (fun _ _ heq => by cases heq) h

theorem nowUnixMs {B : Int → AuthWorld → Prop} (h : ∀ now w', Around P i w w' → B now w') :
    Keeps P V i nowUnixMs w B := by
  refine call (fun _ _ heq => by cases heq) ?_
  intro w₁ now w₂ hr ht
  have hsame := ht.answered
  cases hsame with
  | nowUnixMs _ => exact h _ _ hr

theorem limited {vaultId : VaultId} {B : Unit → AuthWorld → Prop} (h : ∀ w', Around P i w w' → B () w') :
    Keeps P V i (limited vaultId) w B := by
  refine bind (call (fun _ _ heq => by cases heq) ?_)
  intro w₁ ok w₂ hr ht
  have hsame := ht.answered
  cases hsame with
  | checkVault _ _ _ =>
    split
    · exact throw
    · exact h _ hr

theorem blocking {now : Int} {c : StoreCall} {B : c.Answer → AuthWorld → Prop} (hneeds : Allowed P i w c)
    (h : ∀ w₁, Around P i w w₁ → Replied P V i (.store now c) w₁ (w₁.store.serve now c).1 (w₁.run now c) →
      B (w₁.store.serve now c).1 (w₁.run now c)) : Keeps P V i (blocking now c) w B := by
  refine call ?_ ?_
  · intro now' c' heq
    cases heq
    exact hneeds
  · intro w₁ a w₂ hr ht
    have hanswered := ht.answered
    cases hanswered with
    | store _ _ _ => exact h w₁ hr ht

end Keeps

/-! ## The handlers -/

theorem challenged_of_puts {k : TokenHash} (h : w.puts k ≠ 0) : ∃ c, w.Challenged k c := by
  obtain ⟨⟨call, a⟩, hmem, hput⟩ := List.countP_pos_iff.mp (Nat.pos_of_ne_zero h)
  obtain ⟨vaultId, deviceId, expiresAt, rfl⟩ := putsChallenge_iff.mp hput
  exact ⟨⟨vaultId, deviceId⟩, expiresAt, hmem⟩

/-- No challenge is stored under the hash of a value just drawn. -/
theorem puts_of_drawn (hinj : Set.InjOn P.blake2b V) {n : Nat} {value : ByteArr n}
    (ht : Replied P V i (.randomArray n) w value w') :
    w'.puts (tokenHash P value.val) = 0 ∧ w'.owner value.val = some i := by
  have hashed := ht.hashed
  have before := ht.before
  have hanswered := ht.answered
  cases hanswered with
  | randomArray _ hfresh =>
    have howner : (w.draw i value.val).owner value.val = some i := Function.update_self ..
    refine ⟨?_, howner⟩
    by_contra hputs
    obtain ⟨c, hc⟩ := challenged_of_puts (w := w) hputs
    obtain ⟨nonce, hnonce, hk⟩ := before.nonces.drawn hc
    -- the value stored under was drawn before, and is not this one
    obtain ⟨j, hj⟩ := Option.isSome_iff_exists.mp hnonce
    have hmem : nonce ∈ V := hashed (.inl (by rw [ht.later.owner hj]; rfl))
    have hmem' : value.val ∈ V := hashed (.inl (by rw [howner]; rfl))
    have hsame : value.val = nonce := hinj hmem' hmem (congrArg TokenHash.bytes hk)
    rw [← hsame, hfresh] at hnonce
    cases hnonce

variable (config : AuthConfig)

theorem keeps_challenge (hinj : Set.InjOn P.blake2b V) (vaultId : VaultId) (deviceId : DeviceId) :
    Keeps P V i (challenge config P vaultId deviceId) w (fun _ _ => True) := by
  apply Keeps.bind
  apply Keeps.limited
  intro w₁ _
  apply Keeps.bind
  apply Keeps.randomArray
  intro w₂ nonce w₃ _ hdrawn
  obtain ⟨hputs, howner⟩ := puts_of_drawn hinj hdrawn
  apply Keeps.bind
  apply Keeps.nowUnixMs
  intro now w₄ hr
  apply Keeps.bind
  apply Keeps.blocking
  · exact ⟨(hr.puts howner).trans hputs, nonce.val, hr.later.owner howner, rfl⟩
  · intro w₅ _ _
    exact .pure trivial

theorem keeps_issue {session : Session} (hbacked : w.Backed P session) :
    Keeps P V i (issue config P session) w (fun _ _ => True) := by
  apply Keeps.bind
  apply Keeps.randomArray
  intro w₁ access w₂ hr₁ ht₁
  apply Keeps.bind
  apply Keeps.randomArray
  intro w₃ refresh w₄ hr₂ ht₂
  apply Keeps.bind
  apply Keeps.nowUnixMs
  intro now w₅ hr₃
  have hlater : Later w w₅ :=
    (hr₁.later.trans ht₁.later).trans ((hr₂.later.trans ht₂.later).trans hr₃.later)
  apply Keeps.bind
  apply Keeps.blocking
  · exact hlater.backed hbacked
  · intro w₆ hr₄ ht₄
    apply Keeps.bind
    apply Keeps.blocking
    · exact (hlater.trans (hr₄.later.trans ht₄.later)).backed hbacked
    · intro w₇ _ _
      exact .pure trivial

theorem keeps_admitBootstrap (request : VerifyRequest) (key : ByteArr 32) (now : Int) :
    Keeps P V i (admitBootstrap config request key now) w (fun _ w' => Later w w' ∧
      w'.store.device request.vaultId request.deviceId = some key) := by
  unfold admitBootstrap
  split
  · exact Keeps.bind (Keeps.throw)
  apply Keeps.bind
  apply Keeps.blocking
  · exact trivial
  intro w₁ hr ht
  have hlater := hr.later.trans ht.later
  have hadmitted := Server.SqliteStore.admitted w₁.store request.vaultId request.deviceId key none now config.maxVaults
  have hstore : (w₁.run now (.admitDevice request.vaultId request.deviceId key none config.maxVaults)).store =
      (w₁.store.admitDevice request.vaultId request.deviceId key none now config.maxVaults).2 := rfl
  simp only [Server.SqliteStore.serve]
  generalize (w₁.store.admitDevice request.vaultId request.deviceId key none now config.maxVaults).1 = admission at hadmitted ⊢
  generalize (w₁.store.admitDevice request.vaultId request.deviceId key none now config.maxVaults).2 = s' at hadmitted hstore
  cases hadmitted with
  | present hpresent => exact Keeps.pure ⟨hlater, by rw [hstore]; exact hpresent⟩
  | refused hrefused =>
    rcases hrefused with rfl | rfl | rfl
    · exact Keeps.throw
    · exact Keeps.throw
    · exact Keeps.throw
  | bootstrapped _ _ _ =>
    refine Keeps.pure ⟨hlater, ?_⟩
    rw [hstore, Server.SqliteStore.device_insertDevice, if_pos ⟨rfl, rfl⟩]
  | admitted _ _ hsponsor => cases hsponsor

theorem publicKeyOf_known {known : ByteArr 32} {presented : Option (Option (ByteArr 32))} {key : ByteArr 32}
    (h : publicKeyOf (some known) presented = .ok key) : key = known := by
  cases presented with
  | none =>
    cases h
    rfl
  | some presented =>
    cases presented with
    | none => cases h
    | some presented =>
      simp only [publicKeyOf] at h
      split at h
      · cases h
        rfl
      · cases h

/-- Tokens are issued for a device that signed its challenge, under the key stored for it. -/
theorem keeps_verify {request : VerifyRequest} (hreceived : .verify request ∈ w.received) :
    Keeps P V i (verify config P request) w (fun _ _ => True) := by
  apply Keeps.bind
  apply Keeps.limited
  intro w₁ hr₁
  apply Keeps.bind
  apply Keeps.orFail
  intro nonce hnonce
  apply Keeps.bind
  apply Keeps.orFail
  intro signature hsignature
  apply Keeps.bind
  apply Keeps.nowUnixMs
  intro now w₂ hr₂
  apply Keeps.bind
  apply Keeps.blocking
  · exact trivial
  intro w₃ hr₃ ht₃
  apply Keeps.bind
  apply Keeps.orFail
  intro taken htaken
  have hredeemed : (w₃.run now (.takeChallenge (tokenHash P nonce))).Redeemed (tokenHash P nonce) taken := by
    have hanswer : (w₃.store.serve now (.takeChallenge (tokenHash P nonce))).1 = some taken := htaken
    rw [Redeemed, log_run, hanswer]
    exact List.mem_cons_self
  split
  · exact Keeps.bind Keeps.throw
  next hbinding =>
    obtain ⟨hvault, hdevice⟩ := not_or.mp hbinding
    have htaken' : taken = ⟨request.vaultId, request.deviceId⟩ := by
      rw [← not_not.mp hvault, ← not_not.mp hdevice]
    subst htaken'
    apply Keeps.bind
    apply Keeps.blocking
    · exact trivial
    intro w₄ hr₄ ht₄
    have hlater : Later w w₃ := hr₁.later.trans (hr₂.later.trans hr₃.later)
    have hlater₄ := hr₄.later.trans ht₄.later
    apply Keeps.bind
    apply Keeps.ofExcept
    intro key hkey
    dsimp only
    split
    · exact Keeps.bind Keeps.throw
    next hverified =>
      -- the key is stored from here on: it was, or it is admitted
      have hissue : ∀ w' : AuthWorld, Later (w₄.run now (.device request.vaultId request.deviceId)) w' →
          w'.store.device request.vaultId request.deviceId = some key →
          Keeps P V i (randomArray 16 >>= fun family =>
            issue config P ⟨request.vaultId, request.deviceId, ⟨family⟩⟩) w' (fun _ _ => True) := by
        intro w' hlater₅ hstored
        have hsigned : w'.Signed P request.vaultId request.deviceId nonce key := by
          refine ⟨⟨request, ?_, rfl, rfl, hnonce, signature, hsignature, by simpa using hverified⟩, ?_, hstored⟩
          · exact (hlater.trans (ht₃.later.trans (hlater₄.trans hlater₅))).received hreceived
          · exact (hlater₄.trans hlater₅).log.subset hredeemed
        apply Keeps.bind
        apply Keeps.randomArray
        intro w₆ family w₇ hr₆ ht₆
        exact keeps_issue config ⟨nonce, key, (hr₆.later.trans ht₆.later).signed hsigned⟩
      cases hknown : w₄.store.device request.vaultId request.deviceId with
      | some known =>
        have hkey' : publicKeyOf (some known) request.ed25519Pub = .ok key := by
          rw [← hknown]
          exact hkey
        rw [publicKeyOf_known hkey']
        simp only [Server.SqliteStore.serve, hknown]
        exact hissue _ (.refl _) (by rw [publicKeyOf_known hkey']; exact hknown)
      | none =>
        simp only [Server.SqliteStore.serve, hknown]
        apply Keeps.bind
        refine (keeps_admitBootstrap config request key now).mono ?_
        intro _ w' hadmitted
        obtain ⟨hlater₅, hstored⟩ := hadmitted
        exact hissue w' hlater₅ hstored

theorem keeps_refresh (refreshToken : Option (ByteArr 32)) :
    Keeps P V i (refresh config P refreshToken) w (fun _ _ => True) := by
  apply Keeps.bind
  apply Keeps.orFail
  intro token _
  apply Keeps.bind
  apply Keeps.nowUnixMs
  intro now w₁ hr₁
  apply Keeps.bind
  apply Keeps.blocking
  · exact trivial
  intro w₂ hr₂ ht₂
  have hsessions := ht₂.sound.sessions
  simp only [Server.SqliteStore.serve]
  cases houtcome : (w₂.store.consumeRefreshToken (tokenHash P token.val) now).1 with
  | rotated session =>
    have hmem : ⟨.consumeRefreshToken (tokenHash P token.val), .rotated session⟩ ∈
        (w₂.run now (.consumeRefreshToken (tokenHash P token.val))).log := by
      rw [← houtcome]
      exact List.mem_cons_self
    have hbacked := hsessions.backed (hsessions.rotated hmem)
    apply Keeps.bind
    apply Keeps.limited
    intro w₃ hr₃
    exact keeps_issue config (hr₃.later.backed hbacked)
  | reuseDetected session => exact Keeps.throw
  | rejected => exact Keeps.throw

theorem keeps_authenticated (token : Option (ByteArr 32)) :
    Keeps P V i (authenticated P token) w (fun session w' => w'.Vouched session.vaultId session.deviceId) := by
  apply Keeps.bind
  apply Keeps.orFail
  intro token _
  apply Keeps.bind
  apply Keeps.nowUnixMs
  intro now w₁ hr₁
  apply Keeps.bind
  apply Keeps.blocking
  · exact trivial
  intro w₂ hr₂ ht₂
  apply Keeps.bind
  apply Keeps.orFail
  intro session hsession
  apply Keeps.bind
  apply Keeps.limited
  intro w₃ hr₃
  refine Keeps.pure ⟨tokenHash P token.val, session, ?_, rfl, rfl⟩
  have hanswer : (w₂.store.serve now (.accessToken (tokenHash P token.val))).1 = some session := hsession
  have hmem : ⟨.accessToken (tokenHash P token.val), some session⟩ ∈
      (w₂.run now (.accessToken (tokenHash P token.val))).log := by
    rw [log_run, hanswer]
    exact List.mem_cons_self
  exact hr₃.later.log.subset hmem

theorem keeps_addDevice (vault : Option VaultId) (token : Option (ByteArr 32)) (deviceId : DeviceId)
    (ed25519Pub : Option (ByteArr 32)) :
    Keeps P V i (addDevice P vault token deviceId ed25519Pub) w (fun _ _ => True) := by
  apply Keeps.bind
  refine (keeps_authenticated token).mono ?_
  intro session w₁ hvouched
  apply Keeps.bind
  apply Keeps.orFail
  intro vaultId _
  apply Keeps.bind
  apply Keeps.ofExcept
  intro sponsor hsponsor
  apply Keeps.bind
  apply Keeps.orFail
  intro publicKey _
  apply Keeps.bind
  apply Keeps.nowUnixMs
  intro now w₂ hr₂
  apply Keeps.bind
  apply Keeps.blocking
  · -- the session is for this vault
    simp only [forVault] at hsponsor
    split at hsponsor
    · cases hsponsor
    next hvault =>
      cases hsponsor
      rw [← not_not.mp hvault]
      exact hr₂.later.vouched hvouched
  intro w₃ _ _
  split
  · exact .pure trivial
  · exact .pure trivial
  · exact .pure trivial
  · exact .throw
  · exact .throw
  · exact .throw

theorem keeps_handle (hinj : Set.InjOn P.blake2b V) {request : AuthRequest} (hreceived : request ∈ w.received) :
    Keeps P V i (handle config P request) w (fun _ _ => True) := by
  cases request with
  | challenge vaultId deviceId => exact keeps_challenge config hinj vaultId deviceId
  | verify request => exact keeps_verify config hreceived
  | refresh refreshToken => exact keeps_refresh config refreshToken
  | addDevice vault token deviceId ed25519Pub => exact keeps_addDevice vault token deviceId ed25519Pub
  | authenticated token =>
    apply Keeps.bind
    refine (keeps_authenticated token).mono ?_
    intro session w' _
    exact .pure trivial

end Handlers

/-! ## Runs -/

section Runs

variable {config : AuthConfig} {P : AuthPrims} {C : AuthPermit} {V : Set Bytes}

/-- Every state is sound, and every handler keeps to what it needs. -/
structure System (P : AuthPrims) (V : Set Bytes) (x : AuthWorld × List Thread) : Prop where
  sound : Sound P x.1
  guarded : Calls.Guarded (Around P) (Replied P V) (Needs P) x.2 x.1

theorem AuthStep.later {x x' : AuthWorld × List Thread} (h : AuthStep config P C x x') : Later x.1 x'.1 := by
  rcases h.world with hsame | ⟨i, q, a, ht, _⟩ | hm
  · rw [hsame]
    exact .refl _
  · exact .answered ht
  · exact .move hm

theorem later_of_run {x x' : AuthWorld × List Thread} (h : Relation.ReflTransGen (AuthStep config P C) x x') :
    Later x.1 x'.1 := by
  induction h with
  | refl => exact .refl _
  | tail _ hstep ih => exact ih.trans hstep.later

/-- A call of one handler is a move of the world to the others: it stores no challenge under a value they drew. -/
theorem Around.of_answered (hinj : Set.InjOn P.blake2b V) {i j : Nat} (hij : j ≠ i) {q : AuthQuery} {w w' : AuthWorld}
    {a : q.Answer} (ht : Answered i q w a w') (hneeds : Needs P i q () w) (hashed : w'.hashed ⊆ V) : Around P j w w' := by
  have hlater := Later.answered ht
  refine ⟨hlater, ?_⟩
  intro nonce howner
  cases ht with
  | checkVault _ _ _ => rfl
  | randomArray _ _ => rfl
  | nowUnixMs _ => rfl
  | store now call w =>
    rw [puts_run]
    split
    · next hput =>
      obtain ⟨vaultId, deviceId, expiresAt, rfl⟩ := putsChallenge_iff.mp hput
      obtain ⟨_, own, hown, hk⟩ := hneeds _ _ rfl
      have hmem : nonce ∈ V := hashed (.inl (by rw [hlater.owner howner]; rfl))
      have hmem' : own ∈ V := hashed (.inl (by rw [hlater.owner hown]; rfl))
      have hsame : nonce = own := hinj hmem hmem' (congrArg TokenHash.bytes hk)
      rw [hsame, hown] at howner
      cases howner
      exact absurd rfl hij
    · rfl

/-- A move of the world that no handler makes stores no challenge. -/
theorem Around.of_move {w w' : AuthWorld} (hm : AuthMove w w') (j : Nat) : Around P j w w' := by
  refine ⟨.move hm, ?_⟩
  intro nonce _
  cases hm with
  | received _ => rfl
  | swept now _ => rw [puts_run, if_neg (by simp [putsChallenge]), Nat.add_zero]
  | revoked family now => rw [puts_run, if_neg (by simp [putsChallenge]), Nat.add_zero]
  | ticked _ => rfl

theorem needs_around (i : Nat) (q : AuthQuery) (s : Unit) {w w' : AuthWorld} (hr : Around P i w w')
    (h : Needs P i q s w) : Needs P i q s w' := fun now call heq => Allowed.around hr (h now call heq)

theorem System.step (hinj : Set.InjOn P.blake2b V) {x x' : AuthWorld × List Thread} (h : System P V x)
    (hstep : AuthStep config P C x x') (hashed : x'.1.hashed ⊆ V) : System P V x' := by
  cases hstep with
  | @arrived w pool request =>
    have hm : AuthMove w { w with received := insert request w.received } := .received request
    refine ⟨h.sound.move hm, Calls.Guarded.concat ?_ ?_⟩
    · exact Calls.Guarded.moved (fun _ => Around.trans) needs_around h.guarded (fun j => .of_move hm j)
    · exact keeps_handle config hinj (Set.mem_insert _ _)
  | @answered w w' pool i q s k a hi ht _ =>
    have hneeds := h.guarded.asks hi
    have hsound : Sound P w' := h.sound.answered ht hneeds
    refine ⟨hsound, ?_⟩
    exact h.guarded.answered (fun _ => Around.refl) (fun _ => Around.trans) needs_around hi
      ⟨ht, h.sound, hsound, hashed⟩ (fun j hj => .of_answered hinj hj ht hneeds hashed)
  | @dropped w pool i => exact ⟨h.sound, h.guarded.dropped i _ _⟩
  | @moved w w' pool hm =>
    exact ⟨h.sound.move hm,
      Calls.Guarded.moved (fun _ => Around.trans) needs_around h.guarded (fun j => .of_move hm j)⟩

/-- Every state of a run is sound, where hashing is injective on what the run hashed. -/
theorem System.of_run (hinj : Set.InjOn P.blake2b V) {x : AuthWorld × List Thread} (h : AuthRun config P C x)
    (hashed : x.1.hashed ⊆ V) : System P V x := by
  induction h with
  | refl => exact ⟨.new, .nil⟩
  | tail _ hstep ih => exact (ih (hstep.later.hashed.trans hashed)).step hinj hstep hashed

end Runs

/-! ## Sessions are bound -/

theorem eq_of_countP_le_one {α : Type} {p : α → Bool} {l : List α} (h : l.countP p ≤ 1) {a b : α} (ha : a ∈ l) (hb : b ∈ l)
    (hpa : p a = true) (hpb : p b = true) : a = b := by
  have hmem : a ∈ l.filter p := List.mem_filter.mpr ⟨ha, hpa⟩
  have hmem' : b ∈ l.filter p := List.mem_filter.mpr ⟨hb, hpb⟩
  rw [List.countP_eq_length_filter] at h
  match hl : l.filter p with
  | [] =>
    rw [hl] at hmem
    cases hmem
  | [c] =>
    rw [hl] at hmem hmem'
    rw [List.mem_singleton.mp hmem, List.mem_singleton.mp hmem']
  | _ :: _ :: _ =>
    rw [hl] at h
    simp at h

variable {P : AuthPrims} {w : AuthWorld}

/-- A nonce is issued for one device. -/
theorem AuthWorld.Nonces.challenged_unique (h : Nonces P w) {k : TokenHash} {c c' : Challenge} (hc : w.Challenged k c)
    (hc' : w.Challenged k c') : c' = c := by
  obtain ⟨e, he⟩ := hc
  obtain ⟨e', he'⟩ := hc'
  have heq := eq_of_countP_le_one (h.fresh k) he' he (by simp [putsChallenge]) (by simp [putsChallenge])
  cases c
  cases c'
  simp only [Sigma.mk.injEq, StoreCall.putChallenge.injEq, true_and] at heq
  simp [heq.1.1, heq.1.2.1]

theorem AuthWorld.Sound.drawn (h : Sound P w) (hinj : Set.InjOn P.blake2b w.hashed) {vaultId : VaultId}
    {deviceId : DeviceId} {nonce : Bytes} {key : ByteArr 32} (hs : w.Signed P vaultId deviceId nonce key) :
    (w.owner nonce).isSome = true := by
  obtain ⟨own, howner, hk⟩ := h.nonces.drawn (h.nonces.redeemed hs.redeemed)
  obtain ⟨request, hreceived, _, _, hnonce, _⟩ := hs.presented
  have hsame : nonce = own := hinj (.inr ⟨request, hreceived, hnonce⟩) (.inl howner) (congrArg TokenHash.bytes hk)
  rw [hsame]
  exact howner

/-- Sessions are bound to the device key. In every state of a run in which hashing is injective: a session a token was
stored for is one of a device that signed a nonce the server drew, under the key the table holds from then on; a nonce
is redeemed at most once, and for the device it was issued for; the key of a device does not change; a vault has at
most one device without a sponsor; and a sponsor is the device of a session of the vault that was presented. -/
theorem sessions_are_bound (config : AuthConfig) (P : AuthPrims) {x : AuthWorld × List Thread}
    (h : AuthRun config P AuthPermit.all x) (hinj : Set.InjOn P.blake2b x.1.hashed) :
    (∀ session, x.1.Issued session → ∃ nonce key, (x.1.owner nonce).isSome = true ∧
      x.1.Signed P session.vaultId session.deviceId nonce key ∧
      ∀ x', Relation.ReflTransGen (AuthStep config P AuthPermit.all) x x' →
        x'.1.store.device session.vaultId session.deviceId = some key) ∧
    (∀ k, x.1.takes k ≤ 1 ∧ ∀ c, x.1.Redeemed k c → x.1.Challenged k c ∧ ∀ c', x.1.Challenged k c' → c' = c) ∧
    (∀ vaultId deviceId key, x.1.store.device vaultId deviceId = some key →
      ∀ x', Relation.ReflTransGen (AuthStep config P AuthPermit.all) x x' →
        x'.1.store.device vaultId deviceId = some key) ∧
    (∀ vaultId deviceId other row row', x.1.deviceRow vaultId deviceId = some row →
      x.1.deviceRow vaultId other = some row' → row.admittedBy = none → row'.admittedBy = none → deviceId = other) ∧
    ∀ vaultId deviceId row sponsor, x.1.deviceRow vaultId deviceId = some row → row.admittedBy = some sponsor →
      ∃ k session, ⟨.accessToken k, some session⟩ ∈ x.1.log ∧ session.vaultId = vaultId ∧ session.deviceId = sponsor ∧
        x.1.Issued session := by
  -- the invariant of every interleaving; each part reads one field of it
  have hsound := (System.of_run hinj h (fun _ => id)).sound
  refine ⟨?_, ?_, ?_, ?_, ?_⟩
  · intro session hissued
    obtain ⟨nonce, key, hsigned⟩ := hsound.sessions.backed hissued
    refine ⟨nonce, key, hsound.drawn hinj hsigned, hsigned, ?_⟩
    intro x' hrun
    exact (later_of_run hrun).device hsigned.stored
  · intro k
    have honce := hsound.nonces.once k
    have hfresh := hsound.nonces.fresh k
    refine ⟨by omega, ?_⟩
    intro c hredeemed
    have hchallenged := hsound.nonces.redeemed hredeemed
    exact ⟨hchallenged, fun c' hc' => hsound.nonces.challenged_unique hchallenged hc'⟩
  · intro vaultId deviceId key hkey x' hrun
    exact (later_of_run hrun).device hkey
  · intro vaultId deviceId other row row' hrow hrow' hfounder hfounder'
    exact hsound.devices.founder hrow hrow' hfounder hfounder'
  · intro vaultId deviceId row sponsor hrow hsponsor
    obtain ⟨k, session, hmem, hvault, hdevice⟩ := hsound.devices.vouched hrow hsponsor
    exact ⟨k, session, hmem, hvault, hdevice, hsound.sessions.resolved hmem⟩

/-- The state after a device signs in. -/
def signedIn : AuthWorld × List Thread :=
  (playAll .sample .sample AuthPermit.all (.new, []) signIn).get (by decide)

theorem run_signedIn : AuthRun .sample .sample AuthPermit.all signedIn := run_playAll (Option.some_get _).symm

/-- What it hashed: a nonce, a family and two tokens. -/
theorem hashed_signedIn {value : Bytes} (h : value ∈ signedIn.1.hashed) : value ∈
    [(ByteArr.repeated 32 1).val, (ByteArr.repeated 16 2).val, (ByteArr.repeated 32 3).val, (ByteArr.repeated 32 4).val] := by
  have howner : signedIn.1.owner = Function.update (Function.update (Function.update (Function.update (fun _ => none)
      (ByteArr.repeated 32 1).val (some 0)) (ByteArr.repeated 16 2).val (some 1)) (ByteArr.repeated 32 3).val (some 1))
      (ByteArr.repeated 32 4).val (some 1) := by
    with_unfolding_all rfl
  have hreceived : signedIn.1.received = insert (.verify firstVerify)
      (insert (.challenge firstVerify.vaultId firstVerify.deviceId) ∅) := by
    with_unfolding_all rfl
  rcases h with hdrawn | ⟨request, hrequest, hnonce⟩
  · by_contra hmem
    simp only [List.mem_cons, List.not_mem_nil, or_false, not_or] at hmem
    obtain ⟨h₁, h₂, h₃, h₄⟩ := hmem
    rw [howner, Function.update_of_ne h₄, Function.update_of_ne h₃, Function.update_of_ne h₂,
      Function.update_of_ne h₁] at hdrawn
    cases hdrawn
  · rw [hreceived] at hrequest
    rcases hrequest with hfirst | hsecond | hnone
    · cases hfirst
      cases hnonce
      exact List.mem_cons_self
    · cases hsecond
    · exact hnone.elim

/-- The device's session after it signed in: it signed a nonce under the key it has from then on. -/
theorem sessions_are_bound_signedIn : ∃ nonce key,
    signedIn.1.Signed .sample firstVerify.vaultId firstVerify.deviceId nonce key ∧
    ∀ x', Relation.ReflTransGen (AuthStep .sample .sample AuthPermit.all) signedIn x' →
      x'.1.store.device firstVerify.vaultId firstVerify.deviceId = some key := by
  have hinj : Set.InjOn AuthPrims.sample.blake2b signedIn.1.hashed := by
    intro a ha b hb hab
    have hdistinct : ∀ a ∈ [(ByteArr.repeated 32 1).val, (ByteArr.repeated 16 2).val, (ByteArr.repeated 32 3).val,
        (ByteArr.repeated 32 4).val], ∀ b ∈ [(ByteArr.repeated 32 1).val, (ByteArr.repeated 16 2).val,
        (ByteArr.repeated 32 3).val, (ByteArr.repeated 32 4).val],
        (AuthPrims.sample.blake2b a).val = (AuthPrims.sample.blake2b b).val → a = b := by
      decide
    exact hdistinct a (hashed_signedIn ha) b (hashed_signedIn hb) (congrArg Subtype.val hab)
  have hany : signedIn.1.log.any (fun o => o.1 = .putAccessToken ⟨.repeated 32 3⟩
      ⟨firstVerify.vaultId, firstVerify.deviceId, ⟨.repeated 16 2⟩⟩ 900000) = true := by
    decide
  obtain ⟨o, ho, hcall⟩ := List.any_eq_true.mp hany
  have hissues : issues ⟨firstVerify.vaultId, firstVerify.deviceId, ⟨.repeated 16 2⟩⟩ o.1 := by
    rw [of_decide_eq_true hcall]
    exact rfl
  obtain ⟨nonce, key, _, hsigned, hstored⟩ := (sessions_are_bound .sample .sample run_signedIn hinj).1 _ ⟨o, ho, hissues⟩
  exact ⟨nonce, key, hsigned, hstored⟩

end Misty
