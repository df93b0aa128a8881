import Misty.Server.Store

/- What a version is worth. A write is conditional on the version its client last saw, so
   a lost update is impossible as long as no version of an item is handed out twice. The
   counter lives in the row, and a sweep drops the row with it: a `put` that creates the
   item again starts at 1 (`stale_version_wins`).

   That is the only way (`versions_rise_iff`): the versions of an item go up in every run
   in which no `put` creates an item again whose row was swept, and in no other. In these
   runs a version a client saw, in the answer to a write, in a conflict or on a page of
   the feed, still names the last write when a write on it goes through.

   A run is a list of calls and its log a list of entries, the newest first in both. -/
namespace Misty

/-- A call of the store on one vault. -/
inductive ItemCall where
  | put (limits : Limits) (itemId : ItemId) (precondition : Nat) (envelope : Bytes) (now : Int)
  | delete (itemId : ItemId) (precondition : Nat) (now : Int)
  | changes (since limit : Nat)
  | sweep (horizon : Int)

/-- What a client learns from a call: its write went through, or an item is at a version. -/
inductive Entry where
  | wrote (itemId : ItemId) (precondition version : Nat)
  | showed (itemId : ItemId) (version : Nat)
  deriving DecidableEq

/-- Whoever has the entry has seen this version of the item. -/
def Entry.Shows (itemId : ItemId) (version : Nat) : Entry → Prop
  | wrote id _ v => id = itemId ∧ v = version
  | showed id v => id = itemId ∧ v = version

/-- The answer to a write. It is a write of this call when its number is the one that was next: an answer to a
delete made before repeats the number of that one. -/
def WriteOutcome.entries (server : Server) (itemId : ItemId) (precondition : Nat) : WriteOutcome → List Entry
  | .ok seq version => if seq = server.nextSeq then [.wrote itemId precondition version] else [.showed itemId version]
  | .conflict version _ => [.showed itemId version]
  | .itemLimit | .byteLimit | .missing => []

/-- One call, its answer as entries. -/
def ItemCall.serve (server : Server) : ItemCall → List Entry × Server
  | put limits itemId precondition envelope now =>
    match server.putItem limits itemId precondition envelope now with
    | .ok (outcome, server') => (outcome.entries server itemId precondition, server')
    | .error _ => ([], server)
  | delete itemId precondition now =>
    match server.deleteItem itemId precondition now with
    | .ok (outcome, server') => (outcome.entries server itemId precondition, server')
    | .error _ => ([], server)
  | changes since limit => ((server.changes since limit).1.map (fun p => .showed p.1 p.2.version), server)
  | sweep horizon => ([], server.sweep horizon)

/-- The table, and all that was answered. -/
structure History where
  server : Server
  log : List Entry

def History.step (self : History) (call : ItemCall) : History :=
  ⟨(call.serve self.server).2, (call.serve self.server).1 ++ self.log⟩

/-- The calls made on an empty vault. -/
def history : List ItemCall → History
  | [] => ⟨.new, []⟩
  | call :: earlier => (history earlier).step call

/-- The versions the writes to an item were given. -/
def versionsOf (itemId : ItemId) : List Entry → List Nat
  | [] => []
  | .wrote id _ version :: log => if id = itemId then version :: versionsOf itemId log else versionsOf itemId log
  | .showed _ _ :: log => versionsOf itemId log

/-- No version of an item is handed out twice, and they go up. -/
def Rising (log : List Entry) : Prop := ∀ itemId : ItemId, (versionsOf itemId log).Pairwise (· > ·)

/-- A write on a version goes through only while the last write to the item is the one that produced what the client
saw. -/
def StaleLoses (log : List Entry) : Prop :=
  ∀ (newer between older : List Entry) (itemId : ItemId) (version version' : Nat) (seen : Entry),
    log = newer ++ .wrote itemId version version' :: (between ++ seen :: older) → 0 < version →
    seen.Shows itemId version →
    versionsOf itemId between = [] ∧ (versionsOf itemId (seen :: older)).head? = some version

/-- Within the limits, for an item with no row. -/
def Server.HasRoom (limits : Limits) (self : Server) (envelope : Bytes) : Prop :=
  self.bytesUsed < 2 ^ 63 ∧ self.rows.size < limits.maxRows ∧
    min (self.bytesUsed + envelope.length) (2 ^ 64 - 1) ≤ limits.maxBytes ∧ self.nextSeq < 2 ^ 63

/-- A `put` creates an item whose row a sweep dropped. -/
def History.Reborn (self : History) : ItemCall → Prop
  | .put limits itemId precondition envelope _ => precondition = 0 ∧ self.server.rows[itemId]? = none ∧
      versionsOf itemId self.log ≠ [] ∧ self.server.HasRoom limits envelope
  | _ => False

/-- No call of a run does. -/
def NeverReborn : List ItemCall → Prop
  | [] => True
  | call :: earlier => ¬ (history earlier).Reborn call ∧ NeverReborn earlier

/-! ## What a call comes to -/

/-- A call shows versions rows are at and takes rows away at most, or it writes one. -/
inductive Serves (s : Server) : List Entry → Server → Prop
  | reads {entries : List Entry} {s' : Server} :
      (∀ e ∈ entries, ∃ itemId version, e = .showed itemId version ∧ s.versionAt itemId = version) →
      (∀ (id : ItemId) (row : ServerRow), s'.rows[id]? = some row → s.rows[id]? = some row) → Serves s entries s'
  | writes {itemId : ItemId} {envelope : Option Bytes} {now : Int} :
      Serves s [.wrote itemId (s.versionAt itemId) (s.versionAt itemId + 1)]
        (s.store itemId (s.versionAt itemId + 1) envelope now (Nat.succ_pos _))

theorem Server.versionAt_of_some {s : Server} {itemId : ItemId} {row : ServerRow} (h : s.rows[itemId]? = some row) :
    s.versionAt itemId = row.version := by
  simp [versionAt, h]

theorem Server.versionAt_eq_zero {s : Server} {itemId : ItemId} : s.versionAt itemId = 0 ↔ s.rows[itemId]? = none := by
  cases h : s.rows[itemId]? with
  | none => simp [versionAt, h]
  | some row =>
    have hpos := (s.stamped itemId row h).2.2
    rw [versionAt_of_some h]
    simp
    omega

theorem serves_of_put {s s' : Server} {itemId : ItemId} {precondition : Nat} {envelope : Bytes} {now : Int}
    {outcome : WriteOutcome} (h : s.Put itemId precondition envelope now outcome s') :
    Serves s (outcome.entries s itemId precondition) s' := by
  cases h with
  | written hp _ _ =>
    subst hp
    simp only [WriteOutcome.entries, if_true]
    exact .writes
  | conflict _ => exact .reads (by simp [WriteOutcome.entries]) (fun _ _ hrow => hrow)
  | full _ hfull =>
    refine .reads ?_ (fun _ _ hrow => hrow)
    rcases hfull with rfl | rfl <;> simp [WriteOutcome.entries]

theorem serves_of_delete {s s' : Server} {itemId : ItemId} {precondition : Nat} {now : Int} {outcome : WriteOutcome}
    (h : s.Delete itemId precondition now outcome s') : Serves s (outcome.entries s itemId precondition) s' := by
  cases h with
  | missing _ => exact .reads (by simp [WriteOutcome.entries]) (fun _ _ hrow => hrow)
  | conflict hrow _ =>
    refine .reads ?_ (fun _ _ hrow => hrow)
    simp [WriteOutcome.entries, Server.versionAt_of_some hrow]
  | again hrow _ _ =>
    -- the number it repeats was handed out before
    have hseq := (s.stamped _ _ hrow).2.1
    refine .reads ?_ (fun _ _ hrow => hrow)
    simp [WriteOutcome.entries, Nat.ne_of_lt hseq, Server.versionAt_of_some hrow]
  | reclaimed hrow hp _ =>
    subst hp
    simp only [WriteOutcome.entries, if_true]
    rw [← Server.versionAt_of_some hrow]
    exact .writes

theorem ItemCall.serves (s : Server) (call : ItemCall) : Serves s (call.serve s).1 (call.serve s).2 := by
  have hnothing : Serves s [] s := .reads (by simp) (fun _ _ hrow => hrow)
  cases call with
  | put limits itemId precondition envelope now =>
    simp only [serve]
    split
    · next outcome s' hput => exact serves_of_put (Server.put_of_putItem hput)
    · exact hnothing
  | delete itemId precondition now =>
    simp only [serve]
    split
    · next outcome s' hdelete => exact serves_of_delete (Server.delete_of_deleteItem hdelete)
    · exact hnothing
  | changes since limit =>
    refine .reads ?_ (fun _ _ hrow => hrow)
    intro e he
    obtain ⟨p, hp, rfl⟩ := List.mem_map.mp he
    exact ⟨_, _, rfl, Server.versionAt_of_some (Server.mem_changes hp).1⟩
  | sweep horizon =>
    refine .reads (by simp [serve]) ?_
    intro id row hrow
    unfold serve at hrow
    rw [Server.rows_sweep] at hrow
    exact (Option.filter_eq_some_iff.mp hrow).1

/-- An item with no row is created exactly when there is room for it. -/
theorem Server.putItem_absent {s : Server} {limits : Limits} {itemId : ItemId} {envelope : Bytes} (now : Int)
    (hrow : s.rows[itemId]? = none) :
    (∃ seq version s', s.putItem limits itemId 0 envelope now = .ok (.ok seq version, s')) ↔ s.HasRoom limits envelope := by
  have hput : s.putItem limits itemId 0 envelope now = s.write limits itemId none envelope now := by
    unfold putItem
    simp [hrow]
  rw [hput]
  unfold write HasRoom
  simp only [Option.map_none, Option.getD_none, Option.isNone_none, true_and, Nat.sub_zero]
  constructor
  · intro h
    obtain ⟨seq, version, s', h⟩ := h
    obtain ⟨_, hsum, h⟩ := bind_eq_ok.mp h
    have hsum := asI64_eq_ok.mp hsum
    split at h
    · cases h
    · split at h
      · cases h
      · obtain ⟨_, hseq, -⟩ := bind_eq_ok.mp h
        have hseq := asI64_eq_ok.mp hseq
        omega
  · intro hroom
    obtain ⟨hsum, hrows, hbytes, hseq⟩ := hroom
    have hsum : asI64 "items bytes" s.bytesUsed = .ok () := asI64_eq_ok.mpr hsum
    have hseq : asI64 "seq" s.nextSeq = .ok () := asI64_eq_ok.mpr hseq
    have hversion : asI64 "version" (0 + 1) = .ok () := rfl
    rw [if_neg (not_le.mpr hrows), if_neg (not_lt.mpr hbytes)]
    simp only [hsum, hseq, hversion, bind, Except.bind]
    exact ⟨_, _, _, rfl⟩

/-! ## The log -/

theorem versionsOf_append (itemId : ItemId) : ∀ log log' : List Entry,
    versionsOf itemId (log ++ log') = versionsOf itemId log ++ versionsOf itemId log'
  | [], _ => rfl
  | .wrote id _ version :: log, log' => by
    by_cases hid : id = itemId
    · simp [versionsOf, hid, versionsOf_append itemId log log']
    · simp [versionsOf, hid, versionsOf_append itemId log log']
  | .showed _ _ :: log, log' => versionsOf_append itemId log log'

theorem versionsOf_showed {s : Server} {itemId : ItemId} : ∀ {entries : List Entry},
    (∀ e ∈ entries, ∃ id version, e = .showed id version ∧ s.versionAt id = version) → versionsOf itemId entries = []
  | [], _ => rfl
  | e :: rest, h => by
    have hrest := fun e he => h e (List.mem_cons_of_mem _ he)
    obtain ⟨id, version, rfl, -⟩ := h e List.mem_cons_self
    show versionsOf itemId rest = []
    exact versionsOf_showed hrest

/-- An entry over the log before it: the version it saw, or wrote on, is the last one written. -/
def Entry.Fits (log : List Entry) : Entry → Prop
  | wrote itemId precondition version => version = precondition + 1 ∧
      (0 < precondition → (versionsOf itemId log).head? = some precondition)
  | showed itemId version => 0 < version → (versionsOf itemId log).head? = some version

/-- Each entry over those before it. -/
def Told : List Entry → Prop
  | [] => True
  | e :: log => e.Fits log ∧ Told log

theorem Told.of_append {log : List Entry} : ∀ {newer : List Entry}, Told (newer ++ log) → Told log
  | [], h => h
  | _ :: _, h => Told.of_append h.2

/-- What is shown to a client is the version last written. -/
theorem Told.head?_of_shows {log : List Entry} {e : Entry} (h : Told (e :: log)) {itemId : ItemId} {version : Nat}
    (hpos : 0 < version) (hshows : e.Shows itemId version) : (versionsOf itemId (e :: log)).head? = some version := by
  cases e with
  | wrote id precondition v =>
    obtain ⟨rfl, rfl⟩ := hshows
    simp [versionsOf]
  | showed id v =>
    obtain ⟨rfl, rfl⟩ := hshows
    exact h.1 hpos

/-- **Stale writes lose** wherever versions rise: a version names one write, so the last write is still the one the
client saw. -/
theorem Told.staleLoses {log : List Entry} (h : Told log) (hrising : Rising log) : StaleLoses log := by
  intro newer between older itemId version version' seen hlog hpos hshows
  rw [hlog] at h hrising
  have hwrote := Told.of_append h
  have hhead := hwrote.1.2 hpos
  have holder : Told (seen :: older) := Told.of_append hwrote.2
  have hseen := holder.head?_of_shows hpos hshows
  refine ⟨?_, hseen⟩
  rw [versionsOf_append] at hhead
  obtain ⟨tail, htail⟩ := List.head?_eq_some_iff.mp hseen
  cases hbetween : versionsOf itemId between with
  | nil => rfl
  | cons v rest =>
    -- the newest write between carries the version the client saw, and so does one before
    rw [hbetween, htail, List.cons_append, List.head?_cons, Option.some.injEq] at hhead
    have hall := hrising itemId
    rw [versionsOf_append] at hall
    have hsub := (List.pairwise_append.mp hall).2.1
    have hsub : (version' :: (versionsOf itemId (between ++ seen :: older))).Pairwise (· > ·) := by
      simpa [versionsOf] using hsub
    rw [versionsOf_append, hbetween, htail] at hsub
    have hlt := (List.pairwise_cons.mp (List.pairwise_cons.mp hsub).2).1 version (by simp)
    omega

/-! ## A run -/

/-- What holds of the table and the log after any calls. -/
structure Ledger (s : Server) (log : List Entry) : Prop where
  told : Told log
  positive : ∀ itemId, ∀ version ∈ versionsOf itemId log, 0 < version
  last : ∀ (itemId : ItemId) (row : ServerRow), s.rows[itemId]? = some row →
    (versionsOf itemId log).head? = some row.version

namespace Ledger

variable {s s' : Server} {log entries : List Entry}

theorem new : Ledger .new [] := by
  refine ⟨trivial, by simp [versionsOf], ?_⟩
  intro itemId row hrow
  simp [Server.new] at hrow

theorem head?_versionAt (h : Ledger s log) {itemId : ItemId} (hpos : 0 < s.versionAt itemId) :
    (versionsOf itemId log).head? = some (s.versionAt itemId) := by
  cases hrow : s.rows[itemId]? with
  | none =>
    rw [Server.versionAt_eq_zero.mpr hrow] at hpos
    omega
  | some row => rw [h.last itemId row hrow, Server.versionAt_of_some hrow]

theorem told_showed (h : Ledger s log) : ∀ {entries : List Entry},
    (∀ e ∈ entries, ∃ itemId version, e = .showed itemId version ∧ s.versionAt itemId = version) →
    Told (entries ++ log)
  | [], _ => h.told
  | e :: rest, hall => by
    have hrest := fun e he => hall e (List.mem_cons_of_mem _ he)
    obtain ⟨itemId, version, rfl, hat⟩ := hall e List.mem_cons_self
    refine ⟨?_, h.told_showed hrest⟩
    intro hpos
    show (versionsOf itemId (rest ++ log)).head? = _
    rw [versionsOf_append, versionsOf_showed hrest, List.nil_append, ← hat]
    exact h.head?_versionAt (by omega)

theorem step (h : Ledger s log) (hserves : Serves s entries s') : Ledger s' (entries ++ log) := by
  cases hserves with
  | reads hall hrows =>
    refine ⟨h.told_showed hall, ?_, ?_⟩
    · intro itemId version hversion
      rw [versionsOf_append, versionsOf_showed hall, List.nil_append] at hversion
      exact h.positive itemId version hversion
    · intro itemId row hrow
      rw [versionsOf_append, versionsOf_showed hall, List.nil_append]
      exact h.last itemId row (hrows itemId row hrow)
  | @writes itemId envelope now =>
    refine ⟨⟨⟨rfl, fun hpos => h.head?_versionAt hpos⟩, h.told⟩, ?_, ?_⟩
    · intro id version hversion
      by_cases hid : itemId = id
      · simp only [List.cons_append, List.nil_append, versionsOf, hid, if_true, List.mem_cons] at hversion
        rcases hversion with rfl | hversion
        · omega
        · exact h.positive id version hversion
      · simp only [List.cons_append, List.nil_append, versionsOf, hid, if_false] at hversion
        exact h.positive id version hversion
    · intro id row hrow
      rw [Server.rows_store] at hrow
      split at hrow
      · next hid =>
        cases hrow
        simp [versionsOf, hid]
      · next hid =>
        simp only [List.cons_append, List.nil_append, versionsOf, hid, if_false]
        exact h.last id row hrow

/-- Versions keep rising unless the write is the first of an item that was written before. -/
theorem rising_step (h : Ledger s log) (hserves : Serves s entries s') :
    Rising (entries ++ log) ↔ Rising log ∧
      ¬ ∃ itemId version, entries = [.wrote itemId 0 version] ∧ versionsOf itemId log ≠ [] := by
  cases hserves with
  | reads hall hrows =>
    have hsame : ∀ itemId, versionsOf itemId (entries ++ log) = versionsOf itemId log := by
      intro itemId
      rw [versionsOf_append, versionsOf_showed hall, List.nil_append]
    have hno : ¬ ∃ itemId version, entries = [.wrote itemId 0 version] ∧ versionsOf itemId log ≠ [] := by
      intro ⟨itemId, version, heq, _⟩
      obtain ⟨id, v, hshowed, -⟩ := hall (.wrote itemId 0 version) (by simp [heq])
      cases hshowed
    unfold Rising
    simp only [hsame]
    exact ⟨fun hrising => ⟨hrising, hno⟩, fun hrising => hrising.1⟩
  | @writes itemId envelope now =>
    -- the row written is the newest of its item, so the log rises when it is above the older ones
    have hcons : Rising ([.wrote itemId (s.versionAt itemId) (s.versionAt itemId + 1)] ++ log) ↔
        Rising log ∧ ∀ version ∈ versionsOf itemId log, version < s.versionAt itemId + 1 := by
      unfold Rising
      constructor
      · intro hall
        refine ⟨fun id => ?_, ?_⟩
        · by_cases hid : itemId = id
          · have hid' := hall id
            simp only [List.cons_append, List.nil_append, versionsOf, hid, if_true, List.pairwise_cons] at hid'
            exact hid'.2
          · simpa [versionsOf, hid] using hall id
        · have hitem := hall itemId
          simp only [List.cons_append, List.nil_append, versionsOf, if_true, List.pairwise_cons] at hitem
          exact hitem.1
      · intro ⟨hall, hlt⟩ id
        by_cases hid : itemId = id
        · subst hid
          simp only [List.cons_append, List.nil_append, versionsOf, if_true, List.pairwise_cons]
          exact ⟨hlt, hall itemId⟩
        · simpa [versionsOf, hid] using hall id
    rw [hcons]
    refine and_congr_right (fun hrising => ?_)
    constructor
    -- a row created anew starts at one, not above any version of its first life
    · intro hlt ⟨id, version, heq, hwritten⟩
      simp only [List.cons.injEq, Entry.wrote.injEq, and_true] at heq
      obtain ⟨rfl, hzero, -⟩ := heq
      obtain ⟨v, hv⟩ := List.exists_mem_of_ne_nil _ hwritten
      have hlow := hlt v hv
      have hpos := h.positive itemId v hv
      omega
    · intro hno version hversion
      by_cases hzero : s.versionAt itemId = 0
      · -- no row: then it was never written
        refine absurd ⟨itemId, _, by rw [hzero], ?_⟩ hno
        intro hnil
        simp [hnil] at hversion
      · -- the row's version is the highest
        obtain ⟨tail, htail⟩ := List.head?_eq_some_iff.mp (h.head?_versionAt (Nat.pos_of_ne_zero hzero))
        have hitem := hrising itemId
        rw [htail] at hitem hversion
        rcases List.mem_cons.mp hversion with rfl | hin
        · omega
        · have := (List.pairwise_cons.mp hitem).1 version hin
          omega

end Ledger

/-- The write that creates an item again is a `put` that finds room. -/
theorem History.reborn_iff {self : History} {call : ItemCall} : self.Reborn call ↔
    ∃ itemId version, (call.serve self.server).1 = [.wrote itemId 0 version] ∧ versionsOf itemId self.log ≠ [] := by
  constructor
  · intro h
    cases call with
    | put limits itemId precondition envelope now =>
      obtain ⟨rfl, hrow, hwritten, hroom⟩ := h
      obtain ⟨seq, version, s', hput⟩ := (Server.putItem_absent now hrow).mpr hroom
      refine ⟨itemId, version, ?_, hwritten⟩
      cases Server.put_of_putItem hput with
      | written _ _ _ =>
        simp only [ItemCall.serve, hput, WriteOutcome.entries, if_true]
      | full _ hfull => simp at hfull
    | delete _ _ _ | changes _ _ | sweep _ => exact h.elim
  · intro hwrote
    obtain ⟨itemId, version, hentries, hwritten⟩ := hwrote
    have hserves := call.serves self.server
    cases call with
    | put limits id precondition envelope now =>
      simp only [ItemCall.serve] at hentries hserves
      cases hput : self.server.putItem limits id precondition envelope now with
      | error e => simp [hput] at hentries
      | ok r =>
        obtain ⟨outcome, s'⟩ := r
        simp only [hput] at hentries
        cases Server.put_of_putItem hput with
        | written hp _ _ =>
          simp only [WriteOutcome.entries, if_true, List.cons.injEq, Entry.wrote.injEq, and_true] at hentries
          obtain ⟨rfl, rfl, -⟩ := hentries
          have hrow := Server.versionAt_eq_zero.mp hp.symm
          exact ⟨rfl, hrow, hwritten, (Server.putItem_absent now hrow).mp ⟨_, _, _, hput⟩⟩
        | conflict _ => simp [WriteOutcome.entries] at hentries
        | full _ hfull =>
          rcases hfull with rfl | rfl
          · simp [WriteOutcome.entries] at hentries
          · simp [WriteOutcome.entries] at hentries
    | delete id precondition now =>
      exfalso
      simp only [ItemCall.serve] at hentries
      cases hdelete : self.server.deleteItem id precondition now with
      | error e => simp [hdelete] at hentries
      | ok r =>
        obtain ⟨outcome, s'⟩ := r
        simp only [hdelete] at hentries
        cases Server.delete_of_deleteItem hdelete with
        | missing _ => simp [WriteOutcome.entries] at hentries
        | conflict _ _ => simp [WriteOutcome.entries] at hentries
        | again hrow _ _ => simp [WriteOutcome.entries, Nat.ne_of_lt (self.server.stamped _ _ hrow).2.1] at hentries
        | reclaimed hrow hp _ =>
          -- a row is at a version of at least 1
          have hpos := (self.server.stamped _ _ hrow).2.2
          simp only [WriteOutcome.entries, if_true, List.cons.injEq, Entry.wrote.injEq, and_true] at hentries
          omega
    | changes since limit =>
      exfalso
      have hmem : Entry.wrote itemId 0 version ∈ (ItemCall.serve self.server (.changes since limit)).1 := by
        simp [hentries]
      obtain ⟨p, -, hp⟩ := List.mem_map.mp hmem
      cases hp
    | sweep horizon => simp [ItemCall.serve] at hentries

theorem ledger_history : ∀ calls : List ItemCall, Ledger (history calls).server (history calls).log
  | [] => .new
  | call :: earlier => (ledger_history earlier).step (call.serves _)

/-- **Versions.** In every run the versions of each item go up, none handed out twice, exactly when no call creates an
item again whose row was swept; and then a write on a version that a client saw goes through only while no write came
after the one that produced it. -/
theorem versions_rise_iff : ∀ calls : List ItemCall,
    (Rising (history calls).log ↔ NeverReborn calls) ∧ (NeverReborn calls → StaleLoses (history calls).log) := by
  have hiff : ∀ calls : List ItemCall, Rising (history calls).log ↔ NeverReborn calls := by
    intro calls
    induction calls with
    | nil => exact ⟨fun _ => trivial, fun _ _ => .nil⟩
    | cons call earlier ih =>
      show Rising ((call.serve _).1 ++ _) ↔ _
      rw [(ledger_history earlier).rising_step (call.serves _), ih, ← History.reborn_iff]
      exact and_comm
  intro calls
  exact ⟨hiff calls, fun h => (ledger_history calls).told.staleLoses ((hiff calls).mpr h)⟩

/-- An item written, deleted, swept after the horizon and written again, the newest call first: the client that saw
version 1 of the first life overwrites the second. -/
def secondLife : List ItemCall :=
  let limits : Limits := ⟨8, 8⟩
  let id : ItemId := ⟨.repeated 16 7⟩
  [.put limits id 1 [3] 7776000003, .put limits id 0 [2] 7776000002, .sweep 1, .delete id 1 1, .put limits id 0 [1] 0]

theorem stale_version_wins : ¬ StaleLoses (history secondLife).log ∧ ¬ Rising (history secondLife).log := by
  have hlog : (history secondLife).log = [.wrote ⟨.repeated 16 7⟩ 1 2, .wrote ⟨.repeated 16 7⟩ 0 1,
      .wrote ⟨.repeated 16 7⟩ 1 2, .wrote ⟨.repeated 16 7⟩ 0 1] := by decide +kernel
  rw [hlog]
  constructor
  · intro h
    have h := (h [] [.wrote ⟨.repeated 16 7⟩ 0 1, .wrote ⟨.repeated 16 7⟩ 1 2] [] ⟨.repeated 16 7⟩ 1 2
      (.wrote ⟨.repeated 16 7⟩ 0 1) rfl Nat.one_pos ⟨rfl, rfl⟩).1
    simp [versionsOf] at h
  · intro h
    have h := h ⟨.repeated 16 7⟩
    simp [versionsOf] at h

end Misty
