import Misty.Server.Routes
import Misty.Sync.Known
import Misty.Sync.Drive

/- The server as the other side of a run. A `Service` is the server and every row it
   has had, by id and version; it answers what its routes answer, or the answer is
   lost, and between two answers other clients are served and old rows are swept.

   What an honest server told is what it showed: each answer a run has received is
   the answer of a server whose rows are among those held (`Traced.truthful`). -/
namespace Misty

open LawfulStore (view)

/-- What a server shows: each row with its version and its bytes. -/
def Server.shows (self : Server) : Set (ItemId × Nat × Option Bytes) :=
  {p | ∃ row, self.rows[p.1]? = some row ∧ p.2 = (row.version, row.envelope)}

/-- A server, and every row it has had. -/
structure Service where
  server : Server
  held : Set (ItemId × Nat × Option Bytes)

/-- The server moves on. -/
def Service.become (self : Service) (server : Server) : Service := ⟨server, self.held ∪ server.shows⟩

/-- A server that remembers no row but those it has. -/
def Service.Fresh (self : Service) : Prop := self.held = self.server.shows

variable (config : ServerConfig)

/-- A request reaches the server at some time, or does not reach it; an answer may be lost. -/
inductive Service.Serves (request : Request) (x : Service) : Except SyncError Response → Service → Prop
  | answered (now : Int) : Serves request x (.ok (respond config now x.server request).1)
      (x.become (respond config now x.server request).2)
  | lost (now : Int) (error : SyncError) : Serves request x (.error error)
      (x.become (respond config now x.server request).2)
  | refused (error : SyncError) : Serves request x (.error error) x

/-- Another client is served, or old rows are swept. -/
inductive Service.Moves (others : Request → Prop) (x : Service) : Service → Prop
  | served (now : Int) {request : Request} : others request →
      Moves others x (x.become (respond config now x.server request).2)
  | swept (horizon : Int) : Moves others x (x.become (x.server.sweep horizon))

/-- The honest server, and the requests the other clients may make. -/
def honest (others : Request → Prop) : Peer Service where
  serve := Service.Serves config
  moves := Service.Moves config others

variable {config} {others : Request → Prop}

namespace Service

/-- The server's rows are held. -/
def Sound (self : Service) : Prop := self.server.shows ⊆ self.held

theorem Fresh.sound {x : Service} (h : x.Fresh) : x.Sound := by
  unfold Sound
  rw [h]

theorem sound_become (x : Service) (server : Server) : (x.become server).Sound := Set.subset_union_right

theorem held_become (x : Service) (server : Server) : x.held ⊆ (x.become server).held := Set.subset_union_left

theorem Serves.keeps {request : Request} {x x' : Service} {a : Except SyncError Response}
    (h : Serves config request x a x') (hx : x.Sound) : x'.Sound ∧ x.held ⊆ x'.held := by
  cases h with
  | answered now => exact ⟨x.sound_become _, x.held_become _⟩
  | lost now error => exact ⟨x.sound_become _, x.held_become _⟩
  | refused error => exact ⟨hx, subset_rfl⟩

theorem Moves.keeps {x x' : Service} (h : Moves config others x x') : x'.Sound ∧ x.held ⊆ x'.held := by
  cases h with
  | served now _ => exact ⟨x.sound_become _, x.held_become _⟩
  | swept horizon => exact ⟨x.sound_become _, x.held_become _⟩

end Service

/-! ## What was told -/

variable {S : Type} [LawfulStore S] {E : Externals} {C : Permit S Service}

/-- An answer the server gave, its rows before and after among those held. -/
def Service.Gave (config : ServerConfig) (held : Set (ItemId × Nat × Option Bytes)) (request : Request)
    (response : Response) : Prop :=
  ∃ now server, response = (respond config now server request).1 ∧ server.shows ⊆ held ∧
    (respond config now server request).2.shows ⊆ held

theorem Service.Gave.mono {held held' : Set (ItemId × Nat × Option Bytes)} {request : Request} {response : Response}
    (hsub : held ⊆ held') (h : Gave config held request response) : Gave config held' request response := by
  obtain ⟨now, server, hresponse, hbefore, hafter⟩ := h
  exact ⟨now, server, hresponse, hbefore.trans hsub, hafter.trans hsub⟩

/-- The rows are held, and every answer was given. -/
structure World.Truthful (config : ServerConfig) (w : World S Service) : Prop where
  sound : w.peer.Sound
  told : ∀ request response, (request, response) ∈ w.told → Service.Gave config w.peer.held request response

omit [LawfulStore S] in
theorem World.Truthful.move {w w' : World S Service} (h : w.Truthful config) (htold : w'.told = w.told)
    (hpeer : w'.peer.Sound ∧ w.peer.held ⊆ w'.peer.held) : w'.Truthful config := by
  refine ⟨hpeer.1, ?_⟩
  intro request response hmem
  rw [htold] at hmem
  exact (h.told request response hmem).mono hpeer.2

theorem WorldStep.truthful {st : SyncState} {w w' : World S Service} (h : WorldStep E (honest config others) C st w w')
    (hw : w.Truthful config) : w'.Truthful config := by
  cases h with
  | moved hm =>
    obtain ⟨x, hmoves, rfl, -⟩ := hm
    exact hw.move rfl hmoves.keeps
  | read _ | edited _ | rotated _ _ _ | noted => exact hw.move rfl ⟨hw.sound, subset_rfl⟩
  | sent _ hserved =>
    obtain ⟨x, hserves, rfl, -⟩ := hserved
    have hkeeps := Service.Serves.keeps hserves hw.sound
    cases hserves with
    | answered now =>
      refine ⟨hkeeps.1, ?_⟩
      intro request response hmem
      rcases Set.mem_insert_iff.mp hmem with heq | hmem
      · cases heq
        exact ⟨now, w.peer.server, rfl, hw.sound.trans hkeeps.2, hkeeps.1⟩
      · exact (hw.told request response hmem).mono hkeeps.2
    | lost now error => exact hw.move rfl hkeeps
    | refused error => exact hw.move rfl hkeeps
  | lost _ hserve _ => exact hw.move rfl (Service.Serves.keeps hserve hw.sound)
  | merged hp =>
    obtain ⟨⟨amb, hanswer⟩, -⟩ := hp
    unfold World.merge at hanswer
    split at hanswer <;> cases hanswer <;> exact hw.move rfl ⟨hw.sound, subset_rfl⟩

/-- An honest server told only what it had. -/
theorem Traced.truthful {st : SyncState} {w : World S Service}
    (h : Traced E (honest config others) C Service.Fresh st w) : w.Truthful config := by
  induction h with
  | fresh hw hstart =>
    refine ⟨hstart.sound, ?_⟩
    intro request response hmem
    rw [hw.told] at hmem
    exact hmem.elim
  | @step st st' w w' _ hmove ih =>
    rcases hmove.steps with hsteps | hreopened
    · clear hmove
      induction hsteps with
      | refl => exact ih
      | tail _ hstep ih => exact hstep.truthful ih
    · cases hreopened with
      | intro _ _ _ => exact ih.move rfl ⟨ih.sound, subset_rfl⟩

/-! ## Values for the worked instances -/

/-- The limits of a small server. -/
def ServerConfig.sample : ServerConfig := ⟨MAX_ENVELOPE_LEN, ⟨100, 2 ^ 20⟩, 512⟩

/-- A server nothing was written to. -/
def Service.empty : Service := ⟨.new, ∅⟩

theorem Service.fresh_empty : Service.empty.Fresh := by
  refine Set.ext fun p => ⟨fun h => h.elim, ?_⟩
  intro h
  obtain ⟨row, hrow, -⟩ := h
  simp [empty, Server.new] at hrow

/-- Device 1 against an honest server that is always reached. -/
def Driver.honest : Driver Service where
  amb := .sample 5
  serve request x :=
    (.ok (respond .sample 0 x.server request).1, x.become (respond .sample 0 x.server request).2)

theorem Driver.serves_honest (request : Request) (x : Service) :
    (Misty.honest .sample others).serve request x (Driver.honest.serve request x).1 (Driver.honest.serve request x).2 :=
  .answered 0

/-- A request of another client. -/
def Act.other (request : Request) : Act Service := .move fun x => x.become (respond .sample 0 x.server request).2

end Misty
