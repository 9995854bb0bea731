import QueryClient.Proofs.Session.Closes
import QueryClient.Proofs.Session.Solo

/-!
# Operations that are completed

The streamers of an execution are used one at a time: each operation is completed before the next
one begins. Then the tasks are never in each other's way, and the scene that operations lead to is
one that turns lead to, none of which interrupts another task.
-/

namespace QueryClient.Session

open Relation (ReflTransGen)

variable {σ : Type}

/-- An operation on an execution or on one of its streamers. -/
inductive Deed where
  | openLob (reference : LobReference)
  | read (i : Nat) (call : Streamer.Retrieval)
  | close (i : Nat)
  | drop (i : Nat)
  | closeExecution
deriving DecidableEq, Repr

namespace Closing

/-- Whether the close is not under way. -/
def isResting : Closing → Bool
  | notBegun => true
  | done => true
  | _ => false

theorem eq_of_isResting {closing : Closing} (h : closing.isResting = true) :
    closing = .notBegun ∨ closing = .done := by
  cases closing with
  | notBegun => exact .inl rfl
  | done => exact .inr rfl
  | _ => cases h

end Closing

namespace Scene

variable (link : Link σ) (e rounds : Nat)

/-- Completes an operation of a streamer whose task is idle. -/
def operate (i : Nat)
    (op : Streamer.Desk (Session σ) Handle → Streamer.Desk (Session σ) Handle)
    (scene : Scene σ) : Scene σ :=
  match scene.seats[i]? with
  | some ⟨streamer, .idle⟩ => scene.seated i (Seat.idle (op ⟨streamer, scene.session⟩))
  | _ => scene

/-- Completes an operation. -/
def perform (scene : Scene σ) : Deed → Scene σ
  | .openLob reference => scene.openLob e reference
  | .read i call => scene.operate i fun desk =>
      (Attempt.exec (call.perform (chunkSource link e) rounds) desk).2
  | .close i => scene.operate i fun desk =>
      (Attempt.exec (Streamer.close (chunkSource link e)) desk).2
  | .drop i => scene.turn link e (.act i .drop)
  | .closeExecution => scene.closed (.done, (exec (closeExecution link e) scene.session).2)

variable {link e rounds} in
theorem session_perform_closeExecution {scene : Scene σ} :
    (scene.perform link e rounds .closeExecution).session =
      (exec (closeExecution link e) scene.session).2 :=
  rfl

variable {link e rounds} in
theorem seats_perform_closeExecution {scene : Scene σ} :
    (scene.perform link e rounds .closeExecution).seats = scene.seats :=
  rfl

/-- The scene after some operations. -/
def performAll (deeds : List Deed) (scene : Scene σ) : Scene σ :=
  deeds.foldl (perform link e rounds) scene

/-- Whether no operation is under way. -/
structure Resting (scene : Scene σ) : Prop where
  closing : scene.closing.isResting = true
  seats : ∀ seat ∈ scene.seats, seat.isResting = true

/-- Whether a turn goes on with the one operation that is under way, or begins one while none is. -/
def Alone (scene : Scene σ) : Turn → Prop
  | .openLob _ => False
  | .act _ _ => scene.closing.isResting = true
  | .closeExecution _ => ∀ seat ∈ scene.seats, seat.isResting = true
  | _ => True

/-- A turn that interrupts nobody. -/
inductive Step : Scene σ → Scene σ → Prop
  | turn (turn : Turn) {scene : Scene σ} (alone : scene.Alone turn) :
    Step scene (scene.turn link e turn)

end Scene

section Completing

variable {link : Link σ} {e rounds : Nat} {scene : Scene σ}

/-- What a streamer does is done in the scene. -/
theorem Seat.Step.seated {i : Nat} (hi : i < scene.seats.length)
    (hresting : scene.closing.isResting = true) {p q : Seat × Session σ}
    (h : Seat.Step link e p q) : Scene.Step link e (scene.seated i p) (scene.seated i q) := by
  have hseat : ∀ p : Seat × Session σ, (scene.seated i p).seats[i]? = some p.1 := fun p => by
    simp [Scene.seated, hi]
  cases h with
  | act move seat s =>
    have hturn : (scene.seated i (seat, s)).turn link e (.act i move) =
        scene.seated i (seat.act link e move s) := by
      rw [Scene.turn, hseat]
      simp [Scene.seated]
    exact hturn ▸ .turn (.act i move) hresting
  | listen seat s moment => exact .turn (.listen moment) trivial

theorem Closing.Step.closed {p q : Closing × Session σ} (h : Closing.Step link e p q) :
    Scene.Step link e (scene.closed p) (scene.closed q) := by
  cases h with
  | resume closing s => exact .turn .resume trivial
  | timeOut closing s => exact .turn .timeOut trivial
  | listen closing s moment => exact .turn (.listen moment) trivial

theorem completes_operate {i : Nat}
    (op : Streamer.Desk (Session σ) Handle → Streamer.Desk (Session σ) Handle)
    (hresting : scene.closing.isResting = true)
    (hop : ∀ streamer s, ReflTransGen (Seat.Step link e) (⟨streamer, .idle⟩, s)
      (Seat.idle (op ⟨streamer, s⟩))) :
    ReflTransGen (Scene.Step link e) scene (scene.operate i op) := by
  unfold Scene.operate
  cases hseat : scene.seats[i]? with
  | none => exact .refl
  | some seat =>
    obtain ⟨streamer, stage⟩ := seat
    cases stage with
    | idle =>
      obtain ⟨hi, hget⟩ := List.getElem?_eq_some_iff.1 hseat
      have hself : scene.seated i (⟨streamer, .idle⟩, scene.session) = scene := by
        rw [Scene.seated, ← hget, List.set_getElem_self]
      have hsteps : ReflTransGen (Scene.Step link e)
          (scene.seated i (⟨streamer, .idle⟩, scene.session))
          (scene.seated i (Seat.idle (op ⟨streamer, scene.session⟩))) :=
        (hop streamer scene.session).lift (scene.seated i) fun _ _ h => h.seated hi hresting
      rwa [hself] at hsteps
    | _ => exact .refl

variable (rounds) in
/-- **An operation that is completed is a run of turns** which interrupt nobody. -/
theorem completes_perform (hresting : scene.Resting)
    (hbegun : scene.session.isExecutionClosed e = scene.closing.begun) (deed : Deed)
    (hdeed : ∀ reference, deed ≠ .openLob reference) :
    ReflTransGen (Scene.Step link e) scene (scene.perform link e rounds deed) := by
  cases deed with
  | openLob reference => exact absurd rfl (hdeed reference)
  | read i call =>
    exact completes_operate
      (fun desk => (Attempt.exec (call.perform (chunkSource link e) rounds) desk).2)
      hresting.closing (completes_retrieve call rounds)
  | close i =>
    exact completes_operate
      (fun desk => (Attempt.exec (Streamer.close (chunkSource link e)) desk).2)
      hresting.closing completes_close
  | drop i => exact .single (.turn (.act i .drop) hresting.closing)
  | closeExecution =>
    rcases Closing.eq_of_isResting hresting.closing with hclosing | hclosing
    · rw [hclosing] at hbegun
      obtain ⟨execution, hexecution, hopen⟩ := exists_of_open hbegun
      have hstart : Scene.Step link e scene (scene.closed
          (Closing.start e execution.unreleased .notBegun scene.session)) := by
        have hturn := @Scene.Step.turn _ link e (.closeExecution execution.unreleased) scene
          hresting.seats
        rwa [Scene.turn, hclosing] at hturn
      exact .head hstart ((completes_closeExecution hexecution hopen).lift
        scene.closed fun _ _ h => h.closed)
    · rw [hclosing] at hbegun
      rw [Scene.perform, exec_closeExecution_of_closed hbegun]
      have hsame : scene.closed (.done, scene.session) = scene := by
        rw [Scene.closed, ← hclosing]
      rw [hsame]

/-- After an operation none is under way. -/
theorem resting_perform (hresting : scene.Resting) (deed : Deed) :
    (scene.perform link e rounds deed).Resting := by
  have hset : ∀ (i : Nat) (p : Seat × Session σ), p.1.isResting = true →
      (scene.seated i p).Resting := fun i p hp =>
    ⟨hresting.closing, fun seat hseat => by
      rcases List.mem_or_eq_of_mem_set hseat with hseat | rfl
      · exact hresting.seats seat hseat
      · exact hp⟩
  have hoperate : ∀ i op, (scene.operate i op).Resting := by
    intro i op
    unfold Scene.operate
    split
    · exact hset i _ rfl
    · exact hresting
  cases deed with
  | openLob reference =>
    unfold Scene.perform Scene.openLob
    dsimp only
    split
    · refine ⟨hresting.closing, fun seat hseat => ?_⟩
      rcases List.mem_append.1 hseat with hseat | hseat
      · exact hresting.seats seat hseat
      · rw [List.mem_singleton.1 hseat]
        rfl
    · exact ⟨hresting.closing, hresting.seats⟩
  | read i call =>
    rw [Scene.perform]
    exact hoperate i _
  | close i =>
    rw [Scene.perform]
    exact hoperate i _
  | drop i =>
    unfold Scene.perform Scene.turn
    dsimp only
    cases hseat : scene.seats[i]? with
    | none => exact hresting
    | some seat =>
      have hbefore := hresting.seats seat (List.mem_of_getElem? hseat)
      obtain ⟨streamer, stage⟩ := seat
      refine hset i _ ?_
      cases stage with
      | idle => rfl
      | gone => rfl
      | _ => cases hbefore
  | closeExecution => exact ⟨rfl, hresting.seats⟩

end Completing

end QueryClient.Session
