import QueryClient.Cursor.Script
import QueryClient.Proofs.Cursor.Calls

/-!
# Fetch discipline

The ledger is all that happened to the source: asking the source for what the ledger says, in that
order, gives the outcomes that the ledger says and leaves the source as it is (`Replays`). With that
the discipline of the ledger is the discipline of the cursor towards its source
(`ledger_disciplined`).
-/

namespace QueryClient.Cursor

open Relation (ReflTransGen)
open Attempt Nav

variable {σ H : Type} {source : BatchSource σ H} {d e : Desk σ H}

variable (source) in
/-- A ledger replays on a source when the source, asked the same from state `s` on, gives the same
outcomes and comes to the same state. -/
inductive Replays (timeout : Duration) (s : σ) : List (Ask H) → σ → Prop
  | nothing : Replays timeout s [] s
  | requested {before : List (Ask H)} {t : σ} (h : Replays timeout s before t) (purpose : Purpose)
      (start count : Int) (atHand : Residency) :
      Replays timeout s
        (.requested purpose start count atHand (source.request start count t).1 :: before)
        (source.request start count t).2
  | waited {before : List (Ask H)} {t u : σ} (h : Replays timeout s before t) {flight : Flight H}
      {outcome : Except Fault Results} {call : H}
      (hwait : source.wait timeout flight.call t = (outcome, call, u)) :
      Replays timeout s (.waited flight outcome call :: before) u
  | abandoned {before : List (Ask H)} {t : σ} (h : Replays timeout s before t)
      (flight : Flight H) :
      Replays timeout s (.abandoned flight :: before) (source.abandon flight.call t)
  | closed {before : List (Ask H)} {t : σ} (h : Replays timeout s before t) :
      Replays timeout s (.closed :: before) (source.close t).2

theorem Replays.of_still {s : σ} (hstep : Still source d e)
    (h : Replays source d.cursor.options.timeout s d.cursor.ledger d.source) :
    Replays source d.cursor.options.timeout s e.cursor.ledger e.source := by
  cases hstep with
  | request =>
    rw [requested_ledger]
    exact .requested h ..
  | wait _ hwait =>
    rw [received_ledger]
    exact .waited h hwait
  | _ => exact h

theorem Replays.of_step {s : σ} (hstep : Step source d e)
    (h : Replays source d.cursor.options.timeout s d.cursor.ledger d.source) :
    Replays source d.cursor.options.timeout s e.cursor.ledger e.source := by
  cases hstep with
  | stride hstride =>
    cases hstride with
    | still hstill => exact h.of_still hstill
    | park => exact h
    | stand => exact h
  | shut =>
    cases hflight : d.cursor.flight with
    | none => exact .closed h
    | some flight => exact .closed (.abandoned h flight)

theorem Replays.of_steps {s : σ} (hsteps : ReflTransGen (Step source) d e)
    (h : Replays source d.cursor.options.timeout s d.cursor.ledger d.source) :
    Replays source d.cursor.options.timeout s e.cursor.ledger e.source := by
  induction hsteps with
  | refl => exact h
  | tail hsteps hstep ih =>
    have hoptions := options_of_steps hsteps
    rw [← hoptions] at ih ⊢
    exact ih.of_step hstep

theorem Reachable.options_eq {options : Options} {first : Results} {s : σ}
    (h : Reachable source options first s d) : d.cursor.options = options := by
  obtain ⟨c, hstart, hsteps⟩ := h.steps
  obtain ⟨-, -, rfl⟩ := of_start hstart
  rw [options_of_steps hsteps]
  rfl

theorem Reachable.replays {options : Options} {first : Results} {s : σ}
    (h : Reachable source options first s d) :
    Replays source options.timeout s d.cursor.ledger d.source := by
  obtain ⟨c, hstart, hsteps⟩ := h.steps
  obtain ⟨-, -, rfl⟩ := of_start hstart
  exact Replays.of_steps hsteps .nothing

/-- **Fetch discipline.** Whatever is called on a cursor and whatever its source answers, the ledger
is all that happened to the source, and everything in it was proper when it was asked: a fetch is
only requested while none is outstanding, asks for at most `fetchSize` rows from row one on of which
none is at hand, and has the row that a demand is for; a wait is only for the fetch that is
outstanding, whose earlier waits all timed out. -/
theorem ledger_disciplined {options : Options} {first : Results} {s : σ}
    (h : Reachable source options first s d) :
    Replays source options.timeout s d.cursor.ledger d.source ∧
      Disciplined options.fetchSize.toNat d.cursor.ledger := by
  refine ⟨h.replays, ?_⟩
  have hdisciplined := h.sound.disciplined
  rwa [fetchSize, h.options_eq] at hdisciplined

/-- A scripted source of five rows that is slow to bring the first rows it is asked for. -/
def Script.slow : Script where
  total := 5
  fetches := [.accepted [.fault (.timeout "fetch" (.seconds 1)), .table]]
  closeFault := none
  log := []

/-- A scripted source of five rows that brings all it is asked for. -/
def Script.prompt : Script where
  total := 5
  fetches := []
  closeFault := none
  log := []

/-- Two rows per fetch, in any order. -/
def Options.inPairs : Options where
  cursorType := .scrollable
  fetchSize := 2
  timeout := .seconds 1
  prefetch := true
  savedBatches := 2

/-- A new cursor on the slow source, with the first two rows. -/
def Script.slowDesk : Desk Script (List (Except Fault Results)) where
  cursor := (blank .inPairs).extend (Engine.tableBatch 5 1 2)
  source := .slow
  overflowed := false

theorem reachable_slowDesk :
    Reachable Script.source .inPairs (Engine.tableBatch 5 1 2) .slow Script.slowDesk :=
  .start rfl

/-- A move that times out and is made again requests once and waits twice. -/
theorem ledger_disciplined_slow : ∃ d : Desk Script (List (Except Fault Results)),
    Reachable Script.source .inPairs (Engine.tableBatch 5 1 2) .slow d ∧
      d.cursor.ledger.length = 3 ∧
      Replays Script.source (.seconds 1) .slow d.cursor.ledger d.source ∧
      Disciplined 2 d.cursor.ledger := by
  have hreach := (reachable_slowDesk.call 3 (.move (.absolute 4))).call 3 (.move (.absolute 4))
  exact ⟨_, hreach, rfl, ledger_disciplined hreach⟩

end QueryClient.Cursor
