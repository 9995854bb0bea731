import Mathlib.Algebra.Group.Int.Defs
import Mathlib.Algebra.Group.Nat.Defs
import QueryClient.Proofs.Cursor.Progress

/-!
# A scrollable cursor refines the plain cursor over the list

Over a source that serves a table, each call on a scrollable cursor either times out and leaves the
position, or gives the answer of the plain cursor and ends where that one does (`Agrees`). What a
sequence of calls shows is then what the plain cursor shows, and a call times out only with what it
asked of the source last (`transcript_retraces`).
-/

namespace QueryClient.Cursor

open Relation (ReflTransGen)
open Attempt Nav

variable {σ H α : Type} {source : BatchSource σ H} {d e : Desk σ H} {table : List Row}
  {rounds : Nat} {position : Position}

/-- A call times out and leaves the position, or it has the answer and ends at the position of the
plain cursor. -/
def Agrees (plain : Except Fault α × Position) (before : Position) (r : Except Stop α)
    (e : Desk σ H) : Prop :=
  (∃ fault, r = .error (.fault fault) ∧ fault.isTimeout = true ∧ e.cursor.position = before) ∨
    r = plain.1.mapError .fault ∧ e.cursor.position = plain.2

section Served

variable (hm : Mirrors table d.cursor) (hrounds : table.length + 3 ≤ rounds)
  (hserves : Serves table e.cursor.ledger)

include hm hrounds hserves

/-- A search for a row tells whether the table has it, unless it times out. -/
theorem seekRow_served {target : Int} (htarget : 1 ≤ target) {heading : Heading}
    {r : Except Stop Bool}
    (hexec : exec (seek source (.row target heading) (pure ()) rounds false) d = (r, e)) :
    e.cursor.position = d.cursor.position ∧
      ((∃ fault, r = .error (.fault fault) ∧ fault.isTimeout = true) ∨
        r = .ok (target ≤ table.length)) := by
  have hleft := searchLeft_le table d.cursor
  obtain ⟨hm₁, hpos, htimeout | ⟨found, hok, hfind⟩⟩ :=
    search_served (row_ends htarget heading) hm (by omega) hexec hserves
  · exact ⟨hpos, .inl htimeout⟩
  · refine ⟨hpos, .inr ?_⟩
    rw [hok]
    cases found with
    | true =>
      obtain ⟨cells, hrow⟩ := of_findRow_true hfind
      have hle := hm₁.le_length (contains_of_rowAt hrow)
      simp [hle]
    | false =>
      obtain ⟨last, hlast, hlt⟩ := of_findRow_false hfind
      rw [hm₁.finalRow last hlast] at hlt
      simp [hlt]

theorem moveTo_agrees {target : Int} {heading : Heading} {r : Except Stop Bool}
    (hpos : d.cursor.position = position)
    (hexec : exec (moveTo source rounds target heading) d = (r, e)) :
    Agrees (ListCursor.goTo table.length target) position r e := by
  have horderly : Orderly source (moveTo source rounds target heading) d := .moveTo hm.sound ..
  have hturned : Mirrors table (d.turn heading).cursor := by
    have hturn : Still source d (d.turn heading) := .turn d heading
    have hledger := ledger_of_steps (steps_of_strides horderly.strides)
    rw [hexec] at hledger
    exact hm.of_still hturn (hserves.of_suffix hledger)
  have hreach : isOutOfReach d.cursor target = false := by
    simp [isOutOfReach, isForwardOnly, hm.scrollable]
  unfold ListCursor.goTo
  by_cases htarget : target < 1
  · rw [exec_moveTo, hreach, if_neg (by decide), if_pos htarget] at hexec
    rw [if_pos htarget]
    cases hexec
    exact .inr ⟨rfl, rfl⟩
  rw [if_neg htarget]
  have hone := Int.not_lt.1 htarget
  obtain ⟨found, ahead, hseek, hledger, -, hends⟩ := seek_of_moveTo hm.sound hone hreach hexec
  rcases (seekRow_served hturned hrounds (hserves.of_suffix ⟨ahead, hledger.symm⟩) hone hseek).2 with
    ⟨fault, rfl, ht⟩ | rfl
  · exact .inl ⟨fault, rfl, ht, hends.trans hpos⟩
  · by_cases hle : target ≤ table.length
    · rw [if_pos hle]
      exact .inr ⟨by simp [hle, Except.mapError], by simpa [hle, arrival] using hends⟩
    · rw [if_neg hle]
      exact .inr ⟨by simp [hle, Except.mapError], by simpa [hle, arrival] using hends⟩

theorem ensureFinalKnown_served {r : Except Stop Int}
    (hexec : exec (ensureFinalKnown source rounds) d = (r, e)) :
    Mirrors table e.cursor ∧ e.cursor.position = d.cursor.position ∧
      ((∃ fault, r = .error (.fault fault) ∧ fault.isTimeout = true) ∨
        r = .ok (table.length : Int)) := by
  have hleft := endLeft_le hm
  obtain ⟨hm₁, hpos, htimeout | ⟨last, hok, hfind⟩⟩ :=
    search_served finalRow_ends hm (by omega) hexec hserves
  · exact ⟨hm₁, hpos, .inl htimeout⟩
  · have hlast : e.cursor.finalRow = some last := by
      simpa [Quest.finalRow, Option.map_eq_some_iff] using hfind
    rw [hm₁.finalRow last hlast] at hok
    exact ⟨hm₁, hpos, .inr hok⟩

theorem hasRow_served {row : Int} (hrow : 1 ≤ row) {r : Except Stop Bool}
    (hexec : exec (hasRow source rounds row) d = (r, e)) :
    e.cursor.position = d.cursor.position ∧
      ((∃ fault, r = .error (.fault fault) ∧ fault.isTimeout = true) ∨
        r = .ok (row ≤ table.length)) := by
  have hleft := searchLeft_le table d.cursor
  obtain ⟨hm₁, hpos, htimeout | ⟨found, hok, hfind⟩⟩ :=
    search_served (existence_ends hrow) hm (by omega) hexec hserves
  · exact ⟨hpos, .inl htimeout⟩
  · refine ⟨hpos, .inr ?_⟩
    rw [hok]
    simp only [Quest.existence, existsRow] at hfind
    split at hfind
    · next hcontains =>
      have hle := hm₁.le_length hcontains
      cases hfind
      simp [hle]
    · cases hlast : e.cursor.finalRow with
      | none =>
        rw [hlast] at hfind
        cases hfind
      | some last =>
        rw [hlast] at hfind
        cases hfind
        rw [hm₁.finalRow last hlast]

end Served

/-! ## Preconditions -/

theorem exec_ensureOpen (hm : Mirrors table d.cursor) :
    exec (ofExcept d.cursor.ensureOpen) d = (.ok (), d) :=
  exec_ensureOpen_of_opened hm.opened

theorem exec_ensureScrollable (hm : Mirrors table d.cursor) (operation : String) :
    exec (ensureScrollable operation) d = (.ok (), d) :=
  exec_ensureScrollable_of_scrollable hm.scrollable operation

/-! ## Moves -/

/-- Row numbers that leave their range lie past either end. -/
theorem ListCursor.goTo_clamp {length target : Int} (hlength : length < 2 ^ 62) :
    goTo length (clamp target) = goTo length target := by
  unfold goTo clamp
  by_cases hlow : target < 1
  · rw [if_pos hlow, if_pos (by omega)]
  · by_cases hhigh : target ≤ length
    · rw [if_neg hlow, if_pos hhigh, if_neg (by omega), if_pos (by omega)]
      congr 2
      omega
    · rw [if_neg hlow, if_neg hhigh, if_neg (by omega), if_neg (by omega)]

theorem agrees_of_timeout {plain : Except Fault α × Position} {r : Except Stop α}
    (htimeout : ∃ fault, r = .error (.fault fault) ∧ fault.isTimeout = true)
    (hpos : e.cursor.position = position) : Agrees plain position r e := by
  obtain ⟨fault, hr, ht⟩ := htimeout
  exact .inl ⟨fault, hr, ht, hpos⟩

theorem agrees_of_answer {plain : Except Fault α × Position} {a : α} (hanswer : plain.1 = .ok a)
    (hpos : e.cursor.position = plain.2) : Agrees plain position (.ok a) e := by
  refine .inr ⟨?_, hpos⟩
  rw [hanswer]
  rfl

section Moves

variable (hm : Mirrors table d.cursor) (hpos : d.cursor.position = position)
  (hrounds : table.length + 3 ≤ rounds) (hserves : Serves table e.cursor.ledger)
  {r : Except Stop Bool}

include hm hpos hrounds hserves

theorem next_agrees (hexec : exec (next source rounds) d = (r, e)) :
    Agrees (ListCursor.move table.length position .next) position r e := by
  unfold next at hexec
  rw [exec_bind_ok (exec_cursor d), exec_bind_ok (exec_ensureOpen hm), hpos] at hexec
  cases position with
  | beforeFirst => exact moveTo_agrees hm hrounds hserves hpos hexec
  | onRow n =>
    simp only at hexec
    rw [exec_bind_ok (exec_sum ..)] at hexec
    exact moveTo_agrees (d := noted d _) hm hrounds hserves hpos hexec
  | afterLast =>
    cases hexec
    exact .inr ⟨rfl, hpos⟩

/-- What follows a search for the end starts from where the final row is known. -/
theorem agrees_of_finalRow {f : Int → Nav σ H Bool} {plain : Except Fault Bool × Position}
    (hexec : exec (ensureFinalKnown source rounds >>= f) d = (r, e))
    (horderly : ∀ last d, Sound d.cursor → Orderly source (f last) d)
    (hf : ∀ d : Desk σ H, Mirrors table d.cursor → d.cursor.position = position →
      exec (f table.length) d = (r, e) → Agrees plain position r e) :
    Agrees plain position r e := by
  rcases hknown : exec (ensureFinalKnown source rounds) d with ⟨stop | last, d₁⟩
  · rw [exec_bind_error hknown] at hexec
    cases hexec
    obtain ⟨-, hkept, htimeout | hok⟩ := ensureFinalKnown_served hm hrounds hserves hknown
    · obtain ⟨fault, hstop, ht⟩ := htimeout
      cases hstop
      exact .inl ⟨fault, rfl, ht, hkept.trans hpos⟩
    · cases hok
  · rw [exec_bind_ok hknown] at hexec
    have hsearch : Quiet source (ensureFinalKnown source rounds) d := .ensureFinalKnown rounds
    have hsound := hm.sound.of_stills (hsearch.stills hknown)
    have hledger := ledger_of_steps (steps_of_strides (horderly last d₁ hsound).strides)
    rw [hexec] at hledger
    obtain ⟨hm₁, hkept, ⟨fault, hstop, -⟩ | hok⟩ :=
      ensureFinalKnown_served hm hrounds (hserves.of_suffix hledger) hknown
    · cases hstop
    · cases hok
      exact hf d₁ hm₁ (hkept.trans hpos) hexec

theorem previous_agrees (hexec : exec (previous source rounds) d = (r, e)) :
    Agrees (ListCursor.move table.length position .previous) position r e := by
  unfold previous at hexec
  rw [exec_bind_ok (exec_cursor d), exec_bind_ok (exec_ensureOpen hm), hpos] at hexec
  cases position with
  | beforeFirst =>
    cases hexec
    exact .inr ⟨rfl, hpos⟩
  | onRow n =>
    simp only at hexec
    rw [exec_bind_ok (exec_sum ..)] at hexec
    exact moveTo_agrees (d := noted d _) hm hrounds hserves hpos hexec
  | afterLast =>
    simp only at hexec
    cases hlast : d.cursor.finalRow with
    | some last =>
      simp only [hlast, hm.finalRow last hlast] at hexec
      exact moveTo_agrees hm hrounds hserves hpos hexec
    | none =>
      simp only [hlast] at hexec
      rw [exec_bind_ok (exec_ensureScrollable hm _)] at hexec
      refine agrees_of_finalRow hm hpos hrounds hserves hexec (fun _ _ hs => .moveTo hs ..) ?_
      intro d₁ hm₁ hpos₁ hexec₁
      exact moveTo_agrees hm₁ hrounds hserves hpos₁ hexec₁

theorem absolute_agrees {row : Int} (hexec : exec (absolute source rounds row) d = (r, e)) :
    Agrees (ListCursor.move table.length position (.absolute row)) position r e := by
  unfold absolute at hexec
  rw [exec_bind_ok (exec_cursor d), exec_bind_ok (exec_ensureOpen hm)] at hexec
  simp only [ListCursor.move]
  by_cases hzero : row = 0
  · simp only [hzero, if_true] at hexec ⊢
    cases hexec
    exact .inr ⟨rfl, hpos⟩
  simp only [hzero, if_false] at hexec ⊢
  by_cases hneg : row < 0
  · simp only [hneg, if_true] at hexec ⊢
    rw [exec_bind_ok (exec_ensureScrollable hm _)] at hexec
    refine agrees_of_finalRow hm hpos hrounds hserves hexec (fun last d hs => ?_) ?_
    · exact .fromEnd hs rounds last row
    · intro d₁ hm₁ hpos₁ hexec₁
      rw [exec_bind_ok (exec_sum ..), exec_bind_ok (exec_sum ..)] at hexec₁
      by_cases htarget : (table.length : Int) + 1 + row < 1
      · simp only [htarget, if_true] at hexec₁
        cases hexec₁
        rw [ListCursor.goTo, if_pos htarget]
        exact .inr ⟨rfl, rfl⟩
      · simp only [htarget, if_false] at hexec₁
        rw [exec_bind_ok (exec_cursor _)] at hexec₁
        exact moveTo_agrees (d := noted (noted d₁ _) _) hm₁ hrounds hserves hpos₁ hexec₁
  · simp only [hneg, if_false] at hexec ⊢
    rw [exec_bind_ok (exec_cursor d)] at hexec
    exact moveTo_agrees hm hrounds hserves hpos hexec

theorem relative_agrees (hlength : table.length < 2 ^ 62) {delta : Int}
    (hexec : exec (relative source rounds delta) d = (r, e)) :
    Agrees (ListCursor.move table.length position (.relative delta)) position r e := by
  unfold relative at hexec
  rw [exec_bind_ok (exec_cursor d), exec_bind_ok (exec_ensureOpen hm), hpos] at hexec
  cases position with
  | beforeFirst =>
    cases hexec
    exact .inr ⟨rfl, hpos⟩
  | afterLast =>
    cases hexec
    exact .inr ⟨rfl, hpos⟩
  | onRow n =>
    simp only at hexec
    by_cases hzero : delta = 0
    · simp only [hzero, if_true] at hexec
      obtain ⟨cells, hrow⟩ := hm.anchored.current hm.opened n hpos
      have hone := hm.sound.one_le_row n hpos
      have hle := hm.le_length (contains_of_rowAt hrow)
      rw [hrow, exec_bind_ok (exec_ofExcept ..)] at hexec
      cases hexec
      simp only [ListCursor.move, ListCursor.goTo, hzero, Int.add_zero]
      rw [if_neg (by omega), if_pos hle]
      exact .inr ⟨rfl, hpos⟩
    · simp only [hzero, if_false] at hexec
      have hgo := moveTo_agrees hm hrounds hserves hpos hexec
      rwa [ListCursor.goTo_clamp (by omega)] at hgo

theorem first_agrees (hexec : exec (first source rounds) d = (r, e)) :
    Agrees (ListCursor.move table.length position .first) position r e := by
  unfold first at hexec
  rw [exec_bind_ok (exec_cursor d), exec_bind_ok (exec_ensureOpen hm),
    exec_bind_ok (exec_ensureScrollable hm _)] at hexec
  exact absolute_agrees hm hpos hrounds hserves hexec

theorem last_agrees (hexec : exec (last source rounds) d = (r, e)) :
    Agrees (ListCursor.move table.length position .last) position r e := by
  unfold last at hexec
  rw [exec_bind_ok (exec_cursor d), exec_bind_ok (exec_ensureOpen hm),
    exec_bind_ok (exec_ensureScrollable hm _)] at hexec
  have habsolute := absolute_agrees hm hpos hrounds hserves hexec
  have hlast : (table.length : Int) + 1 + -1 = table.length := by omega
  simp only [ListCursor.move, hlast] at habsolute
  rwa [if_neg (by decide), if_pos (by decide)] at habsolute

theorem isLast_agrees (hexec : exec (isLast source rounds) d = (r, e)) :
    Agrees (ListCursor.move table.length position .isLast) position r e := by
  unfold isLast at hexec
  rw [exec_bind_ok (exec_cursor d), exec_bind_ok (exec_ensureOpen hm), hpos] at hexec
  cases position with
  | beforeFirst =>
    cases hexec
    exact agrees_of_answer (by simp [ListCursor.move]) hpos
  | afterLast =>
    cases hexec
    exact agrees_of_answer (by simp [ListCursor.move]) hpos
  | onRow n =>
    simp only at hexec
    obtain ⟨cells, hrow⟩ := hm.anchored.current hm.opened n hpos
    have hone := hm.sound.one_le_row n hpos
    have hle := hm.le_length (contains_of_rowAt hrow)
    rw [exec_bind_ok (exec_sum ..), exec_bind_pure] at hexec
    cases hexec
    obtain ⟨hkept, htimeout | hok⟩ :=
      hasRow_served (d := noted d _)
        (r := (exec (hasRow source rounds (n + 1)) (noted d [n + 1])).1) hm hrounds hserves
        (by omega) rfl
    · obtain ⟨fault, hstop, ht⟩ := htimeout
      exact .inl ⟨fault, by rw [hstop]; rfl, ht, hkept.trans hpos⟩
    · rw [hok]
      refine agrees_of_answer ?_ (hkept.trans hpos)
      simp only [ListCursor.move, Position.onRow.injEq, ← decide_not]
      congr 2
      exact propext ⟨fun h => by omega, fun h => by omega⟩

theorem isBeforeFirst_agrees (hexec : exec (isBeforeFirst source rounds) d = (r, e)) :
    Agrees (ListCursor.move table.length position .isBeforeFirst) position r e := by
  unfold isBeforeFirst at hexec
  rw [exec_bind_ok (exec_cursor d), exec_bind_ok (exec_ensureOpen hm), hpos] at hexec
  by_cases hbefore : position = .beforeFirst
  · simp only [hbefore, if_true] at hexec
    obtain ⟨hkept, htimeout | hok⟩ := hasRow_served hm hrounds hserves (Int.le_refl 1) hexec
    · exact agrees_of_timeout htimeout (hkept.trans hpos)
    · rw [hok]
      refine agrees_of_answer ?_ (hkept.trans hpos)
      simp only [ListCursor.move, hbefore, decide_true, Bool.true_and]
      congr 2
  · simp only [hbefore, if_false] at hexec
    cases hexec
    exact agrees_of_answer (by simp [ListCursor.move, hbefore]) hpos

theorem move_agrees (hlength : table.length < 2 ^ 62) (m : Move)
    (hexec : exec (m.perform source rounds) d = (r, e)) :
    Agrees (ListCursor.move table.length position m) position r e := by
  cases m with
  | next => exact next_agrees hm hpos hrounds hserves hexec
  | previous => exact previous_agrees hm hpos hrounds hserves hexec
  | absolute row => exact absolute_agrees hm hpos hrounds hserves hexec
  | relative delta => exact relative_agrees hm hpos hrounds hserves hlength hexec
  | first => exact first_agrees hm hpos hrounds hserves hexec
  | last => exact last_agrees hm hpos hrounds hserves hexec
  | isLast => exact isLast_agrees hm hpos hrounds hserves hexec
  | isBeforeFirst => exact isBeforeFirst_agrees hm hpos hrounds hserves hexec

end Moves

/-! ## Calls -/

theorem Agrees.map {β : Type} {f : α → β} {plain : Except Fault α × Position} {r : Except Stop α}
    (h : Agrees plain position r e) : Agrees (plain.1.map f, plain.2) position (r.map f) e := by
  rcases h with ⟨fault, rfl, ht, hpos⟩ | ⟨rfl, hpos⟩
  · exact .inl ⟨fault, rfl, ht, hpos⟩
  · refine .inr ⟨?_, hpos⟩
    cases plain.1 <;> rfl

/-- **A call** over a source that serves a table does what it does over the plain cursor, unless it
times out. -/
theorem call_agrees (hm : Mirrors table d.cursor) (hlength : table.length < 2 ^ 62)
    (hrounds : table.length + 3 ≤ rounds) {call : Call} (hcall : call ≠ .close)
    {r : Except Stop (Option Bool)} (hexec : exec (call.perform source rounds) d = (r, e))
    (hserves : Serves table e.cursor.ledger) :
    Agrees (ListCursor.call table.length d.cursor.position call) d.cursor.position r e ∧
      Mirrors table e.cursor := by
  have hstrides : ReflTransGen (Stride source) d (exec (call.perform source rounds) d).2 :=
    (call_orderly hm.sound rounds hcall).strides
  rw [hexec] at hstrides
  refine ⟨?_, hm.of_strides hstrides hserves⟩
  cases call with
  | move m =>
    simp only [Call.perform, exec_map] at hexec
    cases hexec
    exact (move_agrees hm rfl hrounds hserves hlength m rfl).map
  | beforeFirst =>
    simp only [Call.perform, beforeFirst, exec_bind_ok (exec_cursor d),
      exec_bind_ok (exec_ensureOpen hm), exec_bind_ok (exec_ensureScrollable hm _),
      exec_bind_pure] at hexec
    cases hexec
    exact .inr ⟨rfl, rfl⟩
  | afterLast =>
    simp only [Call.perform, afterLast, exec_bind_ok (exec_cursor d),
      exec_bind_ok (exec_ensureOpen hm), exec_bind_ok (exec_ensureScrollable hm _),
      exec_bind_pure] at hexec
    cases hexec
    exact .inr ⟨rfl, rfl⟩
  | close => exact absurd rfl hcall

/-! ## Sequences of calls -/

/-- What one sees of a call: its answer, and then the position and the current row. -/
structure Glimpse where
  answer : Except Stop (Option Bool)
  position : Position
  row : Except Fault Row

/-- What one sees of a sequence of calls, each with the rounds it may go. -/
def transcript (source : BatchSource σ H) : List (Nat × Call) → Desk σ H → List Glimpse
  | [], _ => []
  | (rounds, call) :: calls, d =>
    let e := (exec (call.perform source rounds) d).2
    ⟨(exec (call.perform source rounds) d).1, e.cursor.position, e.cursor.row⟩ ::
      transcript source calls e

/-- The desk after a sequence of calls. -/
def afterCalls (source : BatchSource σ H) : List (Nat × Call) → Desk σ H → Desk σ H
  | [], d => d
  | (rounds, call) :: calls, d => afterCalls source calls (exec (call.perform source rounds) d).2

/-- The ledger after each of a sequence of calls. -/
def ledgers (source : BatchSource σ H) : List (Nat × Call) → Desk σ H → List (List (Ask H))
  | [], _ => []
  | (rounds, call) :: calls, d =>
    let e := (exec (call.perform source rounds) d).2
    e.cursor.ledger :: ledgers source calls e

/-- What one sees of a sequence of calls on the plain cursor, when any of them may time out and do
nothing. One may when what it asked of its source last timed out, by the ledgers before the calls
and after each of them. -/
inductive Retraces (table : List Row) :
    Position → List (Ask H) → List Call → List (List (Ask H)) → List Glimpse → Prop
  | nil {position : Position} {before : List (Ask H)} : Retraces table position before [] [] []
  | timedOut {position : Position} {before after : List (Ask H)} {call : Call} {calls : List Call}
      {later : List (List (Ask H))} {rest : List Glimpse} {fault : Fault}
      (ht : fault.isTimeout = true) (hblame : IsBlamed (.fault fault) before after)
      (h : Retraces table position after calls later rest) :
      Retraces table position before (call :: calls) (after :: later)
        (⟨.error (.fault fault), position, ListCursor.row table position⟩ :: rest)
  | answered {position : Position} {before after : List (Ask H)} {call : Call} {calls : List Call}
      {later : List (List (Ask H))} {rest : List Glimpse}
      (h : Retraces table (ListCursor.call table.length position call).2 after calls later rest) :
      Retraces table position before (call :: calls) (after :: later)
        (⟨(ListCursor.call table.length position call).1.mapError .fault,
          (ListCursor.call table.length position call).2,
          ListCursor.row table (ListCursor.call table.length position call).2⟩ :: rest)

theorem ledger_of_afterCalls (source : BatchSource σ H) (calls : List (Nat × Call))
    (hs : Sound d.cursor) :
    d.cursor.ledger <:+ (afterCalls source calls d).cursor.ledger := by
  induction calls generalizing d with
  | nil => exact List.suffix_rfl
  | cons first calls ih =>
    obtain ⟨rounds, call⟩ := first
    have hsteps : ReflTransGen (Step source) d _ := call_steps hs rounds call
    exact (ledger_of_steps hsteps).trans (ih (hs.of_steps hsteps))

theorem transcript_retraces_of_mirrors (hlength : table.length < 2 ^ 62) {calls : List (Nat × Call)}
    (hm : Mirrors table d.cursor)
    (hcalls : ∀ call ∈ calls, table.length + 3 ≤ call.1 ∧ call.2 ≠ .close)
    (hserves : Serves table (afterCalls source calls d).cursor.ledger) :
    Retraces table d.cursor.position d.cursor.ledger (calls.map Prod.snd) (ledgers source calls d)
      (transcript source calls d) := by
  induction calls generalizing d with
  | nil => exact .nil
  | cons first calls ih =>
    obtain ⟨rounds, call⟩ := first
    have hfirst := hcalls (rounds, call) List.mem_cons_self
    simp only at hfirst
    have hsteps : ReflTransGen (Step source) d _ := call_steps hm.sound rounds call
    have hledger := ledger_of_afterCalls source calls (hm.sound.of_steps hsteps)
    have hexec : exec (call.perform source rounds) d = ((exec (call.perform source rounds) d).1,
      (exec (call.perform source rounds) d).2) := rfl
    obtain ⟨hagrees, hm'⟩ := call_agrees hm hlength hfirst.1 hfirst.2 hexec
      (hserves.of_suffix hledger)
    have hrest := ih hm' (fun call hcall => hcalls call (List.mem_cons_of_mem _ hcall)) hserves
    rw [List.map_cons, transcript, ledgers, hm'.row_eq]
    rcases hagrees with ⟨fault, hr, ht, hpos⟩ | ⟨hr, hpos⟩
    · have hblame := (call_orderly hm.sound rounds hfirst.2).blame (.fault fault) hr
      rw [hpos] at hrest
      rw [hr, hpos]
      exact .timedOut ht hblame hrest
    · rw [hpos] at hrest
      rw [hr, hpos]
      exact .answered hrest

/-- **A scrollable cursor refines the plain cursor over the list.** When the first results and all
that the source answers are of a table, every sequence of calls shows what the plain cursor over
that table shows, but for calls that time out and change nothing, each because the last thing that
it asked of the source did. In particular every call returns: it never takes more than three rounds
beyond the number of rows. -/
theorem transcript_retraces (source : BatchSource σ H) {options : Options} {first : Results}
    (hfetch : options.fetchSize ≠ 0) (hscroll : options.cursorType = .scrollable)
    (hlength : table.length < 2 ^ 62) (hfirst : first.Answers table 1 options.fetchSize.toNat) :
    ∃ c : Cursor H, Cursor.start options first = .ok c ∧ ∀ (s : σ) (calls : List (Nat × Call)),
      (∀ call ∈ calls, table.length + 3 ≤ call.1 ∧ call.2 ≠ .close) →
      Serves table (afterCalls source calls ⟨c, s, false⟩).cursor.ledger →
      Retraces table .beforeFirst [] (calls.map Prod.snd) (ledgers source calls ⟨c, s, false⟩)
        (transcript source calls ⟨c, s, false⟩) := by
  have hstart : Cursor.start options first = .ok ((blank options : Cursor H).extend first) := by
    simp only [Cursor.start, hfetch, if_false, absorb, hfirst.valid]
    rfl
  refine ⟨_, hstart, fun s calls hcalls hserves => ?_⟩
  have hm : Mirrors table ((blank options : Cursor H).extend first) :=
    .of_start hscroll hfirst hstart
  exact transcript_retraces_of_mirrors (d := ⟨_, s, false⟩) hlength hm hcalls hserves

/-- A jump that times out and is made again, and a jump to the end. -/
def Script.tour : List (Nat × Call) :=
  [.absolute 4, .absolute 4, .last].map fun m => (8, .move m)

theorem serves_tour : Serves (Engine.numberedRows 1 5)
    (afterCalls Script.source Script.tour Script.slowDesk).cursor.ledger where
  granted purpose start count atHand outcome hmem := by
    rcases List.mem_cons.1 hmem with heq | hmem
    · cases heq
    rcases List.mem_cons.1 hmem with heq | hmem
    · cases heq
    rcases List.mem_cons.1 hmem with heq | hmem
    · cases heq
      exact ⟨_, rfl⟩
    · cases hmem
  answered flight outcome call hmem := by
    rcases List.mem_cons.1 hmem with heq | hmem
    · cases heq
      exact .inr ⟨_, rfl, rfl, rfl,
        fun _ => ⟨5, by decide, by decide, by decide, rfl, rfl, rfl, .inr rfl⟩,
        fun h => absurd h (by decide)⟩
    rcases List.mem_cons.1 hmem with heq | hmem
    · cases heq
      exact .inl ⟨_, rfl, rfl⟩
    rcases List.mem_cons.1 hmem with heq | hmem
    · cases heq
    · cases hmem

theorem transcript_retraces_tour : Retraces (Engine.numberedRows 1 5) .beforeFirst []
    (Script.tour.map Prod.snd) (ledgers Script.source Script.tour Script.slowDesk)
    (transcript Script.source Script.tour Script.slowDesk) := by
  have hfirst : (Engine.tableBatch 5 1 2).Answers (Engine.numberedRows 1 5) 1 2 :=
    ⟨rfl, rfl, fun _ => ⟨2, by decide, by decide, by decide, rfl, rfl, rfl, .inl rfl⟩,
      fun h => absurd h (by decide)⟩
  have hslow : Cursor.start .inPairs (Engine.tableBatch 5 1 2) = .ok Script.slowDesk.cursor := rfl
  have hfetch : Options.inPairs.fetchSize ≠ 0 := by decide
  obtain ⟨c, hstart, hall⟩ := transcript_retraces Script.source hfetch rfl (by decide) hfirst
  rw [hslow] at hstart
  obtain rfl := Except.ok.inj hstart
  exact hall .slow Script.tour (by decide) serves_tour

end QueryClient.Cursor
