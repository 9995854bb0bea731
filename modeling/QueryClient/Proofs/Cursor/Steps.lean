import Mathlib.Logic.Relation
import QueryClient.Proofs.Cursor.Ledger

/-!
# The steps of a cursor

Every call on a cursor is a sequence of small steps, and here are all of them, each with what is
known when it is taken. A still step leaves the position alone (`Still`), a stride may come to stand
somewhere (`Stride`), and the only other step closes the cursor (`Step`). What holds of a new cursor
and is kept by each step holds after every call; the first such invariant is `Sound`, which has the
ledger in order.
-/

namespace QueryClient.Cursor

open Relation (ReflTransGen)

variable {σ H : Type} {c : Cursor H}

/-! ## Waits -/

/-- The batch that the outcome of a wait brings, if any. -/
def broughtBy : Except Fault Results → Option Batch
  | .ok results =>
    match results.validate with
    | .ok () => Batch.ofResults? results
    | .error _ => none
  | .error _ => none

theorem of_broughtBy {outcome : Except Fault Results} {b : Batch} (h : broughtBy outcome = some b) :
    ∃ results, outcome = .ok results ∧ results.validate = .ok () ∧
      Batch.ofResults? results = some b := by
  unfold broughtBy at h
  split at h
  · next results =>
    split at h
    · next hvalid => exact ⟨results, rfl, hvalid, h⟩
    · cases h
  · cases h

theorem valid_of_broughtBy {outcome : Except Fault Results} {b : Batch}
    (h : broughtBy outcome = some b) : b.Valid := by
  obtain ⟨results, -, hvalid, hbrought⟩ := of_broughtBy h
  exact Batch.valid_of_ofResults? hvalid hbrought

/-- A batch that is at hand once results are taken in was so before, or is what they bring. -/
theorem mem_extend {results : Results} {b : Batch} (h : b ∈ (c.extend results).rows.batches) :
    b ∈ c.rows.batches ∨ Batch.ofResults? results = some b := by
  simp only [extend] at h
  split at h
  · next brought hbrought =>
    rcases Residency.mem_insert.1 h with rfl | ⟨hmem, -⟩
    · exact .inr hbrought
    · exact .inl hmem
  · exact .inl h

section Received

variable {flight : Flight H} {outcome : Except Fault Results} {call : H}

@[simp] theorem received_ledger : (c.received flight outcome call).2.ledger =
    .waited flight outcome call :: c.ledger := by
  unfold received absorb
  cases outcome with
  | error fault => rfl
  | ok results =>
    cases hv : results.validate <;> simp only [hv] <;> rfl

/-- What belongs neither to a fetch nor to what a batch brings is as it was before the wait. -/
theorem received_kept {β : Type} (part : Cursor H → β)
    (hfetch : ∀ (c : Cursor H) ledger flight,
      part { c with ledger := ledger, flight := flight } = part c)
    (hextend : ∀ (c : Cursor H) results, part (c.extend results) = part c) :
    part (c.received flight outcome call).2 = part c := by
  unfold received absorb
  cases outcome with
  | error fault => exact hfetch c ..
  | ok results =>
    cases hv : results.validate with
    | error fault =>
      simp only [hv]
      exact hfetch c ..
    | ok _ =>
      simp only [hv]
      exact (hextend ..).trans (hfetch c ..)

@[simp] theorem received_options :
    (c.received flight outcome call).2.options = c.options :=
  received_kept Cursor.options (fun _ _ _ => rfl) (fun _ _ => rfl)

@[simp] theorem received_position :
    (c.received flight outcome call).2.position = c.position :=
  received_kept Cursor.position (fun _ _ _ => rfl) (fun _ _ => rfl)

@[simp] theorem received_closed : (c.received flight outcome call).2.closed = c.closed :=
  received_kept Cursor.closed (fun _ _ _ => rfl) (fun _ _ => rfl)

theorem received_flight : (c.received flight outcome call).2.flight =
    match outcome with
    | .error fault => if fault.isTimeout then some { flight with call := call } else none
    | .ok _ => none := by
  unfold received absorb
  cases outcome with
  | error fault => rfl
  | ok results =>
    cases hv : results.validate with
    | error fault => simp only [hv]
    | ok _ =>
      simp only [hv]
      rfl

theorem received_rows : (c.received flight outcome call).2.rows =
    match broughtBy outcome with
    | some b => c.rows.insert b
    | none => c.rows := by
  unfold received absorb broughtBy
  cases outcome with
  | error fault => rfl
  | ok results =>
    cases hv : results.validate <;> simp only [hv] <;> rfl

end Received

section Requested

variable {purpose : Purpose} {span : Span} {outcome : Except Fault H}

@[simp] theorem requested_ledger : (c.requested purpose span outcome).ledger =
    .requested purpose span.start span.count c.rows outcome :: c.ledger := by
  cases outcome <;> rfl

@[simp] theorem requested_options : (c.requested purpose span outcome).options = c.options := by
  cases outcome <;> rfl

@[simp] theorem requested_position :
    (c.requested purpose span outcome).position = c.position := by
  cases outcome <;> rfl

@[simp] theorem requested_closed : (c.requested purpose span outcome).closed = c.closed := by
  cases outcome <;> rfl

@[simp] theorem requested_rows : (c.requested purpose span outcome).rows = c.rows := by
  cases outcome <;> rfl

theorem requested_flight : (c.requested purpose span outcome).flight =
    match outcome with
    | .error _ => c.flight
    | .ok call => some ⟨span.start, span.count, call⟩ := by
  cases outcome <;> rfl

@[simp] theorem requested_finalRow :
    (c.requested purpose span outcome).finalRow = c.finalRow := by
  cases outcome <;> rfl

end Requested

/-! ## Steps -/

/-- What is asked for, and when: a row that is not at hand and may exist, the rows behind all others
while the final row is unknown, or rows ahead of one at hand. -/
inductive Sought (c : Cursor H) : Purpose → Span → Prop
  | demand {target : Int} (heading : Heading) (htarget : 1 ≤ target)
      (hmissing : c.rows.contains target = false)
      (hfinal : c.finalRow.any (· < target) = false) :
      Sought c (.demand target) (spanFor target heading c).1
  | finalRow (hunknown : c.finalRow = none) : Sought c .finalRow (spanPastHighest c).1
  | ahead {row : Int} {span : Span} (hrow : c.rows.contains row = true)
      (hspan : (spanToPrefetch c row).1 = some span) (hcount : 0 < span.count) :
      Sought c .ahead span

theorem Sought.proper {purpose : Purpose} {span : Span} (h : c.rows.Valid)
    (hfetch : 1 ≤ c.fetchSize) (hs : Sought c purpose span) :
    span.Proper c.rows c.fetchSize ∧
      ∀ row, purpose = .demand row → span.start ≤ row ∧ row ≤ span.last := by
  cases hs with
  | demand heading htarget hmissing =>
    obtain ⟨hproper, hstart, hlast⟩ :=
      Residency.demandSpan_proper h hfetch htarget hmissing heading
    refine ⟨hproper, fun row hrow => ?_⟩
    cases hrow
    exact ⟨hstart, hlast⟩
  | finalRow => exact ⟨spanPastHighest_proper h hfetch, fun row hrow => by cases hrow⟩
  | ahead hrow hspan hcount =>
    refine ⟨?_, fun row hrow => by cases hrow⟩
    unfold spanToPrefetch at hspan
    split at hspan
    · exact Residency.spanAhead_proper h hrow hspan hcount
    · split at hspan
      · cases hspan
      · exact Residency.spanBehind_proper h hrow hspan hcount

/-- The desk with the cursor headed another way. -/
def Desk.turn (d : Desk σ H) (heading : Heading) : Desk σ H :=
  { d with cursor := { d.cursor with heading := heading } }

/-- The desk with the cursor at another position. -/
def Desk.place (d : Desk σ H) (position : Position) : Desk σ H :=
  { d with cursor := { d.cursor with position := position } }

variable (source : BatchSource σ H)

/-- A step that leaves the position alone. -/
inductive Still : Desk σ H → Desk σ H → Prop
  | mark (d : Desk σ H) (overflowed : Bool) : Still d { d with overflowed := overflowed }
  | turn (d : Desk σ H) (heading : Heading) : Still d (d.turn heading)
  | evictBehind (d : Desk σ H) {n : Int} (hpos : d.cursor.position = .onRow n) :
      Still d { d with cursor := { d.cursor with rows := d.cursor.rows.evictBehind n } }
  | evictAround (d : Desk σ H) {row : Int} {pinned : Option Int}
      (hpos : ∀ n, d.cursor.position = .onRow n → row = n ∨ pinned = some n) :
      Still d { d with cursor := { d.cursor with
        rows := d.cursor.rows.evictKeeping d.cursor.options.savedBatches row pinned } }
  | request (d : Desk σ H) {purpose : Purpose} {span : Span} (hfree : d.cursor.flight = none)
      (hsought : Sought d.cursor purpose span) :
      Still d { d with
        cursor := d.cursor.requested purpose span
          (source.request span.start span.count d.source).1
        source := (source.request span.start span.count d.source).2 }
  | wait (d : Desk σ H) {flight : Flight H} (hflight : d.cursor.flight = some flight)
      {outcome : Except Fault Results} {call : H} {t : σ}
      (hwait : source.wait d.cursor.options.timeout flight.call d.source = (outcome, call, t)) :
      Still d { d with cursor := (d.cursor.received flight outcome call).2, source := t }

/-- A step that leaves the cursor open. -/
inductive Stride : Desk σ H → Desk σ H → Prop
  | still {d e : Desk σ H} (h : Still source d e) : Stride d e
  | park (d : Desk σ H) {position : Position} (hpark : ∀ n, position ≠ .onRow n) :
      Stride d (d.place position)
  | stand (d : Desk σ H) {row : Int} {cells : Row} (hrow : d.cursor.rows.rowAt row = .ok cells) :
      Stride d (d.place (.onRow row))

/-- A step of a cursor with its source. -/
inductive Step : Desk σ H → Desk σ H → Prop
  | stride {d e : Desk σ H} (h : Stride source d e) : Step d e
  | shut (d : Desk σ H) :
      Step d { d with
        cursor := { d.cursor with
          closed := true
          flight := none
          rows := Residency.empty
          ledger := .closed :: (d.cursor.flight.map Ask.abandoned).toList ++ d.cursor.ledger }
        source := (source.close (match d.cursor.flight with
          | some flight => source.abandon flight.call d.source
          | none => d.source)).2 }

/-! ## What steps leave alone -/

section Kept

variable {source : BatchSource σ H} {d e : Desk σ H}

theorem position_of_still (h : Still source d e) : e.cursor.position = d.cursor.position := by
  cases h with
  | request => exact requested_position
  | wait => exact received_position
  | _ => rfl

theorem closed_of_still (h : Still source d e) : e.cursor.closed = d.cursor.closed := by
  cases h with
  | request => exact requested_closed
  | wait => exact received_closed
  | _ => rfl

theorem options_of_still (h : Still source d e) : e.cursor.options = d.cursor.options := by
  cases h with
  | request => exact requested_options
  | wait => exact received_options
  | _ => rfl

theorem ledger_of_still (h : Still source d e) : d.cursor.ledger <:+ e.cursor.ledger := by
  cases h with
  | request =>
    rw [requested_ledger]
    exact List.suffix_cons ..
  | wait =>
    rw [received_ledger]
    exact List.suffix_cons ..
  | _ => exact List.suffix_rfl

theorem options_of_stride (h : Stride source d e) : e.cursor.options = d.cursor.options := by
  cases h with
  | still h => exact options_of_still h
  | _ => rfl

theorem ledger_of_stride (h : Stride source d e) : d.cursor.ledger <:+ e.cursor.ledger := by
  cases h with
  | still h => exact ledger_of_still h
  | _ => exact List.suffix_rfl

theorem options_of_step (h : Step source d e) : e.cursor.options = d.cursor.options := by
  cases h with
  | stride h => exact options_of_stride h
  | shut => rfl

theorem ledger_of_step (h : Step source d e) : d.cursor.ledger <:+ e.cursor.ledger := by
  cases h with
  | stride h => exact ledger_of_stride h
  | shut => exact List.suffix_append ..

/-- What holds of the batches at hand goes on to hold if it does of every batch that comes in. -/
theorem batches_of_step {P : Batch → Prop} (h : Step source d e)
    (hbefore : ∀ b ∈ d.cursor.rows.batches, P b) (hbrought : ∀ flight outcome call,
      .waited flight outcome call ∈ e.cursor.ledger → ∀ b ∈ broughtBy outcome, P b) :
    ∀ b ∈ e.cursor.rows.batches, P b := by
  intro b hb
  cases h with
  | shut => cases hb
  | stride hstride =>
    cases hstride with
    | park => exact hbefore b hb
    | stand => exact hbefore b hb
    | still hstill =>
      cases hstill with
      | mark => exact hbefore b hb
      | turn => exact hbefore b hb
      | evictBehind => exact hbefore b (Residency.sublist_evictBehind.subset hb)
      | evictAround => exact hbefore b (Residency.sublist_evictKeeping.subset hb)
      | request => exact hbefore b (requested_rows ▸ hb)
      | wait =>
        simp only [received_ledger] at hbrought
        rw [received_rows] at hb
        split at hb
        · next brought hcame =>
          rcases Residency.mem_insert.1 hb with rfl | ⟨hmem, -⟩
          · exact hbrought _ _ _ List.mem_cons_self _ hcame
          · exact hbefore b hmem
        · exact hbefore b hb

/-! ## Sequences of steps -/

theorem strides_of_stills (h : ReflTransGen (Still source) d e) :
    ReflTransGen (Stride source) d e :=
  h.lift id fun _ _ => .still

theorem steps_of_strides (h : ReflTransGen (Stride source) d e) : ReflTransGen (Step source) d e :=
  h.lift id fun _ _ => .stride

theorem ledger_of_steps (h : ReflTransGen (Step source) d e) :
    d.cursor.ledger <:+ e.cursor.ledger := by
  induction h with
  | refl => exact List.suffix_rfl
  | tail _ hstep ih => exact ih.trans (ledger_of_step hstep)

theorem ledger_of_stills (h : ReflTransGen (Still source) d e) :
    d.cursor.ledger <:+ e.cursor.ledger :=
  ledger_of_steps (steps_of_strides (strides_of_stills h))

theorem position_of_stills (h : ReflTransGen (Still source) d e) :
    e.cursor.position = d.cursor.position := by
  induction h with
  | refl => rfl
  | tail _ hstep ih => rw [position_of_still hstep, ih]

theorem closed_of_stills (h : ReflTransGen (Still source) d e) :
    e.cursor.closed = d.cursor.closed := by
  induction h with
  | refl => rfl
  | tail _ hstep ih => rw [closed_of_still hstep, ih]

theorem closed_of_stride (h : Stride source d e) : e.cursor.closed = d.cursor.closed := by
  cases h with
  | still h => exact closed_of_still h
  | _ => rfl

theorem closed_of_strides (h : ReflTransGen (Stride source) d e) :
    e.cursor.closed = d.cursor.closed := by
  induction h with
  | refl => rfl
  | tail _ hstep ih => rw [closed_of_stride hstep, ih]

theorem options_of_steps (h : ReflTransGen (Step source) d e) :
    e.cursor.options = d.cursor.options := by
  induction h with
  | refl => rfl
  | tail _ hstep ih => rw [options_of_step hstep, ih]

end Kept

/-! ## The first invariant -/

/-- A cursor in order: its rows at hand are valid, its flight is the fetch that its ledger says is
outstanding, and everything in its ledger was proper. -/
structure Sound (c : Cursor H) : Prop where
  rows : c.rows.Valid
  one_le_fetchSize : 1 ≤ c.fetchSize
  flight_iff : ∀ flight, c.flight = some flight ↔ Outstanding c.ledger flight
  disciplined : Disciplined c.fetchSize c.ledger
  one_le_row : ∀ n, c.position = .onRow n → 1 ≤ n

namespace Sound

variable {source : BatchSource σ H} {d e : Desk σ H}

/-- A granted or refused request keeps a cursor in order. -/
theorem requested (h : Sound c) (hfree : c.flight = none) {purpose : Purpose} {span : Span}
    (hs : Sought c purpose span) (outcome : Except Fault H) :
    Sound (c.requested purpose span outcome) where
  rows := by rw [requested_rows]; exact h.rows
  one_le_fetchSize := by
    simpa only [fetchSize, requested_options] using h.one_le_fetchSize
  flight_iff flight := by
    rw [requested_ledger]
    cases outcome with
    | error fault =>
      have hnone : (c.requested purpose span (.error fault)).flight = none := hfree
      simp [hnone]
    | ok call => simp [Cursor.requested, eq_comm]
  disciplined := by
    obtain ⟨hproper, hdemand⟩ := hs.proper h.rows h.one_le_fetchSize
    simp only [fetchSize, requested_options, requested_ledger]
    refine h.disciplined.cons ⟨fun flight hout => ?_, hproper, hdemand⟩
    have := (h.flight_iff flight).2 hout
    rw [hfree] at this
    cases this
  one_le_row n hn := h.one_le_row n (by simpa using hn)

/-- A wait keeps a cursor in order, whatever comes of it. -/
theorem received (h : Sound c) {flight : Flight H} (hflight : c.flight = some flight)
    (outcome : Except Fault Results) (call : H) :
    Sound (c.received flight outcome call).2 where
  rows := by
    rw [received_rows]
    split
    · next b hb => exact h.rows.insert (valid_of_broughtBy hb)
    · exact h.rows
  one_le_fetchSize := by
    simpa only [fetchSize, received_options] using h.one_le_fetchSize
  flight_iff later := by
    have hout := (h.flight_iff flight).1 hflight
    rw [received_ledger, received_flight]
    cases outcome with
    | error fault => by_cases ht : fault.isTimeout <;> simp [ht, hout, outstanding_failed, eq_comm]
    | ok results => simp
  disciplined := by
    simp only [fetchSize, received_options, received_ledger]
    exact h.disciplined.cons ((h.flight_iff flight).1 hflight)
  one_le_row n hn := h.one_le_row n (by simpa using hn)

theorem of_still (h : Sound d.cursor) (hstep : Still source d e) : Sound e.cursor := by
  cases hstep with
  | mark => exact h
  | turn => exact ⟨h.rows, h.one_le_fetchSize, h.flight_iff, h.disciplined, h.one_le_row⟩
  | evictBehind => exact ⟨h.rows.of_sublist Residency.sublist_evictBehind, h.one_le_fetchSize,
      h.flight_iff, h.disciplined, h.one_le_row⟩
  | evictAround => exact ⟨h.rows.of_sublist Residency.sublist_evictKeeping, h.one_le_fetchSize,
      h.flight_iff, h.disciplined, h.one_le_row⟩
  | request hfree hsought => exact h.requested hfree hsought _
  | wait hflight => exact h.received hflight _ _

theorem of_stride (h : Sound d.cursor) (hstride : Stride source d e) : Sound e.cursor := by
  cases hstride with
  | still hstill => exact h.of_still hstill
  | park hpark => exact ⟨h.rows, h.one_le_fetchSize, h.flight_iff, h.disciplined,
      fun n hn => absurd hn (hpark n)⟩
  | @stand row _ hrow =>
    refine ⟨h.rows, h.one_le_fetchSize, h.flight_iff, h.disciplined, fun n hn => ?_⟩
    cases hn
    apply Residency.one_le_of_contains h.rows
    unfold Residency.rowAt at hrow
    unfold Residency.contains
    split at hrow
    · next hb => rw [hb]; rfl
    · cases hrow

theorem of_step (h : Sound d.cursor) (hstep : Step source d e) : Sound e.cursor := by
  cases hstep with
  | stride hstride => exact h.of_stride hstride
  | shut =>
    refine ⟨.empty, h.one_le_fetchSize, by simp, ?_, h.one_le_row⟩
    refine Disciplined.cons trivial ?_
    cases hf : d.cursor.flight with
    | none => exact h.disciplined
    | some flight => exact h.disciplined.cons ((h.flight_iff flight).1 hf)

theorem of_stills (h : Sound d.cursor) (hsteps : ReflTransGen (Still source) d e) :
    Sound e.cursor := by
  induction hsteps with
  | refl => exact h
  | tail _ hstep ih => exact ih.of_still hstep

theorem of_steps (h : Sound d.cursor) (hsteps : ReflTransGen (Step source) d e) :
    Sound e.cursor := by
  induction hsteps with
  | refl => exact h
  | tail _ hstep ih => exact ih.of_step hstep

end Sound

end QueryClient.Cursor
