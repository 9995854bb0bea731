import QueryClient.Proofs.Cursor.Atomicity
import QueryClient.Proofs.Cursor.Endless
import QueryClient.Proofs.Cursor.ForwardOnly

/-!
# Failures that stay

A batch may come with a failure in the place of its rows, and is kept like any other. The cursor
never comes to stand on such a row (`failure_eq_none_of_onRow`). A move to one finds the failure at
hand: it asks for nothing and leaves everything but the heading alone (`Blocked.exec_perform`), so
the same failure comes back however often such moves are made (`failures_stick`).
-/

namespace QueryClient.Cursor

open Relation (ReflTransGen)
open Attempt Nav

variable {σ H : Type} {source : BatchSource σ H} {d e : Desk σ H} {rounds : Nat} {m : Move}

/-! ## What is at hand -/

/-- Whether every batch at hand ends at a row that has a number. -/
def Numbered (s : Residency) : Prop :=
  ∀ b ∈ s.batches, fits b.last = true

theorem fits_toInt (n : Int64) : fits n.toInt = true := by
  have hlow := n.le_toInt
  have hhigh := n.toInt_lt
  unfold fits
  rw [Bool.and_eq_true, decide_eq_true_eq, decide_eq_true_eq]
  omega

theorem Batch.fits_of_ofResults? {results : Results} {b : Batch}
    (h : Batch.ofResults? results = some b) : fits b.last = true := by
  unfold Batch.ofResults? at h
  split at h
  · cases h
  · cases h
    exact fits_toInt _
  · cases h
    exact fits_toInt _

theorem fits_of_broughtBy {outcome : Except Fault Results} {b : Batch}
    (h : broughtBy outcome = some b) : fits b.last = true := by
  obtain ⟨results, -, -, hbrought⟩ := of_broughtBy h
  exact Batch.fits_of_ofResults? hbrought

namespace Numbered

/-- A row at hand has a number. -/
theorem fits_of_find {s : Residency} (h : Numbered s) (hvalid : s.Valid) {row : Int} {b : Batch}
    (hfind : s.find row = some b) : fits row = true := by
  obtain ⟨hb, hrow⟩ := (Residency.find_eq_some_iff hvalid).1 hfind
  have hone := (hvalid.batch b hb).one_le
  have hlast := h b hb
  rw [Batch.contains_iff] at hrow
  unfold fits at hlast ⊢
  rw [Bool.and_eq_true, decide_eq_true_eq, decide_eq_true_eq] at hlast ⊢
  omega

theorem of_step (h : Numbered d.cursor.rows) (hstep : Step source d e) :
    Numbered e.cursor.rows :=
  batches_of_step hstep h fun _ _ _ _ _ hbrought => fits_of_broughtBy hbrought

theorem of_steps (h : Numbered d.cursor.rows) (hsteps : ReflTransGen (Step source) d e) :
    Numbered e.cursor.rows := by
  induction hsteps with
  | refl => exact h
  | tail _ hstep ih => exact ih.of_step hstep

theorem of_reachable {options : Options} {first : Results} {s : σ}
    (h : Reachable source options first s d) : Numbered d.cursor.rows := by
  obtain ⟨c, hstart, hsteps⟩ := h.steps
  obtain ⟨-, -, rfl⟩ := Cursor.of_start hstart
  refine of_steps (fun b hb => ?_) hsteps
  rcases mem_extend hb with hmem | hbrought
  · cases hmem
  · exact Batch.fits_of_ofResults? hbrought

end Numbered

/-! ## Closed cursors -/

/-- A closed cursor does nothing more. -/
theorem exec_call_of_closed (hclosed : d.cursor.closed = true) (rounds : Nat) (call : Call) :
    (exec (call.perform source rounds) d).2 = d := by
  have hrefuses : exec (ofExcept d.cursor.ensureOpen) d = (.error (.fault .cursorClosed), d) :=
    exec_ensureOpen_of_closed hclosed
  cases call with
  | move m =>
    simp only [Call.perform, exec_map, exec_perform_of_closed hclosed]
  | beforeFirst =>
    simp only [Call.perform, exec_bind_pure, beforeFirst]
    rw [exec_bind_ok (exec_cursor d), exec_bind_error hrefuses]
  | afterLast =>
    simp only [Call.perform, exec_bind_pure, afterLast]
    rw [exec_bind_ok (exec_cursor d), exec_bind_error hrefuses]
  | close =>
    simp only [Call.perform, exec_bind_pure]
    rw [exec_close_of_closed source hclosed]

/-- A call on an open cursor that closes it leaves nothing at hand. -/
theorem rows_of_call (hs : Sound d.cursor) (hopen : d.cursor.closed = false) (rounds : Nat)
    (call : Call) (hclosed : (exec (call.perform source rounds) d).2.cursor.closed = true) :
    (exec (call.perform source rounds) d).2.cursor.rows = Residency.empty := by
  by_cases hcall : call = .close
  · subst hcall
    simp only [Call.perform, exec_bind_pure]
    rw [exec_close_of_opened source hopen]
  · rw [closed_of_strides (call_orderly hs rounds hcall).strides, hopen] at hclosed
    cases hclosed

theorem rows_of_closed {options : Options} {first : Results} {s : σ}
    (h : Reachable source options first s d) (hclosed : d.cursor.closed = true) :
    d.cursor.rows = Residency.empty := by
  obtain ⟨c, hstart, hcalls⟩ := h
  induction hcalls with
  | refl =>
    obtain ⟨-, -, rfl⟩ := Cursor.of_start hstart
    cases hclosed
  | @tail d e hcalls hcall ih =>
    obtain ⟨rounds, call, rfl⟩ := hcall
    have hs : Sound d.cursor := (Sound.of_start hstart).of_steps
      (called_steps (.of_start hstart) hcalls)
    cases hbefore : d.cursor.closed with
    | true =>
      rw [exec_call_of_closed hbefore]
      exact ih hbefore
    | false => exact rows_of_call hs hbefore rounds call hclosed

theorem Residency.find_empty (row : Int) : Residency.empty.find row = none := rfl

/-! ## Standing on rows -/

/-- **The current row is none that failed.** -/
theorem failure_eq_none_of_onRow {options : Options} {first : Results} {s : σ}
    (h : Reachable source options first s d) (hspans : WithinSpans d.cursor.ledger) {n : Int}
    {b : Batch} (hpos : d.cursor.position = .onRow n) (hfind : d.cursor.rows.find n = some b) :
    b.failure = none := by
  cases hclosed : d.cursor.closed with
  | true =>
    rw [rows_of_closed h hclosed, Residency.find_empty] at hfind
    cases hfind
  | false =>
    obtain ⟨cells, hrow⟩ := (Anchored.of_reachable h hspans).current hclosed n hpos
    obtain ⟨c, hc, hcells⟩ := exists_find_of_rowAt hrow
    cases hfind.symm.trans hc
    unfold Batch.row at hcells
    split at hcells
    · cases hcells
    · assumption

/-! ## Moves to rows that failed -/

/-- The row that a move is to, which for a relative one is the nearest that has a number. -/
def Move.sought (finalRow : Option Int) : Position → Move → Option Int
  | .onRow n, .relative delta => some (clamp (n + delta))
  | position, m => m.target finalRow position

theorem Move.sought_eq_target {finalRow : Option Int} {position : Position}
    (h : ∀ n delta, position = .onRow n → m ≠ .relative delta) :
    m.sought finalRow position = m.target finalRow position := by
  unfold Move.sought
  split
  · next n delta => exact absurd rfl (h n delta rfl)
  · rfl

variable (source rounds) in
/-- A move that is to another row than the current one goes there. -/
theorem exec_perform_of_sought (hopen : d.cursor.closed = false)
    (hcurrent : ∀ n, d.cursor.position = .onRow n → fits n = true) {t : Int}
    (hsought : m.sought d.cursor.finalRow d.cursor.position = some t) (hfits : fits t = true)
    (hother : d.cursor.position ≠ .onRow t) :
    ∃ heading, exec (m.perform source rounds) d = exec (moveTo source rounds t heading) d := by
  by_cases hrelative : ∃ n delta, d.cursor.position = .onRow n ∧ m = .relative delta
  · obtain ⟨n, delta, hpos, rfl⟩ := hrelative
    rw [hpos] at hsought
    cases hsought
    refine exec_relative_of_onRow source rounds hopen hpos ?_
    rintro rfl
    rw [hpos, Int.add_zero, clamp_eq_of_fits (hcurrent n hpos)] at hother
    exact hother rfl
  · refine exec_perform_of_target hopen ?_ hfits
    rwa [Move.sought_eq_target fun n delta hpos hm => hrelative ⟨n, delta, hpos, hm⟩] at hsought

/-- An open cursor that has a batch at hand which failed, and stands on no row of it. -/
structure Blocked (b : Batch) (failure : ServerException) (c : Cursor H) : Prop where
  sound : Sound c
  opened : c.closed = false
  mem : b ∈ c.rows.batches
  failed : b.failure = some failure
  numbered : Numbered c.rows
  current : ∀ n, c.position = .onRow n → fits n = true ∧ b.contains n = false

namespace Blocked

variable {b : Batch} {failure : ServerException}

theorem of_reachable {options : Options} {first : Results} {s : σ}
    (h : Reachable source options first s d) (hspans : WithinSpans d.cursor.ledger)
    (hmem : b ∈ d.cursor.rows.batches) (hfailed : b.failure = some failure) :
    Blocked b failure d.cursor := by
  have hopen : d.cursor.closed = false := by
    cases hclosed : d.cursor.closed with
    | true =>
      rw [rows_of_closed h hclosed] at hmem
      cases hmem
    | false => rfl
  have hnumbered := Numbered.of_reachable h
  refine ⟨h.sound, hopen, hmem, hfailed, hnumbered, fun n hpos => ?_⟩
  obtain ⟨cells, hrow⟩ := (Anchored.of_reachable h hspans).current hopen n hpos
  obtain ⟨c, hc, -⟩ := exists_find_of_rowAt hrow
  refine ⟨hnumbered.fits_of_find h.sound.rows hc, ?_⟩
  cases hcontains : b.contains n with
  | false => rfl
  | true =>
    have hfind := (Residency.find_eq_some_iff h.sound.rows).2 ⟨hmem, hcontains⟩
    rw [failure_eq_none_of_onRow h hspans hpos hfind] at hfailed
    cases hfailed

theorem turn (h : Blocked b failure d.cursor) (heading : Heading) :
    Blocked b failure (d.turn heading).cursor where
  sound := ⟨h.sound.rows, h.sound.one_le_fetchSize, h.sound.flight_iff, h.sound.disciplined,
    h.sound.one_le_row⟩
  opened := h.opened
  mem := h.mem
  failed := h.failed
  numbered := h.numbered
  current := h.current

variable (source) in
/-- **A move to a row that failed** raises the failure that is at hand, asks for nothing and changes
nothing but the heading. -/
theorem exec_perform (h : Blocked b failure d.cursor) (hrounds : 1 ≤ rounds) {t : Int}
    (hsought : m.sought d.cursor.finalRow d.cursor.position = some t)
    (hcontains : b.contains t = true) :
    ∃ heading, exec (m.perform source rounds) d =
      (.error (.fault (.remote failure)), d.turn heading) := by
  have hfind := (Residency.find_eq_some_iff h.sound.rows).2 ⟨h.mem, hcontains⟩
  have hother : d.cursor.position ≠ .onRow t := by
    intro hpos
    rw [(h.current t hpos).2] at hcontains
    cases hcontains
  obtain ⟨heading, hgoes⟩ := exec_perform_of_sought source rounds h.opened
    (fun n hpos => (h.current n hpos).1) hsought
    (h.numbered.fits_of_find h.sound.rows hfind) hother
  rw [exec_moveTo_of_find h.sound hfind hrounds] at hgoes
  simp only [Batch.row, h.failed] at hgoes
  exact ⟨heading, hgoes⟩

end Blocked

/-- What moves made one after another come to, and what the last of them leaves. -/
def outcomes (source : BatchSource σ H) :
    List (Nat × Move) → Desk σ H → List (Except Stop Bool) × Desk σ H
  | [], d => ([], d)
  | (rounds, m) :: moves, d =>
    let (r, e) := exec (m.perform source rounds) d
    let (rest, f) := outcomes source moves e
    (r :: rest, f)

/-- Moves to rows that failed, one after another, each raise the failure. -/
theorem Blocked.outcomes_eq {b : Batch} {failure : ServerException}
    (h : Blocked b failure d.cursor) {moves : List (Nat × Move)}
    (hmoves : ∀ entry ∈ moves, 1 ≤ entry.1 ∧ ∃ t,
      entry.2.sought d.cursor.finalRow d.cursor.position = some t ∧ b.contains t = true) :
    ∃ heading, outcomes source moves d =
      (moves.map fun _ => .error (.fault (.remote failure)), d.turn heading) := by
  induction moves generalizing d with
  | nil => exact ⟨d.cursor.heading, rfl⟩
  | cons entry moves ih =>
    obtain ⟨hrounds, t, hsought, hcontains⟩ := hmoves entry List.mem_cons_self
    obtain ⟨first, hfirst⟩ := h.exec_perform source hrounds hsought hcontains
    obtain ⟨last, hlast⟩ := ih (h.turn first)
      fun entry hentry => hmoves entry (List.mem_cons_of_mem _ hentry)
    refine ⟨last, ?_⟩
    simp only [outcomes, hfirst, hlast]
    rfl

/-- **Failures stay.** When the batches that came lay within what was asked for, the row a cursor
stands on is none that failed. And once a batch with a failure is at hand, moves that are to its
rows, however many are made, all raise this failure: nothing is asked of the source, and all is as
it was but for the heading. -/
theorem failures_stick {options : Options} {first : Results} {s : σ}
    (h : Reachable source options first s d) (hspans : WithinSpans d.cursor.ledger) :
    (∀ n b, d.cursor.position = .onRow n → d.cursor.rows.find n = some b → b.failure = none) ∧
    ∀ b failure, b ∈ d.cursor.rows.batches → b.failure = some failure →
      ∀ moves : List (Nat × Move), (∀ entry ∈ moves, 1 ≤ entry.1 ∧ ∃ t,
        entry.2.sought d.cursor.finalRow d.cursor.position = some t ∧ b.contains t = true) →
        ∃ heading, outcomes source moves d =
          (moves.map fun _ => .error (.fault (.remote failure)), d.turn heading) :=
  ⟨fun _ _ hpos hfind => failure_eq_none_of_onRow h hspans hpos hfind,
    fun _ _ hmem hfailed _ hmoves =>
      (Blocked.of_reachable h hspans hmem hfailed).outcomes_eq hmoves⟩

/-- The third row cannot be read, however a cursor on the second one is told to go there. -/
theorem failures_stick_broken : ∃ d : Desk Script (List (Except Fault Results)),
    Reachable Script.source .inPairs (Engine.tableBatch 9 1 2) .broken d ∧
      d.cursor.position = .onRow 2 ∧
      ∃ heading, outcomes Script.source [(3, .next), (3, .relative 1), (3, .absolute 3)] d =
        ([.error (.fault (.remote unreadable)), .error (.fault (.remote unreadable)),
          .error (.fault (.remote unreadable))], d.turn heading) := by
  have hstart : Reachable Script.source .inPairs (Engine.tableBatch 9 1 2) .broken
      Script.brokenDesk := .start rfl
  have hreach := ((hstart.call 3 (.move .next)).call 3 (.move .next)).call 3 (.move .next)
  generalize hd : (exec (Call.perform Script.source 3 (.move .next))
    (exec (Call.perform Script.source 3 (.move .next))
      (exec (Call.perform Script.source 3 (.move .next)) Script.brokenDesk).2).2).2 = d at hreach
  have hpos : d.cursor.position = .onRow 2 := by
    rw [← hd]
    rfl
  have hspans : WithinSpans d.cursor.ledger := by
    rw [← hd]
    decide
  have hmem : ⟨3, 3, [], some unreadable⟩ ∈ d.cursor.rows.batches := by
    rw [← hd]
    exact List.mem_of_getLast? rfl
  refine ⟨d, hreach, hpos, (failures_stick hreach hspans).2 _ unreadable hmem rfl _ ?_⟩
  rw [hpos]
  intro entry hentry
  simp only [List.mem_cons, List.not_mem_nil, or_false] at hentry
  rcases hentry with rfl | rfl | rfl
  · exact ⟨by decide, 3, rfl, rfl⟩
  · exact ⟨by decide, 3, rfl, rfl⟩
  · exact ⟨by decide, 3, rfl, rfl⟩

end QueryClient.Cursor
