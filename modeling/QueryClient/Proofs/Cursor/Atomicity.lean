import QueryClient.Proofs.Cursor.Discipline

/-!
# Failed moves change nothing one can see

A source that keeps to what it is asked for never sends a row that is at hand, because no fetch asks
for one. So the current row stays where it is while batches come in, and eviction keeps it; both
hold at each still step (`find_of_still`), and a move that fails takes no others. A fetch that timed
out stays outstanding, and whatever asks next has to wait for it (`Pending`).
-/

namespace QueryClient.Cursor

open Relation (ReflTransGen)
open Attempt Nav

variable {σ H : Type} {source : BatchSource σ H} {d e : Desk σ H} {n : Int}

/-- Whether every batch that a wait brought lies within the rows that its fetch asked for. -/
def WithinSpans (ledger : List (Ask H)) : Prop :=
  ∀ flight outcome call b, .waited flight outcome call ∈ ledger → broughtBy outcome = some b →
    flight.start ≤ b.first ∧ b.last ≤ flight.start + flight.count - 1

/-- Whether what a wait brought lies within the rows that its fetch asked for. -/
def Ask.withinSpan : Ask H → Bool
  | .waited flight outcome _ => (broughtBy outcome).all fun b =>
      flight.start ≤ b.first && b.last ≤ flight.start + flight.count - 1
  | _ => true

theorem withinSpans_iff {ledger : List (Ask H)} :
    WithinSpans ledger ↔ ∀ entry ∈ ledger, entry.withinSpan = true := by
  constructor
  · intro h entry hentry
    cases entry with
    | waited flight outcome call =>
      simp only [Ask.withinSpan, Option.all_eq_true, Bool.and_eq_true, decide_eq_true_eq]
      exact fun b hb => h flight outcome call b hentry hb
    | _ => rfl
  · intro h flight outcome call b hmem hb
    have hentry := h _ hmem
    simp only [Ask.withinSpan, Option.all_eq_true, Bool.and_eq_true, decide_eq_true_eq] at hentry
    exact hentry b hb

instance (ledger : List (Ask H)) : Decidable (WithinSpans ledger) :=
  decidable_of_iff _ withinSpans_iff.symm

theorem WithinSpans.of_suffix {before ledger : List (Ask H)} (h : WithinSpans ledger)
    (hsuffix : before <:+ ledger) : WithinSpans before := by
  intro flight outcome call b hmem
  exact h flight outcome call b (hsuffix.subset hmem)

/-- What is outstanding asks for nothing that is at hand, and the current row is at hand. -/
structure Anchored (c : Cursor H) : Prop where
  apart : ∀ flight, c.flight = some flight → ∀ row, flight.start ≤ row →
    row ≤ flight.start + flight.count - 1 → c.rows.contains row = false
  current : c.closed = false → ∀ n, c.position = .onRow n → ∃ cells, c.rows.rowAt n = .ok cells

/-- What lies within the rows that an outstanding fetch asks for is not at hand. -/
theorem Anchored.missing_of_within {c : Cursor H} (ha : Anchored c) {flight : Flight H}
    (hflight : c.flight = some flight) {b : Batch}
    (hwithin : flight.start ≤ b.first ∧ b.last ≤ flight.start + flight.count - 1) {row : Int}
    (hrow : b.contains row = true) : c.rows.contains row = false := by
  rw [Batch.contains_iff] at hrow
  exact ha.apart flight hflight row (by omega) (by omega)

theorem exists_find_of_rowAt {s : Residency} {cells : Row} (h : s.rowAt n = .ok cells) :
    ∃ b, s.find n = some b ∧ b.row n = .ok cells := by
  unfold Residency.rowAt at h
  split at h
  · next b hb => exact ⟨b, hb, h⟩
  · cases h

/-- The current row stays where it is through every still step. -/
theorem find_of_still (hs : Sound d.cursor) (ha : Anchored d.cursor) (hstep : Still source d e)
    (hspans : WithinSpans e.cursor.ledger) (hpos : d.cursor.position = .onRow n) {b : Batch}
    (hfind : d.cursor.rows.find n = some b) : e.cursor.rows.find n = some b := by
  obtain ⟨hb, hc⟩ := (Residency.find_eq_some_iff hs.rows).1 hfind
  cases hstep with
  | mark => exact hfind
  | turn => exact hfind
  | evictBehind hpos' =>
    rw [hpos] at hpos'
    cases hpos'
    exact Residency.find_evictBehind hs.rows hfind
  | evictAround hpos' =>
    refine (Residency.find_eq_some_iff
      (hs.rows.of_sublist Residency.sublist_evictKeeping)).2 ⟨?_, hc⟩
    rcases hpos' n hpos with rfl | rfl
    · exact Residency.mem_evictKeeping hs.rows hb hc
    · exact Residency.mem_evictKeeping_pinned hs.rows hb hc
  | request =>
    rw [requested_rows]
    exact hfind
  | @wait flight hflight outcome call t hwait =>
    rw [received_rows]
    split
    · next brought hbrought =>
      rw [received_ledger] at hspans
      have hwithin := hspans flight outcome call brought List.mem_cons_self hbrought
      exact Residency.find_insert_of_missing hs.rows (valid_of_broughtBy hbrought)
        (fun row hrow => ha.missing_of_within hflight hwithin hrow) hfind
    · exact hfind

namespace Anchored

theorem of_still (hs : Sound d.cursor) (ha : Anchored d.cursor) (hstep : Still source d e)
    (hspans : WithinSpans e.cursor.ledger) : Anchored e.cursor where
  apart flight hflight row hlow hhigh := by
    cases hstep with
    | mark => exact ha.apart flight hflight row hlow hhigh
    | turn => exact ha.apart flight hflight row hlow hhigh
    | evictBehind =>
      have hmissing := ha.apart flight hflight row hlow hhigh
      exact Residency.contains_eq_false_of_sublist hs.rows Residency.sublist_evictBehind hmissing
    | evictAround =>
      have hmissing := ha.apart flight hflight row hlow hhigh
      exact Residency.contains_eq_false_of_sublist hs.rows Residency.sublist_evictKeeping hmissing
    | request hfree hsought =>
      rw [requested_flight] at hflight
      rw [requested_rows]
      split at hflight
      · rw [hfree] at hflight
        cases hflight
      · cases hflight
        exact (hsought.proper hs.rows hs.one_le_fetchSize).1.missing row hlow hhigh
    | wait hflight' =>
      rw [received_flight] at hflight
      split at hflight
      · split at hflight
        · cases hflight
          rw [received_rows]
          exact ha.apart _ hflight' row hlow hhigh
        · cases hflight
      · cases hflight
  current hopen n hpos := by
    rw [closed_of_still hstep] at hopen
    rw [position_of_still hstep] at hpos
    obtain ⟨cells, hrow⟩ := ha.current hopen n hpos
    obtain ⟨b, hfind, hcells⟩ := exists_find_of_rowAt hrow
    have hkept := find_of_still hs ha hstep hspans hpos hfind
    refine ⟨cells, ?_⟩
    rw [Residency.rowAt, hkept]
    exact hcells

theorem of_stride (hs : Sound d.cursor) (ha : Anchored d.cursor) (hstride : Stride source d e)
    (hspans : WithinSpans e.cursor.ledger) : Anchored e.cursor := by
  cases hstride with
  | still hstill => exact ha.of_still hs hstill hspans
  | park hpark => exact ⟨ha.apart, fun _ n hpos => absurd hpos (hpark n)⟩
  | stand hrow =>
    refine ⟨ha.apart, fun _ n hpos => ?_⟩
    cases hpos
    exact ⟨_, hrow⟩

theorem of_step (hs : Sound d.cursor) (ha : Anchored d.cursor) (hstep : Step source d e)
    (hspans : WithinSpans e.cursor.ledger) : Anchored e.cursor := by
  cases hstep with
  | stride hstride => exact ha.of_stride hs hstride hspans
  | shut =>
    refine ⟨fun flight hflight => ?_, fun hopen => ?_⟩
    · cases hflight
    · cases hopen

theorem of_steps (hs : Sound d.cursor) (ha : Anchored d.cursor)
    (hsteps : ReflTransGen (Step source) d e) (hspans : WithinSpans e.cursor.ledger) :
    Anchored e.cursor := by
  induction hsteps with
  | refl => exact ha
  | tail hsteps hstep ih =>
    have hbefore := ih (hspans.of_suffix (ledger_of_step hstep))
    exact hbefore.of_step (hs.of_steps hsteps) hstep hspans

theorem of_reachable {options : Options} {first : Results} {s : σ}
    (h : Reachable source options first s d) (hspans : WithinSpans d.cursor.ledger) :
    Anchored d.cursor := by
  obtain ⟨c, hstart, hsteps⟩ := h.steps
  refine of_steps (.of_start hstart) ⟨fun flight hflight => ?_, fun _ n hpos => ?_⟩ hsteps hspans
  · obtain ⟨-, -, rfl⟩ := of_start hstart
    cases hflight
  · obtain ⟨-, -, rfl⟩ := of_start hstart
    cases hpos

end Anchored

/-- Still steps leave the batch with the current row where it is. -/
theorem find_of_stills (hs : Sound d.cursor) (ha : Anchored d.cursor)
    (hsteps : ReflTransGen (Still source) d e) (hspans : WithinSpans e.cursor.ledger)
    (hpos : d.cursor.position = .onRow n) {b : Batch} (hfind : d.cursor.rows.find n = some b) :
    e.cursor.rows.find n = some b := by
  induction hsteps with
  | refl => exact hfind
  | @tail mid _ hsteps hstep ih =>
    have hbefore := hspans.of_suffix (ledger_of_still hstep)
    have hmid : Anchored mid.cursor :=
      ha.of_steps hs (steps_of_strides (strides_of_stills hsteps)) hbefore
    have hposmid : mid.cursor.position = .onRow n := by rw [position_of_stills hsteps, hpos]
    exact find_of_still (hs.of_stills hsteps) hmid hstep hspans hposmid (ih hbefore)

/-- The current row is the same after still steps. -/
theorem row_of_stills (hs : Sound d.cursor) (ha : Anchored d.cursor)
    (hsteps : ReflTransGen (Still source) d e) (hspans : WithinSpans e.cursor.ledger) :
    e.cursor.row = d.cursor.row := by
  unfold row ensureOpen
  rw [closed_of_stills hsteps, position_of_stills hsteps]
  cases hclosed : d.cursor.closed with
  | true => rfl
  | false =>
    cases hpos : d.cursor.position with
    | beforeFirst => rfl
    | afterLast => rfl
    | onRow n =>
      obtain ⟨cells, hrow⟩ := ha.current hclosed n hpos
      obtain ⟨b, hfind, -⟩ := exists_find_of_rowAt hrow
      simp only [Bool.false_eq_true, if_false, Residency.rowAt, hfind,
        find_of_stills hs ha hsteps hspans hpos hfind]

/-! ## A fetch that timed out -/

/-- Nothing was asked since a ledger was as it is but for a wait for the outstanding fetch, first of
all, unless the fetch was given up on closing. -/
def Pending (flight : Flight H) (before : List (Ask H)) (c : Cursor H) : Prop :=
  (c.ledger = before ∧ c.flight = some flight) ∨
    (∃ outcome call, .waited flight outcome call :: before <:+ c.ledger) ∨
    .abandoned flight :: before <:+ c.ledger

theorem pending_of_still {flight : Flight H} (hflight : d.cursor.flight = some flight)
    (hstill : Still source d e) : Pending flight d.cursor.ledger e.cursor := by
  cases hstill with
  | request hfree =>
    rw [hflight] at hfree
    cases hfree
  | @wait waited hflight' outcome call =>
    rw [hflight] at hflight'
    cases hflight'
    exact .inr (.inl ⟨outcome, call, received_ledger ▸ List.suffix_rfl⟩)
  | _ => exact .inl ⟨rfl, hflight⟩

theorem Pending.of_step {flight : Flight H} {before : List (Ask H)} (hstep : Step source d e)
    (h : Pending flight before d.cursor) : Pending flight before e.cursor := by
  rcases h with ⟨rfl, hflight⟩ | ⟨outcome, call, hasked⟩ | hgiven
  · cases hstep with
    | stride hstride =>
      cases hstride with
      | still hstill => exact pending_of_still hflight hstill
      | park => exact .inl ⟨rfl, hflight⟩
      | stand => exact .inl ⟨rfl, hflight⟩
    | shut =>
      refine .inr (.inr ?_)
      simp only [hflight]
      exact List.suffix_cons ..
  · exact .inr (.inl ⟨outcome, call, hasked.trans (ledger_of_step hstep)⟩)
  · exact .inr (.inr (hgiven.trans (ledger_of_step hstep)))

theorem Pending.of_steps {flight : Flight H} {before : List (Ask H)}
    (hsteps : ReflTransGen (Step source) d e) (h : Pending flight before d.cursor) :
    Pending flight before e.cursor := by
  induction hsteps with
  | refl => exact h
  | tail _ hstep ih => exact ih.of_step hstep

variable (source) in
/-- A call that ended with a timeout either was refused its fetch, or waited for one that is still
outstanding: whatever is called next, nothing else is asked of the source before a wait for it. -/
def KeepsFetch (fault : Fault) (e : Desk σ H) : Prop :=
  (∃ purpose start count atHand before,
    e.cursor.ledger = .requested purpose start count atHand (.error fault) :: before) ∨
  ∃ flight call before, e.cursor.ledger = .waited flight (.error fault) call :: before ∧
    e.cursor.flight = some { flight with call := call } ∧
    ∀ f, ReflTransGen (Called source) e f →
      Pending { flight with call := call } e.cursor.ledger f.cursor

theorem keepsFetch_of_isBlamed (hs : Sound e.cursor) {fault : Fault} {ledger : List (Ask H)}
    (hblame : IsBlamed (.fault fault) ledger e.cursor.ledger) (ht : fault.isTimeout = true) :
    KeepsFetch source fault e := by
  obtain ⟨entry, before, hledger, -, hfault⟩ := hblame fault rfl ht
  unfold KeepsFetch
  cases entry with
  | requested purpose start count atHand outcome =>
    cases outcome with
    | ok call => cases hfault
    | error fault =>
      cases hfault
      exact .inl ⟨purpose, start, count, atHand, before, hledger⟩
  | waited flight outcome call =>
    cases outcome with
    | ok results => cases hfault
    | error fault =>
      cases hfault
      have hout : Outstanding before flight :=
        hs.disciplined (.waited flight (.error fault) call) before (hledger ▸ List.suffix_rfl)
      have hflight : e.cursor.flight = some { flight with call := call } := by
        rw [hs.flight_iff, hledger]
        exact .timedOut hout ht
      refine .inr ⟨flight, call, before, hledger, hflight, fun f hcalls => ?_⟩
      exact Pending.of_steps (called_steps hs hcalls) (.inl ⟨rfl, hflight⟩)
  | abandoned flight => cases hfault
  | closed => cases hfault

/-- **Failed moves are atomic.** When the batches that came lay within what was asked for, a move
that fails leaves the position as it was and the current row as it was, which is at hand when the
cursor is open. When it fails with a timeout, the fetch it waited for is still outstanding and is
what the next call that needs rows waits for. -/
theorem failed_move_atomic {options : Options} {first : Results} {s : σ}
    (h : Reachable source options first s d) (m : Move) (rounds : Nat) {stop : Stop}
    (hfail : exec (m.perform source rounds) d = (.error stop, e))
    (hspans : WithinSpans e.cursor.ledger) :
    e.cursor.position = d.cursor.position ∧ e.cursor.row = d.cursor.row ∧
      (∀ n, d.cursor.position = .onRow n → d.cursor.closed = false →
        ∃ cells, e.cursor.row = .ok cells) ∧
      ∀ fault, stop = .fault fault → fault.isTimeout = true → KeepsFetch source fault e := by
  have horderly : Orderly source (m.perform source rounds) d := .perform h.sound rounds m
  have hsteps := horderly.still stop (by rw [hfail])
  have hblame := horderly.blame stop (by rw [hfail])
  rw [hfail] at hsteps hblame
  have hbefore := hspans.of_suffix (ledger_of_stills hsteps)
  have ha := Anchored.of_reachable h hbefore
  have hrow := row_of_stills h.sound ha hsteps hspans
  refine ⟨position_of_stills hsteps, hrow, fun n hpos hopen => ?_, fun fault hstop ht => ?_⟩
  · obtain ⟨cells, hcells⟩ := ha.current hopen n hpos
    refine ⟨cells, ?_⟩
    rw [hrow, row, ensureOpen, hopen, hpos]
    exact hcells
  · cases hstop
    exact keepsFetch_of_isBlamed (h.sound.of_stills hsteps) hblame ht

/-- A jump that times out leaves the cursor on the row where it stands. -/
theorem failed_move_atomic_slow : ∃ d e : Desk Script (List (Except Fault Results)),
    d = (exec (Call.perform Script.source 3 (.move .next)) Script.slowDesk).2 ∧
      exec (Move.perform Script.source 3 (.absolute 4)) d =
        (.error (.fault (.timeout "fetch" (.seconds 1))), e) ∧
      e.cursor.position = .onRow 1 ∧ e.cursor.row = d.cursor.row ∧
      KeepsFetch Script.source (.timeout "fetch" (.seconds 1)) e := by
  have hreach := reachable_slowDesk.call 3 (.move .next)
  generalize hd :
    (exec (Call.perform Script.source 3 (.move .next)) Script.slowDesk).2 = d at hreach
  have hspans :
      WithinSpans (exec (Move.perform Script.source 3 (.absolute 4)) d).2.cursor.ledger := by
    rw [← hd]
    intro flight outcome call b hmem hb
    rcases List.mem_cons.1 hmem with heq | hmem
    · cases heq
      cases hb
    · rcases List.mem_cons.1 hmem with heq | hmem
      · cases heq
      · cases hmem
  have hfail : (exec (Move.perform Script.source 3 (.absolute 4)) d).1 =
      .error (.fault (.timeout "fetch" (.seconds 1))) := by
    rw [← hd]
    rfl
  have hpos : d.cursor.position = .onRow 1 := by
    rw [← hd]
    rfl
  have hatomic := failed_move_atomic hreach (.absolute 4) 3 (Prod.ext hfail rfl) hspans
  exact ⟨d, _, rfl, Prod.ext hfail rfl, hpos ▸ hatomic.1, hatomic.2.1, hatomic.2.2.2 _ rfl rfl⟩

end QueryClient.Cursor
