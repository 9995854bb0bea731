import QueryClient.Proofs.Cursor.Standing

/-!
# Looking ahead and moving on

A cursor that looks whether there is a next row, and one that moves to it, search in two ways over
what is at hand. Their verdicts agree (`looks_foretell`). Where the look says that there is no such
row, the move says so too, and asks for nothing. Where it says that there is one, the move may fail,
but it does not say that there is none, unless the source changes its mind about the final row. For
that the final row of a cursor is the one that was reported last (`finalRow_eq_head_reports`).
-/

namespace QueryClient.Cursor

open Relation (ReflTransGen)
open Attempt Nav

variable {σ H : Type} {source : BatchSource σ H} {d e : Desk σ H} {rounds later : Nat}
  {there : Bool}

/-! ## What the source says about the final row -/

/-- The final row that an ask brought, if it did. Results that disagree with themselves bring
nothing. -/
def Ask.finalRow? : Ask H → Option Int
  | .waited _ (.ok results) _ =>
    match results.validate with
    | .ok () => finalRowOf results
    | .error _ => none
  | _ => none

/-- The final rows that were reported, from the first results on, the last one first. -/
def reports (first : Results) (ledger : List (Ask H)) : List Int :=
  ledger.filterMap Ask.finalRow? ++ (finalRowOf first).toList

/-- Whether the source kept to the final row that it reported. -/
def KeepsFinalRow (first : Results) (ledger : List (Ask H)) : Prop :=
  ∀ last ∈ reports first ledger, ∀ other ∈ reports first ledger, last = other

instance (first : Results) (ledger : List (Ask H)) : Decidable (KeepsFinalRow first ledger) :=
  inferInstanceAs (Decidable (∀ last ∈ reports first ledger, ∀ other ∈ _, last = other))

section Reports

variable {first : Results} {entry : Ask H} {before ledger : List (Ask H)}

theorem reports_cons : (reports first (entry :: ledger)).head? =
    entry.finalRow?.or (reports first ledger).head? := by
  unfold reports
  cases h : entry.finalRow? with
  | none => rw [List.filterMap_cons_none h, Option.none_or]
  | some last => rw [List.filterMap_cons_some h, List.cons_append, List.head?_cons, Option.some_or]

theorem reports_subset (hsuffix : before <:+ ledger) :
    reports first before ⊆ reports first ledger := by
  obtain ⟨since, rfl⟩ := hsuffix
  unfold reports
  rw [List.filterMap_append, List.append_assoc]
  exact List.subset_append_right ..

end Reports

/-- A report of the final row takes the place of the one before. -/
theorem received_finalRow {c : Cursor H} {flight : Flight H} {outcome : Except Fault Results}
    {call : H} : (c.received flight outcome call).2.finalRow =
      (Ask.waited flight outcome call).finalRow?.or c.finalRow := by
  unfold received absorb
  cases outcome with
  | error fault => rfl
  | ok results =>
    cases hv : results.validate with
    | error fault => simp [Ask.finalRow?, hv, enter]
    | ok _ =>
      simp only [Ask.finalRow?, hv, extend, enter]
      cases finalRowOf results <;> rfl

/-- Whether a cursor goes by the last report of the final row. -/
def Informed (first : Results) (c : Cursor H) : Prop :=
  c.finalRow = (reports first c.ledger).head?

namespace Informed

variable {first : Results}

theorem of_still (h : Informed first d.cursor) (hstep : Still source d e) :
    Informed first e.cursor := by
  unfold Informed at h ⊢
  cases hstep with
  | mark => exact h
  | turn => exact h
  | evictBehind => exact h
  | evictAround => exact h
  | request =>
    rw [requested_finalRow, requested_ledger, reports_cons]
    exact h
  | wait => rw [received_finalRow, received_ledger, reports_cons, h]

theorem of_step (h : Informed first d.cursor) (hstep : Step source d e) :
    Informed first e.cursor := by
  cases hstep with
  | stride hstride =>
    cases hstride with
    | still hstill => exact h.of_still hstill
    | park => exact h
    | stand => exact h
  | shut =>
    unfold Informed at h ⊢
    have hclosed (ledger : List (Ask H)) :
        (reports first (.closed :: ledger)).head? = (reports first ledger).head? := reports_cons
    cases hflight : d.cursor.flight with
    | none => exact h.trans (hclosed _).symm
    | some flight =>
      have habandoned : (reports first (.abandoned flight :: d.cursor.ledger)).head? =
        (reports first d.cursor.ledger).head? := reports_cons
      exact h.trans (habandoned.symm.trans (hclosed _).symm)

theorem of_steps (h : Informed first d.cursor) (hsteps : ReflTransGen (Step source) d e) :
    Informed first e.cursor := by
  induction hsteps with
  | refl => exact h
  | tail _ hstep ih => exact ih.of_step hstep

theorem of_stills (h : Informed first d.cursor) (hsteps : ReflTransGen (Still source) d e) :
    Informed first e.cursor :=
  h.of_steps (steps_of_strides (strides_of_stills hsteps))

end Informed

/-- **The final row** of a cursor is the one that was reported last. -/
theorem finalRow_eq_head_reports {options : Options} {first : Results} {s : σ}
    (h : Reachable source options first s d) :
    d.cursor.finalRow = (reports first d.cursor.ledger).head? := by
  obtain ⟨c, hstart, hsteps⟩ := h.steps
  refine Informed.of_steps (d := ⟨c, s, false⟩) ?_ hsteps
  obtain ⟨-, -, rfl⟩ := of_start hstart
  unfold Informed reports
  simp only [extend, blank]
  cases finalRowOf first <;> rfl

/-- Over a source that keeps to its final row, a final row that is known stays. -/
theorem finalRow_stays {first : Results} {last other : Int} (h : Informed first d.cursor)
    (hsteps : ReflTransGen (Still source) d e) (hkeeps : KeepsFinalRow first e.cursor.ledger)
    (hlast : d.cursor.finalRow = some last) (hother : e.cursor.finalRow = some other) :
    last = other := by
  have hbefore : last ∈ reports first d.cursor.ledger :=
    List.mem_of_head? (h.symm.trans hlast)
  have hafter : other ∈ reports first e.cursor.ledger :=
    List.mem_of_head? ((h.of_stills hsteps).symm.trans hother)
  exact hkeeps last (reports_subset (ledger_of_stills hsteps) hbefore) other hafter

/-! ## The next row -/

/-- The row that the next move goes to, unless there is none after the last. -/
def nextRow : Position → Option Int
  | .beforeFirst => some 1
  | .onRow n => some (n + 1)
  | .afterLast => none

/-- A cursor has a next row before the first one and on a row. -/
theorem cases_of_nextRow {position : Position} {row : Int} (h : nextRow position = some row) :
    position = .beforeFirst ∧ row = 1 ∨ ∃ n, position = .onRow n ∧ row = n + 1 := by
  cases position with
  | beforeFirst => exact .inl ⟨rfl, (Option.some.inj h).symm⟩
  | onRow n => exact .inr ⟨n, rfl, (Option.some.inj h).symm⟩
  | afterLast => cases h

theorem Sound.one_le_nextRow {c : Cursor H} (hs : Sound c) {row : Int}
    (hrow : nextRow c.position = some row) : 1 ≤ row := by
  rcases cases_of_nextRow hrow with ⟨-, rfl⟩ | ⟨n, hpos, rfl⟩
  · exact le_rfl
  · have hone := hs.one_le_row n hpos
    omega

/-- The next row is never behind the cursor. -/
theorem isOutOfReach_nextRow {c : Cursor H} {row : Int} (hrow : nextRow c.position = some row) :
    isOutOfReach c row = false := by
  have hfrontier : ¬ row < frontier c.position := by
    rcases cases_of_nextRow hrow with ⟨hpos, rfl⟩ | ⟨n, hpos, rfl⟩
    · rw [hpos]
      decide
    · rw [hpos, frontier]
      omega
  simp [isOutOfReach, hfrontier]

/-- The move to the next row, but for the sum that it works out. -/
theorem exec_next (source : BatchSource σ H) (rounds : Nat) (hopen : d.cursor.closed = false)
    {row : Int} (hrow : nextRow d.cursor.position = some row) :
    ∃ overflowed, exec (next source rounds) d =
      exec (moveTo source rounds row .forward) { d with overflowed := overflowed } := by
  unfold next
  rw [exec_bind_ok (exec_cursor d), exec_bind_ok (exec_ensureOpen_of_opened hopen)]
  rcases cases_of_nextRow hrow with ⟨hpos, rfl⟩ | ⟨n, hpos, rfl⟩
  · rw [hpos]
    exact ⟨d.overflowed, rfl⟩
  · rw [hpos]
    dsimp only
    rw [exec_bind_ok (exec_sum ..)]
    exact ⟨_, rfl⟩

/-! ## Looks at the next row -/

variable (source rounds d) in
/-- A look from before the first row or from a row, and whether it says that there is a next one. -/
inductive Looks : Bool → Desk σ H → Prop
  | beforeFirst {answer : Bool} {e : Desk σ H} (hpos : d.cursor.position = .beforeFirst)
      (h : exec (isBeforeFirst source rounds) d = (.ok answer, e)) : Looks answer e
  | onRow {n : Int} {answer : Bool} {e : Desk σ H} (hpos : d.cursor.position = .onRow n)
      (h : exec (isLast source rounds) d = (.ok answer, e)) : Looks (!answer) e

/-- A look from a row may be told by its answer alone. -/
theorem looks_of_isLast {n : Int} {answer : Bool} (hpos : d.cursor.position = .onRow n)
    (h : (exec (isLast source rounds) d).1 = .ok answer) :
    Looks source d rounds (!answer) (exec (isLast source rounds) d).2 :=
  .onRow hpos (Prod.ext h rfl)

/-- What a look leaves: a cursor where it was, with the verdict to be read off what it has. -/
structure Looked (source : BatchSource σ H) (there : Bool) (row : Int) (d e : Desk σ H) :
    Prop where
  opened : e.cursor.closed = false
  ahead : nextRow e.cursor.position = some row
  stills : ReflTransGen (Still source) d e
  verdict : existsRow row e.cursor = some (.ok there)

theorem looked_of_hasRow (hs : Sound d.cursor) (hopen : d.cursor.closed = false) {row : Int}
    (hrow : nextRow d.cursor.position = some row) (overflowed : Bool)
    (h : exec (hasRow source rounds row) { d with overflowed := overflowed } = (.ok there, e)) :
    Looked source there row d e := by
  have hquiet : Quiet source (hasRow source rounds row) { d with overflowed := overflowed } :=
    .hasRow (hs.one_le_nextRow hrow) rounds
  have hsteps : ReflTransGen (Still source) d e := (hquiet.stills h).head (.mark d overflowed)
  exact ⟨(closed_of_stills hsteps).trans hopen, (position_of_stills hsteps) ▸ hrow, hsteps,
    find_of_exec_seek h⟩

theorem opened_of_looks (h : Looks source d rounds there e) : d.cursor.closed = false := by
  by_contra hclosed
  have hclosed := eq_true_of_ne_false hclosed
  cases h with
  | beforeFirst _ h =>
    rw [isBeforeFirst, exec_bind_ok (exec_cursor d),
      exec_bind_error (exec_ensureOpen_of_closed hclosed)] at h
    cases h
  | onRow _ h =>
    rw [isLast, exec_bind_ok (exec_cursor d),
      exec_bind_error (exec_ensureOpen_of_closed hclosed)] at h
    cases h

/-- **A look** leaves its verdict on the next row. -/
theorem Looks.looked (hs : Sound d.cursor) (h : Looks source d rounds there e) :
    ∃ row, Looked source there row d e := by
  have hopen := opened_of_looks h
  cases h with
  | beforeFirst hpos h =>
    have hrow : nextRow d.cursor.position = some 1 := by rw [hpos]; rfl
    rw [isBeforeFirst, exec_bind_ok (exec_cursor d), exec_bind_ok (exec_ensureOpen_of_opened hopen),
      if_pos hpos] at h
    exact ⟨1, looked_of_hasRow hs hopen hrow d.overflowed h⟩
  | @onRow n answer e hpos h =>
    have hrow : nextRow d.cursor.position = some (n + 1) := by rw [hpos]; rfl
    rw [isLast, exec_bind_ok (exec_cursor d), exec_bind_ok (exec_ensureOpen_of_opened hopen)] at h
    simp only [hpos] at h
    rw [exec_bind_ok (exec_sum ..), exec_bind_pure] at h
    rcases hlooked : exec (hasRow source rounds (n + 1)) (noted d [n + 1]) with ⟨stop | found, f⟩
    · rw [hlooked] at h
      cases h
    · rw [hlooked] at h
      cases h
      rw [Bool.not_not]
      exact ⟨n + 1, looked_of_hasRow hs hopen hrow _ hlooked⟩

namespace Looked

variable {row : Int}

/-- Without a next row the move finds at once that it is past the end. -/
theorem exec_next_of_false (hs : Sound e.cursor) (h : Looked source false row d e) (later : Nat) :
    ∃ overflowed, exec (next source (later + 1)) e =
      (.ok false, (({ e with overflowed := overflowed } : Desk σ H).turn .forward).place
        .afterLast) := by
  obtain ⟨overflowed, hnext⟩ := exec_next source (later + 1) h.opened h.ahead
  refine ⟨overflowed, ?_⟩
  have hverdict := h.verdict
  unfold existsRow at hverdict
  split at hverdict
  · cases hverdict
  next hmissing =>
  obtain ⟨last, hlast, hpast⟩ := Option.map_eq_some_iff.1 hverdict
  have hpast : last < row := Int.not_le.1 (of_decide_eq_false (Except.ok.inj hpast))
  have hfind : (Quest.row row .forward).find
      (({ e with overflowed := overflowed } : Desk σ H).turn .forward).cursor =
        some (.ok false) := by
    show findRow row { e.cursor with heading := .forward } = _
    unfold findRow
    simp only [hlast]
    rw [if_neg hmissing, if_pos (by simpa using hpast)]
  have hone := hs.one_le_nextRow h.ahead
  rw [hnext, exec_moveTo, isOutOfReach_nextRow h.ahead, if_neg (by decide), if_neg (by omega),
    exec_seek_of_find hfind]
  rfl

/-- With a next row the move does not find that it is past the end, as long as the final row stays
what it is. -/
theorem next_ne_false (hs : Sound e.cursor) {first : Results} (hinformed : Informed first e.cursor)
    (h : Looked source true row d e)
    (hkeeps : KeepsFinalRow first (exec (next source later) e).2.cursor.ledger) :
    (exec (next source later) e).1 ≠ .ok false := by
  intro hfalse
  obtain ⟨overflowed, hnext⟩ := exec_next source later h.opened h.ahead
  rw [hnext] at hfalse hkeeps
  have hone := hs.one_le_nextRow h.ahead
  rw [exec_moveTo, isOutOfReach_nextRow h.ahead, if_neg (by decide), if_neg (by omega)]
    at hfalse hkeeps
  generalize hmarked : ({ e with overflowed := overflowed } : Desk σ H).turn .forward = marked
    at hfalse hkeeps
  have hmark : ReflTransGen (Still source) e marked :=
    hmarked ▸ .tail (.single (.mark e overflowed)) (.turn _ .forward)
  have hrows : marked.cursor.rows = e.cursor.rows := by rw [← hmarked]; rfl
  have hquiet : Quiet source (seek source (.row row .forward) (pure ()) later false) marked :=
    .seekRow hone ..
  rcases hseek : exec (seek source (.row row .forward) (pure ()) later false) marked with
    ⟨stop | found, f⟩
  · rw [hseek] at hfalse
    cases hfalse
  rw [hseek] at hfalse hkeeps
  cases found with
  | true => cases hfalse
  | false =>
    obtain ⟨last, hlast, hpast⟩ := of_findRow_false (find_of_exec_seek hseek)
    have hverdict := h.verdict
    unfold existsRow at hverdict
    split at hverdict
    · next hcontains =>
      -- a row at hand is found before the final row is looked at
      cases later with
      | zero => cases hseek
      | succ later =>
        have hfind : (Quest.row row .forward).find marked.cursor =
            some ((marked.cursor.rows.rowAt row).map fun _ => true) := by
          show findRow row _ = _
          unfold findRow
          rw [if_pos (hrows ▸ hcontains)]
        rw [exec_seek_of_find hfind] at hseek
        cases hrow : marked.cursor.rows.rowAt row <;> rw [hrow] at hseek <;> cases hseek
    · obtain ⟨known, hknown, hbehind⟩ := Option.map_eq_some_iff.1 hverdict
      have hbehind : row ≤ known := of_decide_eq_true (Except.ok.inj hbehind)
      have hsame : known = last :=
        finalRow_stays hinformed (hmark.trans (hquiet.stills hseek)) hkeeps hknown hlast
      omega

end Looked

/-- **Looks foretell moves.** A cursor in any state looks whether there is a next row, from a row or
from before the first. If there is none, the next move answers no and parks the cursor after the
last row, and nothing else changes: nothing is asked of the source and nothing is awaited. If there
is one, the next move does not answer no, as long as the source keeps to the final row that it has
reported. -/
theorem looks_foretell {options : Options} {first : Results} {s : σ}
    (h : Reachable source options first s d) (hlooks : Looks source d rounds there e)
    (later : Nat) :
    (there = false → ∃ f, exec (next source (later + 1)) e = (.ok false, f) ∧
      f.cursor = { e.cursor with heading := .forward, position := .afterLast } ∧
      f.source = e.source) ∧
    (there = true → KeepsFinalRow first (exec (next source later) e).2.cursor.ledger →
      (exec (next source later) e).1 ≠ .ok false) := by
  obtain ⟨row, hlooked⟩ := hlooks.looked h.sound
  have hsound : Sound e.cursor := h.sound.of_stills hlooked.stills
  refine ⟨?_, ?_⟩
  · rintro rfl
    obtain ⟨overflowed, hnext⟩ := hlooked.exec_next_of_false hsound later
    refine ⟨_, hnext, ?_, rfl⟩
    cases e
    rfl
  · rintro rfl hkeeps
    have hinformed : Informed first d.cursor := finalRow_eq_head_reports h
    exact hlooked.next_ne_false hsound (hinformed.of_stills hlooked.stills) hkeeps

/-- Before the first row of the prompt source a cursor looks and finds that there is one, and on the
fifth row, which is the final one, that there is none: the next moves say the same. -/
theorem looks_foretell_prompt :
    let start := Script.promptDesk
    let last := afterCalls Script.source (List.replicate 5 (3, .move .next)) start
    let e := (exec (isBeforeFirst Script.source 3) start).2
    let f := (exec (isLast Script.source 3) last).2
    last.cursor.position = .onRow 5 ∧
      (∃ g, exec (next Script.source 3) f = (.ok false, g) ∧ g.cursor.position = .afterLast ∧
        g.cursor.ledger = f.cursor.ledger) ∧
      (exec (next Script.source 3) e).1 ≠ .ok false := by
  intro start last e f
  have hstart : Reachable Script.source .inPairs (Engine.tableBatch 5 1 2) .prompt start :=
    .start rfl
  have hlast : Reachable Script.source .inPairs (Engine.tableBatch 5 1 2) .prompt last :=
    hstart.afterCalls _
  have hbefore : Looks Script.source start 3 true e :=
    .beforeFirst rfl (Prod.ext (by decide +kernel) rfl)
  have hrow : last.cursor.position = .onRow 5 := by decide +kernel
  have hanswer : (exec (isLast Script.source 3) last).1 = .ok true := by decide +kernel
  have hend : Looks Script.source last 3 (!true) f := looks_of_isLast hrow hanswer
  obtain ⟨g, hnext, hparked, -⟩ := (looks_foretell hlast hend 2).1 rfl
  refine ⟨hrow, ⟨g, hnext, ?_, ?_⟩, ?_⟩
  · rw [hparked]
  · rw [hparked]
  · exact (looks_foretell hstart hbefore 3).2 rfl (by decide +kernel)

end QueryClient.Cursor
