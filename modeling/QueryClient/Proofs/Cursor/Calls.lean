import QueryClient.Cursor.Moves
import QueryClient.Proofs.Cursor.Searches

/-!
# Calls as sequences of steps

A call may come to stand somewhere, but then it has an answer: one that fails has only taken still
steps (`Orderly`), and a timeout it fails with is that of what it asked last itself. What can be
reached by calls is reached by steps, so that every desk in use is in order (`Reachable.sound`).
-/

namespace QueryClient.Cursor

open Relation (ReflTransGen)
open Attempt Nav

variable {σ H α β : Type} {source : BatchSource σ H} {d e : Desk σ H}

theorem exec_turn (heading : Heading) (d : Desk σ H) :
    exec (update fun c => { c with heading := heading }) d = (.ok (), d.turn heading) := rfl

theorem exec_place (position : Position) (d : Desk σ H) :
    exec (update fun c => { c with position := position }) d = (.ok (), d.place position) := rfl

/-! ## Standing on a row -/

theorem contains_of_rowAt {s : Residency} {row : Int} {cells : Row} (h : s.rowAt row = .ok cells) :
    s.contains row = true := by
  unfold Residency.rowAt at h
  unfold Residency.contains
  split at h
  · next hb =>
    rw [hb]
    rfl
  · cases h

theorem exec_tryIssue (source : BatchSource σ H) (span : Span) (d : Desk σ H) :
    exec (tryIssue source span) d = (.ok (), (exec (issue source .ahead span) d).2) := by
  rw [tryIssue, exec_recover]
  simp only [exec_issue]
  rcases (source.request span.start span.count d.source).1 with _ | call <;> rfl

/-- A fetch ahead of demand is requested, or nothing happens to the cursor; the move does not fail.
-/
theorem exec_prefetch (source : BatchSource σ H) (row : Int) (d : Desk σ H) :
    (exec (prefetch source row) d).1 = .ok () ∧
      ((exec (prefetch source row) d).2.cursor = d.cursor ∨
        ∃ span outcome, d.cursor.flight = none ∧ (spanToPrefetch d.cursor row).1 = some span ∧
          0 < span.count ∧
          (exec (prefetch source row) d).2.cursor = d.cursor.requested .ahead span outcome) := by
  unfold prefetch
  rw [exec_bind_ok (exec_cursor d)]
  split
  · next hfree =>
    rw [exec_bind_ok (exec_note ..)]
    split
    · exact ⟨rfl, .inl rfl⟩
    · next span hspan =>
      split
      · next hcount =>
        rw [exec_tryIssue, exec_issue]
        exact ⟨rfl, .inr ⟨span, _, Option.isNone_iff_eq_none.1 hfree, hspan, hcount, rfl⟩⟩
      · exact ⟨rfl, .inl rfl⟩
  · exact ⟨rfl, .inl rfl⟩

theorem exec_evict (row : Int) (d : Desk σ H) :
    (exec (evict row : Nav σ H Unit) d).1 = .ok () := by
  unfold evict
  rw [exec_bind_ok (exec_cursor d)]
  split
  · rfl
  · rfl

/-- The desk once the cursor stands on a row and has dropped what it no longer keeps. -/
def seated (row : Int) (d : Desk σ H) : Desk σ H :=
  (exec (evict row) (d.place (.onRow row))).2

theorem exec_standOn_eq (source : BatchSource σ H) (row : Int) (d : Desk σ H) :
    exec (standOn source row) d = if (seated row d).cursor.options.prefetch then
      exec (prefetch source row) (seated row d) else (.ok (), seated row d) := by
  have hevict := exec_evict row (d.place (.onRow row))
  unfold standOn
  rw [exec_bind_ok (exec_place ..), exec_bind_ok (Prod.ext hevict rfl),
    exec_bind_ok (exec_cursor _)]
  unfold seated
  split
  · rfl
  · rfl

/-- A fetch ahead of demand. -/
def Ask.IsAhead (entry : Ask H) : Prop :=
  ∃ start count atHand outcome, entry = .requested .ahead start count atHand outcome

/-- Standing on a row asks for nothing but rows ahead of demand. -/
theorem ledger_standOn (source : BatchSource σ H) (row : Int) (d : Desk σ H) :
    ∃ ahead, (exec (standOn source row) d).2.cursor.ledger = ahead ++ d.cursor.ledger ∧
      ∀ entry ∈ ahead, entry.IsAhead := by
  have hseated : (seated row d).cursor.ledger = d.cursor.ledger := by
    unfold seated evict
    rw [exec_bind_ok (exec_cursor _)]
    split <;> rfl
  rw [exec_standOn_eq]
  split
  · rcases (exec_prefetch source row (seated row d)).2 with hsame | ⟨span, outcome, -, -, -, hasked⟩
    · exact ⟨[], by rw [hsame, hseated]; rfl, by simp⟩
    · refine ⟨[_], by rw [hasked, requested_ledger, hseated]; rfl, fun entry hmem => ?_⟩
      rw [List.mem_singleton.1 hmem]
      exact ⟨_, _, _, _, rfl⟩
  · exact ⟨[], hseated, by simp⟩

/-- Standing on a row does not fail. -/
theorem exec_standOn (source : BatchSource σ H) (row : Int) (d : Desk σ H) :
    (exec (standOn source row) d).1 = .ok () := by
  rw [exec_standOn_eq]
  split
  · exact (exec_prefetch ..).1
  · rfl

namespace Quiet

theorem evict {row : Int} (hpos : d.cursor.position = .onRow row) :
    Quiet source (evict row) d := by
  unfold Cursor.evict
  apply cursor_bind
  split
  · exact of_ok (exec_update ..) (.single (.evictBehind d hpos))
  · refine .bind (.note _) fun _ e he _ => ?_
    cases he
    refine of_ok (exec_update ..) (.single (.evictAround _ fun n hn => .inl ?_))
    rw [show d.cursor.position = .onRow n from hn] at hpos
    cases hpos
    rfl

theorem prefetch {row : Int} (hrow : d.cursor.rows.contains row = true) :
    Quiet source (prefetch source row) d := by
  unfold Cursor.prefetch
  apply cursor_bind
  split
  · next hfree =>
    refine .bind (.note _) fun _ e he _ => ?_
    cases he
    split
    · exact .pure ()
    · next span hspan =>
      split
      · next hcount =>
        refine of_ok (exec_tryIssue source span _) (issue ?_ ?_).steps
        · exact Option.isNone_iff_eq_none.1 hfree
        · exact .ahead hrow hspan hcount
      · exact .pure ()
  · exact .pure ()

end Quiet

/-- The row that the cursor comes to stand on stays at hand. -/
theorem contains_seated {row : Int} (h : d.cursor.rows.Valid)
    (hrow : d.cursor.rows.contains row = true) :
    (seated row d).cursor.rows.contains row = true := by
  obtain ⟨b, hb, hc⟩ := (Residency.contains_iff h).1 hrow
  unfold seated evict
  rw [exec_bind_ok (exec_cursor _)]
  split
  · exact (Residency.contains_iff (h.of_sublist Residency.sublist_evictBehind)).2
      ⟨b, Residency.mem_evictBehind h hb hc, hc⟩
  · exact (Residency.contains_iff (h.of_sublist Residency.sublist_evictKeeping)).2
      ⟨b, Residency.mem_evictKeeping h hb hc, hc⟩

theorem of_findRow_true {c : Cursor H} {target : Int}
    (h : findRow target c = some (.ok true)) : ∃ cells, c.rows.rowAt target = .ok cells := by
  unfold findRow at h
  split at h
  · cases hrow : c.rows.rowAt target with
    | error fault =>
      rw [hrow] at h
      cases h
    | ok cells => exact ⟨cells, rfl⟩
  · split at h <;> cases h

theorem of_findRow_false {c : Cursor H} {target : Int} (h : findRow target c = some (.ok false)) :
    ∃ last, c.finalRow = some last ∧ last < target := by
  unfold findRow at h
  split at h
  · cases hrow : c.rows.rowAt target <;> rw [hrow] at h <;> cases h
  · split at h
    · next hfinal => simpa [Option.any_eq_true] using hfinal
    · cases h

/-! ## Orderly calls -/

variable (source) in
/-- A call that leaves the cursor open, and takes still steps only when it fails. -/
structure Orderly (m : Nav σ H α) (d : Desk σ H) : Prop where
  strides : ReflTransGen (Stride source) d (exec m d).2
  still : ∀ stop, (exec m d).1 = .error stop → ReflTransGen (Still source) d (exec m d).2
  blame : ∀ stop, (exec m d).1 = .error stop →
    IsBlamed stop d.cursor.ledger (exec m d).2.cursor.ledger

theorem Quiet.orderly {m : Nav σ H α} (h : Quiet source m d) : Orderly source m d :=
  ⟨strides_of_stills h.steps, fun _ _ => h.steps, h.blame⟩

namespace Orderly

variable {m : Nav σ H α} {f : α → Nav σ H β}

theorem of_ok {a : α} (h : exec m d = (.ok a, e)) (hstrides : ReflTransGen (Stride source) d e) :
    Orderly source m d := by
  refine ⟨by rw [h]; exact hstrides, fun stop hstop => ?_, fun stop hstop => ?_⟩
  · rw [h] at hstop
    cases hstop
  · rw [h] at hstop
    cases hstop

/-- What only looks for something can come before an orderly call. -/
theorem bind (hm : Quiet source m d)
    (hf : ∀ a e, exec m d = (.ok a, e) → ReflTransGen (Still source) d e → Orderly source (f a) e) :
    Orderly source (m >>= f) d := by
  rcases h : exec m d with ⟨stop | a, e⟩
  · have hbind : exec (m >>= f) d = (.error stop, e) := exec_bind_error h
    have hsteps := hm.steps
    have hblame := hm.blame stop (by rw [h])
    rw [h] at hsteps hblame
    exact (Quiet.of_error hbind hsteps hblame).orderly
  · have hsteps := hm.stills h
    have ho := hf a e h hsteps
    refine ⟨?_, fun stop hstop => ?_, fun stop hstop => ?_⟩
    · rw [exec_bind_ok h]
      exact (strides_of_stills hsteps).trans ho.strides
    · rw [exec_bind_ok h] at hstop ⊢
      exact hsteps.trans (ho.still stop hstop)
    · rw [exec_bind_ok h] at hstop ⊢
      exact (ho.blame stop hstop).of_suffix (ledger_of_stills hsteps)

theorem cursor_bind {f : Cursor H → Nav σ H β} (h : Orderly source (f d.cursor) d) :
    Orderly source (cursor >>= f) d := by
  refine .bind .cursor fun c e he _ => ?_
  cases he
  exact h

/-- What precedes a call on an open cursor. -/
theorem ofExcept_bind {outcome : Except Fault α}
    (hfail : ∀ fault, outcome = .error fault → fault.isTimeout = false)
    (hf : ∀ a, outcome = .ok a → Orderly source (f a) d) :
    Orderly source (ofExcept outcome >>= f) d := by
  refine .bind (.ofExcept hfail) fun a e he _ => ?_
  cases outcome with
  | error fault => cases he
  | ok b =>
    cases he
    exact hf _ rfl

end Orderly

/-! ## Moves -/

/-- Once the position is taken, standing on a row takes still steps only. -/
theorem standOn_stills {row : Int} (h : d.cursor.rows.Valid)
    (hrow : d.cursor.rows.contains row = true) :
    ReflTransGen (Still source) (d.place (.onRow row)) (exec (standOn source row) d).2 := by
  have hevict : Quiet source (evict row) (d.place (.onRow row)) := .evict rfl
  rw [exec_standOn_eq]
  split
  · exact hevict.steps.trans (Quiet.prefetch (contains_seated h hrow)).steps
  · exact hevict.steps

/-- **A move to a row** in one equation: it is refused, parks, or looks for the row and stands on
it. -/
theorem exec_moveTo (source : BatchSource σ H) (rounds : Nat) (target : Int) (heading : Heading)
    (d : Desk σ H) :
    exec (moveTo source rounds target heading) d =
      if isOutOfReach d.cursor target then
        (.error (.fault (.illegalNavigation (.rowGone target))), d)
      else
        if target < 1 then (.ok false, (d.turn heading).place .beforeFirst)
        else
          match exec (seek source (.row target heading) (pure ()) rounds false)
            (d.turn heading) with
          | (.error stop, e) => (.error stop, e)
          | (.ok true, e) => (.ok true, (exec (standOn source target) e).2)
          | (.ok false, e) => (.ok false, e.place .afterLast) := by
  rw [moveTo, exec_bind_ok (exec_cursor d)]
  by_cases h : isOutOfReach d.cursor target = true
  · simp only [h, if_true]
    rfl
  · simp only [h, Bool.false_eq_true, if_false]
    rw [exec_bind_ok (exec_turn ..)]
    by_cases ht : target < 1
    · simp only [ht, if_true]
      rfl
    · simp only [ht, if_false]
      rw [exec_bind]
      rcases exec (seek source (.row target heading) (pure ()) rounds false) _ with
        ⟨stop | found, e⟩
      · rfl
      · cases found
        · rfl
        · simp only [if_true]
          rw [exec_bind_ok (Prod.ext (exec_standOn source target e) rfl), exec_pure]

/-- Where a move to a row that is not refused leaves a cursor, by what it answers. -/
def arrival (target : Int) (before : Position) : Except Stop Bool → Position
  | .ok true => .onRow target
  | .ok false => .afterLast
  | .error _ => before

/-- A move to a row that is not refused answers what its search for the row does, and when it gets
there may ask for rows ahead of demand. -/
theorem seek_of_moveTo (hs : Sound d.cursor) {rounds : Nat} {target : Int} {heading : Heading}
    (htarget : 1 ≤ target) (hreach : isOutOfReach d.cursor target = false) {r : Except Stop Bool}
    (hexec : exec (moveTo source rounds target heading) d = (r, e)) :
    ∃ found ahead, exec (seek source (.row target heading) (pure ()) rounds false)
        (d.turn heading) = (r, found) ∧
      e.cursor.ledger = ahead ++ found.cursor.ledger ∧
      (∀ entry ∈ ahead, entry.IsAhead ∧ r = .ok true) ∧
      e.cursor.position = arrival target d.cursor.position r := by
  have hquiet : Quiet source (seek source (.row target heading) (pure ()) rounds false)
      (d.turn heading) := .seekRow htarget ..
  have hturn : ReflTransGen (Still source) d (d.turn heading) := .single (.turn d heading)
  rw [exec_moveTo, hreach, if_neg (by decide), if_neg (by omega)] at hexec
  rcases hseek : exec (seek source (.row target heading) (pure ()) rounds false) (d.turn heading)
    with ⟨stop | found, e₁⟩
  · rw [hseek] at hexec
    cases hexec
    exact ⟨_, [], rfl, rfl, by simp, position_of_stills (hturn.trans (hquiet.stills hseek))⟩
  · rw [hseek] at hexec
    cases found with
    | true =>
      cases hexec
      have hvalid := (hs.of_stills (hturn.trans (hquiet.stills hseek))).rows
      obtain ⟨cells, hrow⟩ := of_findRow_true (find_of_exec_seek hseek)
      have hstand : ReflTransGen (Still source) (e₁.place (.onRow target)) _ :=
        standOn_stills hvalid (contains_of_rowAt hrow)
      obtain ⟨ahead, hledger, hahead⟩ := ledger_standOn source target e₁
      exact ⟨_, ahead, rfl, hledger, fun entry hmem => ⟨hahead entry hmem, rfl⟩,
        position_of_stills hstand⟩
    | false =>
      cases hexec
      exact ⟨_, [], rfl, rfl, by simp, rfl⟩

namespace Orderly

theorem moveTo (hs : Sound d.cursor) (rounds : Nat) (target : Int) (heading : Heading) :
    Orderly source (moveTo source rounds target heading) d := by
  have hexec := exec_moveTo source rounds target heading d
  have hturn : ReflTransGen (Still source) d (d.turn heading) := .single (.turn d heading)
  split at hexec
  · exact (Quiet.of_error hexec .refl (isBlamed_of_not_timeout rfl _ _)).orderly
  split at hexec
  · refine of_ok hexec ((strides_of_stills hturn).tail (.park _ ?_))
    intro n hn
    cases hn
  next htarget =>
  have hq : Quiet source (Cursor.seek source (.row target heading) (pure ()) rounds false)
      (d.turn heading) := .seekRow (Int.not_lt.1 htarget) ..
  have hsteps := hturn.trans hq.steps
  have hblame := hq.blame
  rcases hseek : exec (Cursor.seek source (.row target heading) (pure ()) rounds false)
    (d.turn heading) with ⟨stop | found, e⟩
  · rw [hseek] at hexec hsteps hblame
    exact (Quiet.of_error hexec hsteps (hblame stop rfl)).orderly
  · rw [hseek] at hexec hsteps
    have hfind := find_of_exec_seek hseek
    cases found with
    | true =>
      obtain ⟨cells, hrow⟩ := of_findRow_true hfind
      have hsound : Sound e.cursor := hs.of_stills hsteps
      have hstand : ReflTransGen (Still source) _ _ :=
        standOn_stills hsound.rows (contains_of_rowAt hrow)
      exact of_ok hexec (((strides_of_stills hsteps).tail (.stand e hrow)).trans
        (strides_of_stills hstand))
    | false =>
      refine of_ok hexec ((strides_of_stills hsteps).tail (.park _ ?_))
      intro n hn
      cases hn

end Orderly

theorem ensureOpen_not_timeout {c : Cursor H} {fault : Fault} (h : c.ensureOpen = .error fault) :
    fault.isTimeout = false := by
  unfold ensureOpen at h
  split at h
  · cases h
    rfl
  · cases h

theorem exec_ensureOpen_of_opened (h : d.cursor.closed = false) :
    exec (ofExcept d.cursor.ensureOpen) d = (.ok (), d) := by
  rw [ensureOpen, h]
  rfl

theorem exec_ensureOpen_of_closed (h : d.cursor.closed = true) :
    exec (ofExcept d.cursor.ensureOpen) d = (.error (.fault .cursorClosed), d) := by
  rw [ensureOpen, h]
  rfl

theorem exec_ensureScrollable_of_scrollable (h : d.cursor.options.cursorType = .scrollable)
    (operation : String) : exec (ensureScrollable operation) d = (.ok (), d) := by
  rw [ensureScrollable, exec_bind_ok (exec_cursor d), isForwardOnly, h]
  rfl

/-- A move to a row that is counted from the start goes there. -/
theorem exec_absolute_of_one_le (source : BatchSource σ H) (rounds : Nat) {row : Int}
    (hopen : d.cursor.closed = false) (hrow : 1 ≤ row) :
    exec (absolute source rounds row) d =
      exec (moveTo source rounds row (headingTo d.cursor.position row)) d := by
  unfold absolute
  rw [exec_bind_ok (exec_cursor d), exec_bind_ok (exec_ensureOpen_of_opened hopen),
    if_neg (by omega), if_neg (by omega), exec_bind_ok (exec_cursor d)]

theorem Quiet.ensureScrollable (operation : String) :
    Quiet source (ensureScrollable operation : Nav σ H Unit) d := by
  unfold Cursor.ensureScrollable
  apply cursor_bind
  split
  · exact .fail rfl
  · exact .pure ()

namespace Orderly

theorem next (hs : Sound d.cursor) (rounds : Nat) : Orderly source (next source rounds) d := by
  unfold Cursor.next
  apply cursor_bind
  refine ofExcept_bind (fun _ => ensureOpen_not_timeout) fun _ _ => ?_
  split
  · exact moveTo hs ..
  · exact .bind (.sum ..) fun _ _ _ hsteps => moveTo (hs.of_stills hsteps) ..
  · exact (Quiet.pure _).orderly

theorem previous (hs : Sound d.cursor) (rounds : Nat) :
    Orderly source (previous source rounds) d := by
  unfold Cursor.previous
  apply cursor_bind
  refine ofExcept_bind (fun _ => ensureOpen_not_timeout) fun _ _ => ?_
  split
  · exact (Quiet.pure _).orderly
  · exact .bind (.sum ..) fun _ _ _ hsteps => moveTo (hs.of_stills hsteps) ..
  · split
    · exact moveTo hs ..
    · refine .bind (.ensureScrollable _) fun _ e _ hsteps => ?_
      have hs := hs.of_stills hsteps
      exact .bind (.ensureFinalKnown rounds) fun _ _ _ hsteps => moveTo (hs.of_stills hsteps) ..

/-- What `absolute` does once it knows the final row. -/
theorem fromEnd (hs : Sound d.cursor) (rounds : Nat) (last row : Int) :
    Orderly source (do
      let target ← sum (← sum last 1) row
      if target < 1 then
        update fun c => { c with position := .beforeFirst }
        return false
      else
        Cursor.moveTo source rounds target (headingTo (← cursor).position target)) d := by
  refine .bind (.sum ..) fun _ e _ hsteps => ?_
  have hs := hs.of_stills hsteps
  refine .bind (.sum ..) fun target e _ hsteps => ?_
  have hs := hs.of_stills hsteps
  split
  · refine of_ok (e := e.place .beforeFirst) rfl (.single (.park _ ?_))
    intro n hn
    cases hn
  · exact cursor_bind (moveTo hs ..)

theorem absolute (hs : Sound d.cursor) (rounds : Nat) (row : Int) :
    Orderly source (absolute source rounds row) d := by
  unfold Cursor.absolute
  apply cursor_bind
  refine ofExcept_bind (fun _ => ensureOpen_not_timeout) fun _ _ => ?_
  split
  · exact (Quiet.fail rfl).orderly
  split
  · refine .bind (.ensureScrollable _) fun _ e _ hsteps => ?_
    have hs := hs.of_stills hsteps
    exact .bind (.ensureFinalKnown rounds) fun _ _ _ hsteps => fromEnd (hs.of_stills hsteps) ..
  · exact cursor_bind (moveTo hs ..)

theorem relative (hs : Sound d.cursor) (rounds : Nat) (delta : Int) :
    Orderly source (relative source rounds delta) d := by
  unfold Cursor.relative
  apply cursor_bind
  refine ofExcept_bind (fun _ => ensureOpen_not_timeout) fun _ _ => ?_
  split
  · split
    · refine ofExcept_bind (fun _ => rowAt_not_timeout) fun _ _ => ?_
      exact (Quiet.pure _).orderly
    · exact moveTo hs ..
  · exact (Quiet.fail rfl).orderly

theorem first (hs : Sound d.cursor) (rounds : Nat) : Orderly source (first source rounds) d := by
  unfold Cursor.first
  apply cursor_bind
  refine ofExcept_bind (fun _ => ensureOpen_not_timeout) fun _ _ => ?_
  exact .bind (.ensureScrollable _) fun _ _ _ hsteps => absolute (hs.of_stills hsteps) ..

theorem last (hs : Sound d.cursor) (rounds : Nat) : Orderly source (last source rounds) d := by
  unfold Cursor.last
  apply cursor_bind
  refine ofExcept_bind (fun _ => ensureOpen_not_timeout) fun _ _ => ?_
  exact .bind (.ensureScrollable _) fun _ _ _ hsteps => absolute (hs.of_stills hsteps) ..

theorem isLast (hs : Sound d.cursor) (rounds : Nat) : Orderly source (isLast source rounds) d := by
  unfold Cursor.isLast
  apply cursor_bind
  refine ofExcept_bind (fun _ => ensureOpen_not_timeout) fun _ _ => ?_
  split
  · next n hpos =>
    have hone := hs.one_le_row n hpos
    refine .bind (.sum ..) fun row e he _ => ?_
    cases he
    exact .bind (.hasRow (by omega) rounds) fun _ _ _ _ => (Quiet.pure _).orderly
  · exact (Quiet.pure _).orderly

theorem isBeforeFirst (rounds : Nat) : Orderly source (isBeforeFirst source rounds) d := by
  unfold Cursor.isBeforeFirst
  apply cursor_bind
  refine ofExcept_bind (fun _ => ensureOpen_not_timeout) fun _ _ => ?_
  split
  · exact (Quiet.hasRow (Int.le_refl 1) rounds).orderly
  · exact (Quiet.pure _).orderly

/-- **Every move** takes steps, and still ones only when it fails. -/
theorem perform (hs : Sound d.cursor) (rounds : Nat) (m : Move) :
    Orderly source (m.perform source rounds) d := by
  cases m with
  | next => exact next hs rounds
  | previous => exact previous hs rounds
  | absolute row => exact absolute hs rounds row
  | relative delta => exact relative hs rounds delta
  | first => exact first hs rounds
  | last => exact last hs rounds
  | isLast => exact isLast hs rounds
  | isBeforeFirst => exact isBeforeFirst rounds

theorem beforeFirst : Orderly source beforeFirst d := by
  unfold Cursor.beforeFirst
  apply cursor_bind
  refine ofExcept_bind (fun _ => ensureOpen_not_timeout) fun _ _ => ?_
  refine .bind (.ensureScrollable _) fun _ e _ _ => ?_
  refine of_ok (e := (e.turn .forward).place .beforeFirst) rfl ?_
  refine .tail (.single (.still (.turn e .forward))) (.park _ ?_)
  intro n hn
  cases hn

theorem afterLast : Orderly source afterLast d := by
  unfold Cursor.afterLast
  apply cursor_bind
  refine ofExcept_bind (fun _ => ensureOpen_not_timeout) fun _ _ => ?_
  refine .bind (.ensureScrollable _) fun _ e _ _ => ?_
  refine of_ok (e := (e.turn .backward).place .afterLast) rfl ?_
  refine .tail (.single (.still (.turn e .backward))) (.park _ ?_)
  intro n hn
  cases hn

end Orderly

theorem exec_close_of_closed (source : BatchSource σ H) (hclosed : d.cursor.closed = true) :
    exec (close source) d = (.ok (), d) := by
  rw [close, exec_bind_ok (exec_cursor d), if_pos hclosed]
  rfl

theorem exec_close_of_opened (source : BatchSource σ H) (hopen : d.cursor.closed = false) :
    (exec (close source) d).2 = { d with
      cursor := { d.cursor with
        closed := true
        flight := none
        rows := Residency.empty
        ledger := .closed :: (d.cursor.flight.map Ask.abandoned).toList ++ d.cursor.ledger }
      source := (source.close (match d.cursor.flight with
        | some flight => source.abandon flight.call d.source
        | none => d.source)).2 } := by
  rw [close, exec_bind_ok (exec_cursor d), if_neg (by simp [hopen]),
    exec_bind_ok (exec_update ..)]
  cases hflight : d.cursor.flight with
  | none =>
    simp only
    rw [exec_bind_ok (exec_ask ..), exec_bind_ok (exec_update ..), exec_ofExcept]
    rfl
  | some flight =>
    simp only
    rw [exec_bind_ok (exec_ask ..), exec_bind_ok (exec_update ..), exec_bind_ok (exec_ask ..),
      exec_bind_ok (exec_update ..), exec_ofExcept]
    rfl

theorem close_steps (source : BatchSource σ H) (d : Desk σ H) :
    ReflTransGen (Step source) d (exec (close source) d).2 := by
  cases hclosed : d.cursor.closed with
  | true => rw [exec_close_of_closed source hclosed]
  | false =>
    rw [exec_close_of_opened source hclosed]
    exact .single (.shut d)

/-! ## Every run -/

/-- A call is as orderly as what it answers with another value. -/
theorem Orderly.of_exec_map {m : Nav σ H α} {m' : Nav σ H β} {f : α → β} (hm : Orderly source m d)
    (h : exec m' d = ((exec m d).1.map f, (exec m d).2)) : Orderly source m' d := by
  have hstop : ∀ stop, (exec m' d).1 = .error stop → (exec m d).1 = .error stop := by
    intro stop hstop
    rw [h] at hstop
    cases hanswer : (exec m d).1 with
    | error later =>
      rw [hanswer] at hstop
      cases hstop
      rfl
    | ok a =>
      rw [hanswer] at hstop
      cases hstop
  refine ⟨?_, fun stop hfail => ?_, fun stop hfail => ?_⟩
  · rw [h]
    exact hm.strides
  · rw [h]
    exact hm.still stop (hstop stop hfail)
  · rw [h]
    exact hm.blame stop (hstop stop hfail)

/-- **Every call** other than `close` leaves the cursor open, and takes still steps only when it
fails. -/
theorem call_orderly (hs : Sound d.cursor) (rounds : Nat) {call : Call} (hcall : call ≠ .close) :
    Orderly source (call.perform source rounds) d := by
  cases call with
  | move m => exact (Orderly.perform hs rounds m).of_exec_map (exec_map ..)
  | beforeFirst => exact Orderly.beforeFirst.of_exec_map (exec_bind_pure ..)
  | afterLast => exact Orderly.afterLast.of_exec_map (exec_bind_pure ..)
  | close => exact absurd rfl hcall

/-- **Every call** takes steps. -/
theorem call_steps (hs : Sound d.cursor) (rounds : Nat) (call : Call) :
    ReflTransGen (Step source) d (exec (call.perform source rounds) d).2 := by
  by_cases hcall : call = .close
  · subst hcall
    simp only [Call.perform, exec_bind_pure]
    exact close_steps source d
  · exact steps_of_strides (call_orderly hs rounds hcall).strides

variable (source) in
/-- One call takes the first desk to the second. A call given too few rounds is cut short, which is
no answer, and others may follow it. -/
def Called (d e : Desk σ H) : Prop :=
  ∃ (rounds : Nat) (call : Call), e = (exec (call.perform source rounds) d).2

/-- **Every sequence of calls** takes steps. -/
theorem called_steps (hs : Sound d.cursor) (h : ReflTransGen (Called source) d e) :
    ReflTransGen (Step source) d e := by
  induction h with
  | refl => exact .refl
  | tail _ hcall ih =>
    obtain ⟨rounds, call, rfl⟩ := hcall
    exact ih.trans (call_steps (hs.of_steps ih) rounds call)

variable (source) in
/-- What can be reached from a new cursor, with its source in state `s`, by calls in any order. -/
def Reachable (options : Options) (first : Results) (s : σ) (d : Desk σ H) : Prop :=
  ∃ c, Cursor.start options first = .ok c ∧ ReflTransGen (Called source) ⟨c, s, false⟩ d

theorem of_start {options : Options} {first : Results} {c : Cursor H}
    (h : Cursor.start options first = .ok c) :
    options.fetchSize ≠ 0 ∧ first.validate = .ok () ∧ c = (blank options).extend first := by
  unfold Cursor.start at h
  split at h
  · cases h
  next hfetch =>
  unfold absorb at h
  cases hv : first.validate with
  | error fault =>
    rw [hv] at h
    cases h
  | ok _ =>
    rw [hv] at h
    cases h
    exact ⟨hfetch, rfl, rfl⟩

theorem Sound.of_start {options : Options} {first : Results} {c : Cursor H}
    (h : Cursor.start options first = .ok c) : Sound c := by
  obtain ⟨hfetch, hv, rfl⟩ := Cursor.of_start h
  refine ⟨?_, ?_, ?_, .nil, ?_⟩
  · unfold extend
    simp only
    split
    · next b hb => exact Residency.Valid.empty.insert (Batch.valid_of_ofResults? hv hb)
    · exact .empty
  · have hpos : 0 < options.fetchSize.toNat :=
      UInt32.lt_iff_toNat_lt.1 (UInt32.pos_iff_ne_zero.2 hfetch)
    show (1 : Int) ≤ options.fetchSize.toNat
    omega
  · intro flight
    constructor
    · intro hflight
      cases hflight
    · intro hout
      cases hout
  · intro n hn
    cases hn

namespace Reachable

variable {options : Options} {first : Results} {s : σ}

theorem start {c : Cursor H} (h : Cursor.start options first = .ok c) :
    Reachable source options first s ⟨c, s, false⟩ :=
  ⟨c, h, .refl⟩

theorem call (h : Reachable source options first s d) (rounds : Nat) (call : Call) :
    Reachable source options first s (exec (call.perform source rounds) d).2 := by
  obtain ⟨c, hstart, hcalls⟩ := h
  exact ⟨c, hstart, hcalls.tail ⟨rounds, call, rfl⟩⟩

theorem steps (h : Reachable source options first s d) :
    ∃ c, Cursor.start options first = .ok c ∧ ReflTransGen (Step source) ⟨c, s, false⟩ d := by
  obtain ⟨c, hstart, hcalls⟩ := h
  exact ⟨c, hstart, called_steps (.of_start hstart) hcalls⟩

theorem sound (h : Reachable source options first s d) : Sound d.cursor := by
  obtain ⟨c, hstart, hsteps⟩ := h.steps
  exact (Sound.of_start hstart).of_steps hsteps

end Reachable

end QueryClient.Cursor
