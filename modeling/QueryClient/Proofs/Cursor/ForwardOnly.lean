import QueryClient.Proofs.Cursor.Calls

/-!
# Moves of a cursor that only moves on

A move of a cursor that only moves on does nothing, looks whether the row ahead exists, or goes to a
row (`Course`). One that goes to a row and gets there drops what lies behind the batch with that row
(`ahead_of_moveTo`), and one to a row behind the cursor asks for nothing: the row is at hand, or the
move is refused (`exec_of_target_behind`).
-/

namespace QueryClient.Cursor

open Relation (ReflTransGen)
open Attempt Nav

variable {σ H : Type} {source : BatchSource σ H} {d e : Desk σ H} {rounds : Nat} {m : Move}

/-- The row that a move is to, seen from a position, if it is to a row. -/
def Move.target (finalRow : Option Int) : Position → Move → Option Int
  | _, .absolute row => if 1 ≤ row then some row else none
  | .beforeFirst, .next => some 1
  | .onRow n, .next => some (n + 1)
  | .onRow n, .previous => some (n - 1)
  | .onRow n, .relative delta => if delta = 0 then none else some (n + delta)
  | .afterLast, .previous => finalRow
  | _, _ => none

variable (source rounds m d) in
/-- What a move of a cursor that only moves on may come to. -/
inductive Course : Except Stop Bool → Desk σ H → Prop
  | stays {r : Except Stop Bool} (htrue : r = .ok true → m = .relative 0) : Course r d
  | looks {row : Int} {before e : Desk σ H} {found r : Except Stop Bool}
      (hopen : d.cursor.closed = false) (hm : m = .isLast ∨ m = .isBeforeFirst)
      (hrow : d.cursor.position = .beforeFirst ∧ row = 1 ∨ d.cursor.position = .onRow (row - 1))
      (hlooked : exec (hasRow source rounds row) before = (found, e))
      (hsame : before.cursor = d.cursor) : Course r e
  | goes {target : Int} {heading : Heading} {before e : Desk σ H} {r : Except Stop Bool}
      (hopen : d.cursor.closed = false)
      (hheading : heading = .forward ∧ d.cursor.position ≠ .afterLast ∨
        target < frontier d.cursor.position)
      (hwent : exec (moveTo source rounds target heading) before = (r, e))
      (hsame : before.cursor = d.cursor) : Course r e

theorem exec_ensureScrollable_of_forwardOnly (h : d.cursor.isForwardOnly = true)
    (operation : String) : exec (ensureScrollable operation) d =
      (.error (.fault (.illegalNavigation (.needsScrolling operation))), d) := by
  rw [ensureScrollable, exec_bind_ok (exec_cursor d), h]
  rfl

/-- What needs a scrollable cursor is refused, and changes nothing. -/
theorem refused_of_forwardOnly {α : Type} (h : d.cursor.isForwardOnly = true)
    (operation : String) (f : Unit → Nav σ H α) :
    ∃ stop, exec (do
      ofExcept (← cursor).ensureOpen
      let u ← ensureScrollable operation
      f u) d = (.error stop, d) := by
  rw [exec_bind_ok (exec_cursor d)]
  cases hclosed : d.cursor.closed with
  | true =>
    rw [exec_bind_error (exec_ensureOpen_of_closed hclosed)]
    exact ⟨_, rfl⟩
  | false =>
    rw [exec_bind_ok (exec_ensureOpen_of_opened hclosed),
      exec_bind_error (exec_ensureScrollable_of_forwardOnly h _)]
    exact ⟨_, rfl⟩

theorem exec_perform_of_closed (h : d.cursor.closed = true) (m : Move) :
    exec (m.perform source rounds) d = (.error (.fault .cursorClosed), d) := by
  have hopen := exec_ensureOpen_of_closed h
  cases m with
  | next => exact (exec_bind_ok (exec_cursor d)).trans (exec_bind_error hopen)
  | previous => exact (exec_bind_ok (exec_cursor d)).trans (exec_bind_error hopen)
  | absolute row => exact (exec_bind_ok (exec_cursor d)).trans (exec_bind_error hopen)
  | relative delta => exact (exec_bind_ok (exec_cursor d)).trans (exec_bind_error hopen)
  | first => exact (exec_bind_ok (exec_cursor d)).trans (exec_bind_error hopen)
  | last => exact (exec_bind_ok (exec_cursor d)).trans (exec_bind_error hopen)
  | isLast => exact (exec_bind_ok (exec_cursor d)).trans (exec_bind_error hopen)
  | isBeforeFirst => exact (exec_bind_ok (exec_cursor d)).trans (exec_bind_error hopen)

namespace Course

/-- A failure changes nothing. -/
theorem of_error {stop : Stop} {r : Except Stop Bool}
    (hexec : ((.error stop, d) : Except Stop Bool × Desk σ H) = (r, e)) :
    Course source d rounds m r e := by
  cases hexec
  exact .stays (fun h => by cases h)

/-- To stay where there is no row changes nothing. -/
theorem of_false {r : Except Stop Bool}
    (hexec : exec (pure false) d = (r, e)) : Course source d rounds m r e := by
  cases hexec
  exact .stays (fun h => by cases h)

section Forward

variable (hforward : d.cursor.isForwardOnly = true) (hopen : d.cursor.closed = false)
  {r : Except Stop Bool}

include hopen

theorem next (hexec : exec (Cursor.next source rounds) d = (r, e)) :
    Course source d rounds .next r e := by
  unfold Cursor.next at hexec
  rw [exec_bind_ok (exec_cursor d), exec_bind_ok (exec_ensureOpen_of_opened hopen)] at hexec
  cases hpos : d.cursor.position with
  | beforeFirst =>
    simp only [hpos] at hexec
    exact .goes hopen (.inl ⟨rfl, by rw [hpos]; nofun⟩) hexec rfl
  | onRow n =>
    simp only [hpos] at hexec
    rw [exec_bind_ok (exec_sum ..)] at hexec
    exact .goes hopen (.inl ⟨rfl, by rw [hpos]; nofun⟩) hexec rfl
  | afterLast =>
    simp only [hpos] at hexec
    exact of_false hexec

theorem relative (hs : Sound d.cursor) {delta : Int}
    (hexec : exec (Cursor.relative source rounds delta) d = (r, e)) :
    Course source d rounds (.relative delta) r e := by
  unfold Cursor.relative at hexec
  rw [exec_bind_ok (exec_cursor d), exec_bind_ok (exec_ensureOpen_of_opened hopen)] at hexec
  cases hpos : d.cursor.position with
  | beforeFirst =>
    simp only [hpos] at hexec
    exact of_error hexec
  | afterLast =>
    simp only [hpos] at hexec
    exact of_error hexec
  | onRow n =>
    have hone := hs.one_le_row n hpos
    simp only [hpos] at hexec
    split at hexec
    · next hzero =>
      rw [hzero]
      cases hrow : d.cursor.rows.rowAt n with
      | error fault =>
        rw [hrow] at hexec
        exact of_error hexec
      | ok cells =>
        rw [hrow] at hexec
        cases hexec
        exact .stays (fun _ => rfl)
    · refine .goes hopen ?_ hexec rfl
      split
      · exact .inl ⟨rfl, by rw [hpos]; nofun⟩
      · refine .inr ?_
        rw [hpos, frontier]
        unfold clamp
        omega

theorem isLast (hexec : exec (Cursor.isLast source rounds) d = (r, e)) :
    Course source d rounds .isLast r e := by
  unfold Cursor.isLast at hexec
  rw [exec_bind_ok (exec_cursor d), exec_bind_ok (exec_ensureOpen_of_opened hopen)] at hexec
  cases hpos : d.cursor.position with
  | beforeFirst =>
    simp only [hpos] at hexec
    exact of_false hexec
  | afterLast =>
    simp only [hpos] at hexec
    exact of_false hexec
  | onRow n =>
    simp only [hpos] at hexec
    rw [exec_bind_ok (exec_sum ..), exec_bind_pure] at hexec
    obtain ⟨-, hlooked⟩ := Prod.mk.inj hexec
    refine .looks hopen (.inl rfl) (.inr ?_) (Prod.ext rfl hlooked) rfl
    rw [hpos, Int.add_sub_cancel]

theorem isBeforeFirst (hexec : exec (Cursor.isBeforeFirst source rounds) d = (r, e)) :
    Course source d rounds .isBeforeFirst r e := by
  unfold Cursor.isBeforeFirst at hexec
  rw [exec_bind_ok (exec_cursor d), exec_bind_ok (exec_ensureOpen_of_opened hopen)] at hexec
  split at hexec
  · next hpos => exact .looks hopen (.inr rfl) (.inl ⟨hpos, rfl⟩) hexec rfl
  · exact of_false hexec

include hforward

theorem previous
    (hsmall : ∀ last, d.cursor.position = .afterLast → d.cursor.finalRow = some last →
      last < 2 ^ 62)
    (hexec : exec (Cursor.previous source rounds) d = (r, e)) :
    Course source d rounds .previous r e := by
  unfold Cursor.previous at hexec
  rw [exec_bind_ok (exec_cursor d), exec_bind_ok (exec_ensureOpen_of_opened hopen)] at hexec
  cases hpos : d.cursor.position with
  | beforeFirst =>
    simp only [hpos] at hexec
    exact of_false hexec
  | onRow n =>
    simp only [hpos] at hexec
    rw [exec_bind_ok (exec_sum ..)] at hexec
    refine .goes hopen (.inr ?_) hexec rfl
    rw [hpos, frontier]
    omega
  | afterLast =>
    simp only [hpos] at hexec
    cases hlast : d.cursor.finalRow with
    | some last =>
      have hbound := hsmall last hpos hlast
      simp only [hlast] at hexec
      refine .goes hopen (.inr ?_) hexec rfl
      rw [hpos, frontier]
      omega
    | none =>
      simp only [hlast] at hexec
      rw [exec_bind_error (exec_ensureScrollable_of_forwardOnly hforward _)] at hexec
      exact of_error hexec

theorem absolute {row : Int} (hsmall : row < 2 ^ 62)
    (hexec : exec (Cursor.absolute source rounds row) d = (r, e)) :
    Course source d rounds (.absolute row) r e := by
  unfold Cursor.absolute at hexec
  rw [exec_bind_ok (exec_cursor d), exec_bind_ok (exec_ensureOpen_of_opened hopen)] at hexec
  split at hexec
  · exact of_error hexec
  split at hexec
  · rw [exec_bind_error (exec_ensureScrollable_of_forwardOnly hforward _)] at hexec
    exact of_error hexec
  · rw [exec_bind_ok (exec_cursor d)] at hexec
    refine .goes hopen ?_ hexec rfl
    cases hpos : d.cursor.position with
    | beforeFirst => exact .inl ⟨rfl, nofun⟩
    | onRow n =>
      simp only [headingTo, frontier]
      split
      · next hlt => exact .inr hlt
      · exact .inl ⟨rfl, nofun⟩
    | afterLast =>
      refine .inr ?_
      rw [frontier]
      omega

end Forward

/-- **What a move may come to** of a cursor that only moves on, one case for each move. -/
theorem perform (hs : Sound d.cursor) (hforward : d.cursor.isForwardOnly = true)
    (hsmall : ∀ t, m.target d.cursor.finalRow d.cursor.position = some t → t < 2 ^ 62)
    {r : Except Stop Bool} (hexec : exec (m.perform source rounds) d = (r, e)) :
    Course source d rounds m r e := by
  cases hopen : d.cursor.closed with
  | true =>
    rw [exec_perform_of_closed hopen] at hexec
    exact of_error hexec
  | false =>
    cases m with
    | next => exact next hopen hexec
    | previous =>
      refine previous hforward hopen (fun last hpos hlast => hsmall last ?_) hexec
      rw [hpos, hlast]
      rfl
    | absolute row =>
      by_cases hone : 1 ≤ row
      · exact absolute hforward hopen (hsmall row (if_pos hone)) hexec
      · exact absolute hforward hopen (by omega) hexec
    | relative delta => exact relative hopen hs hexec
    | first =>
      obtain ⟨stop, hrefused⟩ := refused_of_forwardOnly hforward "first()"
        fun _ => Cursor.absolute source rounds 1
      exact of_error (hrefused.symm.trans hexec)
    | last =>
      obtain ⟨stop, hrefused⟩ := refused_of_forwardOnly hforward "last()"
        fun _ => Cursor.absolute source rounds (-1)
      exact of_error (hrefused.symm.trans hexec)
    | isLast => exact isLast hopen hexec
    | isBeforeFirst => exact isBeforeFirst hopen hexec

end Course

/-! ## Moves that get there -/

theorem seated_of_forwardOnly (hforward : d.cursor.isForwardOnly = true) (n : Int) :
    seated n d = { d with cursor := { d.cursor with
      position := .onRow n
      rows := d.cursor.rows.evictBehind n } } := by
  have hplaced : (d.place (.onRow n)).cursor.isForwardOnly = true := hforward
  unfold seated evict
  rw [exec_bind_ok (exec_cursor _)]
  simp only [hplaced, if_true]
  rfl

theorem rows_of_standOn (hforward : d.cursor.isForwardOnly = true) (n : Int) :
    (exec (standOn source n) d).2.cursor.rows = d.cursor.rows.evictBehind n := by
  rw [exec_standOn_eq]
  split
  · rcases (exec_prefetch source n (seated n d)).2 with hsame | ⟨span, outcome, -, -, -, hasked⟩
    · rw [hsame, seated_of_forwardOnly hforward]
    · rw [hasked, requested_rows, seated_of_forwardOnly hforward]
  · rw [seated_of_forwardOnly hforward]

/-- The batch with the row that a cursor comes to stand on stays at hand. -/
theorem find_of_standOn (hvalid : d.cursor.rows.Valid) (hforward : d.cursor.isForwardOnly = true)
    {n : Int} {b : Batch} (hb : b ∈ d.cursor.rows.batches) (hrow : b.contains n = true) :
    (exec (standOn source n) d).2.cursor.rows.find n = some b := by
  rw [rows_of_standOn hforward]
  exact Residency.find_evictBehind hvalid ((Residency.find_eq_some_iff hvalid).2 ⟨hb, hrow⟩)

/-- **A move that gets there** leaves nothing at hand that starts before the batch with its row. -/
theorem ahead_of_moveTo (hs : Sound d.cursor) (hforward : d.cursor.isForwardOnly = true)
    {target : Int} {heading : Heading}
    (hexec : exec (moveTo source rounds target heading) d = (.ok true, e)) :
    e.cursor.position = .onRow target ∧ ∃ b, e.cursor.rows.find target = some b ∧
      ∀ c ∈ e.cursor.rows.batches, b.first ≤ c.first := by
  rw [exec_moveTo] at hexec
  split at hexec
  · cases hexec
  split at hexec
  · cases hexec
  next htarget =>
  rcases hseek : exec (seek source (.row target heading) (pure ()) rounds false) (d.turn heading)
    with ⟨stop | _ | _, e₁⟩
  · rw [hseek] at hexec
    cases hexec
  · rw [hseek] at hexec
    cases hexec
  rw [hseek] at hexec
  obtain ⟨-, rfl⟩ := Prod.mk.inj hexec
  have hquiet : Quiet source (seek source (.row target heading) (pure ()) rounds false)
      (d.turn heading) := .seekRow (Int.not_lt.1 htarget) ..
  have hstills := hquiet.stills hseek
  have hvalid : e₁.cursor.rows.Valid :=
    (hs.of_stills (.trans (.single (.turn d heading)) hstills)).rows
  have hforward₁ : e₁.cursor.isForwardOnly = true := by
    rw [isForwardOnly, options_of_steps (steps_of_strides (strides_of_stills hstills))]
    exact hforward
  obtain ⟨cells, hrow⟩ := of_findRow_true (find_of_exec_seek hseek)
  have hcontains := contains_of_rowAt hrow
  have hstand : ReflTransGen (Still source) _ _ := standOn_stills hvalid hcontains
  obtain ⟨b, hb, hin⟩ := (Residency.contains_iff hvalid).1 hcontains
  refine ⟨position_of_stills hstand, b, find_of_standOn hvalid hforward₁ hb hin, fun c hc => ?_⟩
  rw [rows_of_standOn hforward₁] at hc
  exact ((Residency.mem_evictBehind_iff hvalid hb hin).1 hc).2

/-! ## Moves back -/

/-- A move to a row that is at hand raises the failure in its place, or comes to stand on it. -/
theorem exec_moveTo_of_find (hs : Sound d.cursor) {t : Int} {b : Batch}
    (hfind : d.cursor.rows.find t = some b) (hrounds : 1 ≤ rounds) (heading : Heading) :
    exec (moveTo source rounds t heading) d =
      match b.row t with
      | .error fault => (.error (.fault fault), d.turn heading)
      | .ok _ => (.ok true, (exec (standOn source t) (d.turn heading)).2) := by
  have hcontains : d.cursor.rows.contains t = true := by rw [Residency.contains, hfind]; rfl
  have hreach : isOutOfReach d.cursor t = false := by simp [isOutOfReach, hcontains]
  have hone := Residency.one_le_of_contains hs.rows hcontains
  obtain ⟨rounds, rfl⟩ := Nat.exists_eq_add_of_le' hrounds
  have hfound : (Quest.row t heading : Quest H Bool).find (d.turn heading).cursor =
      some ((b.row t).map fun _ => true) := by
    simp only [Quest.row, findRow, Desk.turn, hcontains, if_true, Residency.rowAt, hfind]
  rw [exec_moveTo, if_neg (by simp [hreach]), if_neg (by omega), exec_seek_of_find hfound]
  cases b.row t with
  | error fault => rfl
  | ok cells => rfl

variable (source rounds) in
/-- A relative move that is not to the current row goes to the nearest row that it can name. -/
theorem exec_relative_of_onRow (hopen : d.cursor.closed = false) {n delta : Int}
    (hpos : d.cursor.position = .onRow n) (hdelta : delta ≠ 0) :
    ∃ heading, exec (relative source rounds delta) d =
      exec (moveTo source rounds (clamp (n + delta)) heading) d := by
  rw [relative, exec_bind_ok (exec_cursor d), exec_bind_ok (exec_ensureOpen_of_opened hopen)]
  simp only [hpos, hdelta, if_false]
  exact ⟨_, rfl⟩

/-- A move that is to a row goes there. -/
theorem exec_perform_of_target (hopen : d.cursor.closed = false) {t : Int}
    (htarget : m.target d.cursor.finalRow d.cursor.position = some t) (hfits : fits t = true) :
    ∃ heading, exec (m.perform source rounds) d = exec (moveTo source rounds t heading) d := by
  have hensure := exec_ensureOpen_of_opened hopen
  have hnoted : noted d [t] = d := noted_eq fun n hn => by rwa [List.mem_singleton.1 hn]
  cases m with
  | next =>
    simp only [Move.perform, next]
    rw [exec_bind_ok (exec_cursor d), exec_bind_ok hensure]
    cases hpos : d.cursor.position with
    | beforeFirst =>
      rw [hpos] at htarget
      cases htarget
      exact ⟨.forward, rfl⟩
    | onRow n =>
      rw [hpos] at htarget
      cases htarget
      simp only
      rw [exec_bind_ok (exec_sum ..), hnoted]
      exact ⟨.forward, rfl⟩
    | afterLast =>
      rw [hpos] at htarget
      cases htarget
  | previous =>
    simp only [Move.perform, previous]
    rw [exec_bind_ok (exec_cursor d), exec_bind_ok hensure]
    cases hpos : d.cursor.position with
    | beforeFirst =>
      rw [hpos] at htarget
      cases htarget
    | onRow n =>
      rw [hpos] at htarget
      cases htarget
      simp only
      rw [exec_bind_ok (exec_sum ..)]
      exact ⟨.backward, congrArg _ hnoted⟩
    | afterLast =>
      have hlast : d.cursor.finalRow = some t := by rwa [hpos] at htarget
      simp only [hlast]
      exact ⟨.backward, rfl⟩
  | absolute row =>
    simp only [Move.target] at htarget
    split at htarget
    · next hone =>
      cases htarget
      simp only [Move.perform, absolute]
      rw [exec_bind_ok (exec_cursor d), exec_bind_ok hensure, if_neg (by omega),
        if_neg (by omega), exec_bind_ok (exec_cursor d)]
      exact ⟨_, rfl⟩
    · cases htarget
  | relative delta =>
    cases hpos : d.cursor.position with
    | onRow n =>
      simp only [hpos, Move.target] at htarget
      split at htarget
      · cases htarget
      next hdelta =>
      cases htarget
      obtain ⟨heading, hgoes⟩ := exec_relative_of_onRow source rounds hopen hpos hdelta
      rw [clamp_eq_of_fits hfits] at hgoes
      exact ⟨heading, hgoes⟩
    | _ =>
      rw [hpos] at htarget
      cases htarget
  | _ => cases hpos : d.cursor.position <;> rw [hpos] at htarget <;> cases htarget

/-- Whether a row lies behind a position; all rows lie behind that after the last one. -/
def Behind (row : Int) : Position → Prop
  | .beforeFirst => False
  | .onRow n => row < n
  | .afterLast => 1 ≤ row

/-- **A move back** asks for nothing: it gets there or raises the failure in the row's place when
the row is at hand, and otherwise it is refused and changes nothing. -/
theorem exec_of_target_behind (hs : Sound d.cursor) (hforward : d.cursor.isForwardOnly = true)
    (hopen : d.cursor.closed = false) {t : Int}
    (htarget : m.target d.cursor.finalRow d.cursor.position = some t) (hlow : -2 ^ 62 < t)
    (hhigh : t < 2 ^ 62) (hbehind : Behind t d.cursor.position) :
    (d.cursor.rows.find t = none → exec (m.perform source rounds) d =
      (.error (.fault (.illegalNavigation (.rowGone t))), d)) ∧
    ∀ b, d.cursor.rows.find t = some b → 1 ≤ rounds →
      (∀ failure, b.failure = some failure → ∃ heading, exec (m.perform source rounds) d =
        (.error (.fault (.remote failure)), d.turn heading)) ∧
      (b.failure = none → (exec (m.perform source rounds) d).1 = .ok true ∧
        (exec (m.perform source rounds) d).2.cursor.position = .onRow t) := by
  obtain ⟨heading, hsame⟩ : ∃ heading, exec (m.perform source rounds) d =
      exec (moveTo source rounds t heading) d :=
    exec_perform_of_target hopen htarget (fits_of_abs_le (Int.le_of_lt hlow) (Int.le_of_lt hhigh))
  have hfrontier : t < frontier d.cursor.position := by
    cases hpos : d.cursor.position with
    | beforeFirst =>
      rw [hpos] at hbehind
      exact hbehind.elim
    | onRow n =>
      rw [hpos] at hbehind
      exact hbehind
    | afterLast =>
      rw [frontier]
      omega
  rw [hsame]
  refine ⟨fun hmissing => ?_, fun b hfind hrounds => ?_⟩
  · have hreach : isOutOfReach d.cursor t = true := by
      simp [isOutOfReach, hforward, Residency.contains, hmissing, hfrontier]
    rw [exec_moveTo, if_pos hreach]
  · obtain ⟨hb, hin⟩ := (Residency.find_eq_some_iff hs.rows).1 hfind
    have hcontains : d.cursor.rows.contains t = true := by rw [Residency.contains, hfind]; rfl
    rw [exec_moveTo_of_find hs hfind hrounds]
    refine ⟨fun failure hfailure => ⟨heading, ?_⟩, fun hplain => ?_⟩
    · simp only [Batch.row, hfailure]
    · obtain ⟨cells, hcells⟩ := (hs.rows.batch b hb).exists_row hplain hin
      have hstand : ReflTransGen (Still source) _ _ :=
        standOn_stills (d := d.turn heading) hs.rows hcontains
      rw [hcells]
      exact ⟨rfl, position_of_stills hstand⟩

end QueryClient.Cursor
