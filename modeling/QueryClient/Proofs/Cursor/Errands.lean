import QueryClient.Proofs.Cursor.ForwardOnly

/-!
# What a call comes to

Whatever the type of the cursor, a call may first search for the final row (`Readied`). Then it does
one thing: it stays where it is, looks whether a row exists, goes to a row, parks, or shuts the
cursor (`Errand`). What holds after each of these holds after every call.
-/

namespace QueryClient.Cursor

open Relation (ReflTransGen)
open Attempt Nav

variable {σ H : Type} {source : BatchSource σ H} {d e : Desk σ H} {rounds : Nat}

variable (source rounds d) in
/-- What precedes the errand of a call: nothing but marks, or a search for the final row. -/
inductive Readied : Desk σ H → Prop
  | marked (overflowed : Bool) : Readied { d with overflowed := overflowed }
  | searched {r : Except Stop Int} {before : Desk σ H}
      (hsearched : exec (ensureFinalKnown source rounds) d = (r, before)) (overflowed : Bool) :
      Readied { before with overflowed := overflowed }

variable (source rounds d) in
/-- The errand of a call, and what it answers. -/
inductive Errand (call : Call) : Except Stop (Option Bool) → Desk σ H → Prop
  | stays {r : Except Stop (Option Bool)}
      (htrue : r = .ok (some true) → call = .move (.relative 0)) : Errand call r d
  | looks {row : Int} {found : Except Stop Bool} {r : Except Stop (Option Bool)} {e : Desk σ H}
      (hcall : call = .move .isLast ∨ call = .move .isBeforeFirst) (hrow : 1 ≤ row)
      (hlooked : exec (hasRow source rounds row) d = (found, e)) : Errand call r e
  | goes {target : Int} {heading : Heading} {r : Except Stop Bool} {e : Desk σ H}
      (hwent : exec (moveTo source rounds target heading) d = (r, e)) : Errand call (r.map some) e
  | parks (heading : Heading) {position : Position} (hpark : ∀ n, position ≠ .onRow n)
      {answer : Option Bool} (hanswer : answer ≠ some true) :
      Errand call (.ok answer) ((d.turn heading).place position)
  | shuts {r : Except Stop (Option Bool)} {e : Desk σ H} (hclosed : e.cursor.closed = true)
      (hrows : e.cursor.rows = Residency.empty) (hanswer : r ≠ .ok (some true)) : Errand call r e

variable (source rounds d) in
/-- What a call comes to: its errand, once it is readied. -/
def ComesTo (call : Call) (r : Except Stop (Option Bool)) (e : Desk σ H) : Prop :=
  ∃ before, Readied source d rounds before ∧ Errand source before rounds call r e

theorem Readied.stills {rounds : Nat} {before : Desk σ H} (h : Readied source d rounds before) :
    ReflTransGen (Still source) d before := by
  cases h with
  | marked overflowed => exact .single (.mark d overflowed)
  | searched hsearched overflowed =>
    have hquiet : Quiet source (ensureFinalKnown source rounds) d := .ensureFinalKnown rounds
    exact (hquiet.stills hsearched).tail (.mark _ overflowed)

/-- The rows at hand once the cursor has come to stand on a row. -/
theorem rows_seated (row : Int) (d : Desk σ H) : (seated row d).cursor.rows =
    if d.cursor.isForwardOnly then d.cursor.rows.evictBehind row
    else d.cursor.rows.evictTo d.cursor.options.savedBatches row := by
  have hplaced : (d.place (.onRow row)).cursor.isForwardOnly = d.cursor.isForwardOnly := rfl
  unfold seated evict
  rw [exec_bind_ok (exec_cursor _), hplaced]
  split
  · rfl
  · rfl

/-- A fetch ahead of demand changes nothing at hand. -/
theorem rows_standOn (row : Int) :
    (exec (standOn source row) d).2.cursor.rows = (seated row d).cursor.rows := by
  rw [exec_standOn_eq]
  split
  · rcases (exec_prefetch source row (seated row d)).2 with hsame | ⟨span, outcome, -, -, -, hasked⟩
    · rw [hsame]
    · rw [hasked, requested_rows]
  · rfl

theorem exec_ensureScrollable_of_not_forwardOnly (h : ¬ d.cursor.isForwardOnly = true)
    (operation : String) : exec (ensureScrollable operation) d = (.ok (), d) := by
  rw [ensureScrollable, exec_bind_ok (exec_cursor d), if_neg h]
  rfl

namespace ComesTo

variable {call : Call} {r : Except Stop Bool}

/-- A call whose errand needs no search. -/
theorem of_errand {r : Except Stop (Option Bool)} (h : Errand source d rounds call r e) :
    ComesTo source d rounds call r e :=
  ⟨d, .marked d.overflowed, h⟩

theorem of_error {stop : Stop}
    (hexec : ((.error stop, d) : Except Stop Bool × Desk σ H) = (r, e)) :
    ComesTo source d rounds call (r.map some) e := by
  cases hexec
  exact of_errand (.stays (fun h => by cases h))

theorem of_false (hexec : exec (pure false) d = (r, e)) :
    ComesTo source d rounds call (r.map some) e := by
  cases hexec
  exact of_errand (.stays (fun h => by cases h))

theorem of_moveTo {target : Int} {heading : Heading}
    (hexec : exec (moveTo source rounds target heading) d = (r, e)) :
    ComesTo source d rounds call (r.map some) e :=
  of_errand (.goes hexec)

/-- A move to a row that is worked out first. -/
theorem of_noted {sums : List Int} {target : Int} {heading : Heading}
    (hexec : exec (moveTo source rounds target heading) (noted d sums) = (r, e)) :
    ComesTo source d rounds call (r.map some) e :=
  ⟨_, .marked _, .goes hexec⟩

/-- What needs a scrollable cursor is refused, or goes on. -/
theorem of_ensureScrollable {operation : String} {f : Unit → Nav σ H Bool}
    (hexec : exec (ensureScrollable operation >>= f) d = (r, e))
    (hgoes : exec (f ()) d = (r, e) → ComesTo source d rounds call (r.map some) e) :
    ComesTo source d rounds call (r.map some) e := by
  by_cases hforward : d.cursor.isForwardOnly = true
  · rw [exec_bind_error (exec_ensureScrollable_of_forwardOnly hforward _)] at hexec
    exact of_error hexec
  · rw [exec_bind_ok (exec_ensureScrollable_of_not_forwardOnly hforward _)] at hexec
    exact hgoes hexec

/-- What needs the final row searches for it, and fails when it is not found. -/
theorem of_ensureFinalKnown {f : Int → Nav σ H Bool}
    (hexec : exec (ensureFinalKnown source rounds >>= f) d = (r, e))
    (hgoes : ∀ last before, exec (ensureFinalKnown source rounds) d = (.ok last, before) →
      exec (f last) before = (r, e) → ComesTo source d rounds call (r.map some) e) :
    ComesTo source d rounds call (r.map some) e := by
  rcases hsearched : exec (ensureFinalKnown source rounds) d with ⟨stop | last, before⟩
  · rw [exec_bind_error hsearched] at hexec
    cases hexec
    exact ⟨_, .searched hsearched e.overflowed, .stays (fun h => by cases h)⟩
  · rw [exec_bind_ok hsearched] at hexec
    exact hgoes last before hsearched hexec

section Opened

variable (hopen : d.cursor.closed = false)

include hopen

theorem next (hexec : exec (Cursor.next source rounds) d = (r, e)) :
    ComesTo source d rounds (.move .next) (r.map some) e := by
  unfold Cursor.next at hexec
  rw [exec_bind_ok (exec_cursor d), exec_bind_ok (exec_ensureOpen_of_opened hopen)] at hexec
  cases hpos : d.cursor.position with
  | beforeFirst =>
    simp only [hpos] at hexec
    exact of_moveTo hexec
  | onRow n =>
    simp only [hpos] at hexec
    rw [exec_bind_ok (exec_sum ..)] at hexec
    exact of_noted hexec
  | afterLast =>
    simp only [hpos] at hexec
    exact of_false hexec

theorem previous (hexec : exec (Cursor.previous source rounds) d = (r, e)) :
    ComesTo source d rounds (.move .previous) (r.map some) e := by
  unfold Cursor.previous at hexec
  rw [exec_bind_ok (exec_cursor d), exec_bind_ok (exec_ensureOpen_of_opened hopen)] at hexec
  cases hpos : d.cursor.position with
  | beforeFirst =>
    simp only [hpos] at hexec
    exact of_false hexec
  | onRow n =>
    simp only [hpos] at hexec
    rw [exec_bind_ok (exec_sum ..)] at hexec
    exact of_noted hexec
  | afterLast =>
    simp only [hpos] at hexec
    cases hlast : d.cursor.finalRow with
    | some last =>
      simp only [hlast] at hexec
      exact of_moveTo hexec
    | none =>
      simp only [hlast] at hexec
      refine of_ensureScrollable hexec fun hexec => ?_
      refine of_ensureFinalKnown hexec fun last before hsearched hexec => ?_
      exact ⟨_, .searched hsearched before.overflowed, .goes hexec⟩

theorem absolute {row : Int}
    (hexec : exec (Cursor.absolute source rounds row) d = (r, e)) :
    ComesTo source d rounds call (r.map some) e := by
  unfold Cursor.absolute at hexec
  rw [exec_bind_ok (exec_cursor d), exec_bind_ok (exec_ensureOpen_of_opened hopen)] at hexec
  split at hexec
  · exact of_error hexec
  split at hexec
  · refine of_ensureScrollable hexec fun hexec => ?_
    refine of_ensureFinalKnown hexec fun last before hsearched hexec => ?_
    rw [exec_bind_ok (exec_sum ..), exec_bind_ok (exec_sum ..)] at hexec
    split at hexec
    · cases hexec
      let counted := noted (noted before [last + 1]) [last + 1 + row]
      have hparks : Errand source counted rounds call (.ok (some false))
          ((counted.turn before.cursor.heading).place .beforeFirst) :=
        .parks before.cursor.heading (fun n hn => by cases hn) (fun h => by cases h)
      exact ⟨counted, .searched hsearched _, hparks⟩
    · rw [exec_bind_ok (exec_cursor _)] at hexec
      exact ⟨_, .searched hsearched _, .goes hexec⟩
  · rw [exec_bind_ok (exec_cursor d)] at hexec
    exact of_moveTo hexec

theorem relative {delta : Int}
    (hexec : exec (Cursor.relative source rounds delta) d = (r, e)) :
    ComesTo source d rounds (.move (.relative delta)) (r.map some) e := by
  unfold Cursor.relative at hexec
  rw [exec_bind_ok (exec_cursor d), exec_bind_ok (exec_ensureOpen_of_opened hopen)] at hexec
  cases hpos : d.cursor.position with
  | beforeFirst =>
    simp only [hpos] at hexec
    exact of_error hexec
  | afterLast =>
    simp only [hpos] at hexec
    exact of_error hexec
  | onRow n =>
    simp only [hpos] at hexec
    split at hexec
    · next hzero =>
      subst hzero
      cases hrow : d.cursor.rows.rowAt n with
      | error fault =>
        rw [hrow] at hexec
        exact of_error hexec
      | ok cells =>
        rw [hrow] at hexec
        cases hexec
        exact of_errand (.stays fun _ => rfl)
    · exact of_moveTo hexec

theorem first (hexec : exec (Cursor.first source rounds) d = (r, e)) :
    ComesTo source d rounds (.move .first) (r.map some) e := by
  unfold Cursor.first at hexec
  rw [exec_bind_ok (exec_cursor d), exec_bind_ok (exec_ensureOpen_of_opened hopen)] at hexec
  exact of_ensureScrollable hexec fun hexec => absolute hopen hexec

theorem last (hexec : exec (Cursor.last source rounds) d = (r, e)) :
    ComesTo source d rounds (.move .last) (r.map some) e := by
  unfold Cursor.last at hexec
  rw [exec_bind_ok (exec_cursor d), exec_bind_ok (exec_ensureOpen_of_opened hopen)] at hexec
  exact of_ensureScrollable hexec fun hexec => absolute hopen hexec

theorem isLast (hs : Sound d.cursor) (hexec : exec (Cursor.isLast source rounds) d = (r, e)) :
    ComesTo source d rounds (.move .isLast) (r.map some) e := by
  unfold Cursor.isLast at hexec
  rw [exec_bind_ok (exec_cursor d), exec_bind_ok (exec_ensureOpen_of_opened hopen)] at hexec
  cases hpos : d.cursor.position with
  | beforeFirst =>
    simp only [hpos] at hexec
    exact of_false hexec
  | afterLast =>
    simp only [hpos] at hexec
    exact of_false hexec
  | onRow n =>
    have hone := hs.one_le_row n hpos
    simp only [hpos] at hexec
    rw [exec_bind_ok (exec_sum ..), exec_bind_pure] at hexec
    obtain ⟨-, hlooked⟩ := Prod.mk.inj hexec
    exact ⟨_, .marked _, .looks (.inl rfl) (by omega) (Prod.ext rfl hlooked)⟩

theorem isBeforeFirst (hexec : exec (Cursor.isBeforeFirst source rounds) d = (r, e)) :
    ComesTo source d rounds (.move .isBeforeFirst) (r.map some) e := by
  unfold Cursor.isBeforeFirst at hexec
  rw [exec_bind_ok (exec_cursor d), exec_bind_ok (exec_ensureOpen_of_opened hopen)] at hexec
  split at hexec
  · exact of_errand (.looks (.inr rfl) (Int.le_refl 1) hexec)
  · exact of_false hexec

end Opened

/-- What needs a scrollable cursor, and parks it. -/
theorem park {operation : String} {position : Position} {heading : Heading}
    (hpark : ∀ n, position ≠ .onRow n) {r : Except Stop Unit}
    (hexec : exec (do
      ofExcept (← cursor).ensureOpen
      ensureScrollable operation
      update fun c => { c with position := position, heading := heading }) d = (r, e)) :
    ComesTo source d rounds call (r.map fun _ => none) e := by
  rw [exec_bind_ok (exec_cursor d)] at hexec
  cases hopen : d.cursor.closed with
  | true =>
    rw [exec_bind_error (exec_ensureOpen_of_closed hopen)] at hexec
    cases hexec
    exact of_errand (.stays (fun h => by cases h))
  | false =>
    rw [exec_bind_ok (exec_ensureOpen_of_opened hopen)] at hexec
    by_cases hforward : d.cursor.isForwardOnly = true
    · rw [exec_bind_error (exec_ensureScrollable_of_forwardOnly hforward _)] at hexec
      cases hexec
      exact of_errand (.stays (fun h => by cases h))
    · rw [exec_bind_ok (exec_ensureScrollable_of_not_forwardOnly hforward _), exec_update] at hexec
      cases hexec
      exact of_errand (.parks heading hpark (fun h => by cases h))

/-- **What a move comes to**, one case for each move. -/
theorem move (hs : Sound d.cursor) (m : Move)
    (hexec : exec (m.perform source rounds) d = (r, e)) :
    ComesTo source d rounds (.move m) (r.map some) e := by
  cases hopen : d.cursor.closed with
  | true =>
    rw [exec_perform_of_closed hopen] at hexec
    exact of_error hexec
  | false =>
    cases m with
    | next => exact next hopen hexec
    | previous => exact previous hopen hexec
    | absolute row => exact absolute hopen hexec
    | relative delta => exact relative hopen hexec
    | first => exact first hopen hexec
    | last => exact last hopen hexec
    | isLast => exact isLast hopen hs hexec
    | isBeforeFirst => exact isBeforeFirst hopen hexec

/-- **Every call** is readied and has its errand. -/
theorem perform (hs : Sound d.cursor) (call : Call) :
    ComesTo source d rounds call (exec (call.perform source rounds) d).1
      (exec (call.perform source rounds) d).2 := by
  cases call with
  | move m =>
    simp only [Call.perform, exec_map]
    exact move hs m rfl
  | beforeFirst =>
    have hpark : ∀ n, Position.beforeFirst ≠ .onRow n := by
      intro n heq
      cases heq
    simp only [Call.perform, exec_bind_pure]
    exact park hpark rfl
  | afterLast =>
    have hpark : ∀ n, Position.afterLast ≠ .onRow n := by
      intro n heq
      cases heq
    simp only [Call.perform, exec_bind_pure]
    exact park hpark rfl
  | close =>
    simp only [Call.perform, exec_bind_pure]
    cases hopen : d.cursor.closed with
    | true =>
      rw [exec_close_of_closed source hopen]
      exact of_errand (.stays (fun h => by cases h))
    | false =>
      have hclosed := exec_close_of_opened source hopen
      refine of_errand (.shuts ?_ ?_ ?_)
      · rw [hclosed]
      · rw [hclosed]
      · cases (exec (close source) d).1 with
        | error stop => intro h; cases h
        | ok u => intro h; cases h

end ComesTo

end QueryClient.Cursor
