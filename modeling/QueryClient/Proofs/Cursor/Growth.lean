import QueryClient.Proofs.Cursor.Endless
import QueryClient.Proofs.Cursor.Errands
import QueryClient.Proofs.Cursor.Load
import QueryClient.Proofs.Cursor.Refinement

/-!
# How many batches are at hand

A scrollable cursor drops batches when it comes to stand on a row and while it searches for the
final row, and at no other time. A call that comes to stand nowhere adds no more batches than two
fetches have rows (`size_of_call`), so that the number at hand is bounded by how many such calls
were made since the cursor last came to stand on a row (`resident_batches_bounded`), and by nothing
else (`resident_batches_unbounded`).
-/

namespace QueryClient.Cursor

open Relation (ReflTransGen)
open Attempt Nav

variable {σ H : Type} {source : BatchSource σ H} {d e : Desk σ H}

/-! ## What a call adds -/

theorem size_of_hasRow {row : Int} (hrow : 1 ≤ row) (hs : Sound d.cursor) (ha : Anchored d.cursor)
    {rounds : Nat} {r : Except Stop Bool} (hexec : exec (hasRow source rounds row) d = (r, e))
    (hspans : WithinSpans e.cursor.ledger) :
    e.cursor.rows.size ≤ d.cursor.rows.size + 2 * d.cursor.fetchCount := by
  have hspan : ∀ c : Cursor H, (Quest.existence row).span c = spanFor row .forward c := fun _ => rfl
  exact size_of_seek (Quest.existence_lawful hrow) hrow hspan hs ha hexec hspans

variable (source) in
theorem size_standOn_le (h : d.cursor.rows.Valid) (row : Int) :
    (exec (standOn source row) d).2.cursor.rows.size ≤ d.cursor.rows.size ∧
      (d.cursor.isForwardOnly = false → (exec (standOn source row) d).2.cursor.rows.size ≤
        max d.cursor.options.savedBatches 1) := by
  rw [rows_standOn, rows_seated]
  cases hforward : d.cursor.isForwardOnly with
  | true => exact ⟨Residency.sublist_evictBehind.length_le, nofun⟩
  | false =>
    exact ⟨Residency.sublist_evictKeeping.length_le, fun _ => Residency.size_evictKeeping h⟩

/-- **A move to a row** adds no more batches than two fetches have rows, and leaves what a scrollable
cursor keeps when it gets there. -/
theorem size_of_moveTo (hs : Sound d.cursor) (ha : Anchored d.cursor) {rounds : Nat} {target : Int}
    {heading : Heading} {r : Except Stop Bool}
    (hexec : exec (moveTo source rounds target heading) d = (r, e))
    (hspans : WithinSpans e.cursor.ledger) :
    e.cursor.rows.size ≤ d.cursor.rows.size + 2 * d.cursor.fetchCount ∧
      (r = .ok true → d.cursor.isForwardOnly = false →
        e.cursor.rows.size ≤ max d.cursor.options.savedBatches 1) := by
  rw [exec_moveTo] at hexec
  split at hexec
  · cases hexec
    exact ⟨Nat.le_add_right _ _, nofun⟩
  split at hexec
  · cases hexec
    exact ⟨Nat.le_add_right _ _, nofun⟩
  next htarget =>
  have htarget := Int.not_lt.1 htarget
  have hturn : ReflTransGen (Still source) d (d.turn heading) := .single (.turn d heading)
  have hquiet : Quiet source (seek source (.row target heading) (pure ()) rounds false)
      (d.turn heading) := .seekRow htarget ..
  have hspan : ∀ c : Cursor H, (Quest.row target heading).span c = spanFor target heading c :=
    fun _ => rfl
  have hturned : Anchored (d.turn heading).cursor := ⟨ha.apart, ha.current⟩
  have hsize : ∀ r f, exec (seek source (.row target heading) (pure ()) rounds false)
      (d.turn heading) = (r, f) → WithinSpans f.cursor.ledger →
      f.cursor.rows.size ≤ d.cursor.rows.size + 2 * d.cursor.fetchCount := by
    intro r f hseek hspans
    have hsought := size_of_seek (Quest.row_lawful htarget heading) htarget hspan
      (hs.of_stills hturn) hturned hseek hspans
    exact hsought
  rcases hseek : exec (seek source (.row target heading) (pure ()) rounds false)
    (d.turn heading) with ⟨stop | found, f⟩
  · rw [hseek] at hexec
    cases hexec
    exact ⟨hsize _ _ hseek hspans, nofun⟩
  · rw [hseek] at hexec
    have hsteps := hturn.trans (hquiet.stills hseek)
    have hvalid := (hs.of_stills hsteps).rows
    cases found with
    | false =>
      cases hexec
      exact ⟨hsize (.ok false) f hseek hspans, nofun⟩
    | true =>
      cases hexec
      obtain ⟨cells, hrow⟩ := of_findRow_true (find_of_exec_seek hseek)
      have hstood : ReflTransGen (Still source) (f.place (.onRow target)) _ :=
        standOn_stills hvalid (contains_of_rowAt hrow)
      have hledger := ledger_of_stills hstood
      have hbefore := hsize _ _ hseek (hspans.of_suffix hledger)
      obtain ⟨hle, hkeeps⟩ := size_standOn_le source hvalid target
      have hoptions := options_of_stills hsteps
      refine ⟨hle.trans hbefore, fun _ hforward => ?_⟩
      rw [← hoptions]
      refine hkeeps ?_
      unfold isForwardOnly at hforward ⊢
      rw [hoptions]
      exact hforward

theorem size_keepNearEnd_le (h : d.cursor.rows.Valid) :
    (exec keepNearEnd d).2.cursor.rows.size ≤ max d.cursor.options.savedBatches 2 := by
  unfold keepNearEnd
  rw [exec_bind_ok (exec_cursor d)]
  split
  · next hnone =>
    have hempty : d.cursor.rows.batches = [] :=
      List.getLast?_eq_none_iff.1 (Option.map_eq_none_iff.1 hnone)
    show d.cursor.rows.size ≤ _
    rw [Residency.size, hempty]
    exact Nat.zero_le _
  · next highest _ =>
    rw [exec_bind_ok (exec_note ..)]
    refine (Residency.size_evictKeeping h).trans ?_
    have hpinned : ∀ pinned : Option Int, 1 + pinned.toList.length ≤ 2 := by
      intro pinned
      cases pinned with
      | none => exact Nat.le_succ 1
      | some pin => exact Nat.le_refl 2
    exact max_le_max_left _ (hpinned _)

/-- A wait that fails brings nothing. -/
theorem rows_of_await_error {stop : Stop} (hexec : exec (await source) d = (.error stop, e)) :
    e.cursor.rows = d.cursor.rows := by
  cases hflight : d.cursor.flight with
  | none =>
    rw [exec_await_of_none source hflight] at hexec
    cases hexec
  | some flight =>
    rcases hwait : source.wait d.cursor.options.timeout flight.call d.source with
      ⟨outcome, call, t⟩
    rw [exec_await_of_some hflight hwait] at hexec
    obtain ⟨hr, rfl⟩ := Prod.mk.inj hexec
    simp only [received_rows]
    cases outcome with
    | error fault => rfl
    | ok results =>
      cases hv : results.validate with
      | error fault => simp only [broughtBy, hv]
      | ok _ =>
        simp only [received, absorb, hv] at hr
        cases hr

/-- The search for the final row leaves what it keeps near the end and at the current row, or
nothing more than there was. -/
theorem size_of_ensureFinalKnown (hs : Sound d.cursor) {rounds : Nat} {r : Except Stop Int}
    (hexec : exec (ensureFinalKnown source rounds) d = (r, e)) :
    e.cursor.rows.size ≤ max d.cursor.rows.size (max d.cursor.options.savedBatches 2) := by
  unfold ensureFinalKnown at hexec
  generalize false = stalled at hexec
  induction rounds generalizing d stalled with
  | zero =>
    cases hexec
    exact Nat.le_max_left _ _
  | succ rounds ih =>
    cases hfind : (Quest.finalRow : Quest H Int).find d.cursor with
    | some found =>
      rw [exec_seek_of_find hfind] at hexec
      cases hexec
      exact Nat.le_max_left _ _
    | none =>
      have hsettles := fun d : Desk σ H => (keepNearEnd_settles d).1
      cases round_of_seek Quest.finalRow_lawful .keepNearEnd hsettles hfind hexec with
      | unfetched hfetched =>
        rw [rows_of_fetchFor hfetched]
        exact Nat.le_max_left _ _
      | unheard hfetched hawaited =>
        rw [rows_of_await_error hawaited, rows_of_fetchFor hfetched]
        exact Nat.le_max_left _ _
      | @heard _ _ d₁ d₂ _ hfetched hawaited hrest =>
        have hsteps : ReflTransGen (Still source) d d₂ :=
          (Quiet.stills (.fetchFor Quest.finalRow_lawful hfind stalled) hfetched).trans
            (Quiet.await.stills hawaited)
        have hquiet : Quiet source keepNearEnd d₂ := .keepNearEnd d₂
        have hs₂ := hs.of_stills hsteps
        have hkept := size_keepNearEnd_le hs₂.rows
        have hlast := ih (hs₂.of_stills hquiet.steps) _ hrest
        rw [options_of_stills (hsteps.trans hquiet.steps)] at hlast
        rw [options_of_stills hsteps] at hkept
        omega

/-- Whether a call, by its answer, has come to stand on a row. -/
def Call.Lands (call : Call) (answer : Except Stop (Option Bool)) : Prop :=
  answer = .ok (some true) ∧ call ≠ .move (.relative 0) ∧ call ≠ .move .isLast ∧
    call ≠ .move .isBeforeFirst

instance (call : Call) (answer : Except Stop (Option Bool)) : Decidable (call.Lands answer) :=
  inferInstanceAs (Decidable (_ ∧ _))

theorem Readied.size_le (hs : Sound d.cursor) {rounds : Nat} {before : Desk σ H}
    (h : Readied source d rounds before) :
    before.cursor.rows.size ≤ max d.cursor.rows.size (max d.cursor.options.savedBatches 2) := by
  cases h with
  | marked => exact Nat.le_max_left _ _
  | searched hsearched =>
    have hkept := size_of_ensureFinalKnown hs hsearched
    exact hkept

/-- **A call** leaves what a scrollable cursor keeps when it comes to stand on a row, and adds no
more batches than two fetches have rows when it does not. -/
theorem size_of_call (hs : Sound d.cursor) (ha : Anchored d.cursor) (rounds : Nat) (call : Call)
    {r : Except Stop (Option Bool)} (hexec : exec (call.perform source rounds) d = (r, e))
    (hspans : WithinSpans e.cursor.ledger) :
    e.cursor.rows.size ≤ max d.cursor.rows.size (max d.cursor.options.savedBatches 2) +
        2 * d.cursor.fetchCount ∧
      (call.Lands r → d.cursor.isForwardOnly = false →
        e.cursor.rows.size ≤ max d.cursor.options.savedBatches 1) := by
  obtain ⟨before, hreadied, herrand⟩ : ComesTo source d rounds call _ _ := .perform hs call
  rw [hexec] at herrand
  simp only at herrand
  have hsteps := hreadied.stills
  have hsize := hreadied.size_le hs
  have hs₁ := hs.of_stills hsteps
  have hoptions := options_of_stills hsteps
  have hcount : before.cursor.fetchCount = d.cursor.fetchCount := by
    rw [fetchCount, hoptions]
    rfl
  cases herrand with
  | stays htrue => exact ⟨by omega, fun hlands => absurd (htrue hlands.1) hlands.2.1⟩
  | looks hcall hrow hlooked =>
    have hquiet : Quiet source (hasRow source rounds _) before := .hasRow hrow rounds
    have hledger := ledger_of_stills (hquiet.stills hlooked)
    have ha₁ := ha.of_stills hs hsteps (hspans.of_suffix hledger)
    have hlook := size_of_hasRow hrow hs₁ ha₁ hlooked hspans
    refine ⟨by omega, fun hlands => ?_⟩
    rcases hcall with rfl | rfl
    · exact absurd rfl hlands.2.2.1
    · exact absurd rfl hlands.2.2.2
  | @goes target heading answer _ hwent =>
    have horderly : Orderly source (moveTo source rounds target heading) before := .moveTo hs₁ ..
    have hstrides := horderly.strides
    rw [hwent] at hstrides
    have hledger := ledger_of_steps (steps_of_strides hstrides)
    have ha₁ := ha.of_stills hs hsteps (hspans.of_suffix hledger)
    obtain ⟨hmove, hkeeps⟩ := size_of_moveTo hs₁ ha₁ hwent hspans
    refine ⟨by omega, fun hlands hforward => ?_⟩
    have hanswer : answer = .ok true := by
      cases answer with
      | error stop => cases hlands.1
      | ok found =>
        cases found with
        | true => rfl
        | false => cases hlands.1
    rw [← hoptions]
    refine hkeeps hanswer ?_
    unfold isForwardOnly at hforward ⊢
    rw [hoptions]
    exact hforward
  | parks _ _ hanswer =>
    exact ⟨hsize.trans (Nat.le_add_right _ _),
      fun hlands => absurd (Except.ok.inj hlands.1) hanswer⟩
  | shuts _ hrows hanswer =>
    rw [hrows]
    exact ⟨Nat.zero_le _, fun hlands => absurd hlands.1 hanswer⟩

/-! ## Every run -/

/-- How many calls there were since the cursor last came to stand on a row, counted on from
`away`. -/
def callsAway (source : BatchSource σ H) : (away : Nat) → List (Nat × Call) → Desk σ H → Nat
  | away, [], _ => away
  | away, (rounds, call) :: calls, d =>
    let outcome := exec (call.perform source rounds) d
    callsAway source (if call.Lands outcome.1 then 0 else away + 1) calls outcome.2

theorem size_of_afterCalls {options : Options} {first : Results} {s : σ}
    (h : Reachable source options first s d) (hscrollable : options.cursorType = .scrollable)
    {away : Nat} (hsize : d.cursor.rows.size ≤ max options.savedBatches 2 +
      2 * options.fetchSize.toNat * away) {calls : List (Nat × Call)}
    (hspans : WithinSpans (afterCalls source calls d).cursor.ledger) :
    (afterCalls source calls d).cursor.rows.size ≤ max options.savedBatches 2 +
      2 * options.fetchSize.toNat * callsAway source away calls d := by
  induction calls generalizing d away with
  | nil => exact hsize
  | cons entry calls ih =>
    obtain ⟨rounds, call⟩ := entry
    have hcall := h.call rounds call
    have hoptions := h.options_eq
    have hforward : d.cursor.isForwardOnly = false := by
      rw [isForwardOnly, hoptions, hscrollable]
      rfl
    have hcount : d.cursor.fetchCount = options.fetchSize.toNat := by
      rw [fetchCount, hoptions]
    have hledger := ledger_of_afterCalls source calls hcall.sound
    have hbefore := (ledger_of_steps (call_steps h.sound rounds call)).trans hledger
    have hexec : exec (call.perform source rounds) d = ((exec (call.perform source rounds) d).1,
      (exec (call.perform source rounds) d).2) := rfl
    obtain ⟨hadds, hkeeps⟩ := size_of_call h.sound
      (.of_reachable h (hspans.of_suffix hbefore)) rounds call hexec (hspans.of_suffix hledger)
    rw [hoptions, hcount] at hadds
    rw [hoptions] at hkeeps
    refine ih hcall ?_ hspans
    split
    · next hlands =>
      have hkept := hkeeps hlands hforward
      omega
    · rw [Nat.mul_add, Nat.mul_one]
      omega

/-- **How many batches are at hand** of a scrollable cursor: as many as it keeps, or two, and as many
more as two fetches have rows for every call since it last came to stand on a row, be it one that
fails, one that only looks, or one that parks. -/
theorem resident_batches_bounded {options : Options} {first : Results} {s : σ} {c : Cursor H}
    (hstart : Cursor.start options first = .ok c) (hscrollable : options.cursorType = .scrollable)
    (calls : List (Nat × Call))
    (hspans : WithinSpans (afterCalls source calls ⟨c, s, false⟩).cursor.ledger) :
    (afterCalls source calls ⟨c, s, false⟩).cursor.rows.size ≤ max options.savedBatches 2 +
      2 * options.fetchSize.toNat * callsAway source 0 calls ⟨c, s, false⟩ := by
  refine size_of_afterCalls (.start hstart) hscrollable ?_ hspans
  obtain ⟨-, -, rfl⟩ := of_start hstart
  unfold extend
  simp only
  split
  · next b _ =>
    have hone : ((blank options : Cursor H).rows.insert b).size ≤ 0 + 1 :=
      Residency.size_insert_le
    omega
  · exact Nat.zero_le _

/-- To the first row, and then twice to rows that cannot be read. -/
def Script.stumble : List (Nat × Call) :=
  [.next, .absolute 3, .absolute 4].map fun m => (3, .move m)

/-- Two moves that fail after one that came to stand leave three batches at hand, within a bound of
ten. -/
theorem resident_batches_bounded_stumble :
    (afterCalls Script.source Script.stumble Script.brokenDesk).cursor.rows.size = 3 ∧
    callsAway Script.source 0 Script.stumble Script.brokenDesk = 2 ∧
    (afterCalls Script.source Script.stumble Script.brokenDesk).cursor.rows.size ≤
      2 + 4 * callsAway Script.source 0 Script.stumble Script.brokenDesk := by
  have hstart : Cursor.start .inPairs (Engine.tableBatch 9 1 2) = .ok Script.brokenDesk.cursor :=
    rfl
  have hspans : WithinSpans
      (afterCalls Script.source Script.stumble Script.brokenDesk).cursor.ledger := by
    decide +kernel
  exact ⟨by decide +kernel, by decide +kernel,
    resident_batches_bounded hstart rfl Script.stumble hspans⟩

/-! ## Moves that fail -/

/-- A source that answers every fetch with a failure at its first row. -/
def failing : BatchSource Unit Int where
  request start _ s := (.ok start, s)
  wait _ start s := (.ok (Results.failure (Int64.ofInt start) unreadable), start, s)
  abandon _ s := s
  close s := (.ok (), s)

/-- One row per fetch, in any order, and one batch to keep. -/
def Options.single : Options :=
  { Options.inPairs with fetchSize := 1, prefetch := false, savedBatches := 1 }

/-- A cursor before the first row that has the failures of the first `k` rows at hand. -/
structure Climbed (k : Nat) (d : Desk Unit Int) : Prop where
  reachable : Reachable failing .single (Results.header 1 0) () d
  opened : d.cursor.closed = false
  position : d.cursor.position = .beforeFirst
  unknown : d.cursor.finalRow = none
  free : d.cursor.flight = none
  below : ∀ b ∈ d.cursor.rows.batches, b.last ≤ k
  size : d.cursor.rows.size = k
  spans : WithinSpans d.cursor.ledger

theorem climbed_zero :
    Climbed 0 ⟨(blank .single : Cursor Int).extend (Results.header 1 0), (), false⟩ where
  reachable := .start rfl
  opened := rfl
  position := rfl
  unknown := rfl
  free := rfl
  below b hb := by cases hb
  size := rfl
  spans flight outcome call b hmem := by cases hmem

theorem Climbed.missing {k : Nat} {d : Desk Unit Int} (h : Climbed k d) {row : Int}
    (hrow : k + 1 ≤ row) : d.cursor.rows.contains row = false := by
  refine (Residency.contains_eq_false_iff h.reachable.sound.rows).2 fun b hb => ?_
  have hle := h.below b hb
  rw [← Bool.not_eq_true, Batch.contains_iff]
  omega

/-- What the failing source sends for a row agrees with itself. -/
theorem validate_failing {row : Int} (hone : 1 ≤ row) (hsmall : row < 2 ^ 63) :
    (Results.failure (Int64.ofInt row) unreadable).validate = .ok () := by
  have hrow : (Int64.ofInt row).toInt = row := Int64.toInt_ofInt_of_le (by omega) hsmall
  have hfirst : ¬ (Int64.ofInt row < 1) := by
    rw [Int64.lt_iff_toInt_lt, hrow]
    exact Int.not_lt.2 hone
  simp [Results.validate, Results.failure, Results.header, hfirst]

theorem broughtBy_failing {row : Int} (hone : 1 ≤ row) (hsmall : row < 2 ^ 63) :
    broughtBy (.ok (Results.failure (Int64.ofInt row) unreadable)) =
      some ⟨row, row, [], some unreadable⟩ := by
  have hrow : (Int64.ofInt row).toInt = row := Int64.toInt_ofInt_of_le (by omega) hsmall
  have hbatch : Batch.ofResults? (Results.failure (Int64.ofInt row) unreadable) =
      some ⟨row, row, [], some unreadable⟩ := by
    simp only [Batch.ofResults?, Results.failure, Results.header, hrow]
  unfold broughtBy
  simp only [validate_failing hone hsmall, hbatch]

/-- A cursor that looks for the next row it knows nothing of asks for it alone. -/
theorem spanFor_climbed {k : Nat} {d : Desk Unit Int} (h : Climbed k d) :
    (spanFor (k + 1) .forward d.cursor).1 = ⟨k + 1, 1⟩ := by
  have hs := h.reachable.sound
  have hfetch : d.cursor.fetchSize = 1 := by
    rw [fetchSize, h.reachable.options_eq]
    rfl
  obtain ⟨-, hle, hreach, -⟩ := Residency.demandStart_bounds hs.rows hs.one_le_fetchSize
    (by omega : (1 : Int) ≤ k + 1) .forward
  obtain ⟨hone, hcount, -, -⟩ := Residency.demandCount_bounds hs.rows hs.one_le_fetchSize
    (d.cursor.rows.demandStart d.cursor.fetchSize (k + 1) .forward).1
  rw [spanFor, Residency.demandSpan_fst, Span.mk.injEq]
  omega

namespace Climbed

/-- The cursor once it has asked for the next row. -/
def asked (k : Nat) (c : Cursor Int) : Cursor Int :=
  { c with heading := .forward }.requested (.demand (k + 1)) ⟨k + 1, 1⟩ (.ok (k + 1))

/-- The cursor once the failure of the next row has come in. -/
def told (k : Nat) (c : Cursor Int) : Cursor Int :=
  ((asked k c).received ⟨k + 1, 1, k + 1⟩
    (.ok (Results.failure (Int64.ofInt (k + 1)) unreadable)) (k + 1)).2

end Climbed

theorem rows_told {k : Nat} (c : Cursor Int) (hsmall : k + 1 < 2 ^ 63) :
    (Climbed.told k c).rows = c.rows.insert ⟨k + 1, k + 1, [], some unreadable⟩ := by
  rw [Climbed.told, received_rows, broughtBy_failing (by omega) (by omega)]
  rfl

/-- A move to the next row asks for it, and fails with what has come in. -/
theorem exec_climb {k : Nat} {d : Desk Unit Int} (h : Climbed k d) (hsmall : k + 1 < 2 ^ 63) :
    ∃ overflowed, (exec (Call.perform failing 2 (.move (.absolute (k + 1)))) d).2 =
      ⟨Climbed.told k d.cursor, (), overflowed⟩ := by
  have hs := h.reachable.sound
  have hone : (1 : Int) ≤ k + 1 := by omega
  have hmissing := h.missing (Int.le_refl (k + 1))
  have hscrollable : d.cursor.isForwardOnly = false := by
    rw [isForwardOnly, h.reachable.options_eq]
    rfl
  -- the call is a move to the row
  have hmove : exec (absolute failing 2 (k + 1)) d =
      exec (moveTo failing 2 (k + 1) .forward) d := by
    unfold absolute
    rw [exec_bind_ok (exec_cursor d), exec_bind_ok (exec_ensureOpen_of_opened h.opened),
      if_neg (by omega), if_neg (by omega), exec_bind_ok (exec_cursor d), h.position]
    rfl
  -- which looks for it and asks for it
  have hfind : (Quest.row (k + 1) .forward).find (d.turn .forward).cursor = none := by
    simp only [Quest.row, findRow, Desk.turn, hmissing, h.unknown]
    rfl
  have hspan : ((Quest.row (k + 1) .forward : Quest Int Bool).span (d.turn .forward).cursor).1 =
      ⟨k + 1, 1⟩ := by
    have hclimbed := spanFor_climbed h
    exact hclimbed
  have hreach : isOutOfReach d.cursor (k + 1) = false := by
    rw [isOutOfReach, hscrollable]
    rfl
  have hfree : (d.turn .forward).cursor.flight = none := h.free
  let d₁ := noted (d.turn .forward) ((Quest.row (k + 1) .forward).span (d.turn .forward).cursor).2
  have hfetched : exec (fetchFor failing (.row (k + 1) .forward) false) (d.turn .forward) =
      (.ok (), ⟨Climbed.asked k d.cursor, (), d₁.overflowed⟩) := by
    rw [exec_fetchFor_of_none failing hfree, exec_issue, hspan]
    rfl
  -- the failure comes, and the move raises it
  have hawaited : exec (await failing) ⟨Climbed.asked k d.cursor, (), d₁.overflowed⟩ =
      (.ok true, ⟨Climbed.told k d.cursor, (), d₁.overflowed⟩) := by
    have hnew : ∀ c : Cursor Int,
        c.isNewTo (Results.failure (Int64.ofInt (k + 1)) unreadable) = true :=
      fun _ => isNewTo_of_batch (.inl rfl)
    rw [exec_await_of_some rfl rfl]
    simp only [failing, Climbed.told, received, absorb, validate_failing hone (by omega), hnew]
    rfl
  have hfound : (Quest.row (k + 1) .forward).find (Climbed.told k d.cursor) =
      some (.error (.remote unreadable)) := by
    have hfind : (Climbed.told k d.cursor).rows.find (k + 1) =
        some ⟨k + 1, k + 1, [], some unreadable⟩ := by
      rw [rows_told _ hsmall, Residency.find_eq_some_iff
        (hs.rows.insert (valid_of_broughtBy (broughtBy_failing hone (by omega))))]
      exact ⟨Residency.mem_insert.2 (.inl rfl), Batch.contains_iff.2 ⟨Int.le_refl _, Int.le_refl _⟩⟩
    simp only [Quest.row, findRow, Residency.contains, Residency.rowAt, hfind]
    rfl
  refine ⟨d₁.overflowed, ?_⟩
  simp only [Call.perform, Move.perform, exec_map]
  rw [hmove, exec_moveTo, hreach]
  simp only [Bool.false_eq_true, if_false]
  rw [if_neg (by omega), seek, exec_bind_ok (exec_cursor _)]
  simp only [hfind]
  rw [exec_bind_ok hfetched, exec_bind_ok hawaited, exec_bind_ok (exec_pure ..),
    exec_seek_of_find hfound]
  rfl

/-- A move to the next row fails, and its failure stays at hand. -/
theorem climbed_succ {k : Nat} {d : Desk Unit Int} (h : Climbed k d) (hsmall : k + 1 < 2 ^ 63) :
    Climbed (k + 1) (exec (Call.perform failing 2 (.move (.absolute (k + 1)))) d).2 := by
  have hs := h.reachable.sound
  have hcall := h.reachable.call 2 (.move (.absolute (k + 1)))
  obtain ⟨overflowed, hexec⟩ := exec_climb h hsmall
  rw [hexec] at hcall ⊢
  have hbatch := broughtBy_failing (by omega : (1 : Int) ≤ k + 1) (by omega)
  have hmissing : ∀ row, (⟨k + 1, k + 1, [], some unreadable⟩ : Batch).contains row = true →
      d.cursor.rows.contains row = false := by
    intro row hrow
    obtain ⟨hlow, -⟩ := Batch.contains_iff.1 hrow
    simp only at hlow
    exact h.missing hlow
  have hrows := rows_told d.cursor hsmall
  refine ⟨hcall, ?_, ?_, ?_, ?_, fun b hb => ?_, ?_, ?_⟩
  · exact received_closed.trans h.opened
  · exact received_position.trans h.position
  · simp only [Climbed.told, received, absorb, validate_failing (by omega : (1 : Int) ≤ k + 1)
      (by omega)]
    exact h.unknown
  · rw [Climbed.told, received_flight]
  · rw [hrows, Residency.mem_insert] at hb
    rcases hb with rfl | ⟨hb, -⟩
    · simp
    · have hle := h.below b hb
      omega
  · have hgrown := Residency.size_insert_of_missing hs.rows (valid_of_broughtBy hbatch) hmissing
    rw [hrows, hgrown, h.size]
  · intro flight outcome call b hmem hb
    rw [Climbed.told, received_ledger, Climbed.asked, requested_ledger] at hmem
    rcases List.mem_cons.1 hmem with heq | hmem
    · cases heq
      rw [hbatch] at hb
      cases hb
      simp
    rcases List.mem_cons.1 hmem with heq | hmem
    · cases heq
    · exact h.spans flight outcome call b hmem hb

/-- **Moves that fail keep what they bring**: a cursor that is to keep one batch, and fetches one
row at a time, may have any number of batches at hand, short of the number of rows there can be. -/
theorem resident_batches_unbounded : ¬ ∃ bound : Nat → UInt32 → Nat, bound 1 1 < 2 ^ 62 ∧
    ∀ (σ H : Type) (source : BatchSource σ H) (options : Options) (first : Results) (s : σ)
      (d : Desk σ H), options.cursorType = .scrollable → Reachable source options first s d →
      WithinSpans d.cursor.ledger →
      d.cursor.rows.size ≤ bound options.savedBatches options.fetchSize := by
  intro h
  obtain ⟨bound, hsmall, hbound⟩ := h
  have hclimbs : ∀ k < 2 ^ 63, ∃ d, Climbed k d := by
    intro k hk
    induction k with
    | zero => exact ⟨_, climbed_zero⟩
    | succ k ih =>
      obtain ⟨d, hd⟩ := ih (by omega)
      exact ⟨_, climbed_succ hd hk⟩
  obtain ⟨d, hd⟩ := hclimbs (bound 1 1 + 1) (by omega)
  have hle := hbound Unit Int failing .single _ () d rfl hd.reachable hd.spans
  rw [hd.size] at hle
  exact absurd hle (Nat.not_succ_le_self _)

end QueryClient.Cursor
