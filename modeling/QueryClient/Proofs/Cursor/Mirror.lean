import QueryClient.Proofs.Cursor.Atomicity
import QueryClient.Proofs.Cursor.ListCursor

/-!
# A cursor mirrors the table that is served

While a source serves a table, an open scrollable cursor holds pieces of that table and nothing else
(`Mirrors`). What the invariant says of the fetch under way is the point: one that starts past the
end is only outstanding while the final row is unknown, so that its answer always brings something
new.
-/

namespace QueryClient.Cursor

open Relation (ReflTransGen)
open Attempt Nav

variable {σ H : Type} {source : BatchSource σ H} {d e : Desk σ H} {table : List Row} {n : Int}

theorem getElem?_slice (table : List Row) {first last : Int} (hone : 1 ≤ first)
    (hfirst : first ≤ n) (hlast : n ≤ last) :
    (slice table first last)[(n - first).toNat]? = table[(n - 1).toNat]? := by
  unfold slice
  rw [List.getElem?_take_of_lt (by omega), List.getElem?_drop]
  congr 1
  omega

section Answers

variable {results : Results} {start count : Int}

/-- An answer with rows brings them as a batch. -/
theorem broughtBy_of_answers (h : results.Answers table start count)
    (hstart : start ≤ table.length) :
    ∃ b, broughtBy (.ok results) = some b ∧ b.first = start ∧ b.last ≤ start + count - 1 ∧
      b.last ≤ table.length ∧ b.failure = none ∧ b.rows = slice table b.first b.last := by
  obtain ⟨last, hle, hcount, hlast, hfirst, hlastRow, hrows, -⟩ := h.within hstart
  have hone := Batch.one_le_firstRow h.valid
  have hne : results.rows ≠ [] := by
    intro hnil
    have hhead := getElem?_slice table (hfirst ▸ hone) (Int.le_refl start) hle
    rw [← hrows, hnil, List.getElem?_nil, eq_comm, List.getElem?_eq_none_iff] at hhead
    omega
  have hbatch : Batch.ofResults? results =
      some ⟨results.firstRow.toInt, results.lastRow.toInt, results.rows, none⟩ := by
    unfold Batch.ofResults?
    rw [h.plain]
    cases hr : results.rows with
    | nil => exact absurd hr hne
    | cons => rfl
  refine ⟨⟨results.firstRow.toInt, results.lastRow.toInt, results.rows, none⟩, ?_, hfirst, ?_, ?_,
    rfl, ?_⟩
  · simp only [broughtBy, h.valid]
    exact hbatch
  · simp only
    omega
  · simp only
    omega
  · simp only [hfirst, hlastRow, hrows]

/-- An answer from past the end brings no batch. -/
theorem broughtBy_of_answers_past (h : results.Answers table start count)
    (hstart : table.length < start) : broughtBy (.ok results) = none := by
  obtain ⟨hrows, -⟩ := h.past hstart
  simp only [broughtBy, h.valid]
  unfold Batch.ofResults?
  rw [hrows, h.plain]

theorem finalRowOf_of_toInt (h : results.finalRow.toInt = table.length) :
    finalRowOf results = some (table.length : Int) := by
  unfold finalRowOf
  rw [if_neg, h]
  intro hunknown
  rw [hunknown] at h
  have hminus : Results.unknownFinalRow.toInt = -1 := rfl
  omega

theorem finalRowOf_of_answers (h : results.Answers table start count) :
    finalRowOf results = none ∨ finalRowOf results = some (table.length : Int) := by
  by_cases hstart : start ≤ table.length
  · obtain ⟨last, -, -, -, -, -, -, hunknown | hfinal⟩ := h.within hstart
    · exact .inl (if_pos hunknown)
    · exact .inr (finalRowOf_of_toInt hfinal)
  · exact .inr (finalRowOf_of_toInt (h.past (by omega)).2)

end Answers

namespace Serves

variable {ledger before : List (Ask H)}

theorem of_suffix (h : Serves table ledger) (hsuffix : before <:+ ledger) :
    Serves table before where
  granted purpose start count atHand outcome hmem :=
    h.granted purpose start count atHand outcome (hsuffix.subset hmem)
  answered flight outcome call hmem := h.answered flight outcome call (hsuffix.subset hmem)

theorem withinSpans (h : Serves table ledger) : WithinSpans ledger := by
  intro flight outcome call b hmem hbrought
  rcases h.answered flight outcome call hmem with ⟨fault, rfl, -⟩ | ⟨results, rfl, hanswers⟩
  · cases hbrought
  · by_cases hstart : flight.start ≤ table.length
    · obtain ⟨b', hb', hfirst, hlast, -⟩ := broughtBy_of_answers hanswers hstart
      rw [hb'] at hbrought
      cases hbrought
      exact ⟨Int.le_of_eq hfirst.symm, hlast⟩
    · rw [broughtBy_of_answers_past hanswers (by omega)] at hbrought
      cases hbrought

end Serves

/-- An open scrollable cursor that holds pieces of a table, and asks past its end only while it does
not know the final row. -/
structure Mirrors (table : List Row) (c : Cursor H) : Prop where
  sound : Sound c
  anchored : Anchored c
  scrollable : c.options.cursorType = .scrollable
  opened : c.closed = false
  batch : ∀ b ∈ c.rows.batches, b.failure = none ∧ b.last ≤ table.length ∧
    b.rows = slice table b.first b.last
  finalRow : ∀ last, c.finalRow = some last → last = table.length
  flight : ∀ flight, c.flight = some flight → table.length < flight.start → c.finalRow = none

/-- What an answer to a fetch from `start` on tells a cursor: rows that were missing, or where the
table ends. -/
inductive Told (table : List Row) (start : Int) (c c' : Cursor H) : Prop
  | rows {b : Batch} (hb : b.Valid) (hfirst : b.first = start) (hlast : b.last ≤ table.length)
      (hplain : b.failure = none) (hslice : b.rows = slice table b.first b.last)
      (hmissing : ∀ row, b.contains row = true → c.rows.contains row = false)
      (hinsert : c'.rows = c.rows.insert b)
      (hfinal : c'.finalRow = c.finalRow ∨ c'.finalRow = some (table.length : Int))
  | past (hstart : table.length < start) (hunknown : c.finalRow = none) (hrows : c'.rows = c.rows)
      (hfinal : c'.finalRow = some (table.length : Int))

section Told

variable {c : Cursor H} {results : Results} {start count : Int}

/-- **An answer** to a fetch of missing rows always tells a cursor something. -/
theorem told_of_answers (hanswers : results.Answers table start count)
    (hmissing : ∀ row, start ≤ row → row ≤ start + count - 1 → c.rows.contains row = false)
    (hunknown : table.length < start → c.finalRow = none) :
    c.isNewTo results = true ∧ Told table start c (c.extend results) := by
  have hbatch : broughtBy (.ok results) = Batch.ofResults? results := by
    simp only [broughtBy, hanswers.valid]
  unfold isNewTo extend
  rw [← hbatch]
  by_cases hstart : start ≤ table.length
  · obtain ⟨b, hbrought, hfirst, hspan, hlast, hplain, hslice⟩ :=
      broughtBy_of_answers hanswers hstart
    rw [hbrought]
    refine ⟨by simp, .rows (valid_of_broughtBy hbrought) hfirst hlast hplain hslice ?_ rfl ?_⟩
    · intro row hrow
      rw [Batch.contains_iff] at hrow
      exact hmissing row (by omega) (by omega)
    · rcases finalRowOf_of_answers hanswers with hnone | hsome
      · exact .inl (by simp [hnone])
      · exact .inr (by simp [hsome])
  · have hpast : table.length < start := by omega
    have hfinal := finalRowOf_of_toInt (hanswers.past hpast).2
    rw [broughtBy_of_answers_past hanswers hpast, hfinal]
    exact ⟨by simp [hunknown hpast], .past hpast (hunknown hpast) rfl rfl⟩

theorem received_of_valid (hv : results.validate = .ok ()) (flight : Flight H) (call : H) :
    c.received flight (.ok results) call = (.ok (c.isNewTo results),
      { c.extend results with
        ledger := .waited flight (.ok results) call :: c.ledger
        flight := none }) := by
  simp only [received, absorb, hv]
  rfl

/-- What a cursor hears from the fetch it waits for. -/
theorem told_of_received (hm : Mirrors table c) {flight : Flight H}
    (hflight : c.flight = some flight) (hanswers : results.Answers table flight.start flight.count)
    (call : H) :
    (c.received flight (.ok results) call).1 = .ok true ∧
      Told table flight.start c (c.received flight (.ok results) call).2 := by
  obtain ⟨hnew, htold⟩ := told_of_answers hanswers (hm.anchored.apart flight hflight)
    (hm.flight flight hflight)
  rw [received_of_valid hanswers.valid, hnew]
  refine ⟨rfl, ?_⟩
  cases htold with
  | rows hb hfirst hlast hplain hslice hmissing hinsert hfinal =>
    exact .rows hb hfirst hlast hplain hslice hmissing hinsert hfinal
  | past hstart hunknown hrows hfinal => exact .past hstart hunknown hrows hfinal

end Told

/-- What is asked for starts within the table, unless the final row is unknown. -/
theorem Sought.finalRow_eq_none {c : Cursor H} (hm : Mirrors table c) {purpose : Purpose}
    {span : Span} (hs : Sought c purpose span) (hstart : table.length < span.start) :
    c.finalRow = none := by
  cases hfinal : c.finalRow with
  | none => rfl
  | some last =>
    have hlast := hm.finalRow last hfinal
    exfalso
    cases hs with
    | @demand target heading htarget hmissing hreach =>
      have hle := (Residency.demandSpan_proper hm.sound.rows hm.sound.one_le_fetchSize htarget
        hmissing heading).2.1
      simp only [hfinal, Option.any_some, decide_eq_false_iff_not] at hreach
      simp only [spanFor] at hstart
      omega
    | finalRow hunknown =>
      rw [hfinal] at hunknown
      cases hunknown
    | ahead hrow hspan hcount =>
      unfold spanToPrefetch at hspan
      split at hspan
      · have hreach := Residency.spanAhead_within hspan
        simp only [hfinal, Option.any_some, decide_eq_false_iff_not] at hreach
        omega
      · split at hspan
        · cases hspan
        · have hend := Residency.spanBehind_end hspan
          obtain ⟨b, hb, hedge⟩ := Residency.exists_contiguousStart hm.sound.rows hrow
          have hfirst := (hm.sound.rows.batch b hb).first_le
          have hbatch := (hm.batch b hb).2.1
          omega

namespace Mirrors

theorem of_told {c c' : Cursor H} {start : Int} (hm : Mirrors table c)
    (htold : Told table start c c') (hsound : Sound c') (hanchored : Anchored c')
    (hoptions : c'.options = c.options) (hclosed : c'.closed = c.closed)
    (hflight : c'.flight = none) :
    Mirrors table c' where
  sound := hsound
  anchored := hanchored
  scrollable := by rw [hoptions, hm.scrollable]
  opened := by rw [hclosed, hm.opened]
  batch b hb := by
    cases htold with
    | rows _ _ hlast hplain hslice _ hinsert =>
      rw [hinsert, Residency.mem_insert] at hb
      rcases hb with rfl | ⟨hb, -⟩
      · exact ⟨hplain, hlast, hslice⟩
      · exact hm.batch b hb
    | past _ _ hrows =>
      rw [hrows] at hb
      exact hm.batch b hb
  finalRow last hlast := by
    cases htold with
    | rows _ _ _ _ _ _ _ hfinal =>
      rcases hfinal with hsame | hknown
      · rw [hsame] at hlast
        exact hm.finalRow last hlast
      · rw [hknown] at hlast
        cases hlast
        rfl
    | past _ _ _ hfinal =>
      rw [hfinal] at hlast
      cases hlast
      rfl
  flight flight hsome := by
    rw [hflight] at hsome
    cases hsome

/-- **Still steps** keep a cursor a mirror of the table that is served. -/
theorem of_still (hm : Mirrors table d.cursor) (hstep : Still source d e)
    (hserves : Serves table e.cursor.ledger) : Mirrors table e.cursor := by
  have hsound := hm.sound.of_still hstep
  have hanchored := hm.anchored.of_still hm.sound hstep hserves.withinSpans
  cases hstep with
  | mark => exact hm
  | turn => exact ⟨hsound, hanchored, hm.scrollable, hm.opened, hm.batch, hm.finalRow, hm.flight⟩
  | evictBehind =>
    refine ⟨hsound, hanchored, hm.scrollable, hm.opened, fun b hb => ?_, hm.finalRow, hm.flight⟩
    exact hm.batch b (Residency.sublist_evictBehind.subset hb)
  | evictAround =>
    refine ⟨hsound, hanchored, hm.scrollable, hm.opened, fun b hb => ?_, hm.finalRow, hm.flight⟩
    exact hm.batch b (Residency.sublist_evictKeeping.subset hb)
  | request hfree hsought =>
    refine ⟨hsound, hanchored, ?_, ?_, ?_, ?_, fun flight hflight hstart => ?_⟩
    · simpa using hm.scrollable
    · simpa using hm.opened
    · simpa using hm.batch
    · simpa using hm.finalRow
    · rw [requested_flight] at hflight
      rw [requested_finalRow]
      split at hflight
      · rw [hfree] at hflight
        cases hflight
      · cases hflight
        exact hsought.finalRow_eq_none hm hstart
  | @wait flight hflight outcome call t hwait =>
    have hmem : Ask.waited flight outcome call ∈
        (d.cursor.received flight outcome call).2.ledger := by simp
    rcases hserves.answered flight outcome call hmem with
      ⟨fault, rfl, ht⟩ | ⟨results, rfl, hanswers⟩
    · refine ⟨hsound, hanchored, hm.scrollable, hm.opened, hm.batch, hm.finalRow, ?_⟩
      intro later hlater hstart
      rw [received_flight] at hlater
      simp only [ht, if_true] at hlater
      cases hlater
      exact hm.flight flight hflight hstart
    · have htold := (told_of_received hm hflight hanswers call).2
      exact hm.of_told htold hsound hanchored received_options received_closed
        (by rw [received_flight])

theorem of_stride (hm : Mirrors table d.cursor) (hstride : Stride source d e)
    (hserves : Serves table e.cursor.ledger) : Mirrors table e.cursor := by
  have hsound := hm.sound.of_stride hstride
  have hanchored := hm.anchored.of_stride hm.sound hstride hserves.withinSpans
  cases hstride with
  | still hstill => exact hm.of_still hstill hserves
  | park => exact ⟨hsound, hanchored, hm.scrollable, hm.opened, hm.batch, hm.finalRow, hm.flight⟩
  | stand => exact ⟨hsound, hanchored, hm.scrollable, hm.opened, hm.batch, hm.finalRow, hm.flight⟩

theorem of_strides (hm : Mirrors table d.cursor) (hstrides : ReflTransGen (Stride source) d e)
    (hserves : Serves table e.cursor.ledger) : Mirrors table e.cursor := by
  induction hstrides with
  | refl => exact hm
  | tail _ hstride ih =>
    exact (ih (hserves.of_suffix (ledger_of_stride hstride))).of_stride hstride hserves

theorem of_stills (hm : Mirrors table d.cursor) (hstills : ReflTransGen (Still source) d e)
    (hserves : Serves table e.cursor.ledger) : Mirrors table e.cursor :=
  hm.of_strides (strides_of_stills hstills) hserves

/-- A new scrollable cursor mirrors the table that its first results are of. -/
theorem of_start {options : Options} {first : Results} {c : Cursor H}
    (hscroll : options.cursorType = .scrollable) {count : Int}
    (hfirst : first.Answers table 1 count) (h : Cursor.start options first = .ok c) :
    Mirrors table c := by
  have hsound := Sound.of_start h
  obtain ⟨-, -, rfl⟩ := Cursor.of_start h
  have hblank : Mirrors table (blank options : Cursor H) := by
    refine ⟨⟨.empty, hsound.one_le_fetchSize, hsound.flight_iff, .nil, hsound.one_le_row⟩, ?_,
      hscroll, rfl, fun b hb => ?_, fun last hlast => ?_, fun flight hflight => ?_⟩
    · refine ⟨fun flight hflight => ?_, fun _ n hpos => ?_⟩
      · cases hflight
      · cases hpos
    · cases hb
    · cases hlast
    · cases hflight
  have hmissing : ∀ row, 1 ≤ row → row ≤ 1 + count - 1 →
      (blank options : Cursor H).rows.contains row = false := fun _ _ _ => rfl
  have htold := (told_of_answers hfirst hmissing fun _ => rfl).2
  refine hblank.of_told htold hsound ⟨fun flight hflight => ?_, fun _ n hpos => ?_⟩ rfl rfl rfl
  · cases hflight
  · cases hpos

/-! ## Rows at hand -/

variable {c : Cursor H}

theorem le_length (hm : Mirrors table c) (hrow : c.rows.contains n = true) : n ≤ table.length := by
  obtain ⟨b, hb, hc⟩ := (Residency.contains_iff hm.sound.rows).1 hrow
  have hlast := (hm.batch b hb).2.1
  have hc := Batch.contains_iff.1 hc
  omega

/-- A row at hand is that of the table. -/
theorem rowAt_eq (hm : Mirrors table c) (hrow : c.rows.contains n = true) :
    c.rows.rowAt n = ListCursor.row table (.onRow n) := by
  obtain ⟨b, hfind⟩ := Option.isSome_iff_exists.1 hrow
  obtain ⟨hb, hc⟩ := (Residency.find_eq_some_iff hm.sound.rows).1 hfind
  obtain ⟨hplain, hlast, hslice⟩ := hm.batch b hb
  have hone := (hm.sound.rows.batch b hb).one_le
  have hspan := Batch.contains_iff.1 hc
  have hcell := getElem?_slice table hone hspan.1 hspan.2
  rw [← hslice] at hcell
  cases htable : table[(n - 1).toNat]? with
  | none =>
    rw [htable] at hcell
    simp only [Residency.rowAt, hfind, Batch.row, hplain, hc, if_true, ListCursor.row, hcell,
      htable]
  | some cells =>
    rw [htable] at hcell
    simp only [Residency.rowAt, hfind, Batch.row, hplain, hc, if_true, ListCursor.row, hcell,
      htable]

theorem isOk_row (hone : 1 ≤ n) (hn : n ≤ table.length) :
    ∃ cells, ListCursor.row table (.onRow n) = .ok cells := by
  have hlt : (n - 1).toNat < table.length := by omega
  simp only [ListCursor.row, List.getElem?_eq_getElem hlt]
  exact ⟨_, rfl⟩

/-- The current row is that of the table. -/
theorem row_eq (hm : Mirrors table c) : c.row = ListCursor.row table c.position := by
  unfold row ensureOpen
  rw [hm.opened]
  cases hpos : c.position with
  | beforeFirst => rfl
  | afterLast => rfl
  | onRow n =>
    obtain ⟨cells, hrow⟩ := hm.anchored.current hm.opened n hpos
    exact hm.rowAt_eq (contains_of_rowAt hrow)

end Mirrors

end QueryClient.Cursor
