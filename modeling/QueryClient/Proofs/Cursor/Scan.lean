import Mathlib.Data.List.Intervals
import Mathlib.Data.List.Range
import QueryClient.Proofs.Cursor.Refinement
import QueryClient.Proofs.Cursor.Tail

/-!
# A forward scan fetches every row once

Over a source that answers each fetch with all the rows it asks for, a cursor that is moved on row
by row takes the table in pieces of one fetch each. It stands in the newest piece or right behind
it, whatever it has kept of the others, and the one fetch that may be under way is for the piece
that comes next (`Scanned`). So demands and fetches ahead of demand ask for the same spans, in
order, and for none of them twice (`scan_fetches_once`).
-/

namespace QueryClient

/-- Whether results are the whole answer to a fetch of `count` rows from `start` on of a table: all
of these rows that there are, and the final row exactly when they reach it. -/
structure Results.Fills (table : List Row) (start count : Int) (results : Results) : Prop where
  valid : results.validate = .ok ()
  plain : results.exception = none
  firstRow : results.firstRow.toInt = start
  lastRow : results.lastRow.toInt = min (start + count - 1) table.length
  rows : results.rows = slice table start (min (start + count - 1) table.length)
  finalRow : results.finalRow.toInt =
    if (table.length : Int) ≤ start + count - 1 then (table.length : Int) else -1

namespace Cursor

open Relation (ReflTransGen)
open Attempt Nav

variable {σ H : Type} {source : BatchSource σ H} {d e : Desk σ H} {table : List Row} {k : Nat}
  {c : Cursor H}

/-- Whether a source filled every fetch that starts within a table: each was granted, and the first
wait for it brought the whole answer. -/
structure Fills (table : List Row) (ledger : List (Ask H)) : Prop where
  granted : ∀ purpose start count atHand outcome,
    .requested purpose start count atHand outcome ∈ ledger → ∃ call, outcome = .ok call
  filled : ∀ (flight : Flight H) outcome call, .waited flight outcome call ∈ ledger →
    flight.start ≤ table.length →
    ∃ results, outcome = .ok results ∧ results.Fills table flight.start flight.count

theorem Fills.of_suffix {before ledger : List (Ask H)} (h : Fills table ledger)
    (hsuffix : before <:+ ledger) : Fills table before where
  granted purpose start count atHand outcome hmem :=
    h.granted purpose start count atHand outcome (hsuffix.subset hmem)
  filled flight outcome call hmem := h.filled flight outcome call (hsuffix.subset hmem)

/-- The span that an ask is a request for. -/
def Ask.span? : Ask H → Option Span
  | .requested _ start count _ _ => some ⟨start, count⟩
  | _ => none

/-- The spans that were requested, the first one first. -/
def requests (ledger : List (Ask H)) : List Span :=
  ledger.reverse.filterMap Ask.span?

theorem requests_cons (entry : Ask H) (ledger : List (Ask H)) :
    requests (entry :: ledger) = requests ledger ++ entry.span?.toList := by
  cases h : entry.span? <;> simp [requests, List.filterMap_append, h]

/-! ## Pieces of a table -/

/-- The rows of a table that its `k`-th fetch is for; that for the first rows counts as zero. -/
def piece (table : List Row) (fetch : Int) (k : Nat) : Batch where
  first := k * fetch + 1
  last := min ((k + 1) * fetch) table.length
  rows := slice table (k * fetch + 1) (min ((k + 1) * fetch) table.length)
  failure := none

/-- What is requested for a piece. -/
def pieceSpan (fetch : Int) (k : Nat) : Span :=
  ⟨k * fetch + 1, fetch⟩

theorem contains_piece {fetch n : Int} : (piece table fetch k).contains n = true ↔
    k * fetch < n ∧ n ≤ (k + 1) * fetch ∧ n ≤ table.length := by
  rw [Batch.contains_iff]
  simp only [piece]
  omega

section Answers

variable {results : Results} {fetch : Int}

/-- The whole answer to the fetch for a piece brings the piece. -/
theorem broughtBy_of_fills (h : results.Fills table (k * fetch + 1) fetch)
    (hstart : k * fetch < table.length) (hfetch : 1 ≤ fetch) :
    broughtBy (.ok results) = some (piece table fetch k) := by
  have hspan : (k : Int) * fetch + 1 + fetch - 1 = (k + 1) * fetch := by
    rw [Int.add_mul, Int.one_mul]
    omega
  obtain ⟨hvalid, hplain, hfirst, hlast, hrows, -⟩ := h
  rw [hspan] at hlast hrows
  have hone : 1 ≤ (k : Int) * fetch + 1 := hfirst ▸ Batch.one_le_firstRow hvalid
  have hreach : (k : Int) * fetch + 1 ≤ min ((k + 1) * fetch) table.length := by
    rw [Int.add_mul, Int.one_mul]
    omega
  have hne : results.rows ≠ [] := by
    intro hnil
    have hhead := getElem?_slice table hone (Int.le_refl _) hreach
    rw [← hrows, hnil, List.getElem?_nil, eq_comm, List.getElem?_eq_none_iff] at hhead
    omega
  have hbatch : Batch.ofResults? results =
      some ⟨results.firstRow.toInt, results.lastRow.toInt, results.rows, none⟩ := by
    unfold Batch.ofResults?
    rw [hplain]
    cases hr : results.rows with
    | nil => exact absurd hr hne
    | cons => rfl
  simp only [broughtBy, hvalid]
  rw [hbatch, hfirst, hlast, hrows]
  rfl

theorem finalRowOf_of_fills (h : results.Fills table (k * fetch + 1) fetch) :
    finalRowOf results =
      if (table.length : Int) ≤ (k + 1) * fetch then some (table.length : Int) else none := by
  have hspan : (k : Int) * fetch + 1 + fetch - 1 = (k + 1) * fetch := by
    rw [Int.add_mul, Int.one_mul]
    omega
  have hfinal := h.finalRow
  rw [hspan] at hfinal
  split at hfinal
  · next hreached =>
    rw [if_pos hreached]
    exact finalRowOf_of_toInt hfinal
  · next hreached =>
    rw [if_neg hreached]
    exact if_pos (Int64.toInt.inj hfinal)

end Answers

/-! ## A cursor on its way through the table -/

theorem fetchSize_of_steps (h : ReflTransGen (Step source) d e) :
    e.cursor.fetchSize = d.cursor.fetchSize := by
  rw [fetchSize, options_of_steps h, fetchSize]

theorem fetchSize_of_stills (h : ReflTransGen (Still source) d e) :
    e.cursor.fetchSize = d.cursor.fetchSize :=
  fetchSize_of_steps (steps_of_strides (strides_of_stills h))

/-- An open cursor that moves on and has taken in the pieces of a table up to the `k`-th. -/
structure Scanned (table : List Row) (k : Nat) (c : Cursor H) : Prop where
  opened : c.closed = false
  heading : c.heading = .forward
  one_le_fetchSize : 1 ≤ c.fetchSize
  rows : c.rows.EndsWith (piece table c.fetchSize k)
  finalRow : c.finalRow =
    if (table.length : Int) ≤ (k + 1) * c.fetchSize then some (table.length : Int) else none
  flight : ∀ flight, c.flight = some flight → flight.start = (pieceSpan c.fetchSize (k + 1)).start ∧
    flight.count = c.fetchSize ∧ (k + 1) * c.fetchSize < table.length
  requests : requests c.ledger = (List.range' 1 (k + if c.flight.isSome then 1 else 0)).map
    (pieceSpan c.fetchSize)

namespace Scanned

theorem start_lt (h : Scanned table k c) : k * c.fetchSize < table.length := by
  have hle : k * c.fetchSize + 1 ≤ min ((k + 1) * c.fetchSize) table.length :=
    (h.rows.valid.batch _ h.rows.mem).first_le
  omega

theorem rowAt_eq (h : Scanned table k c) {n : Int}
    (hn : (piece table c.fetchSize k).contains n = true) :
    c.rows.rowAt n = ListCursor.row table (.onRow n) := by
  have hone := (h.rows.valid.batch _ h.rows.mem).one_le
  have hspan := Batch.contains_iff.1 hn
  have hcell := getElem?_slice table hone hspan.1 hspan.2
  rw [h.rows.rowAt hn]
  simp only [Batch.row, hn, if_true, ListCursor.row, ← hcell]
  rfl

/-- Where a cursor stands makes no difference to what it has taken in, and neither do batches that
it drops behind the newest. -/
theorem congr {c' : Cursor H} (h : Scanned table k c) (hopen : c'.closed = c.closed)
    (hheading : c'.heading = c.heading) (hoptions : c'.options = c.options)
    (hrows : c'.rows.EndsWith (piece table c.fetchSize k)) (hfinal : c'.finalRow = c.finalRow)
    (hflight : c'.flight = c.flight) (hledger : c'.ledger = c.ledger) : Scanned table k c' := by
  have hfetch : c'.fetchSize = c.fetchSize := by rw [fetchSize, hoptions, fetchSize]
  constructor
  · rw [hopen, h.opened]
  · rw [hheading, h.heading]
  · rw [hfetch]
    exact h.one_le_fetchSize
  · rwa [hfetch]
  · rw [hfinal, hfetch, h.finalRow]
  · rw [hflight, hfetch]
    exact h.flight
  · rw [hledger, hflight, hfetch, h.requests]

/-- The fetch for the next piece is granted. -/
theorem requested (h : Scanned table k c) (hfree : c.flight = none)
    (hmore : (k + 1) * c.fetchSize < table.length) (purpose : Purpose) (call : H) :
    Scanned table k (c.requested purpose (pieceSpan c.fetchSize (k + 1)) (.ok call)) := by
  refine ⟨h.opened, h.heading, h.one_le_fetchSize, h.rows, h.finalRow, fun flight hflight => ?_, ?_⟩
  · cases hflight
    exact ⟨rfl, rfl, hmore⟩
  · have hsize : (c.requested purpose (pieceSpan c.fetchSize (k + 1)) (.ok call)).fetchSize =
        c.fetchSize := rfl
    have hsome : (c.requested purpose (pieceSpan c.fetchSize (k + 1)) (.ok call)).flight.isSome =
        true := rfl
    rw [requested_ledger, requests_cons, h.requests, hfree, hsize, hsome]
    simp [List.range'_1_concat, Ask.span?, pieceSpan, Nat.add_comm]

/-- The next piece comes in. -/
theorem received (h : Scanned table k c) {flight : Flight H} (hflight : c.flight = some flight)
    {results : Results} (hfills : results.Fills table flight.start flight.count) (call : H) :
    (c.received flight (.ok results) call).1 = .ok true ∧
      Scanned table (k + 1) (c.received flight (.ok results) call).2 := by
  obtain ⟨hstart, hcount, hmore⟩ := h.flight flight hflight
  rw [hstart, hcount] at hfills
  have hstart : ((k + 1 : Nat) : Int) * c.fetchSize < table.length := by
    exact_mod_cast hmore
  have hbrought := broughtBy_of_fills hfills hstart h.one_le_fetchSize
  have hbatch : Batch.ofResults? results = some (piece table c.fetchSize (k + 1)) := by
    simpa only [broughtBy, hfills.valid] using hbrought
  rw [received_of_valid hfills.valid]
  refine ⟨by simp [isNewTo, hbatch], h.opened, h.heading, h.one_le_fetchSize, ?_, ?_, ?_, ?_⟩
  · have hrows : (c.extend results).rows = c.rows.insert (piece table c.fetchSize (k + 1)) := by
      simp only [extend, hbatch]
    show (c.extend results).rows.EndsWith _
    rw [hrows]
    refine .insert h.rows.valid (valid_of_broughtBy hbrought) fun b hb => ?_
    have hlast := h.rows.last_le b hb
    simp only [piece] at hlast ⊢
    push_cast
    omega
  · have hfinal : (c.extend results).finalRow =
        if (finalRowOf results).isSome then finalRowOf results else c.finalRow := rfl
    have hunknown : c.finalRow = none := by rw [h.finalRow, if_neg (by omega)]
    show (c.extend results).finalRow =
      if (table.length : Int) ≤ ((k + 1 : Nat) + 1) * c.fetchSize then _ else _
    rw [hfinal, finalRowOf_of_fills hfills, hunknown]
    split <;> rfl
  · intro later hlater
    cases hlater
  · have hsome := h.requests
    simp only [hflight, Option.isSome_some, if_true] at hsome
    simp only [requests_cons, hsome, Ask.span?, Option.toList_none, List.append_nil]
    rfl

end Scanned

/-! ## No sum leaves its range -/

/-- The distances of batches from a row are those of row numbers. -/
theorem Residency.EndsWith.fits_evictionSums {s : Residency} {b : Batch} (h : s.EndsWith b)
    (hlast : b.last ≤ 2 ^ 62) {row : Int} (hrow : b.contains row = true) (limit : Nat)
    (pinned : Option Int) : ∀ n ∈ s.evictionSums limit row pinned, fits n = true := by
  intro n hn
  unfold Residency.evictionSums at hn
  split at hn
  · cases hn
  · obtain ⟨c, hc, rfl⟩ := List.mem_map.1 hn
    have hmem := (List.mem_filter.1 hc).1
    have hvalid := h.valid.batch c hmem
    have hone := hvalid.one_le
    have hfirst := hvalid.first_le
    have hle := h.last_le c hmem
    have hin := Batch.contains_iff.1 hrow
    have hbone := (h.valid.batch b h.mem).one_le
    unfold Batch.distance
    refine fits_of_abs_le ?_ ?_ <;> split <;> (try split) <;> omega

/-! ## Standing on a row of the newest piece -/

section Standing

variable (hbound : (table.length : Int) + d.cursor.fetchSize < 2 ^ 62)
  (h : Scanned table k d.cursor) {n : Int}
  (hn : (piece table d.cursor.fetchSize k).contains n = true)

include hbound h hn

theorem evict_scanned : Scanned table k (exec (evict n) d).2.cursor ∧
    (exec (evict n) d).2.cursor.options = d.cursor.options ∧
    (exec (evict n) d).2.overflowed = d.overflowed := by
  have hone := h.one_le_fetchSize
  unfold evict
  rw [exec_bind_ok (exec_cursor d)]
  split
  · refine ⟨h.congr rfl rfl rfl ?_ rfl rfl rfl, rfl, rfl⟩
    exact h.rows.of_sublist Residency.sublist_evictBehind
      (Residency.mem_evictBehind h.rows.valid h.rows.mem hn)
  · have hfits := h.rows.fits_evictionSums (by simp only [piece]; omega) hn
      d.cursor.options.savedBatches none
    rw [exec_bind_ok (exec_note ..), noted_eq hfits]
    refine ⟨h.congr rfl rfl rfl ?_ rfl rfl rfl, rfl, rfl⟩
    exact h.rows.of_sublist Residency.sublist_evictKeeping
      (Residency.mem_evictKeeping h.rows.valid h.rows.mem hn)

omit hbound in
/-- What may be fetched ahead of demand is the next piece. -/
theorem spanToPrefetch_scanned : (spanToPrefetch d.cursor n).1 = none ∨
    (spanToPrefetch d.cursor n).1 = some (pieceSpan d.cursor.fetchSize (k + 1)) ∧
      (k + 1) * d.cursor.fetchSize < table.length := by
  simp only [spanToPrefetch, h.heading, h.rows.spanAhead hn, h.finalRow]
  by_cases hreached : (table.length : Int) ≤ (k + 1) * d.cursor.fetchSize
  · have hend : (table.length : Int) ≤ (piece table d.cursor.fetchSize k).last := by
      simp only [piece]
      omega
    simp [hreached, hend]
  · have hend : (piece table d.cursor.fetchSize k).last = (k + 1) * d.cursor.fetchSize := by
      simp only [piece]
      omega
    simp only [hreached, if_false, Option.any_none, Bool.false_eq_true]
    split
    · exact .inl rfl
    · refine .inr ⟨?_, by omega⟩
      rw [hend]
      rfl

theorem fits_spanToPrefetch : ∀ m ∈ (spanToPrefetch d.cursor n).2, fits m = true := by
  have hone := h.one_le_fetchSize
  have hfirst := (h.rows.valid.batch _ h.rows.mem).one_le
  have hspan := Batch.contains_iff.1 hn
  have hlast : (piece table d.cursor.fetchSize k).last ≤ table.length := by
    simp only [piece]
    omega
  intro m hm
  have hsum : m = (piece table d.cursor.fetchSize k).last + 1 ∨
      m = (piece table d.cursor.fetchSize k).last - n := by
    simp only [spanToPrefetch, h.heading, h.rows.spanAhead hn] at hm
    split at hm
    · exact .inl (List.mem_singleton.1 hm)
    · split at hm <;> simp only [List.mem_cons, List.not_mem_nil, or_false] at hm <;> omega
  refine fits_of_abs_le ?_ ?_ <;> omega

theorem prefetch_scanned (hexec : (exec (prefetch source n) d).2 = e)
    (hfills : Fills table e.cursor.ledger) :
    Scanned table k e.cursor ∧ e.overflowed = d.overflowed := by
  have hone := h.one_le_fetchSize
  unfold prefetch at hexec
  rw [exec_bind_ok (exec_cursor d)] at hexec
  split at hexec
  · next hfree =>
    rw [exec_bind_ok (exec_note ..), noted_eq (fits_spanToPrefetch hbound h hn)] at hexec
    rcases spanToPrefetch_scanned h hn with hnone | ⟨hsome, hmore⟩
    · simp only [hnone] at hexec
      cases hexec
      exact ⟨h, rfl⟩
    · have hpos : 0 < (pieceSpan d.cursor.fetchSize (k + 1)).count := hone
      simp only [hsome, hpos, if_true, exec_tryIssue, exec_issue] at hexec
      cases hexec
      obtain ⟨call, hcall⟩ := hfills.granted _ _ _ _ _ (by
        rw [requested_ledger]
        exact List.mem_cons_self)
      rw [hcall]
      exact ⟨h.requested (Option.isNone_iff_eq_none.1 hfree) hmore .ahead call, rfl⟩
  · cases hexec
    exact ⟨h, rfl⟩

theorem standOn_scanned (hexec : (exec (standOn source n) d).2 = e)
    (hfills : Fills table e.cursor.ledger) :
    Scanned table k e.cursor ∧ e.cursor.position = .onRow n ∧ e.overflowed = d.overflowed := by
  have hplaced : Scanned table k (d.place (.onRow n)).cursor :=
    h.congr rfl rfl rfl h.rows rfl rfl rfl
  have hstills : ReflTransGen (Still source) _ _ :=
    standOn_stills h.rows.valid (h.rows.contains hn)
  have hpos := position_of_stills hstills
  obtain ⟨hseated, hoptions, hrange⟩ := evict_scanned (d := d.place (.onRow n)) hbound hplaced hn
  change Scanned table k (seated n d).cursor at hseated
  change (seated n d).cursor.options = d.cursor.options at hoptions
  change (seated n d).overflowed = d.overflowed at hrange
  have hfetch : (seated n d).cursor.fetchSize = d.cursor.fetchSize := by
    rw [fetchSize, hoptions, fetchSize]
  rw [hexec] at hpos
  rw [exec_standOn_eq] at hexec
  split at hexec
  · rw [← hfetch] at hbound hn
    obtain ⟨hahead, hsame⟩ := prefetch_scanned hbound hseated hn hexec hfills
    exact ⟨hahead, hpos, hsame.trans hrange⟩
  · cases hexec
    exact ⟨hseated, hpos, hrange⟩

end Standing

/-! ## Fetching the next piece -/

section Fetching

variable (hbound : (table.length : Int) + d.cursor.fetchSize < 2 ^ 62)
  (h : Scanned table k d.cursor) (hmore : (k + 1) * d.cursor.fetchSize < table.length)

include hbound h hmore

/-- What is fetched on demand is the next piece. -/
theorem spanFor_scanned : (spanFor ((k + 1) * d.cursor.fetchSize + 1) .forward d.cursor).1 =
      pieceSpan d.cursor.fetchSize (k + 1) ∧
    ∀ m ∈ (spanFor ((k + 1) * d.cursor.fetchSize + 1) .forward d.cursor).2, fits m = true := by
  have hone := h.one_le_fetchSize
  have hfirst := (h.rows.valid.batch _ h.rows.mem).one_le
  have hle := (h.rows.valid.batch _ h.rows.mem).first_le
  have hend : (piece table d.cursor.fetchSize k).last = (k + 1) * d.cursor.fetchSize := by
    simp only [piece]
    omega
  have hspan := h.rows.demandSpan hone
  rw [hend] at hspan
  unfold spanFor
  rw [hspan]
  refine ⟨rfl, fun m hm => ?_⟩
  simp only [List.mem_cons, List.not_mem_nil, or_false] at hm
  refine fits_of_abs_le ?_ ?_ <;> omega

theorem fetchFor_scanned {r : Except Stop Unit}
    (hexec : exec (fetchFor source (.row ((k + 1) * d.cursor.fetchSize + 1) .forward) false) d =
      (r, e)) (hfills : Fills table e.cursor.ledger) :
    r = .ok () ∧ Scanned table k e.cursor ∧ e.cursor.flight.isSome ∧
      e.overflowed = d.overflowed := by
  obtain ⟨hspan, hfits⟩ := spanFor_scanned hbound h hmore
  cases hflight : d.cursor.flight with
  | some flight =>
    rw [exec_fetchFor_of_some source hflight] at hexec
    cases hexec
    exact ⟨rfl, h, by rw [hflight]; rfl, rfl⟩
  | none =>
    rw [exec_fetchFor_of_none source hflight] at hexec
    simp only [Quest.row] at hexec
    rw [noted_eq hfits, exec_issue, hspan] at hexec
    cases hexec
    obtain ⟨call, hcall⟩ := hfills.granted _ _ _ _ _ (by
      rw [requested_ledger]
      exact List.mem_cons_self)
    rw [hcall]
    exact ⟨rfl, h.requested hflight hmore _ call, rfl, rfl⟩

end Fetching

theorem await_scanned (h : Scanned table k d.cursor) (hflight : d.cursor.flight.isSome)
    {r : Except Stop Bool} (hexec : exec (await source) d = (r, e))
    (hfills : Fills table e.cursor.ledger) :
    r = .ok true ∧ Scanned table (k + 1) e.cursor ∧ e.overflowed = d.overflowed := by
  obtain ⟨flight, hflight⟩ := Option.isSome_iff_exists.1 hflight
  obtain ⟨hstart, -, hmore⟩ := h.flight flight hflight
  have hwithin : flight.start ≤ table.length := by
    rw [hstart]
    simp only [pieceSpan]
    push_cast
    omega
  rcases hwait : source.wait d.cursor.options.timeout flight.call d.source with ⟨outcome, call, t⟩
  rw [exec_await_of_some hflight hwait] at hexec
  cases hexec
  obtain ⟨results, rfl, hresults⟩ := hfills.filled flight outcome call (by
    rw [received_ledger]
    exact List.mem_cons_self) hwithin
  obtain ⟨hprogress, hnext⟩ := h.received hflight hresults call
  exact ⟨by rw [hprogress]; rfl, hnext, rfl⟩

/-! ## Moving on -/

/-- A row of the newest piece is found. -/
theorem Scanned.findRow_eq (h : Scanned table k c) {n : Int}
    (hn : (piece table c.fetchSize k).contains n = true) : findRow n c = some (.ok true) := by
  have hone := Residency.one_le_of_contains h.rows.valid (h.rows.contains hn)
  obtain ⟨cells, hcells⟩ := Mirrors.isOk_row hone (contains_piece.1 hn).2.2
  rw [findRow, if_pos (h.rows.contains hn), h.rowAt_eq hn, hcells]
  rfl

/-- Behind the newest piece there is nothing to find while the table goes on. -/
theorem Scanned.findRow_next (h : Scanned table k c)
    (hmore : (k + 1) * c.fetchSize < table.length) :
    findRow ((k + 1) * c.fetchSize + 1) c = none := by
  have hmissing : c.rows.contains ((k + 1) * c.fetchSize + 1) = false := by
    refine h.rows.contains_eq_false ?_
    simp only [piece]
    omega
  have hunknown : c.finalRow = none := by rw [h.finalRow, if_neg (by omega)]
  simp [findRow, hmissing, hunknown]

/-- Behind the last piece there is no row. -/
theorem Scanned.findRow_end (h : Scanned table k c)
    (hend : (table.length : Int) ≤ (k + 1) * c.fetchSize) :
    findRow (table.length + 1) c = some (.ok false) := by
  have hmissing : c.rows.contains (table.length + 1) = false := by
    refine h.rows.contains_eq_false ?_
    simp only [piece]
    omega
  have hpast : (table.length : Int) < table.length + 1 := Int.lt_succ _
  simp only [findRow, hmissing, h.finalRow, if_pos hend, Option.any_some, decide_eq_true hpast,
    Bool.false_eq_true, if_false, if_true]

/-- A search for a row of the newest piece has it, and one for the first row of the next piece
fetches that. -/
theorem seek_scanned (hbound : (table.length : Int) + d.cursor.fetchSize < 2 ^ 62)
    (h : Scanned table k d.cursor) {n : Int} (hfirst : k * d.cursor.fetchSize < n)
    (hlast : n ≤ (k + 1) * d.cursor.fetchSize + 1) (hn : n ≤ table.length) {rounds : Nat}
    {r : Except Stop Bool}
    (hexec : exec (seek source (.row n .forward) (pure ()) (rounds + 2) false) d = (r, e))
    (hfills : Fills table e.cursor.ledger) :
    r = .ok true ∧ e.overflowed = d.overflowed ∧ ∃ k', Scanned table k' e.cursor ∧
      (piece table e.cursor.fetchSize k').contains n = true := by
  have hone := h.one_le_fetchSize
  by_cases hpiece : n ≤ (k + 1) * d.cursor.fetchSize
  · have hin := contains_piece.2 ⟨hfirst, hpiece, hn⟩
    have hfind : (Quest.row n .forward).find d.cursor = some (.ok true) := h.findRow_eq hin
    rw [exec_seek_of_find hfind] at hexec
    cases hexec
    exact ⟨rfl, rfl, k, h, hin⟩
  · obtain rfl : n = (k + 1) * d.cursor.fetchSize + 1 := by omega
    have hmore : (k + 1) * d.cursor.fetchSize < table.length := by omega
    have hfind : (Quest.row ((k + 1) * d.cursor.fetchSize + 1) .forward).find d.cursor = none :=
      h.findRow_next hmore
    have hpos : 1 ≤ k * d.cursor.fetchSize + 1 := (h.rows.valid.batch _ h.rows.mem).one_le
    have hlawful : (Quest.row ((k + 1) * d.cursor.fetchSize + 1) .forward : Quest H Bool).Lawful :=
      Quest.row_lawful (by omega) .forward
    cases round_of_seek hlawful (fun _ => .pure ()) (fun _ => rfl) hfind hexec with
    | unfetched hfetched => cases (fetchFor_scanned hbound h hmore hfetched hfills).1
    | unheard hfetched hawaited hbefore =>
      obtain ⟨-, h₁, hflight, -⟩ :=
        fetchFor_scanned hbound h hmore hfetched (hfills.of_suffix hbefore)
      cases (await_scanned h₁ hflight hawaited hfills).1
    | @heard progressed _ d₁ d₂ _ hfetched hawaited hrest hbefore hafter =>
    obtain ⟨-, h₁, hflight, hrange₁⟩ :=
      fetchFor_scanned hbound h hmore hfetched (hfills.of_suffix hbefore)
    obtain ⟨-, h₂, hrange₂⟩ := await_scanned h₁ hflight hawaited (hfills.of_suffix hafter)
    have hquiet : Quiet source (fetchFor source _ false) d := .fetchFor hlawful hfind false
    have hstills := (hquiet.stills hfetched).trans (Quiet.await.stills hawaited)
    have hsize := fetchSize_of_stills hstills
    have hnext : ((k : Int) + 1 + 1) * d.cursor.fetchSize =
        (k + 1) * d.cursor.fetchSize + d.cursor.fetchSize := by
      rw [Int.add_mul _ 1, Int.one_mul]
    have hin : (piece table d₂.cursor.fetchSize (k + 1)).contains
        ((k + 1) * d.cursor.fetchSize + 1) = true := by
      rw [hsize, contains_piece]
      push_cast
      omega
    have hfind : (Quest.row ((k + 1) * d.cursor.fetchSize + 1) .forward).find d₂.cursor =
        some (.ok true) := h₂.findRow_eq hin
    rw [exec_pure, exec_seek_of_find hfind] at hrest
    cases hrest
    exact ⟨rfl, hrange₂.trans hrange₁, k + 1, h₂, hin⟩

/-! ## One move on -/

/-- Where a scan stands that has shown so many rows. -/
def scanPosition : Nat → Position
  | 0 => .beforeFirst
  | n + 1 => .onRow (n + 1 : Nat)

/-- A cursor that has shown so many rows of a table and taken in no more than it had to. -/
structure Shown (table : List Row) (shown : Nat) (c : Cursor H) : Prop where
  sound : Sound c
  position : c.position = scanPosition shown
  bound : (table.length : Int) + c.fetchSize < 2 ^ 62
  scanned : ∃ k : Nat, Scanned table k c ∧ k * c.fetchSize ≤ shown ∧
    shown ≤ (k + 1) * c.fetchSize

section Moving

variable {shown rounds : Nat} {r : Except Stop Bool}

theorem exec_next_of_shown (h : Shown table shown d.cursor) (hle : shown ≤ table.length) :
    exec (next source rounds) d = exec (moveTo source rounds (shown + 1) .forward) d := by
  obtain ⟨k, hscanned, -⟩ := h.scanned
  unfold next
  rw [exec_bind_ok (exec_cursor d), exec_bind_ok (exec_ensureOpen_of_opened hscanned.opened),
    h.position]
  cases shown with
  | zero => rfl
  | succ n =>
    have hone := hscanned.one_le_fetchSize
    have hbound := h.bound
    have hfits : ∀ m ∈ [((n + 1 : Nat) : Int) + 1], fits m = true := by
      intro m hm
      rw [List.mem_singleton.1 hm]
      exact fits_of_abs_le (by omega) (by omega)
    simp only [scanPosition]
    rw [exec_bind_ok (exec_sum ..), noted_eq hfits]

/-- The next row lies ahead, so that a move to it is a search. -/
theorem exec_moveTo_of_shown (h : Shown table shown d.cursor) :
    exec (moveTo source rounds (shown + 1) .forward) d =
      match exec (seek source (.row (shown + 1) .forward) (pure ()) rounds false) d with
      | (.error stop, e) => (.error stop, e)
      | (.ok true, e) => (.ok true, (exec (standOn source (shown + 1)) e).2)
      | (.ok false, e) => (.ok false, e.place .afterLast) := by
  obtain ⟨k, hscanned, -⟩ := h.scanned
  have hfrontier : frontier d.cursor.position = shown := by
    rw [h.position]
    cases shown <;> rfl
  have hreach : isOutOfReach d.cursor (shown + 1) = false := by
    have hahead : ¬ (shown : Int) + 1 < shown := by omega
    simp [isOutOfReach, hfrontier, hahead]
  have hturn : d.turn .forward = d := by
    rw [Desk.turn, ← hscanned.heading]
  have hone : ¬ (shown : Int) + 1 < 1 := by omega
  have hmove := exec_moveTo source rounds (shown + 1) .forward d
  rw [hreach, if_neg Bool.false_ne_true, if_neg hone, hturn] at hmove
  exact hmove

/-- Once a row is found, standing on it asks for more but takes back nothing. -/
theorem ledger_of_moveTo (hs : Sound d.cursor) {n : Int} (hn : 1 ≤ n) {found : Except Stop Bool}
    {e₁ : Desk σ H}
    (hseek : exec (seek source (.row n .forward) (pure ()) rounds false) d = (found, e₁))
    (hexec : (match (found, e₁) with
      | (.error stop, e) => (.error stop, e)
      | (.ok true, e) => (.ok true, (exec (standOn source n) e).2)
      | (.ok false, e) => (.ok false, e.place .afterLast)) = (r, e)) :
    e₁.cursor.ledger <:+ e.cursor.ledger := by
  rcases found with stop | _ | _
  · cases hexec
    exact List.suffix_rfl
  · cases hexec
    exact List.suffix_rfl
  · cases hexec
    obtain ⟨cells, hrow⟩ := of_findRow_true (find_of_exec_seek hseek)
    have hvalid := (hs.of_stills ((Quiet.seekRow hn ..).stills hseek)).rows
    have hstand : ReflTransGen (Still source) _ _ :=
      standOn_stills hvalid (contains_of_rowAt hrow)
    exact ledger_of_stills (d := e₁.place (.onRow n)) hstand

/-- A move on from a row that is not the last one shows the next row. -/
theorem next_shown (h : Shown table shown d.cursor) (hmore : shown < table.length)
    (hexec : exec (next source (rounds + 2)) d = (r, e)) (hfills : Fills table e.cursor.ledger) :
    r = .ok true ∧ Shown table (shown + 1) e.cursor ∧
      e.cursor.row = ListCursor.row table (.onRow (shown + 1)) ∧ e.overflowed = d.overflowed := by
  obtain ⟨k, hscanned, hlow, hhigh⟩ := h.scanned
  have horderly : Orderly source (next source (rounds + 2)) d := .next h.sound _
  have hsteps : ReflTransGen (Step source) d e := by
    simpa only [hexec] using steps_of_strides horderly.strides
  rw [exec_next_of_shown h (by omega), exec_moveTo_of_shown h] at hexec
  rcases hseek : exec (seek source (.row (shown + 1) .forward) (pure ()) (rounds + 2) false) d
    with ⟨found, e₁⟩
  rw [hseek] at hexec
  have hledger := ledger_of_moveTo h.sound (by omega) hseek hexec
  obtain ⟨rfl, hrange, k', hscanned', hin⟩ := seek_scanned h.bound hscanned (by omega) (by omega)
    (by omega) hseek (hfills.of_suffix hledger)
  obtain ⟨rfl, he⟩ := Prod.mk.inj hexec
  have hsize := fetchSize_of_steps hsteps
  have hsize₁ := fetchSize_of_stills ((Quiet.seekRow (by omega) ..).stills hseek)
  obtain ⟨hlast, hpos, hsame⟩ := standOn_scanned (hsize₁ ▸ h.bound) hscanned' hin he hfills
  have hspan := contains_piece.1 hin
  rw [hsize₁, ← hsize] at hspan
  refine ⟨rfl, ⟨h.sound.of_steps hsteps, hpos, hsize ▸ h.bound, k', hlast, ?_, ?_⟩, ?_,
    hsame.trans hrange⟩
  · push_cast
    omega
  · push_cast
    omega
  · rw [hsize₁, ← hsize] at hin
    simp only [row, ensureOpen, hlast.opened, hpos]
    exact hlast.rowAt_eq hin

/-- A move on from the last row ends the scan, and asks for nothing. -/
theorem next_end (h : Shown table table.length d.cursor)
    (hexec : exec (next source (rounds + 2)) d = (r, e)) :
    r = .ok false ∧ e = d.place .afterLast := by
  obtain ⟨k, hscanned, -, hhigh⟩ := h.scanned
  have hfind : (Quest.row (table.length + 1) .forward).find d.cursor = some (.ok false) :=
    hscanned.findRow_end hhigh
  have hseek : exec (seek source (.row (table.length + 1) .forward) (pure ()) (rounds + 2) false)
      d = (.ok false, d) := exec_seek_of_find hfind
  rw [exec_next_of_shown h (Nat.le_refl _), exec_moveTo_of_shown h, hseek] at hexec
  cases hexec
  exact ⟨rfl, rfl⟩

end Moving

/-! ## The whole scan -/

/-- What is asked for while the whole table is taken in. -/
theorem Scanned.requests_of_end (h : Scanned table k c)
    (hend : (table.length : Int) ≤ (k + 1) * c.fetchSize) {fetch : Nat}
    (hfetch : c.fetchSize = fetch) :
    Cursor.requests c.ledger =
      (List.Ico 1 ((table.length + fetch - 1) / fetch)).map (pieceSpan fetch) := by
  have hstart := h.start_lt
  rw [hfetch] at hstart hend
  have hnone : c.flight = none := by
    cases hflight : c.flight with
    | none => rfl
    | some flight =>
      have hmore := (h.flight flight hflight).2.2
      rw [hfetch] at hmore
      omega
  have hceil : (table.length + fetch - 1) / fetch = k + 1 := by
    have hlow : k * fetch < table.length := by exact_mod_cast hstart
    have hhigh : table.length ≤ (k + 1) * fetch := by exact_mod_cast hend
    have hnext : (k + 1 + 1) * fetch = (k + 1) * fetch + fetch := Nat.succ_mul ..
    have hsame : (k + 1) * fetch = k * fetch + fetch := Nat.succ_mul ..
    exact Nat.div_eq_of_lt_le (by omega) (by omega)
  rw [h.requests, hnone, hceil, hfetch]
  rfl

theorem Shown.of_start {options : Options} {first : Results} (hrows : table ≠ [])
    (hbound : table.length + options.fetchSize.toNat < 2 ^ 62)
    (hfirst : first.Fills table 1 options.fetchSize.toNat)
    (hstart : Cursor.start options first = .ok c) : Shown table 0 c := by
  have hsound : Sound c := .of_start hstart
  obtain ⟨-, -, rfl⟩ := Cursor.of_start hstart
  have hsize : ((blank options : Cursor H).extend first).fetchSize = options.fetchSize.toNat := rfl
  have hone := hsound.one_le_fetchSize
  have hlength := List.length_pos_iff.2 hrows
  rw [hsize] at hone
  have hpiece : first.Fills table ((0 : Nat) * options.fetchSize.toNat + 1)
      options.fetchSize.toNat := by simpa using hfirst
  have hbrought := broughtBy_of_fills hpiece (by simpa using hlength) hone
  have hbatch : Batch.ofResults? first = some (piece table options.fetchSize.toNat 0) := by
    simpa only [broughtBy, hfirst.valid] using hbrought
  refine ⟨hsound, rfl, ?_, 0, ?_, by simp, ?_⟩
  · rw [hsize]
    exact_mod_cast hbound
  · refine ⟨rfl, rfl, by rwa [hsize], ?_, ?_, fun flight hflight => (by cases hflight), rfl⟩
    · have hinsert : ((blank options : Cursor H).extend first).rows =
          Residency.empty.insert (piece table options.fetchSize.toNat 0) := by
        simp only [extend, hbatch]
        rfl
      rw [hsize, hinsert]
      exact .insert .empty (valid_of_broughtBy hbrought) fun b hb => by cases hb
    · have hfinal : ((blank options : Cursor H).extend first).finalRow = finalRowOf first := by
        simp only [extend, blank]
        cases finalRowOf first <;> rfl
      rw [hfinal, finalRowOf_of_fills hpiece, hsize]
  · rw [hsize]
    omega

/-- So many moves on, and one more, each with the rounds it may go. -/
def scan (rounds count : Nat) : List (Nat × Call) :=
  List.replicate (count + 1) (rounds, .move .next)

/-- What one sees of a scan that has shown so many rows, when these rows are left. -/
def showing (shown : Nat) (rows : List Row) : List Glimpse :=
  rows.mapIdx (fun i cells => ⟨.ok (some true), .onRow (shown + i + 1 : Nat), .ok cells⟩) ++
    [⟨.ok (some false), .afterLast, .error .noCurrentRow⟩]

theorem showing_cons (shown : Nat) (cells : Row) (rows : List Row) :
    showing shown (cells :: rows) =
      ⟨.ok (some true), .onRow (shown + 1 : Nat), .ok cells⟩ :: showing (shown + 1) rows := by
  have hshift (i : Nat) : shown + (i + 1) + 1 = shown + 1 + i + 1 := by omega
  simp only [showing, List.mapIdx_cons, hshift, Nat.add_zero, List.cons_append]

theorem scan_succ (rounds count : Nat) :
    scan rounds (count + 1) = (rounds, .move .next) :: scan rounds count := rfl

theorem exec_call_next {rounds : Nat} {r : Except Stop Bool}
    (h : exec (next source rounds) d = (r, e)) :
    exec ((Call.move .next).perform source rounds) d = (r.map some, e) := by
  rw [Call.perform, exec_map, Move.perform, h]

theorem scan_of_shown {shown rounds fetch : Nat} {rows : List Row}
    (h : Shown table shown d.cursor) (hfetch : d.cursor.fetchSize = fetch)
    (hrows : table.drop shown = rows) (hle : shown ≤ table.length)
    (hlast : afterCalls source (scan (rounds + 2) rows.length) d = e)
    (hfills : Fills table e.cursor.ledger) :
    transcript source (scan (rounds + 2) rows.length) d = showing shown rows ∧
      requests e.cursor.ledger =
        (List.Ico 1 ((table.length + fetch - 1) / fetch)).map (pieceSpan fetch) ∧
      e.overflowed = d.overflowed := by
  induction rows generalizing shown d with
  | nil =>
    obtain rfl : shown = table.length := Nat.le_antisymm hle (List.drop_eq_nil_iff.1 hrows)
    obtain ⟨k, hscanned, -, hhigh⟩ := h.scanned
    rcases hnext : exec (next source (rounds + 2)) d with ⟨r, e₁⟩
    have hcall := exec_call_next hnext
    obtain ⟨rfl, rfl⟩ := next_end h hnext
    simp only [scan, List.length_nil, Nat.zero_add, List.replicate_one, afterCalls, hcall] at hlast
    subst hlast
    refine ⟨?_, hscanned.requests_of_end hhigh hfetch, rfl⟩
    simp only [scan, List.length_nil, Nat.zero_add, List.replicate_one, transcript, hcall]
    simp [showing, row, ensureOpen, Desk.place, hscanned.opened]
    rfl
  | cons cells rows ih =>
    have hmore : shown < table.length := by
      by_contra hend
      rw [List.drop_eq_nil_of_le (by omega)] at hrows
      cases hrows
    rw [List.drop_eq_getElem_cons hmore] at hrows
    obtain ⟨hcells, hrest⟩ := List.cons.inj hrows
    rcases hnext : exec (next source (rounds + 2)) d with ⟨r, e₁⟩
    have hcall := exec_call_next hnext
    rw [List.length_cons, scan_succ, afterCalls, hcall] at hlast
    have horderly : Orderly source (next source (rounds + 2)) d := .next h.sound _
    have hsteps : ReflTransGen (Step source) d e₁ := by
      simpa only [hnext] using steps_of_strides horderly.strides
    have hledger := ledger_of_afterCalls source (scan (rounds + 2) rows.length)
      (h.sound.of_steps hsteps)
    rw [hlast] at hledger
    obtain ⟨rfl, h₁, hrow, hrange⟩ := next_shown h hmore hnext (hfills.of_suffix hledger)
    have hsize := (fetchSize_of_steps hsteps).trans hfetch
    obtain ⟨hseen, hrequests, hkept⟩ := ih h₁ hsize hrest hmore hlast
    refine ⟨?_, hrequests, hkept.trans hrange⟩
    have hcell : e₁.cursor.row = .ok cells := by
      rw [hrow, ← hcells]
      simp [ListCursor.row, hmore]
    rw [List.length_cons, scan_succ, transcript, hcall, showing_cons]
    simp only [hseen, hcell, h₁.position]
    rfl

/-- **A forward scan fetches every row once.** Over a source that fills every fetch from a table,
a new cursor that is moved on row by row shows the rows of the table in order, each with its
contents, and then the end; whether it keeps batches and whether it fetches ahead makes no
difference. It asks for the pieces behind the first one, each once and in order. -/
theorem scan_fetches_once (source : BatchSource σ H) {options : Options} {first : Results}
    (hfetch : options.fetchSize ≠ 0) (hrows : table ≠ [])
    (hbound : table.length + options.fetchSize.toNat < 2 ^ 62)
    (hfirst : first.Fills table 1 options.fetchSize.toNat) :
    ∃ c : Cursor H, Cursor.start options first = .ok c ∧ ∀ (s : σ) (rounds : Nat), 2 ≤ rounds →
      let calls := scan rounds table.length
      let last := afterCalls source calls ⟨c, s, false⟩
      Fills table last.cursor.ledger →
        transcript source calls ⟨c, s, false⟩ = showing 0 table ∧
        requests last.cursor.ledger = (List.Ico 1
          ((table.length + options.fetchSize.toNat - 1) / options.fetchSize.toNat)).map
            (pieceSpan options.fetchSize.toNat) ∧
        last.overflowed = false := by
  have hstart : Cursor.start options first = .ok ((blank options : Cursor H).extend first) := by
    simp only [Cursor.start, hfetch, if_false, absorb, hfirst.valid]
    rfl
  refine ⟨_, hstart, fun s rounds hrounds => ?_⟩
  obtain ⟨rounds, rfl⟩ := Nat.exists_eq_add_of_le' hrounds
  have hshown : Shown table 0 ((blank options : Cursor H).extend first) :=
    .of_start hrows hbound hfirst hstart
  exact scan_of_shown (d := ⟨_, s, false⟩) hshown rfl rfl (Nat.zero_le _) rfl

/-- Five rows are scanned in pairs: the first pair is there, and two fetches bring the others. -/
theorem scan_fetches_once_prompt : ∃ c : Cursor (List (Except Fault Results)),
    Cursor.start .inPairs (Engine.tableBatch 5 1 2) = .ok c ∧
    let calls := scan 2 5
    let last := afterCalls Script.source calls ⟨c, .prompt, false⟩
    transcript Script.source calls ⟨c, .prompt, false⟩ = showing 0 (Engine.numberedRows 1 5) ∧
      requests last.cursor.ledger = [⟨3, 2⟩, ⟨5, 2⟩] ∧ last.overflowed = false := by
  have hfirst : (Engine.tableBatch 5 1 2).Fills (Engine.numberedRows 1 5) 1 2 :=
    ⟨rfl, rfl, rfl, rfl, rfl, rfl⟩
  have hfetch : Options.inPairs.fetchSize ≠ 0 := by decide
  have hrows : Engine.numberedRows 1 5 ≠ [] := by decide
  obtain ⟨c, hstart, hall⟩ :=
    scan_fetches_once Script.source hfetch hrows (by decide) hfirst
  refine ⟨c, hstart, hall .prompt 2 (Nat.le_refl 2) ?_⟩
  have hnew : Cursor.start .inPairs (Engine.tableBatch 5 1 2) =
      .ok ((blank .inPairs : Cursor (List (Except Fault Results))).extend
        (Engine.tableBatch 5 1 2)) := rfl
  rw [hnew] at hstart
  obtain rfl := Except.ok.inj hstart
  constructor
  · intro purpose start count atHand outcome hmem
    rcases List.mem_cons.1 hmem with heq | hmem
    · cases heq
    rcases List.mem_cons.1 hmem with heq | hmem
    · cases heq
      exact ⟨_, rfl⟩
    rcases List.mem_cons.1 hmem with heq | hmem
    · cases heq
    rcases List.mem_cons.1 hmem with heq | hmem
    · cases heq
      exact ⟨_, rfl⟩
    · cases hmem
  · intro flight outcome call hmem hwithin
    rcases List.mem_cons.1 hmem with heq | hmem
    · cases heq
      exact ⟨_, rfl, rfl, rfl, rfl, rfl, rfl, rfl⟩
    rcases List.mem_cons.1 hmem with heq | hmem
    · cases heq
    rcases List.mem_cons.1 hmem with heq | hmem
    · cases heq
      exact ⟨_, rfl, rfl, rfl, rfl, rfl, rfl, rfl⟩
    rcases List.mem_cons.1 hmem with heq | hmem
    · cases heq
    · cases hmem

end Cursor

end QueryClient
