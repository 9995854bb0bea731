import Mathlib.Algebra.Group.Int.Defs
import QueryClient.Cursor.Navigation
import QueryClient.Proofs.Cursor.Residency

/-!
# Spans ask for missing rows

Whatever the reason for a fetch, its span starts at row one or later, is at most one fetch long, and
has no row that is at hand (`Span.Proper`). Demands, the search for the final row and the two ways
of fetching ahead work their spans out differently, so there is one statement for each.
-/

namespace QueryClient.Cursor

variable {s : Residency} {fetch target row : Int}

theorem fits_of_abs_le {n : Int} (hlow : -2 ^ 62 ≤ n) (hhigh : n ≤ 2 ^ 62) : fits n = true := by
  unfold fits
  rw [Bool.and_eq_true, decide_eq_true_eq, decide_eq_true_eq]
  omega

theorem clamp_eq_of_fits {n : Int} (h : fits n = true) : clamp n = n := by
  unfold fits at h
  rw [Bool.and_eq_true, decide_eq_true_eq, decide_eq_true_eq] at h
  unfold clamp
  omega

/-- A span that may be fetched: at most `fetch` rows, none of them at hand. -/
structure Span.Proper (s : Residency) (fetch : Int) (span : Span) : Prop where
  one_le_start : 1 ≤ span.start
  one_le_count : 1 ≤ span.count
  count_le : span.count ≤ fetch
  missing : ∀ row, span.start ≤ row → row ≤ span.last → s.contains row = false

/-- A span is proper when every batch that starts before its end ends before its start. -/
theorem Span.Proper.of_neighbours (h : s.Valid) {span : Span} (hstart : 1 ≤ span.start)
    (hcount : 1 ≤ span.count) (hle : span.count ≤ fetch)
    (hleft : ∀ b ∈ s.batches, b.first < span.start + span.count → b.last < span.start) :
    span.Proper s fetch := by
  refine ⟨hstart, hcount, hle, fun row hlow hhigh => ?_⟩
  unfold Span.last at hhigh
  refine (Residency.contains_eq_false_iff h).2 fun b hb => ?_
  rw [← Bool.not_eq_true, Batch.contains_iff]
  intro hrow
  have := hleft b hb (by omega)
  omega

namespace Residency

/-! ## Fetching on demand -/

/-- A demand starts at its row or before, within a fetch of it, and behind all that ends before it.
-/
theorem demandStart_bounds (h : s.Valid) (hfetch : 1 ≤ fetch) (htarget : 1 ≤ target)
    (heading : Heading) :
    1 ≤ (s.demandStart fetch target heading).1 ∧
    (s.demandStart fetch target heading).1 ≤ target ∧
    target < (s.demandStart fetch target heading).1 + fetch ∧
    ∀ b ∈ s.batches, b.last < target → b.last < (s.demandStart fetch target heading).1 := by
  -- where the demand starts without regard to what is at hand
  obtain ⟨anchor, hstart, hbounds⟩ : ∃ anchor,
      (s.demandStart fetch target heading).1 =
        (s.prevEndBefore target).elim anchor (fun last => max anchor (last + 1)) ∧
      1 ≤ anchor ∧ anchor ≤ target ∧ target < anchor + fetch := by
    cases heading with
    | forward =>
      refine ⟨target, ?_, by omega⟩
      cases hprev : s.prevEndBefore target <;> simp only [demandStart, hprev, Option.elim]
    | backward =>
      refine ⟨max (target - fetch + 1) 1, ?_, by omega⟩
      cases hprev : s.prevEndBefore target <;> simp only [demandStart, hprev, Option.elim]
  rw [hstart]
  cases hprev : s.prevEndBefore target with
  | some prev =>
    obtain ⟨c, hc, rfl, hlt⟩ := of_prevEndBefore hprev
    have hone := (h.batch c hc).one_le
    have hle := (h.batch c hc).first_le
    simp only [Option.elim]
    refine ⟨by omega, by omega, by omega, fun b hb hblt => ?_⟩
    have := le_of_prevEndBefore h hprev hb hblt
    omega
  | none =>
    refine ⟨hbounds.1, hbounds.2.1, hbounds.2.2, fun b hb hblt => ?_⟩
    have := le_of_prevEndBefore_eq_none h hprev hb
    omega

/-- A demand stops short of the next batch, and of a whole fetch at the latest. -/
theorem demandCount_bounds (h : s.Valid) (hfetch : 1 ≤ fetch) (start : Int) :
    1 ≤ (s.demandCount fetch start).1 ∧ (s.demandCount fetch start).1 ≤ fetch ∧
    (∀ b ∈ s.batches, start < b.first → start + (s.demandCount fetch start).1 ≤ b.first) ∧
    ∀ row, row < start + fetch → (∀ b ∈ s.batches, start < b.first → row < b.first) →
      row < start + (s.demandCount fetch start).1 := by
  unfold demandCount
  split
  · next next hnext =>
    obtain ⟨c, hc, rfl, hlt⟩ := of_nextStartAfter hnext
    refine ⟨by simp only; omega, by simp only; omega, fun b hb hblt => ?_, fun row hrow hall => ?_⟩
    · have := le_of_nextStartAfter h hnext hb hblt
      simp only
      omega
    · have := hall c hc hlt
      simp only
      omega
  · next hnext =>
    refine ⟨by simp only; omega, by simp only; omega, fun b hb hblt => ?_, fun row hrow _ => ?_⟩
    · have := le_of_nextStartAfter_eq_none h hnext hb
      omega
    · simp only
      omega

theorem demandSpan_fst (heading : Heading) : (s.demandSpan fetch target heading).1 =
    ⟨(s.demandStart fetch target heading).1,
      (s.demandCount fetch (s.demandStart fetch target heading).1).1⟩ := rfl

/-- **A demand** for a missing row asks for it, and for nothing that is at hand. -/
theorem demandSpan_proper (h : s.Valid) (hfetch : 1 ≤ fetch) (htarget : 1 ≤ target)
    (hmissing : s.contains target = false) (heading : Heading) :
    (s.demandSpan fetch target heading).1.Proper s fetch ∧
    (s.demandSpan fetch target heading).1.start ≤ target ∧
    target ≤ (s.demandSpan fetch target heading).1.last := by
  obtain ⟨hone, hle, hreach, hbehind⟩ :=
    demandStart_bounds h hfetch htarget heading
  rw [demandSpan_fst]
  generalize (s.demandStart fetch target heading).1 = start at *
  obtain ⟨hcount, hcountle, hahead, hfar⟩ := demandCount_bounds h hfetch start
  have htargetlt : target < start + (s.demandCount fetch start).1 := by
    apply hfar target hreach
    intro b hb hlt
    rcases lt_or_lt_of_contains_eq_false h hmissing hb with hb' | hb'
    · have := hbehind b hb hb'
      have := (h.batch b hb).first_le
      omega
    · exact hb'
  generalize (s.demandCount fetch start).1 = count at *
  refine ⟨.of_neighbours h hone hcount hcountle fun b hb hlt => ?_, hle,
    by simp only [Span.last]; omega⟩
  simp only at hlt ⊢
  rcases lt_or_lt_of_contains_eq_false h hmissing hb with hb' | hb'
  · exact hbehind b hb hb'
  · have := hahead b hb (by omega)
    omega

/-! ## Fetching ahead of demand -/

/-- **Fetching ahead**, a cursor that moves on asks for nothing that is at hand. -/
theorem spanAhead_proper (h : s.Valid) {finalRow : Option Int} (hrow : s.contains row = true)
    {span : Span} (hspan : (s.spanAhead fetch finalRow row).1 = some span)
    (hcount : 0 < span.count) : span.Proper s fetch := by
  obtain ⟨b, hb, hedge⟩ := exists_contiguousEnd h hrow
  have hbv := h.batch b hb
  have hone := hbv.one_le
  have hle := hbv.first_le
  -- what does not start behind the run ends with it or before
  have hbehind : ∀ c ∈ s.batches, c.first ≤ b.last → c.last ≤ b.last := by
    intro c hc hcle
    rcases h.apart hc hb with rfl | hlt | hlt
    · exact Int.le_refl _
    · omega
    · omega
  simp only [spanAhead, hedge] at hspan
  split at hspan
  · cases hspan
  split at hspan
  · cases hspan
  split at hspan
  · next next hnext =>
    cases hspan
    simp only at hcount
    refine .of_neighbours h (by simp only; omega) hcount (by simp only; omega) fun c hc hlt => ?_
    simp only at hlt ⊢
    by_cases hcle : c.first ≤ b.last
    · have := hbehind c hc hcle
      omega
    · have := le_of_nextStartAfter h hnext hc (by omega)
      omega
  · next hnext =>
    cases hspan
    simp only at hcount
    refine .of_neighbours h (by simp only; omega) hcount (Int.le_refl _) fun c hc hlt => ?_
    simp only at hlt ⊢
    have := hbehind c hc (le_of_nextStartAfter_eq_none h hnext hc)
    omega

/-- **Fetching behind**, a cursor that moves back asks for nothing that is at hand. -/
theorem spanBehind_proper (h : s.Valid) (hrow : s.contains row = true)
    {span : Span} (hspan : (s.spanBehind fetch row).1 = some span)
    (hcount : 0 < span.count) : span.Proper s fetch := by
  obtain ⟨b, hb, hedge⟩ := exists_contiguousStart h hrow
  simp only [spanBehind, hedge] at hspan
  split at hspan
  · cases hspan
  next hfirst =>
  split at hspan
  · cases hspan
  have hahead : ∀ c ∈ s.batches, c.first < b.first → c.last < b.first := by
    intro c hc hlt
    have := (h.batch b hb).first_le
    rcases h.apart hc hb with rfl | hlt | hlt
    · omega
    · exact hlt
    · omega
  split at hspan
  · next prev hprev =>
    cases hspan
    simp only at hcount
    refine .of_neighbours h (by simp only; omega) hcount (by simp only; omega) fun c hc hlt => ?_
    simp only at hlt ⊢
    have := le_of_prevEndBefore h hprev hc (hahead c hc (by omega))
    omega
  · next hprev =>
    cases hspan
    simp only at hcount
    refine .of_neighbours h (by simp only; omega) hcount (by simp only; omega) fun c hc hlt => ?_
    simp only at hlt ⊢
    have := hahead c hc (by omega)
    have := le_of_prevEndBefore_eq_none h hprev hc
    omega

/-- What is fetched ahead starts where the run of rows at hand ends. -/
theorem spanAhead_start {finalRow : Option Int} {span : Span}
    (hspan : (s.spanAhead fetch finalRow row).1 = some span) :
    span.start = s.contiguousEnd row + 1 := by
  simp only [spanAhead] at hspan
  split at hspan
  · cases hspan
  split at hspan
  · cases hspan
  split at hspan <;> cases hspan <;> rfl

/-- Nothing is fetched ahead from past a final row that is known. -/
theorem spanAhead_within {finalRow : Option Int} {span : Span}
    (hspan : (s.spanAhead fetch finalRow row).1 = some span) :
    finalRow.any (· < span.start) = false := by
  rw [spanAhead_start hspan]
  simp only [spanAhead] at hspan
  split at hspan
  · cases hspan
  next hfinal =>
  simpa only [Int.lt_add_one_iff] using eq_false_of_ne_true hfinal

/-- What is fetched behind ends where the run of rows at hand starts. -/
theorem spanBehind_end {span : Span} (hspan : (s.spanBehind fetch row).1 = some span) :
    span.start + span.count = s.contiguousStart row := by
  simp only [spanBehind] at hspan
  split at hspan
  · cases hspan
  split at hspan
  · cases hspan
  split at hspan
  · cases hspan
    simp only
    omega
  · cases hspan
    simp only
    omega

end Residency

/-! ## Fetching past the end -/

/-- **The search for the final row** asks for rows behind the last one at hand. -/
theorem spanPastHighest_proper {H : Type} {c : Cursor H} (h : c.rows.Valid)
    (hfetch : 1 ≤ c.fetchSize) : (spanPastHighest c).1.Proper c.rows c.fetchSize := by
  have hbehind : ∀ b ∈ c.rows.batches, b.last < (c.rows.highestRow.getD 0) + 1 := by
    intro b hb
    obtain ⟨highest, hhigh, hle⟩ := Residency.exists_highestRow h hb
    simp only [hhigh, Option.getD_some]
    omega
  have hone : 0 ≤ c.rows.highestRow.getD 0 := by
    cases hhigh : c.rows.highestRow with
    | none => simp
    | some highest =>
      obtain ⟨b, hb, rfl⟩ := Residency.of_highestRow hhigh
      have := (h.batch b hb).one_le
      have := (h.batch b hb).first_le
      simp only [Option.getD_some]
      omega
  refine .of_neighbours h (by simp only [spanPastHighest]; omega) hfetch (Int.le_refl _)
    fun b hb _ => ?_
  simp only [spanPastHighest]
  exact hbehind b hb

end QueryClient.Cursor
