import QueryClient.Proofs.Cursor.Discipline

/-!
# Sums over rows at hand

What a cursor works out about the batches at hand, to drop some of them or to find the rows to fetch
next, is a sum of two row numbers or of a row number and a fetch. Such a sum fits in sixty-four bits
as long as no batch reaches the last row number there is.
-/

namespace QueryClient.Cursor

theorem fits_iff {n : Int} : fits n = true ↔ -2 ^ 63 ≤ n ∧ n < 2 ^ 63 := by
  unfold fits
  rw [Bool.and_eq_true, decide_eq_true_eq, decide_eq_true_eq]
  omega

namespace Residency

variable {s : Residency} {fetch target row : Int}

section Sums

variable (h : s.Valid) (hlast : ∀ b ∈ s.batches, b.last < 2 ^ 63 - 1)

include h hlast

/-- Rows at hand are below the last row number. -/
theorem lt_of_contains (hrow : s.contains row = true) : row < 2 ^ 63 - 1 := by
  obtain ⟨b, hb, hc⟩ := (contains_iff h).1 hrow
  have hle := (Batch.contains_iff.1 hc).2
  have hlt := hlast b hb
  omega

theorem fits_evictionSums (hone : 1 ≤ row) (hrow : row < 2 ^ 63 - 1) (limit : Nat)
    (pinned : Option Int) : ∀ n ∈ s.evictionSums limit row pinned, fits n = true := by
  intro n hn
  unfold evictionSums at hn
  split at hn
  · cases hn
  · obtain ⟨b, hb, rfl⟩ := List.mem_map.1 hn
    have hmem := (List.mem_filter.1 hb).1
    have hfirst := (h.batch b hmem).one_le
    have hle := (h.batch b hmem).first_le
    have hlt := hlast b hmem
    rw [fits_iff]
    unfold Batch.distance
    split
    · omega
    · split <;> omega

theorem fits_demandCount {start : Int} (hone : 1 ≤ start) (hstart : start < 2 ^ 63 - 1) :
    ∀ n ∈ (s.demandCount fetch start).2, fits n = true := by
  have hbehind : fits (start + 1) = true := fits_iff.2 (by omega)
  intro n hn
  unfold demandCount at hn
  cases hnext : s.nextStartAfter start with
  | none =>
    simp only [hnext, List.mem_singleton] at hn
    rw [hn]
    exact hbehind
  | some next =>
    obtain ⟨b, hb, rfl, hlt⟩ := of_nextStartAfter hnext
    have hle := (h.batch b hb).first_le
    have hbelow := hlast b hb
    simp only [hnext, List.mem_cons, List.not_mem_nil, or_false] at hn
    rcases hn with rfl | rfl
    · exact hbehind
    · exact fits_iff.2 (by omega)

theorem fits_spanAhead (finalRow : Option Int) (hrow : s.contains row = true) :
    ∀ n ∈ (s.spanAhead fetch finalRow row).2, fits n = true := by
  obtain ⟨b, hb, hedge⟩ := exists_contiguousEnd h hrow
  have hone := one_le_of_contains h hrow
  have hrowlt := lt_of_contains h hlast hrow
  have hfirst := (h.batch b hb).one_le
  have hle := (h.batch b hb).first_le
  have hbelow := hlast b hb
  have hbehind : fits (b.last + 1) = true := fits_iff.2 (by omega)
  have hleft : fits (b.last - row) = true := fits_iff.2 (by omega)
  intro n hn
  simp only [spanAhead, hedge, hrow, if_true] at hn
  split at hn
  · rw [List.mem_singleton.1 hn]
    exact hbehind
  split at hn
  · simp only [List.mem_append, List.mem_singleton] at hn
    rcases hn with rfl | rfl
    · exact hbehind
    · exact hleft
  cases hnext : s.nextStartAfter b.last with
  | none =>
    simp only [hnext, List.append_nil, List.mem_append, List.mem_cons, List.not_mem_nil,
      or_false] at hn
    rcases hn with rfl | rfl | rfl
    · exact hbehind
    · exact hleft
    · exact hbehind
  | some next =>
    obtain ⟨c, hc, rfl, hlt⟩ := of_nextStartAfter hnext
    have hcle := (h.batch c hc).first_le
    have hcbelow := hlast c hc
    simp only [hnext, List.mem_append, List.mem_cons, List.not_mem_nil, or_false] at hn
    rcases hn with (rfl | rfl | rfl) | rfl
    · exact hbehind
    · exact hleft
    · exact hbehind
    · exact fits_iff.2 (by omega)

variable (hfetch : 1 ≤ fetch) (hwidth : fetch < 2 ^ 32)

include hfetch hwidth

omit hlast in
theorem fits_demandStart (hone : 1 ≤ target) (htarget : target < 2 ^ 63 - 1) (heading : Heading) :
    ∀ n ∈ (s.demandStart fetch target heading).2, fits n = true := by
  have hback : ∀ n ∈ [target - fetch, target - fetch + 1], fits n = true := by
    simp only [List.forall_mem_cons, fits_iff]
    exact ⟨by omega, by omega, by simp⟩
  have hprev : ∀ prev, s.prevEndBefore target = some prev → fits (prev + 1) = true := by
    intro prev hprev
    obtain ⟨b, hb, rfl, hlt⟩ := of_prevEndBefore hprev
    have hfirst := (h.batch b hb).one_le
    have hle := (h.batch b hb).first_le
    rw [fits_iff]
    omega
  intro n hn
  unfold demandStart at hn
  cases heading <;> cases hcase : s.prevEndBefore target <;>
    simp only [hcase, List.mem_append, List.mem_singleton, List.not_mem_nil, false_or] at hn
  · rw [hn]
    exact hprev _ hcase
  · exact hback n hn
  · rcases hn with hn | rfl
    · exact hback n hn
    · exact hprev _ hcase

/-- **A demand** for a row below the last number works out sums that fit. -/
theorem fits_demandSpan (hone : 1 ≤ target) (htarget : target < 2 ^ 63 - 1) (heading : Heading) :
    ∀ n ∈ (s.demandSpan fetch target heading).2, fits n = true := by
  obtain ⟨hstart, hle, -, -⟩ := demandStart_bounds h hfetch hone heading
  intro n hn
  rcases List.mem_append.1 hn with hn | hn
  · exact fits_demandStart h hfetch hwidth hone htarget heading n hn
  · exact fits_demandCount h hlast hstart (by omega) n hn

theorem fits_spanBehind (hrow : s.contains row = true) :
    ∀ n ∈ (s.spanBehind fetch row).2, fits n = true := by
  obtain ⟨b, hb, hedge⟩ := exists_contiguousStart h hrow
  have hone := one_le_of_contains h hrow
  have hrowlt := lt_of_contains h hlast hrow
  have hfirst := (h.batch b hb).one_le
  have hle := (h.batch b hb).first_le
  have hbelow := hlast b hb
  have hbefore : fits (b.first - 1) = true := fits_iff.2 (by omega)
  have hleft : fits (row - b.first) = true := fits_iff.2 (by omega)
  have hlow : fits (b.first - fetch) = true := fits_iff.2 (by omega)
  intro n hn
  simp only [spanBehind, hedge, hrow, if_true] at hn
  split at hn
  · rw [List.mem_singleton.1 hn]
    exact hbefore
  split at hn
  · simp only [List.mem_append, List.mem_singleton] at hn
    rcases hn with rfl | rfl
    · exact hbefore
    · exact hleft
  cases hprev : s.prevEndBefore b.first with
  | none =>
    simp only [hprev, List.append_nil, List.mem_append, List.mem_cons, List.not_mem_nil,
      or_false] at hn
    rcases hn with (rfl | rfl | rfl) | rfl
    · exact hbefore
    · exact hleft
    · exact hlow
    · exact fits_iff.2 (by omega)
  | some prev =>
    obtain ⟨c, hc, rfl, hlt⟩ := of_prevEndBefore hprev
    have hcone := (h.batch c hc).one_le
    have hcle := (h.batch c hc).first_le
    simp only [hprev, List.mem_append, List.mem_cons, List.not_mem_nil, or_false] at hn
    rcases hn with ((rfl | rfl | rfl) | rfl) | rfl
    · exact hbefore
    · exact hleft
    · exact hlow
    · exact fits_iff.2 (by omega)
    · exact fits_iff.2 (by omega)

end Sums

end Residency

end QueryClient.Cursor
