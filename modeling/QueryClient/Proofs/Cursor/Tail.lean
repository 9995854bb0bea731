import QueryClient.Proofs.Cursor.Span

/-!
# The batch behind all others

A cursor that only moves on stands in the last batch at hand, and what it fetches next follows from
that batch alone: its run of rows ends where the batch ends (`EndsWith.contiguousEnd`), and so a
demand for the row behind it and a fetch ahead of demand are one and the same span.
-/

namespace QueryClient.Cursor.Residency

variable {s t : Residency} {b c : Batch} {fetch row : Int} {finalRow : Option Int}

/-- A valid residency that has no row behind those of a batch. -/
structure EndsWith (s : Residency) (b : Batch) : Prop where
  valid : s.Valid
  mem : b ∈ s.batches
  last_le : ∀ c ∈ s.batches, c.last ≤ b.last

/-- A run never ends before it starts. -/
theorem le_runEnd (last : Int) {l : List Batch} (h : ∀ b ∈ l, b.first ≤ b.last) :
    last ≤ runEnd last l := by
  induction l generalizing last with
  | nil => exact Int.le_refl _
  | cons b l ih =>
    have hb := h b List.mem_cons_self
    have hl := fun c hc => h c (List.mem_cons_of_mem b hc)
    rw [runEnd]
    split
    · have := ih b.last hl
      omega
    · exact ih last hl

namespace EndsWith

theorem of_sublist (h : s.EndsWith b) (hsub : t.batches.Sublist s.batches) (hmem : b ∈ t.batches) :
    t.EndsWith b :=
  ⟨h.valid.of_sublist hsub, hmem, fun c hc => h.last_le c (hsub.subset hc)⟩

/-- A batch that comes in behind all others is the last one. -/
theorem insert (h : s.Valid) (hb : b.Valid) (hbehind : ∀ c ∈ s.batches, c.last < b.first) :
    (s.insert b).EndsWith b := by
  refine ⟨h.insert hb, mem_insert.2 (.inl rfl), fun c hc => ?_⟩
  have hle := hb.first_le
  rcases mem_insert.1 hc with rfl | ⟨hc, -⟩
  · exact Int.le_refl _
  · have := hbehind c hc
    omega

theorem find (h : s.EndsWith b) (hrow : b.contains row = true) : s.find row = some b :=
  (find_eq_some_iff h.valid).2 ⟨h.mem, hrow⟩

theorem contains (h : s.EndsWith b) (hrow : b.contains row = true) : s.contains row = true :=
  (contains_iff h.valid).2 ⟨b, h.mem, hrow⟩

theorem contains_eq_false (h : s.EndsWith b) (hrow : b.last < row) : s.contains row = false := by
  refine (contains_eq_false_iff h.valid).2 fun c hc => ?_
  have hlast := h.last_le c hc
  rw [← Bool.not_eq_true, Batch.contains_iff]
  omega

theorem rowAt (h : s.EndsWith b) (hrow : b.contains row = true) : s.rowAt row = b.row row := by
  simp only [Residency.rowAt, h.find hrow]

/-! ## What is asked for next -/

theorem nextStartAfter (h : s.EndsWith b) (hrow : b.last ≤ row) : s.nextStartAfter row = none := by
  cases hnext : s.nextStartAfter row with
  | none => rfl
  | some next =>
    obtain ⟨c, hc, rfl, hlt⟩ := of_nextStartAfter hnext
    have hle := (h.valid.batch c hc).first_le
    have hlast := h.last_le c hc
    omega

theorem prevEndBefore (h : s.EndsWith b) (hrow : b.last < row) :
    s.prevEndBefore row = some b.last := by
  obtain ⟨prev, hprev, hle⟩ := exists_prevEndBefore h.valid h.mem hrow
  obtain ⟨c, hc, rfl, -⟩ := of_prevEndBefore hprev
  have hlast := h.last_le c hc
  rw [hprev, Int.le_antisymm hlast hle]

theorem contiguousEnd (h : s.EndsWith b) (hrow : b.contains row = true) :
    s.contiguousEnd row = b.last := by
  obtain ⟨c, hc, hend⟩ := exists_contiguousEnd h.valid (h.contains hrow)
  have hlast := h.last_le c hc
  have hrun : b.last ≤ s.contiguousEnd row := by
    simp only [Residency.contiguousEnd, h.find hrow]
    exact le_runEnd b.last fun c hc => (h.valid.batch c hc).first_le
  omega

/-- A demand for the row behind the last batch asks for a whole fetch from there on. -/
theorem demandSpan (h : s.EndsWith b) (hfetch : 1 ≤ fetch) :
    s.demandSpan fetch (b.last + 1) .forward =
      (⟨b.last + 1, fetch⟩, [b.last + 1, b.last + 1 + 1]) := by
  have hprev := h.prevEndBefore (Int.lt_succ b.last)
  have hnext : s.nextStartAfter (b.last + 1) = none := h.nextStartAfter (by omega)
  have hcount : max fetch 1 = fetch := by omega
  simp [Residency.demandSpan, demandStart, demandCount, hprev, hnext, hcount]

/-- Ahead of demand, too, a whole fetch from there on is asked for, if anything is. -/
theorem spanAhead (h : s.EndsWith b) (hrow : b.contains row = true) :
    s.spanAhead fetch finalRow row =
      if finalRow.any fun last => last ≤ b.last then (none, [b.last + 1])
      else if threshold fetch ≤ b.last - row then (none, [b.last + 1, b.last - row])
      else (some ⟨b.last + 1, fetch⟩, [b.last + 1, b.last - row, b.last + 1]) := by
  have hnext := h.nextStartAfter (Int.le_refl b.last)
  simp only [Residency.spanAhead, h.contiguousEnd hrow, h.contains hrow, hnext, if_true]
  rfl

end EndsWith

end QueryClient.Cursor.Residency
