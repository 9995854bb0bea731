import QueryClient.Cursor.Residency

/-!
# The rows at hand as a partial map

A residency is valid when its batches are well formed and each ends before the next begins. Look-ups
inspect one batch only; in a valid residency they find the batch that covers a row whenever there is
one (`find_eq_some_iff`). Insertion and eviction keep validity, insertion removes exactly the
batches that share a row with the new one, and eviction keeps what it protects.
-/

namespace QueryClient.Cursor

namespace Batch

/-- A well-formed batch counts from row one, covers a row, and has all of its rows unless it fails.
-/
structure Valid (b : Batch) : Prop where
  one_le : 1 ≤ b.first
  first_le : b.first ≤ b.last
  length_eq : b.failure = none → (b.rows.length : Int) = b.last - b.first + 1

theorem contains_iff {b : Batch} {row : Int} :
    b.contains row = true ↔ b.first ≤ row ∧ row ≤ b.last := by
  simp [contains]

theorem overlaps_eq_false_iff {a b : Batch} :
    a.overlaps b = false ↔ b.last < a.first ∨ a.last < b.first := by
  simp only [overlaps, Bool.and_eq_false_iff, decide_eq_false_iff_not]
  omega

/-- A well-formed batch that does not fail has every row that it covers. -/
theorem Valid.exists_row {b : Batch} (h : b.Valid) (hplain : b.failure = none) {row : Int}
    (hrow : b.contains row = true) : ∃ cells, b.row row = .ok cells := by
  have hspan := contains_iff.1 hrow
  have hlength := h.length_eq hplain
  have hindex : (row - b.first).toNat < b.rows.length := by omega
  refine ⟨b.rows[(row - b.first).toNat], ?_⟩
  simp [Batch.row, hplain, hrow, hindex]

/-- Results that agree with themselves count from row one. -/
theorem one_le_firstRow {results : Results} (hv : results.validate = .ok ()) :
    1 ≤ results.firstRow.toInt := by
  unfold Results.validate at hv
  simp only at hv
  split at hv
  · cases hv
  · next hone => simpa [Int64.lt_iff_toInt_lt] using hone

/-- Results that agree with themselves have the rows that they announce, if they have any. -/
theorem length_rows {results : Results} (hv : results.validate = .ok ())
    (hrows : results.rows ≠ []) :
    (results.rows.length : Int) = results.lastRow.toInt - results.firstRow.toInt + 1 := by
  have hbare : (results.exception.isSome && results.rows.isEmpty) = false := by
    simp [hrows]
  unfold Results.validate at hv
  simp only [hbare] at hv
  split at hv
  · cases hv
  · split at hv
    · next h => cases h
    · split at hv
      · cases hv
      · next hlen => exact (Decidable.not_not.1 hlen).symm

/-- The batch of a results message that agrees with itself is well formed. -/
theorem valid_of_ofResults? {results : Results} {b : Batch} (hv : results.validate = .ok ())
    (hb : ofResults? results = some b) : b.Valid := by
  have hfirst := one_le_firstRow hv
  unfold ofResults? at hb
  cases hrows : results.rows with
  | nil =>
    cases he : results.exception with
    | none => simp [hrows, he] at hb
    | some e =>
      simp only [hrows, he, Option.some.injEq] at hb
      subst hb
      exact ⟨hfirst, Int.le_refl _, by simp⟩
  | cons row rows =>
    have hlen := length_rows hv (by simp [hrows])
    simp only [hrows, Option.some.injEq] at hb
    subst hb
    refine ⟨hfirst, ?_, fun _ => hrows ▸ hlen⟩
    simp only [hrows, List.length_cons] at hlen
    show results.firstRow.toInt ≤ results.lastRow.toInt
    omega

end Batch

/-! ## Ordered lists -/

section Ordered

variable {α : Type} {R : α → α → Prop} {l : List α} {a b : α}

/-- In an ordered list, the last element comes after all others. -/
theorem eq_or_rel_getLast? (h : l.Pairwise R) (ha : a ∈ l) (hb : l.getLast? = some b) :
    a = b ∨ R a b := by
  obtain ⟨front, rfl⟩ := List.getLast?_eq_some_iff.1 hb
  rcases List.mem_append.1 ha with ha | ha
  · exact .inr ((List.pairwise_append.1 h).2.2 a ha b (List.mem_singleton_self b))
  · exact .inl (List.mem_singleton.1 ha)

/-- Two elements of an ordered list are in order, one way or the other. -/
theorem eq_or_rel_or_rel (h : l.Pairwise R) (ha : a ∈ l) (hb : b ∈ l) :
    a = b ∨ R a b ∨ R b a := by
  induction h with
  | nil => cases ha
  | cons hhead _ ih =>
    rcases List.mem_cons.1 ha with rfl | ha' <;> rcases List.mem_cons.1 hb with rfl | hb'
    · exact .inl rfl
    · exact .inr (.inl (hhead _ hb'))
    · exact .inr (.inr (hhead _ ha'))
    · exact ih ha' hb'

/-- The first hit in an ordered list comes before all others. -/
theorem eq_or_rel_find? {p : α → Bool} (h : l.Pairwise R) (ha : a ∈ l) (hp : p a = true) :
    ∃ b, l.find? p = some b ∧ (b = a ∨ R b a) := by
  induction h with
  | nil => cases ha
  | @cons c _ hhead _ ih =>
    by_cases hc : p c = true
    · refine ⟨c, List.find?_cons_of_pos hc, ?_⟩
      rcases List.mem_cons.1 ha with rfl | hmem
      · exact .inl rfl
      · exact .inr (hhead a hmem)
    · rcases List.mem_cons.1 ha with rfl | hmem
      · exact absurd hp hc
      · rw [List.find?_cons_of_neg hc]
        exact ih hmem

end Ordered

namespace Residency

/-- In a valid residency the batches are well formed and each ends before the next begins. -/
structure Valid (s : Residency) : Prop where
  batch : ∀ b ∈ s.batches, b.Valid
  ordered : s.batches.Pairwise fun a b => a.last < b.first

/-- Each batch at hand begins behind the beginning of the one before. -/
def Keyed (s : Residency) : Prop :=
  s.batches.Pairwise fun a b => a.first < b.first

variable {s t : Residency} {a b c : Batch} {row : Int}

namespace Keyed

theorem of_sublist (h : s.Keyed) (hsub : t.batches.Sublist s.batches) : t.Keyed :=
  List.Pairwise.sublist hsub h

/-- Two batches at hand begin at different rows, unless they are one. -/
theorem eq_of_first_eq (h : s.Keyed) (ha : a ∈ s.batches) (hb : b ∈ s.batches)
    (hfirst : a.first = b.first) : a = b := by
  rcases eq_or_rel_or_rel h ha hb with heq | hlt | hlt
  · exact heq
  · omega
  · omega

end Keyed

namespace Valid

theorem empty : Residency.empty.Valid :=
  ⟨fun _ h => absurd h List.not_mem_nil, List.Pairwise.nil⟩

theorem of_sublist (h : s.Valid) (hsub : t.batches.Sublist s.batches) : t.Valid :=
  ⟨fun b hb => h.batch b (hsub.subset hb), h.ordered.sublist hsub⟩

theorem keyed (h : s.Valid) : s.Keyed := by
  refine h.ordered.imp_of_mem fun {a b} ha _ hab => ?_
  exact Int.lt_of_le_of_lt (h.batch a ha).first_le hab

/-- Two batches at hand lie apart, unless they are one. -/
theorem apart (h : s.Valid) (ha : a ∈ s.batches) (hb : b ∈ s.batches) :
    a = b ∨ a.last < b.first ∨ b.last < a.first :=
  eq_or_rel_or_rel h.ordered ha hb

end Valid

/-! ## Looking rows up -/

/-- **Looking up** finds the batch that covers a row. -/
theorem find_eq_some_iff (h : s.Valid) :
    s.find row = some b ↔ b ∈ s.batches ∧ b.contains row = true := by
  unfold find
  constructor
  · intro hf
    split at hf
    · next c hlast =>
      split at hf
      · next hc =>
        cases hf
        exact ⟨(List.mem_filter.1 (List.mem_of_getLast? hlast)).1, hc⟩
      · cases hf
    · cases hf
  · rintro ⟨hb, hc⟩
    have hrow := Batch.contains_iff.1 hc
    have hmem : b ∈ s.batches.filter fun b => b.first ≤ row := by
      simp [hb, hrow.1]
    cases hlast : (s.batches.filter fun b => b.first ≤ row).getLast? with
    | none => simp [List.getLast?_eq_none_iff.1 hlast] at hmem
    | some c =>
      have hcf := (List.mem_filter.1 (List.mem_of_getLast? hlast)).2
      simp only [decide_eq_true_eq] at hcf
      -- a batch behind `b` begins past the row, so the last one that does not is `b`
      obtain rfl : b = c := by
        rcases eq_or_rel_getLast? (h.ordered.sublist List.filter_sublist) hmem hlast with heq | hlt
        · exact heq
        · omega
      simp [hc]

theorem contains_iff (h : s.Valid) :
    s.contains row = true ↔ ∃ b ∈ s.batches, b.contains row = true := by
  unfold contains
  rw [Option.isSome_iff_exists]
  exact exists_congr fun b => find_eq_some_iff h

theorem contains_eq_false_iff (h : s.Valid) :
    s.contains row = false ↔ ∀ b ∈ s.batches, b.contains row = false := by
  rw [← Bool.not_eq_true, contains_iff h]
  simp

/-- A row that is not at hand lies before or behind each batch. -/
theorem lt_or_lt_of_contains_eq_false (h : s.Valid) (hrow : s.contains row = false)
    (hb : b ∈ s.batches) : b.last < row ∨ row < b.first := by
  have hc := (contains_eq_false_iff h).1 hrow b hb
  rw [← Bool.not_eq_true, Batch.contains_iff] at hc
  omega

/-- What drops batches brings no rows. -/
theorem contains_eq_false_of_sublist (h : s.Valid) (hsub : t.batches.Sublist s.batches)
    (hrow : s.contains row = false) : t.contains row = false := by
  rw [contains_eq_false_iff h] at hrow
  rw [contains_eq_false_iff (h.of_sublist hsub)]
  intro b hb
  exact hrow b (hsub.subset hb)

theorem one_le_of_contains (h : s.Valid) (hrow : s.contains row = true) : 1 ≤ row := by
  obtain ⟨b, hb, hc⟩ := (contains_iff h).1 hrow
  have hone := (h.batch b hb).one_le
  have hc := Batch.contains_iff.1 hc
  omega

/-! ## Taking a batch in -/

theorem mem_place {l : List Batch} : c ∈ place b l ↔ c = b ∨ c ∈ l := by
  induction l with
  | nil => simp [place]
  | cons d l ih =>
    rw [place]
    split
    · simp
    · simp only [List.mem_cons, ih]
      constructor
      · rintro (hd | hb | hl)
        · exact .inr (.inl hd)
        · exact .inl hb
        · exact .inr (.inr hl)
      · rintro (hb | hd | hl)
        · exact .inr (.inl hb)
        · exact .inl hd
        · exact .inr (.inr hl)

/-- Putting a batch in its place keeps the order, if it lies apart from all others. -/
theorem pairwise_place {l : List Batch} (hl : l.Pairwise fun a b => a.last < b.first)
    (hvalid : ∀ c ∈ l, c.Valid) (hb : b.Valid) (hapart : ∀ c ∈ l, c.overlaps b = false) :
    (place b l).Pairwise fun a b => a.last < b.first := by
  induction hl with
  | nil => exact List.pairwise_singleton ..
  | @cons c l hhead htail ih =>
    have hc := hvalid c List.mem_cons_self
    have hcb := Batch.overlaps_eq_false_iff.1 (hapart c List.mem_cons_self)
    have hclast := hc.first_le
    have hblast := hb.first_le
    rw [place]
    split
    · next hle =>
      have hbc : b.last < c.first := by omega
      refine List.pairwise_cons.2 ⟨fun d hd => ?_, List.pairwise_cons.2 ⟨hhead, htail⟩⟩
      rcases List.mem_cons.1 hd with rfl | hd
      · exact hbc
      · have := hhead d hd
        omega
    · have hcb' : c.last < b.first := by omega
      refine List.pairwise_cons.2 ⟨fun d hd => ?_, ih
        (fun d hd => hvalid d (List.mem_cons_of_mem _ hd))
        (fun d hd => hapart d (List.mem_cons_of_mem _ hd))⟩
      rcases mem_place.1 hd with rfl | hd
      · exact hcb'
      · exact hhead d hd

/-- **Insertion** adds the new batch and removes exactly those that share a row with it. -/
theorem mem_insert :
    c ∈ (s.insert b).batches ↔ c = b ∨ c ∈ s.batches ∧ c.overlaps b = false := by
  simp [insert, mem_place, List.mem_filter]

theorem Valid.insert (h : s.Valid) (hb : b.Valid) : (s.insert b).Valid where
  batch c hc := by
    rcases mem_insert.1 hc with rfl | ⟨hc, -⟩
    · exact hb
    · exact h.batch c hc
  ordered := by
    apply pairwise_place (h.ordered.sublist List.filter_sublist) _ hb
    · intro c hc
      simpa using (List.mem_filter.1 hc).2
    · intro c hc
      exact h.batch c (List.mem_filter.1 hc).1

/-- A batch all of whose rows are missing overlaps nothing. -/
theorem overlaps_eq_false_of_missing (h : s.Valid) (hb : b.Valid)
    (hmissing : ∀ row, b.contains row = true → s.contains row = false) (hc : c ∈ s.batches) :
    c.overlaps b = false := by
  have hcv := (h.batch c hc).first_le
  have hbv := hb.first_le
  have hleft := lt_or_lt_of_contains_eq_false h
    (hmissing b.first (Batch.contains_iff.2 ⟨Int.le_refl _, hbv⟩)) hc
  rw [Batch.overlaps_eq_false_iff]
  rcases hleft with hlt | hlt
  · exact .inr hlt
  · by_cases hle : c.first ≤ b.last
    · have := lt_or_lt_of_contains_eq_false h
        (hmissing c.first (Batch.contains_iff.2 ⟨by omega, hle⟩)) hc
      omega
    · exact .inl (by omega)

/-- Insertion of missing rows leaves what is at hand where it is. -/
theorem find_insert_of_missing (h : s.Valid) (hb : b.Valid)
    (hmissing : ∀ row, b.contains row = true → s.contains row = false)
    (hfind : s.find row = some c) : (s.insert b).find row = some c := by
  obtain ⟨hc, hrow⟩ := (find_eq_some_iff h).1 hfind
  refine (find_eq_some_iff (h.insert hb)).2 ⟨mem_insert.2 (.inr ⟨hc, ?_⟩), hrow⟩
  exact overlaps_eq_false_of_missing h hb hmissing hc

/-! ## Neighbours -/

theorem exists_nextStartAfter (h : s.Valid) (hb : b ∈ s.batches) (hlt : row < b.first) :
    ∃ next, s.nextStartAfter row = some next ∧ next ≤ b.first := by
  obtain ⟨c, hc, hcb⟩ := eq_or_rel_find? h.ordered hb (p := fun b => row < b.first) (by simpa)
  refine ⟨c.first, by simp [nextStartAfter, hc], ?_⟩
  rcases hcb with rfl | hlt
  · exact Int.le_refl _
  · have := (h.batch c (List.mem_of_find?_eq_some hc)).first_le
    omega

theorem le_of_nextStartAfter (h : s.Valid) {next : Int} (hnext : s.nextStartAfter row = some next)
    (hb : b ∈ s.batches) (hlt : row < b.first) : next ≤ b.first := by
  obtain ⟨nearest, hnearest, hle⟩ := exists_nextStartAfter h hb hlt
  rw [hnext] at hnearest
  cases hnearest
  exact hle

theorem le_of_nextStartAfter_eq_none (h : s.Valid) (hnone : s.nextStartAfter row = none)
    (hb : b ∈ s.batches) : b.first ≤ row := by
  refine Int.not_lt.1 fun hlt => ?_
  obtain ⟨nearest, hnearest, -⟩ := exists_nextStartAfter h hb hlt
  rw [hnone] at hnearest
  cases hnearest

theorem of_nextStartAfter {next : Int} (hnext : s.nextStartAfter row = some next) :
    ∃ b ∈ s.batches, b.first = next ∧ row < next := by
  simp only [nextStartAfter, Option.map_eq_some_iff] at hnext
  obtain ⟨b, hb, rfl⟩ := hnext
  exact ⟨b, List.mem_of_find?_eq_some hb, rfl, by simpa using List.find?_some hb⟩

theorem exists_prevEndBefore (h : s.Valid) (hb : b ∈ s.batches) (hlt : b.last < row) :
    ∃ prev, s.prevEndBefore row = some prev ∧ b.last ≤ prev := by
  have hfirst := (h.batch b hb).first_le
  obtain ⟨c, hc, hcb⟩ := eq_or_rel_find? (List.pairwise_reverse.2 h.ordered)
    (List.mem_reverse.2 hb) (p := fun b => b.first < row && b.last < row)
    (by simp only [Bool.and_eq_true, decide_eq_true_eq]; omega)
  refine ⟨c.last, by simp [prevEndBefore, hc], ?_⟩
  rcases hcb with rfl | hlt
  · exact Int.le_refl _
  · have := (h.batch c (List.mem_reverse.1 (List.mem_of_find?_eq_some hc))).first_le
    omega

theorem le_of_prevEndBefore (h : s.Valid) {prev : Int} (hprev : s.prevEndBefore row = some prev)
    (hb : b ∈ s.batches) (hlt : b.last < row) : b.last ≤ prev := by
  obtain ⟨nearest, hnearest, hle⟩ := exists_prevEndBefore h hb hlt
  rw [hprev] at hnearest
  cases hnearest
  exact hle

theorem le_of_prevEndBefore_eq_none (h : s.Valid) (hnone : s.prevEndBefore row = none)
    (hb : b ∈ s.batches) : row ≤ b.last := by
  refine Int.not_lt.1 fun hlt => ?_
  obtain ⟨nearest, hnearest, -⟩ := exists_prevEndBefore h hb hlt
  rw [hnone] at hnearest
  cases hnearest

theorem of_prevEndBefore {prev : Int} (hprev : s.prevEndBefore row = some prev) :
    ∃ b ∈ s.batches, b.last = prev ∧ prev < row := by
  simp only [prevEndBefore, Option.map_eq_some_iff] at hprev
  obtain ⟨b, hb, rfl⟩ := hprev
  have hlt := List.find?_some hb
  simp only [Bool.and_eq_true, decide_eq_true_eq] at hlt
  exact ⟨b, List.mem_reverse.1 (List.mem_of_find?_eq_some hb), rfl, hlt.2⟩

theorem exists_highestRow (h : s.Valid) (hb : b ∈ s.batches) :
    ∃ highest, s.highestRow = some highest ∧ b.last ≤ highest := by
  cases hlast : s.batches.getLast? with
  | none => simp [List.getLast?_eq_none_iff.1 hlast] at hb
  | some c =>
    refine ⟨c.last, by simp [highestRow, hlast], ?_⟩
    rcases eq_or_rel_getLast? h.ordered hb hlast with rfl | hlt
    · exact Int.le_refl _
    · have := (h.batch c (List.mem_of_getLast? hlast)).first_le
      omega

theorem of_highestRow {highest : Int} (hhigh : s.highestRow = some highest) :
    ∃ b ∈ s.batches, b.last = highest := by
  simp only [highestRow, Option.map_eq_some_iff] at hhigh
  obtain ⟨b, hb, rfl⟩ := hhigh
  exact ⟨b, List.mem_of_getLast? hb, rfl⟩

/-! ## Runs -/

theorem runEnd_eq_or (last : Int) (l : List Batch) :
    runEnd last l = last ∨ ∃ b ∈ l, runEnd last l = b.last := by
  induction l generalizing last with
  | nil => exact .inl rfl
  | cons b l ih =>
    rw [runEnd]
    split
    · rcases ih b.last with heq | ⟨c, hc, heq⟩
      · exact .inr ⟨b, List.mem_cons_self, heq⟩
      · exact .inr ⟨c, List.mem_cons_of_mem _ hc, heq⟩
    · rcases ih last with heq | ⟨c, hc, heq⟩
      · exact .inl heq
      · exact .inr ⟨c, List.mem_cons_of_mem _ hc, heq⟩

theorem runStart_eq_or (first : Int) (l : List Batch) :
    runStart first l = first ∨ ∃ b ∈ l, runStart first l = b.first := by
  induction l generalizing first with
  | nil => exact .inl rfl
  | cons b l ih =>
    rw [runStart]
    split
    · rcases ih b.first with heq | ⟨c, hc, heq⟩
      · exact .inr ⟨b, List.mem_cons_self, heq⟩
      · exact .inr ⟨c, List.mem_cons_of_mem _ hc, heq⟩
    · rcases ih first with heq | ⟨c, hc, heq⟩
      · exact .inl heq
      · exact .inr ⟨c, List.mem_cons_of_mem _ hc, heq⟩

/-- The run of a row at hand ends where some batch ends. -/
theorem exists_contiguousEnd (h : s.Valid) (hrow : s.contains row = true) :
    ∃ b ∈ s.batches, s.contiguousEnd row = b.last := by
  obtain ⟨b, hfind⟩ := Option.isSome_iff_exists.1 hrow
  have hb := ((find_eq_some_iff h).1 hfind).1
  simp only [contiguousEnd, hfind]
  rcases runEnd_eq_or b.last s.batches with heq | ⟨c, hc, heq⟩
  · exact ⟨b, hb, heq⟩
  · exact ⟨c, hc, heq⟩

/-- The run of a row at hand starts where some batch starts. -/
theorem exists_contiguousStart (h : s.Valid) (hrow : s.contains row = true) :
    ∃ b ∈ s.batches, s.contiguousStart row = b.first := by
  obtain ⟨b, hfind⟩ := Option.isSome_iff_exists.1 hrow
  have hb := ((find_eq_some_iff h).1 hfind).1
  simp only [contiguousStart, hfind]
  rcases runStart_eq_or b.first s.batches.reverse with heq | ⟨c, hc, heq⟩
  · exact ⟨b, hb, heq⟩
  · exact ⟨c, List.mem_reverse.1 hc, heq⟩

/-! ## Eviction -/

theorem sublist_evictBehind : (s.evictBehind row).batches.Sublist s.batches := by
  unfold evictBehind
  split
  · exact List.filter_sublist
  · exact List.Sublist.refl _

/-- Eviction behind a row keeps what does not start before the batch with the row. -/
theorem mem_evictBehind_iff (h : s.Valid) (hb : b ∈ s.batches) (hrow : b.contains row = true) :
    c ∈ (s.evictBehind row).batches ↔ c ∈ s.batches ∧ b.first ≤ c.first := by
  have hfind := (find_eq_some_iff h).2 ⟨hb, hrow⟩
  simp [evictBehind, hfind]

theorem mem_evictBehind (h : s.Valid) (hb : b ∈ s.batches) (hrow : b.contains row = true) :
    b ∈ (s.evictBehind row).batches :=
  (mem_evictBehind_iff h hb hrow).2 ⟨hb, Int.le_refl _⟩

/-- Eviction behind a row keeps the batch with the row. -/
theorem find_evictBehind (h : s.Valid) (hfind : s.find row = some b) :
    (s.evictBehind row).find row = some b := by
  obtain ⟨hb, hrow⟩ := (find_eq_some_iff h).1 hfind
  exact (find_eq_some_iff (h.of_sublist sublist_evictBehind)).2 ⟨mem_evictBehind h hb hrow, hrow⟩

theorem mem_of_farthest {l : List Batch} (hf : farthest row l = some b) : b ∈ l := by
  induction l generalizing b with
  | nil => cases hf
  | cons c l ih =>
    rw [farthest] at hf
    split at hf
    · next d hd =>
      split at hf
      · cases hf
        exact List.mem_cons_of_mem _ (ih hd)
      · cases hf
        exact List.mem_cons_self
    · cases hf
      exact List.mem_cons_self

section Eviction

variable {limit : Nat} {pinned : Option Int}

theorem sublist_evictFarthest (n : Nat) :
    (evictFarthest limit row pinned n s).batches.Sublist s.batches := by
  induction n generalizing s with
  | zero => exact List.Sublist.refl _
  | succ n ih =>
    rw [evictFarthest]
    split
    · exact List.Sublist.refl _
    · split
      · exact List.Sublist.refl _
      · exact ih.trans List.filter_sublist

/-- Eviction by distance keeps the batches it protects. -/
theorem mem_evictFarthest (h : s.Keyed) (hb : b ∈ s.batches)
    (hprot : isProtected row pinned b = true) (n : Nat) :
    b ∈ (evictFarthest limit row pinned n s).batches := by
  induction n generalizing s with
  | zero => exact hb
  | succ n ih =>
    rw [evictFarthest]
    split
    · exact hb
    · split
      · exact hb
      · next c hc =>
        have hc := List.mem_filter.1 (mem_of_farthest hc)
        have hfirst : b.first ≠ c.first := by
          intro heq
          cases h.eq_of_first_eq hb hc.1 heq
          simp [hprot] at hc
        have hkept : b ∈ s.batches.filter fun b => b.first ≠ c.first := by
          simpa [hb] using hfirst
        exact ih (h.of_sublist List.filter_sublist) hkept

theorem sublist_evictKeeping : (s.evictKeeping limit row pinned).batches.Sublist s.batches :=
  sublist_evictFarthest _

/-- Eviction around a row keeps the batch with the row. -/
theorem mem_evictKeeping (h : s.Valid) (hb : b ∈ s.batches) (hrow : b.contains row = true) :
    b ∈ (s.evictKeeping limit row pinned).batches :=
  mem_evictFarthest h.keyed hb (by simp [isProtected, hrow]) _

/-- Eviction around a row keeps the batch with the pinned row. -/
theorem mem_evictKeeping_pinned {pin : Int} (h : s.Valid) (hb : b ∈ s.batches)
    (hpin : b.contains pin = true) : b ∈ (s.evictKeeping limit row (some pin)).batches :=
  mem_evictFarthest h.keyed hb (by simp [isProtected, hpin]) _

end Eviction

end Residency

end QueryClient.Cursor
