import Mathlib.Logic.Relation
import QueryClient.Cursor.Span
import QueryClient.Proofs.Cursor.Residency

/-!
# What eviction leaves

Eviction goes in rounds: as long as there are too many batches, the farthest of those that may go is
dropped. What a round keeps (`Evicted.round`) holds of a whole eviction, whose rounds come to an end
at what `evictKeeping` gives. So all that stays is as it was, what has to stay does, no more goes than
the limit asks for, and what goes is at least as far away as all that might have gone and stays
(`KeepsNearest`).
-/

namespace QueryClient.Cursor.Residency

open Relation (ReflTransGen)

variable {s t u : Residency} {b c : Batch} {l : List Batch} {limit : Nat} {row : Int}
  {pinned : Option Int}

/-! ## The farthest batch -/

theorem farthest_eq_none (h : farthest row l = none) : l = [] := by
  cases l with
  | nil => rfl
  | cons b l =>
    rw [farthest] at h
    split at h
    · split at h <;> cases h
    · cases h

/-- One batch is farther from a row than another, or as far and behind it. -/
def GoesBefore (row : Int) (b c : Batch) : Prop :=
  c.distance row < b.distance row ∨ c.distance row = b.distance row ∧ c.first < b.first

theorem goesBefore_of_farthest (hl : l.Pairwise fun a b => a.first < b.first)
    (hb : farthest row l = some b) (hc : c ∈ l) : c = b ∨ GoesBefore row b c := by
  induction hl generalizing b with
  | nil => cases hc
  | @cons d l hhead _ ih =>
    rw [farthest] at hb
    split at hb
    · next e he =>
      have hbehind := hhead e (mem_of_farthest he)
      split at hb
      · next hle =>
        cases hb
        rcases List.mem_cons.1 hc with rfl | hc
        · right
          rcases Int.lt_or_eq_of_le hle with hlt | heq
          · exact .inl hlt
          · exact .inr ⟨heq, hbehind⟩
        · exact ih he hc
      · next hnot =>
        cases hb
        rcases List.mem_cons.1 hc with rfl | hc
        · exact .inl rfl
        · right
          left
          rcases ih he hc with rfl | hlt | ⟨heq, -⟩
          · omega
          · omega
          · omega
    · next hnone =>
      cases hb
      rw [farthest_eq_none hnone, List.mem_singleton] at hc
      exact .inl hc

/-! ## Rounds -/

/-- A round of eviction: of more than `limit` batches, the farthest that may go is dropped. -/
inductive Round (limit : Nat) (row : Int) (pinned : Option Int) : Residency → Residency → Prop
  | drop {s : Residency} {b : Batch} (crowded : limit < s.size)
      (hb : farthest row (s.evictable row pinned) = some b) :
      Round limit row pinned s ⟨s.batches.filter fun c => c.first ≠ b.first⟩

theorem mem_evictable : b ∈ s.evictable row pinned ↔
    b ∈ s.batches ∧ isProtected row pinned b = false := by
  simp [evictable]

/-- A round drops one batch. -/
theorem perm_filter (h : s.Keyed) (hb : b ∈ s.batches) :
    s.batches.Perm (b :: s.batches.filter fun c => c.first ≠ b.first) := by
  obtain ⟨front, rear, hsplit⟩ := List.append_of_mem hb
  unfold Keyed at h
  rw [hsplit, List.pairwise_append] at h
  obtain ⟨-, hrear, hfront⟩ := h
  have hkeepFront : front.filter (fun c => c.first ≠ b.first) = front := by
    refine List.filter_eq_self.2 fun c hc => ?_
    have hlt := hfront c hc b List.mem_cons_self
    simp only [ne_eq, decide_not, Bool.not_eq_true', decide_eq_false_iff_not]
    omega
  have hkeepRear : rear.filter (fun c => c.first ≠ b.first) = rear := by
    refine List.filter_eq_self.2 fun c hc => ?_
    have hlt := List.rel_of_pairwise_cons hrear hc
    simp only [ne_eq, decide_not, Bool.not_eq_true', decide_eq_false_iff_not]
    omega
  rw [hsplit, List.filter_append, List.filter_cons_of_neg (by simp), hkeepFront, hkeepRear]
  exact List.perm_middle

theorem Round.eq_of_round (h : Round limit row pinned s t) (h' : Round limit row pinned s u) :
    t = u := by
  obtain ⟨-, hb⟩ := h
  obtain ⟨-, hc⟩ := h'
  rw [hb] at hc
  cases hc
  rfl

/-- What some rounds of eviction have left of a residency. -/
structure Evicted (limit : Nat) (row : Int) (pinned : Option Int) (s t : Residency) : Prop where
  sublist : t.batches.Sublist s.batches
  protects : ∀ b ∈ s.batches, isProtected row pinned b = true → b ∈ t.batches
  countP_eq : t.batches.countP (isProtected row pinned) = s.batches.countP (isProtected row pinned)
  needed : t = s ∨ limit ≤ t.size
  farthest : ∀ b ∈ s.batches, b ∉ t.batches → ∀ c ∈ t.batches, isProtected row pinned c = false →
    GoesBefore row b c

namespace Evicted

theorem refl (s : Residency) : Evicted limit row pinned s s where
  sublist := List.Sublist.refl _
  protects _ hb _ := hb
  countP_eq := rfl
  needed := .inl rfl
  farthest _ hb hgone := absurd hb hgone

theorem round (h : s.Keyed) (hst : Evicted limit row pinned s t)
    (hround : Round limit row pinned t u) : Evicted limit row pinned s u := by
  have ht := h.of_sublist hst.sublist
  cases hround with
  | @drop d hover hfar =>
    obtain ⟨hd, hloose⟩ := mem_evictable.1 (mem_of_farthest hfar)
    have hperm := perm_filter ht hd
    constructor
    · exact List.filter_sublist.trans hst.sublist
    · intro b hb hprot
      refine List.mem_filter.2 ⟨hst.protects b hb hprot, decide_eq_true fun hfirst => ?_⟩
      cases ht.eq_of_first_eq (hst.protects b hb hprot) hd hfirst
      simp [hloose] at hprot
    · rw [← hst.countP_eq, hperm.countP_eq, List.countP_cons_of_neg (by simp [hloose])]
    · have hsize : t.size = size ⟨t.batches.filter fun c => c.first ≠ d.first⟩ + 1 :=
        hperm.length_eq
      exact .inr (by omega)
    · intro b hb hgone c hc hprot
      obtain ⟨hc, hfirst⟩ := List.mem_filter.1 hc
      by_cases hbt : b ∈ t.batches
      · have hfirst' : b.first = d.first := by simpa [hbt] using hgone
        cases ht.eq_of_first_eq hbt hd hfirst'
        rcases goesBefore_of_farthest (ht.of_sublist (t := ⟨_⟩) List.filter_sublist) hfar
          (mem_evictable.2 ⟨hc, hprot⟩) with rfl | hbefore
        · simp at hfirst
        · exact hbefore
      · exact hst.farthest b hb hbt c hc hprot

theorem of_rounds (h : s.Keyed) (hrun : ReflTransGen (Round limit row pinned) s t) :
    Evicted limit row pinned s t := by
  induction hrun with
  | refl => exact refl s
  | tail _ hround ih => exact ih.round h hround

end Evicted

/-! ## All rounds -/

theorem rounds_evictFarthest (n : Nat) :
    ReflTransGen (Round limit row pinned) s (evictFarthest limit row pinned n s) := by
  induction n generalizing s with
  | zero => exact .refl
  | succ n ih =>
    rw [evictFarthest]
    split
    · exact .refl
    · next hover =>
      split
      · exact .refl
      · next b hb => exact .head (.drop (Nat.lt_of_not_le hover) hb) ih

/-- As many rounds as there are batches too many are enough. -/
theorem done_evictFarthest (n : Nat) (hn : s.size ≤ n + limit) :
    (evictFarthest limit row pinned n s).size ≤ limit ∨
      (evictFarthest limit row pinned n s).evictable row pinned = [] := by
  induction n generalizing s with
  | zero => exact .inl (by simpa [evictFarthest] using hn)
  | succ n ih =>
    rw [evictFarthest]
    split
    · next hle => exact .inl hle
    · split
      · next hnone => exact .inr (farthest_eq_none hnone)
      · next b hb =>
        refine ih ?_
        have hmem : b ∈ s.batches := (List.mem_filter.1 (mem_of_farthest hb)).1
        have hlt : (s.batches.filter fun c => c.first ≠ b.first).length < s.batches.length :=
          List.length_filter_lt_length_iff_exists.2 ⟨b, hmem, by simp⟩
        unfold size at hn ⊢
        simp only at hn ⊢
        omega

theorem not_round_of_done (h : t.size ≤ limit ∨ t.evictable row pinned = []) :
    ¬ Round limit row pinned t u := by
  rintro ⟨hover, hb⟩
  rcases h with hle | hnone
  · omega
  · rw [hnone] at hb
    cases hb

/-- However far the rounds have come, they go on to where they end. -/
theorem rounds_of_rounds (hrun : ReflTransGen (Round limit row pinned) s t)
    (hend : ∀ v, ¬ Round limit row pinned t v) (hpart : ReflTransGen (Round limit row pinned) s u) :
    ReflTransGen (Round limit row pinned) u t := by
  induction hpart with
  | refl => exact hrun
  | @tail u v _ hround ih =>
    rcases ih.cases_head with rfl | ⟨w, hw, hrest⟩
    · exact absurd hround (hend v)
    · cases hw.eq_of_round hround
      exact hrest

/-- Where the rounds end, there are as many batches as the limit says, or as many as have to stay. -/
theorem Evicted.size_eq (hst : Evicted limit row pinned s t)
    (hdone : t.size ≤ limit ∨ t.evictable row pinned = []) :
    t.size = min s.size (max limit (s.batches.countP (isProtected row pinned))) := by
  have hkept : s.batches.countP (isProtected row pinned) ≤ t.size := by
    rw [← hst.countP_eq]
    exact List.countP_le_length
  have hle : t.size ≤ s.size := hst.sublist.length_le
  have hall : t.evictable row pinned = [] → t.size = s.batches.countP (isProtected row pinned) := by
    intro hnone
    have hprot : ∀ b ∈ t.batches, isProtected row pinned b = true := by
      simpa [evictable, List.filter_eq_nil_iff] using hnone
    rw [← hst.countP_eq]
    exact (List.countP_eq_length.2 hprot).symm
  rcases hst.needed with rfl | hneeded
  · rcases hdone with hsmall | hnone
    · omega
    · have hsize := hall hnone
      omega
  · rcases hdone with hsmall | hnone
    · omega
    · have hsize := hall hnone
      omega

theorem done_evictKeeping : (s.evictKeeping limit row pinned).size ≤ max limit 1 ∨
    (s.evictKeeping limit row pinned).evictable row pinned = [] :=
  done_evictFarthest s.size (Nat.le_add_right _ _)

theorem evicted_evictKeeping (h : s.Keyed) :
    Evicted (max limit 1) row pinned s (s.evictKeeping limit row pinned) :=
  .of_rounds h (rounds_evictFarthest s.size)

/-! ## What has to stay -/

theorem isProtected_iff : isProtected row pinned b = true ↔
    b.contains row = true ∨ ∃ pin ∈ pinned, b.contains pin = true := by
  cases pinned <;> simp [isProtected]

/-- Batches in order that all have the same row are one at most. -/
theorem length_le_one_of_contains (h : l.Pairwise fun a b => a.last < b.first)
    (hrow : ∀ b ∈ l, b.contains row = true) : l.length ≤ 1 := by
  cases h with
  | nil => exact Nat.zero_le 1
  | @cons a l hhead _ =>
    cases l with
    | nil => exact Nat.le_refl 1
    | cons b l =>
      have hlt := hhead b List.mem_cons_self
      have ha := Batch.contains_iff.1 (hrow a List.mem_cons_self)
      have hb := Batch.contains_iff.1 (hrow b (by simp))
      omega

theorem countP_contains_le (h : s.Valid) (row : Int) :
    s.batches.countP (fun b => b.contains row) ≤ 1 := by
  rw [List.countP_eq_length_filter]
  exact length_le_one_of_contains (h.ordered.sublist List.filter_sublist)
    fun b hb => (List.mem_filter.1 hb).2

theorem countP_isProtected_le_add (l : List Batch) : l.countP (isProtected row pinned) ≤
    l.countP (fun b => b.contains row) + l.countP fun b => pinned.any b.contains := by
  induction l with
  | nil => exact Nat.le_refl 0
  | cons b l ih =>
    rw [List.countP_cons, List.countP_cons, List.countP_cons, isProtected]
    cases b.contains row <;> cases pinned.any b.contains <;> simp <;> omega

/-- What may not go are the batch with the row and the one with the pinned row. -/
theorem countP_isProtected_le (h : s.Valid) :
    s.batches.countP (isProtected row pinned) ≤ 1 + pinned.toList.length := by
  have hrow := countP_contains_le h row
  have hadd := @countP_isProtected_le_add row pinned s.batches
  cases pinned with
  | none =>
    simp only [Option.any_none, List.countP_false, Function.const_apply] at hadd
    omega
  | some pin =>
    have hpin := countP_contains_le h pin
    simp only [Option.any_some, Option.toList_some, List.length_singleton] at hadd ⊢
    omega

/-- **Eviction** leaves as many batches as the limit says, or the ones that have to stay. -/
theorem size_evictKeeping (h : s.Valid) :
    (s.evictKeeping limit row pinned).size ≤ max limit (1 + pinned.toList.length) := by
  have hevicted : Evicted (max limit 1) row pinned s (s.evictKeeping limit row pinned) :=
    evicted_evictKeeping h.keyed
  have hsize := hevicted.size_eq done_evictKeeping
  have hkept : s.batches.countP (isProtected row pinned) ≤ 1 + pinned.toList.length :=
    countP_isProtected_le h
  omega

/-! ## The nearest batches -/

/-- A number that a row may have. -/
def IsRowNumber (n : Int) : Prop :=
  0 ≤ n ∧ n ≤ 0x7FFFFFFFFFFFFFFF

theorem fits_distance (hrow : IsRowNumber row) (hfirst : IsRowNumber b.first)
    (hlast : IsRowNumber b.last) : fits (b.distance row) = true := by
  unfold IsRowNumber at hrow hfirst hlast
  simp only [fits, Bool.and_eq_true, decide_eq_true_eq]
  unfold Batch.distance
  split
  · omega
  · split <;> omega

/-- Of the batches of `s`, `t` has those that have to stay and the nearest of the others, `limit` in
all unless more have to stay. -/
structure KeepsNearest (limit : Nat) (row : Int) (pinned : Option Int) (s t : Residency) : Prop where
  /-- However many rounds have been made, the next ones lead to `t`. -/
  rounds : ∀ u, ReflTransGen (Round limit row pinned) s u → ReflTransGen (Round limit row pinned) u t
  ends : ∀ u, ¬ Round limit row pinned t u
  sublist : t.batches.Sublist s.batches
  protects : ∀ b ∈ s.batches, (b.contains row = true ∨ ∃ pin ∈ pinned, b.contains pin = true) →
    b ∈ t.batches
  size_eq : t.size = min s.size (max limit (s.batches.countP (isProtected row pinned)))
  unchanged : s.size ≤ limit → t = s
  farthest : ∀ b ∈ s.batches, b ∉ t.batches → ∀ c ∈ t.batches, isProtected row pinned c = false →
    GoesBefore row b c
  /-- Between the numbers that rows may have, no distance leaves the range of sixty-four bits. -/
  inRange : IsRowNumber row → (∀ b ∈ s.batches, IsRowNumber b.first ∧ IsRowNumber b.last) →
    ∀ u, ReflTransGen (Round limit row pinned) s u →
      ∀ b ∈ u.evictable row pinned, fits (b.distance row) = true

/-- However the batches at hand lie, eviction comes to an end. It leaves the batches with the row and
with the pinned row and the nearest of the others as they were, of two that are equally far the
earlier, and drops no more than it has to. -/
theorem keepsNearest_evictKeeping (h : s.Keyed) (limit : Nat) (row : Int) (pinned : Option Int) :
    KeepsNearest (max limit 1) row pinned s (s.evictKeeping limit row pinned) := by
  have hevicted : Evicted (max limit 1) row pinned s (s.evictKeeping limit row pinned) :=
    evicted_evictKeeping h
  have hends : ∀ u, ¬ Round (max limit 1) row pinned (s.evictKeeping limit row pinned) u :=
    fun u => not_round_of_done done_evictKeeping
  have hsize := hevicted.size_eq done_evictKeeping
  constructor
  · exact fun u => rounds_of_rounds (rounds_evictFarthest s.size) hends
  · exact hends
  · exact hevicted.sublist
  · exact fun b hb hprot => hevicted.protects b hb (isProtected_iff.2 hprot)
  · exact hsize
  · intro hle
    have hlength : (s.evictKeeping limit row pinned).batches.length = s.batches.length := by
      unfold size at hsize hle
      omega
    exact congrArg Residency.mk (hevicted.sublist.eq_of_length hlength)
  · exact hevicted.farthest
  · intro hrow hbatches u hu b hb
    have hmem := (Evicted.of_rounds h hu).sublist.subset (mem_evictable.1 hb).1
    exact fits_distance hrow (hbatches b hmem).1 (hbatches b hmem).2

/-- Forty rows in four batches. -/
def fourBatches : Residency :=
  ⟨[⟨1, 10, .replicate 10 [], none⟩, ⟨11, 20, .replicate 10 [], none⟩,
    ⟨21, 30, .replicate 10 [], none⟩, ⟨31, 40, .replicate 10 [], none⟩]⟩

/-- The last batch and the pinned first one stay, though one would be enough. -/
theorem keepsNearest_evictKeeping_fourBatches : fourBatches.Keyed ∧
    (fourBatches.evictKeeping 1 40 (some 5)).batches.map Batch.first = [1, 31] ∧
    KeepsNearest 1 40 (some 5) fourBatches (fourBatches.evictKeeping 1 40 (some 5)) := by
  have hkeyed : fourBatches.Keyed := by simp [Keyed, fourBatches]
  exact ⟨hkeyed, by decide +kernel, keepsNearest_evictKeeping hkeyed 1 40 (some 5)⟩

end QueryClient.Cursor.Residency
