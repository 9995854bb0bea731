import QueryClient.Proofs.Cursor.Eviction
import QueryClient.Proofs.Cursor.Progress

/-!
# What a search for a row brings

Nothing is evicted while a row is searched for, but each answer within what was asked for fills part
of the gap around the row: the batches at hand and the rows missing from the gap do not grow in
number together (`load`), so that a search brings no more batches than two fetches have rows
(`size_of_seek`).
-/

namespace QueryClient.Cursor

open Relation (ReflTransGen)
open Attempt Nav

variable {σ H α : Type} {source : BatchSource σ H} {d e : Desk σ H} {s : Residency} {b : Batch}

/-! ## Batches that come -/

namespace Residency

theorem length_place (b : Batch) (l : List Batch) : (place b l).length = l.length + 1 := by
  induction l with
  | nil => rfl
  | cons c l ih =>
    rw [place]
    split
    · rfl
    · rw [List.length_cons, List.length_cons, ih]

theorem size_insert_le : (s.insert b).size ≤ s.size + 1 := by
  have hfilter := List.length_filter_le (fun c : Batch => !c.overlaps b) s.batches
  unfold insert size
  rw [length_place]
  omega

/-- A batch of missing rows takes no place of others. -/
theorem size_insert_of_missing (h : s.Valid) (hb : b.Valid)
    (hmissing : ∀ row, b.contains row = true → s.contains row = false) :
    (s.insert b).size = s.size + 1 := by
  have hapart : s.batches.filter (fun c => !c.overlaps b) = s.batches := by
    refine List.filter_eq_self.2 fun c hc => ?_
    rw [overlaps_eq_false_of_missing h hb hmissing hc]
    rfl
  rw [size, insert, hapart, length_place]
  rfl

end Residency

/-! ## Searching for a row -/

theorem Anchored.of_stills (hs : Sound d.cursor) (ha : Anchored d.cursor)
    (hsteps : ReflTransGen (Still source) d e) (hspans : WithinSpans e.cursor.ledger) :
    Anchored e.cursor :=
  ha.of_steps hs (steps_of_strides (strides_of_stills hsteps)) hspans

theorem options_of_stills (hsteps : ReflTransGen (Still source) d e) :
    e.cursor.options = d.cursor.options :=
  options_of_steps (steps_of_strides (strides_of_stills hsteps))

/-- How many of the rows within a fetch of a row are not at hand. -/
def gap (fetch target : Int) (s : Residency) : Nat :=
  ((Finset.range (2 * fetch - 1).toNat).filter fun i : Nat =>
    s.contains (target - fetch + 1 + i) = false).card

/-- The batches at hand, and those that a search for a row may still bring. -/
def load (fetch target : Int) (s : Residency) : Nat :=
  s.size + gap fetch target s

theorem gap_le (fetch target : Int) (s : Residency) :
    gap fetch target s ≤ (2 * fetch - 1).toNat :=
  (Finset.card_filter_le ..).trans_eq (Finset.card_range _)

section Insertion

variable {fetch target : Int} (h : s.Valid) (hb : b.Valid)
  (hmissing : ∀ row, b.contains row = true → s.contains row = false)

include h hb hmissing

theorem gap_insert_subset :
    ((Finset.range (2 * fetch - 1).toNat).filter fun i : Nat =>
      (s.insert b).contains (target - fetch + 1 + i) = false) ⊆
    (Finset.range (2 * fetch - 1).toNat).filter fun i : Nat =>
      s.contains (target - fetch + 1 + i) = false := by
  intro i hrow
  rw [Finset.mem_filter] at hrow ⊢
  refine ⟨hrow.1, eq_false_of_ne_true fun hcontains => ?_⟩
  rw [contains_insert h hb hmissing hcontains] at hrow
  cases hrow.2

/-- A batch of missing rows adds one to the load at most. -/
theorem load_insert_le : load fetch target (s.insert b) ≤ load fetch target s + 1 := by
  have hsize : (s.insert b).size ≤ s.size + 1 := Residency.size_insert_le
  have hgap : gap fetch target (s.insert b) ≤ gap fetch target s :=
    Finset.card_le_card (gap_insert_subset h hb hmissing)
  unfold load
  omega

/-- A batch of missing rows near the one that is searched for fills part of the gap. -/
theorem load_insert_of_near (hlow : target - fetch < b.first) (hhigh : b.first < target + fetch) :
    load fetch target (s.insert b) ≤ load fetch target s := by
  have hsize : (s.insert b).size ≤ s.size + 1 := Residency.size_insert_le
  have hfirst : b.contains b.first = true := Batch.contains_iff.2 ⟨Int.le_refl _, hb.first_le⟩
  obtain ⟨i, hi⟩ : ∃ i : Nat, target - fetch + 1 + i = b.first :=
    ⟨(b.first - (target - fetch + 1)).toNat, by omega⟩
  have hgap : gap fetch target (s.insert b) < gap fetch target s := by
    apply Finset.card_lt_card
    refine ⟨gap_insert_subset h hb hmissing, fun hsubset => ?_⟩
    have hmem := hsubset (Finset.mem_filter.2
      ⟨Finset.mem_range.2 (by omega : i < (2 * fetch - 1).toNat), hi ▸ hmissing b.first hfirst⟩)
    have hfilled : (s.insert b).contains b.first = true :=
      (Residency.contains_iff (h.insert hb)).2 ⟨b, Residency.mem_insert.2 (.inl rfl), hfirst⟩
    rw [Finset.mem_filter, hi, hfilled] at hmem
    cases hmem.2
  unfold load
  omega

end Insertion

/-- Whether a fetch asks for rows within a fetch of a row only. -/
def Flight.Near (fetch target : Int) (flight : Flight H) : Prop :=
  target - fetch < flight.start ∧ flight.start + flight.count ≤ target + fetch

/-- Whether the outstanding fetch asks for rows near the one that is searched for, unless `extra`
makes up for it. -/
def Owes (fetch target : Int) (extra : Nat) (c : Cursor H) : Prop :=
  ∀ flight, c.flight = some flight → flight.Near fetch target ∨ 1 ≤ extra

/-- A demand for a row asks for rows near it. -/
theorem near_spanFor {c : Cursor H} (hs : Sound c) {target : Int} (htarget : 1 ≤ target)
    (heading : Heading) (call : H) :
    Flight.Near c.fetchSize target
      ⟨(spanFor target heading c).1.start, (spanFor target heading c).1.count, call⟩ := by
  obtain ⟨-, hle, hreach, -⟩ :=
    Residency.demandStart_bounds hs.rows hs.one_le_fetchSize htarget heading
  obtain ⟨-, hcount, -, -⟩ := Residency.demandCount_bounds hs.rows hs.one_le_fetchSize
    (c.rows.demandStart c.fetchSize target heading).1
  unfold Flight.Near spanFor
  rw [Residency.demandSpan_fst]
  simp only
  omega

/-- A wait adds nothing to the load that it does not owe. -/
theorem await_load (hs : Sound d.cursor) (ha : Anchored d.cursor) {fetch target : Int} {extra : Nat}
    (howes : Owes fetch target extra d.cursor) {r : Except Stop Bool}
    (hexec : exec (await source) d = (r, e)) (hspans : WithinSpans e.cursor.ledger) :
    load fetch target e.cursor.rows ≤ load fetch target d.cursor.rows + extra ∧
      (∀ progressed, r = .ok progressed → e.cursor.flight = none) := by
  cases hflight : d.cursor.flight with
  | none =>
    rw [exec_await_of_none source hflight] at hexec
    cases hexec
    exact ⟨Nat.le_add_right _ _, fun _ _ => hflight⟩
  | some flight =>
    rcases hwait : source.wait d.cursor.options.timeout flight.call d.source with
      ⟨outcome, call, t⟩
    rw [exec_await_of_some hflight hwait] at hexec
    cases hexec
    refine ⟨?_, fun progressed hr => ?_⟩
    · simp only [received_rows]
      cases hbrought : broughtBy outcome with
      | none => exact Nat.le_add_right _ _
      | some b =>
        have hb := valid_of_broughtBy hbrought
        have hle := hb.first_le
        have hwithin := hspans flight outcome call b (received_ledger ▸ List.mem_cons_self) hbrought
        have hmissing : ∀ row, b.contains row = true → d.cursor.rows.contains row = false :=
          fun row hrow => ha.missing_of_within hflight hwithin hrow
        rcases howes flight hflight with ⟨hlow, hhigh⟩ | hextra
        · have hnear : load fetch target (d.cursor.rows.insert b) ≤
              load fetch target d.cursor.rows :=
            load_insert_of_near hs.rows hb hmissing (by omega) (by omega)
          simp only
          omega
        · have hone : load fetch target (d.cursor.rows.insert b) ≤
              load fetch target d.cursor.rows + 1 := load_insert_le hs.rows hb hmissing
          simp only
          omega
    · rw [received_flight]
      cases outcome with
      | error fault => cases hr
      | ok results => rfl

/-- A fetch that is seen to changes nothing at hand. -/
theorem rows_of_fetchFor {quest : Quest H α} {stalled : Bool} {r : Except Stop Unit}
    (hexec : exec (fetchFor source quest stalled) d = (r, e)) :
    e.cursor.rows = d.cursor.rows := by
  cases hflight : d.cursor.flight with
  | some flight =>
    rw [exec_fetchFor_of_some source hflight] at hexec
    cases hexec
    rfl
  | none =>
    cases stalled with
    | true =>
      rw [exec_fetchFor_of_stalled source hflight] at hexec
      cases hexec
      rfl
    | false =>
      rw [exec_fetchFor_of_none source hflight, exec_issue] at hexec
      cases hexec
      exact requested_rows

/-- A fetch for a row owes nothing when it is new. -/
theorem owes_of_fetchFor (hs : Sound d.cursor) {quest : Quest H α} {target : Int}
    {heading : Heading} (htarget : 1 ≤ target)
    (hspan : ∀ c, quest.span c = spanFor target heading c) {extra : Nat}
    (howes : Owes d.cursor.fetchSize target extra d.cursor) {stalled : Bool}
    (hexec : exec (fetchFor source quest stalled) d = (.ok (), e)) :
    Owes d.cursor.fetchSize target extra e.cursor := by
  cases hflight : d.cursor.flight with
  | some flight =>
    rw [exec_fetchFor_of_some source hflight] at hexec
    cases hexec
    exact howes
  | none =>
    cases stalled with
    | true =>
      rw [exec_fetchFor_of_stalled source hflight] at hexec
      cases hexec
    | false =>
      rw [exec_fetchFor_of_none source hflight, exec_issue] at hexec
      obtain ⟨-, rfl⟩ := Prod.mk.inj hexec
      intro flight hflight'
      rw [requested_flight] at hflight'
      split at hflight'
      · rw [show (noted d _).cursor.flight = none from hflight] at hflight'
        cases hflight'
      · next call _ =>
        cases hflight'
        refine .inl ?_
        rw [hspan]
        exact near_spanFor hs htarget heading call

/-- **A search for a row** brings what is missing around the row at most, and what an earlier fetch
owes. -/
theorem seek_load {quest : Quest H α} (hq : quest.Lawful) {target : Int} {heading : Heading}
    (htarget : 1 ≤ target) (hspan : ∀ c, quest.span c = spanFor target heading c) {rounds : Nat}
    {stalled : Bool} (hs : Sound d.cursor) (ha : Anchored d.cursor) {fetch : Int}
    (hfetch : d.cursor.fetchSize = fetch) {extra : Nat} (howes : Owes fetch target extra d.cursor)
    {r : Except Stop α} (hexec : exec (seek source quest (pure ()) rounds stalled) d = (r, e))
    (hspans : WithinSpans e.cursor.ledger) :
    load fetch target e.cursor.rows ≤ load fetch target d.cursor.rows + extra := by
  induction rounds generalizing d stalled extra with
  | zero =>
    cases hexec
    exact Nat.le_add_right _ _
  | succ rounds ih =>
    cases hfind : quest.find d.cursor with
    | some found =>
      rw [exec_seek_of_find hfind] at hexec
      cases hexec
      exact Nat.le_add_right _ _
    | none =>
      subst hfetch
      cases round_of_seek hq (fun _ => .pure ()) (fun _ => rfl) hfind hexec with
      | unfetched hfetched =>
        rw [rows_of_fetchFor hfetched]
        exact Nat.le_add_right _ _
      | unheard hfetched hawaited hbefore =>
        have hrows := rows_of_fetchFor hfetched
        have howes₁ := owes_of_fetchFor hs htarget hspan howes hfetched
        have hsteps := Quiet.stills (.fetchFor hq hfind stalled) hfetched
        have ha₁ := ha.of_stills hs hsteps (hspans.of_suffix hbefore)
        rw [← hrows]
        exact (await_load (hs.of_stills hsteps) ha₁ howes₁ hawaited hspans).1
      | @heard _ _ d₁ d₂ _ hfetched hawaited hrest hbefore hafter =>
        have hrows := rows_of_fetchFor hfetched
        have howes₁ := owes_of_fetchFor hs htarget hspan howes hfetched
        have hsteps := Quiet.stills (.fetchFor hq hfind stalled) hfetched
        have hs₁ := hs.of_stills hsteps
        have ha₁ := ha.of_stills hs hsteps (hspans.of_suffix hbefore)
        have hspans₂ := hspans.of_suffix hafter
        obtain ⟨hload, hfree⟩ := await_load hs₁ ha₁ howes₁ hawaited hspans₂
        have hwaited : ReflTransGen (Still source) d₁ d₂ := Quiet.await.stills hawaited
        -- the answer has come, so that nothing is owed any more
        have howes₂ : Owes d.cursor.fetchSize target 0 d₂.cursor := by
          intro flight hflight
          rw [hfree _ rfl] at hflight
          cases hflight
        have hfetch₂ : d₂.cursor.fetchSize = d.cursor.fetchSize := by
          unfold fetchSize
          rw [options_of_stills (hsteps.trans hwaited)]
        have hlast := ih (hs₁.of_stills hwaited) (ha₁.of_stills hs₁ hwaited hspans₂) hfetch₂ howes₂
          hrest
        rw [hrows] at hload
        omega

/-- How many rows a fetch asks for, as a number. -/
def fetchCount (c : Cursor H) : Nat :=
  c.options.fetchSize.toNat

theorem size_of_seek {quest : Quest H α} (hq : quest.Lawful) {target : Int} {heading : Heading}
    (htarget : 1 ≤ target) (hspan : ∀ c, quest.span c = spanFor target heading c) {rounds : Nat}
    {stalled : Bool} (hs : Sound d.cursor) (ha : Anchored d.cursor) {r : Except Stop α}
    (hexec : exec (seek source quest (pure ()) rounds stalled) d = (r, e))
    (hspans : WithinSpans e.cursor.ledger) :
    e.cursor.rows.size ≤ d.cursor.rows.size + 2 * d.cursor.fetchCount := by
  have howes : Owes d.cursor.fetchSize target 1 d.cursor := fun _ _ => .inr (Nat.le_refl 1)
  have hload := seek_load hq htarget hspan hs ha rfl howes hexec hspans
  have hgap := gap_le d.cursor.fetchSize target d.cursor.rows
  have hone := hs.one_le_fetchSize
  have hcount : d.cursor.fetchSize = d.cursor.fetchCount := rfl
  unfold load at hload
  omega

end QueryClient.Cursor
