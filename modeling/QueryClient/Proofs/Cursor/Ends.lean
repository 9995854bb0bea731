import QueryClient.Proofs.Cursor.Sums

/-!
# Where fetches end

A fetch starts, at the latest, at the row that it is for or right behind rows at hand, and it is
one fetch long at most (`Sought.end_lt`). So the numbers by which its last row is found fit in
sixty-four bits as long as there is room for a fetch behind each of these: behind the rows that are
demanded, and behind the batches that come in (`EndsFit`).
-/

namespace QueryClient.Cursor

open Relation (ReflTransGen)

variable {σ H : Type} {source : BatchSource σ H} {c : Cursor H} {d e : Desk σ H} {fetch : Int}

/-- Whether there is room for a fetch behind the row that was demanded, or behind the batch that
came in. -/
def Ask.LeavesRoom (fetch : Int) : Ask H → Prop
  | .requested (.demand row) .. => row + fetch < 2 ^ 63
  | .waited _ outcome _ => ∀ b ∈ broughtBy outcome, b.last + fetch < 2 ^ 63 - 1
  | _ => True

instance (entry : Ask H) : Decidable (entry.LeavesRoom fetch) :=
  match entry with
  | .requested (.demand row) .. => inferInstanceAs (Decidable (row + fetch < 2 ^ 63))
  | .waited _ outcome _ =>
    inferInstanceAs (Decidable (∀ b ∈ broughtBy outcome, b.last + fetch < 2 ^ 63 - 1))
  | .requested .finalRow .. | .requested .ahead .. | .abandoned _ | .closed => .isTrue trivial

/-- Whether there was always room for a fetch. -/
def LeavesRoom (fetch : Int) (ledger : List (Ask H)) : Prop :=
  ∀ entry ∈ ledger, entry.LeavesRoom fetch

theorem LeavesRoom.of_suffix {before ledger : List (Ask H)} (h : LeavesRoom fetch ledger)
    (hsuffix : before <:+ ledger) : LeavesRoom fetch before :=
  fun entry hmem => h entry (hsuffix.subset hmem)

theorem fetchSize_lt (c : Cursor H) : c.fetchSize < 2 ^ 32 := by
  have hlt := c.options.fetchSize.toNat_lt
  unfold fetchSize
  omega

/-- **A fetch ends** within a fetch of the row that it is for, or of rows at hand. -/
theorem Sought.end_lt {purpose : Purpose} {span : Span} (hs : Sought c purpose span)
    (hsound : Sound c) (hroom : ∀ b ∈ c.rows.batches, b.last + c.fetchSize < 2 ^ 63 - 1)
    (hdemand : ∀ row, purpose = .demand row → row + c.fetchSize < 2 ^ 63) :
    span.start + span.count < 2 ^ 63 := by
  obtain ⟨hproper, hreach⟩ := hs.proper hsound.rows hsound.one_le_fetchSize
  have hcount := hproper.count_le
  have hwidth := fetchSize_lt c
  cases hs with
  | @demand target =>
    have hstart := (hreach target rfl).1
    have hrow := hdemand target rfl
    omega
  | finalRow =>
    unfold spanPastHighest at hcount ⊢
    cases hhigh : c.rows.highestRow with
    | none =>
      simp only [Option.getD_none]
      omega
    | some highest =>
      obtain ⟨b, hb, rfl⟩ := Residency.of_highestRow hhigh
      have hlast := hroom b hb
      simp only [Option.getD_some]
      omega
  | @ahead row _ hrow hspan =>
    unfold spanToPrefetch at hspan
    split at hspan
    · obtain ⟨b, hb, hedge⟩ := Residency.exists_contiguousEnd hsound.rows hrow
      have hlast := hroom b hb
      have hstart := Residency.spanAhead_start hspan
      omega
    · split at hspan
      · cases hspan
      · obtain ⟨b, hb, hedge⟩ := Residency.exists_contiguousStart hsound.rows hrow
        have hlast := hroom b hb
        have hfirst := (hsound.rows.batch b hb).first_le
        have hend := Residency.spanBehind_end hspan
        omega

/-- A cursor with room for a fetch behind the rows at hand, on which the fetch under way and all
that have been awaited end at a number that fits. -/
structure EndsFit (c : Cursor H) : Prop where
  sound : Sound c
  room : ∀ b ∈ c.rows.batches, b.last + c.fetchSize < 2 ^ 63 - 1
  flight : ∀ flight, c.flight = some flight → ∀ n ∈ flight.endSums, fits n = true
  awaited : ∀ flight outcome call, .waited flight outcome call ∈ c.ledger →
    ∀ n ∈ flight.endSums, fits n = true

/-- The sums fit if the row behind the fetch still has a number. -/
theorem endSums_fit {flight : Flight H} (hstart : 1 ≤ flight.start) (hcount : 1 ≤ flight.count)
    (hend : flight.start + flight.count < 2 ^ 63) : ∀ n ∈ flight.endSums, fits n = true := by
  simp only [Flight.endSums, List.forall_mem_cons, fits_iff]
  exact ⟨by omega, by omega, by simp⟩

namespace EndsFit

theorem requested (h : EndsFit c) (hfree : c.flight = none) {purpose : Purpose} {span : Span}
    (hs : Sought c purpose span) (outcome : Except Fault H)
    (hroom : LeavesRoom c.fetchSize (c.requested purpose span outcome).ledger) :
    EndsFit (c.requested purpose span outcome) where
  sound := h.sound.requested hfree hs outcome
  room := by
    simp only [fetchSize, requested_options, requested_rows]
    exact h.room
  flight flight hflight := by
    rw [requested_flight] at hflight
    cases outcome with
    | error fault => exact h.flight flight hflight
    | ok call =>
      cases hflight
      obtain ⟨hproper, -⟩ := hs.proper h.sound.rows h.sound.one_le_fetchSize
      refine endSums_fit hproper.one_le_start hproper.one_le_count ?_
      refine hs.end_lt h.sound h.room fun row hrow => ?_
      rw [requested_ledger, hrow] at hroom
      exact hroom _ List.mem_cons_self
  awaited flight outcome' call hmem := by
    rw [requested_ledger, List.mem_cons] at hmem
    rcases hmem with hmem | hmem
    · cases hmem
    · exact h.awaited flight outcome' call hmem

/-- A wait leaves the fetch under way if it times out, and otherwise none. -/
theorem of_wait (h : EndsFit c) {flight : Flight H} (hflight : c.flight = some flight)
    {outcome : Except Fault Results} {call : H}
    (hroom : ∀ b ∈ (c.received flight outcome call).2.rows.batches,
      b.last + c.fetchSize < 2 ^ 63 - 1) :
    EndsFit (c.received flight outcome call).2 where
  sound := h.sound.received hflight outcome call
  room := by
    simp only [fetchSize, received_options]
    exact hroom
  flight later hlater := by
    rw [received_flight] at hlater
    split at hlater
    · split at hlater
      · cases hlater
        exact h.flight flight hflight
      · cases hlater
    · cases hlater
  awaited waited outcome' call' hmem := by
    rw [received_ledger, List.mem_cons] at hmem
    rcases hmem with hmem | hmem
    · cases hmem
      exact h.flight flight hflight
    · exact h.awaited waited outcome' call' hmem

theorem of_step (h : EndsFit d.cursor) (hstep : Step source d e)
    (hleaves : LeavesRoom d.cursor.fetchSize e.cursor.ledger) : EndsFit e.cursor := by
  have hsound := h.sound.of_step hstep
  have hroom : ∀ b ∈ e.cursor.rows.batches, b.last + d.cursor.fetchSize < 2 ^ 63 - 1 :=
    batches_of_step hstep h.room fun flight outcome call hmem => hleaves _ hmem
  cases hstep with
  | shut =>
    refine ⟨hsound, hroom, fun flight hflight => ?_, fun flight outcome call hmem => ?_⟩
    · cases hflight
    · refine h.awaited flight outcome call ?_
      cases hflight : d.cursor.flight <;> simpa [hflight] using hmem
  | stride hstride =>
    cases hstride with
    | park => exact ⟨hsound, hroom, h.flight, h.awaited⟩
    | stand => exact ⟨hsound, hroom, h.flight, h.awaited⟩
    | still hstill =>
      cases hstill with
      | mark => exact h
      | turn => exact ⟨hsound, hroom, h.flight, h.awaited⟩
      | evictBehind => exact ⟨hsound, hroom, h.flight, h.awaited⟩
      | evictAround => exact ⟨hsound, hroom, h.flight, h.awaited⟩
      | request hfree hsought => exact h.requested hfree hsought _ hleaves
      | wait hflight => exact h.of_wait hflight hroom

/-- **Every run** that leaves room for a fetch asks for fetches whose ends fit. -/
theorem of_steps (h : EndsFit d.cursor) (hsteps : ReflTransGen (Step source) d e)
    (hroom : LeavesRoom d.cursor.fetchSize e.cursor.ledger) : EndsFit e.cursor := by
  induction hsteps with
  | refl => exact h
  | tail hsteps hstep ih =>
    refine (ih (hroom.of_suffix (ledger_of_step hstep))).of_step hstep ?_
    rwa [fetchSize, options_of_steps hsteps]

theorem of_start {options : Options} {first : Results} (hstart : start options first = .ok c)
    (hfirst : ∀ b ∈ broughtBy (.ok first), b.last + options.fetchSize.toNat < 2 ^ 63 - 1) :
    EndsFit c := by
  have hsound := Sound.of_start hstart
  obtain ⟨-, hvalid, rfl⟩ := Cursor.of_start hstart
  simp only [broughtBy, hvalid] at hfirst
  refine ⟨hsound, fun b hb => ?_, fun flight hflight => ?_, fun _ _ _ hmem => ?_⟩
  · rcases mem_extend hb with hmem | hbrought
    · cases hmem
    · exact hfirst b hbrought
  · cases hflight
  · cases hmem

end EndsFit

end QueryClient.Cursor
