import Mathlib.Control.Monad.Basic
import QueryClient.Proofs.Cursor.ForwardOnly
import QueryClient.Proofs.Cursor.Refinement

/-!
# What a cursor that only moves on keeps

Such a cursor drops batches behind the one it stands in, so that a row it has had and dropped lies
before a floor, and everything it keeps or waits for lies at the floor or beyond (`Ahead`). Standing
on a row lifts the floor to the batch with the row. It must not lift it past a fetch under way,
which would bring its rows in behind the cursor; while it never does, no row is delivered twice.
-/

namespace QueryClient.Cursor

open Relation (ReflTransGen)
open Attempt Nav

variable {σ H α : Type} {source : BatchSource σ H} {d e : Desk σ H} {first : Results}
  {floor : Int} {c : Cursor H}

/-! ## What was delivered -/

/-- The batch that came of an ask, if one did. -/
def Ask.brought? : Ask H → Option Batch
  | .waited _ outcome _ => broughtBy outcome
  | _ => none

/-- The batches that were delivered, the last one first; the first results bring one, too. -/
def deliveries (first : Results) (ledger : List (Ask H)) : List Batch :=
  ledger.filterMap Ask.brought? ++ (Batch.ofResults? first).toList

/-- Whether no row was delivered by two batches. -/
def DeliveredOnce (first : Results) (ledger : List (Ask H)) : Prop :=
  (deliveries first ledger).Pairwise fun a b => a.overlaps b = false

theorem deliveries_cons (entry : Ask H) (ledger : List (Ask H)) :
    deliveries first (entry :: ledger) = entry.brought?.toList ++ deliveries first ledger := by
  cases h : entry.brought? <;> simp [deliveries, h]

/-! ## The floor -/

/-- A cursor that keeps and waits for nothing before a row, and has dropped nothing from there on.
-/
structure Ahead (first : Results) (floor : Int) (c : Cursor H) : Prop where
  rows : ∀ b ∈ c.rows.batches, floor ≤ b.first
  flight : ∀ flight, c.flight = some flight → floor ≤ flight.start
  dropped : ∀ b ∈ deliveries first c.ledger, b ∈ c.rows.batches ∨ b.last < floor
  once : DeliveredOnce first c.ledger

namespace Ahead

theorem congr {c' : Cursor H} (h : Ahead first floor c) (hrows : c'.rows = c.rows)
    (hflight : c'.flight = c.flight) (hledger : c'.ledger = c.ledger) :
    Ahead first floor c' := by
  refine ⟨?_, ?_, ?_, ?_⟩
  · rw [hrows]
    exact h.rows
  · rw [hflight]
    exact h.flight
  · rw [hledger, hrows]
    exact h.dropped
  · rw [hledger]
    exact h.once

theorem requested (h : Ahead first floor c) {purpose : Purpose} {span : Span}
    {outcome : Except Fault H} (hstart : floor ≤ span.start) :
    Ahead first floor (c.requested purpose span outcome) := by
  refine ⟨?_, fun flight hflight => ?_, ?_, ?_⟩
  · rw [requested_rows]
    exact h.rows
  · rw [requested_flight] at hflight
    cases outcome with
    | error fault => exact h.flight flight hflight
    | ok call =>
      cases hflight
      exact hstart
  · rw [requested_ledger, requested_rows]
    exact h.dropped
  · rw [requested_ledger]
    exact h.once

/-- What comes in lies apart from everything that was ever delivered. -/
theorem received (h : Ahead first floor c) (hs : Sound c) (ha : Anchored c) {flight : Flight H}
    (hflight : c.flight = some flight) {outcome : Except Fault Results} {call : H}
    (hspans : ∀ b, broughtBy outcome = some b →
      flight.start ≤ b.first ∧ b.last ≤ flight.start + flight.count - 1) :
    Ahead first floor (c.received flight outcome call).2 := by
  have hfloor := h.flight flight hflight
  have hledger : deliveries first (c.received flight outcome call).2.ledger =
      (broughtBy outcome).toList ++ deliveries first c.ledger := by
    rw [received_ledger, deliveries_cons]
    rfl
  have hwaits : ∀ later, (c.received flight outcome call).2.flight = some later →
      floor ≤ later.start := by
    intro later hlater
    rw [received_flight] at hlater
    split at hlater
    · split at hlater
      · cases hlater
        exact hfloor
      · cases hlater
    · cases hlater
  cases hbrought : broughtBy outcome with
  | none =>
    simp only [hbrought, Option.toList_none, List.nil_append] at hledger
    have hrows : (c.received flight outcome call).2.rows = c.rows := by
      rw [received_rows, hbrought]
    refine ⟨?_, hwaits, ?_, ?_⟩
    · rw [hrows]
      exact h.rows
    · rw [hledger, hrows]
      exact h.dropped
    · rw [DeliveredOnce, hledger]
      exact h.once
  | some b =>
    have hwithin := hspans b hbrought
    have hvalid := valid_of_broughtBy hbrought
    have hmissing : ∀ row, b.contains row = true → c.rows.contains row = false :=
      fun row hrow => ha.missing_of_within hflight hwithin hrow
    have hrows : (c.received flight outcome call).2.rows = c.rows.insert b := by
      rw [received_rows, hbrought]
    simp only [hbrought, Option.toList_some, List.singleton_append] at hledger
    have hapart : ∀ a ∈ c.rows.batches, a.overlaps b = false := fun a ha =>
      Residency.overlaps_eq_false_of_missing hs.rows hvalid hmissing ha
    refine ⟨?_, hwaits, ?_, ?_⟩
    · rw [hrows]
      intro a ha
      rcases Residency.mem_insert.1 ha with rfl | ⟨ha, -⟩
      · exact Int.le_trans hfloor hwithin.1
      · exact h.rows a ha
    · rw [hledger, hrows]
      intro a ha
      rcases List.mem_cons.1 ha with rfl | ha
      · exact .inl (Residency.mem_insert.2 (.inl rfl))
      · rcases h.dropped a ha with hkept | hdropped
        · exact .inl (Residency.mem_insert.2 (.inr ⟨hkept, hapart a hkept⟩))
        · exact .inr hdropped
    · rw [DeliveredOnce, hledger]
      refine List.pairwise_cons.2 ⟨fun a ha => ?_, h.once⟩
      rw [Batch.overlaps_eq_false_iff]
      rcases h.dropped a ha with hkept | hdropped
      · have := Batch.overlaps_eq_false_iff.1 (hapart a hkept)
        omega
      · exact .inl (by omega)

/-! ## Searches -/

section Searches

variable (hs : Sound d.cursor) (ha : Anchored d.cursor) (h : Ahead first floor d.cursor)

include hs ha h

theorem await {r : Except Stop Bool} (hexec : exec (await source) d = (r, e))
    (hspans : WithinSpans e.cursor.ledger) : Ahead first floor e.cursor := by
  cases hflight : d.cursor.flight with
  | none =>
    rw [exec_await_of_none source hflight] at hexec
    cases hexec
    exact h
  | some flight =>
    rcases hwait : source.wait d.cursor.options.timeout flight.call d.source with
      ⟨outcome, call, t⟩
    rw [exec_await_of_some hflight hwait] at hexec
    cases hexec
    refine h.received hs ha hflight fun b hb => hspans flight outcome call b ?_ hb
    rw [received_ledger]
    exact List.mem_cons_self

omit hs ha in
theorem fetchFor {quest : Quest H α} (hstart : ∀ c, floor ≤ (quest.span c).1.start)
    {stalled : Bool} {r : Except Stop Unit}
    (hexec : exec (fetchFor source quest stalled) d = (r, e)) : Ahead first floor e.cursor := by
  cases hflight : d.cursor.flight with
  | some flight =>
    rw [exec_fetchFor_of_some source hflight] at hexec
    cases hexec
    exact h
  | none =>
    cases stalled with
    | true =>
      rw [exec_fetchFor_of_stalled source hflight] at hexec
      cases hexec
      exact h
    | false =>
      rw [exec_fetchFor_of_none source hflight, exec_issue] at hexec
      cases hexec
      exact h.requested (hstart d.cursor)

/-- **A search** for something at the floor or beyond asks for nothing before it. -/
theorem seek {quest : Quest H α} (hq : quest.Lawful)
    (hstart : ∀ c, floor ≤ (quest.span c).1.start) {rounds : Nat} {stalled : Bool}
    {r : Except Stop α} (hexec : exec (seek source quest (pure ()) rounds stalled) d = (r, e))
    (hspans : WithinSpans e.cursor.ledger) : Ahead first floor e.cursor := by
  induction rounds generalizing d stalled with
  | zero =>
    cases hexec
    exact h
  | succ rounds ih =>
    cases hfind : quest.find d.cursor with
    | some found =>
      rw [exec_seek_of_find hfind] at hexec
      cases hexec
      exact h
    | none =>
      have hfetch : Quiet source (Cursor.fetchFor source quest stalled) d :=
        .fetchFor hq hfind stalled
      have hsettle : ∀ d, Quiet source (Pure.pure () : Nav σ H Unit) d := fun _ => .pure ()
      cases round_of_seek hq hsettle (fun _ => rfl) hfind hexec with
      | unfetched hfetched => exact h.fetchFor hstart hfetched
      | unheard hfetched hawaited hbefore =>
        have hstills := hfetch.stills hfetched
        exact (h.fetchFor hstart hfetched).await (hs.of_stills hstills)
          (ha.of_steps hs (steps_of_strides (strides_of_stills hstills))
            (hspans.of_suffix hbefore)) hawaited hspans
      | @heard progressed _ d₁ d₂ _ hfetched hawaited hrest hbefore hafter =>
        have hstills := hfetch.stills hfetched
        have hs₁ := hs.of_stills hstills
        have ha₁ := ha.of_steps hs (steps_of_strides (strides_of_stills hstills))
          (hspans.of_suffix hbefore)
        have hwait := Quiet.await.stills hawaited
        have h₂ := (h.fetchFor hstart hfetched).await hs₁ ha₁ hawaited (hspans.of_suffix hafter)
        exact ih (hs₁.of_stills hwait) (ha₁.of_steps hs₁
          (steps_of_strides (strides_of_stills hwait)) (hspans.of_suffix hafter)) h₂ hrest

end Searches

end Ahead

/-! ## Standing on a row -/

theorem deliveries_standOn (hforward : d.cursor.isForwardOnly = true) (n : Int) :
    deliveries first (exec (standOn source n) d).2.cursor.ledger =
      deliveries first d.cursor.ledger := by
  rw [exec_standOn_eq]
  split
  · rcases (exec_prefetch source n (seated n d)).2 with hsame | ⟨span, outcome, -, -, -, hasked⟩
    · rw [hsame, seated_of_forwardOnly hforward]
    · rw [hasked, requested_ledger, deliveries_cons, seated_of_forwardOnly hforward]
      rfl
  · rw [seated_of_forwardOnly hforward]

/-- Standing on a row lifts the floor to its batch, unless that leaves a fetch behind. -/
theorem Ahead.standOn (hs : Sound d.cursor) (h : Ahead first floor d.cursor)
    (hforward : d.cursor.isForwardOnly = true) {n : Int} {b : Batch}
    (hb : b ∈ d.cursor.rows.batches) (hrow : b.contains n = true)
    (hleft : ∀ flight, (exec (standOn source n) d).2.cursor.flight = some flight →
      b.first ≤ flight.start) :
    Ahead first b.first (exec (standOn source n) d).2.cursor := by
  have hfloor := h.rows b hb
  refine ⟨fun a ha => ?_, hleft, fun a ha => ?_, ?_⟩
  · rw [rows_of_standOn hforward] at ha
    exact ((Residency.mem_evictBehind_iff hs.rows hb hrow).1 ha).2
  · rw [deliveries_standOn hforward] at ha
    rw [rows_of_standOn hforward, Residency.mem_evictBehind_iff hs.rows hb hrow]
    rcases h.dropped a ha with hkept | hdropped
    · have hle := (hs.rows.batch a hkept).first_le
      rcases hs.rows.apart hkept hb with rfl | hlt | hlt
      · exact .inl ⟨hkept, Int.le_refl _⟩
      · exact .inr hlt
      · have hble := (hs.rows.batch b hb).first_le
        exact .inl ⟨hkept, by omega⟩
    · exact .inr (by omega)
  · rw [DeliveredOnce, deliveries_standOn hforward]
    exact h.once

/-! ## Calls -/

/-- Whether a cursor stands where the floor is: on a row of the batch that starts there, or before
the first row when nothing has been dropped. -/
def StandsAt (floor : Int) (c : Cursor H) : Prop :=
  match c.position with
  | .beforeFirst => floor ≤ 1
  | .onRow n => ∃ b, c.rows.find n = some b ∧ b.first = floor
  | .afterLast => True

theorem StandsAt.le (h : StandsAt floor c) (hvalid : c.rows.Valid) {n : Int}
    (hpos : c.position = .onRow n) : floor ≤ n := by
  rw [StandsAt, hpos] at h
  obtain ⟨b, hfind, rfl⟩ := h
  exact (Batch.contains_iff.1 ((Residency.find_eq_some_iff hvalid).1 hfind).2).1

theorem StandsAt.of_stills (hs : Sound d.cursor) (ha : Anchored d.cursor)
    (h : StandsAt floor d.cursor) (hsteps : ReflTransGen (Still source) d e)
    (hspans : WithinSpans e.cursor.ledger) : StandsAt floor e.cursor := by
  rw [StandsAt, position_of_stills hsteps]
  cases hpos : d.cursor.position with
  | beforeFirst =>
    rw [StandsAt, hpos] at h
    exact h
  | afterLast => trivial
  | onRow n =>
    rw [StandsAt, hpos] at h
    obtain ⟨b, hfind, rfl⟩ := h
    exact ⟨b, find_of_stills hs ha hsteps hspans hpos hfind, rfl⟩

/-- Whether a fetch is under way for rows behind the batch in which the cursor stands. -/
def LeavesBehind (c : Cursor H) : Prop :=
  ∃ n b flight, c.position = .onRow n ∧ c.rows.find n = some b ∧ c.flight = some flight ∧
    flight.start < b.first

/-- A cursor that was delivered no row twice, and is ahead of some floor as long as it is open. -/
structure Retains (first : Results) (c : Cursor H) : Prop where
  once : DeliveredOnce first c.ledger
  ahead : c.closed = false → ∃ floor, Ahead first floor c ∧ StandsAt floor c

theorem le_start_spanFor (target : Int) (c : Cursor H) :
    target ≤ (spanFor target .forward c).1.start := by
  simp only [spanFor, Residency.demandSpan, Residency.demandStart]
  split <;> simp only <;> omega

/-- What a cursor that only moves on may move to is at hand, or not behind it. -/
theorem contains_or_le_of_reach (hforward : c.isForwardOnly = true) {target : Int}
    (hreach : ¬ isOutOfReach c target = true) :
    c.rows.contains target = true ∨ frontier c.position ≤ target := by
  by_cases hcontains : c.rows.contains target = true
  · exact .inl hcontains
  · refine .inr (Int.not_lt.1 fun hlt => hreach ?_)
    simp [isOutOfReach, hforward, hcontains, hlt]

section Moves

variable (hs : Sound d.cursor) (ha : Anchored d.cursor) (h : Ahead first floor d.cursor)
  (hforward : d.cursor.isForwardOnly = true) (hahead : StandsAt floor d.cursor)
  {target : Int} {heading : Heading} {rounds : Nat}

include hs ha h hforward hahead

theorem Ahead.seekRow (htarget : 1 ≤ target) (hreach : ¬ isOutOfReach d.cursor target = true)
    (hheading : heading = .forward ∧ d.cursor.position ≠ .afterLast ∨
      target < frontier d.cursor.position) {found : Except Stop Bool}
    (hexec : exec (Cursor.seek source (.row target heading) (pure ()) rounds false)
      (d.turn heading) = (found, e))
    (hspans : WithinSpans e.cursor.ledger) : Ahead first floor e.cursor := by
  have hturned : Ahead first floor (d.turn heading).cursor := h.congr rfl rfl rfl
  by_cases hcontains : d.cursor.rows.contains target = true
  · cases rounds with
    | zero =>
      cases hexec
      exact hturned
    | succ rounds =>
      have hfind : (Quest.row target heading : Quest H Bool).find (d.turn heading).cursor =
          some ((d.cursor.rows.rowAt target).map fun _ => true) := by
        simp only [Quest.row, findRow, Desk.turn, hcontains, if_true]
      rw [exec_seek_of_find hfind] at hexec
      cases hexec
      exact hturned
  · have hle := (contains_or_le_of_reach hforward hreach).resolve_left hcontains
    obtain ⟨rfl, hpos⟩ := hheading.resolve_right (Int.not_lt.2 hle)
    have hstart : floor ≤ target := by
      cases hwhere : d.cursor.position with
      | beforeFirst =>
        rw [StandsAt, hwhere] at hahead
        exact Int.le_trans hahead htarget
      | onRow n =>
        have hbelow := hahead.le hs.rows hwhere
        rw [hwhere] at hle
        exact Int.le_trans hbelow hle
      | afterLast => exact absurd hwhere hpos
    have hstep : Still source d (d.turn .forward) := .turn d .forward
    have hturn : Quiet source (Cursor.seek source (.row target .forward) (pure ()) rounds false)
        (d.turn .forward) := .seekRow htarget ..
    have hbefore := hspans.of_suffix (ledger_of_stills (hturn.stills hexec))
    exact hturned.seek (hs.of_still hstep) (ha.of_still hs hstep hbefore)
      (Quest.row_lawful htarget .forward)
      (fun c => Int.le_trans hstart (le_start_spanFor target c)) hexec hspans

/-- **A move to a row** keeps a cursor ahead of some floor, unless it leaves a fetch behind. -/
theorem Ahead.moveTo {r : Except Stop Bool}
    (hheading : heading = .forward ∧ d.cursor.position ≠ .afterLast ∨
      target < frontier d.cursor.position)
    (hexec : exec (moveTo source rounds target heading) d = (r, e))
    (hspans : WithinSpans e.cursor.ledger) (hbehind : ¬ LeavesBehind e.cursor) :
    ∃ floor, Ahead first floor e.cursor ∧ StandsAt floor e.cursor := by
  rw [exec_moveTo] at hexec
  split at hexec
  · cases hexec
    exact ⟨floor, h, hahead⟩
  next hreach =>
  split at hexec
  · next htarget =>
    cases hexec
    refine ⟨floor, h.congr rfl rfl rfl, ?_⟩
    rcases contains_or_le_of_reach hforward hreach with hcontains | hle
    · have := Residency.one_le_of_contains hs.rows hcontains
      omega
    · cases hwhere : d.cursor.position with
      | beforeFirst =>
        rw [StandsAt, hwhere] at hahead
        exact hahead
      | onRow n =>
        have hone := hs.one_le_row n hwhere
        rw [hwhere, frontier] at hle
        omega
      | afterLast =>
        rw [hwhere, frontier] at hle
        omega
  next htarget =>
  have htarget := Int.not_lt.1 htarget
  have hquiet : Quiet source (Cursor.seek source (.row target heading) (pure ()) rounds false)
      (d.turn heading) := .seekRow htarget ..
  rcases hseek : exec (Cursor.seek source (.row target heading) (pure ()) rounds false)
    (d.turn heading) with ⟨found, e₁⟩
  have hstills := (ReflTransGen.single (Still.turn d heading)).trans (hquiet.stills hseek)
  rw [hseek] at hexec
  rcases found with stop | _ | _
  · cases hexec
    exact ⟨floor, h.seekRow hs ha hforward hahead htarget hreach hheading hseek hspans,
      hahead.of_stills hs ha hstills hspans⟩
  · cases hexec
    have hsought := h.seekRow hs ha hforward hahead htarget hreach hheading hseek hspans
    exact ⟨floor, hsought.congr rfl rfl rfl, trivial⟩
  · obtain ⟨-, rfl⟩ := Prod.mk.inj hexec
    have hs₁ := hs.of_stills hstills
    obtain ⟨cells, hrow⟩ := of_findRow_true (find_of_exec_seek hseek)
    have hcontains := contains_of_rowAt hrow
    have hstand : ReflTransGen (Still source) _ _ := standOn_stills hs₁.rows hcontains
    have hledger : e₁.cursor.ledger <:+ _ :=
      ledger_of_stills (d := e₁.place (.onRow target)) hstand
    have hsought := h.seekRow hs ha hforward hahead htarget hreach hheading hseek
      (hspans.of_suffix hledger)
    have hforward₁ : e₁.cursor.isForwardOnly = true := by
      rw [isForwardOnly, options_of_steps (steps_of_strides (strides_of_stills hstills))]
      exact hforward
    obtain ⟨b, hb, hin⟩ := (Residency.contains_iff hs₁.rows).1 hcontains
    have hpos := position_of_stills hstand
    have hfind : (exec (Cursor.standOn source target) e₁).2.cursor.rows.find target = some b :=
      find_of_standOn hs₁.rows hforward₁ hb hin
    refine ⟨b.first, hsought.standOn hs₁ hforward₁ hb hin fun flight hflight => ?_, ?_⟩
    · exact Int.not_lt.1 fun hlt => hbehind ⟨target, b, flight, hpos, hfind, hflight, hlt⟩
    · rw [StandsAt, hpos]
      exact ⟨b, hfind, rfl⟩

end Moves

/-- **A look** for a row that is not behind the cursor keeps it ahead of the floor. -/
theorem Ahead.hasRow (hs : Sound d.cursor) (ha : Anchored d.cursor)
    (h : Ahead first floor d.cursor) (hahead : StandsAt floor d.cursor) {row : Int}
    (hrow : d.cursor.position = .beforeFirst ∧ row = 1 ∨ d.cursor.position = .onRow (row - 1))
    {rounds : Nat} {r : Except Stop Bool}
    (hexec : exec (Cursor.hasRow source rounds row) d = (r, e))
    (hspans : WithinSpans e.cursor.ledger) :
    Ahead first floor e.cursor ∧ StandsAt floor e.cursor := by
  obtain ⟨hone, hstart⟩ : 1 ≤ row ∧ floor ≤ row := by
    rcases hrow with ⟨hpos, rfl⟩ | hpos
    · rw [StandsAt, hpos] at hahead
      exact ⟨Int.le_refl 1, hahead⟩
    · have hone := hs.one_le_row _ hpos
      have hbelow := hahead.le hs.rows hpos
      omega
  have hquiet : Quiet source (Cursor.hasRow source rounds row) d := .hasRow hone rounds
  exact ⟨h.seek hs ha (Quest.existence_lawful hone)
    (fun c => Int.le_trans hstart (le_start_spanFor row c)) hexec hspans,
    hahead.of_stills hs ha (hquiet.stills hexec) hspans⟩

namespace Retains

section Calls

variable (hs : Sound d.cursor) (ha : Anchored d.cursor) (h : Retains first d.cursor)
  (hspans : WithinSpans e.cursor.ledger) {rounds : Nat}

theorem of_ahead {c : Cursor H}
    (h : ∃ floor, Ahead first floor c ∧ StandsAt floor c) : Retains first c := by
  obtain ⟨floor, hfloor, hahead⟩ := h
  exact ⟨hfloor.once, fun _ => ⟨floor, hfloor, hahead⟩⟩

include hs ha h hspans

theorem move (hforward : d.cursor.isForwardOnly = true) {m : Move}
    (hsmall : ∀ t, m.target d.cursor.finalRow d.cursor.position = some t → t < 2 ^ 62)
    {r : Except Stop Bool} (hexec : exec (m.perform source rounds) d = (r, e))
    (hbehind : ¬ LeavesBehind e.cursor) : Retains first e.cursor := by
  cases Course.perform hs hforward hsmall hexec with
  | stays => exact h
  | @looks _ before _ _ _ hopen _ hrow hlooked hsame =>
    obtain ⟨floor, hfloor, hahead⟩ := h.ahead hopen
    rw [← hsame] at hs ha hfloor hahead hrow
    exact of_ahead ⟨floor, hfloor.hasRow hs ha hahead hrow hlooked hspans⟩
  | @goes _ _ before _ _ hopen hheading hwent hsame =>
    obtain ⟨floor, hfloor, hahead⟩ := h.ahead hopen
    rw [← hsame] at hs ha hfloor hahead hheading hforward
    exact of_ahead (hfloor.moveTo hs ha hforward hahead hheading hwent hspans hbehind)

end Calls

theorem close (h : Retains first d.cursor) :
    Retains first (exec (close source) d).2.cursor := by
  cases hopen : d.cursor.closed with
  | true =>
    rw [exec_close_of_closed source hopen]
    exact h
  | false =>
    have hledger : deliveries first (exec (Cursor.close source) d).2.cursor.ledger =
        deliveries first d.cursor.ledger := by
      rw [exec_close_of_opened source hopen]
      cases d.cursor.flight <;> rfl
    refine ⟨?_, fun hclosed => ?_⟩
    · rw [DeliveredOnce, hledger]
      exact h.once
    · rw [exec_close_of_opened source hopen] at hclosed
      cases hclosed

/-- A new cursor keeps the batch it starts with, and its floor is the first row. -/
theorem of_start {options : Options} (hstart : Cursor.start options first = .ok c) :
    Retains first c := by
  have hsound : Sound c := .of_start hstart
  obtain ⟨-, -, rfl⟩ := Cursor.of_start hstart
  have hrows : ∀ b ∈ (Batch.ofResults? first).toList,
      b ∈ ((blank options : Cursor H).extend first).rows.batches := by
    intro b hb
    simp only [extend, Option.mem_toList.1 hb]
    exact Residency.mem_insert.2 (.inl rfl)
  refine of_ahead ⟨1, ⟨fun b hb => (hsound.rows.batch b hb).one_le, fun flight hflight => ?_,
    fun b hb => .inl (hrows b hb), ?_⟩, Int.le_refl 1⟩
  · cases hflight
  · rw [DeliveredOnce, deliveries]
    cases Batch.ofResults? first with
    | none => exact .nil
    | some b => exact List.pairwise_singleton ..

end Retains

variable (source) in
/-- One call takes the first desk to the second, goes to no row out of range and leaves no fetch
behind. -/
def CalledTidily (d e : Desk σ H) : Prop :=
  ∃ (rounds : Nat) (call : Call), e = (exec (call.perform source rounds) d).2 ∧
    (∀ m t, call = .move m → m.target d.cursor.finalRow d.cursor.position = some t → t < 2 ^ 62) ∧
    ¬ LeavesBehind e.cursor

namespace Retains

/-- **Every call** on a cursor that only moves on keeps it ahead, unless it leaves a fetch behind.
-/
theorem called (hs : Sound d.cursor) (ha : Anchored d.cursor)
    (hforward : d.cursor.isForwardOnly = true) (h : Retains first d.cursor)
    (hcalled : CalledTidily source d e) (hspans : WithinSpans e.cursor.ledger) :
    Retains first e.cursor := by
  obtain ⟨rounds, call, rfl, hsmall, hbehind⟩ := hcalled
  cases call with
  | move m =>
    simp only [Call.perform, exec_map] at hspans hbehind ⊢
    exact h.move hs ha hspans hforward (fun t => hsmall m t rfl) rfl hbehind
  | beforeFirst =>
    obtain ⟨stop, hrefused⟩ := refused_of_forwardOnly hforward "before_first()" fun _ =>
      update fun c => { c with position := .beforeFirst, heading := .forward }
    have hsame : exec Cursor.beforeFirst d = (.error stop, d) := hrefused
    simp only [Call.perform, exec_bind_pure, hsame]
    exact h
  | afterLast =>
    obtain ⟨stop, hrefused⟩ := refused_of_forwardOnly hforward "after_last()" fun _ =>
      update fun c => { c with position := .afterLast, heading := .backward }
    have hsame : exec Cursor.afterLast d = (.error stop, d) := hrefused
    simp only [Call.perform, exec_bind_pure, hsame]
    exact h
  | close =>
    simp only [Call.perform, exec_bind_pure]
    exact h.close

end Retains

variable (source) in
/-- What can be reached from a new cursor by calls that leave no fetch behind. -/
def ReachableTidily (options : Options) (first : Results) (s : σ) (d : Desk σ H) : Prop :=
  ∃ c, Cursor.start options first = .ok c ∧
    ReflTransGen (CalledTidily source) ⟨c, s, false⟩ d

theorem ReachableTidily.reachable {options : Options} {s : σ}
    (h : ReachableTidily source options first s d) : Reachable source options first s d := by
  obtain ⟨c, hstart, hcalls⟩ := h
  exact ⟨c, hstart, hcalls.lift id fun _ _ ⟨rounds, call, he, _⟩ => ⟨rounds, call, he⟩⟩

/-- **Every run** that leaves no fetch behind keeps the cursor ahead. -/
theorem ReachableTidily.retains {options : Options} {s : σ}
    (hforward : options.cursorType = .forwardOnly) (h : ReachableTidily source options first s d)
    (hspans : WithinSpans d.cursor.ledger) : Retains first d.cursor := by
  obtain ⟨c, hstart, hcalls⟩ := h
  induction hcalls with
  | refl => exact .of_start hstart
  | @tail mid last hbefore hcalled ih =>
    have hreach : Reachable source options first s mid :=
      ReachableTidily.reachable ⟨c, hstart, hbefore⟩
    obtain ⟨rounds, call, rfl, -⟩ := id hcalled
    have hsteps : ReflTransGen (Step source) mid _ := call_steps hreach.sound rounds call
    have hmid := hspans.of_suffix (ledger_of_steps hsteps)
    have htype : mid.cursor.isForwardOnly = true := by
      simp [isForwardOnly, hreach.options_eq, hforward]
    exact (ih hmid).called hreach.sound (.of_reachable hreach hmid) htype hcalled hspans

/-- Whether nothing at hand starts before the batch with the current row. -/
def KeepsAhead (c : Cursor H) : Prop :=
  ∀ n, c.position = .onRow n → ∃ b, c.rows.find n = some b ∧ ∀ a ∈ c.rows.batches, b.first ≤ a.first

/-- **What a cursor that only moves on keeps.** As long as no call leaves a fetch behind, no row is
delivered twice and nothing is kept behind the batch with the current row. Whatever was called
before, nothing is kept behind it after a move that came to stand on a row, and a move back gets
there or raises the failure in the row's place when the row is at hand, and is refused without
changing anything when it is not. -/
theorem forward_only_retains {options : Options} {s : σ}
    (hforward : options.cursorType = .forwardOnly) (h : Reachable source options first s d) :
    (ReachableTidily source options first s d → WithinSpans d.cursor.ledger →
      DeliveredOnce first d.cursor.ledger ∧ (d.cursor.closed = false → KeepsAhead d.cursor)) ∧
    (∀ (m : Move) rounds e, m ∉ [.isLast, .isBeforeFirst, .relative 0] →
      (∀ t, m.target d.cursor.finalRow d.cursor.position = some t → t < 2 ^ 62) →
      exec (m.perform source rounds) d = (.ok true, e) →
      (∃ n, e.cursor.position = .onRow n) ∧ KeepsAhead e.cursor) ∧
    ∀ (m : Move) rounds t, d.cursor.closed = false →
      m.target d.cursor.finalRow d.cursor.position = some t → -2 ^ 62 < t → t < 2 ^ 62 →
      Behind t d.cursor.position →
      (d.cursor.rows.find t = none → exec (m.perform source rounds) d =
        (.error (.fault (.illegalNavigation (.rowGone t))), d)) ∧
      ∀ b, d.cursor.rows.find t = some b → 1 ≤ rounds →
        (∀ failure, b.failure = some failure → ∃ heading, exec (m.perform source rounds) d =
          (.error (.fault (.remote failure)), d.turn heading)) ∧
        (b.failure = none → (exec (m.perform source rounds) d).1 = .ok true ∧
          (exec (m.perform source rounds) d).2.cursor.position = .onRow t) := by
  have htype : d.cursor.isForwardOnly = true := by
    simp [isForwardOnly, h.options_eq, hforward]
  refine ⟨fun htidy hspans => ?_, fun m rounds e hm hsmall hexec => ?_,
    fun m rounds t hopen htarget hlow hhigh hbehind =>
      exec_of_target_behind h.sound htype hopen htarget hlow hhigh hbehind⟩
  · have hretains := htidy.retains hforward hspans
    refine ⟨hretains.once, fun hopen n hpos => ?_⟩
    obtain ⟨floor, hfloor, hstands⟩ := hretains.ahead hopen
    rw [StandsAt, hpos] at hstands
    obtain ⟨b, hfind, rfl⟩ := hstands
    exact ⟨b, hfind, hfloor.rows⟩
  · simp only [List.mem_cons, List.not_mem_nil, or_false, not_or] at hm
    cases Course.perform h.sound htype hsmall hexec with
    | stays htrue => exact absurd (htrue rfl) hm.2.2
    | looks _ hlooks => exact absurd hlooks (not_or.2 ⟨hm.1, hm.2.1⟩)
    | goes _ _ hwent hsame =>
      have hs := h.sound
      rw [← hsame] at hs htype
      obtain ⟨hpos, b, hfind, hahead⟩ := ahead_of_moveTo hs htype hwent
      refine ⟨⟨_, hpos⟩, fun n hn => ?_⟩
      rw [hpos] at hn
      cases hn
      exact ⟨b, hfind, hahead⟩

/-- Two rows per fetch, moving on only. -/
def Options.forwardInPairs : Options :=
  { Options.inPairs with cursorType := .forwardOnly, prefetch := false }

/-- A new cursor on the prompt source that only moves on, with the first two rows. -/
def Script.forwardDesk : Desk Script (List (Except Fault Results)) where
  cursor := (blank .forwardInPairs).extend (Engine.tableBatch 5 1 2)
  source := .prompt
  overflowed := false

/-- A cursor that has jumped from the first row to the fourth does not go back to the second. -/
theorem forward_only_retains_jump : ∃ d : Desk Script (List (Except Fault Results)),
    ReachableTidily Script.source .forwardInPairs (Engine.tableBatch 5 1 2) .prompt d ∧
      DeliveredOnce (Engine.tableBatch 5 1 2) d.cursor.ledger ∧ KeepsAhead d.cursor ∧
      exec (Move.perform Script.source 5 (.absolute 2)) d =
        (.error (.fault (.illegalNavigation (.rowGone 2))), d) := by
  have hnext : CalledTidily Script.source Script.forwardDesk
      (afterCalls Script.source [(5, .move .next)] Script.forwardDesk) := by
    refine ⟨5, .move .next, rfl, fun m t hm ht => ?_, ?_⟩
    · cases hm
      cases ht
      decide
    · rintro ⟨_, _, _, -, -, hflight, -⟩
      cases hflight
  have hjump : CalledTidily Script.source
      (afterCalls Script.source [(5, .move .next)] Script.forwardDesk)
      (afterCalls Script.source [(5, .move .next), (5, .move (.absolute 4))]
        Script.forwardDesk) := by
    refine ⟨5, .move (.absolute 4), rfl, fun m t hm ht => ?_, ?_⟩
    · cases hm
      cases ht
      decide
    · have hlanded : (afterCalls Script.source [(5, .move .next), (5, .move (.absolute 4))]
          Script.forwardDesk).cursor.flight.isNone = true := by decide +kernel
      rintro ⟨_, _, _, -, -, hflight, -⟩
      rw [hflight] at hlanded
      cases hlanded
  have hspans : WithinSpans (afterCalls Script.source
      [(5, .move .next), (5, .move (.absolute 4))] Script.forwardDesk).cursor.ledger := by
    decide +kernel
  obtain ⟨hopen, hpos, hgone⟩ : let c := (afterCalls Script.source
      [(5, .move .next), (5, .move (.absolute 4))] Script.forwardDesk).cursor
      c.closed = false ∧ c.position = .onRow 4 ∧ c.rows.find 2 = none := by
    decide +kernel
  generalize afterCalls Script.source [(5, .move .next), (5, .move (.absolute 4))]
    Script.forwardDesk = d at hjump hspans hopen hpos hgone
  have htidy : ReachableTidily Script.source .forwardInPairs (Engine.tableBatch 5 1 2) .prompt d :=
    ⟨Script.forwardDesk.cursor, rfl, (ReflTransGen.single hnext).tail hjump⟩
  obtain ⟨htidied, -, hback⟩ := forward_only_retains rfl htidy.reachable
  obtain ⟨honce, hkeeps⟩ := htidied htidy hspans
  have hbehind : Behind 2 d.cursor.position := by
    rw [hpos]
    show (2 : Int) < 4
    decide
  exact ⟨d, htidy, honce, hkeeps hopen,
    (hback (.absolute 2) 5 2 hopen rfl (by decide) (by decide) hbehind).1 hgone⟩

/-- A scripted source of five rows whose first four fetches are each late once. -/
def Script.tardy : Script where
  total := 5
  fetches := List.replicate 4 (.accepted [.fault (.timeout "fetch" (.seconds 1)), .table])
  closeFault := none
  log := []

/-- A new cursor on the tardy source that only moves on, with the first row. -/
def Script.tardyDesk : Desk Script (List (Except Fault Results)) where
  cursor := (blank { Options.forwardInPairs with fetchSize := 1 }).extend (Engine.tableBatch 5 1 1)
  source := .tardy
  overflowed := false

/-- Moves on past fetches that are late, up to where the late batches have come in. -/
def Script.overtaking : List (Nat × Call) :=
  [.next, .absolute 4, .absolute 3, .absolute 2, .absolute 4, .next].map fun m => (5, .move m)

/-- The second row comes in while the cursor stands on the fourth. It is kept behind the cursor when
the next move to where it stands already succeeds, the cursor can go back to it, and from there
moves on to the third row, which it was delivered before. -/
theorem late_row_kept_behind :
    let d := afterCalls Script.source Script.overtaking Script.tardyDesk
    let r := exec (Move.perform Script.source 5 (.relative 0)) d
    let e := afterCalls Script.source [(5, .move (.absolute 2)), (5, .move .next)] r.2
    r.1 = .ok true ∧ r.2.cursor.position = .onRow 4 ∧ ¬ KeepsAhead r.2.cursor ∧
      WithinSpans e.cursor.ledger ∧ ¬ DeliveredOnce (Engine.tableBatch 5 1 1) e.cursor.ledger := by
  intro d r e
  refine ⟨by decide +kernel, by decide +kernel, fun hkeeps => ?_, by decide +kernel, ?_⟩
  · obtain ⟨b, hfind, hahead⟩ := hkeeps 4 (by decide +kernel)
    have hfirst : (r.2.cursor.rows.find 4).map Batch.first = some 4 := by decide +kernel
    rw [hfind] at hfirst
    obtain ⟨a, ha, hlate⟩ : ∃ a ∈ r.2.cursor.rows.batches, a.first = 2 := by decide +kernel
    have hle := hahead a ha
    rw [hlate, Option.some.inj hfirst] at hle
    exact absurd hle (by decide)
  · rw [DeliveredOnce]
    decide +kernel

end QueryClient.Cursor
