import QueryClient.Proofs.Cursor.Endless
import QueryClient.Proofs.Cursor.Errands
import QueryClient.Proofs.Cursor.Load

/-!
# Answers that stray

A fetch on demand asks for rows around the one that is searched for. An answer that brings any of
them leaves less room for the next fetch (`room_insert_lt`); one that brings none of them strays,
and may widen the room again, as it drives out the batches that it overlaps. A move to a row
therefore comes to an answer, or finds that its source has no more to say, once it has awaited two
fetches' worth of rows for each answer that strayed, and once more
(`waits_bounded_by_strays`). Over a source whose answers always stray it goes on for ever
(`move_endless`).
-/

namespace QueryClient.Cursor

open Relation (ReflTransGen)
open Attempt Nav

variable {σ H : Type} {source : BatchSource σ H} {d e : Desk σ H} {rounds : Nat}
  {asked : List (Ask H)} {target : Int} {heading : Heading}

/-! ## The room around a row -/

namespace Residency

variable {s : Residency} {b : Batch} {fetch : Int}

/-- How many rows a fetch on demand for a row may still ask for: back to where the rows at hand
before it end, and ahead to where those behind it start. -/
def room (s : Residency) (fetch target : Int) : Int :=
  target - (s.demandStart fetch target .backward).1 + (s.demandCount fetch target).1

theorem room_bounds (h : s.Valid) (hfetch : 1 ≤ fetch) (htarget : 1 ≤ target) :
    1 ≤ s.room fetch target ∧ s.room fetch target < 2 * fetch := by
  obtain ⟨-, hle, hreach, -⟩ := demandStart_bounds h hfetch htarget .backward
  obtain ⟨hone, hcount, -, -⟩ := demandCount_bounds h hfetch target
  unfold room
  omega

/-- A demand of a cursor that moves back starts as early as any may. -/
theorem demandStart_backward_le {start : Int} (hone : 1 ≤ start) (hreach : target < start + fetch)
    (hbehind : ∀ b ∈ s.batches, b.last < target → b.last < start) :
    (s.demandStart fetch target .backward).1 ≤ start := by
  cases hprev : s.prevEndBefore target with
  | some prev =>
    obtain ⟨b, hb, rfl, hlt⟩ := of_prevEndBefore hprev
    have := hbehind b hb hlt
    simp only [demandStart, hprev]
    omega
  | none =>
    simp only [demandStart, hprev]
    omega

/-- What ends before a batch that comes in stays at hand. -/
theorem mem_insert_of_last_lt {c : Batch} (hc : c ∈ s.batches) (hlt : c.last < b.first) :
    c ∈ (s.insert b).batches :=
  mem_insert.2 (.inr ⟨hc, Batch.overlaps_eq_false_iff.2 (.inr hlt)⟩)

/-- What starts behind a batch that comes in stays at hand. -/
theorem mem_insert_of_lt_first {c : Batch} (hc : c ∈ s.batches) (hlt : b.last < c.first) :
    c ∈ (s.insert b).batches :=
  mem_insert.2 (.inr ⟨hc, Batch.overlaps_eq_false_iff.2 (.inl hlt)⟩)

/-- **An answer that brings rows that were asked for**, but not the one that is searched for, leaves
less room. -/
theorem room_insert_lt (heading : Heading) (h : s.Valid) (hb : b.Valid) (hfetch : 1 ≤ fetch)
    (htarget : 1 ≤ target)
    (hother : b.contains target = false)
    (hstart : (s.demandSpan fetch target heading).1.start ≤ b.last)
    (hlast : b.first ≤ (s.demandSpan fetch target heading).1.last) :
    (s.insert b).room fetch target < s.room fetch target := by
  have hinsert := h.insert hb
  have hbatch := hb.first_le
  have hnew : b ∈ (s.insert b).batches := mem_insert.2 (.inl rfl)
  rw [demandSpan_fst] at hstart hlast
  obtain ⟨hone, hle, hreach, hbehind⟩ := demandStart_bounds h hfetch htarget heading
  obtain ⟨-, -, -, hback⟩ := demandStart_bounds h hfetch htarget .backward
  obtain ⟨hone', -, hreach', hbehind'⟩ := demandStart_bounds hinsert hfetch htarget .backward
  obtain ⟨-, hcount, hahead, -⟩ :=
    demandCount_bounds h hfetch (s.demandStart fetch target heading).1
  obtain ⟨-, -, -, hfar⟩ := demandCount_bounds h hfetch target
  obtain ⟨-, hcount', hahead', -⟩ := demandCount_bounds hinsert hfetch target
  have hearly := demandStart_backward_le hone hreach hbehind
  simp only [Span.last] at hstart hlast
  unfold room
  rw [← Bool.not_eq_true, Batch.contains_iff] at hother
  by_cases hside : b.first ≤ target
  · -- the batch ends before the row: the next fetch reaches back less far
    have hbefore : b.last < target := by omega
    have hshort := hbehind' b hnew hbefore
    have hsame := hfar (target + ((s.insert b).demandCount fetch target).1 - 1) (by omega)
      fun c hc hlt => by
        have := hahead' c (mem_insert_of_lt_first hc (by omega)) hlt
        omega
    omega
  · -- the batch starts behind the row: the next fetch reaches ahead less far
    have hshort := hahead' b hnew (by omega)
    have hsame := demandStart_backward_le hone' hreach' fun c hc hlt =>
      hbehind' c (mem_insert_of_last_lt hc (by omega)) hlt
    have hmore := hfar b.first (by omega) fun c hc hlt => by
      have := hahead c hc (by omega)
      omega
    omega

end Residency

/-! ## Answers -/

/-- Whether a fetch was granted, or answered with results that agree with themselves and have not
failed. -/
def Ask.Obliges : Ask H → Prop
  | .requested _ _ _ _ outcome => ∃ call, outcome = .ok call
  | .waited _ outcome _ =>
    ∃ results, outcome = .ok results ∧ results.validate = .ok () ∧ results.exception = none
  | _ => True

instance (entry : Ask H) : Decidable entry.Obliges :=
  match entry with
  | .requested _ _ _ _ outcome =>
    decidable_of_iff (outcome.toOption.isSome = true)
      (by cases outcome <;> simp [Ask.Obliges, Except.toOption])
  | .waited _ outcome _ =>
    decidable_of_iff ((outcome.toOption.any fun results =>
        decide (results.validate = .ok () ∧ results.exception = none)) = true)
      (by cases outcome <;> simp [Ask.Obliges, Except.toOption])
  | .abandoned _ | .closed => .isTrue trivial

/-- Whether an answer brings none of the rows that it was asked for. -/
def Ask.isStray : Ask H → Bool
  | .waited flight outcome _ =>
    match broughtBy outcome with
    | some b => b.last < flight.start || flight.start + flight.count ≤ b.first
    | none => true
  | _ => false

theorem Ask.Obliges.fault?_eq_none {entry : Ask H} (h : entry.Obliges) : entry.fault? = none := by
  cases entry with
  | requested =>
    obtain ⟨call, rfl⟩ := h
    rfl
  | waited =>
    obtain ⟨results, rfl, -⟩ := h
    rfl
  | _ => rfl

theorem countP_isStray_of_no_wait (h : asked.countP Ask.isWait = 0) :
    asked.countP Ask.isStray = 0 := by
  rw [List.countP_eq_zero] at h ⊢
  intro entry hmem hstray
  cases entry with
  | waited => exact h _ hmem rfl
  | _ => cases hstray

theorem failure_of_broughtBy {results : Results} (hplain : results.exception = none) {b : Batch}
    (hb : broughtBy (.ok results) = some b) : b.failure = none := by
  unfold broughtBy at hb
  simp only at hb
  split at hb
  · unfold Batch.ofResults? at hb
    rw [hplain] at hb
    split at hb
    · cases hb
    · next heq => cases heq
    · cases hb
      rfl
  · cases hb

/-- What a wait for an answer that obliges does: it brings nothing, or rows. -/
theorem await_obliged {flight : Flight H} (hflight : d.cursor.flight = some flight)
    {r : Except Stop Bool} (hexec : exec (await source) d = (r, e)) :
    ∃ outcome call, e.cursor.ledger = .waited flight outcome call :: d.cursor.ledger ∧
      ((Ask.waited flight outcome call).Obliges →
        (∃ progressed, r = .ok progressed) ∧ e.cursor.flight = none ∧
          e.cursor.rows = match broughtBy outcome with
            | some b => d.cursor.rows.insert b
            | none => d.cursor.rows) := by
  rcases hwait : source.wait d.cursor.options.timeout flight.call d.source with ⟨outcome, call, t⟩
  rw [exec_await_of_some hflight hwait] at hexec
  obtain ⟨hr, rfl⟩ := Prod.mk.inj hexec
  refine ⟨outcome, call, received_ledger, fun hobliges => ?_⟩
  obtain ⟨results, rfl, hvalid, -⟩ := hobliges
  refine ⟨⟨d.cursor.isNewTo results, ?_⟩, by rw [received_flight], received_rows⟩
  rw [← hr]
  simp only [received, absorb, hvalid]
  rfl

/-! ## Searches -/

/-- A search that is over once a row is at hand, and asks for that row. -/
structure Quest.Seeks (quest : Quest H Bool) (target : Int) (heading : Heading) : Prop where
  lawful : quest.Lawful
  span : ∀ c, quest.span c = spanFor target heading c
  missing : quest.missing = .noRowsFor target
  lacks : ∀ c, quest.find c = none → c.rows.contains target = false
  fails : ∀ c fault, quest.find c = some (.error fault) →
    c.rows.contains target = true ∧ c.rows.rowAt target = .error fault

theorem Quest.row_seeks (htarget : 1 ≤ target) (heading : Heading) :
    (Quest.row target heading : Quest H Bool).Seeks target heading where
  lawful := Quest.row_lawful htarget heading
  span _ := rfl
  missing := rfl
  lacks c hfind := by
    simp only [Quest.row, findRow] at hfind
    split at hfind
    · cases hfind
    · next hmissing => exact eq_false_of_ne_true hmissing
  fails c fault hfind := by
    refine ⟨?_, rowAt_of_find_row hfind⟩
    simp only [Quest.row, findRow] at hfind
    split at hfind
    · assumption
    · split at hfind <;> cases hfind

theorem Quest.existence_seeks (htarget : 1 ≤ target) :
    (Quest.existence target : Quest H Bool).Seeks target .forward where
  lawful := Quest.existence_lawful htarget
  span _ := rfl
  missing := rfl
  lacks c hfind := by
    simp only [Quest.existence, existsRow] at hfind
    split at hfind
    · cases hfind
    · next hmissing => exact eq_false_of_ne_true hmissing
  fails c fault hfind := absurd hfind (find_existence_ne_error target c fault)

/-- A row that comes in where it was missing has not failed. -/
theorem rowAt_insert_of_missing {s : Residency} {b : Batch} (h : s.Valid) (hb : b.Valid)
    (hplain : b.failure = none) (hmissing : s.contains target = false)
    (hcontains : (s.insert b).contains target = true) :
    ∃ cells, (s.insert b).rowAt target = .ok cells := by
  obtain ⟨c, hc, hrow⟩ := (Residency.contains_iff (h.insert hb)).1 hcontains
  have hfind := (Residency.find_eq_some_iff (h.insert hb)).2 ⟨hc, hrow⟩
  rcases Residency.mem_insert.1 hc with rfl | ⟨hold, -⟩
  · obtain ⟨cells, hcells⟩ := hb.exists_row hplain hrow
    exact ⟨cells, by rw [Residency.rowAt, hfind]; exact hcells⟩
  · rw [(Residency.contains_eq_false_iff h).1 hmissing c hold] at hrow
    cases hrow

section Round

variable {quest : Quest H Bool} (hq : quest.Seeks target heading) {r : Except Stop Bool}

include hq

/-- An answer that obliges leaves nothing at hand that makes a search fail. -/
theorem find_ne_error_of_obliged {c c' : Cursor H} {flight : Flight H}
    {outcome : Except Fault Results} {call : H} (hs : Sound c) (hfind : quest.find c = none)
    (hobliges : (Ask.waited flight outcome call).Obliges)
    (hrows : c'.rows = match broughtBy outcome with
      | some b => c.rows.insert b
      | none => c.rows) (fault : Fault) : quest.find c' ≠ some (.error fault) := by
  intro hfound
  have hmissing := hq.lacks c hfind
  obtain ⟨hcontains, hrow⟩ := hq.fails c' fault hfound
  obtain ⟨results, rfl, -, hplain⟩ := hobliges
  rw [hrows] at hcontains hrow
  cases hbrought : broughtBy (.ok results) with
  | none =>
    rw [hbrought] at hcontains
    exact absurd hcontains (by simp [hmissing])
  | some b =>
    rw [hbrought] at hcontains hrow
    obtain ⟨cells, hcells⟩ := rowAt_insert_of_missing hs.rows (valid_of_broughtBy hbrought)
      (failure_of_broughtBy hplain hbrought) hmissing hcontains
    rw [hcells] at hrow
    cases hrow

/-- **One round** over a source that obliges: an answer is awaited, and the search goes on. -/
theorem round_of_obliging (hfind : quest.find d.cursor = none)
    (hexec : exec (seek source quest (pure ()) (rounds + 1) false) d = (r, e))
    (hledger : e.cursor.ledger = asked ++ d.cursor.ledger)
    (hobliges : ∀ entry ∈ asked, entry.Obliges) :
    ∃ flight outcome call later before d' progressed,
      asked = later ++ .waited flight outcome call :: before ∧ before.countP Ask.isWait = 0 ∧
      (d.cursor.flight = none → ⟨flight.start, flight.count⟩ = (quest.span d.cursor).1) ∧
      (d'.cursor.rows = match broughtBy outcome with
        | some b => d.cursor.rows.insert b
        | none => d.cursor.rows) ∧
      ReflTransGen (Still source) d d' ∧ d'.cursor.flight = none ∧
      exec (seek source quest (pure ()) rounds (!progressed)) d' = (r, e) ∧
      e.cursor.ledger = later ++ d'.cursor.ledger := by
  have hquiet : Quiet source (fetchFor source quest false) d := .fetchFor hq.lawful hfind false
  cases round_of_seek hq.lawful (fun _ => .pure ()) (fun _ => rfl) hfind hexec with
  | unfetched hfetched =>
    obtain ⟨before, h₁, -, -, hgranted⟩ := fetchFor_asks hfetched
    obtain rfl := List.append_cancel_right (h₁.symm.trans hledger)
    cases (hgranted fun entry hmem => (hobliges entry hmem).fault?_eq_none).1
  | unheard hfetched hawaited hbefore =>
    obtain ⟨before, h₁, -, -, hgranted⟩ := fetchFor_asks hfetched
    obtain ⟨later, rfl, -⟩ := asked_of_suffix hbefore h₁ hledger
    obtain ⟨-, flight, hflight, -⟩ := hgranted fun entry hmem =>
      (hobliges entry (by simp [hmem])).fault?_eq_none
    obtain ⟨outcome, call, h₂, hanswered⟩ := await_obliged hflight hawaited
    rw [h₁, ← List.cons_append] at h₂
    have hsame := List.append_cancel_right (hledger.symm.trans h₂)
    obtain ⟨⟨progressed, hr⟩, -⟩ := hanswered (hobliges _ (by simp [hsame]))
    cases hr
  | @heard progressed _ _ d' _ hfetched hawaited hrest hbefore hafter =>
    obtain ⟨before, h₁, hnone, -, hgranted⟩ := fetchFor_asks hfetched
    obtain ⟨between, rfl, -⟩ := asked_of_suffix hbefore h₁ hledger
    obtain ⟨-, flight, hflight, hspan⟩ := hgranted fun entry hmem =>
      (hobliges entry (by simp [hmem])).fault?_eq_none
    obtain ⟨outcome, call, h₂, hanswered⟩ := await_obliged hflight hawaited
    rw [h₁, ← List.cons_append] at h₂
    obtain ⟨later, hsame, hlater⟩ := asked_of_suffix hafter h₂ hledger
    rw [hsame] at hobliges
    obtain ⟨-, hlanded, hrows⟩ := hanswered (hobliges _ (by simp))
    rw [rows_of_fetchFor hfetched] at hrows
    exact ⟨flight, outcome, call, later, before, d', progressed, hsame, hnone, hspan, hrows,
      (hquiet.stills hfetched).trans (Quiet.await.stills hawaited), hlanded, hrest, hlater⟩

end Round

/-! ## All rounds -/

/-- How many answers a search may await that has nothing outstanding. -/
def allowance (fetch target : Int) (s : Residency) (strays : Nat) : Int :=
  s.room fetch target + strays * (2 * fetch)

theorem allowance_nonneg {c : Cursor H} (hs : Sound c) (htarget : 1 ≤ target) {fetch : Int}
    (hfetch : c.fetchSize = fetch) (strays : Nat) : 0 ≤ allowance fetch target c.rows strays := by
  have hone := hfetch ▸ hs.one_le_fetchSize
  have hroom := (Residency.room_bounds hs.rows hone htarget).1
  have hfetched : 0 ≤ (strays : Int) * (2 * fetch) := Int.mul_nonneg (by omega) (by omega)
  unfold allowance
  omega

theorem allowance_lt {c : Cursor H} (hs : Sound c) (htarget : 1 ≤ target) (strays : Nat) :
    allowance c.fetchSize target c.rows strays < ((strays + 1) * (2 * c.fetchCount) : Nat) := by
  have hroom := (Residency.room_bounds hs.rows hs.one_le_fetchSize htarget).2
  have hcount : c.fetchSize = c.fetchCount := rfl
  unfold allowance
  rw [Nat.add_mul]
  push_cast
  rw [← hcount]
  omega

/-- What a search comes to: it awaits so many answers at most, and all its rounds unless it ends
before; it fails because its source has no more to say, or with what was at hand. -/
structure Searched (quest : Quest H Bool) (rounds : Nat) (stalled : Bool) (limit : Int)
    (c : Cursor H) (asked : List (Ask H)) (r : Except Stop Bool) : Prop where
  waits : (asked.countP Ask.isWait : Int) ≤ limit
  full : r = .error .outOfRounds → asked.countP Ask.isWait = rounds
  fault : ∀ fault, r = .error (.fault fault) → fault = .protocol quest.missing ∨
    asked = [] ∧ quest.find c = some (.error fault)
  nothing : stalled = true ∨ quest.find c ≠ none → asked = []

theorem countP_isWait_of_round {flight : Flight H} {outcome : Except Fault Results} {call : H}
    {later before : List (Ask H)} (hbefore : before.countP Ask.isWait = 0) :
    (later ++ .waited flight outcome call :: before).countP Ask.isWait =
      later.countP Ask.isWait + 1 := by
  rw [List.countP_append, List.countP_cons_of_pos rfl, hbefore]

theorem countP_isStray_of_round {flight : Flight H} {outcome : Except Fault Results} {call : H}
    {later before : List (Ask H)} (hbefore : before.countP Ask.isWait = 0) :
    (later ++ .waited flight outcome call :: before).countP Ask.isStray =
      later.countP Ask.isStray + if (Ask.waited flight outcome call).isStray then 1 else 0 := by
  rw [List.countP_append, List.countP_cons, countP_isStray_of_no_wait hbefore, Nat.zero_add]

/-- What a move comes to that may go so many rounds: it awaits two fetches' worth of answers for
each that strayed, and once more; all its rounds unless it ends before; and when it fails it has
asked for nothing, or its source has no more to say. -/
structure Settled (rounds fetch : Nat) (asked : List (Ask H)) (r : Except Stop Bool) : Prop where
  waits : asked.countP Ask.isWait ≤ (asked.countP Ask.isStray + 1) * (2 * fetch)
  full : r = .error .outOfRounds → asked.countP Ask.isWait = rounds
  fault : ∀ fault, r = .error (.fault fault) →
    asked = [] ∨ ∃ row, fault = .protocol (.noRowsFor row)

/-- What is asked for ahead of demand, once a move has got there, awaits nothing. -/
theorem Settled.append {fetch : Nat} {ahead : List (Ask H)} {r : Except Stop Bool}
    (h : Settled rounds fetch asked r) (hahead : ∀ entry ∈ ahead, entry.IsAhead ∧ r = .ok true) :
    Settled rounds fetch (ahead ++ asked) r := by
  have hwaits : ahead.countP Ask.isWait = 0 := by
    refine List.countP_eq_zero.2 fun entry hmem => ?_
    obtain ⟨start, count, atHand, outcome, rfl⟩ := (hahead entry hmem).1
    exact Bool.false_ne_true
  have hstrays := countP_isStray_of_no_wait hwaits
  refine ⟨?_, fun hr => ?_, fun fault hr => ?_⟩
  · rw [List.countP_append, List.countP_append, hwaits, hstrays, Nat.zero_add, Nat.zero_add]
    exact h.waits
  · rw [List.countP_append, hwaits, Nat.zero_add]
    exact h.full hr
  · obtain rfl : ahead = [] := List.eq_nil_iff_forall_not_mem.2 fun entry hmem => by
      rw [(hahead entry hmem).2] at hr
      cases hr
    exact h.fault fault hr

section Search

variable {quest : Quest H Bool} (hq : quest.Seeks target heading) (htarget : 1 ≤ target)
  {stalled : Bool} {fetch : Int} {r : Except Stop Bool}

include hq htarget

/-- The answer to a demand strays, or leaves less room, or ends the search. -/
theorem allowance_of_round {c c' : Cursor H} {flight : Flight H} {outcome : Except Fault Results}
    {call : H} {later before : List (Ask H)} (hs : Sound c) (hfetch : c.fetchSize = fetch)
    (hspan : ⟨flight.start, flight.count⟩ = (quest.span c).1)
    (hrows : c'.rows = match broughtBy outcome with
      | some b => c.rows.insert b
      | none => c.rows)
    (hbefore : before.countP Ask.isWait = 0)
    (hrest : Searched quest rounds stalled (allowance fetch target c'.rows
      (later.countP Ask.isStray)) c' later r) :
    ((later ++ .waited flight outcome call :: before).countP Ask.isWait : Int) ≤
      allowance fetch target c.rows
        ((later ++ .waited flight outcome call :: before).countP Ask.isStray) := by
  have hone := hs.one_le_fetchSize
  rw [hfetch] at hone
  obtain ⟨hroom, -⟩ := Residency.room_bounds hs.rows hone htarget
  have hvalid : c'.rows.Valid := by
    rw [hrows]
    split
    · next b hbrought => exact hs.rows.insert (valid_of_broughtBy hbrought)
    · exact hs.rows
  have hwidest := (Residency.room_bounds hvalid hone htarget).2
  have hlater := hrest.waits
  rw [countP_isWait_of_round hbefore, countP_isStray_of_round hbefore]
  unfold allowance at hlater ⊢
  by_cases hstray : (Ask.waited flight outcome call).isStray = true
  · rw [if_pos hstray, Int.natCast_add, Int.natCast_add, Int.add_mul]
    omega
  simp only [if_neg hstray, Nat.add_zero, Int.natCast_add]
  simp only [Ask.isStray] at hstray
  cases hbrought : broughtBy outcome with
  | none => exact absurd (by rw [hbrought]) hstray
  | some b =>
    rw [hbrought] at hstray hrows
    simp only [Bool.or_eq_true, decide_eq_true_eq, not_or] at hstray
    have hb := valid_of_broughtBy hbrought
    cases hcontains : b.contains target with
    | true =>
      have hfound : quest.find c' ≠ none := by
        intro hnone
        have hlacks := hq.lacks c' hnone
        rw [hrows, Residency.contains_eq_false_iff (hs.rows.insert hb)] at hlacks
        rw [hlacks b (Residency.mem_insert.2 (.inl rfl))] at hcontains
        cases hcontains
      rw [hrest.nothing (.inr hfound)]
      simpa using hroom
    | false =>
      rw [hq.span, spanFor, hfetch] at hspan
      have hless := Residency.room_insert_lt heading hs.rows hb hone htarget hcontains
        (by rw [← hspan]; simp only; omega) (by rw [← hspan, Span.last]; simp only; omega)
      rw [show c'.rows = c.rows.insert b from hrows] at hlater
      omega

/-- **A search with nothing outstanding** awaits what the room around its row allows. -/
theorem searched_of_seek (hs : Sound d.cursor) (hfetch : d.cursor.fetchSize = fetch)
    (hfree : d.cursor.flight = none)
    (hexec : exec (seek source quest (pure ()) rounds stalled) d = (r, e))
    (hledger : e.cursor.ledger = asked ++ d.cursor.ledger)
    (hobliges : ∀ entry ∈ asked, entry.Obliges) :
    Searched quest rounds stalled (allowance fetch target d.cursor.rows
      (asked.countP Ask.isStray)) d.cursor asked r := by
  induction rounds generalizing d stalled asked with
  | zero =>
    cases hexec
    obtain rfl := List.self_eq_append_left.1 hledger
    exact ⟨allowance_nonneg hs htarget hfetch _, fun _ => rfl, fun _ hr => (by cases hr),
      fun _ => rfl⟩
  | succ rounds ih =>
    cases hfind : quest.find d.cursor with
    | some found =>
      rw [exec_seek_of_find hfind] at hexec
      cases hexec
      obtain rfl := List.self_eq_append_left.1 hledger
      refine ⟨allowance_nonneg hs htarget hfetch _, fun hr => ?_, fun fault hr => .inr ⟨rfl, ?_⟩,
        fun _ => rfl⟩
      · cases found <;> cases hr
      · cases found with
        | ok a => cases hr
        | error fault =>
          cases hr
          exact hfind
    | none =>
      cases stalled with
      | true =>
        rw [seek, exec_bind_ok (exec_cursor d)] at hexec
        simp only [hfind] at hexec
        rw [exec_bind_error (exec_fetchFor_of_stalled source hfree)] at hexec
        cases hexec
        obtain rfl := List.self_eq_append_left.1 hledger
        refine ⟨allowance_nonneg hs htarget hfetch _, fun hr => (by cases hr), fun fault hr => ?_,
          fun _ => rfl⟩
        cases hr
        exact .inl rfl
      | false =>
        obtain ⟨flight, outcome, call, later, before, d', progressed, rfl, hbefore, hspan, hrows,
          hsteps, hlanded, hexec', hledger'⟩ := round_of_obliging hq hfind hexec hledger hobliges
        have hanswer := hobliges (.waited flight outcome call) (by simp)
        have hfetch' : d'.cursor.fetchSize = fetch := by
          rw [← hfetch, fetchSize, fetchSize, options_of_stills hsteps]
        have hrest := ih (hs.of_stills hsteps) hfetch' hlanded hexec' hledger'
          fun entry hmem => hobliges entry (by simp [hmem])
        refine ⟨allowance_of_round hq htarget hs hfetch (hspan hfree) hrows hbefore hrest,
          fun hr => ?_, fun fault hr => ?_, by simp [hfind]⟩
        · rw [countP_isWait_of_round hbefore, hrest.full hr]
        · rcases hrest.fault fault hr with hmissing | ⟨-, hfound⟩
          · exact .inl hmissing
          · exact absurd hfound (find_ne_error_of_obliged hq hs hfind hanswer hrows fault)

/-- **A search**, whatever is outstanding when it starts. -/
theorem settled_of_seek (hs : Sound d.cursor)
    (hexec : exec (seek source quest (pure ()) rounds false) d = (r, e))
    (hledger : e.cursor.ledger = asked ++ d.cursor.ledger)
    (hobliges : ∀ entry ∈ asked, entry.Obliges) :
    Settled rounds d.cursor.fetchCount asked r := by
  cases hflight : d.cursor.flight with
  | none =>
    have hsearched := searched_of_seek hq htarget hs rfl hflight hexec hledger hobliges
    have hlimit := allowance_lt hs htarget (asked.countP Ask.isStray)
    have hwaits := hsearched.waits
    refine ⟨by omega, hsearched.full, fun fault hr => ?_⟩
    rcases hsearched.fault fault hr with rfl | ⟨hnothing, -⟩
    · exact .inr ⟨target, by rw [hq.missing]⟩
    · exact .inl hnothing
  | some outstanding =>
    cases rounds with
    | zero =>
      cases hexec
      obtain rfl := List.self_eq_append_left.1 hledger
      exact ⟨Nat.zero_le _, fun _ => rfl, fun _ hr => (by cases hr)⟩
    | succ rounds =>
      cases hfind : quest.find d.cursor with
      | some found =>
        rw [exec_seek_of_find hfind] at hexec
        cases hexec
        obtain rfl := List.self_eq_append_left.1 hledger
        refine ⟨Nat.zero_le _, fun hr => ?_, fun _ _ => .inl rfl⟩
        cases found <;> cases hr
      | none =>
        obtain ⟨flight, outcome, call, later, before, d', progressed, rfl, hbefore, -, hrows,
          hsteps, hlanded, hexec', hledger'⟩ := round_of_obliging hq hfind hexec hledger hobliges
        have hs' := hs.of_stills hsteps
        have hcount : d'.cursor.fetchCount = d.cursor.fetchCount := by
          rw [fetchCount, fetchCount, options_of_stills hsteps]
        have hanswer := hobliges (.waited flight outcome call) (by simp)
        have hrest := searched_of_seek hq htarget hs' rfl hlanded hexec' hledger'
          fun entry hmem => hobliges entry (by simp [hmem])
        have hlimit := allowance_lt hs' htarget (later.countP Ask.isStray)
        have hwaits := hrest.waits
        have hmore := Nat.mul_le_mul_right (2 * d.cursor.fetchCount)
          (Nat.add_le_add_right (Nat.le_add_right (later.countP Ask.isStray)
            (if (Ask.waited flight outcome call).isStray then 1 else 0)) 1)
        rw [hcount] at hlimit
        refine ⟨?_, fun hr => ?_, fun fault hr => ?_⟩
        · rw [countP_isWait_of_round hbefore, countP_isStray_of_round hbefore]
          omega
        · rw [countP_isWait_of_round hbefore, hrest.full hr]
        · rcases hrest.fault fault hr with rfl | ⟨-, hfound⟩
          · exact .inr ⟨target, by rw [hq.missing]⟩
          · exact absurd hfound (find_ne_error_of_obliged hq hs hfind hanswer hrows fault)

end Search

/-! ## Moves -/

/-- An attempt that settles, as long as what it asks for is obliged. -/
def Settles (rounds : Nat) (m : Nav σ H Bool) (d : Desk σ H) : Prop :=
  ∀ asked r e, exec m d = (r, e) → e.cursor.ledger = asked ++ d.cursor.ledger →
    (∀ entry ∈ asked, entry.Obliges) → Settled rounds d.cursor.fetchCount asked r

namespace Settles

variable {α : Type} {m : Nav σ H Bool} {f : α → Nav σ H Bool}

/-- What asks for nothing and comes to an end settles. -/
theorem of_nothing {r : Except Stop Bool} (hexec : exec m d = (r, e))
    (hledger : e.cursor.ledger = d.cursor.ledger) (hr : r ≠ .error .outOfRounds) :
    Settles rounds m d := by
  intro asked r' e' hexec' hledger' _
  rw [hexec] at hexec'
  cases hexec'
  obtain rfl := List.self_eq_append_left.1 (hledger.symm.trans hledger')
  exact ⟨Nat.zero_le _, fun hout => absurd hout hr, fun _ _ => .inl rfl⟩

protected theorem pure (answer : Bool) : Settles rounds (pure answer) d :=
  of_nothing (exec_pure answer d) rfl nofun

protected theorem fail (fault : Fault) : Settles rounds (fail fault) d :=
  of_nothing (exec_fail fault d) rfl nofun

theorem bind {a : α} {m : Nav σ H α} (hexec : exec m d = (.ok a, d))
    (hf : Settles rounds (f a) d) : Settles rounds (m >>= f) d := by
  intro asked r e hexec'
  rw [exec_bind_ok hexec] at hexec'
  exact hf asked r e hexec'

theorem bind_error {m : Nav σ H α} {fault : Fault}
    (hexec : exec m d = (.error (.fault fault), d)) : Settles rounds (m >>= f) d :=
  of_nothing (exec_bind_error hexec) rfl nofun

theorem ofExcept_bind {outcome : Except Fault α} (hf : ∀ a, Settles rounds (f a) d) :
    Settles rounds (ofExcept outcome >>= f) d := by
  cases outcome with
  | ok a => exact bind (exec_ofExcept _ d) (hf a)
  | error fault => exact bind_error (exec_ofExcept _ d)

theorem sum_bind {a b : Int} {f : Int → Nav σ H Bool}
    (hf : Settles rounds (f (a + b)) (noted d [a + b])) :
    Settles rounds (sum a b >>= f) d := by
  intro asked r e hexec
  rw [exec_bind_ok (exec_sum a b d)] at hexec
  exact hf asked r e hexec

theorem ensureScrollable_bind {operation : String} {f : Unit → Nav σ H Bool}
    (hf : Settles rounds (f ()) d) : Settles rounds (ensureScrollable operation >>= f) d := by
  by_cases hforward : d.cursor.isForwardOnly = true
  · exact bind_error (exec_ensureScrollable_of_forwardOnly hforward operation)
  · exact bind (exec_ensureScrollable_of_not_forwardOnly hforward operation) hf

/-- Whatever is made of its answer, what settles settles. -/
theorem map {g : Bool → Bool} (h : Settles rounds m d) :
    Settles rounds (m >>= fun answer => pure (g answer)) d := by
  intro asked r e hexec hledger hobliges
  rw [exec_bind_pure] at hexec
  obtain ⟨hr, rfl⟩ := Prod.mk.inj hexec
  have hsettled := h asked (exec m d).1 (exec m d).2 rfl hledger hobliges
  refine ⟨hsettled.waits, fun hout => hsettled.full ?_, fun fault hfault => hsettled.fault fault ?_⟩
  all_goals
    subst hr
    cases hm : (exec m d).1 with
    | ok answer => simp_all [Except.map]
    | error stop => simp_all [Except.map]

section Sound

variable (hs : Sound d.cursor)

include hs

theorem moveTo : Settles rounds (moveTo source rounds target heading) d := by
  have hexec := exec_moveTo source rounds target heading d
  by_cases hreach : isOutOfReach d.cursor target = true
  · rw [if_pos hreach] at hexec
    exact of_nothing hexec rfl nofun
  by_cases htarget : target < 1
  · rw [if_neg hreach, if_pos htarget] at hexec
    exact of_nothing hexec rfl nofun
  intro asked r e hexec hledger hobliges
  have hone := Int.not_lt.1 htarget
  obtain ⟨found, ahead, hseek, hahead, hends, -⟩ :=
    seek_of_moveTo hs hone (eq_false_of_ne_true hreach) hexec
  have hturn : Still source d (d.turn heading) := .turn d heading
  have hquiet : Quiet source (seek source (.row target heading) (pure ()) rounds false)
      (d.turn heading) := .seekRow hone ..
  obtain ⟨sought, hsought⟩ := ledger_of_stills (hquiet.stills hseek)
  obtain rfl : asked = ahead ++ sought := by
    rw [hahead, ← hsought, ← List.append_assoc] at hledger
    exact (List.append_cancel_right hledger).symm
  have hsettled := settled_of_seek (Quest.row_seeks hone heading) hone (hs.of_still hturn) hseek
    hsought.symm fun entry hmem => hobliges entry (List.mem_append_right _ hmem)
  exact hsettled.append hends

theorem hasRow {row : Int} (hrow : 1 ≤ row) : Settles rounds (hasRow source rounds row) d :=
  fun _ _ _ hexec hledger hobliges =>
    settled_of_seek (Quest.existence_seeks hrow) hrow hs hexec hledger hobliges

theorem next : Settles rounds (next source rounds) d := by
  unfold Cursor.next
  refine bind (exec_cursor d) (ofExcept_bind fun _ => ?_)
  split
  · exact moveTo hs
  · exact sum_bind (moveTo (d := noted d _) hs)
  · exact .pure false

theorem previous (hpos : d.cursor.position ≠ .afterLast) :
    Settles rounds (previous source rounds) d := by
  unfold Cursor.previous
  refine bind (exec_cursor d) (ofExcept_bind fun _ => ?_)
  split
  · exact .pure false
  · exact sum_bind (moveTo (d := noted d _) hs)
  · next hafter => exact absurd hafter hpos

theorem absolute {row : Int} (hrow : 0 ≤ row) : Settles rounds (absolute source rounds row) d := by
  unfold Cursor.absolute
  refine bind (exec_cursor d) (ofExcept_bind fun _ => ?_)
  split
  · exact .fail _
  · rw [if_neg (by omega)]
    exact bind (exec_cursor d) (moveTo hs)

theorem relative (delta : Int) : Settles rounds (relative source rounds delta) d := by
  unfold Cursor.relative
  refine bind (exec_cursor d) (ofExcept_bind fun _ => ?_)
  split
  · split
    · exact ofExcept_bind fun _ => .pure true
    · exact moveTo hs
  · exact .fail _

theorem first : Settles rounds (first source rounds) d := by
  unfold Cursor.first
  refine bind (exec_cursor d) (ofExcept_bind fun _ => ensureScrollable_bind ?_)
  exact absolute hs (by decide)

theorem isLast : Settles rounds (isLast source rounds) d := by
  unfold Cursor.isLast
  refine bind (exec_cursor d) (ofExcept_bind fun _ => ?_)
  split
  · next n hpos =>
    have hone := hs.one_le_row n hpos
    exact sum_bind (map (hasRow (d := noted d _) hs (by omega)))
  · exact .pure false

theorem isBeforeFirst : Settles rounds (isBeforeFirst source rounds) d := by
  unfold Cursor.isBeforeFirst
  refine bind (exec_cursor d) (ofExcept_bind fun _ => ?_)
  split
  · exact hasRow hs (Int.le_refl 1)
  · exact .pure false

end Sound

end Settles

/-- **Every move** that need not know the final row settles. -/
theorem Settles.perform (hs : Sound d.cursor) {m : Move}
    (hm : ¬ m.SearchesEnd d.cursor.position) : Settles rounds (m.perform source rounds) d := by
  cases m with
  | next => exact next hs
  | previous => exact previous hs hm
  | absolute row => exact absolute hs (Int.not_lt.1 hm)
  | relative delta => exact relative hs delta
  | first => exact first hs
  | last => exact absurd trivial hm
  | isLast => exact isLast hs
  | isBeforeFirst => exact isBeforeFirst hs

/-- **Only answers that stray keep a move going.** While its source grants every fetch and answers
it with results that agree with themselves and have not failed, a move that need not know the final
row awaits at most two fetches' worth of answers for each answer that strayed, and once more. With
more rounds than that it returns: with an answer, with the fault that the server has no rows for
the one it needs, or without having asked for anything. -/
theorem waits_bounded_by_strays {options : Options} {first : Results} {s : σ} {m : Move}
    (h : Reachable source options first s d) (hm : ¬ m.SearchesEnd d.cursor.position)
    {r : Except Stop Bool} (hexec : exec (m.perform source rounds) d = (r, e))
    (hledger : e.cursor.ledger = asked ++ d.cursor.ledger)
    (hobliges : ∀ entry ∈ asked, entry.Obliges) :
    let bound := (asked.countP Ask.isStray + 1) * (2 * options.fetchSize.toNat)
    asked.countP Ask.isWait ≤ bound ∧
      (bound < rounds → (∃ answer, r = .ok answer) ∨
        ∃ fault, r = .error (.fault fault) ∧
          (asked = [] ∨ ∃ row, fault = .protocol (.noRowsFor row))) := by
  have hsettled := Settles.perform h.sound hm asked r e hexec hledger hobliges
  have hwaits := hsettled.waits
  have hcount : d.cursor.fetchCount = options.fetchSize.toNat := by
    rw [fetchCount, h.options_eq]
  rw [hcount] at hwaits
  refine ⟨hwaits, fun hrounds => ?_⟩
  rcases r with (fault | _) | answer
  · exact .inr ⟨fault, rfl, hsettled.fault fault rfl⟩
  · have hfull := hsettled.full rfl
    omega
  · exact .inl ⟨answer, rfl⟩

/-- A scripted source of five rows that answers its first fetch with the first row, whatever it was
asked for. -/
def Script.straying : Script where
  total := 5
  fetches := [.accepted [.results (Engine.tableBatch 5 1 1)]]
  closeFault := none
  log := []

/-- A new cursor on the straying source, with the first two rows. -/
def Script.strayingDesk : Desk Script (List (Except Fault Results)) where
  cursor := (blank .inPairs).extend (Engine.tableBatch 5 1 2)
  source := .straying
  overflowed := false

/-- One answer strays, so that eight answers are awaited at most, and nine rounds do. -/
theorem waits_bounded_by_strays_once :
    let run := exec (Move.perform Script.source 9 (.absolute 4)) Script.strayingDesk
    run.2.cursor.ledger.countP Ask.isStray = 1 ∧ run.2.cursor.ledger.countP Ask.isWait ≤ 8 ∧
      ((∃ answer, run.1 = .ok answer) ∨ ∃ fault, run.1 = .error (.fault fault) ∧
        (run.2.cursor.ledger = [] ∨ ∃ row, fault = .protocol (.noRowsFor row))) := by
  have hreach : Reachable Script.source .inPairs (Engine.tableBatch 5 1 2) .straying
      Script.strayingDesk := .start rfl
  have hobliges : ∀ entry ∈ (exec (Move.perform Script.source 9 (.absolute 4))
      Script.strayingDesk).2.cursor.ledger, entry.Obliges := by decide +kernel
  have hstrays : (exec (Move.perform Script.source 9 (.absolute 4))
      Script.strayingDesk).2.cursor.ledger.countP Ask.isStray = 1 := by decide +kernel
  have hcounts : ¬ (Move.absolute 4).SearchesEnd Script.strayingDesk.cursor.position :=
    Int.not_lt.2 (by decide)
  generalize hexec : exec (Move.perform Script.source 9 (.absolute 4)) Script.strayingDesk = run at *
  obtain ⟨r, e⟩ := run
  have hbounded := waits_bounded_by_strays hreach hcounts hexec (List.append_nil _).symm hobliges
  simp only [hstrays] at hbounded
  exact ⟨hstrays, hbounded.1, hbounded.2 (by decide)⟩

/-! ## A source that always strays -/

/-- A source that gives the same answer to every fetch. -/
def repeating (results : Results) : BatchSource Unit Unit where
  request _ _ _ := (.ok (), ())
  wait _ _ _ := (.ok results, (), ())
  abandon _ _ := ()
  close _ := (.ok (), ())

section Repeating

variable {results : Results} {b : Batch} (hv : results.validate = .ok ())
  (hplain : results.exception = none) (hb : Batch.ofResults? results = some b)
  (hunknown : finalRowOf results = none) (hother : b.contains target = false)

include hv hplain hb hunknown hother

/-- A search goes on for as long as the answers bring what is at hand already. -/
theorem seek_repeating {d : Desk Unit Unit} (hrows : d.cursor.rows = ⟨[b]⟩)
    (hfinal : d.cursor.finalRow = none) (hfree : d.cursor.flight = none)
    (hobliges : ∀ entry ∈ d.cursor.ledger, entry.Obliges) (heading : Heading) (rounds : Nat) :
    let f := exec (seek (repeating results) (.row target heading) (pure ()) rounds false) d
    f.1 = .error .outOfRounds ∧ ∀ entry ∈ f.2.cursor.ledger, entry.Obliges := by
  have hvalid := Batch.valid_of_ofResults? hv hb
  have hinsert : (⟨[b]⟩ : Residency).insert b = ⟨[b]⟩ := by
    have hoverlaps : b.overlaps b = true := by simpa [Batch.overlaps] using hvalid.first_le
    simp [Residency.insert, Residency.place, hoverlaps]
  have hmissing : (⟨[b]⟩ : Residency).contains target = false := by
    refine (Residency.contains_eq_false_iff ⟨by simpa using hvalid, by simp⟩).2 ?_
    simpa using hother
  induction rounds generalizing d with
  | zero => exact ⟨rfl, hobliges⟩
  | succ rounds ih =>
    have hfind : (Quest.row target heading).find d.cursor = none := by
      simp [Quest.row, findRow, hrows, hmissing, hfinal]
    -- the desk once the row is demanded
    let demanded : Desk Unit Unit := { noted d (spanFor target heading d.cursor).2 with
      cursor := d.cursor.requested (.demand target) (spanFor target heading d.cursor).1 (.ok ())
      source := () }
    have hfetched : exec (fetchFor (repeating results) (.row target heading) false) d =
        (.ok (), demanded) :=
      (exec_fetchFor_of_none (repeating results) hfree).trans (exec_issue ..)
    have hflight : demanded.cursor.flight = some ⟨_, _, ()⟩ := rfl
    have hwait : (repeating results).wait demanded.cursor.options.timeout () demanded.source =
        (.ok results, (), ()) := rfl
    have hawaited := exec_await_of_some hflight hwait
    have hnew : demanded.cursor.isNewTo results = true := by simp [isNewTo, hb]
    rw [received_of_valid hv, hnew] at hawaited
    rw [seek, exec_bind_ok (exec_cursor d)]
    simp only [hfind]
    rw [exec_bind_ok hfetched, exec_bind_ok hawaited, exec_bind_ok (exec_pure ..)]
    refine ih ?_ ?_ rfl ?_
    · simp [extend, hb, demanded, hrows, hinsert]
    · simp [extend, hunknown, demanded, hfinal]
    · intro entry hmem
      rcases List.mem_cons.1 hmem with rfl | hmem
      · exact ⟨results, rfl, hv, hplain⟩
      rcases List.mem_cons.1 hmem with rfl | hmem
      · exact ⟨(), rfl⟩
      · exact hobliges entry hmem

end Repeating

/-- One row without cells, of a result that may have more. -/
def loneRow : Results :=
  Results.batch 1 [[]] false

/-- A new cursor on a source that answers every fetch with the first row. -/
def repeatingDesk : Desk Unit Unit where
  cursor := (blank .inPairs).extend loneRow
  source := ()
  overflowed := false

/-- **Answers that always stray keep a move going.** Each of them agrees with itself and has not
failed, but the move to the fifth row takes every round that it is given. -/
theorem move_endless : Reachable (repeating loneRow) .inPairs loneRow () repeatingDesk ∧
    ∀ rounds, let run := exec (Move.perform (repeating loneRow) rounds (.absolute 5)) repeatingDesk
      run.1 = .error .outOfRounds ∧ ∀ entry ∈ run.2.cursor.ledger, entry.Obliges := by
  have hstart : Reachable (repeating loneRow) .inPairs loneRow () repeatingDesk := .start rfl
  refine ⟨hstart, fun rounds => ?_⟩
  have hgoes : exec (Move.perform (repeating loneRow) rounds (.absolute 5)) repeatingDesk =
      exec (moveTo (repeating loneRow) rounds 5 .forward) repeatingDesk :=
    exec_absolute_of_one_le (repeating loneRow) rounds rfl (by decide)
  have hv : loneRow.validate = .ok () := rfl
  have hb : Batch.ofResults? loneRow = some ⟨1, 1, [[]], none⟩ := rfl
  have hother : (⟨1, 1, [[]], none⟩ : Batch).contains 5 = false := rfl
  have hrows : (repeatingDesk.turn .forward).cursor.rows = ⟨[⟨1, 1, [[]], none⟩]⟩ := rfl
  have hseeks := seek_repeating hv rfl hb rfl hother hrows rfl rfl
    (fun _ hmem => absurd hmem List.not_mem_nil) .forward rounds
  have hmoves := exec_moveTo (repeating loneRow) rounds 5 .forward repeatingDesk
  rw [if_neg (by decide), if_neg (by decide)] at hmoves
  rcases hseek : exec (seek (repeating loneRow) (.row 5 .forward) (pure ()) rounds false)
    (repeatingDesk.turn .forward) with ⟨r, e⟩
  rw [hseek] at hseeks hmoves
  obtain ⟨hr, hobliges⟩ := hseeks
  simp only at hr
  subst hr
  simp only [hgoes, hmoves]
  exact ⟨trivial, hobliges⟩

end QueryClient.Cursor
