import QueryClient.Proofs.Cursor.Retention

/-!
# Past the end

A cursor that only moves on takes no step that a scrollable one could not take, so that a source
that serves a table is mirrored by both (`mirrors_loosened`), and both find the same
(`seek_loosened`). A move to a row past the end therefore parks both after the last row, from
wherever it is made, but for the guard of a cursor that only moves on: once it stands there, every
row that is not at hand is behind it, those past the end too (`absolute_past_end`).
-/

namespace QueryClient.Cursor

open Relation (ReflTransGen)
open Attempt Nav

variable {σ H α : Type} {source : BatchSource σ H} {d e : Desk σ H} {table : List Row}
  {rounds : Nat} {k : Int}

/-! ## Cursors of either type -/

/-- The cursor, free to scroll. -/
def loosened (c : Cursor H) : Cursor H :=
  { c with options := { c.options with cursorType := .scrollable } }

/-- The desk with its cursor free to scroll. -/
def Desk.loosened (d : Desk σ H) : Desk σ H :=
  { d with cursor := d.cursor.loosened }

theorem requested_loosened (c : Cursor H) (purpose : Purpose) (span : Span)
    (outcome : Except Fault H) :
    (c.requested purpose span outcome).loosened = c.loosened.requested purpose span outcome := by
  cases outcome <;> rfl

theorem received_loosened (c : Cursor H) (flight : Flight H) (outcome : Except Fault Results)
    (call : H) : c.loosened.received flight outcome call =
      ((c.received flight outcome call).1, (c.received flight outcome call).2.loosened) := by
  cases outcome with
  | error fault => rfl
  | ok results =>
    unfold received absorb
    cases hv : results.validate <;> simp only [hv] <;> rfl

theorem Sought.loosened {c : Cursor H} {purpose : Purpose} {span : Span}
    (hs : Sought c purpose span) : Sought c.loosened purpose span := by
  cases hs with
  | demand heading htarget hmissing hfinal => exact .demand heading htarget hmissing hfinal
  | finalRow hunknown => exact .finalRow hunknown
  | @ahead row _ hrow hspan hcount =>
    refine .ahead hrow ?_ hcount
    have hkept : c.loosened.heading = c.heading := rfl
    unfold spanToPrefetch at hspan ⊢
    cases hheading : c.heading with
    | forward =>
      simp only [hkept, hheading] at hspan ⊢
      exact hspan
    | backward =>
      simp only [hkept, hheading] at hspan ⊢
      split at hspan
      · cases hspan
      · exact hspan

/-- A cursor that only moves on takes no step that it could not take if it were free to scroll. -/
theorem Still.loosened (hstep : Still source d e) : Still source d.loosened e.loosened := by
  cases hstep with
  | mark overflowed => exact .mark d.loosened overflowed
  | turn heading => exact .turn d.loosened heading
  | evictBehind hpos => exact .evictBehind d.loosened hpos
  | evictAround hpos => exact .evictAround d.loosened hpos
  | request hfree hsought =>
    simp only [Desk.loosened, requested_loosened]
    exact .request d.loosened hfree hsought.loosened
  | @wait flight hflight outcome call t hwait =>
    have hstep : Still source d.loosened _ := .wait d.loosened hflight hwait
    rwa [show d.loosened.cursor = d.cursor.loosened from rfl, received_loosened] at hstep

theorem Stride.loosened (hstride : Stride source d e) :
    Stride source d.loosened e.loosened := by
  cases hstride with
  | still hstep => exact .still hstep.loosened
  | park hpark => exact .park d.loosened hpark
  | stand hrow => exact .stand d.loosened hrow

/-- What leaves a cursor open did not close it on the way. -/
theorem strides_of_opened (hsteps : ReflTransGen (Step source) d e)
    (hopen : e.cursor.closed = false) : ReflTransGen (Stride source) d e := by
  induction hsteps with
  | refl => exact .refl
  | tail _ hstep ih =>
    cases hstep with
    | stride hstride => exact (ih (closed_of_stride hstride ▸ hopen)).tail hstride
    | shut => cases hopen

/-- **Either type of cursor** mirrors the table that its source serves. -/
theorem mirrors_loosened {options : Options} {first : Results} {s : σ}
    (h : Reachable source options first s d) (hopen : d.cursor.closed = false) {count : Int}
    (hfirst : first.Answers table 1 count) (hserves : Serves table d.cursor.ledger) :
    Mirrors table d.loosened.cursor := by
  obtain ⟨c, hstart, hsteps⟩ := h.steps
  have hstrides := (strides_of_opened hsteps hopen).lift Desk.loosened fun _ _ => Stride.loosened
  obtain ⟨hfetch, hv, rfl⟩ := of_start hstart
  have hloose : Cursor.start { options with cursorType := .scrollable } first =
      .ok ((blank options : Cursor H).extend first).loosened := by
    simp only [Cursor.start, hfetch, if_false, absorb, hv]
    rfl
  exact (Mirrors.of_start rfl hfirst hloose).of_strides hstrides hserves

/-! ## Searches of either type -/

theorem fetchFor_loosened (source : BatchSource σ H) (quest : Quest H α)
    (hspan : ∀ c, quest.span c.loosened = quest.span c) (stalled : Bool) (d : Desk σ H) :
    exec (fetchFor source quest stalled) d.loosened =
      ((exec (fetchFor source quest stalled) d).1,
        (exec (fetchFor source quest stalled) d).2.loosened) := by
  cases hflight : d.cursor.flight with
  | some flight =>
    rw [exec_fetchFor_of_some source hflight,
      exec_fetchFor_of_some (d := d.loosened) source hflight]
  | none =>
    cases stalled with
    | true =>
      rw [exec_fetchFor_of_stalled source hflight,
        exec_fetchFor_of_stalled (d := d.loosened) source hflight]
    | false =>
      rw [exec_fetchFor_of_none source hflight,
        exec_fetchFor_of_none (d := d.loosened) source hflight, exec_issue, exec_issue]
      simp only [Desk.loosened, noted, hspan, requested_loosened]

theorem await_loosened (source : BatchSource σ H) (d : Desk σ H) :
    exec (await source) d.loosened =
      ((exec (await source) d).1, (exec (await source) d).2.loosened) := by
  cases hflight : d.cursor.flight with
  | none =>
    rw [exec_await_of_none source hflight, exec_await_of_none (d := d.loosened) source hflight]
  | some flight =>
    rcases hwait : source.wait d.cursor.options.timeout flight.call d.source with
      ⟨outcome, call, t⟩
    rw [exec_await_of_some hflight hwait, exec_await_of_some (d := d.loosened) hflight hwait]
    simp only [Desk.loosened, received_loosened]

/-- **A search** finds the same, whatever the type of the cursor. -/
theorem seek_loosened (source : BatchSource σ H) (quest : Quest H α)
    (hfind : ∀ c, quest.find c.loosened = quest.find c)
    (hspan : ∀ c, quest.span c.loosened = quest.span c) (rounds : Nat) (stalled : Bool)
    (d : Desk σ H) :
    exec (seek source quest (pure ()) rounds stalled) d.loosened =
      ((exec (seek source quest (pure ()) rounds stalled) d).1,
        (exec (seek source quest (pure ()) rounds stalled) d).2.loosened) := by
  induction rounds generalizing stalled d with
  | zero => rfl
  | succ rounds ih =>
    have hsame : quest.find d.loosened.cursor = quest.find d.cursor := hfind d.cursor
    cases hfound : quest.find d.cursor with
    | some found =>
      rw [hfound] at hsame
      rw [exec_seek_of_find hsame, exec_seek_of_find hfound]
    | none =>
      rw [hfound] at hsame
      rw [seek, exec_bind_ok (exec_cursor _), exec_bind_ok (exec_cursor _)]
      simp only [hsame, hfound]
      have hfetch := fetchFor_loosened source quest hspan stalled d
      rcases hfetched : exec (fetchFor source quest stalled) d with ⟨stop | _, d₁⟩
      · rw [hfetched] at hfetch
        rw [exec_bind_error hfetch, exec_bind_error hfetched]
      rw [hfetched] at hfetch
      rw [exec_bind_ok hfetch, exec_bind_ok hfetched]
      have hawait := await_loosened source d₁
      rcases hawaited : exec (await source) d₁ with ⟨stop | progressed, d₂⟩
      · rw [hawaited] at hawait
        rw [exec_bind_error hawait, exec_bind_error hawaited]
      rw [hawaited] at hawait
      rw [exec_bind_ok hawait, exec_bind_ok hawaited, exec_bind_ok (exec_pure ..),
        exec_bind_ok (exec_pure ..)]
      exact ih (!progressed) d₂

/-! ## Moves to a row, counted from the start -/

/-- Where nothing is late, nothing fails with a timeout. -/
theorem IsBlamed.not_timeout {fault : Fault} {before ledger : List (Ask H)}
    (h : IsBlamed (.fault fault) before ledger) (hprompt : Untroubled ledger) :
    fault.isTimeout = false := by
  refine eq_false_of_ne_true fun ht => ?_
  obtain ⟨entry, rest, hledger, -, hfault⟩ := h fault rfl ht
  rw [hprompt entry (hledger ▸ List.mem_cons_self)] at hfault
  cases hfault

section Served

variable (hm : Mirrors table d.loosened.cursor) (hk : 1 ≤ k)

include hm hk

/-- **A move to a row** of a table that is served without delay, unless it is refused, tells whether
the table has the row. -/
theorem moveTo_served (hs : Sound d.cursor) {heading : Heading}
    (hrounds : table.length + 3 ≤ rounds) (hreach : isOutOfReach d.cursor k = false)
    {r : Except Stop Bool} (hexec : exec (moveTo source rounds k heading) d = (r, e))
    (hserves : Serves table e.cursor.ledger) (hprompt : Untroubled e.cursor.ledger) :
    r = .ok (k ≤ table.length) ∧
      e.cursor.position = if k ≤ table.length then .onRow k else .afterLast := by
  obtain ⟨found, ahead, hseek, hledger, -, hends⟩ := seek_of_moveTo hs hk hreach hexec
  have hquiet : Quiet source (seek source (.row k heading) (pure ()) rounds false)
      (d.turn heading) := .seekRow hk ..
  have hserves := hserves.of_suffix ⟨ahead, hledger.symm⟩
  have hprompt := hprompt.of_suffix ⟨ahead, hledger.symm⟩
  have hloose := seek_loosened source (.row k heading) (fun _ => rfl) (fun _ => rfl) rounds false
    (d.turn heading)
  rw [hseek] at hloose
  have hturned : Mirrors table (d.turn heading).loosened.cursor := by
    have hturn : Still source d.loosened (d.turn heading).loosened := .turn d.loosened heading
    have hledger := ledger_of_stills (hquiet.stills hseek)
    exact hm.of_still hturn (hserves.of_suffix hledger)
  rcases (seekRow_served (e := found.loosened) hturned hrounds hserves hk hloose).2 with
    ⟨fault, rfl, ht⟩ | rfl
  · have hblamed := hquiet.blame (.fault fault) (by rw [hseek])
    rw [hseek] at hblamed
    rw [hblamed.not_timeout hprompt] at ht
    cases ht
  · refine ⟨rfl, ?_⟩
    by_cases hle : k ≤ table.length
    · rw [hends, if_pos hle, decide_eq_true hle]
      rfl
    · rw [hends, if_neg hle, decide_eq_false hle]
      rfl

/-- Past the end, a move is refused only to a cursor that cannot scroll and is there already. -/
theorem isOutOfReach_past_iff (hpast : table.length < k) (hlast : k < 2 ^ 62) :
    isOutOfReach d.cursor k = true ↔
      d.cursor.isForwardOnly = true ∧ d.cursor.position = .afterLast := by
  have hmissing : d.cursor.rows.contains k = false := by
    refine eq_false_of_ne_true fun hcontains => ?_
    have := hm.le_length hcontains
    omega
  unfold isOutOfReach
  rw [hmissing, Bool.not_false, Bool.and_true, Bool.and_eq_true, decide_eq_true_eq]
  refine and_congr_right fun _ => ?_
  cases hpos : d.cursor.position with
  | beforeFirst => simp only [frontier, reduceCtorEq, iff_false]; omega
  | afterLast => simp only [frontier, iff_true]; omega
  | onRow n =>
    -- the current row is a row of the table
    obtain ⟨cells, hrow⟩ := hm.anchored.current hm.opened n hpos
    have := hm.le_length (contains_of_rowAt hrow)
    simp only [frontier, reduceCtorEq, iff_false]
    omega

end Served

/-! ## Moves past the end -/

section Reached

variable {options : Options} {first : Results} {s : σ}
  (h : Reachable source options first s d) (hopen : d.cursor.closed = false)
  {r : Except Stop Bool} (hexec : exec (absolute source rounds k) d = (r, e))

include h hopen hexec

theorem reachable_of_absolute : Reachable source options first s e ∧ e.cursor.closed = false ∧
    e.cursor.isForwardOnly = d.cursor.isForwardOnly ∧ d.cursor.ledger <:+ e.cursor.ledger := by
  have horderly : Orderly source (absolute source rounds k) d := .absolute h.sound ..
  have hstrides := horderly.strides
  rw [hexec] at hstrides
  have hcalled := h.call rounds (.move (.absolute k))
  simp only [Call.perform, Move.perform, exec_map, hexec] at hcalled
  refine ⟨hcalled, (closed_of_strides hstrides).trans hopen, ?_,
    ledger_of_steps (steps_of_strides hstrides)⟩
  unfold isForwardOnly
  rw [hcalled.options_eq, h.options_eq]

variable (hfirst : first.Answers table 1 options.fetchSize.toNat) (hk : 1 ≤ k)
  (hrounds : table.length + 3 ≤ rounds) (hserves : Serves table e.cursor.ledger)
  (hprompt : Untroubled e.cursor.ledger)

include hfirst hk hrounds hserves hprompt

/-- A move to a row of a cursor of either type is refused, or tells whether the table has it. -/
theorem absolute_served :
    if isOutOfReach d.cursor k then
      (r, e) = (.error (.fault (.illegalNavigation (.rowGone k))), d)
    else r = .ok (k ≤ table.length) ∧
      e.cursor.position = if k ≤ table.length then .onRow k else .afterLast := by
  obtain ⟨-, -, -, hledger⟩ := reachable_of_absolute h hopen hexec
  have hm := mirrors_loosened h hopen hfirst (hserves.of_suffix hledger)
  rw [exec_absolute_of_one_le source rounds hopen hk] at hexec
  split
  · next hreach =>
    rw [exec_moveTo, if_pos hreach] at hexec
    exact hexec.symm
  · next hreach =>
    exact moveTo_served hm hk h.sound hrounds (eq_false_of_ne_true hreach) hexec hserves hprompt

/-- A move past the end is refused only to a cursor that cannot scroll and is there already. -/
theorem absolute_past (hpast : table.length < k) (hlast : k < 2 ^ 62) :
    if d.cursor.isForwardOnly ∧ d.cursor.position = .afterLast then
      (r, e) = (.error (.fault (.illegalNavigation (.rowGone k))), d)
    else (r, e.cursor.position) = (.ok false, .afterLast) := by
  obtain ⟨-, -, -, hledger⟩ := reachable_of_absolute h hopen hexec
  have hm := mirrors_loosened h hopen hfirst (hserves.of_suffix hledger)
  have hserved := absolute_served h hopen hexec hfirst hk hrounds hserves hprompt
  simp only [isOutOfReach_past_iff hm hk hpast hlast, if_neg (Int.not_le.2 hpast),
    decide_eq_false (Int.not_le.2 hpast)] at hserved
  split
  · next hrefused => rwa [if_pos hrefused] at hserved
  · next hreached =>
    rw [if_neg hreached] at hserved
    rw [hserved.1, hserved.2]

end Reached

/-- **Past the end.** Over a source that serves a table, and is never late, a move to a row past the
end answers no and parks the cursor after the last row, whatever its type and wherever it stands,
but for one place: a cursor that cannot scroll and stands after the last row already refuses the
move, and stays. A move to any row, made twice, answers the same twice and ends at the same place,
but for the move past the end of a cursor that cannot scroll, which is refused when it is made
again. -/
theorem absolute_past_end {options : Options} {first : Results} {s : σ}
    (h : Reachable source options first s d) (hopen : d.cursor.closed = false)
    (hfirst : first.Answers table 1 options.fetchSize.toNat) (hk : 1 ≤ k) (hlast : k < 2 ^ 62)
    (hrounds : table.length + 3 ≤ rounds) {r r' : Except Stop Bool} {e e' : Desk σ H}
    (hexec : exec (absolute source rounds k) d = (r, e))
    (hagain : exec (absolute source rounds k) e = (r', e'))
    (hserves : Serves table e'.cursor.ledger) (hprompt : Untroubled e'.cursor.ledger) :
    (table.length < k →
      if d.cursor.isForwardOnly ∧ d.cursor.position = .afterLast then
        (r, e) = (.error (.fault (.illegalNavigation (.rowGone k))), d)
      else (r, e.cursor.position) = (.ok false, .afterLast)) ∧
    if d.cursor.isForwardOnly ∧ table.length < k then
      (r', e') = (.error (.fault (.illegalNavigation (.rowGone k))), e)
    else (r', e'.cursor.position) = (r, e.cursor.position) := by
  obtain ⟨he, hopen', htype, -⟩ := reachable_of_absolute h hopen hexec
  obtain ⟨-, -, -, hledger⟩ := reachable_of_absolute he hopen' hagain
  have hserves₁ := hserves.of_suffix hledger
  have hprompt₁ := hprompt.of_suffix hledger
  have hpasses := absolute_past h hopen hexec hfirst hk hrounds hserves₁ hprompt₁
  refine ⟨fun hpast => hpasses hpast hlast, ?_⟩
  have hserved := absolute_served h hopen hexec hfirst hk hrounds hserves₁ hprompt₁
  by_cases hreach : isOutOfReach d.cursor k = true
  · -- a refusal leaves the cursor as it was, and is repeated
    rw [if_pos hreach] at hserved
    obtain ⟨hr, hd⟩ := Prod.mk.inj hserved
    subst hd
    rw [hexec] at hagain
    cases hagain
    split
    · exact hserved
    · rfl
  rw [if_neg hreach] at hserved
  by_cases hpast : table.length < k
  · have hparked : e.cursor.position = .afterLast := by
      rw [hserved.2, if_neg (Int.not_le.2 hpast)]
    have hagain := absolute_past he hopen' hagain hfirst hk hrounds hserves hprompt hpast hlast
    simp only [htype, hparked, and_true, hpast] at hagain ⊢
    rw [hserved.1, decide_eq_false (Int.not_le.2 hpast)]
    exact hagain
  · have hle : k ≤ table.length := Int.not_lt.1 hpast
    have hon : e.cursor.position = .onRow k := by rw [hserved.2, if_pos hle]
    have hm := mirrors_loosened he hopen' hfirst hserves₁
    obtain ⟨cells, hrow⟩ := hm.anchored.current hm.opened k hon
    have hhere : isOutOfReach e.cursor k = false := by
      have hcontains : e.cursor.rows.contains k = true := contains_of_rowAt hrow
      simp [isOutOfReach, hcontains]
    have hagain := absolute_served he hopen' hagain hfirst hk hrounds hserves hprompt
    rw [hhere, if_neg (by decide), if_pos hle] at hagain
    rw [if_neg (fun hboth => hpast hboth.2), hagain.1, hagain.2, hserved.1, hon]

/-- To the second of five rows, and then twice past the end. -/
def Script.overshooting : List (Nat × Call) :=
  [.absolute 2, .absolute 9, .absolute 9].map fun m => (8, .move m)

theorem serves_overshooting : Serves (Engine.numberedRows 1 5)
    (afterCalls Script.source Script.overshooting Script.forwardDesk).cursor.ledger where
  granted purpose start count atHand outcome hmem := by
    rcases List.mem_cons.1 hmem with heq | hmem
    · cases heq
    rcases List.mem_cons.1 hmem with heq | hmem
    · cases heq
      exact ⟨_, rfl⟩
    · cases hmem
  answered flight outcome call hmem := by
    rcases List.mem_cons.1 hmem with heq | hmem
    · cases heq
      exact .inr ⟨_, rfl, rfl, rfl, fun h => absurd h (by decide), fun _ => ⟨rfl, rfl⟩⟩
    rcases List.mem_cons.1 hmem with heq | hmem
    · cases heq
    · cases hmem

/-- From the second of five rows, a jump past the end parks a cursor that cannot scroll. -/
theorem absolute_past_end_overshooting : ∃ d : Desk Script (List (Except Fault Results)),
    Reachable Script.source .forwardInPairs (Engine.tableBatch 5 1 2) .prompt d ∧
      d.cursor.position = .onRow 2 ∧
      (exec (absolute Script.source 8 9) d).1 = .ok false ∧
      (exec (absolute Script.source 8 9) d).2.cursor.position = .afterLast := by
  have hstart : Reachable Script.source .forwardInPairs (Engine.tableBatch 5 1 2) .prompt
      Script.forwardDesk := .start rfl
  have hreach := hstart.call 8 (.move (.absolute 2))
  have hfirst : (Engine.tableBatch 5 1 2).Answers (Engine.numberedRows 1 5) 1 2 :=
    ⟨rfl, rfl, fun _ => ⟨2, by decide, by decide, by decide, rfl, rfl, rfl, .inl rfl⟩,
      fun h => absurd h (by decide)⟩
  have hprompt : Untroubled
      (afterCalls Script.source Script.overshooting Script.forwardDesk).cursor.ledger := by
    unfold Untroubled
    decide +kernel
  have hone : (1 : Int) ≤ 9 := by decide
  have hrounds : (Engine.numberedRows 1 5).length + 3 ≤ 8 := by decide
  have hparks := (absolute_past_end hreach rfl hfirst hone (by decide) hrounds rfl rfl
    serves_overshooting hprompt).1 (by decide)
  rw [if_neg (by decide)] at hparks
  exact ⟨_, hreach, rfl, congrArg Prod.fst hparks, congrArg Prod.snd hparks⟩

/-- The same jump, made twice, is answered once, and refused when it is made again. -/
theorem second_jump_refused :
    let d := afterCalls Script.source [(8, .move (.absolute 2))] Script.forwardDesk
    let e := (exec (absolute Script.source 8 9) d).2
    (exec (absolute Script.source 8 9) d).1 = .ok false ∧ e.cursor.position = .afterLast ∧
      e.cursor.finalRow = some 5 ∧ (exec (absolute Script.source 8 9) e).1 =
        .error (.fault (.illegalNavigation (.rowGone 9))) := by
  decide +kernel

end QueryClient.Cursor
