import QueryClient.Proofs.Attempt
import QueryClient.Proofs.Cursor.Steps

/-!
# Searches as sequences of still steps

Looking for something fetches until it is there, and each operation on the way is followed through
its text once. All of them take still steps only, and when one fails with a timeout, it is that of
what it asked last itself (`Quiet`). A search that has an answer found it among what the cursor has
in the end.
-/

namespace QueryClient.Cursor

open Relation (ReflTransGen)
open Attempt Nav

variable {σ H α β : Type}

/-- The fault that came of an ask, if one did. -/
def Ask.fault? : Ask H → Option Fault
  | .requested _ _ _ _ (.error fault) => some fault
  | .waited _ (.error fault) _ => some fault
  | _ => none

/-- Whether a fault, if it is a timeout, came of what was asked last, and was asked after all that
was `before`. -/
def IsBlamed (stop : Stop) (before ledger : List (Ask H)) : Prop :=
  ∀ fault, stop = .fault fault → fault.isTimeout = true →
    ∃ entry rest, ledger = entry :: rest ∧ before <:+ rest ∧ entry.fault? = some fault

/-- Whether nothing that was asked of a source failed or was late. -/
def Untroubled (ledger : List (Ask H)) : Prop :=
  ∀ entry ∈ ledger, entry.fault? = none

theorem Untroubled.of_suffix {before ledger : List (Ask H)} (h : Untroubled ledger)
    (hsuffix : before <:+ ledger) : Untroubled before :=
  fun entry hmem => h entry (hsuffix.subset hmem)

section Quiet

variable (source : BatchSource σ H)

/-- An attempt that takes still steps only. -/
structure Quiet (m : Nav σ H α) (d : Desk σ H) : Prop where
  steps : ReflTransGen (Still source) d (exec m d).2
  blame : ∀ stop, (exec m d).1 = .error stop →
    IsBlamed stop d.cursor.ledger (exec m d).2.cursor.ledger

variable {source} {m : Nav σ H α} {f : α → Nav σ H β} {d e : Desk σ H}

theorem isBlamed_of_not_timeout {fault : Fault} (h : fault.isTimeout = false)
    (before ledger : List (Ask H)) : IsBlamed (.fault fault) before ledger := by
  intro later heq ht
  cases heq
  rw [h] at ht
  cases ht

theorem isBlamed_outOfRounds (before ledger : List (Ask H)) :
    IsBlamed .outOfRounds before ledger := by
  intro fault heq
  cases heq

/-- What was asked since something was asked since anything before it. -/
theorem IsBlamed.of_suffix {stop : Stop} {earlier before ledger : List (Ask H)}
    (h : IsBlamed stop before ledger) (hsuffix : earlier <:+ before) :
    IsBlamed stop earlier ledger := by
  intro fault hstop ht
  obtain ⟨entry, rest, hledger, hbefore, hfault⟩ := h fault hstop ht
  exact ⟨entry, rest, hledger, hsuffix.trans hbefore, hfault⟩

namespace Quiet

theorem of_ok {a : α} (h : exec m d = (.ok a, e)) (hsteps : ReflTransGen (Still source) d e) :
    Quiet source m d := by
  refine ⟨by rw [h]; exact hsteps, fun stop hstop => ?_⟩
  rw [h] at hstop
  cases hstop

theorem of_error {stop : Stop} (h : exec m d = (.error stop, e))
    (hsteps : ReflTransGen (Still source) d e)
    (hblame : IsBlamed stop d.cursor.ledger e.cursor.ledger) : Quiet source m d := by
  refine ⟨by rw [h]; exact hsteps, fun later hlater => ?_⟩
  rw [h] at hlater ⊢
  cases hlater
  exact hblame

theorem stills {r : Except Stop α} (h : Quiet source m d) (hexec : exec m d = (r, e)) :
    ReflTransGen (Still source) d e := by
  have hsteps := h.steps
  rwa [hexec] at hsteps

/-- Quiet attempts can be put one after another. -/
theorem bind (hm : Quiet source m d)
    (hf : ∀ a e, exec m d = (.ok a, e) → ReflTransGen (Still source) d e → Quiet source (f a) e) :
    Quiet source (m >>= f) d := by
  rcases h : exec m d with ⟨stop | a, e⟩
  · have hsteps := hm.steps
    have hblame := hm.blame stop (by rw [h])
    rw [h] at hsteps hblame
    exact of_error (exec_bind_error h) hsteps hblame
  · have hsteps := hm.stills h
    have hq := hf a e h hsteps
    refine ⟨?_, ?_⟩
    · rw [exec_bind_ok h]
      exact hsteps.trans hq.steps
    · rw [exec_bind_ok h]
      exact fun stop hstop => (hq.blame stop hstop).of_suffix (ledger_of_stills hsteps)

protected theorem pure (a : α) : Quiet source (pure a) d :=
  of_ok (exec_pure a d) .refl

protected theorem cursor : Quiet source (cursor : Nav σ H _) d :=
  of_ok (exec_cursor d) .refl

protected theorem note (sums : List Int) : Quiet source (note sums) d :=
  of_ok (exec_note sums d) (.single (.mark d _))

protected theorem sum (a b : Int) : Quiet source (sum a b) d :=
  of_ok (exec_sum a b d) (.single (.mark d _))

protected theorem fail {fault : Fault} (h : fault.isTimeout = false) :
    Quiet source (fail fault : Nav σ H α) d :=
  of_error (exec_fail fault d) .refl (isBlamed_of_not_timeout h _ _)

protected theorem ofExcept {outcome : Except Fault α}
    (h : ∀ fault, outcome = .error fault → fault.isTimeout = false) :
    Quiet source (ofExcept outcome) d := by
  cases outcome with
  | ok a => exact .pure a
  | error fault => exact .fail (h fault rfl)

/-- What follows a look at the cursor only depends on the cursor as it is. -/
theorem cursor_bind {f : Cursor H → Nav σ H β} (h : Quiet source (f d.cursor) d) :
    Quiet source (cursor >>= f) d := by
  refine .bind .cursor fun c e he _ => ?_
  cases he
  exact h

end Quiet

/-! ## Fetching -/

/-- Sums within their range leave no mark. -/
theorem noted_eq {sums : List Int} (h : ∀ n ∈ sums, fits n = true) : noted d sums = d := by
  have hall : sums.all fits = true := List.all_eq_true.2 h
  simp [noted, hall]

theorem exec_issue (source : BatchSource σ H) (purpose : Purpose) (span : Span) (d : Desk σ H) :
    exec (issue source purpose span) d =
      (((source.request span.start span.count d.source).1.map fun _ => ()).mapError .fault,
        { d with
          cursor := d.cursor.requested purpose span
            (source.request span.start span.count d.source).1
          source := (source.request span.start span.count d.source).2 }) := by
  rw [issue, exec_bind_ok (exec_ask ..), exec_bind_ok (exec_update ..), exec_bind]
  simp only [exec_ofExcept]
  rcases (source.request span.start span.count d.source).1 with _ | call <;> rfl

theorem exec_fetchFor_of_some (source : BatchSource σ H) {quest : Quest H α} {stalled : Bool}
    {flight : Flight H} (hflight : d.cursor.flight = some flight) :
    exec (fetchFor source quest stalled) d = (.ok (), d) := by
  rw [fetchFor, exec_bind_ok (exec_cursor d)]
  simp only [hflight, Option.isNone_some, Bool.false_eq_true, if_false, exec_pure]

theorem exec_fetchFor_of_none (source : BatchSource σ H) {quest : Quest H α}
    (hflight : d.cursor.flight = none) : exec (fetchFor source quest false) d =
      exec (issue source quest.purpose (quest.span d.cursor).1)
        (noted d (quest.span d.cursor).2) := by
  rw [fetchFor, exec_bind_ok (exec_cursor d)]
  simp only [hflight, Option.isNone_none, Bool.false_eq_true, if_true, if_false]
  rw [exec_bind_ok (exec_note ..)]

theorem exec_fetchFor_of_stalled (source : BatchSource σ H) {quest : Quest H α}
    (hflight : d.cursor.flight = none) :
    exec (fetchFor source quest true) d = (.error (.fault (.protocol quest.missing)), d) := by
  rw [fetchFor, exec_bind_ok (exec_cursor d)]
  simp only [hflight, Option.isNone_none, if_true, exec_fail]

theorem exec_await_of_none (source : BatchSource σ H) (hflight : d.cursor.flight = none) :
    exec (await source) d = (.ok false, d) := by
  rw [await, exec_bind_ok (exec_cursor d)]
  simp only [hflight, exec_pure]

theorem exec_await_of_some {flight : Flight H} (hflight : d.cursor.flight = some flight)
    {outcome : Except Fault Results} {call : H} {t : σ}
    (hwait : source.wait d.cursor.options.timeout flight.call d.source = (outcome, call, t)) :
    exec (await source) d = ((d.cursor.received flight outcome call).1.mapError .fault,
      { d with cursor := (d.cursor.received flight outcome call).2, source := t }) := by
  rw [await, exec_bind_ok (exec_cursor d)]
  simp only [hflight]
  rw [exec_bind_ok (exec_ask ..)]
  simp only [hwait]
  rw [exec_bind_ok (exec_update ..), exec_ofExcept]

/-- A timeout that comes of a wait came of the wait itself. -/
theorem isBlamed_received {c : Cursor H} {flight : Flight H} {outcome : Except Fault Results}
    {call : H} {fault : Fault} (h : (c.received flight outcome call).1 = .error fault) :
    IsBlamed (.fault fault) c.ledger (c.received flight outcome call).2.ledger := by
  intro later heq ht
  cases heq
  refine ⟨_, c.ledger, received_ledger .., List.suffix_rfl, ?_⟩
  cases outcome with
  | error fault =>
    cases h
    rfl
  | ok results =>
    -- results that disagree with themselves are malformed, which is no timeout
    simp only [received, absorb] at h
    split at h
    · next hv =>
      cases h
      split at hv
      · next hv' =>
        cases hv
        unfold Results.validate at hv'
        simp only at hv'
        repeat' split at hv'
        all_goals cases hv'
        all_goals cases ht
      · cases hv
    · cases h

namespace Quiet

theorem issue (hfree : d.cursor.flight = none) {purpose : Purpose} {span : Span}
    (hs : Sought d.cursor purpose span) : Quiet source (issue source purpose span) d := by
  have hstep : ReflTransGen (Still source) d _ := .single (.request d hfree hs)
  have hexec := exec_issue source purpose span d
  rcases hr : source.request span.start span.count d.source with ⟨fault | call, t⟩
  · rw [hr] at hexec hstep
    refine of_error hexec hstep fun later heq _ => ?_
    cases heq
    exact ⟨_, d.cursor.ledger, requested_ledger .., List.suffix_rfl, rfl⟩
  · rw [hr] at hexec hstep
    exact of_ok hexec hstep

theorem await : Quiet source (await source) d := by
  cases hflight : d.cursor.flight with
  | none => exact of_ok (exec_await_of_none source hflight) .refl
  | some flight =>
    rcases hwait : source.wait d.cursor.options.timeout flight.call d.source with
      ⟨outcome, call, t⟩
    have hexec := exec_await_of_some hflight hwait
    have hstep := ReflTransGen.single (Still.wait d hflight hwait)
    cases hreceived : (d.cursor.received flight outcome call).1 with
    | error fault =>
      rw [hreceived] at hexec
      exact of_error hexec hstep (isBlamed_received hreceived)
    | ok progressed =>
      rw [hreceived] at hexec
      exact of_ok hexec hstep

end Quiet

/-! ## Looking for something -/

/-- A search that asks for what may be asked for, and does not fail with a timeout of its own. -/
structure Quest.Lawful (quest : Quest H α) : Prop where
  sought : ∀ c, quest.find c = none → Sought c quest.purpose (quest.span c).1
  not_timeout : ∀ c fault, quest.find c = some (.error fault) → fault.isTimeout = false

/-- A row that cannot be had is not at hand, or a failure stands in its place. -/
theorem of_rowAt_eq_error {s : Residency} {row : Int} {fault : Fault}
    (h : s.rowAt row = .error fault) : fault = .noCurrentRow ∨ ∃ e, fault = .remote e := by
  unfold Residency.rowAt at h
  split at h
  · next b _ =>
    unfold Batch.row at h
    split at h
    · next e _ => exact .inr ⟨e, (Except.error.inj h).symm⟩
    · split at h
      · split at h
        · cases h
        · exact .inl (Except.error.inj h).symm
      · exact .inl (Except.error.inj h).symm
  · exact .inl (Except.error.inj h).symm

theorem rowAt_not_timeout {s : Residency} {row : Int} {fault : Fault}
    (h : s.rowAt row = .error fault) : fault.isTimeout = false := by
  rcases of_rowAt_eq_error h with rfl | ⟨e, rfl⟩
  · rfl
  · rfl

/-- The search for a row fails only with what stands in the place of the row. -/
theorem rowAt_of_find_row {target : Int} {heading : Heading} {c : Cursor H} {fault : Fault}
    (hfind : (Quest.row target heading).find c = some (.error fault)) :
    c.rows.rowAt target = .error fault := by
  simp only [Quest.row, findRow] at hfind
  split at hfind
  · cases hrow : c.rows.rowAt target with
    | error later =>
      rw [hrow] at hfind
      cases hfind
      rfl
    | ok cells =>
      rw [hrow] at hfind
      cases hfind
  · split at hfind
    · cases hfind
    · cases hfind

theorem find_existence_ne_error (row : Int) (c : Cursor H) (fault : Fault) :
    (Quest.existence row).find c ≠ some (.error fault) := by
  intro hfind
  simp only [Quest.existence, existsRow] at hfind
  split at hfind
  · cases hfind
  · cases hlast : c.finalRow <;> rw [hlast] at hfind <;> cases hfind

theorem find_finalRow_ne_error (c : Cursor H) (fault : Fault) :
    Quest.finalRow.find c ≠ some (.error fault) := by
  intro hfind
  simp only [Quest.finalRow] at hfind
  cases hlast : c.finalRow <;> rw [hlast] at hfind <;> cases hfind

theorem Quest.row_lawful {target : Int} (htarget : 1 ≤ target) (heading : Heading) :
    (Quest.row target heading : Quest H Bool).Lawful where
  sought c hfind := by
    simp only [Quest.row, findRow] at hfind
    split at hfind
    · cases hfind
    · next hmissing =>
      split at hfind
      · cases hfind
      · next hfinal =>
        exact .demand heading htarget (eq_false_of_ne_true hmissing) (eq_false_of_ne_true hfinal)
  not_timeout _ _ hfind := rowAt_not_timeout (rowAt_of_find_row hfind)

theorem Quest.existence_lawful {row : Int} (hrow : 1 ≤ row) :
    (Quest.existence row : Quest H Bool).Lawful where
  sought c hfind := by
    simp only [Quest.existence, existsRow] at hfind
    split at hfind
    · cases hfind
    · next hmissing =>
      have hunknown : c.finalRow = none := Option.map_eq_none_iff.1 hfind
      exact .demand .forward hrow (eq_false_of_ne_true hmissing) (by simp [hunknown])
  not_timeout c fault hfind := absurd hfind (find_existence_ne_error row c fault)

theorem Quest.finalRow_lawful : (Quest.finalRow : Quest H Int).Lawful where
  sought _ hfind := .finalRow (Option.map_eq_none_iff.1 hfind)
  not_timeout c fault hfind := absurd hfind (find_finalRow_ne_error c fault)

namespace Quiet

theorem fetchFor {quest : Quest H α} (hq : quest.Lawful) (hfind : quest.find d.cursor = none)
    (stalled : Bool) : Quiet source (fetchFor source quest stalled) d := by
  unfold Cursor.fetchFor
  apply cursor_bind
  split
  · next hfree =>
    split
    · exact .fail rfl
    · refine .bind (.note _) fun _ e he _ => ?_
      cases he
      refine .issue ?_ ?_
      · exact Option.isNone_iff_eq_none.1 hfree
      · exact hq.sought _ hfind
  · exact .pure ()

/-- **A search** takes still steps only, however long it goes on. -/
theorem seek {quest : Quest H α} (hq : quest.Lawful) {settle : Nav σ H Unit}
    (hsettle : ∀ d, Quiet source settle d) (rounds : Nat) (stalled : Bool) (d : Desk σ H) :
    Quiet source (seek source quest settle rounds stalled) d := by
  induction rounds generalizing stalled d with
  | zero => exact of_error (exec_throw _ d) .refl (isBlamed_outOfRounds _ _)
  | succ rounds ih =>
    unfold Cursor.seek
    apply cursor_bind
    split
    · next found hfind =>
      exact .ofExcept fun fault hfault => hq.not_timeout d.cursor fault (hfault ▸ hfind)
    · next hfind =>
      refine .bind (.fetchFor hq hfind stalled) fun _ _ _ _ => ?_
      refine .bind .await fun _ _ _ _ => ?_
      exact .bind (hsettle _) fun _ _ _ _ => ih _ _

theorem seekRow {target : Int} (htarget : 1 ≤ target) (heading : Heading) (rounds : Nat) :
    Quiet source (Cursor.seek source (.row target heading) (Pure.pure ()) rounds false) d :=
  seek (Quest.row_lawful htarget heading) (fun _ => .pure ()) rounds false d

theorem keepNearEnd (d : Desk σ H) : Quiet source keepNearEnd d := by
  unfold Cursor.keepNearEnd
  apply cursor_bind
  split
  · exact .pure ()
  · next highest _ =>
    refine .bind (.note _) fun _ e he _ => ?_
    cases he
    refine of_ok (exec_update ..) (.single (.evictAround _ fun n hn => .inr ?_))
    simp only [show d.cursor.position = .onRow n from hn]

theorem hasRow {row : Int} (hrow : 1 ≤ row) (rounds : Nat) :
    Quiet source (hasRow source rounds row) d :=
  seek (Quest.existence_lawful hrow) (fun _ => .pure ()) rounds false d

theorem ensureFinalKnown (rounds : Nat) : Quiet source (ensureFinalKnown source rounds) d :=
  seek Quest.finalRow_lawful keepNearEnd rounds false d

end Quiet

section Rounds

variable {quest : Quest H α} {settle : Nav σ H Unit} {rounds : Nat} {stalled : Bool}

variable (source quest settle rounds stalled d) in
/-- What becomes of a search that has not found anything yet: its fetch or its wait fails, or it
goes on with what the wait has brought. -/
inductive Round : Except Stop α → Desk σ H → Prop
  | unfetched {stop : Stop} {e : Desk σ H}
      (hfetched : exec (fetchFor source quest stalled) d = (.error stop, e)) :
      Round (.error stop) e
  | unheard {stop : Stop} {d₁ e : Desk σ H}
      (hfetched : exec (fetchFor source quest stalled) d = (.ok (), d₁))
      (hawaited : exec (await source) d₁ = (.error stop, e))
      (hbefore : d₁.cursor.ledger <:+ e.cursor.ledger) : Round (.error stop) e
  | heard {progressed : Bool} {r : Except Stop α} {d₁ d₂ e : Desk σ H}
      (hfetched : exec (fetchFor source quest stalled) d = (.ok (), d₁))
      (hawaited : exec (await source) d₁ = (.ok progressed, d₂))
      (hrest : exec (seek source quest settle rounds (!progressed)) (exec settle d₂).2 = (r, e))
      (hbefore : d₁.cursor.ledger <:+ e.cursor.ledger)
      (hafter : d₂.cursor.ledger <:+ e.cursor.ledger) : Round r e

/-- **One round of a search**: it has found what it looks for, or fetches it. -/
theorem round_of_seek (hq : quest.Lawful) (hquiet : ∀ d, Quiet source settle d)
    (hsettles : ∀ d, (exec settle d).1 = .ok ()) (hfind : quest.find d.cursor = none)
    {r : Except Stop α}
    (hexec : exec (seek source quest settle (rounds + 1) stalled) d = (r, e)) :
    Round source d quest settle rounds stalled r e := by
  rw [seek, exec_bind_ok (exec_cursor d)] at hexec
  simp only [hfind] at hexec
  rcases hfetched : exec (fetchFor source quest stalled) d with ⟨stop | _, d₁⟩
  · rw [exec_bind_error hfetched] at hexec
    cases hexec
    exact .unfetched hfetched
  rw [exec_bind_ok hfetched] at hexec
  rcases hawaited : exec (await source) d₁ with ⟨stop | progressed, d₂⟩
  · rw [exec_bind_error hawaited] at hexec
    cases hexec
    exact .unheard hfetched hawaited (ledger_of_stills (Quiet.await.stills hawaited))
  rw [exec_bind_ok hawaited, exec_bind_ok (Prod.ext (hsettles d₂) rfl)] at hexec
  have hlast : Quiet source (seek source quest settle rounds (!progressed)) (exec settle d₂).2 :=
    .seek hq hquiet ..
  have hafter := ledger_of_stills ((hquiet d₂).steps.trans (hlast.stills hexec))
  have hwait := ledger_of_stills (Quiet.await.stills hawaited)
  exact .heard hfetched hawaited hexec (hwait.trans hafter) hafter

end Rounds

/-- What is there already is found at once. -/
theorem exec_seek_of_find {quest : Quest H α} {settle : Nav σ H Unit} {rounds : Nat}
    {stalled : Bool} {found : Except Fault α} (hfind : quest.find d.cursor = some found) :
    exec (seek source quest settle (rounds + 1) stalled) d = (found.mapError .fault, d) := by
  rw [seek, exec_bind_ok (exec_cursor d)]
  simp only [hfind, exec_ofExcept]

/-- A search that has an answer found it. -/
theorem find_of_exec_seek {quest : Quest H α} {settle : Nav σ H Unit}
    {rounds : Nat} {stalled : Bool} {a : α}
    (h : exec (seek source quest settle rounds stalled) d = (.ok a, e)) :
    quest.find e.cursor = some (.ok a) := by
  induction rounds generalizing stalled d with
  | zero =>
    rw [seek, exec_throw] at h
    cases h
  | succ rounds ih =>
    rw [seek, exec_bind_ok (exec_cursor d)] at h
    split at h
    · next found hfind =>
      rw [exec_ofExcept] at h
      cases found with
      | error fault => cases h
      | ok b =>
        cases h
        exact hfind
    · rw [exec_bind] at h
      split at h
      · rw [exec_bind] at h
        split at h
        · rw [exec_bind] at h
          split at h
          · exact ih h
          · cases h
        · cases h
      · cases h

end Quiet

end QueryClient.Cursor
