import Mathlib.Control.Monad.Basic
import QueryClient.Cursor.Script
import QueryClient.Proofs.Cursor.Discipline

/-!
# A search for the end passes failures by

A failure that a source sends in the place of rows is a batch like any other. The search for the
final row counts it as something new, and goes on to ask for the rows behind it. So over a source
that fails from some row on and never tells the final row, the moves that need the final row neither
raise the failure nor return, whatever the number of answers (`end_search_endless`).
-/

namespace QueryClient.Cursor

open Attempt Nav

variable {σ H α : Type} {source : BatchSource σ H} {d e : Desk σ H} {asked : List (Ask H)}
  {row : Int} {exception : ServerException} {rounds : Nat}

def Ask.isWait : Ask H → Bool
  | .waited .. => true
  | _ => false

/-- Whether a fetch was granted, or answered without the final row: with rows, or with a failure,
and always with the failure from some row on. -/
def Ask.Fails (row : Int) (exception : ServerException) : Ask H → Prop
  | .requested _ _ _ _ outcome => ∃ call, outcome = .ok call
  | .waited flight outcome _ => ∃ results, outcome = .ok results ∧ results.validate = .ok () ∧
      results.finalRow = Results.unknownFinalRow ∧
      (results.exception = some exception ∨ flight.start < row ∧ results.rows ≠ [])
  | _ => True

instance (row : Int) (exception : ServerException) (entry : Ask H) :
    Decidable (entry.Fails row exception) :=
  match entry with
  | .requested _ _ _ _ (.ok call) => .isTrue ⟨call, rfl⟩
  | .requested _ _ _ _ (.error _) => .isFalse fun ⟨_, h⟩ => nomatch h
  | .waited flight (.ok results) _ =>
    decidable_of_iff (results.validate = .ok () ∧ results.finalRow = Results.unknownFinalRow ∧
        (results.exception = some exception ∨ flight.start < row ∧ results.rows ≠ []))
      ⟨fun h => ⟨results, rfl, h⟩, fun ⟨_, heq, h⟩ => Except.ok.inj heq ▸ h⟩
  | .waited _ (.error _) _ => .isFalse fun ⟨_, h, _⟩ => nomatch h
  | .abandoned _ | .closed => .isTrue trivial

/-- Whether a source that was asked something failed from some row on. -/
def FailsFrom (row : Int) (exception : ServerException) (asked : List (Ask H)) : Prop :=
  ∀ entry ∈ asked, entry.Fails row exception

theorem FailsFrom.of_subset {later : List (Ask H)} (h : FailsFrom row exception later)
    (hsubset : asked ⊆ later) : FailsFrom row exception asked :=
  fun entry hmem => h entry (hsubset hmem)

theorem FailsFrom.untroubled (h : FailsFrom row exception asked) : Untroubled asked := by
  intro entry hmem
  have hfails := h entry hmem
  cases entry with
  | requested =>
    obtain ⟨call, rfl⟩ := hfails
    rfl
  | waited =>
    obtain ⟨results, rfl, -⟩ := hfails
    rfl
  | _ => rfl

/-! ## One round -/

/-- Rows and failures make a batch, and a batch is something new. -/
theorem isNewTo_of_batch {c : Cursor H} {results : Results}
    (h : results.exception.isSome ∨ results.rows ≠ []) : c.isNewTo results = true := by
  have hbatch : (Batch.ofResults? results).isSome := by
    unfold Batch.ofResults?
    cases hrows : results.rows <;> cases hfailure : results.exception <;> simp_all
  simp [isNewTo, hbatch]

/-- What a search asks for before it waits; a fetch that is granted is under way. -/
theorem fetchFor_asks {quest : Quest H α} {r : Except Stop Unit}
    (hexec : exec (fetchFor source quest false) d = (r, e)) :
    ∃ asked, e.cursor.ledger = asked ++ d.cursor.ledger ∧ asked.countP Ask.isWait = 0 ∧
      e.cursor.finalRow = d.cursor.finalRow ∧
      (Untroubled asked → r = .ok () ∧ ∃ flight, e.cursor.flight = some flight ∧
        (d.cursor.flight = none → ⟨flight.start, flight.count⟩ = (quest.span d.cursor).1)) := by
  cases hflight : d.cursor.flight with
  | some flight =>
    rw [exec_fetchFor_of_some source hflight] at hexec
    cases hexec
    exact ⟨[], rfl, rfl, rfl, fun _ => ⟨rfl, flight, hflight, fun hnone => by cases hnone⟩⟩
  | none =>
    rw [exec_fetchFor_of_none source hflight, exec_issue] at hexec
    simp only [noted] at hexec
    rcases hr : source.request (quest.span d.cursor).1.start (quest.span d.cursor).1.count
      d.source with ⟨fault | call, t⟩
    · rw [hr] at hexec
      cases hexec
      exact ⟨[_], requested_ledger, rfl, requested_finalRow,
        fun hprompt => by cases hprompt _ List.mem_cons_self⟩
    · rw [hr] at hexec
      cases hexec
      exact ⟨[_], requested_ledger, rfl, requested_finalRow,
        fun _ => ⟨rfl, ⟨_, _, call⟩, rfl, fun _ => rfl⟩⟩

theorem await_asks {flight : Flight H} (hflight : d.cursor.flight = some flight)
    {r : Except Stop Bool} (hexec : exec (await source) d = (r, e)) :
    ∃ outcome call, e.cursor.ledger = .waited flight outcome call :: d.cursor.ledger ∧
      (FailsFrom row exception [.waited flight outcome call] →
        r = .ok true ∧ e.cursor.finalRow = d.cursor.finalRow) := by
  rcases hwait : source.wait d.cursor.options.timeout flight.call d.source with ⟨outcome, call, t⟩
  rw [exec_await_of_some hflight hwait] at hexec
  cases hexec
  refine ⟨outcome, call, received_ledger, fun hfails => ?_⟩
  obtain ⟨results, rfl, hvalid, hunknown, hbrings⟩ := hfails _ List.mem_cons_self
  have hfinal : finalRowOf results = none := if_pos hunknown
  simp only [received, absorb, hvalid]
  refine ⟨?_, ?_⟩
  · rw [isNewTo_of_batch]
    · rfl
    · rcases hbrings with hfailure | ⟨-, hrows⟩
      · exact .inl (by rw [hfailure]; rfl)
      · exact .inr hrows
  · simp [extend, hfinal, enter]

/-! ## All rounds -/

theorem keepNearEnd_settles (d : Desk σ H) : (exec keepNearEnd d).1 = .ok () ∧
    (exec keepNearEnd d).2.cursor.finalRow = d.cursor.finalRow ∧
    (exec keepNearEnd d).2.cursor.ledger = d.cursor.ledger := by
  unfold keepNearEnd
  rw [exec_bind_ok (exec_cursor d)]
  split <;> exact ⟨rfl, rfl, rfl⟩

/-- What was asked up to one point is part of what was asked up to a later one. -/
theorem asked_of_suffix {β : Type} {before between after asked asked₁ : List β}
    (h : between <:+ after) (hbetween : between = asked₁ ++ before)
    (hafter : after = asked ++ before) :
    ∃ later, asked = later ++ asked₁ ∧ after = later ++ between := by
  obtain ⟨later, rfl⟩ := h
  rw [hbetween, ← List.append_assoc] at hafter
  exact ⟨later, (List.append_cancel_right hafter).symm, rfl⟩

/-- **The search for the final row** takes as many answers as it may, and is not done then. -/
theorem ensureFinalKnown_endless (hunknown : d.cursor.finalRow = none) {r : Except Stop Int}
    (hexec : exec (ensureFinalKnown source rounds) d = (r, e))
    (hledger : e.cursor.ledger = asked ++ d.cursor.ledger)
    (hfails : FailsFrom row exception asked) :
    r = .error .outOfRounds ∧ asked.countP Ask.isWait = rounds := by
  unfold ensureFinalKnown at hexec
  induction rounds generalizing d asked with
  | zero =>
    cases hexec
    obtain rfl := List.self_eq_append_left.1 hledger
    exact ⟨rfl, rfl⟩
  | succ rounds ih =>
    have hfind : (Quest.finalRow : Quest H Int).find d.cursor = none := by
      simp [Quest.finalRow, hunknown]
    have hsettles := fun d : Desk σ H => (keepNearEnd_settles d).1
    cases round_of_seek Quest.finalRow_lawful .keepNearEnd hsettles hfind hexec with
    | unfetched hfetched =>
      obtain ⟨asked₁, h₁, -, -, hgranted⟩ := fetchFor_asks hfetched
      obtain rfl := List.append_cancel_right (h₁.symm.trans hledger)
      cases (hgranted hfails.untroubled).1
    | unheard hfetched hawaited hbefore =>
      obtain ⟨asked₁, h₁, -, -, hgranted⟩ := fetchFor_asks hfetched
      obtain ⟨later, rfl, -⟩ := asked_of_suffix hbefore h₁ hledger
      obtain ⟨-, flight, hflight, -⟩ := hgranted (hfails.of_subset (by simp)).untroubled
      obtain ⟨outcome, call, h₂, hanswered⟩ := await_asks hflight hawaited
      rw [h₁, ← List.cons_append] at h₂
      have hsame := List.append_cancel_right (hledger.symm.trans h₂)
      cases (hanswered (hfails.of_subset (by simp [hsame]))).1
    | heard hfetched hawaited hrest hbefore hafter =>
      obtain ⟨asked₁, h₁, hnone, hfinal₁, hgranted⟩ := fetchFor_asks hfetched
      obtain ⟨between, rfl, -⟩ := asked_of_suffix hbefore h₁ hledger
      obtain ⟨-, flight, hflight, -⟩ := hgranted (hfails.of_subset (by simp)).untroubled
      obtain ⟨outcome, call, h₂, hanswered⟩ := await_asks hflight hawaited
      rw [h₁, ← List.cons_append] at h₂
      obtain ⟨later, hsame, hlater⟩ := asked_of_suffix hafter h₂ hledger
      rw [hsame] at hfails ⊢
      obtain ⟨hok, hfinal₂⟩ := hanswered (hfails.of_subset (by simp))
      cases hok
      obtain ⟨-, hfinal₃, hledger₃⟩ := keepNearEnd_settles _
      have hunknown₃ := hfinal₃.trans (hfinal₂.trans (hfinal₁.trans hunknown))
      obtain ⟨hend, hcount⟩ := ih hunknown₃ hrest (by rw [hledger₃]; exact hlater)
        (hfails.of_subset (by simp))
      refine ⟨hend, ?_⟩
      rw [List.countP_append, List.countP_cons_of_pos rfl, hnone, hcount]

/-! ## Moves -/

/-- The moves that have to know the final row. -/
def Move.SearchesEnd (position : Position) : Move → Prop
  | .last => True
  | .absolute row => row < 0
  | .previous => position = .afterLast
  | _ => False

theorem absolute_searches (hopen : d.cursor.closed = false)
    (hscroll : d.cursor.options.cursorType = .scrollable) {target : Int} (htarget : target < 0) :
    ∃ f, exec (absolute source rounds target) d =
        exec (ensureFinalKnown source rounds >>= f) d ∧
      ∀ last d, Sound d.cursor → Orderly source (f last) d := by
  refine ⟨_, ?_, fun last _ hs => .fromEnd hs rounds last target⟩
  unfold absolute
  rw [exec_bind_ok (exec_cursor d), exec_bind_ok (exec_ensureOpen_of_opened hopen),
    if_neg (by omega), if_pos htarget,
    exec_bind_ok (exec_ensureScrollable_of_scrollable hscroll _)]

/-- Such a move first searches for the final row. -/
theorem exec_of_searchesEnd (hopen : d.cursor.closed = false)
    (hscroll : d.cursor.options.cursorType = .scrollable) (hunknown : d.cursor.finalRow = none)
    {m : Move} (hm : m.SearchesEnd d.cursor.position) :
    ∃ f, exec (m.perform source rounds) d = exec (ensureFinalKnown source rounds >>= f) d ∧
      ∀ last d, Sound d.cursor → Orderly source (f last) d := by
  cases m with
  | previous =>
    refine ⟨fun last => moveTo source rounds last .backward, ?_, fun _ _ hs => .moveTo hs ..⟩
    have hpos : d.cursor.position = .afterLast := hm
    simp only [Move.perform, previous]
    rw [exec_bind_ok (exec_cursor d), exec_bind_ok (exec_ensureOpen_of_opened hopen)]
    simp only [hpos, hunknown]
    rw [exec_bind_ok (exec_ensureScrollable_of_scrollable hscroll _)]
  | absolute target => exact absolute_searches hopen hscroll hm
  | last =>
    simp only [Move.perform, last]
    rw [exec_bind_ok (exec_cursor d), exec_bind_ok (exec_ensureOpen_of_opened hopen),
      exec_bind_ok (exec_ensureScrollable_of_scrollable hscroll _)]
    exact absolute_searches hopen hscroll (by decide)
  | _ => exact absurd hm id

/-- **A search for the end passes failures by.** While the final row is unknown, over a source that
answers every fetch but never tells the final row, and fails from some row on, the moves that need
it end with the rounds they may go: the failure is not raised, be it ever so many answers. The
cursor stays where it is. -/
theorem end_search_endless {m : Move} (hs : Sound d.cursor) (hopen : d.cursor.closed = false)
    (hscroll : d.cursor.options.cursorType = .scrollable) (hunknown : d.cursor.finalRow = none)
    (hm : m.SearchesEnd d.cursor.position) {r : Except Stop Bool}
    (hexec : exec (m.perform source rounds) d = (r, e))
    (hledger : e.cursor.ledger = asked ++ d.cursor.ledger)
    (hfails : FailsFrom row exception asked) :
    r = .error .outOfRounds ∧ e.cursor.position = d.cursor.position ∧
      asked.countP Ask.isWait = rounds := by
  obtain ⟨f, hsame, horderly⟩ := exec_of_searchesEnd hopen hscroll hunknown hm
  have hquiet : Quiet source (ensureFinalKnown source rounds) d := .ensureFinalKnown rounds
  rw [hsame] at hexec
  rcases hsearch : exec (ensureFinalKnown source rounds) d with ⟨stop | last, e₁⟩
  · rw [exec_bind_error hsearch] at hexec
    cases hexec
    obtain ⟨hend, hcount⟩ := ensureFinalKnown_endless hunknown hsearch hledger hfails
    cases hend
    exact ⟨rfl, position_of_stills (hquiet.stills hsearch), hcount⟩
  · -- had the search an answer, what it asked would be part of what the move asked
    rw [exec_bind_ok hsearch] at hexec
    obtain ⟨asked₁, h₁⟩ := ledger_of_stills (hquiet.stills hsearch)
    have hmove := (horderly last e₁ (hs.of_stills (hquiet.stills hsearch))).strides
    have hafter := ledger_of_steps (steps_of_strides hmove)
    rw [hexec] at hafter
    obtain ⟨later, rfl, -⟩ := asked_of_suffix hafter h₁.symm hledger
    cases (ensureFinalKnown_endless hunknown hsearch h₁.symm (hfails.of_subset (by simp))).1

/-- Why no row can be read behind the second one. -/
def unreadable : ServerException where
  className := some "engine.ScanException"
  code := some "E-11"
  message := "row cannot be read"

/-- A source that fails twenty fetches in a row, each at its first row, and is late with the next.
-/
def Script.broken : Script where
  total := 9
  fetches := (List.range 20).map (fun i =>
    .accepted [.results (Results.failure (Int64.ofNat (i + 3)) unreadable)]) ++
      [.accepted [.fault (.timeout "fetch" (.seconds 1))]]
  closeFault := none
  log := []

/-- A new cursor on the broken source, with the first two rows. -/
def Script.brokenDesk : Desk Script (List (Except Fault Results)) where
  cursor := (blank .inPairs).extend (Engine.tableBatch 9 1 2)
  source := .broken
  overflowed := false

/-- The first three failures are passed by. -/
theorem end_search_endless_broken :
    (exec (Move.last.perform Script.source 3) Script.brokenDesk).1 = .error .outOfRounds ∧
    (exec (Move.last.perform Script.source 3) Script.brokenDesk).2.cursor.position = .beforeFirst ∧
    (exec (Move.last.perform Script.source 3) Script.brokenDesk).2.cursor.ledger.countP
      Ask.isWait = 3 := by
  generalize hexec : exec (Move.last.perform Script.source 3) Script.brokenDesk = outcome
  obtain ⟨r, e⟩ := outcome
  have hstart : Cursor.start .inPairs (Engine.tableBatch 9 1 2) =
      .ok Script.brokenDesk.cursor := rfl
  have hfails : ∀ entry ∈ (exec (Move.last.perform Script.source 3)
      Script.brokenDesk).2.cursor.ledger, entry.Fails 3 unreadable := by decide +kernel
  rw [hexec] at hfails
  have hlast : Move.last.SearchesEnd Script.brokenDesk.cursor.position := trivial
  exact end_search_endless (.of_start hstart) rfl rfl rfl hlast hexec (List.append_nil _).symm
    hfails

/-- All twenty failures are passed by, and what is raised is that the next answer is late. -/
theorem last_passes_failures :
    (exec (Move.last.perform Script.source 25) Script.brokenDesk).1 =
      .error (.fault (.timeout "fetch" (.seconds 1))) ∧
    (exec (Move.last.perform Script.source 25) Script.brokenDesk).2.cursor.fetches = 21 := by
  decide +kernel

end QueryClient.Cursor
