import Mathlib.Control.Monad.Basic
import QueryClient.Proofs.Cursor.Ends

/-!
# Row numbers stay in range

Row numbers travel in sixty-four bits, and a sum of two of them may not fit. It does while the
source is modest: no batch has the last row number there is, and no final row is this number or
negative (`Modest`). Then the rows at hand, the final row and the position of a cursor are below the
last number after every run (`InRange.of_steps`), and whatever a call works out fits, be it to find
the rows to fetch, to drop batches or to count rows (`Fitting`). The caller has to see to one thing
only, which is not to go for the last row number while the final row is unknown (`call_in_range`).
None of these conditions can be left out (`last_number_overflows`). Where records are kept the last
row of a fetch is worked out too, and that asks for room for a fetch (`EndsFit`).
-/

namespace QueryClient

/-- Whether what a reply says about rows is below the last row number there is. -/
structure Results.Modest (results : Results) : Prop where
  last_lt : ∀ b ∈ Cursor.Batch.ofResults? results, b.last < 2 ^ 63 - 1
  finalRow_mem : ∀ last ∈ Cursor.finalRowOf results, 0 ≤ last ∧ last < 2 ^ 63 - 1

instance (results : Results) : Decidable results.Modest :=
  decidable_of_iff ((∀ b ∈ Cursor.Batch.ofResults? results, b.last < 2 ^ 63 - 1) ∧
      ∀ last ∈ Cursor.finalRowOf results, 0 ≤ last ∧ last < 2 ^ 63 - 1)
    ⟨fun h => ⟨h.1, h.2⟩, fun h => ⟨h.last_lt, h.finalRow_mem⟩⟩

namespace Cursor

open Relation (ReflTransGen)
open Attempt Nav

variable {σ H α β : Type} {source : BatchSource σ H} {d e : Desk σ H}

/-! ## Modest sources -/

/-- Whether a reply is modest, should it agree with itself. -/
def Ask.Modest : Ask H → Prop
  | .waited _ (.ok results) _ => results.validate = .ok () → results.Modest
  | _ => True

instance (entry : Ask H) : Decidable entry.Modest :=
  match entry with
  | .waited _ (.ok results) _ =>
    inferInstanceAs (Decidable (results.validate = .ok () → results.Modest))
  | .waited _ (.error _) _ => .isTrue trivial
  | .requested .. | .abandoned _ | .closed => .isTrue trivial

/-- Whether every reply of a source was modest. -/
def Modest (ledger : List (Ask H)) : Prop :=
  ∀ entry ∈ ledger, entry.Modest

theorem Modest.of_suffix {before ledger : List (Ask H)} (h : Modest ledger)
    (hsuffix : before <:+ ledger) : Modest before :=
  fun entry hmem => h entry (hsuffix.subset hmem)

/-- A cursor whose rows at hand, final row and position are below the last row number. -/
structure InRange (c : Cursor H) : Prop where
  sound : Sound c
  last_lt : ∀ b ∈ c.rows.batches, b.last < 2 ^ 63 - 1
  finalRow_mem : ∀ last, c.finalRow = some last → 0 ≤ last ∧ last < 2 ^ 63 - 1
  row_lt : ∀ n, c.position = .onRow n → n < 2 ^ 63 - 1

namespace InRange

theorem finalRow_extend {c : Cursor H}
    (hfinal : ∀ last, c.finalRow = some last → 0 ≤ last ∧ last < 2 ^ 63 - 1) {results : Results}
    (hmodest : results.Modest) :
    ∀ last, (c.extend results).finalRow = some last → 0 ≤ last ∧ last < 2 ^ 63 - 1 := by
  intro last hl
  simp only [Cursor.extend] at hl
  split at hl
  · exact hmodest.finalRow_mem last hl
  · exact hfinal last hl

theorem finalRow_received {c : Cursor H} (h : InRange c) {flight : Flight H}
    {outcome : Except Fault Results} {call : H} (hmodest : (Ask.waited flight outcome call).Modest) :
    ∀ last, (c.received flight outcome call).2.finalRow = some last →
      0 ≤ last ∧ last < 2 ^ 63 - 1 := by
  unfold Cursor.received absorb
  cases outcome with
  | error fault => exact h.finalRow_mem
  | ok results =>
    cases hv : results.validate with
    | error fault =>
      simp only [hv]
      exact h.finalRow_mem
    | ok _ =>
      simp only [hv]
      exact finalRow_extend (c := { c.enter _ with flight := none }) h.finalRow_mem (hmodest hv)

/-- The batches that a modest source brings are below the last row number. -/
theorem last_lt_of_step (h : InRange d.cursor) (hstep : Step source d e)
    (hmodest : Modest e.cursor.ledger) : ∀ b ∈ e.cursor.rows.batches, b.last < 2 ^ 63 - 1 :=
  batches_of_step hstep h.last_lt fun flight outcome call hmem b hbrought => by
    obtain ⟨results, rfl, hvalid, hresults⟩ := of_broughtBy hbrought
    exact (hmodest _ hmem hvalid).last_lt b hresults

theorem of_still (h : InRange d.cursor) (hstep : Still source d e)
    (hmodest : Modest e.cursor.ledger) : InRange e.cursor := by
  have hsound := h.sound.of_still hstep
  have hlast := h.last_lt_of_step (.stride (.still hstep)) hmodest
  cases hstep with
  | mark => exact h
  | turn => exact ⟨hsound, hlast, h.finalRow_mem, h.row_lt⟩
  | evictBehind => exact ⟨hsound, hlast, h.finalRow_mem, h.row_lt⟩
  | evictAround => exact ⟨hsound, hlast, h.finalRow_mem, h.row_lt⟩
  | request =>
    refine ⟨hsound, hlast, fun last hl => ?_, fun n hn => ?_⟩
    · exact h.finalRow_mem last (requested_finalRow ▸ hl)
    · exact h.row_lt n (requested_position ▸ hn)
  | wait =>
    rw [received_ledger] at hmodest
    refine ⟨hsound, hlast, h.finalRow_received (hmodest _ List.mem_cons_self), fun n hn => ?_⟩
    exact h.row_lt n (received_position ▸ hn)

theorem of_stride (h : InRange d.cursor) (hstride : Stride source d e)
    (hmodest : Modest e.cursor.ledger) : InRange e.cursor := by
  have hsound := h.sound.of_stride hstride
  cases hstride with
  | still hstill => exact h.of_still hstill hmodest
  | park hpark => exact ⟨hsound, h.last_lt, h.finalRow_mem, fun n hn => absurd hn (hpark n)⟩
  | stand hrow =>
    refine ⟨hsound, h.last_lt, h.finalRow_mem, fun n hn => ?_⟩
    cases hn
    exact Residency.lt_of_contains h.sound.rows h.last_lt (contains_of_rowAt hrow)

theorem of_step (h : InRange d.cursor) (hstep : Step source d e)
    (hmodest : Modest e.cursor.ledger) : InRange e.cursor := by
  have hsound := h.sound.of_step hstep
  cases hstep with
  | stride hstride => exact h.of_stride hstride hmodest
  | shut => exact ⟨hsound, fun b hb => absurd hb List.not_mem_nil, h.finalRow_mem, h.row_lt⟩

/-- **Every run** over a modest source keeps the numbers of a cursor in range. -/
theorem of_steps (h : InRange d.cursor) (hsteps : ReflTransGen (Step source) d e)
    (hmodest : Modest e.cursor.ledger) : InRange e.cursor := by
  induction hsteps with
  | refl => exact h
  | tail _ hstep ih =>
    exact (ih (hmodest.of_suffix (ledger_of_step hstep))).of_step hstep hmodest

theorem of_strides (h : InRange d.cursor) (hstrides : ReflTransGen (Stride source) d e)
    (hmodest : Modest e.cursor.ledger) : InRange e.cursor :=
  h.of_steps (steps_of_strides hstrides) hmodest

theorem of_start {options : Options} {first : Results} {c : Cursor H}
    (hstart : Cursor.start options first = .ok c) (hfirst : first.Modest) : InRange c := by
  have hsound := Sound.of_start hstart
  obtain ⟨-, -, rfl⟩ := Cursor.of_start hstart
  have hfinal := finalRow_extend (c := (blank options : Cursor H)) (fun last hlast => by cases hlast)
    hfirst
  refine ⟨hsound, fun b hb => ?_, hfinal, fun n hn => by cases hn⟩
  rcases mem_extend hb with hmem | hbrought
  · cases hmem
  · exact hfirst.last_lt b hbrought

end InRange

/-! ## Attempts whose sums fit -/

variable (source) in
/-- An attempt that leaves the cursor open, and whose sums fit as long as the source is modest. -/
structure Fitting (m : Nav σ H α) (d : Desk σ H) : Prop where
  strides : ReflTransGen (Stride source) d (exec m d).2
  unmarked : InRange d.cursor → Modest (exec m d).2.cursor.ledger →
    (exec m d).2.overflowed = d.overflowed

namespace Fitting

variable {m : Nav σ H α} {f : α → Nav σ H β}

theorem of_quiet (h : Quiet source m d) (hfits : InRange d.cursor →
      Modest (exec m d).2.cursor.ledger → (exec m d).2.overflowed = d.overflowed) :
    Fitting source m d :=
  ⟨strides_of_stills h.steps, hfits⟩

/-- Attempts whose sums fit can be put one after another. -/
theorem bind (hm : Fitting source m d)
    (hf : ∀ a e, exec m d = (.ok a, e) → ReflTransGen (Stride source) d e →
      Fitting source (f a) e) : Fitting source (m >>= f) d := by
  have hstrides := hm.strides
  have hfits := hm.unmarked
  rcases h : exec m d with ⟨stop | a, e⟩
  · rw [h] at hstrides hfits
    constructor <;> rw [exec_bind_error h]
    · exact hstrides
    · exact hfits
  · rw [h] at hstrides hfits
    have hlast := hf a e h hstrides
    constructor <;> rw [exec_bind_ok h]
    · exact hstrides.trans hlast.strides
    · intro hrange hmodest
      have hbefore := hmodest.of_suffix (ledger_of_steps (steps_of_strides hlast.strides))
      rw [hlast.unmarked (hrange.of_strides hstrides hbefore) hmodest, hfits hrange hbefore]

protected theorem pure (a : α) : Fitting source (pure a) d :=
  of_quiet (.pure a) fun _ _ => rfl

protected theorem fail {fault : Fault} (h : fault.isTimeout = false) :
    Fitting source (fail fault : Nav σ H α) d :=
  of_quiet (.fail h) fun _ _ => rfl

theorem cursor_bind {f : Cursor H → Nav σ H β} (h : Fitting source (f d.cursor) d) :
    Fitting source (cursor >>= f) d := by
  refine .bind (of_quiet .cursor fun _ _ => rfl) fun c e he _ => ?_
  cases he
  exact h

theorem ofExcept_bind {outcome : Except Fault α}
    (hfail : ∀ fault, outcome = .error fault → fault.isTimeout = false)
    (hf : ∀ a, outcome = .ok a → Fitting source (f a) d) :
    Fitting source (ofExcept outcome >>= f) d := by
  refine .bind (of_quiet (.ofExcept hfail) fun _ _ => by rw [exec_ofExcept]) fun a e he _ => ?_
  cases outcome with
  | error fault => cases he
  | ok b =>
    cases he
    exact hf _ rfl

theorem note {sums : List Int} (h : InRange d.cursor → ∀ n ∈ sums, fits n = true) :
    Fitting source (note sums) d :=
  of_quiet (.note sums) fun hrange _ => by rw [exec_note, noted_eq (h hrange)]

theorem sum_bind {a b : Int} {f : Int → Nav σ H β}
    (h : InRange d.cursor → fits (a + b) = true)
    (hf : Fitting source (f (a + b)) (noted d [a + b])) : Fitting source (sum a b >>= f) d := by
  have hsum : Fitting source (sum a b) d := by
    refine of_quiet (.sum a b) fun hrange _ => ?_
    rw [exec_sum, noted_eq (by simpa using h hrange)]
  refine .bind hsum fun c e he _ => ?_
  cases he
  exact hf

theorem ensureScrollable (operation : String) :
    Fitting source (ensureScrollable operation : Nav σ H Unit) d := by
  refine of_quiet (.ensureScrollable operation) fun _ _ => ?_
  unfold Cursor.ensureScrollable
  rw [exec_bind_ok (exec_cursor d)]
  split <;> rfl

/-! ### Searches -/

/-- A search works out the rows to fetch, and nothing else. -/
theorem fetchFor {quest : Quest H α} (hq : quest.Lawful) (hfind : quest.find d.cursor = none)
    (hspan : InRange d.cursor → ∀ n ∈ (quest.span d.cursor).2, fits n = true) (stalled : Bool) :
    Fitting source (fetchFor source quest stalled) d := by
  refine of_quiet (.fetchFor hq hfind stalled) fun hrange _ => ?_
  cases hflight : d.cursor.flight with
  | some flight => rw [exec_fetchFor_of_some source hflight]
  | none =>
    cases stalled with
    | true => rw [exec_fetchFor_of_stalled source hflight]
    | false =>
      rw [exec_fetchFor_of_none source hflight, noted_eq (hspan hrange), exec_issue]

theorem await : Fitting source (await source) d := by
  refine of_quiet .await fun _ _ => ?_
  cases hflight : d.cursor.flight with
  | none => rw [exec_await_of_none source hflight]
  | some flight => rw [exec_await_of_some hflight rfl]

theorem seek {quest : Quest H α} (hq : quest.Lawful)
    (hspan : ∀ c, InRange c → ∀ n ∈ (quest.span c).2, fits n = true) {settle : Nav σ H Unit}
    (hsettle : ∀ d, Fitting source settle d) (rounds : Nat) (stalled : Bool) (d : Desk σ H) :
    Fitting source (seek source quest settle rounds stalled) d := by
  induction rounds generalizing stalled d with
  | zero => exact ⟨.refl, fun _ _ => rfl⟩
  | succ rounds ih =>
    unfold Cursor.seek
    apply cursor_bind
    split
    · next found hfind =>
      refine of_quiet (.ofExcept fun fault hfault => ?_) fun _ _ => by rw [exec_ofExcept]
      exact hq.not_timeout d.cursor fault (hfault ▸ hfind)
    · next hfind =>
      refine .bind (.fetchFor hq hfind (hspan _) stalled) fun _ _ _ _ => ?_
      refine .bind .await fun _ _ _ _ => ?_
      exact .bind (hsettle _) fun _ _ _ _ => ih _ _

theorem keepNearEnd (d : Desk σ H) : Fitting source keepNearEnd d := by
  refine of_quiet (.keepNearEnd d) fun hrange _ => ?_
  unfold Cursor.keepNearEnd
  rw [exec_bind_ok (exec_cursor d)]
  split
  · rfl
  · next highest hhigh =>
    obtain ⟨b, hb, rfl⟩ := Residency.of_highestRow hhigh
    have hone := (hrange.sound.rows.batch b hb).one_le
    have hle := (hrange.sound.rows.batch b hb).first_le
    rw [exec_bind_ok (exec_note ..), noted_eq (Residency.fits_evictionSums hrange.sound.rows
      hrange.last_lt (by omega) (hrange.last_lt b hb) _ _)]
    rfl

theorem finalRow_of_ensureFinalKnown {rounds : Nat} {last : Int}
    (hexec : exec (Cursor.ensureFinalKnown source rounds) d = (.ok last, e)) :
    e.cursor.finalRow = some last := by
  simpa [Quest.finalRow, Option.map_eq_some_iff] using find_of_exec_seek hexec

theorem ensureFinalKnown (rounds : Nat) : Fitting source (ensureFinalKnown source rounds) d := by
  refine seek Quest.finalRow_lawful (fun c hrange n hn => ?_) keepNearEnd rounds false d
  rw [List.mem_singleton.1 hn, fits_iff]
  cases hhigh : c.rows.highestRow with
  | none => simp
  | some highest =>
    obtain ⟨b, hb, rfl⟩ := Residency.of_highestRow hhigh
    have hone := (hrange.sound.rows.batch b hb).one_le
    have hle := (hrange.sound.rows.batch b hb).first_le
    have hlt := hrange.last_lt b hb
    simp only [Option.getD_some]
    omega

/-- A search that has found something already works out nothing. -/
theorem exec_seek_of_found {quest : Quest H α} {settle : Nav σ H Unit} {rounds : Nat}
    {stalled : Bool} {found : Except Fault α} (hfind : quest.find d.cursor = some found) :
    (exec (Cursor.seek source quest settle rounds stalled) d).2 = d := by
  cases rounds with
  | zero => rfl
  | succ rounds => rw [exec_seek_of_find hfind]

/-- A demand for a row fits when its row is below the last number, or can be told not to exist. -/
theorem seek_demand {quest : Quest H α} (hq : quest.Lawful) {target : Int} {heading : Heading}
    (hspan : ∀ c, quest.span c = spanFor target heading c) (htarget : 1 ≤ target)
    (haim : InRange d.cursor → target < 2 ^ 63 - 1 ∨ ∃ found, quest.find d.cursor = some found)
    (rounds : Nat) : Fitting source (Cursor.seek source quest (Pure.pure ()) rounds false) d := by
  refine of_quiet (.seek hq (fun _ => .pure ()) ..) fun hrange hmodest => ?_
  rcases haim hrange with hlt | ⟨found, hfind⟩
  · refine (seek hq (fun c hrange n hn => ?_) (fun _ => .pure ()) rounds false d).unmarked hrange
      hmodest
    rw [hspan] at hn
    exact Residency.fits_demandSpan hrange.sound.rows hrange.last_lt hrange.sound.one_le_fetchSize
      (fetchSize_lt c) htarget hlt heading n hn
  · rw [exec_seek_of_found hfind]

end Fitting

/-- Whether a cursor may go for a row: it is not the last number there is, or the cursor knows how
far rows go. -/
def MayAimAt (c : Cursor H) (target : Int) : Prop :=
  target < 2 ^ 63 - 1 ∨ c.finalRow.isSome

/-- A row that lies past a final row that is known is found not to exist. -/
theorem InRange.found_of_mayAimAt {c : Cursor H} (h : InRange c) {target : Int}
    (haim : c.MayAimAt target) :
    target < 2 ^ 63 - 1 ∨ c.rows.contains target = false ∧ c.finalRow.any (· < target) = true := by
  refine Decidable.or_iff_not_imp_left.2 fun hge => ?_
  rcases haim with hlt | hknown
  · exact absurd hlt hge
  · obtain ⟨last, hlast⟩ := Option.isSome_iff_exists.1 hknown
    have hlt := (h.finalRow_mem last hlast).2
    refine ⟨eq_false_of_ne_true fun hrow => hge ?_, ?_⟩
    · exact Residency.lt_of_contains h.sound.rows h.last_lt hrow
    · rw [hlast, Option.any_some, decide_eq_true_eq]
      omega

namespace Fitting

theorem seekRow {target : Int} (htarget : 1 ≤ target) (heading : Heading)
    (haim : InRange d.cursor → d.cursor.MayAimAt target) (rounds : Nat) :
    Fitting source (Cursor.seek source (.row target heading) (Pure.pure ()) rounds false) d := by
  refine seek_demand (Quest.row_lawful htarget heading) (fun _ => rfl) htarget (fun hrange => ?_)
    rounds
  refine (hrange.found_of_mayAimAt (haim hrange)).imp_right fun ⟨hmissing, hpast⟩ => ?_
  exact ⟨.ok false, by simp [Quest.row, findRow, hmissing, hpast]⟩

theorem hasRow {row : Int} (hrow : 1 ≤ row) (haim : InRange d.cursor → d.cursor.MayAimAt row)
    (rounds : Nat) : Fitting source (hasRow source rounds row) d := by
  have hspan : ∀ c : Cursor H, (Quest.existence row).span c = spanFor row .forward c := fun _ => rfl
  refine seek_demand (Quest.existence_lawful hrow) hspan hrow (fun hrange => ?_) rounds
  refine (haim hrange).imp_right fun hknown => ?_
  obtain ⟨last, hlast⟩ := Option.isSome_iff_exists.1 hknown
  simp only [Quest.existence, existsRow, hlast, Option.map_some]
  split
  · exact ⟨_, rfl⟩
  · exact ⟨_, rfl⟩

/-! ### Standing on a row -/

theorem evict {row : Int} (hpos : d.cursor.position = .onRow row) :
    Fitting source (evict row) d := by
  refine of_quiet (.evict hpos) fun hrange _ => ?_
  unfold Cursor.evict
  rw [exec_bind_ok (exec_cursor d)]
  split
  · rfl
  · rw [exec_bind_ok (exec_note ..), noted_eq (Residency.fits_evictionSums hrange.sound.rows
      hrange.last_lt (hrange.sound.one_le_row row hpos) (hrange.row_lt row hpos) _ _)]
    rfl

theorem fits_spanToPrefetch {c : Cursor H} (hrange : InRange c) {row : Int}
    (hrow : c.rows.contains row = true) : ∀ n ∈ (spanToPrefetch c row).2, fits n = true := by
  unfold spanToPrefetch
  split
  · exact Residency.fits_spanAhead hrange.sound.rows hrange.last_lt _ hrow
  · split
    · exact fun n hn => absurd hn List.not_mem_nil
    · exact Residency.fits_spanBehind hrange.sound.rows hrange.last_lt
        hrange.sound.one_le_fetchSize (fetchSize_lt c) hrow

theorem prefetch {row : Int} (hrow : d.cursor.rows.contains row = true) :
    Fitting source (prefetch source row) d := by
  refine of_quiet (.prefetch hrow) fun hrange _ => ?_
  unfold Cursor.prefetch
  rw [exec_bind_ok (exec_cursor d)]
  split
  · rw [exec_bind_ok (exec_note ..), noted_eq (fits_spanToPrefetch hrange hrow)]
    split
    · rfl
    · split
      · rw [exec_tryIssue, exec_issue]
      · rfl
  · rfl

theorem standOn (hs : Sound d.cursor) {row : Int} {cells : Row}
    (hrow : d.cursor.rows.rowAt row = .ok cells) : Fitting source (standOn source row) d := by
  have hcontains := contains_of_rowAt hrow
  unfold Cursor.standOn
  refine .bind (m := update _) ⟨.single (.stand d hrow), fun _ _ => rfl⟩ fun _ e he _ => ?_
  cases he
  refine .bind (evict rfl) fun _ e he _ => ?_
  have hseated : e = seated row d := (congrArg Prod.snd he).symm
  subst hseated
  apply cursor_bind
  split
  · exact prefetch (contains_seated hs.rows hcontains)
  · exact .pure ()

/-! ### Moves -/

/-- **A move to a row** fits when the cursor may go for the row. -/
theorem moveTo (hs : Sound d.cursor) {target : Int}
    (haim : InRange d.cursor → d.cursor.MayAimAt target) (rounds : Nat) (heading : Heading) :
    Fitting source (moveTo source rounds target heading) d := by
  refine ⟨(Orderly.moveTo hs rounds target heading).strides, fun hrange hmodest => ?_⟩
  have hexec := exec_moveTo source rounds target heading d
  split at hexec
  · rw [hexec]
  split at hexec
  · rw [hexec]
    rfl
  next htarget =>
  have hturn : Still source d (d.turn heading) := .turn d heading
  have hturned : InRange (d.turn heading).cursor :=
    ⟨hs.of_still hturn, hrange.last_lt, hrange.finalRow_mem, hrange.row_lt⟩
  have hfit : Fitting source (Cursor.seek source (.row target heading) (Pure.pure ()) rounds false)
      (d.turn heading) :=
    seekRow (d := d.turn heading) (Int.not_lt.1 htarget) heading (fun _ => haim hrange) rounds
  have hstrides := hfit.strides
  have hunmarked := hfit.unmarked hturned
  rcases hseek : exec (Cursor.seek source (.row target heading) (Pure.pure ()) rounds false)
    (d.turn heading) with ⟨stop | found, e⟩
  · rw [hseek] at hexec hunmarked
    rw [hexec] at hmodest ⊢
    exact hunmarked hmodest
  · rw [hseek] at hexec hunmarked hstrides
    cases found with
    | true =>
      obtain ⟨cells, hrow⟩ := of_findRow_true (find_of_exec_seek hseek)
      have hsound : Sound e.cursor :=
        hturned.sound.of_steps (steps_of_strides hstrides)
      have hstand : Fitting source (Cursor.standOn source target) e := standOn hsound hrow
      rw [hexec] at hmodest ⊢
      have hbefore := hmodest.of_suffix (ledger_of_steps (steps_of_strides hstand.strides))
      exact (hstand.unmarked (hturned.of_strides hstrides hbefore) hmodest).trans
        (hunmarked hbefore)
    | false =>
      rw [hexec] at hmodest ⊢
      exact hunmarked hmodest

theorem next (hs : Sound d.cursor)
    (haim : ∀ n, d.cursor.position = .onRow n → d.cursor.MayAimAt (n + 1)) (rounds : Nat) :
    Fitting source (next source rounds) d := by
  unfold Cursor.next
  apply cursor_bind
  refine ofExcept_bind (fun _ => ensureOpen_not_timeout) fun _ _ => ?_
  split
  · exact moveTo hs (fun _ => .inl (by omega)) ..
  · next n hpos =>
    refine sum_bind (fun hrange => fits_iff.2 ?_) ?_
    · have hone := hs.one_le_row n hpos
      have hlt := hrange.row_lt n hpos
      omega
    · exact moveTo (d := noted d [n + 1]) hs (fun _ => haim n hpos) ..
  · exact .pure _

theorem previous (hs : Sound d.cursor) (rounds : Nat) :
    Fitting source (previous source rounds) d := by
  unfold Cursor.previous
  apply cursor_bind
  refine ofExcept_bind (fun _ => ensureOpen_not_timeout) fun _ _ => ?_
  split
  · exact .pure _
  · next n hpos =>
    refine sum_bind (fun hrange => fits_iff.2 ?_) ?_
    · have hone := hs.one_le_row n hpos
      have hlt := hrange.row_lt n hpos
      omega
    · refine moveTo (d := noted d [n + -1]) hs (fun hrange => .inl ?_) ..
      have hlt := hrange.row_lt n hpos
      omega
  · split
    · next last hlast =>
      exact moveTo hs (fun _ => .inr (by rw [hlast]; rfl)) ..
    · refine .bind (.ensureScrollable _) fun _ e _ hstrides => ?_
      have hs := hs.of_steps (steps_of_strides hstrides)
      refine .bind (.ensureFinalKnown rounds) fun last e hfound hstrides => ?_
      have hlast : e.cursor.finalRow = some last := finalRow_of_ensureFinalKnown hfound
      exact moveTo (hs.of_steps (steps_of_strides hstrides)) (fun _ => .inr (by rw [hlast]; rfl)) ..

/-- Counting back from the final row fits. -/
theorem fromEnd (hs : Sound d.cursor) {last row : Int} (hlast : d.cursor.finalRow = some last)
    (hrow : -2 ^ 63 ≤ row) (hneg : row < 0) (rounds : Nat) :
    Fitting source (do
      let target ← sum (← sum last 1) row
      if target < 1 then
        update fun c => { c with position := .beforeFirst }
        return false
      else
        Cursor.moveTo source rounds target (headingTo (← cursor).position target)) d := by
  refine sum_bind (fun hrange => fits_iff.2 ?_) (sum_bind (fun hrange => fits_iff.2 ?_) ?_)
  · have hmem := hrange.finalRow_mem last hlast
    omega
  · have hmem := hrange.finalRow_mem last hlast
    omega
  · split
    · have hpark : ∀ n, Position.beforeFirst ≠ .onRow n := by
        intro n hn
        cases hn
      exact ⟨.single (.park _ hpark), fun _ _ => rfl⟩
    · apply cursor_bind
      exact moveTo (d := noted (noted d [last + 1]) [last + 1 + row]) hs
        (fun _ => .inr (by rw [show (noted (noted d _) _).cursor.finalRow = _ from hlast]; rfl)) ..

theorem absolute (hs : Sound d.cursor) {row : Int} (hrow : -2 ^ 63 ≤ row)
    (haim : d.cursor.MayAimAt row) (rounds : Nat) :
    Fitting source (absolute source rounds row) d := by
  unfold Cursor.absolute
  apply cursor_bind
  refine ofExcept_bind (fun _ => ensureOpen_not_timeout) fun _ _ => ?_
  split
  · exact .fail rfl
  split
  · next hneg =>
    refine .bind (.ensureScrollable _) fun _ e _ hstrides => ?_
    have hs := hs.of_steps (steps_of_strides hstrides)
    refine .bind (.ensureFinalKnown rounds) fun last e hfound hstrides => ?_
    have hlast : e.cursor.finalRow = some last := finalRow_of_ensureFinalKnown hfound
    exact fromEnd (hs.of_steps (steps_of_strides hstrides)) hlast hrow hneg rounds
  · exact cursor_bind (moveTo hs (fun _ => haim) ..)

theorem relative (hs : Sound d.cursor) {delta : Int}
    (haim : ∀ n, d.cursor.position = .onRow n → d.cursor.MayAimAt (n + delta)) (rounds : Nat) :
    Fitting source (relative source rounds delta) d := by
  unfold Cursor.relative
  apply cursor_bind
  refine ofExcept_bind (fun _ => ensureOpen_not_timeout) fun _ _ => ?_
  split
  · next n hpos =>
    split
    · exact ofExcept_bind (fun _ => rowAt_not_timeout) fun _ _ => .pure _
    · refine moveTo hs (fun _ => (haim n hpos).imp_left fun hlt => ?_) ..
      unfold clamp
      omega
  · exact .fail rfl

theorem first (hs : Sound d.cursor) (rounds : Nat) : Fitting source (first source rounds) d := by
  unfold Cursor.first
  apply cursor_bind
  refine ofExcept_bind (fun _ => ensureOpen_not_timeout) fun _ _ => ?_
  refine .bind (.ensureScrollable _) fun _ _ _ hstrides => ?_
  exact absolute (hs.of_steps (steps_of_strides hstrides)) (by omega) (.inl (by omega)) rounds

theorem last (hs : Sound d.cursor) (rounds : Nat) : Fitting source (last source rounds) d := by
  unfold Cursor.last
  apply cursor_bind
  refine ofExcept_bind (fun _ => ensureOpen_not_timeout) fun _ _ => ?_
  refine .bind (.ensureScrollable _) fun _ _ _ hstrides => ?_
  exact absolute (hs.of_steps (steps_of_strides hstrides)) (by omega) (.inl (by omega)) rounds

theorem isLast (hs : Sound d.cursor)
    (haim : ∀ n, d.cursor.position = .onRow n → d.cursor.MayAimAt (n + 1)) (rounds : Nat) :
    Fitting source (isLast source rounds) d := by
  unfold Cursor.isLast
  apply cursor_bind
  refine ofExcept_bind (fun _ => ensureOpen_not_timeout) fun _ _ => ?_
  split
  · next n hpos =>
    have hone := hs.one_le_row n hpos
    refine sum_bind (fun hrange => fits_iff.2 ?_) ?_
    · have hlt := hrange.row_lt n hpos
      omega
    · have hlooked : Fitting source (Cursor.hasRow source rounds (n + 1)) (noted d [n + 1]) :=
        hasRow (d := noted d [n + 1]) (by omega) (fun _ => haim n hpos) rounds
      exact .bind hlooked fun _ _ _ _ => .pure _
  · exact .pure _

theorem isBeforeFirst (rounds : Nat) : Fitting source (isBeforeFirst source rounds) d := by
  unfold Cursor.isBeforeFirst
  apply cursor_bind
  refine ofExcept_bind (fun _ => ensureOpen_not_timeout) fun _ _ => ?_
  split
  · exact .hasRow (Int.le_refl 1) (fun _ => .inl (by omega)) rounds
  · exact .pure _

/-- Parking works nothing out. -/
theorem park (operation : String) {position : Position} (hpark : ∀ n, position ≠ .onRow n)
    (heading : Heading) : Fitting source (do
      ofExcept (← cursor).ensureOpen
      Cursor.ensureScrollable operation
      update fun c => { c with position := position, heading := heading }) d := by
  apply cursor_bind
  refine ofExcept_bind (fun _ => ensureOpen_not_timeout) fun _ _ => ?_
  refine .bind (.ensureScrollable _) fun _ e _ _ => ?_
  refine ⟨.tail (.single (.still (.turn e heading))) (.park _ hpark), fun _ _ => rfl⟩

end Fitting

/-! ## Calls -/

/-- Whether the row that a call is made for is one that the cursor may go for. -/
def Call.Aimed (c : Cursor H) : Call → Prop
  | .move .next | .move .isLast => ∀ n, c.position = .onRow n → c.MayAimAt (n + 1)
  | .move (.absolute row) => -2 ^ 63 ≤ row ∧ c.MayAimAt row
  | .move (.relative delta) => ∀ n, c.position = .onRow n → c.MayAimAt (n + delta)
  | _ => True

theorem overflowed_of_call {call : Call} (hrange : InRange d.cursor) (haim : call.Aimed d.cursor)
    (rounds : Nat) (hmodest : Modest (exec (call.perform source rounds) d).2.cursor.ledger) :
    (exec (call.perform source rounds) d).2.overflowed = d.overflowed := by
  have hs := hrange.sound
  cases call with
  | move m =>
    simp only [Call.perform, exec_map] at hmodest ⊢
    have hfit : Fitting source (m.perform source rounds) d := by
      cases m with
      | next => exact .next hs haim rounds
      | previous => exact .previous hs rounds
      | absolute row => exact .absolute hs haim.1 haim.2 rounds
      | relative delta => exact .relative hs haim rounds
      | first => exact .first hs rounds
      | last => exact .last hs rounds
      | isLast => exact .isLast hs haim rounds
      | isBeforeFirst => exact .isBeforeFirst rounds
    exact hfit.unmarked hrange hmodest
  | beforeFirst =>
    simp only [Call.perform, exec_bind_pure] at hmodest ⊢
    have hpark : ∀ n, Position.beforeFirst ≠ .onRow n := by
      intro n hn
      cases hn
    have hfit : Fitting source Cursor.beforeFirst d := .park _ hpark _
    exact hfit.unmarked hrange hmodest
  | afterLast =>
    simp only [Call.perform, exec_bind_pure] at hmodest ⊢
    have hpark : ∀ n, Position.afterLast ≠ .onRow n := by
      intro n hn
      cases hn
    have hfit : Fitting source Cursor.afterLast d := .park _ hpark _
    exact hfit.unmarked hrange hmodest
  | close =>
    simp only [Call.perform, exec_bind_pure]
    cases hclosed : d.cursor.closed with
    | true => rw [exec_close_of_closed source hclosed]
    | false => rw [exec_close_of_opened source hclosed]

/-- **Row numbers stay in range.** Whatever was called on a cursor before, a call works out no sum
of row numbers that leaves the range in which they travel, as long as the replies of the source are
modest and the call does not go for the last row number while the final row is unknown. The last row
of a fetch, which is worked out where records are kept, needs more: room for a fetch behind every
row that was gone for and every batch that came in. -/
theorem call_in_range {options : Options} {first : Results} {s : σ}
    (hreach : Reachable source options first s d) (hfirst : first.Modest) {call : Call}
    (haim : call.Aimed d.cursor) (rounds : Nat)
    (hmodest : Modest (exec (call.perform source rounds) d).2.cursor.ledger) :
    (exec (call.perform source rounds) d).2.overflowed = d.overflowed ∧
      (let ledger := (exec (call.perform source rounds) d).2.cursor.ledger
      (∀ b ∈ broughtBy (.ok first), b.last + options.fetchSize.toNat < 2 ^ 63 - 1) →
        LeavesRoom options.fetchSize.toNat ledger → ∀ flight outcome handle,
          .waited flight outcome handle ∈ ledger → ∀ n ∈ flight.endSums, fits n = true) := by
  obtain ⟨c, hstart, hsteps⟩ := hreach.steps
  have hcall : ReflTransGen (Step source) d (exec (call.perform source rounds) d).2 :=
    call_steps hreach.sound rounds call
  have hbefore := hmodest.of_suffix (ledger_of_steps hcall)
  refine ⟨overflowed_of_call ((InRange.of_start hstart hfirst).of_steps hsteps hbefore) haim rounds
    hmodest, fun hroom hleaves => ?_⟩
  refine ((EndsFit.of_start hstart hroom).of_steps (hsteps.trans hcall) ?_).awaited
  obtain ⟨-, -, rfl⟩ := Cursor.of_start hstart
  exact hleaves

/-- A cursor on the prompt source that starts with some results. -/
def Script.promptAfter (first : Results) : Desk Script (List (Except Fault Results)) where
  cursor := (blank .inPairs).extend first
  source := .prompt
  overflowed := false

/-- The last row number but one may be gone for, far as it is from the five rows there are. The one
before it leaves room for a fetch, and its fetch is awaited. -/
theorem call_in_range_far :
    (exec (Call.perform Script.source 3 (.move (.absolute (2 ^ 63 - 2))))
      (Script.promptAfter (Engine.tableBatch 5 1 2))).2.overflowed = false ∧
    (let ledger := (exec (Call.perform Script.source 3 (.move (.absolute (2 ^ 63 - 3))))
      (Script.promptAfter (Engine.tableBatch 5 1 2))).2.cursor.ledger
    ledger.length = 2 ∧ ∀ flight outcome handle, .waited flight outcome handle ∈ ledger →
      ∀ n ∈ flight.endSums, fits n = true) := by
  have hreach : Reachable Script.source .inPairs (Engine.tableBatch 5 1 2) .prompt
      (Script.promptAfter (Engine.tableBatch 5 1 2)) := .start rfl
  have haim : Call.Aimed (Script.promptAfter (Engine.tableBatch 5 1 2)).cursor
      (.move (.absolute (2 ^ 63 - 2))) := ⟨by decide, .inl (by decide)⟩
  have haim' : Call.Aimed (Script.promptAfter (Engine.tableBatch 5 1 2)).cursor
      (.move (.absolute (2 ^ 63 - 3))) := ⟨by decide, .inl (by decide)⟩
  have hmodest : ∀ entry ∈ (exec (Call.perform Script.source 3 (.move (.absolute (2 ^ 63 - 2))))
      (Script.promptAfter (Engine.tableBatch 5 1 2))).2.cursor.ledger, entry.Modest := by
    decide +kernel
  have hmodest' : ∀ entry ∈ (exec (Call.perform Script.source 3 (.move (.absolute (2 ^ 63 - 3))))
      (Script.promptAfter (Engine.tableBatch 5 1 2))).2.cursor.ledger, entry.Modest := by
    decide +kernel
  have hleaves : ∀ entry ∈ (exec (Call.perform Script.source 3 (.move (.absolute (2 ^ 63 - 3))))
      (Script.promptAfter (Engine.tableBatch 5 1 2))).2.cursor.ledger, entry.LeavesRoom 2 := by
    decide +kernel
  exact ⟨(call_in_range hreach (by decide) haim 3 hmodest).1, by decide +kernel,
    (call_in_range hreach (by decide) haim' 3 hmodest').2 (by decide) hleaves⟩

/-- **Beyond this, sums leave the range.** It is enough to go for the last row number, or to be told
of a batch with that row, or of a final row that is this number or negative. -/
theorem last_number_overflows :
    (exec (Call.perform Script.source 3 (.move (.absolute (2 ^ 63 - 1))))
      (Script.promptAfter (Engine.tableBatch 5 1 2))).2.overflowed = true ∧
    (Results.batch 0x7FFFFFFFFFFFFFFF [[]] false).validate = .ok () ∧
    (exec (Call.perform Script.source 3 (.move .last))
      (Script.promptAfter (Results.batch 0x7FFFFFFFFFFFFFFF [[]] false))).2.overflowed = true ∧
    (Results.pastEnd 1 0x7FFFFFFFFFFFFFFF).validate = .ok () ∧
    (exec (Call.perform Script.source 3 (.move .last))
      (Script.promptAfter (Results.pastEnd 1 0x7FFFFFFFFFFFFFFF))).2.overflowed = true ∧
    (Results.pastEnd 1 (-2)).validate = .ok () ∧
    (exec (Call.perform Script.source 3 (.move (.absolute (-2 ^ 63))))
      (Script.promptAfter (Results.pastEnd 1 (-2)))).2.overflowed = true := by
  decide +kernel

end Cursor

end QueryClient
