import QueryClient.Proofs.Engine.Timekeeping

/-!
# Waits keep their time

A wait looks at the clock every so often, and whenever something comes in. None of these looks ends
it: it ends when the outcome comes, or at its deadline, whichever is first, and how often it looks
makes no difference. A call that timed out waits on. So of any number of waits for one call those
that end before the outcome comes time out, the next one has it, and there is nothing left for the
others.
-/

namespace QueryClient.Session

open Calls Delivery

variable {σ : Type} {link : Link σ} {Brings : List Delivery → σ → Prop} {key : UInt64}
  {arrival : Option (Instant × Except Fault Reply)} {soonest : Instant} {s : Session σ}

/-! ## One wait -/

/-- How a wait ends that keeps its time: with the outcome when it comes, or else at the deadline,
and then the call waits on. -/
inductive Waited (link : Link σ) (Brings : List Delivery → σ → Prop)
    (arrival : Option (Instant × Except Fault Reply)) (timeout : Duration) (deadline : Instant)
    (handle : Handle) : Except Fault Value × Handle × Session σ → Prop
  | answered {outcome : Except Fault Reply} {t : Session σ}
      (harrival : arrival = some (link.now t.link, outcome)) (h : link.now t.link ≤ deadline) :
      Waited link Brings arrival timeout deadline handle
        (conclude outcome, { handle with finished := true }, t)
  | timedOut {t : Session σ} (h : t.Awaits link Brings handle.key arrival (deadline + 1))
      (hnow : link.now t.link = deadline) :
      Waited link Brings arrival timeout deadline handle
        (.error (.timeout handle.method timeout), handle, t)

theorem waitUntil_of_answered {handle : Handle} {outcome : Except Fault Reply}
    (h : s.calls.Answered handle.key outcome) (timeout : Duration) (deadline : Instant)
    {looks : Nat} (hlooks : 0 < looks) :
    waitUntil link timeout deadline looks handle s =
      (conclude outcome, { handle with finished := true },
        { s with calls := s.calls.forget handle.key }) := by
  obtain ⟨looks, rfl⟩ := Nat.exists_eq_add_one.2 hlooks
  rw [waitUntil, outcome?_of_kept h.kept]

/-- The looks suffice: each of them is later than the one before. -/
theorem Awaits.waitUntil (hlink : link.Punctual Brings) {handle : Handle}
    (h : s.Awaits link Brings handle.key arrival soonest) (timeout : Duration)
    {deadline : Instant} (hnow : link.now s.link ≤ deadline)
    (hlast : link.now s.link = deadline → soonest = deadline + 1) {looks : Nat}
    (hlooks : deadline + 2 ≤ looks + soonest) :
    Waited link Brings arrival timeout deadline handle
      (waitUntil link timeout deadline looks handle s) := by
  induction looks generalizing s soonest with
  | zero =>
    have := h.soon
    lia
  | succ looks ih =>
    rw [Session.waitUntil, h.unanswered]
    by_cases hover : deadline ≤ link.now s.link
    · have hend := hnow.antisymm hover
      simp only [if_pos hover]
      exact .timedOut (hlast hend ▸ h) hend
    · simp only [if_neg hover]
      have hwakes := h.wakes
      have hnext : link.now s.link <
          min deadline (link.now s.link + s.settings.socketTimeout.nanoseconds) := by lia
      obtain ⟨hlater, hle, hlooked⟩ := h.look hlink hnext
      generalize listen link _ s = t at hlater hle hlooked ⊢
      have htime : link.now t.link ≤ deadline := hle.trans (Nat.min_le_left _ _)
      cases hlooked with
      | waits hwaits => exact ih hwaits htime (congrArg (· + 1)) (by lia)
      | answered harrival hanswered =>
        rw [waitUntil_of_answered hanswered timeout deadline (by lia)]
        exact .answered harrival htime

theorem wait_of_unfinished {timeout : Duration} {handle : Handle}
    (hopen : handle.finished = false) (htimeout : 0 < timeout.nanoseconds) :
    s.wait link timeout handle = waitUntil link timeout
      (link.now s.link + timeout.nanoseconds) (Link.looks timeout) handle s := by
  have hnonzero : timeout.isZero = false := beq_eq_false_iff_ne.2 htimeout.ne'
  rw [wait, hopen, hnonzero]
  rfl

theorem wait_of_answered {timeout : Duration} {handle : Handle}
    (hopen : handle.finished = false) (htimeout : 0 < timeout.nanoseconds)
    {outcome : Except Fault Reply} (h : s.calls.Answered handle.key outcome) :
    s.wait link timeout handle =
      (conclude outcome, { handle with finished := true },
        { s with calls := s.calls.forget handle.key }) := by
  rw [wait_of_unfinished hopen htimeout]
  exact waitUntil_of_answered h timeout _ (Nat.succ_pos _)

theorem Awaits.wait (hlink : link.Punctual Brings) {handle : Handle}
    (hopen : handle.finished = false) (h : s.Awaits link Brings handle.key arrival soonest)
    {timeout : Duration} (htimeout : 0 < timeout.nanoseconds) :
    Waited link Brings arrival timeout (link.now s.link + timeout.nanoseconds) handle
      (s.wait link timeout handle) := by
  have hreached := h.reached
  rw [wait_of_unfinished hopen htimeout]
  exact h.waitUntil hlink timeout (by lia) (by lia) (by unfold Link.looks; lia)

/-- A call that has no outcome yet waits for what the link will bring. -/
theorem awaits_now (hlink : link.Punctual Brings) {ds : List Delivery}
    (hbrings : Brings ds s.link) (hs : s.Attentive)
    (hwakes : 0 < s.settings.socketTimeout.nanoseconds) (hnone : s.calls.outcome? key = none) :
    s.Awaits link Brings key (arrival? key (link.now s.link) ds s) (link.now s.link) :=
  ⟨hs, hwakes, hnone, le_rfl, Nat.le_succ _, ds, hbrings, hlink.inOrder hbrings, rfl⟩

/-- Whether the outcome is there or not, a wait keeps its time. -/
theorem waited_of_entered (hlink : link.Punctual Brings) {ds : List Delivery}
    (hbrings : Brings ds s.link) (hs : s.Attentive)
    (hwakes : 0 < s.settings.socketTimeout.nanoseconds) {handle : Handle}
    (hopen : handle.finished = false) (hcall : s.calls.Entered handle.key)
    {timeout : Duration} (htimeout : 0 < timeout.nanoseconds) :
    Waited link Brings (arrival? handle.key (link.now s.link) ds s) timeout
      (link.now s.link + timeout.nanoseconds) handle (s.wait link timeout handle) := by
  cases houtcome : s.calls.outcome? handle.key with
  | none => exact (awaits_now hlink hbrings hs hwakes houtcome).wait hlink hopen htimeout
  | some outcome =>
    rw [wait_of_answered hopen htimeout (hcall.answered houtcome)]
    exact .answered (arrival?_of_answered houtcome ds) (Nat.le_add_right _ _)

/-! ## Wait after wait -/

/-- A wait, and the time that passes before it. -/
structure Round where
  pause : Duration
  timeout : Duration
deriving Repr

/-- How long a wait that times out takes, with the time before it. -/
def Round.length (round : Round) : Nat :=
  round.pause.nanoseconds + round.timeout.nanoseconds

/-- How long waits take that all time out. -/
def span (rounds : List Round) : Nat :=
  (rounds.map Round.length).sum

/-- Waits for a call, time after time; says what each wait gives. -/
def waits (link : Link σ) : List Round → Handle → Session σ → List (Except Fault Value)
  | [], _, _ => []
  | round :: later, handle, s =>
    let (outcome, handle, s) := (s.rest link round.pause).wait link round.timeout handle
    outcome :: waits link later handle s

/-- How a call stands at a moment: it waits, or it had its outcome by then. -/
inductive Stands (link : Link σ) (Brings : List Delivery → σ → Prop) (key : UInt64)
    (arrival : Option (Instant × Except Fault Reply)) (moment : Instant) (s : Session σ) : Prop
  | waits {soonest : Instant} (h : s.Awaits link Brings key arrival soonest)
      (hnow : link.now s.link = moment)
  | answered {a : Instant} {outcome : Except Fault Reply} (harrival : arrival = some (a, outcome))
      (hle : a ≤ moment) (h : s.calls.Answered key outcome)

theorem stands_now (hlink : link.Punctual Brings) {ds : List Delivery}
    (hbrings : Brings ds s.link) (hs : s.Attentive)
    (hwakes : 0 < s.settings.socketTimeout.nanoseconds) (hcall : s.calls.Entered key) :
    Stands link Brings key (arrival? key (link.now s.link) ds s) (link.now s.link) s := by
  cases houtcome : s.calls.outcome? key with
  | none => exact .waits (awaits_now hlink hbrings hs hwakes houtcome) rfl
  | some outcome =>
    exact .answered (arrival?_of_answered houtcome ds) le_rfl (hcall.answered houtcome)

theorem answered_restUntil {outcome : Except Fault Reply} (h : s.calls.Answered key outcome)
    (moment : Instant) (looks : Nat) :
    (restUntil link moment looks s).calls.Answered key outcome := by
  induction looks generalizing s with
  | zero => exact h
  | succ looks ih =>
    rw [restUntil]
    split
    · exact h
    · have htime : ({ s with link := (link.await moment s.link).2 } : Session σ).calls.Answered
          key outcome := h
      exact ih (answered_takeIn htime _)

theorem Awaits.restUntil (hlink : link.Punctual Brings)
    (h : s.Awaits link Brings key arrival soonest) {moment : Instant}
    (hnow : link.now s.link ≤ moment) {looks : Nat} (hlooks : moment + 2 ≤ looks + soonest) :
    Stands link Brings key arrival moment (restUntil link moment looks s) := by
  induction looks generalizing s soonest with
  | zero =>
    have := h.soon
    lia
  | succ looks ih =>
    rw [Session.restUntil]
    split
    · next hover => exact .waits h (hnow.antisymm hover)
    · next hover =>
      obtain ⟨hlater, hle, hlooked⟩ := h.look hlink (Nat.lt_of_not_le hover)
      cases hlooked with
      | waits hwaits => exact ih hwaits hle (by lia)
      | answered harrival hanswered =>
        exact .answered harrival hle (answered_restUntil hanswered moment looks)

variable {moment : Instant} {handle : Handle}

theorem Stands.rest (hlink : link.Punctual Brings) (h : Stands link Brings key arrival moment s)
    (pause : Duration) :
    Stands link Brings key arrival (moment + pause.nanoseconds) (s.rest link pause) := by
  cases h with
  | waits hwaits hnow =>
    have hreached := hwaits.reached
    subst hnow
    exact hwaits.restUntil hlink (Nat.le_add_right _ _) (by unfold Link.looks; lia)
  | answered harrival hle hanswered =>
    exact .answered harrival (hle.trans (Nat.le_add_right _ _)) (answered_restUntil hanswered _ _)

/-- A wait and the time before it go by without an outcome, or the outcome comes in that time. -/
theorem Stands.round (hlink : link.Punctual Brings) (hopen : handle.finished = false)
    (h : Stands link Brings handle.key arrival moment s) {round : Round}
    (htimeout : 0 < round.timeout.nanoseconds) :
    (∃ t, (s.rest link round.pause).wait link round.timeout handle =
        (.error (.timeout handle.method round.timeout), handle, t) ∧
      Stands link Brings handle.key arrival (moment + round.length) t ∧
      ∀ a outcome, arrival = some (a, outcome) → moment + round.length < a) ∨
    ∃ a outcome t, (s.rest link round.pause).wait link round.timeout handle =
        (conclude outcome, { handle with finished := true }, t) ∧
      arrival = some (a, outcome) ∧ a ≤ moment + round.length := by
  have hrested := h.rest hlink round.pause
  generalize s.rest link round.pause = t at hrested ⊢
  cases hrested with
  | waits hwaits hnow =>
    have hwaited := hwaits.wait hlink hopen htimeout
    rw [hnow, Nat.add_assoc] at hwaited
    generalize t.wait link round.timeout handle = result at hwaited ⊢
    cases hwaited with
    | answered harrival hle => exact .inr ⟨_, _, _, rfl, harrival, hle⟩
    | timedOut hlater hend =>
      exact .inl ⟨_, rfl, .waits hlater hend, fun a outcome harrival => hlater.le harrival⟩
  | answered harrival hle hanswered =>
    exact .inr ⟨_, _, _, wait_of_answered hopen htimeout hanswered, harrival,
      hle.trans (by unfold Round.length; lia)⟩

/-- Once the outcome has been picked up there is nothing left. -/
theorem waits_of_finished (hfinished : handle.finished = true) (rounds : List Round)
    (s : Session σ) : waits link rounds handle s =
      rounds.map fun _ => .error (.protocol (.replyConsumed handle.method)) := by
  induction rounds generalizing s with
  | nil => rfl
  | cons round later ih =>
    rw [waits, wait, if_pos hfinished]
    exact congrArg _ (ih _)

section Rounds

variable {early : List Round} (hlink : link.Punctual Brings)
include hlink

/-- Waits that end before the outcome comes time out, and what comes after them is as if it came
first. -/
theorem Stands.waits_append (hopen : handle.finished = false)
    (h : Stands link Brings handle.key arrival moment s)
    (htimeouts : ∀ round ∈ early, 0 < round.timeout.nanoseconds)
    (hlate : early ≠ [] → ∀ a outcome, arrival = some (a, outcome) → moment + span early < a)
    (late : List Round) : ∃ t, Stands link Brings handle.key arrival (moment + span early) t ∧
      Session.waits link (early ++ late) handle s =
        (early.map fun round => .error (.timeout handle.method round.timeout)) ++
          Session.waits link late handle t := by
  induction early generalizing moment s with
  | nil => exact ⟨s, h, rfl⟩
  | cons round later ih =>
    have hspan : moment + span (round :: later) = moment + round.length + span later := by
      simp [span, Nat.add_assoc]
    rw [List.forall_mem_cons] at htimeouts
    rw [hspan] at hlate ⊢
    have hlate := hlate (List.cons_ne_nil _ _)
    rcases h.round hlink hopen htimeouts.1 with ⟨t, hwait, hstands, -⟩ | ⟨a, outcome, t, -, ha, hle⟩
    · obtain ⟨u, hstands', hwaits⟩ := ih hstands htimeouts.2 fun _ => hlate
      refine ⟨u, hstands', ?_⟩
      rw [List.cons_append, Session.waits, hwait]
      exact congrArg _ hwaits
    · have := hlate a outcome ha
      lia

/-- The first wait that outlasts the coming of the outcome has it, and no other one has. -/
theorem Stands.waits_eq (hopen : handle.finished = false)
    (h : Stands link Brings handle.key arrival moment s) {round : Round} {late : List Round}
    (htimeouts : ∀ other ∈ early ++ round :: late, 0 < other.timeout.nanoseconds)
    {a : Instant} {outcome : Except Fault Reply} (harrival : arrival = some (a, outcome))
    (hlate : early ≠ [] → moment + span early < a)
    (hle : a ≤ moment + span (early ++ [round])) :
    Session.waits link (early ++ round :: late) handle s =
      (early.map fun other => .error (.timeout handle.method other.timeout)) ++
        conclude outcome ::
          late.map fun _ => .error (.protocol (.replyConsumed handle.method)) := by
  rw [List.forall_mem_append, List.forall_mem_cons] at htimeouts
  obtain ⟨hearly, hround, -⟩ := htimeouts
  have hmiss : early ≠ [] → ∀ b other, arrival = some (b, other) → moment + span early < b := by
    intro hne b other hother
    cases harrival.symm.trans hother
    exact hlate hne
  obtain ⟨t, hstands, hwaits⟩ := h.waits_append hlink hopen hearly hmiss (round :: late)
  rw [hwaits, Session.waits]
  rcases hstands.round hlink hopen hround with ⟨u, -, -, hafter⟩ | ⟨b, other, u, hwait, hother, -⟩
  · have := hafter a outcome harrival
    simp only [span, List.map_append, List.sum_append, List.map_cons, List.map_nil,
      List.sum_cons, List.sum_nil] at hle this
    lia
  · cases harrival.symm.trans hother
    rw [hwait]
    exact congrArg _ (congrArg _ (waits_of_finished rfl late u))

end Rounds

/-! ## Waits and the clock -/

/-- The session if it looks at the clock this often. -/
def paced (cadence : Duration) (s : Session σ) : Session σ :=
  { s with settings := { s.settings with socketTimeout := cadence } }

theorem takeIn_paced (cadence : Duration) (news : Inflow) (s : Session σ) :
    (s.paced cadence).takeIn news = (s.takeIn news).paced cadence := by
  unfold takeIn paced
  split <;> rfl

theorem arrival?_paced (cadence : Duration) (now : Instant) (ds : List Delivery)
    (s : Session σ) : arrival? key now ds (s.paced cadence) = arrival? key now ds s := by
  induction ds generalizing now s with
  | nil => rfl
  | cons d later ih =>
    simp only [arrival?, takeIn_paced, ih]
    rfl

section Waited

variable {timeout : Duration} {deadline : Instant}
  {result other : Except Fault Value × Handle × Session σ}

theorem Waited.of_le (h : Waited link Brings arrival timeout deadline handle result) {a : Instant}
    {outcome : Except Fault Reply} (harrival : arrival = some (a, outcome)) (hle : a ≤ deadline) :
    ∃ t, result = (conclude outcome, { handle with finished := true }, t) ∧
      link.now t.link = a := by
  cases h with
  | answered hcomes _ =>
    cases hcomes.symm.trans harrival
    exact ⟨_, rfl, rfl⟩
  | timedOut hwaits _ => exact absurd hle (Nat.not_le_of_lt (hwaits.le harrival))

theorem Waited.of_lt (h : Waited link Brings arrival timeout deadline handle result)
    (hlate : ∀ a outcome, arrival = some (a, outcome) → deadline < a) :
    ∃ t, result = (.error (.timeout handle.method timeout), handle, t) ∧
      link.now t.link = deadline ∧ handle.key ∈ t.calls.waiting := by
  cases h with
  | answered hcomes hle => exact absurd hle (Nat.not_le_of_lt (hlate _ _ hcomes))
  | timedOut hwaits hnow => exact ⟨_, rfl, hnow, (outcome?_eq_none_iff.1 hwaits.unanswered).2⟩

/-- Two waits that keep the same time end alike. -/
theorem Waited.unique (h : Waited link Brings arrival timeout deadline handle result)
    (hother : Waited link Brings arrival timeout deadline handle other) :
    result.1 = other.1 ∧ result.2.1 = other.2.1 ∧
      link.now result.2.2.link = link.now other.2.2.link := by
  cases h with
  | answered harrival hle =>
    obtain ⟨t, rfl, hnow⟩ := hother.of_le harrival hle
    exact ⟨rfl, rfl, hnow.symm⟩
  | timedOut hwaits hnow =>
    obtain ⟨t, rfl, hnow', -⟩ := hother.of_lt fun a outcome => hwaits.le
    exact ⟨rfl, rfl, hnow.trans hnow'.symm⟩

end Waited

/-- Waits keep their time, however often they look at the clock. A wait has the outcome as soon as
it comes, if that is by the deadline, and otherwise it times out at the deadline and the call waits
on. Of any number of waits for one call, with or without time between them, those that end before
the outcome comes time out, the first one that outlasts it has it, and all others are refused. -/
theorem waits_keep_time (hlink : link.Punctual Brings) {ds : List Delivery}
    (hbrings : Brings ds s.link) (hs : s.Attentive) {handle : Handle}
    (hopen : handle.finished = false) (hcall : s.calls.Entered handle.key)
    (hforeseen : arrival? handle.key (link.now s.link) ds s = arrival) :
    (∀ cadence timeout : Duration, 0 < cadence.nanoseconds → 0 < timeout.nanoseconds →
      (∀ a outcome, arrival = some (a, outcome) → a ≤ link.now s.link + timeout.nanoseconds →
        ∃ t, (s.paced cadence).wait link timeout handle =
          (conclude outcome, { handle with finished := true }, t) ∧ link.now t.link = a) ∧
      ((∀ a outcome, arrival = some (a, outcome) → link.now s.link + timeout.nanoseconds < a) →
        ∃ t, (s.paced cadence).wait link timeout handle =
          (.error (.timeout handle.method timeout), handle, t) ∧
          link.now t.link = link.now s.link + timeout.nanoseconds ∧
          handle.key ∈ t.calls.waiting) ∧
      ∀ other : Duration, 0 < other.nanoseconds →
        let result := (s.paced cadence).wait link timeout handle
        let result' := (s.paced other).wait link timeout handle
        result.1 = result'.1 ∧ result.2.1 = result'.2.1 ∧
          link.now result.2.2.link = link.now result'.2.2.link) ∧
    ∀ (cadence : Duration) (rounds : List Round), 0 < cadence.nanoseconds →
      (∀ round ∈ rounds, 0 < round.timeout.nanoseconds) →
      ((∀ a outcome, arrival = some (a, outcome) → link.now s.link + span rounds < a) →
        waits link rounds handle (s.paced cadence) =
          rounds.map fun round => .error (.timeout handle.method round.timeout)) ∧
      ∀ early round late a outcome, rounds = early ++ round :: late →
        arrival = some (a, outcome) → (early ≠ [] → link.now s.link + span early < a) →
        a ≤ link.now s.link + span (early ++ [round]) →
        waits link rounds handle (s.paced cadence) =
          (early.map fun round => .error (.timeout handle.method round.timeout)) ++
            conclude outcome ::
              late.map fun _ => .error (.protocol (.replyConsumed handle.method)) := by
  have hpaced : ∀ cadence, (s.paced cadence).Attentive := fun _ => ⟨hs.drained, hs.deaf⟩
  have hforeseen' : ∀ cadence, arrival? handle.key (link.now (s.paced cadence).link) ds
      (s.paced cadence) = arrival := fun cadence => (arrival?_paced cadence _ ds s).trans hforeseen
  have hwaited : ∀ cadence timeout : Duration, 0 < cadence.nanoseconds → 0 < timeout.nanoseconds →
      Waited link Brings arrival timeout (link.now s.link + timeout.nanoseconds) handle
        ((s.paced cadence).wait link timeout handle) := fun cadence timeout hcadence htimeout =>
    hforeseen' cadence ▸ waited_of_entered (s := s.paced cadence) hlink hbrings (hpaced cadence)
      hcadence hopen hcall htimeout
  have hstands : ∀ cadence : Duration, 0 < cadence.nanoseconds →
      Stands link Brings handle.key arrival (link.now s.link) (s.paced cadence) :=
    fun cadence hcadence =>
      hforeseen' cadence ▸ stands_now (s := s.paced cadence) hlink hbrings (hpaced cadence) hcadence
        hcall
  refine ⟨fun cadence timeout hcadence htimeout => ⟨?_, ?_, ?_⟩, fun cadence rounds hcadence
    htimeouts => ⟨?_, ?_⟩⟩
  · exact fun a outcome => (hwaited cadence timeout hcadence htimeout).of_le
  · exact (hwaited cadence timeout hcadence htimeout).of_lt
  · intro other hother
    exact (hwaited cadence timeout hcadence htimeout).unique (hwaited other timeout hother htimeout)
  · intro hlate
    obtain ⟨t, -, hwaits⟩ := (hstands cadence hcadence).waits_append hlink hopen htimeouts
      (fun _ => hlate) []
    rwa [List.append_nil, waits, List.append_nil] at hwaits
  · rintro early round late a outcome rfl harrival hlate hle
    exact (hstands cadence hcadence).waits_eq hlink hopen htimeouts harrival hlate hle

/-- An engine that takes thirty milliseconds over a ping. -/
def slowPlan : Engine.Plan :=
  ⟨.greets (.handshake Handshake.client), [("ping", [⟨.serve, .milliseconds 30⟩])], 0, none, [],
    .empty⟩

/-- A session with it, in which a ping is under way. -/
def pinged : Session Engine :=
  match connect Engine.link Settings.standard (Engine.start slowPlan) with
  | .ok s => (exec (invoke Engine.link .logon "ping" []) s).2
  | .error _ => start Settings.standard Handshake.client (Engine.start slowPlan)

theorem attentive_pinged : pinged.Attentive := by
  unfold pinged
  split
  · next hconnect => exact (attentive_connect hconnect).invoke Engine.link .logon "ping" []
  · exact attentive_start Settings.standard Handshake.client (Engine.start slowPlan)

theorem brings_pinged : pinged.link.Brings pinged.link.work.dues where
  ready :=
    { heardOut := Inflow.drained_of_size_lt rfl (by decide +kernel)
      unsaid := by decide +kernel
      talking := by decide +kernel
      inOrder := by decide +kernel
      nonempty := by decide +kernel }
  dues := rfl

/-- A wait of twenty milliseconds. -/
def shortRound : Round := ⟨.seconds 0, .milliseconds 20⟩

/-- Three waits for a pong, of twenty milliseconds each: the first one is too short, the second one
has it, and the third one is one too many. It does not matter how often they look at the clock. -/
theorem waits_keep_time_pinged : ∃ outcome,
    arrival? 1 0 pinged.link.work.dues pinged = some (30000000, outcome) ∧
    ∀ cadence : Duration, 0 < cadence.nanoseconds →
      waits Engine.link [shortRound, shortRound, shortRound] ⟨1, "ping", false⟩
          (pinged.paced cadence) =
        [.error (.timeout "ping" (.milliseconds 20)), conclude outcome,
          .error (.protocol (.replyConsumed "ping"))] := by
  have hmoment : (arrival? 1 0 pinged.link.work.dues pinged).map Prod.fst = some 30000000 := by
    decide +kernel
  obtain ⟨⟨a, outcome⟩, hforeseen, rfl⟩ := Option.map_eq_some_iff.1 hmoment
  refine ⟨outcome, hforeseen, fun cadence hcadence => ?_⟩
  have hnow : Engine.link.now pinged.link = 0 := by decide +kernel
  have hopen : (⟨1, "ping", false⟩ : Handle).finished = false := rfl
  have hcall : pinged.calls.Entered 1 :=
    ⟨fun _ => Option.isNone_iff_eq_none.1 (by decide +kernel), fun _ => by decide +kernel⟩
  rw [← hnow] at hforeseen
  obtain ⟨-, hrounds⟩ := waits_keep_time Engine.punctual_link brings_pinged attentive_pinged hopen
    hcall hforeseen
  have hwaits := (hrounds cadence [shortRound, shortRound, shortRound] hcadence (by decide)).2
    [shortRound] shortRound [shortRound] 30000000 outcome rfl rfl
  rw [hnow] at hwaits
  exact hwaits (fun _ => by decide) (by decide)

end QueryClient.Session
