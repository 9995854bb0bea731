import QueryClient.Proofs.Session.Fatality
import QueryClient.Proofs.Session.Sending
import QueryClient.Proofs.Wire.Draining

/-!
# What a link brings, and when

A link that keeps time brings its deliveries one after another, each at its own moment. To wait for
longer than up to the next one gives just that one, at the moment it comes; to wait for less gives
nothing, at the moment waited for. So it is settled by the deliveries alone when a call has its
outcome, and looking in between changes nothing.
-/

namespace QueryClient

variable {σ : Type}

/-- What comes in at one moment, and how the flow goes on after it. -/
structure Delivery where
  moment : Instant
  news : Inflow
deriving Repr

namespace Delivery

/-- Whether deliveries come one after another, the first of them not before some moment. All that
comes in at one moment is one delivery. -/
def InOrder : (soonest : Instant) → List Delivery → Prop
  | _, [] => True
  | soonest, d :: later => soonest ≤ d.moment ∧ InOrder (d.moment + 1) later

instance decidableInOrder : (soonest : Instant) → (ds : List Delivery) →
    Decidable (InOrder soonest ds)
  | _, [] => isTrue trivial
  | soonest, d :: later =>
    have := decidableInOrder (d.moment + 1) later
    inferInstanceAs (Decidable (soonest ≤ d.moment ∧ InOrder (d.moment + 1) later))

theorem InOrder.le {soonest : Instant} {ds : List Delivery} (h : InOrder soonest ds) :
    ∀ d ∈ ds, soonest ≤ d.moment := by
  induction ds generalizing soonest with
  | nil => simp
  | cons first later ih =>
    rintro d (_ | ⟨_, hmem⟩)
    · exact h.1
    · exact h.1.trans ((Nat.le_succ _).trans (ih h.2 d hmem))

theorem InOrder.mono {sooner soonest : Instant} {ds : List Delivery} (h : InOrder soonest ds)
    (hle : sooner ≤ soonest) : InOrder sooner ds := by
  cases ds with
  | nil => trivial
  | cons first later => exact ⟨hle.trans h.1, h.2⟩

/-- By some moment the first delivery is due, or none of them is. -/
theorem InOrder.due_or {soonest : Instant} {ds : List Delivery} (h : InOrder soonest ds)
    (moment : Instant) :
    (∃ d later, ds = d :: later ∧ d.moment ≤ moment) ∨
      (∀ d ∈ ds, moment < d.moment) ∧ InOrder (moment + 1) ds := by
  cases ds with
  | nil => exact .inr ⟨by simp, trivial⟩
  | cons first later =>
    by_cases hdue : first.moment ≤ moment
    · exact .inl ⟨first, later, rfl, hdue⟩
    · have horder : InOrder (moment + 1) (first :: later) := ⟨Nat.lt_of_not_le hdue, h.2⟩
      exact .inr ⟨horder.le, horder⟩

end Delivery

open Delivery in
/-- A link that keeps time. `Brings ds x` says that it will bring just the deliveries `ds` from
state `x` on, for as long as the flow goes on. A wait takes what comes by its end, the very end
included, and otherwise ends on time. -/
structure Link.Punctual (link : Link σ) (Brings : List Delivery → σ → Prop) : Prop where
  inOrder : ∀ {ds x}, Brings ds x → InOrder (link.now x) ds
  quiet : ∀ {ds x moment}, Brings ds x → link.now x ≤ moment → (∀ d ∈ ds, moment < d.moment) →
    ∃ y, link.await moment x = (⟨[], .quiet⟩, y) ∧ link.now y = moment ∧ Brings ds y
  delivers : ∀ {d ds x moment}, Brings (d :: ds) x → d.moment ≤ moment →
    ∃ y, link.await moment x = (d.news, y) ∧ link.now y = d.moment ∧
      (d.news.ending = .quiet → Brings ds y)

/-! ## The call of a handle -/

namespace Calls

variable {calls : Calls} {key : UInt64}

/-- Whether a call is in the table: either it waits or its outcome is kept. -/
def Entered (key : UInt64) (calls : Calls) : Prop :=
  key ∈ calls.waiting ↔ calls.kept key = none

theorem Entered.settle (h : calls.Entered key) (other : UInt64) (outcome : Except Fault Reply) :
    (calls.settle other outcome).2.Entered key := by
  rw [Entered, mem_waiting_settle, kept_settle]
  split
  · next hown => simp [hown.1]
  · next hother => exact ⟨fun hmem => h.1 hmem.1, fun hnone =>
      ⟨h.2 hnone, fun heq => hother ⟨heq, heq ▸ h.2 hnone⟩⟩⟩

theorem Entered.shutDown (h : calls.Entered key) (cause : Shutdown) :
    (calls.shutDown cause).Entered key := by
  rw [Entered, waiting_shutDown, kept_shutDown]
  split
  · simp
  · next hgone => simpa using mt h.2 hgone

theorem Entered.receive (h : calls.Entered key) (arrival : Except Fault Message) :
    (calls.receive arrival).2.Entered key := by
  cases arrival using arrival_cases with
  | answer reply hvalid => simpa [Calls.receive, hvalid, complete] using h.settle _ _
  | malformed reply fault hvalid =>
    simpa [Calls.receive, hvalid, fail, lose] using (h.settle _ _).shutDown _
  | unsolicited m hm => simpa [Calls.receive] using h
  | failure fault => simpa [Calls.receive, lose] using h.shutDown _

theorem Entered.receiveAll (h : calls.Entered key) (arrivals : List (Except Fault Message)) :
    (receiveAll arrivals calls).2.Entered key := by
  induction arrivals generalizing calls with
  | nil => exact h
  | cons arrival rest ih =>
    cases hending : ending arrival with
    | some fault =>
      rw [receiveAll_of_ending hending]
      exact h.receive arrival
    | none =>
      rw [receiveAll_of_goesOn hending]
      exact ih (h.receive arrival)

/-- A call whose outcome is kept for it, whatever else comes in. -/
structure Answered (key : UInt64) (outcome : Except Fault Reply) (calls : Calls) : Prop where
  gone : key ∉ calls.waiting
  kept : calls.kept key = some outcome

theorem Entered.answered (h : calls.Entered key) {outcome : Except Fault Reply}
    (houtcome : calls.outcome? key = some outcome) : calls.Answered key outcome := by
  have hgone : key ∉ calls.waiting := fun hmem => by
    rw [outcome?_eq_none_iff.2 ⟨h.1 hmem, hmem⟩] at houtcome
    cases houtcome
  obtain ⟨kept, hkept⟩ := Option.ne_none_iff_exists'.1 (mt h.2 hgone)
  rw [outcome?_of_kept hkept] at houtcome
  exact ⟨hgone, hkept.trans houtcome⟩

theorem Answered.receiveAll {outcome : Except Fault Reply} (h : calls.Answered key outcome)
    (arrivals : List (Except Fault Message)) :
    (receiveAll arrivals calls).2.Answered key outcome :=
  have hafter := receiveAll_of_not_mem h.gone arrivals
  ⟨hafter.1, hafter.2.trans h.kept⟩

/-- Reading goes on unless something has ended it, and then no call waits any more. -/
theorem receiveAll_fst (arrivals : List (Except Fault Message)) (calls : Calls) :
    ((receiveAll arrivals calls).1 = true ∧ ∀ arrival ∈ arrivals, ending arrival = none) ∨
    ((receiveAll arrivals calls).1 = false ∧ (receiveAll arrivals calls).2.isShutDown = true ∧
      (receiveAll arrivals calls).2.waiting = []) := by
  induction arrivals generalizing calls with
  | nil => exact .inl ⟨rfl, by simp⟩
  | cons arrival rest ih =>
    cases hending : ending arrival with
    | none =>
      rw [receiveAll_of_goesOn hending]
      exact (ih (calls.receive arrival).2).imp_left fun ⟨hgoes, hrest⟩ =>
        ⟨hgoes, List.forall_mem_cons.2 ⟨hending, hrest⟩⟩
    | some fault =>
      rw [receiveAll_of_ending hending]
      refine .inr ⟨rfl, ?_⟩
      cases arrival using arrival_cases with
      | answer reply hvalid => simp [ending, hvalid] at hending
      | malformed reply cause hvalid => simp [receive, hvalid, lose, isShutDown]
      | unsolicited m hm => simp [ending] at hending
      | failure cause => simp [receive, lose, isShutDown]

end Calls

namespace Session

open Calls Delivery

variable {key : UInt64} {s : Session σ}

/-- When a call has its outcome, and which it is, if deliveries come in one after another. One that
is there already is there now. -/
def arrival? (key : UInt64) : (now : Instant) → List Delivery → Session σ →
    Option (Instant × Except Fault Reply)
  | now, [], s => (s.calls.outcome? key).map (now, ·)
  | now, d :: later, s =>
    match s.calls.outcome? key with
    | some outcome => some (now, outcome)
    | none => arrival? key d.moment later (s.takeIn d.news)

/-! ## Sessions that have taken in what has come -/

/-- What holds of a session whenever it may look at its link: it has taken all messages that have
come in whole, and once it reads no more no call waits. -/
structure Attentive (s : Session σ) : Prop where
  drained : s.reading = true →
    Inflow.Drained s.settings.allowed s.settings.maxObjectSize ⟨s.unread, .quiet⟩
  deaf : s.reading = false → s.isClosed = true ∧ s.calls.waiting = []

theorem attentive_start (settings : Settings) (server : Handshake) (state : σ) :
    (start settings server state).Attentive where
  drained _ := Inflow.drained_of_size_lt rfl (Nat.zero_lt_succ 3)
  deaf h := nomatch h

/-- Taking something in leaves nothing to be taken. If the flow has ended, reading is over. -/
theorem Attentive.takeIn (hs : s.Attentive) (news : Inflow) :
    (s.takeIn news).Attentive ∧ (news.ending ≠ .quiet → (s.takeIn news).reading = false) := by
  unfold Session.takeIn
  split
  · next hreading =>
    dsimp only
    have hdrained := Inflow.drained_of_arrivals s.settings.allowed s.settings.maxObjectSize
      ⟨s.unread ++ news.pieces, news.ending⟩
    generalize Inflow.arrivals _ _ _ = taken at hdrained ⊢
    obtain ⟨arrivals, pieces, ending⟩ := taken
    rcases receiveAll_fst arrivals s.calls with ⟨hgoes, hnone⟩ | ⟨hends, hdown, hwaiting⟩
    · rcases hdrained with ⟨fault, hmem⟩ | ⟨hquiet, hdrained⟩
      · exact nomatch hnone _ hmem
      · obtain rfl : ending = .quiet := hdrained.quiet
        exact ⟨⟨fun _ => hdrained, fun h => by simp [hgoes] at h⟩, fun h => absurd hquiet h⟩
    · exact ⟨⟨fun h => by simp [hends] at h, fun _ => ⟨hdown, hwaiting⟩⟩, fun _ => hends⟩
  · next hreading => exact ⟨hs, fun _ => Bool.eq_false_iff.2 hreading⟩

/-- Where a call waits after something has come in, the flow goes on. -/
theorem Attentive.quiet_of_unanswered (hs : s.Attentive) {news : Inflow}
    (h : (s.takeIn news).calls.outcome? key = none) : news.ending = .quiet := by
  obtain ⟨hattentive, hover⟩ := hs.takeIn news
  have hwaits := (outcome?_eq_none_iff.1 h).2
  by_contra hends
  rw [(hattentive.deaf (hover hends)).2] at hwaits
  exact List.not_mem_nil hwaits

/-- Nothing that has come in yet changes nothing. -/
theorem Attentive.takeIn_nothing (hs : s.Attentive) : s.takeIn ⟨[], .quiet⟩ = s := by
  unfold Session.takeIn
  split
  · next hreading =>
    simp only [List.append_nil, (hs.drained hreading).arrivals, receiveAll]
    rw [← hreading]
  · rfl

/-! An open session is attentive, and stays so while calls are made, waited for and given up. -/

theorem attentive_connect {link : Link σ} {settings : Settings} {state : σ}
    (h : connect link settings state = .ok s) : s.Attentive := by
  obtain ⟨server, flow, after, rfl⟩ := connect_eq_ok h
  exact ((attentive_start settings server after).takeIn flow).1

theorem Attentive.listen (hs : s.Attentive) (link : Link σ) (moment : Instant) :
    (listen link moment s).Attentive :=
  have htime : ({ s with link := (link.await moment s.link).2 } : Session σ).Attentive :=
    ⟨hs.drained, hs.deaf⟩
  (htime.takeIn _).1

theorem Attentive.forget (hs : s.Attentive) (key : UInt64) :
    ({ s with calls := s.calls.forget key } : Session σ).Attentive where
  drained := hs.drained
  deaf h := ⟨(hs.deaf h).1, by simp [Calls.forget, (hs.deaf h).2]⟩

theorem Attentive.abandon (hs : s.Attentive) (handle : Handle) : (s.abandon handle).Attentive := by
  unfold Session.abandon
  split
  · exact hs
  · exact hs.forget handle.key

theorem Attentive.wait (hs : s.Attentive) (link : Link σ) (timeout : Duration) {handle : Handle}
    (hopen : handle.finished = false) : (s.wait link timeout handle).2.2.Attentive := by
  have hlisten : ∀ t : Session σ, t.Attentive →
      ∀ moment, (Session.listen link moment t).Attentive := fun t ht => ht.listen link
  have hwaited := awaited_wait hlisten timeout hopen hs
  generalize s.wait link timeout handle = result at hwaited ⊢
  cases hwaited with
  | answered ht _ => exact ht.forget handle.key
  | timedOut ht => exact ht

theorem Attentive.entered (hs : s.Attentive) {calls : Calls}
    (h : s.calls.register key = .ok calls) : (entered calls s).Attentive where
  drained := hs.drained
  deaf hover := by
    have hdown := (hs.deaf hover).1
    rw [isClosed, isShutDown, (register_eq_ok h).1] at hdown
    cases hdown

theorem Attentive.invoke (hs : s.Attentive) (link : Link σ) (service : Service) (method : String)
    (args : List Value) : (exec (invoke link service method args) s).2.Attentive := by
  rw [exec_invoke, exec_bind, exec_ready]
  cases hregister : s.calls.register (s.lastKey + 1) with
  | error fault => exact ⟨hs.drained, hs.deaf⟩
  | ok calls =>
    have hentered := hs.entered hregister
    cases hencode : Frame.encode s.settings.encoding
        (.invocation ⟨s.lastKey + 1, service, method, args⟩) with
    | error fault =>
      simp only [hencode]
      exact hentered.abandon _
    | ok frame =>
      have hencoded : Frame.encode (Session.entered calls s).settings.encoding
          (.invocation ⟨s.lastKey + 1, service, method, args⟩) = .ok frame := hencode
      simp only [hencode, exec_bind, exec_post hencoded]
      by_cases haccepts : link.accepts (Session.entered calls s).link
      · simp only [haccepts, if_true]
        exact ⟨hentered.drained, hentered.deaf⟩
      · simp only [haccepts, Bool.false_eq_true, if_false]
        exact hentered.abandon _

/-! ## Looking at the link -/

theorem takeIn_link (news : Inflow) (y : σ) (s : Session σ) :
    ({ s with link := y } : Session σ).takeIn news = { s.takeIn news with link := y } := by
  unfold Session.takeIn
  split <;> rfl

theorem settings_takeIn (news : Inflow) (s : Session σ) :
    (s.takeIn news).settings = s.settings := by
  unfold Session.takeIn
  split <;> rfl

/-- What deliveries bring does not depend on the link that brings them. -/
theorem arrival?_link (now : Instant) (ds : List Delivery) (y : σ) (s : Session σ) :
    arrival? key now ds { s with link := y } = arrival? key now ds s := by
  induction ds generalizing now s with
  | nil => rfl
  | cons d later ih => simp only [arrival?, takeIn_link, ih]

theorem arrival?_of_answered {now : Instant} {outcome : Except Fault Reply}
    (h : s.calls.outcome? key = some outcome) (ds : List Delivery) :
    arrival? key now ds s = some (now, outcome) := by
  cases ds <;> simp [arrival?, h]

/-- As long as there is no outcome it does not matter how late it is. -/
theorem arrival?_of_unanswered (h : s.calls.outcome? key = none) (now later : Instant)
    (ds : List Delivery) : arrival? key now ds s = arrival? key later ds s := by
  cases ds <;> simp [arrival?, h]

/-- A call that has no outcome yet has it no earlier than something comes in. -/
theorem le_of_arrival? {now soonest a : Instant} {ds : List Delivery}
    {outcome : Except Fault Reply} (hnone : s.calls.outcome? key = none)
    (horder : InOrder soonest ds) (h : arrival? key now ds s = some (a, outcome)) :
    soonest ≤ a := by
  induction ds generalizing now soonest s with
  | nil => simp [arrival?, hnone] at h
  | cons d later ih =>
    simp only [arrival?, hnone] at h
    cases houtcome : (s.takeIn d.news).calls.outcome? key with
    | none => exact horder.1.trans ((Nat.le_succ _).trans (ih houtcome horder.2 h))
    | some o =>
      rw [arrival?_of_answered houtcome] at h
      cases h
      exact horder.1

theorem entered_takeIn (h : s.calls.Entered key) (news : Inflow) :
    (s.takeIn news).calls.Entered key := by
  unfold takeIn
  split
  · exact h.receiveAll _
  · exact h

theorem answered_takeIn {outcome : Except Fault Reply} (h : s.calls.Answered key outcome)
    (news : Inflow) : (s.takeIn news).calls.Answered key outcome := by
  unfold takeIn
  split
  · exact h.receiveAll _
  · exact h

/-- A session in which a call waits, over a link that keeps time and brings nothing before the
moment `soonest`. When the call will have its outcome is settled. -/
structure Awaits (link : Link σ) (Brings : List Delivery → σ → Prop) (key : UInt64)
    (arrival : Option (Instant × Except Fault Reply)) (soonest : Instant) (s : Session σ) :
    Prop where
  attentive : s.Attentive
  wakes : 0 < s.settings.socketTimeout.nanoseconds
  unanswered : s.calls.outcome? key = none
  reached : link.now s.link ≤ soonest
  soon : soonest ≤ link.now s.link + 1
  foreseen : ∃ ds, Brings ds s.link ∧ InOrder soonest ds ∧
    arrival? key (link.now s.link) ds s = arrival

section Look

variable {link : Link σ} {Brings : List Delivery → σ → Prop}
  {arrival : Option (Instant × Except Fault Reply)} {soonest : Instant}

/-- The outcome does not come before anything does. -/
theorem Awaits.le (h : s.Awaits link Brings key arrival soonest) {a : Instant}
    {outcome : Except Fault Reply} (harrival : arrival = some (a, outcome)) : soonest ≤ a := by
  obtain ⟨ds, -, horder, hforeseen⟩ := h.foreseen
  exact le_of_arrival? h.unanswered horder (hforeseen.trans harrival)

theorem Awaits.entered (h : s.Awaits link Brings key arrival soonest) : s.calls.Entered key :=
  have hwaits := outcome?_eq_none_iff.1 h.unanswered
  ⟨fun _ => hwaits.1, fun _ => hwaits.2⟩

theorem listen_of_await {news : Inflow} {y : σ} {moment : Instant}
    (h : link.await moment s.link = (news, y)) :
    listen link moment s = { s.takeIn news with link := y } := by
  rw [listen, h]
  exact takeIn_link news y s

/-- Looking at a link from which nothing is due takes time, and does nothing else. -/
theorem listen_nothing (hlink : link.Punctual Brings) (hs : s.Attentive) {ds : List Delivery}
    (hbrings : Brings ds s.link) {moment : Instant} (hmoment : link.now s.link ≤ moment)
    (hdue : ∀ d ∈ ds, moment < d.moment) :
    ∃ y, listen link moment s = { s with link := y } ∧ link.now y = moment ∧ Brings ds y := by
  obtain ⟨y, hawait, hnow, hbrings'⟩ := hlink.quiet hbrings hmoment hdue
  exact ⟨y, by rw [listen_of_await hawait, hs.takeIn_nothing], hnow, hbrings'⟩

/-- Looking at a link from which something is due takes in the first of it, when it comes. -/
theorem listen_delivery (hlink : link.Punctual Brings) {d : Delivery} {later : List Delivery}
    (hbrings : Brings (d :: later) s.link) {moment : Instant} (hdue : d.moment ≤ moment) :
    ∃ y, listen link moment s = { s.takeIn d.news with link := y } ∧ link.now y = d.moment ∧
      (d.news.ending = .quiet → Brings later y) := by
  obtain ⟨y, hawait, hnow, hbrings'⟩ := hlink.delivers hbrings hdue
  exact ⟨y, listen_of_await hawait, hnow, hbrings'⟩

/-- At any time nothing that is still to come has come yet. -/
theorem Attentive.awaits (hs : s.Attentive) (hwakes : 0 < s.settings.socketTimeout.nanoseconds)
    (hnone : s.calls.outcome? key = none) {ds : List Delivery} {y : σ} (hbrings : Brings ds y)
    (horder : InOrder (link.now y + 1) ds) {now : Instant}
    (hforeseen : arrival? key now ds s = arrival) :
    ({ s with link := y } : Session σ).Awaits link Brings key arrival (link.now y + 1) where
  attentive := ⟨hs.drained, hs.deaf⟩
  wakes := hwakes
  unanswered := hnone
  reached := Nat.le_succ _
  soon := le_rfl
  foreseen := ⟨ds, hbrings, horder, by
    rw [arrival?_link, arrival?_of_unanswered hnone _ now, hforeseen]⟩

/-- How a look at the link ends. -/
inductive Looked (link : Link σ) (Brings : List Delivery → σ → Prop) (key : UInt64)
    (arrival : Option (Instant × Except Fault Reply)) (s : Session σ) : Prop
  | waits (h : s.Awaits link Brings key arrival (link.now s.link + 1))
  | answered {outcome : Except Fault Reply}
      (harrival : arrival = some (link.now s.link, outcome)) (h : s.calls.Answered key outcome)

/-- Looking at the link, for longer than no time at all, takes time up to the moment given or to an
earlier one at which something comes in. Either the call has its outcome then, just when it should,
or all is as before, only later. -/
theorem Awaits.look (hlink : link.Punctual Brings)
    (h : s.Awaits link Brings key arrival soonest) {moment : Instant}
    (hmoment : link.now s.link < moment) :
    soonest ≤ link.now (listen link moment s).link ∧
      link.now (listen link moment s).link ≤ moment ∧
      Looked link Brings key arrival (listen link moment s) := by
  obtain ⟨ds, hbrings, horder, hforeseen⟩ := h.foreseen
  rcases horder.due_or moment with ⟨d, later, rfl, hdue⟩ | ⟨hdue, horder'⟩
  · -- something comes in by then, which may be the outcome
    obtain ⟨y, hlisten, hnow, hbrings'⟩ := listen_delivery hlink hbrings hdue
    simp only [arrival?, h.unanswered] at hforeseen
    rw [hlisten]
    refine ⟨hnow ▸ horder.1, hnow ▸ hdue, ?_⟩
    cases houtcome : (s.takeIn d.news).calls.outcome? key with
    | some outcome =>
      rw [arrival?_of_answered houtcome] at hforeseen
      have hentered := entered_takeIn h.entered d.news
      exact .answered (by rw [hnow, hforeseen]) (hentered.answered houtcome)
    | none =>
      have hquiet : d.news.ending = .quiet := h.attentive.quiet_of_unanswered houtcome
      have hwakes := settings_takeIn d.news s ▸ h.wakes
      exact .waits ((h.attentive.takeIn d.news).1.awaits hwakes houtcome (hbrings' hquiet)
        (hnow ▸ horder.2) hforeseen)
  · -- nothing does, and only the clock goes on
    obtain ⟨y, hlisten, hnow, hbrings'⟩ := listen_nothing hlink h.attentive hbrings hmoment.le hdue
    rw [hlisten]
    exact ⟨hnow ▸ h.soon.trans hmoment, hnow.le, .waits (h.attentive.awaits h.wakes h.unanswered
      hbrings' (hnow ▸ horder') hforeseen)⟩

end Look

end Session

end QueryClient
