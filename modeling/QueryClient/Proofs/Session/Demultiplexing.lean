import QueryClient.Proofs.Session.Table

/-!
# Replies find their calls

Whatever comes in says one of three things to a call that waits: nothing, its outcome, or that there
will be none because reading ends here. The first arrival that says anything to the call decides
what it gets, and what comes in after that changes nothing.
-/

namespace QueryClient.Calls

variable {calls : Calls} {key : UInt64} {arrival : Except Fault Message}
  {outcome : Except Fault Reply}

/-- The fault with which reading ends at an arrival, if it does. -/
def ending : Except Fault Message → Option Fault
  | .error fault => some fault
  | .ok (.reply reply) =>
    match reply.validate with
    | .error fault => some fault
    | .ok () => none
  | .ok _ => none

/-- The key of the call that an arrival is a reply to. -/
def replyKey? : Except Fault Message → Option UInt64
  | .ok (.reply reply) => some reply.key
  | _ => none

/-- What an arrival says to a call that waits. -/
def verdict (key : UInt64) : Except Fault Message → Option (Except Fault Reply)
  | .error fault => some (.error (.connectionLost fault.message))
  | .ok (.reply reply) =>
    match reply.validate with
    | .error fault =>
      some (.error (if reply.key = key then fault else .connectionLost fault.message))
    | .ok () => if reply.key = key then some (.ok reply) else none
  | .ok _ => none

/-- The kinds of arrivals that are told apart. -/
@[elab_as_elim]
theorem arrival_cases {P : Except Fault Message → Prop}
    (answer : ∀ reply, reply.validate = .ok () → P (.ok (.reply reply)))
    (malformed : ∀ reply fault, reply.validate = .error fault → P (.ok (.reply reply)))
    (unsolicited : ∀ m, (∀ reply, m ≠ .reply reply) → P (.ok m))
    (failure : ∀ fault, P (.error fault)) (arrival : Except Fault Message) : P arrival := by
  cases arrival with
  | error fault => exact failure fault
  | ok m =>
    by_cases h : ∃ reply, m = .reply reply
    · obtain ⟨reply, rfl⟩ := h
      cases hvalid : reply.validate with
      | ok _ => exact answer reply hvalid
      | error fault => exact malformed reply fault hvalid
    · exact unsolicited m fun reply heq => h ⟨reply, heq⟩

/-- An arrival says something to a call if it ends reading or is its reply. -/
theorem verdict_eq_none_iff :
    verdict key arrival = none ↔ ending arrival = none ∧ replyKey? arrival ≠ some key := by
  cases arrival using arrival_cases with
  | answer reply h => simp [verdict, ending, replyKey?, h]
  | malformed reply fault h => simp [verdict, ending, h]
  | unsolicited m h => simp [verdict, ending, replyKey?, h]
  | failure fault => simp [verdict, ending]

/-- The end of reading is the end of every call, unless it is its own reply that ends it. -/
theorem verdict_of_ending {fault : Fault} (h : ending arrival = some fault)
    (hother : replyKey? arrival ≠ some key) :
    verdict key arrival = some (.error (.connectionLost fault.message)) := by
  cases arrival using arrival_cases with
  | answer reply hvalid => simp [ending, hvalid] at h
  | malformed reply cause hvalid =>
    have hkey : reply.key ≠ key := by simpa [replyKey?] using hother
    obtain rfl : cause = fault := by simpa [ending, hvalid] using h
    simp [verdict, hvalid, hkey]
  | unsolicited m hm => simp [ending] at h
  | failure cause =>
    obtain rfl : cause = fault := by simpa [ending] using h
    rfl

/-! ## One arrival -/

theorem receive_fst : (calls.receive arrival).1 = (ending arrival).isNone := by
  cases arrival using arrival_cases with
  | answer reply h => simp [receive, ending, h]
  | malformed reply fault h => simp [receive, ending, h]
  | unsolicited m h => simp [receive, ending]
  | failure fault => simp [receive, ending]

theorem shutdown_receive (h : calls.shutdown = none) :
    (calls.receive arrival).2.shutdown = (ending arrival).map fun fault => .lost fault.message := by
  cases arrival using arrival_cases with
  | answer reply hvalid => simp [receive, complete, ending, hvalid, h]
  | malformed reply fault hvalid => simp [receive, fail, lose, ending, hvalid, h]
  | unsolicited m hm => simp [receive, ending, h]
  | failure fault => simp [receive, lose, ending, h]

/-- What is said to a call that does not wait is not heard. -/
theorem receive_of_not_mem (h : key ∉ calls.waiting) :
    key ∉ (calls.receive arrival).2.waiting ∧
      (calls.receive arrival).2.kept key = calls.kept key := by
  cases arrival using arrival_cases with
  | answer reply hvalid =>
    simp [receive, hvalid, complete, kept_settle_of_not_mem h, h]
  | malformed reply fault hvalid =>
    simp [receive, hvalid, lose, fail, kept_shutDown, kept_settle_of_not_mem h, h]
  | unsolicited m hm => simp [receive, h]
  | failure fault => simp [receive, lose, kept_shutDown, h]

/-- A call that an arrival says nothing to goes on waiting. -/
theorem receive_of_verdict_eq_none (hkey : key ∈ calls.waiting) (h : verdict key arrival = none) :
    key ∈ (calls.receive arrival).2.waiting ∧
      (calls.receive arrival).2.kept key = calls.kept key := by
  cases arrival using arrival_cases with
  | answer reply hvalid =>
    have hother : reply.key ≠ key := by simpa [verdict, hvalid] using h
    simp [receive, hvalid, complete, kept_settle, hkey, Ne.symm hother]
  | malformed reply fault hvalid => simp [verdict, hvalid] at h
  | unsolicited m hm => simp [receive, hkey]
  | failure fault => simp [verdict] at h

/-! ## One arrival after another -/

/-- A table before the shutdown, whose waiting calls have no outcome yet. -/
structure Live (calls : Calls) : Prop where
  running : calls.shutdown = none
  unanswered : ∀ key ∈ calls.waiting, calls.kept key = none

/-- A call that an arrival says something to gets just that, and waits no longer. -/
theorem Live.receive_of_verdict (hlive : calls.Live) (hkey : key ∈ calls.waiting)
    (h : verdict key arrival = some outcome) :
    key ∉ (calls.receive arrival).2.waiting ∧
      (calls.receive arrival).2.kept key = some outcome := by
  cases arrival using arrival_cases with
  | answer reply hvalid =>
    obtain ⟨rfl, rfl⟩ : reply.key = key ∧ .ok reply = outcome := by simpa [verdict, hvalid] using h
    simp [Calls.receive, hvalid, complete, kept_settle, hkey]
  | malformed reply fault hvalid =>
    by_cases hown : reply.key = key
    · obtain rfl : .error fault = outcome := by simpa [verdict, hvalid, hown] using h
      simp [Calls.receive, hvalid, fail, lose, kept_shutDown, kept_settle, hown, hkey]
    · obtain rfl : .error (.connectionLost fault.message) = outcome := by
        simpa [verdict, hvalid, hown] using h
      simp [Calls.receive, hvalid, fail, lose, kept_shutDown, Ne.symm hown, hkey, hlive.running,
        Shutdown.fault]
  | unsolicited m hm => simp [verdict] at h
  | failure fault =>
    obtain rfl : .error (.connectionLost fault.message) = outcome := by simpa [verdict] using h
    simp [Calls.receive, lose, kept_shutDown, hkey, hlive.running, Shutdown.fault]

/-- An arrival that ends nothing leaves the table as it should be. -/
theorem Live.receive (hlive : calls.Live) (h : ending arrival = none) :
    (calls.receive arrival).2.Live where
  running := by rw [shutdown_receive hlive.running, h, Option.map_none]
  unanswered := by
    intro other hother
    have hmem : other ∈ calls.waiting := Decidable.byContradiction fun hmem =>
      (receive_of_not_mem hmem).1 hother
    cases hverdict : verdict other arrival with
    | some outcome => exact absurd hother (hlive.receive_of_verdict hmem hverdict).1
    | none =>
      rw [(receive_of_verdict_eq_none hmem hverdict).2]
      exact hlive.unanswered other hmem

theorem receiveAll_of_goesOn (h : ending arrival = none) (rest : List (Except Fault Message)) :
    receiveAll (arrival :: rest) calls = receiveAll rest (calls.receive arrival).2 := by
  have hgoes : (calls.receive arrival).1 = true := by rw [receive_fst, h, Option.isNone_none]
  rw [receiveAll, ← Prod.eta (calls.receive arrival), hgoes]

theorem receiveAll_of_ending {fault : Fault} (h : ending arrival = some fault)
    (rest : List (Except Fault Message)) :
    receiveAll (arrival :: rest) calls = (false, (calls.receive arrival).2) := by
  have hends : (calls.receive arrival).1 = false := by rw [receive_fst, h, Option.isNone_some]
  rw [receiveAll, ← Prod.eta (calls.receive arrival), hends]

theorem receiveAll_of_not_mem (h : key ∉ calls.waiting) (arrivals : List (Except Fault Message)) :
    key ∉ (receiveAll arrivals calls).2.waiting ∧
      (receiveAll arrivals calls).2.kept key = calls.kept key := by
  induction arrivals generalizing calls with
  | nil => exact ⟨h, rfl⟩
  | cons arrival rest ih =>
    obtain ⟨hone, hkept⟩ : key ∉ (calls.receive arrival).2.waiting ∧
        (calls.receive arrival).2.kept key = calls.kept key := receive_of_not_mem h
    cases hending : ending arrival with
    | some fault =>
      rw [receiveAll_of_ending hending]
      exact ⟨hone, hkept⟩
    | none =>
      rw [receiveAll_of_goesOn hending, ← hkept]
      exact ih hone

/-- Only the first arrival that ends reading is taken for the cause of the shutdown. -/
theorem shutdown_receiveAll (h : calls.shutdown = none) (arrivals : List (Except Fault Message)) :
    (receiveAll arrivals calls).2.shutdown =
      (arrivals.findSome? ending).map fun fault => .lost fault.message := by
  induction arrivals generalizing calls with
  | nil => exact h
  | cons arrival rest ih =>
    have hone : (calls.receive arrival).2.shutdown =
        (ending arrival).map fun fault => .lost fault.message := shutdown_receive h
    cases hending : ending arrival with
    | some fault => rw [receiveAll_of_ending hending, hone, List.findSome?_cons, hending]
    | none =>
      rw [hending, Option.map_none] at hone
      rw [receiveAll_of_goesOn hending, ih hone, List.findSome?_cons, hending]

/-- A call that waits gets what the first arrival with anything to say to it says; it goes on
waiting if there is none. -/
theorem Live.outcome?_receiveAll (hlive : calls.Live) (hkey : key ∈ calls.waiting)
    (arrivals : List (Except Fault Message)) :
    (receiveAll arrivals calls).2.outcome? key = arrivals.findSome? (verdict key) := by
  induction arrivals generalizing calls with
  | nil => exact outcome?_eq_none_iff.2 ⟨hlive.unanswered key hkey, hkey⟩
  | cons arrival rest ih =>
    rw [List.findSome?_cons]
    cases hverdict : verdict key arrival with
    | none =>
      have hending := (verdict_eq_none_iff.1 hverdict).1
      rw [receiveAll_of_goesOn hending]
      exact ih (hlive.receive hending) (receive_of_verdict_eq_none hkey hverdict).1
    | some outcome =>
      obtain ⟨hgone, hkept⟩ := hlive.receive_of_verdict hkey hverdict
      cases hending : ending arrival with
      | some fault =>
        rw [receiveAll_of_ending hending]
        exact outcome?_of_kept hkept
      | none =>
        rw [receiveAll_of_goesOn hending]
        exact outcome?_of_kept ((receiveAll_of_not_mem hgone rest).2.trans hkept)

/-! ## The order of arrivals -/

/-- Of two replies to different calls one says nothing to a call. -/
theorem verdict_eq_none_of_distinct {first second : Except Fault Message}
    {rest : List (Except Fault Message)} (hfirst : ending first = none)
    (hsecond : ending second = none)
    (hdistinct : ((first :: second :: rest).filterMap replyKey?).Nodup) :
    verdict key first = none ∨ verdict key second = none := by
  by_cases hown : replyKey? first = some key
  · refine .inr (verdict_eq_none_iff.2 ⟨hsecond, fun h => ?_⟩)
    simp [hown, h] at hdistinct
  · exact .inl (verdict_eq_none_iff.2 ⟨hfirst, hown⟩)

/-- Arrivals that end nothing and are replies to different calls say the same in any order. -/
theorem findSome?_verdict_of_perm {before before' : List (Except Fault Message)}
    (hperm : before.Perm before') (hgoes : ∀ arrival ∈ before, ending arrival = none)
    (hdistinct : (before.filterMap replyKey?).Nodup) :
    before.findSome? (verdict key) = before'.findSome? (verdict key) := by
  induction hperm with
  | nil => rfl
  | cons arrival _ ih =>
    have htail := hdistinct.sublist ((List.sublist_cons_self arrival _).filterMap replyKey?)
    rw [List.findSome?_cons, List.findSome?_cons,
      ih (fun later h => hgoes later (List.mem_cons_of_mem arrival h)) htail]
  | swap first second rest =>
    have hone : verdict key second = none ∨ verdict key first = none :=
      verdict_eq_none_of_distinct (hgoes second (by simp)) (hgoes first (by simp)) hdistinct
    rcases hone with h | h
    · simp [List.findSome?_cons, h]
    · simp [List.findSome?_cons, h]
  | trans hleft _ ihleft ihright =>
    rw [ihleft hgoes hdistinct]
    exact ihright (fun arrival h => hgoes arrival (hleft.mem_iff.2 h))
      ((hleft.filterMap replyKey?).nodup_iff.1 hdistinct)

/-- Their order changes no outcome, neither of the calls that wait nor of any other. -/
theorem Live.outcome?_receiveAll_of_perm (hlive : calls.Live)
    {before before' : List (Except Fault Message)} (hperm : before.Perm before')
    (hgoes : ∀ arrival ∈ before, ending arrival = none)
    (hdistinct : (before.filterMap replyKey?).Nodup) (rest : List (Except Fault Message))
    (key : UInt64) :
    (receiveAll (before ++ rest) calls).2.outcome? key =
      (receiveAll (before' ++ rest) calls).2.outcome? key := by
  by_cases hkey : key ∈ calls.waiting
  · rw [hlive.outcome?_receiveAll hkey, hlive.outcome?_receiveAll hkey, List.findSome?_append,
      List.findSome?_append, findSome?_verdict_of_perm hperm hgoes hdistinct]
  · obtain ⟨hgone, hkept⟩ := receiveAll_of_not_mem hkey (before ++ rest)
    obtain ⟨hgone', hkept'⟩ := receiveAll_of_not_mem hkey (before' ++ rest)
    have hquiet : before.findSome? ending = none := List.findSome?_eq_none_iff.2 hgoes
    have hquiet' : before'.findSome? ending = none :=
      List.findSome?_eq_none_iff.2 fun arrival h => hgoes arrival (hperm.mem_iff.2 h)
    have hcause : (receiveAll (before ++ rest) calls).2.shutdown =
        (receiveAll (before' ++ rest) calls).2.shutdown := by
      rw [shutdown_receiveAll hlive.running, shutdown_receiveAll hlive.running,
        List.findSome?_append, List.findSome?_append, hquiet, hquiet']
    rw [outcome?_of_not_mem hgone, outcome?_of_not_mem hgone', hkept, hkept',
      shutdownFault_congr hcause]

/-- Whether an arrival neither ends reading nor is a reply to a call. -/
def Passes (key : UInt64) (arrival : Except Fault Message) : Prop :=
  ending arrival = none ∧ replyKey? arrival ≠ some key

/-- What comes after arrivals that pass a call decides. -/
theorem findSome?_verdict_of_passes {before : List (Except Fault Message)}
    (hbefore : ∀ arrival ∈ before, Passes key arrival) (rest : List (Except Fault Message)) :
    (before ++ rest).findSome? (verdict key) = rest.findSome? (verdict key) := by
  have hnone : before.findSome? (verdict key) = none :=
    List.findSome?_eq_none_iff.2 fun arrival h => verdict_eq_none_iff.2 (hbefore arrival h)
  rw [List.findSome?_append, hnone, Option.none_or]

/-- Replies find their calls, whatever comes in, and in whichever order. A call that waits gets the
first reply to it that comes before reading ends; it gets the fault of that reply if the reply is
malformed, and a lost connection if reading ends for any other reason before; and it goes on waiting
if there is neither. Where the arrivals before the one that ends reading are replies to different
calls, they may come in any order. -/
theorem receiveAll_demultiplexes (hlive : calls.Live) :
    (∀ arrivals, ∀ key ∈ calls.waiting,
      (∀ before reply rest, arrivals = before ++ .ok (.reply reply) :: rest →
        (∀ arrival ∈ before, Passes key arrival) → reply.key = key → reply.validate = .ok () →
        (receiveAll arrivals calls).2.outcome? key = some (.ok reply)) ∧
      (∀ before reply fault rest, arrivals = before ++ .ok (.reply reply) :: rest →
        (∀ arrival ∈ before, Passes key arrival) → reply.key = key →
        reply.validate = .error fault →
        (receiveAll arrivals calls).2.outcome? key = some (.error fault)) ∧
      (∀ before last fault rest, arrivals = before ++ last :: rest →
        (∀ arrival ∈ before, Passes key arrival) → replyKey? last ≠ some key →
        ending last = some fault →
        (receiveAll arrivals calls).2.outcome? key =
          some (.error (.connectionLost fault.message))) ∧
      ((∀ arrival ∈ arrivals, Passes key arrival) →
        (receiveAll arrivals calls).2.outcome? key = none ∧
          key ∈ (receiveAll arrivals calls).2.waiting)) ∧
    (∀ before before' rest, before.Perm before' → (∀ arrival ∈ before, ending arrival = none) →
      (before.filterMap replyKey?).Nodup → ∀ key,
      (receiveAll (before ++ rest) calls).2.outcome? key =
        (receiveAll (before' ++ rest) calls).2.outcome? key) := by
  refine ⟨fun arrivals key hkey => ?_, fun before before' rest hperm hgoes hdistinct key =>
    hlive.outcome?_receiveAll_of_perm hperm hgoes hdistinct rest key⟩
  have hrun := hlive.outcome?_receiveAll hkey arrivals
  refine ⟨?_, ?_, ?_, fun hpasses => ?_⟩
  · rintro before reply rest rfl hbefore hown hvalid
    rw [hrun, findSome?_verdict_of_passes hbefore]
    simp [verdict, hvalid, hown]
  · rintro before reply fault rest rfl hbefore hown hvalid
    rw [hrun, findSome?_verdict_of_passes hbefore]
    simp [verdict, hvalid, hown]
  · rintro before last fault rest rfl hbefore hother hending
    rw [hrun, findSome?_verdict_of_passes hbefore, List.findSome?_cons,
      verdict_of_ending hending hother]
  · have hnone : (receiveAll arrivals calls).2.outcome? key = none := by
      rw [hrun, ← List.append_nil arrivals, findSome?_verdict_of_passes hpasses]
      rfl
    exact ⟨hnone, (outcome?_eq_none_iff.1 hnone).2⟩

/-- A table in which three calls wait. -/
def threeCalls : Calls := ⟨[3, 2, 1], [], none⟩

theorem live_threeCalls : threeCalls.Live where
  running := rfl
  unanswered _ _ := rfl

def nullReply (key : UInt64) : Reply := ⟨key, .ok .null⟩

/-- A reply with rows that start before the first one. -/
def malformedReply (key : UInt64) : Reply :=
  ⟨key, .ok (.message (.results (Results.header 0 0)))⟩

/-- The second of three calls is answered, and so is one that nobody made; then the reply to the
first is malformed, and the third call does not get its own any more. -/
theorem receiveAll_demultiplexes_threeCalls :
    let replies : List (Except Fault Message) :=
      [.ok (.reply (nullReply 2)), .ok (.reply (nullReply 9)), .ok (.reply (malformedReply 1)),
        .ok (.reply (nullReply 3))]
    (receiveAll replies threeCalls).2.outcome? 2 = some (.ok (nullReply 2)) ∧
      (receiveAll replies threeCalls).2.outcome? 1 = some (.error (.malformedBatch 0 0 0)) ∧
      (receiveAll replies threeCalls).2.outcome? 3 =
        some (.error (.connectionLost (Fault.malformedBatch 0 0 0).message)) ∧
      ∀ key, (receiveAll replies threeCalls).2.outcome? key =
        (receiveAll ((replies.take 2).reverse ++ replies.drop 2) threeCalls).2.outcome? key := by
  intro replies
  obtain ⟨heach, horder⟩ := receiveAll_demultiplexes live_threeCalls
  have hmalformed (key : UInt64) :
      (malformedReply key).validate = .error (.malformedBatch 0 0 0) := rfl
  have hpasses : ∀ key ≠ 2, key ≠ 9 → ∀ arrival ∈ replies.take 2, Passes key arrival := by
    intro key h2 h9
    simp [replies, Passes, ending, replyKey?, nullReply, Reply.validate, Ne.symm h2, Ne.symm h9]
  refine ⟨?_, ?_, ?_, ?_⟩
  · exact (heach replies 2 (by decide)).1 [] (nullReply 2) _ rfl (by simp) rfl rfl
  · exact (heach replies 1 (by decide)).2.1 (replies.take 2) (malformedReply 1) _ _ rfl
      (hpasses 1 (by decide) (by decide)) rfl (hmalformed 1)
  · exact (heach replies 3 (by decide)).2.2.1 (replies.take 2) (.ok (.reply (malformedReply 1))) _ _
      rfl (hpasses 3 (by decide) (by decide)) (by decide) rfl
  · exact horder (replies.take 2) _ (replies.drop 2) (List.reverse_perm _).symm
      (by simp [replies, ending, nullReply, Reply.validate]) (by decide)

end QueryClient.Calls
