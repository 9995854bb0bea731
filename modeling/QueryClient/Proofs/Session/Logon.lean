import QueryClient.Proofs.Session.Solo
import QueryClient.Session.Logon

/-!
# What is said in a logon

A logon is a dialogue: a call with the credentials, and then a call for each challenge, which
carries the token that the negotiator has for it. All that comes of a logon is read off its calls
and what became of them (`logon_converses`). It succeeds when one of them is answered without a
challenge, and only then does the session take note of anything.
-/

namespace QueryClient.Session

variable {σ ν α β : Type} {link : Link σ} {negotiator : Option (Negotiator ν)}

/-! ## What calls say -/

/-- What becomes of a session over a watched link while some calls are sent: its settings and its
last logon are as they were. -/
structure Speaks (said : List Invocation) (s t : Session (σ × List Bytes)) : Prop where
  settings : t.settings = s.settings
  logonInfo : t.logonInfo = s.logonInfo
  frames : ∃ frames, Said s.settings said frames ∧ t.link.2 = s.link.2 ++ frames

namespace Speaks

variable {said more : List Invocation} {s t u : Session (σ × List Bytes)}

theorem silent (hsettings : t.settings = s.settings) (hlogon : t.logonInfo = s.logonInfo)
    (hlink : t.link.2 = s.link.2) : Speaks [] s t :=
  ⟨hsettings, hlogon, [], .nil, hlink.trans (List.append_nil _).symm⟩

theorem trans (h : Speaks said s t) (hmore : Speaks more t u) : Speaks (said ++ more) s u := by
  obtain ⟨frames, hsaid, hframes⟩ := h.frames
  obtain ⟨later, hlater, hframes'⟩ := hmore.frames
  rw [h.settings] at hlater
  refine ⟨hmore.settings.trans h.settings, hmore.logonInfo.trans h.logonInfo, frames ++ later,
    hsaid.append hlater, ?_⟩
  rw [hframes', hframes, List.append_assoc]

theorem abandon (handle : Handle) : Speaks [] s (s.abandon handle) := by
  unfold Session.abandon
  split
  · exact silent rfl rfl rfl
  · exact silent rfl rfl rfl

theorem listen (moment : Instant) : Speaks [] s (listen link.watched moment s) := by
  obtain ⟨unread, reading, calls, hlisten⟩ := exists_listen link.watched moment s
  rw [hlisten]
  exact silent rfl rfl rfl

theorem wait (timeout : Duration) {handle : Handle} (hopen : handle.finished = false) :
    Speaks [] s (s.wait link.watched timeout handle).2.2 := by
  have hawaited : Awaited (Speaks [] s) timeout handle (s.wait link.watched timeout handle) :=
    awaited_wait (fun t ht moment => ht.trans (listen moment)) timeout hopen (silent rfl rfl rfl)
  generalize s.wait link.watched timeout handle = waited at hawaited
  cases hawaited with
  | answered kept _ => exact ⟨kept.settings, kept.logonInfo, kept.frames⟩
  | timedOut kept => exact kept

end Speaks

/-- A call, whether it was sent, and what became of it. -/
structure Contact where
  call : Invocation
  sent : Bool
  outcome : Except Fault Value

/-- Whether a call was made between two sessions. It was sent, unless it failed at once. -/
structure Contact.Made (link : Link σ) (c : Contact) (s t : Session (σ × List Bytes)) : Prop where
  exec_eq : exec (Session.call link.watched c.call.service c.call.method c.call.args) s =
    (c.outcome, t)
  speaks : Speaks (if c.sent then [c.call] else []) s t
  unsent : c.sent = false → ∃ fault, c.outcome = .error fault

variable (link) in
/-- **Every call** is sent once, or not at all if it cannot be. -/
theorem exists_contact (service : Service) (method : String) (args : List Value)
    (s : Session (σ × List Bytes)) :
    ∃ c t, c.call = ⟨s.lastKey + 1, service, method, args⟩ ∧ Contact.Made link c s t := by
  have hcall : exec (Session.call link.watched service method args) s = _ := exec_call
  rw [exec_ready] at hcall
  cases hregister : s.calls.register (s.lastKey + 1) with
  | error fault =>
    rw [hregister] at hcall
    exact ⟨⟨_, false, .error fault⟩, _, rfl, hcall, .silent rfl rfl rfl, fun _ => ⟨fault, rfl⟩⟩
  | ok calls =>
    rw [hregister] at hcall
    have hentered : Speaks [] s (entered calls s) := .silent rfl rfl rfl
    cases hencode : Frame.encode s.settings.encoding
        (.invocation ⟨s.lastKey + 1, service, method, args⟩) with
    | error fault =>
      simp only [hencode] at hcall
      exact ⟨⟨_, false, .error fault⟩, _, rfl, hcall, hentered.trans (.abandon _),
        fun _ => ⟨fault, rfl⟩⟩
    | ok frame =>
      have hencoded : Frame.encode (entered calls s).settings.encoding
        (.invocation ⟨s.lastKey + 1, service, method, args⟩) = .ok frame := hencode
      simp only [hencode, exec_post hencoded] at hcall
      cases haccepts : link.watched.accepts (entered calls s).link with
      | false =>
        simp only [haccepts] at hcall
        exact ⟨⟨_, false, .error _⟩, _, rfl, hcall, hentered.trans (.abandon _),
          fun _ => ⟨_, rfl⟩⟩
      | true =>
        simp only [haccepts, if_true] at hcall
        have hposted : Speaks [⟨s.lastKey + 1, service, method, args⟩] s
            { entered calls s with link := link.watched.send frame (entered calls s).link } :=
          ⟨rfl, rfl, [frame], .cons hencode .nil, rfl⟩
        exact ⟨⟨_, true, _⟩, _, rfl, hcall,
          (hposted.trans (.wait _ rfl)).trans (.abandon _), fun h => by cases h⟩

/-- What a logon makes of what became of a call. What the server objects to is a failed logon. -/
def verdict : Except Fault Value → Except Fault LogonResult
  | .ok value => value.logonResult
  | .error (.remote exception) => .error (.authentication (.byServer exception))
  | .error fault => .error fault

theorem verdict_eq_ok {outcome : Except Fault Value} {answer : LogonResult} :
    verdict outcome = .ok answer ↔ outcome = .ok (.message (.logonResult answer)) := by
  constructor
  · intro h
    unfold verdict at h
    split at h
    · unfold Value.logonResult at h
      split at h
      · rw [Except.ok.inj h]
      · cases h
    · cases h
    · cases h
  · rintro rfl
    rfl

theorem exec_logonStep (link : Link σ) (method : String) (arg : Value) (s : Session σ) :
    exec (logonStep link method arg) s =
      (verdict (exec (call link .logon method [arg]) s).1,
        (exec (call link .logon method [arg]) s).2) := by
  unfold logonStep
  rw [exec_bind, exec_tryCatch]
  rcases exec (call link .logon method [arg]) s with ⟨fault | value, t⟩
  · cases fault <;> rfl
  · simp [verdict]

/-! ## The dialogue -/

/-- The calls that were made, one after another, between two sessions. -/
inductive Conversed (link : Link σ) :
    List Contact → Session (σ × List Bytes) → Session (σ × List Bytes) → Prop
  | nil (s : Session (σ × List Bytes)) : Conversed link [] s s
  | cons {c : Contact} {contacts : List Contact} {s t u : Session (σ × List Bytes)}
      (h : c.Made link s t) (hrest : Conversed link contacts t u) :
      Conversed link (c :: contacts) s u

/-- The challenges that a negotiator was asked about, one after another, with what it answered. -/
inductive Consulted (negotiator : Option (Negotiator ν)) :
    List (Bytes × Except Fault Bytes) → ν → ν → Prop
  | nil (n : ν) : Consulted negotiator [] n n
  | cons {maker : Negotiator ν} {challenge : Bytes} {answer : Except Fault Bytes}
      {asked : List (Bytes × Except Fault Bytes)} {n m o : ν} (hmaker : negotiator = some maker)
      (h : maker.next challenge n = (answer, m)) (hrest : Consulted negotiator asked m o) :
      Consulted negotiator ((challenge, answer) :: asked) n o

/-- What is there to present, and how that leaves the negotiator: the credentials, with a first
token if they have none and no password either. -/
inductive Presents (negotiator : Option (Negotiator ν)) (credentials : Credentials) (n : ν) :
    Except Fault LogonRequest → ν → Prop
  | complete (h : credentials.needsInitialToken = false) :
      Presents negotiator credentials n (.ok credentials.request) n
  | unaided (h : credentials.needsInitialToken = true) (hnone : negotiator = none) :
      Presents negotiator credentials n (.error (.authentication .nothingToPresent)) n
  | token {maker : Negotiator ν} {token : Bytes} {m : ν}
      (h : credentials.needsInitialToken = true) (hmaker : negotiator = some maker)
      (htoken : maker.initial n = (.ok token, m)) :
      Presents negotiator credentials n (.ok { credentials.request with token := some token }) m
  | tokenless {maker : Negotiator ν} {fault : Fault} {m : ν}
      (h : credentials.needsInitialToken = true) (hmaker : negotiator = some maker)
      (hfault : maker.initial n = (.error fault, m)) :
      Presents negotiator credentials n (.error fault) m

/-- The calls that were sent. -/
def said (contacts : List Contact) : List Invocation :=
  (contacts.filter (·.sent)).map (·.call)

theorem said_cons (c : Contact) (contacts : List Contact) :
    said (c :: contacts) = (if c.sent then [c.call] else []) ++ said contacts := by
  unfold said
  cases hsent : c.sent <;> simp [hsent]

theorem Conversed.speaks {contacts : List Contact} {s t : Session (σ × List Bytes)}
    (h : Conversed link contacts s t) : Speaks (said contacts) s t := by
  induction h with
  | nil s => exact .silent rfl rfl rfl
  | @cons c contacts s t u h _ ih =>
    rw [said_cons]
    exact h.speaks.trans ih

namespace Contact

/-- Whether a contact is a call of the logon service with one argument. -/
def Says (c : Contact) (method : String) (arg : Value) : Prop :=
  c.call.service = .logon ∧ c.call.method = method ∧ c.call.args = [arg]

/-- The challenge in the answer to a call. -/
def challenge? (c : Contact) : Option Bytes :=
  match verdict c.outcome with
  | .ok answer => answer.continuation
  | .error _ => none

theorem challenge?_eq {c : Contact} {answer : LogonResult} (h : verdict c.outcome = .ok answer) :
    c.challenge? = answer.continuation := by
  rw [challenge?, h]

end Contact

/-- Calls that answer challenges: each call carries the token that the negotiator had for the
challenge in the answer to the call before it. -/
structure Dialogue (contacts : List Contact) (asked : List (Bytes × Except Fault Bytes)) :
    Prop where
  turns : ∀ i c, contacts[i + 1]? = some c → ∃ (before : Contact) (challenge token : Bytes),
    contacts[i]? = some before ∧ before.challenge? = some challenge ∧
      asked[i]? = some (challenge, .ok token) ∧ c.Says "continueLogon" (.binary token)
  asks : ∀ (i : Nat) (challenge : Bytes) (answer : Except Fault Bytes),
    asked[i]? = some (challenge, answer) → ∃ c : Contact, contacts[i]? = some c ∧
      c.challenge? = some challenge

namespace Dialogue

variable {c : Contact} {contacts : List Contact} {asked : List (Bytes × Except Fault Bytes)}

theorem single (c : Contact) : Dialogue [c] [] where
  turns i _ h := by cases h
  asks i _ _ h := by cases h

/-- The negotiator is asked, and has no token. -/
theorem tokenless {challenge : Bytes} (h : c.challenge? = some challenge) (fault : Fault) :
    Dialogue [c] [(challenge, .error fault)] where
  turns i _ hi := by cases hi
  asks i other answer hi := by
    cases i with
    | zero =>
      cases hi
      exact ⟨c, rfl, h⟩
    | succ i => cases hi

theorem cons {next : Contact} {challenge token : Bytes} (h : Dialogue (next :: contacts) asked)
    (hchallenge : c.challenge? = some challenge)
    (hnext : next.Says "continueLogon" (.binary token)) :
    Dialogue (c :: next :: contacts) ((challenge, .ok token) :: asked) where
  turns i later hi := by
    cases i with
    | zero =>
      cases hi
      exact ⟨c, challenge, token, rfl, hchallenge, rfl, hnext⟩
    | succ i => exact h.turns i later hi
  asks i other answer hi := by
    cases i with
    | zero =>
      cases hi
      exact ⟨c, rfl, hchallenge⟩
    | succ i => exact h.asks i other answer hi

/-- Only the last call has an answer without a challenge, or none at all. -/
theorem eq_of_mem {last : Contact} (h : Dialogue contacts asked)
    (hlast : contacts.getLast? = some last) (hc : c ∈ contacts) (hnone : c.challenge? = none) :
    c = last := by
  obtain ⟨i, hi, rfl⟩ := List.getElem_of_mem hc
  by_cases hmore : i + 1 < contacts.length
  · obtain ⟨before, challenge, -, hbefore, hchallenge, -⟩ :=
      h.turns i _ (List.getElem?_eq_getElem hmore)
    rw [List.getElem?_eq_getElem hi] at hbefore
    obtain rfl := Option.some.inj hbefore
    rw [hnone] at hchallenge
    cases hchallenge
  · have hend : i = contacts.length - 1 := by omega
    rw [List.getLast?_eq_getElem?, ← hend, List.getElem?_eq_getElem hi] at hlast
    exact Option.some.inj hlast

end Dialogue

/-- How a dialogue ends: its last call is answered without a challenge, or it fails or has some
other answer, or the challenge in its answer is one too many, or there is no token for it. -/
inductive Ends (negotiator : Option (Negotiator ν)) (rounds : Nat) (contacts : List Contact)
    (asked : List (Bytes × Except Fault Bytes)) (last : Contact) : Except Fault LogonResult → Prop
  | accepted {answer : LogonResult} (h : verdict last.outcome = .ok answer)
      (hnone : answer.continuation = none) : Ends negotiator rounds contacts asked last (.ok answer)
  | refused {fault : Fault} (h : verdict last.outcome = .error fault) :
      Ends negotiator rounds contacts asked last (.error fault)
  | tooManyRounds {challenge : Bytes} (h : last.challenge? = some challenge)
      (hlength : contacts.length = rounds + 1) :
      Ends negotiator rounds contacts asked last
        (.error (.authentication (.tooManyRounds maxLogonRounds)))
  | noNegotiator {challenge : Bytes} (h : last.challenge? = some challenge)
      (hnone : negotiator = none) :
      Ends negotiator rounds contacts asked last (.error (.authentication .noNegotiator))
  | tokenless {challenge : Bytes} {fault : Fault} (h : last.challenge? = some challenge)
      (hasked : asked.getLast? = some (challenge, .error fault)) :
      Ends negotiator rounds contacts asked last (.error fault)

section Ends

variable {rounds : Nat} {contacts : List Contact} {asked : List (Bytes × Except Fault Bytes)}
  {c last : Contact} {outcome : Except Fault LogonResult}

/-- With one more call in front a dialogue ends as it does. -/
theorem Ends.cons (h : Ends negotiator rounds contacts asked last outcome) (c : Contact)
    (turn : Bytes × Except Fault Bytes) :
    Ends negotiator (rounds + 1) (c :: contacts) (turn :: asked) last outcome := by
  cases h with
  | accepted h hnone => exact .accepted h hnone
  | refused h => exact .refused h
  | tooManyRounds h hlength => exact .tooManyRounds h (congrArg Nat.succ hlength)
  | noNegotiator h hnone => exact .noNegotiator h hnone
  | tokenless h hasked => exact .tokenless h (by rw [List.getLast?_cons, hasked]; rfl)

/-- A dialogue ends well exactly when some call is answered without a challenge. -/
theorem Ends.eq_ok_iff (h : Ends negotiator rounds contacts asked last outcome)
    (hdialogue : Dialogue contacts asked) (hlast : contacts.getLast? = some last)
    {answer : LogonResult} : outcome = .ok answer ↔
      ∃ c ∈ contacts, verdict c.outcome = .ok answer ∧ answer.continuation = none := by
  constructor
  · rintro rfl
    cases h with
    | accepted h hnone => exact ⟨last, List.mem_of_getLast? hlast, h, hnone⟩
  · rintro ⟨c, hc, hverdict, hnone⟩
    have hunchallenged : c.challenge? = none := (Contact.challenge?_eq hverdict).trans hnone
    obtain rfl := hdialogue.eq_of_mem hlast hc hunchallenged
    cases h with
    | accepted h =>
      rw [hverdict] at h
      exact h.symm
    | refused h =>
      rw [hverdict] at h
      cases h
    | tooManyRounds h | noNegotiator h | tokenless h =>
      rw [hunchallenged] at h
      cases h

/-- A call that fails ends a dialogue. -/
theorem Ends.eq_error_of_mem (h : Ends negotiator rounds contacts asked last outcome)
    (hdialogue : Dialogue contacts asked) (hlast : contacts.getLast? = some last)
    (hc : c ∈ contacts) {fault : Fault} (hverdict : verdict c.outcome = .error fault) :
    outcome = .error fault := by
  have hunchallenged : c.challenge? = none := by rw [Contact.challenge?, hverdict]
  obtain rfl := hdialogue.eq_of_mem hlast hc hunchallenged
  cases h with
  | accepted h =>
    rw [hverdict] at h
    cases h
  | refused h =>
    rw [hverdict] at h
    exact h.symm
  | tooManyRounds h | noNegotiator h | tokenless h =>
    rw [hunchallenged] at h
    cases h

end Ends

/-! ## Running an exchange -/

theorem run_bind (m : Exchange σ ν α) (f : α → Exchange σ ν β) (p : Session σ × ν) :
    (m >>= f).run.run p = match m.run.run p with
      | (.ok a, q) => (f a).run.run q
      | (.error fault, q) => (.error fault, q) := by
  simp only [ExceptT.run_bind, StateT.run_bind]
  rcases m.run.run p with ⟨_ | a, q⟩ <;> rfl

theorem run_onSession (op : Op σ α) (s : Session σ) (n : ν) :
    (onSession op).run.run (s, n) = ((exec op s).1, (exec op s).2, n) :=
  rfl

theorem run_onNegotiator (op : ν → Except Fault Bytes × ν) (s : Session σ) (n : ν) :
    (onNegotiator op).run.run (s, n) = ((op n).1, s, (op n).2) :=
  rfl

theorem presents_presented (negotiator : Option (Negotiator ν)) (credentials : Credentials)
    (s : Session σ) (n : ν) : ∃ request m,
      (presented negotiator credentials).run.run (s, n) = (request, s, m) ∧
        Presents negotiator credentials n request m := by
  unfold presented
  cases hneeds : credentials.needsInitialToken with
  | false => exact ⟨_, _, rfl, .complete hneeds⟩
  | true =>
    cases negotiator with
    | none => exact ⟨_, _, rfl, .unaided hneeds rfl⟩
    | some maker =>
      simp only [if_true, run_bind, run_onNegotiator]
      rcases htoken : maker.initial n with ⟨fault | token, m⟩
      · exact ⟨_, _, rfl, .tokenless hneeds rfl htoken⟩
      · exact ⟨_, _, rfl, .token hneeds rfl htoken⟩

variable (link negotiator) in
/-- **Challenges are answered** one after another, each with the token that the negotiator has for
it, in as many calls as there are rounds at the most. -/
theorem answerChallenges_converses (rounds : Nat) {c : Contact} {answer : LogonResult}
    (hanswer : verdict c.outcome = .ok answer) (t : Session (σ × List Bytes)) (n : ν) :
    ∃ outcome u m contacts asked last,
      (answerChallenges link.watched negotiator rounds answer).run.run (t, n) = (outcome, u, m) ∧
        Conversed link contacts t u ∧ Consulted negotiator asked n m ∧
        contacts.length ≤ rounds ∧ (c :: contacts).getLast? = some last ∧
        Dialogue (c :: contacts) asked ∧
        Ends negotiator rounds (c :: contacts) asked last outcome := by
  induction rounds generalizing c answer t n with
  | zero =>
    unfold answerChallenges
    cases hcontinuation : answer.continuation with
    | none =>
      exact ⟨_, _, _, [], [], c, rfl, .nil t, .nil n, Nat.le_refl 0, rfl, .single c,
        .accepted hanswer hcontinuation⟩
    | some challenge =>
      have hchallenge := (Contact.challenge?_eq hanswer).trans hcontinuation
      exact ⟨_, _, _, [], [], c, rfl, .nil t, .nil n, Nat.le_refl 0, rfl, .single c,
        .tooManyRounds hchallenge rfl⟩
  | succ rounds ih =>
    unfold answerChallenges
    cases hcontinuation : answer.continuation with
    | none =>
      exact ⟨_, _, _, [], [], c, rfl, .nil t, .nil n, Nat.zero_le _, rfl, .single c,
        .accepted hanswer hcontinuation⟩
    | some challenge =>
      have hchallenge := (Contact.challenge?_eq hanswer).trans hcontinuation
      cases negotiator with
      | none =>
        exact ⟨_, _, _, [], [], c, rfl, .nil t, .nil n, Nat.zero_le _, rfl, .single c,
          .noNegotiator hchallenge rfl⟩
      | some maker =>
        simp only [run_bind, run_onNegotiator]
        rcases htoken : maker.next challenge n with ⟨fault | token, m⟩
        · exact ⟨_, _, _, [], [(challenge, .error fault)], c, rfl, .nil t,
            .cons rfl htoken (.nil m), Nat.zero_le _, rfl, .tokenless hchallenge fault,
            .tokenless hchallenge rfl⟩
        obtain ⟨next, u, hnext, hmade⟩ :=
          exists_contact link .logon "continueLogon" [.binary token] t
        have hexec := hmade.exec_eq
        have hspoken : next.Says "continueLogon" (.binary token) := by
          rw [Contact.Says, hnext]
          exact ⟨rfl, rfl, rfl⟩
        simp only [run_onSession, exec_logonStep]
        rw [hnext] at hexec
        rw [hexec]
        cases hverdict : verdict next.outcome with
        | error fault =>
          exact ⟨_, _, _, [next], [(challenge, .ok token)], next, rfl, .cons hmade (.nil u),
            .cons rfl htoken (.nil m), Nat.succ_le_succ (Nat.zero_le rounds), rfl,
            (Dialogue.single next).cons hchallenge hspoken, .refused hverdict⟩
        | ok later =>
          obtain ⟨outcome, v, o, contacts, asked, last, hrun, hconversed, hconsulted, hlength,
            hlast, hdialogue, hends⟩ := ih hverdict u m
          exact ⟨outcome, v, o, next :: contacts, (challenge, .ok token) :: asked, last, hrun,
            .cons hmade hconversed, .cons rfl htoken hconsulted, Nat.succ_le_succ hlength,
            List.getLast?_cons_cons.trans hlast, hdialogue.cons hchallenge hspoken,
            hends.cons c (challenge, .ok token)⟩

/-! ## The whole logon -/

/-- The course of a logon: there is nothing to present, or a call presents it and the dialogue goes
on from there. -/
inductive Course (negotiator : Option (Negotiator ν)) : Except Fault LogonRequest → List Contact →
    List (Bytes × Except Fault Bytes) → Except Fault LogonResult → Prop
  | unpresented (fault : Fault) : Course negotiator (.error fault) [] [] (.error fault)
  | opened {presented : LogonRequest} {first last : Contact} {rest : List Contact}
      {asked : List (Bytes × Except Fault Bytes)} {outcome : Except Fault LogonResult}
      (hspoken : first.Says "logon" (.message (.logonRequest presented)))
      (hlength : rest.length ≤ maxLogonRounds) (hlast : (first :: rest).getLast? = some last)
      (hdialogue : Dialogue (first :: rest) asked)
      (hends : Ends negotiator maxLogonRounds (first :: rest) asked last outcome) :
      Course negotiator (.ok presented) (first :: rest) asked outcome

namespace Course

variable {request : Except Fault LogonRequest} {contacts : List Contact}
  {asked : List (Bytes × Except Fault Bytes)} {outcome : Except Fault LogonResult}
  (h : Course negotiator request contacts asked outcome)

include h

theorem dialogue : Dialogue contacts asked := by
  cases h with
  | unpresented => exact ⟨fun _ _ h => (by cases h), fun _ _ _ h => (by cases h)⟩
  | opened _ _ _ hdialogue => exact hdialogue

theorem says_logon {c : Contact} (hc : contacts[0]? = some c) : ∃ presented,
    request = .ok presented ∧ c.Says "logon" (.message (.logonRequest presented)) := by
  cases h with
  | unpresented => cases hc
  | opened hspoken =>
    cases hc
    exact ⟨_, rfl, hspoken⟩

/-- One call to log on is sent at the most, and one to go on in each round. -/
theorem countP_said : (said contacts).countP (·.method = "logon") ≤ 1 ∧
    (said contacts).countP (·.method = "continueLogon") ≤ maxLogonRounds := by
  cases h with
  | unpresented => exact ⟨Nat.zero_le 1, Nat.zero_le maxLogonRounds⟩
  | @opened _ first _ rest _ _ hspoken hlength _ hdialogue =>
    have hlater : ∀ call ∈ said rest, call.method = "continueLogon" := by
      intro call hcall
      obtain ⟨later, hlater, rfl⟩ := List.mem_map.1 hcall
      obtain ⟨i, hi, rfl⟩ := List.getElem_of_mem (List.mem_of_mem_filter hlater)
      obtain ⟨-, -, -, -, -, -, -, hmethod, -⟩ :=
        hdialogue.turns i rest[i] (List.getElem?_eq_getElem hi)
      exact hmethod
    have hlogon : (said rest).countP (·.method = "logon") = 0 :=
      List.countP_eq_zero.2 fun call hcall => by simp [hlater call hcall]
    have hmost : (said rest).countP (·.method = "continueLogon") ≤ maxLogonRounds :=
      calc (said rest).countP (·.method = "continueLogon")
        _ ≤ (said rest).length := List.countP_le_length
        _ = (rest.filter (·.sent)).length := List.length_map ..
        _ ≤ rest.length := List.length_filter_le ..
        _ ≤ maxLogonRounds := hlength
    rw [said_cons, List.countP_append, List.countP_append, hlogon]
    cases first.sent with
    | true => simpa [hspoken.2.1] using hmost
    | false => simpa using hmost

theorem eq_ok_iff {answer : LogonResult} : outcome = .ok answer ↔ ∃ c ∈ contacts,
    c.outcome = .ok (.message (.logonResult answer)) ∧ answer.continuation = none := by
  simp only [← verdict_eq_ok]
  cases h with
  | unpresented => simp
  | opened _ _ hlast hdialogue hends => exact hends.eq_ok_iff hdialogue hlast

/-- What the server objects to is why the logon fails. -/
theorem eq_authentication {c : Contact} (hc : c ∈ contacts) {exception : ServerException}
    (houtcome : c.outcome = .error (.remote exception)) :
    outcome = .error (.authentication (.byServer exception)) := by
  cases h with
  | unpresented => cases hc
  | opened _ _ hlast hdialogue hends =>
    exact hends.eq_error_of_mem hdialogue hlast hc (by rw [houtcome]; rfl)

theorem why {fault : Fault} (hfault : outcome = .error fault) : request = .error fault ∨
    ∃ last, contacts.getLast? = some last ∧
      Ends negotiator maxLogonRounds contacts asked last (.error fault) := by
  cases h with
  | unpresented => exact .inl (congrArg Except.error (Except.error.inj hfault))
  | opened _ _ hlast _ hends => exact .inr ⟨_, hlast, hfault ▸ hends⟩

end Course

/-- The session takes note of a logon that succeeds. -/
def noted (outcome : Except Fault LogonResult) (s : Session (σ × List Bytes)) :
    Session (σ × List Bytes) :=
  match outcome with
  | .ok answer => { s with logonInfo := some answer }
  | .error _ => s

theorem logon_courses (link : Link σ) (negotiator : Option (Negotiator ν))
    (credentials : Credentials) (s : Session (σ × List Bytes)) (n : ν) :
    ∃ outcome t m request o contacts asked,
      (logon link.watched negotiator credentials).run.run (s, n) = (outcome, noted outcome t, m) ∧
        Presents negotiator credentials n request o ∧ Conversed link contacts s t ∧
        Consulted negotiator asked o m ∧ Course negotiator request contacts asked outcome := by
  obtain ⟨request, o, hpresented, hpresents⟩ := presents_presented negotiator credentials s n
  unfold logon
  rw [run_bind, hpresented]
  cases request with
  | error fault =>
    exact ⟨.error fault, s, o, _, _, [], [], rfl, hpresents, .nil s, .nil o, .unpresented fault⟩
  | ok presented =>
    obtain ⟨first, t, hfirst, hmade⟩ :=
      exists_contact link .logon "logon" [.message (.logonRequest presented)] s
    have hspoken : first.Says "logon" (.message (.logonRequest presented)) := by
      rw [Contact.Says, hfirst]
      exact ⟨rfl, rfl, rfl⟩
    have hexec := hmade.exec_eq
    rw [hfirst] at hexec
    simp only [run_bind, run_onSession, exec_logonStep]
    rw [hexec]
    cases hverdict : verdict first.outcome with
    | error fault =>
      exact ⟨.error fault, t, o, _, _, [first], [], rfl, hpresents, .cons hmade (.nil t), .nil o,
        .opened hspoken (Nat.zero_le _) rfl (.single first) (.refused hverdict)⟩
    | ok answer =>
      obtain ⟨outcome, u, m, contacts, asked, last, hrun, hconversed, hconsulted, hlength, hlast,
        hdialogue, hends⟩ :=
          answerChallenges_converses link negotiator maxLogonRounds hverdict t o
      refine ⟨outcome, u, m, _, _, first :: contacts, asked, ?_, hpresents, .cons hmade hconversed,
        hconsulted, .opened hspoken hlength hlast hdialogue hends⟩
      dsimp only
      rw [hrun]
      cases outcome <;> rfl

/-- **What comes of a logon.** Whatever the server and the negotiator answer, a logon is a dialogue
of one call with what there is to present and at most sixteen calls to go on, each of which carries
the token that the negotiator has for the challenge in the answer before it; nothing else is sent.
It succeeds with an answer exactly when that is the answer to one of the calls and has no challenge,
and then the session takes note of it. Otherwise it fails, for what the server objects to as a
failed logon, and the session has the last logon that it had. -/
theorem logon_converses (link : Link σ) (negotiator : Option (Negotiator ν))
    (credentials : Credentials) (s : Session (σ × List Bytes)) (n : ν) :
    ∃ outcome t m, (logon link.watched negotiator credentials).run.run (s, n) = (outcome, t, m) ∧
      (∃ request o contacts asked u, Presents negotiator credentials n request o ∧
        Conversed link contacts s u ∧ Consulted negotiator asked o m ∧ t = noted outcome u ∧
        (∃ frames, Said s.settings (said contacts) frames ∧ t.link.2 = s.link.2 ++ frames) ∧
        (said contacts).countP (·.method = "logon") ≤ 1 ∧
        (said contacts).countP (·.method = "continueLogon") ≤ 16 ∧
        (∀ c, contacts[0]? = some c → ∃ presented, request = .ok presented ∧
          c.Says "logon" (.message (.logonRequest presented))) ∧
        Dialogue contacts asked ∧
        (∀ answer, outcome = .ok answer ↔ ∃ c ∈ contacts,
          c.outcome = .ok (.message (.logonResult answer)) ∧ answer.continuation = none) ∧
        (∀ c ∈ contacts, ∀ exception, c.outcome = .error (.remote exception) →
          outcome = .error (.authentication (.byServer exception))) ∧
        ∀ fault, outcome = .error fault → request = .error fault ∨ ∃ last,
          contacts.getLast? = some last ∧
            Ends negotiator maxLogonRounds contacts asked last (.error fault)) ∧
      (∀ answer, outcome = .ok answer → t.logonInfo = some answer) ∧
      ∀ fault, outcome = .error fault → t.logonInfo = s.logonInfo := by
  obtain ⟨outcome, u, m, request, o, contacts, asked, hrun, hpresents, hconversed, hconsulted,
    hcourse⟩ := logon_courses link negotiator credentials s n
  have hspeaks := hconversed.speaks
  have hlink : (noted outcome u).link = u.link := by cases outcome <;> rfl
  obtain ⟨hlogon, hcontinue⟩ := hcourse.countP_said
  refine ⟨outcome, noted outcome u, m, hrun, ⟨request, o, contacts, asked, u, hpresents,
    hconversed, hconsulted, rfl, ?_, hlogon, hcontinue, fun c => hcourse.says_logon,
    hcourse.dialogue, fun answer => hcourse.eq_ok_iff,
    fun c hc exception => hcourse.eq_authentication hc, fun fault => hcourse.why⟩, ?_, ?_⟩
  · rw [hlink]
    exact hspeaks.frames
  · rintro answer rfl
    rfl
  · rintro fault rfl
    exact hspeaks.logonInfo

end QueryClient.Session
