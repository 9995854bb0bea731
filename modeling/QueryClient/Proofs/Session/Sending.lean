import Mathlib.Data.List.Forall2
import QueryClient.Proofs.Session.Entries
import QueryClient.Proofs.Wire.Room
import QueryClient.Session.Executing

/-!
# Sending a call in two steps

A call is made ready without a pause: it takes a key, is entered in the table and is encoded. Then
it may have to wait until the link takes it. `invoke` is the two steps one after the other. What a
session has sent is read off a watched link, as the calls of which the frames are the encodings.
-/

namespace QueryClient

variable {σ : Type}

/-- A link with all frames that it was given. -/
def Link.watched (link : Link σ) : Link (σ × List Bytes) where
  now state := link.now state.1
  accepts state := link.accepts state.1
  send frame state := (link.send frame state.1, state.2 ++ [frame])
  await moment state := ((link.await moment state.1).1, (link.await moment state.1).2, state.2)
  shutDown state := (link.shutDown state.1, state.2)

/-- Whether a link that refuses to take anything refuses for good. -/
def Link.Steady (link : Link σ) : Prop :=
  ∀ moment state, link.accepts (link.await moment state).2 = true → link.accepts state = true

/-- The handle on the reply to a call. -/
def Invocation.handle (call : Invocation) : Handle :=
  ⟨call.key, call.method, false⟩

/-- Whether a call can be encoded. -/
def Invocation.Encodes (settings : Settings) (call : Invocation) : Prop :=
  ∃ frame, Frame.encode settings.encoding (.invocation call) = .ok frame

/-- Whether a call can be encoded whichever key it has. -/
def Sendable (settings : Settings) (service : Service) (method : String) (args : List Value) :
    Prop :=
  ∀ key, Invocation.Encodes settings ⟨key, service, method, args⟩

/-- Whether frames are the encodings of calls, in the same order. -/
def Said (settings : Settings) (said : List Invocation) (frames : List Bytes) : Prop :=
  List.Forall₂ (fun call frame => Frame.encode settings.encoding (.invocation call) = .ok frame)
    said frames

theorem Said.append {settings : Settings} {said more : List Invocation} {frames later : List Bytes}
    (h : Said settings said frames) (hmore : Said settings more later) :
    Said settings (said ++ more) (frames ++ later) :=
  List.rel_append h hmore

/-- What comes in never undoes a shutdown. -/
theorem Calls.Heard.isShutDown {before after : Calls} (h : Heard before after)
    (hbefore : before.isShutDown = true) : after.isShutDown = true := by
  obtain ⟨events, -, rfl⟩ := h
  obtain ⟨cause, hcause⟩ := Option.isSome_iff_exists.1 hbefore
  rw [Calls.isShutDown, shutdown_replay, hcause]
  rfl

namespace Session

variable (link : Link σ)

/-- The session over a link that is watched from now on. -/
def watch (s : Session σ) : Session (σ × List Bytes) :=
  { s with link := (s.link, []) }

/-- Whether the session is open and its link takes what is sent. -/
def isUp (s : Session σ) : Bool :=
  !s.isClosed && link.accepts s.link

/-- Makes a call ready to be sent. One that cannot be encoded is given up. -/
def ready (service : Service) (method : String) (args : List Value) : Op σ Invocation := do
  let key ← nextKey
  register key
  let call : Invocation := ⟨key, service, method, args⟩
  match Frame.encode (← get).settings.encoding (.invocation call) with
  | .ok _ => return call
  | .error fault =>
    modify (abandon call.handle)
    throw fault

/-- Sends a call that is ready. One that the link does not take is given up. -/
def post (call : Invocation) : Op σ Unit := do
  try
    send link (.invocation call)
  catch fault =>
    modify (abandon call.handle)
    throw fault

/-- To listen changes the link, what has come in, and the table. -/
theorem exists_listen (moment : Instant) (s : Session σ) : ∃ unread reading calls,
    listen link moment s = { s with
      link := (link.await moment s.link).2
      unread := unread
      reading := reading
      calls := calls } := by
  unfold listen takeIn
  dsimp only
  split
  · exact ⟨_, _, _, rfl⟩
  · exact ⟨_, _, _, rfl⟩

section Steps

variable {link} {service : Service} {method : String} {args : List Value} {s t : Session σ}

theorem exec_nextKey :
    exec nextKey s = (.ok (s.lastKey + 1), { s with lastKey := s.lastKey + 1 }) :=
  rfl

/-- The session once a call is entered in the table. -/
def entered (calls : Calls) (s : Session σ) : Session σ :=
  { s with lastKey := s.lastKey + 1, calls := calls }

theorem exec_ready : exec (ready service method args) s =
    match s.calls.register (s.lastKey + 1) with
    | .error fault => (.error fault, { s with lastKey := s.lastKey + 1 })
    | .ok calls =>
      let call : Invocation := ⟨s.lastKey + 1, service, method, args⟩
      match Frame.encode s.settings.encoding (.invocation call) with
      | .ok _ => (.ok call, entered calls s)
      | .error fault => (.error fault, (entered calls s).abandon call.handle) := by
  rw [ready, exec_bind, exec_nextKey]
  simp only [exec_bind, exec_register]
  cases s.calls.register (s.lastKey + 1) with
  | error fault => rfl
  | ok calls =>
    simp only [exec_get]
    cases Frame.encode s.settings.encoding
      (.invocation ⟨s.lastKey + 1, service, method, args⟩) <;> rfl

theorem exec_post {call : Invocation} {frame : Bytes}
    (h : Frame.encode s.settings.encoding (.invocation call) = .ok frame) :
    exec (post link call) s =
      if link.accepts s.link then (.ok (), { s with link := link.send frame s.link })
      else (.error s.calls.shutdownFault, s.abandon call.handle) := by
  rw [post, exec_tryCatch, send, exec_bind, exec_get]
  simp only [exec_bind, exec_ofExcept, h]
  by_cases haccepts : link.accepts s.link <;> simp [haccepts]

/-- **A call is made by making it ready and sending it**, without a pause in between. -/
theorem exec_invoke : exec (invoke link service method args) s =
    exec (do
      let call ← ready service method args
      post link call
      return call.handle) s := by
  rw [invoke, exec_bind, exec_nextKey, exec_bind, exec_ready]
  simp only [exec_bind, exec_register]
  cases s.calls.register (s.lastKey + 1) with
  | error fault => rfl
  | ok calls =>
    simp only [exec_tryCatch]
    cases hencode : Frame.encode s.settings.encoding
        (.invocation ⟨s.lastKey + 1, service, method, args⟩) with
    | error fault =>
      simp [send, exec_bind, hencode, entered, Invocation.handle]
    | ok frame =>
      have hencoded : Frame.encode (entered calls s).settings.encoding
          (.invocation ⟨s.lastKey + 1, service, method, args⟩) = .ok frame := hencode
      simp only [exec_post hencoded]
      simp only [send, exec_bind, exec_get, exec_ofExcept, hencode, entered]
      by_cases haccepts : link.accepts s.link
      · simp only [haccepts, if_true]
        rfl
      · simp only [haccepts]
        rfl

end Steps

/-! ## What a session keeps in between -/

/-- What becomes of a session over a watched link while some calls are sent: its executions are as
they were, and it does not come up again once it is down. -/
structure Follows (said : List Invocation) (s t : Session (σ × List Bytes)) : Prop where
  settings : t.settings = s.settings
  executions : t.executions = s.executions
  lastStream : t.lastStream = s.lastStream
  frames : ∃ frames, Said s.settings said frames ∧ t.link.2 = s.link.2 ++ frames
  up : t.isUp link.watched = true → s.isUp link.watched = true

namespace Follows

variable {link} {said more : List Invocation} {s t u : Session (σ × List Bytes)}

theorem refl (s : Session (σ × List Bytes)) : Follows link [] s s :=
  ⟨rfl, rfl, rfl, ⟨[], .nil, (List.append_nil _).symm⟩, id⟩

theorem trans (h : Follows link said s t) (hmore : Follows link more t u) :
    Follows link (said ++ more) s u := by
  obtain ⟨frames, hsaid, hframes⟩ := h.frames
  obtain ⟨later, hlater, hframes'⟩ := hmore.frames
  rw [h.settings] at hlater
  refine ⟨hmore.settings.trans h.settings, hmore.executions.trans h.executions,
    hmore.lastStream.trans h.lastStream, ⟨frames ++ later, hsaid.append hlater, ?_⟩,
    fun hup => h.up (hmore.up hup)⟩
  rw [hframes', hframes, List.append_assoc]

theorem forget (key : UInt64) : Follows link [] s { s with calls := s.calls.forget key } :=
  ⟨rfl, rfl, rfl, ⟨[], .nil, (List.append_nil _).symm⟩, id⟩

theorem abandon (handle : Handle) : Follows link [] s (s.abandon handle) := by
  unfold Session.abandon
  split
  · exact refl s
  · exact forget handle.key

theorem listen (hsteady : link.Steady) (moment : Instant) :
    Follows link [] s (listen link.watched moment s) := by
  have hheard := heard_listen link.watched moment s
  obtain ⟨unread, reading, calls, hlisten⟩ := exists_listen link.watched moment s
  rw [hlisten] at hheard ⊢
  refine ⟨rfl, rfl, rfl, ⟨[], .nil, (List.append_nil _).symm⟩, fun hup => ?_⟩
  simp only [isUp, Bool.and_eq_true, Bool.not_eq_true'] at hup ⊢
  refine ⟨?_, hsteady moment s.link.1 hup.2⟩
  cases hclosed : s.isClosed with
  | false => rfl
  | true => exact absurd hup.1 (ne_false_of_eq_true (hheard.isShutDown hclosed))

end Follows

section Outcomes

variable {link} {s : Session (σ × List Bytes)}

/-- How a call is made ready: it is, or it is given up, on a session that is down or because it
cannot be encoded. -/
inductive Readied (link : Link σ) (service : Service) (method : String) (args : List Value)
    (s : Session (σ × List Bytes)) : Except Fault Invocation × Session (σ × List Bytes) → Prop
  | ready {call : Invocation} {t : Session (σ × List Bytes)} (service_eq : call.service = service)
      (method_eq : call.method = method) (args_eq : call.args = args)
      (encodes : call.Encodes s.settings)
      (follows : Follows link [] s t) : Readied link service method args s (.ok call, t)
  | refused {fault : Fault} {t : Session (σ × List Bytes)} (follows : Follows link [] s t)
      (why : s.isUp link.watched = false ∨ ¬ Sendable s.settings service method args) :
      Readied link service method args s (.error fault, t)

theorem follows_entered {calls : Calls}
    (h : s.calls.register (s.lastKey + 1) = .ok calls) : Follows link [] s (entered calls s) := by
  obtain ⟨-, rfl⟩ := Calls.register_eq_ok h
  exact ⟨rfl, rfl, rfl, ⟨[], .nil, (List.append_nil _).symm⟩, id⟩

variable (link) in
theorem readied_ready (service : Service) (method : String) (args : List Value)
    (s : Session (σ × List Bytes)) :
    Readied link service method args s (exec (ready service method args) s) := by
  rw [exec_ready]
  cases hregister : s.calls.register (s.lastKey + 1) with
  | error fault =>
    refine .refused ⟨rfl, rfl, rfl, ⟨[], .nil, (List.append_nil _).symm⟩, id⟩ (.inl ?_)
    have hclosed : s.calls.isShutDown = true := by
      by_contra hopen
      rw [Calls.register, if_neg hopen] at hregister
      cases hregister
    simp [isUp, isClosed, hclosed]
  | ok calls =>
    have hentered : Follows link [] s (entered calls s) := follows_entered hregister
    cases hencode : Frame.encode s.settings.encoding
        (.invocation ⟨s.lastKey + 1, service, method, args⟩) with
    | ok frame =>
      simp only [hencode]
      exact .ready rfl rfl rfl ⟨frame, hencode⟩ hentered
    | error fault =>
      simp only [hencode]
      refine .refused (hentered.trans (.abandon _)) (.inr fun hsendable => ?_)
      obtain ⟨frame, hframe⟩ := hsendable (s.lastKey + 1)
      rw [hencode] at hframe
      cases hframe

/-- How a call that is ready is sent: the link takes it, or the session is down. -/
inductive Posted (link : Link σ) (call : Invocation) (s : Session (σ × List Bytes)) :
    Except Fault Unit × Session (σ × List Bytes) → Prop
  | sent {t : Session (σ × List Bytes)} (follows : Follows link [call] s t) :
      Posted link call s (.ok (), t)
  | refused {fault : Fault} {t : Session (σ × List Bytes)} (follows : Follows link [] s t)
      (down : s.isUp link.watched = false) : Posted link call s (.error fault, t)

variable (link) in
theorem posted_post {call : Invocation} (h : call.Encodes s.settings) :
    Posted link call s (exec (post link.watched call) s) := by
  obtain ⟨frame, hframe⟩ := h
  rw [exec_post hframe]
  cases haccepts : link.watched.accepts s.link with
  | true =>
    refine .sent ⟨rfl, rfl, rfl, ⟨[frame], .cons hframe .nil, rfl⟩, fun hup => ?_⟩
    simp only [isUp, Bool.and_eq_true] at hup ⊢
    exact ⟨hup.1, haccepts⟩
  | false => exact .refused (.abandon _) (by simp [isUp, haccepts])

end Outcomes

end Session

end QueryClient
