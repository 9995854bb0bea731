import Mathlib.Data.List.Nodup
import Mathlib.Tactic.SplitIfs
import QueryClient.Proofs.Session.Streams
import QueryClient.Proofs.Session.Turns

/-!
# Who releases a stream

The release of a stream can be claimed once, by its streamer or by the close of the execution, and
whoever claims it makes one call ready. So the calls that release a stream, sent or not, and the
claims that came to nothing because the execution had been closed in the meantime, add up to whether
the release is claimed. `Tally` says so of everything that shares the execution, and each of the
steps that turns are made of keeps it.
-/

namespace QueryClient

variable {σ : Type}

namespace Invocation

/-- Whether a call releases a stream of an execution. -/
def isRelease (id : Int64) (stream : UInt64) (call : Invocation) : Bool :=
  call.method == "closeLobChunkStream" &&
    match call.args with
    | .long n :: .long m :: _ => n == stream.toInt64 && m == id
    | _ => false

/-- Whether a call ends an execution. -/
def isEnd (id : Int64) (call : Invocation) : Bool :=
  call.method == "closeRequest" &&
    match call.args with
    | .long n :: _ => n == id
    | _ => false

end Invocation

namespace Session

/-- The arguments of a call about a stream of an execution. -/
def releaseArgs (id : Int64) (stream : UInt64) (reference : LobReference) : List Value :=
  [.long stream.toInt64, .long id, .string reference.id]

/-- Whether the call that releases a stream can be encoded. -/
def Releasable (settings : Settings) (id : Int64) (name : UInt64 × LobReference) : Prop :=
  Sendable settings .dqp "closeLobChunkStream" (releaseArgs id name.1 name.2)

/-- Whether the call that ends an execution can be encoded. -/
def Endable (settings : Settings) (id : Int64) : Prop :=
  Sendable settings .dqp "closeRequest" [.long id]

theorem sendable_of_fitsIn {settings : Settings} {service : Service} {method : String}
    {args : List Value} {room : Nat} (hmethod : (Utf8.encode method).length < 0x10000)
    (hargs : Encode.FitsIn room (Encoder.each args))
    (hroom : 35 + (Utf8.encode method).length + room < settings.maxObjectSize) :
    Sendable settings service method args :=
  fun key => Frame.exists_encode (.invocation key service hmethod hargs) hroom

/-- What can be encoded with one key can be with any. -/
theorem releasable_of_encodes {settings : Settings} {id : Int64} {name : UInt64 × LobReference}
    {call : Invocation} (hservice : call.service = .dqp)
    (hmethod : call.method = "closeLobChunkStream")
    (hargs : call.args = releaseArgs id name.1 name.2) (hencodes : call.Encodes settings) :
    Releasable settings id name := by
  obtain ⟨key, service, method, args⟩ := call
  subst hservice hmethod hargs
  exact fun key' => Frame.exists_encode_of_sameRoom (.invocation key key' .dqp _
    (.cons (.long _) (.cons (.long _) (.cons (.text _) .pure)))) hencodes

/-- A stream can be released if the text of its reference leaves some room. -/
theorem releasable_of_room {settings : Settings} {id : Int64} {name : UInt64 × LobReference}
    (htext : (Utf8.encode name.2.id).length < 0x100000000)
    (hroom : (Utf8.encode name.2.id).length + 134 < settings.maxObjectSize) :
    Releasable settings id name := by
  have hmethod : (Utf8.encode "closeLobChunkStream").length = 19 := by decide
  refine sendable_of_fitsIn (by omega)
    (.cons (.long _) (.cons (.long _) (.cons (.text htext) .pure))) ?_
  omega

/-- The call that releases a stream is not encoded unless the text of its reference leaves some
room. -/
theorem length_of_encodes {settings : Settings} {key : UInt64} {id : Int64} {stream : UInt64}
    {reference : LobReference} (h : Invocation.Encodes settings
      ⟨key, .dqp, "closeLobChunkStream", releaseArgs id stream reference⟩) :
    (Utf8.encode reference.id).length + 59 ≤ settings.maxObjectSize := by
  obtain ⟨frame, hframe⟩ := h
  have hmethod : (Utf8.encode "closeLobChunkStream").length = 19 := by decide
  have hargs : Encode.Needs (9 + (9 + (5 + (Utf8.encode reference.id).length + 0)))
      (Encoder.each (releaseArgs id stream reference)) :=
    .cons (.long _) (.cons (.long _) (.cons (.text _) .pure))
  have hroom : _ ≤ settings.maxObjectSize :=
    Frame.room_of_encode (.invocation key .dqp "closeLobChunkStream" hargs) hframe
  omega

/-- An execution can be ended with any settings that a session can run with. -/
theorem endable_of_validate {settings : Settings} (h : settings.validate = .ok ()) (id : Int64) :
    Endable settings id := by
  have hmethod : (Utf8.encode "closeRequest").length = 12 := by decide
  have hleast : ¬ settings.maxObjectSize < Settings.leastObjectSize := by
    intro hsmall
    unfold Settings.validate at h
    split_ifs at h
  rw [Settings.leastObjectSize] at hleast
  refine sendable_of_fitsIn (by omega) (.cons (.long _) .pure) ?_
  omega

section Requests

variable {id : Int64} {stream other : UInt64} {reference : LobReference} {call : Invocation}

theorem isRelease_release (hmethod : call.method = "closeLobChunkStream")
    (hargs : call.args = releaseArgs id stream reference) :
    call.isRelease id other = (stream == other) := by
  have hinj : (stream.toInt64 == other.toInt64) = (stream == other) := by
    rw [Bool.eq_iff_iff, beq_iff_eq, beq_iff_eq]
    exact ⟨fun h => by simpa using congrArg Int64.toUInt64 h, fun h => by rw [h]⟩
  simp [Invocation.isRelease, hmethod, hargs, releaseArgs, hinj]

theorem isRelease_of_method (hmethod : call.method ≠ "closeLobChunkStream") :
    call.isRelease id stream = false := by
  simp [Invocation.isRelease, hmethod]

theorem isEnd_of_method (hmethod : call.method ≠ "closeRequest") : call.isEnd id = false := by
  simp [Invocation.isEnd, hmethod]

theorem isEnd_end (hmethod : call.method = "closeRequest") (hargs : call.args = [.long id]) :
    call.isEnd id = true := by
  simp [Invocation.isEnd, hmethod, hargs]

end Requests

/-- How often a stream is released: by calls that have been sent, by calls that have not, and in
vain. -/
def releases (id : Int64) (said unsent : List Invocation) (lost : List UInt64) (stream : UInt64) :
    Nat :=
  said.countP (·.isRelease id stream) + unsent.countP (·.isRelease id stream) + lost.count stream

/-- How often an execution is ended, by calls that have been sent and calls that have not. -/
def endings (id : Int64) (said unsent : List Invocation) : Nat :=
  said.countP (·.isEnd id) + unsent.countP (·.isEnd id)

/-- The account of an execution over a watched link: of what has been said, what is ready to be
sent, and which claims came to nothing. On a session that is up, what is claimed is released,
unless the call cannot be encoded: then it is never made. -/
structure Tally (link : Link σ) (e : Nat) (id : Int64) (said unsent : List Invocation)
    (lost : List UInt64) (ends : Nat) (s : Session (σ × List Bytes)) : Prop where
  id_eq : s.executionId e = id
  frames : Said s.settings said s.link.2
  encodes : ∀ call ∈ unsent, call.Encodes s.settings
  numbered : ∀ name ∈ s.names e, name.1.toNat ≤ s.lastStream.toNat
  distinct : ((s.names e).map Prod.fst).Nodup
  unknown : ∀ stream, ¬ s.Knows e stream → releases id said unsent lost stream = 0
  once : ∀ stream, s.Knows e stream →
    releases id said unsent lost stream ≤ if (s.marks e stream).released then 1 else 0
  exact : s.isUp link.watched = true → ∀ name ∈ s.names e, Releasable s.settings id name →
    (s.marks e name.1).released = true → 1 ≤ releases id said unsent lost name.1
  unmade : ∀ name ∈ s.names e, ¬ Releasable s.settings id name →
    releases id said unsent [] name.1 = 0
  ended_le : endings id said unsent ≤ ends
  ended : s.isUp link.watched = true → Endable s.settings id → ends ≤ endings id said unsent

/-- Two sessions that agree on all that an account is about, but for what has been said. -/
structure Alike (link : Link σ) (e : Nat) (s t : Session (σ × List Bytes)) : Prop where
  settings : t.settings = s.settings
  lastStream : t.lastStream = s.lastStream
  names : t.names e = s.names e
  id : t.executionId e = s.executionId e
  released : ∀ stream, (t.marks e stream).released = (s.marks e stream).released
  up : t.isUp link.watched = true → s.isUp link.watched = true

section Keeping

variable {link : Link σ} {e : Nat} {id : Int64} {said unsent : List Invocation}
  {lost : List UInt64} {ends : Nat} {s t : Session (σ × List Bytes)} {call : Invocation}

theorem Follows.alike {more : List Invocation} (h : Follows link more s t) : Alike link e s t where
  settings := h.settings
  lastStream := h.lastStream
  names := names_congr h.executions
  id := executionId_congr h.executions
  released stream := congrArg Lob.Marks.released (marks_congr h.executions stream)
  up := h.up

theorem Alike.knows (h : Alike link e s t) (stream : UInt64) :
    t.Knows e stream ↔ s.Knows e stream := by
  rw [Knows, Knows, h.names]

namespace Tally

/-- What counts is how often something is released and ended. -/
theorem congr {said' unsent' : List Invocation} (h : Tally link e id said unsent lost ends s)
    (halike : Alike link e s t) (hsaid : Said t.settings said' t.link.2)
    (hencodes : ∀ call ∈ unsent', call.Encodes t.settings)
    (hreleases : ∀ stream,
      releases id said' unsent' lost stream = releases id said unsent lost stream)
    (hendings : endings id said' unsent' = endings id said unsent) :
    Tally link e id said' unsent' lost ends t where
  id_eq := halike.id.trans h.id_eq
  frames := hsaid
  encodes := hencodes
  numbered := by
    rw [halike.names, halike.lastStream]
    exact h.numbered
  distinct := by
    rw [halike.names]
    exact h.distinct
  unknown stream hunknown := by
    rw [hreleases]
    exact h.unknown stream fun hknows => hunknown ((halike.knows stream).2 hknows)
  once stream hknows := by
    rw [hreleases, halike.released]
    exact h.once stream ((halike.knows stream).1 hknows)
  exact hup name hname hreleasable hreleased := by
    rw [hreleases]
    rw [halike.names] at hname
    rw [halike.settings] at hreleasable
    rw [halike.released] at hreleased
    exact h.exact (halike.up hup) name hname hreleasable hreleased
  unmade name hname hunreleasable := by
    rw [halike.names] at hname
    rw [halike.settings] at hunreleasable
    have hnone := h.unmade name hname hunreleasable
    have hsame := hreleases name.1
    simp only [releases, List.count_nil] at hnone hsame ⊢
    omega
  ended_le := by
    rw [hendings]
    exact h.ended_le
  ended hup hendable := by
    rw [hendings]
    rw [halike.settings] at hendable
    exact h.ended (halike.up hup) hendable

theorem alike (h : Tally link e id said unsent lost ends s) (halike : Alike link e s t)
    (hframes : t.link.2 = s.link.2) : Tally link e id said unsent lost ends t := by
  refine h.congr halike ?_ ?_ (fun _ => rfl) rfl
  · rw [halike.settings, hframes]
    exact h.frames
  · rw [halike.settings]
    exact h.encodes

theorem follows (h : Tally link e id said unsent lost ends s) (hfollows : Follows link [] s t) :
    Tally link e id said unsent lost ends t := by
  obtain ⟨frames, hsaid, hframes⟩ := hfollows.frames
  rw [List.forall₂_nil_left_iff.1 hsaid, List.append_nil] at hframes
  exact h.alike hfollows.alike hframes

theorem perm {unsent' : List Invocation} (h : Tally link e id said unsent lost ends s)
    (hperm : unsent.Perm unsent') : Tally link e id said unsent' lost ends s := by
  refine h.congr (Follows.refl s).alike h.frames ?_ (fun stream => ?_) ?_
  · intro call hcall
    exact h.encodes call (hperm.mem_iff.2 hcall)
  · rw [releases, releases, hperm.countP_eq]
  · rw [endings, endings, hperm.countP_eq]

/-- A stream is released by one call at most, and by none before its release is claimed. -/
theorem said_le (h : Tally link e id said unsent lost ends s) {name : UInt64 × LobReference}
    (hname : name ∈ s.names e) : said.countP (·.isRelease id name.1) ≤
      if (s.marks e name.1).released then 1 else 0 :=
  ((Nat.le_add_right _ _).trans (Nat.le_add_right _ _)).trans
    (h.once name.1 (List.mem_map_of_mem hname))

theorem said_ended_le (h : Tally link e id said unsent lost ends s) :
    said.countP (·.isEnd id) ≤ ends :=
  (Nat.le_add_right _ _).trans h.ended_le

/-- A call that is sent stays in the account. -/
theorem sent (h : Tally link e id said (call :: unsent) lost ends s)
    (hfollows : Follows link [call] s t) : Tally link e id (said ++ [call]) unsent lost ends t := by
  obtain ⟨frames, hsaid, hframes⟩ := hfollows.frames
  refine h.congr hfollows.alike ?_ ?_ (fun stream => ?_) ?_
  · rw [hfollows.settings, hframes]
    exact h.frames.append hsaid
  · rw [hfollows.settings]
    exact fun other hother => h.encodes other (List.mem_cons_of_mem call hother)
  · simp only [releases, List.countP_append, List.countP_cons, List.countP_nil]
    omega
  · simp only [endings, List.countP_append, List.countP_cons, List.countP_nil]
    omega

/-- A call that a link refuses is given up, and the session is down. -/
theorem refused (h : Tally link e id said (call :: unsent) lost ends s)
    (hfollows : Follows link [] s t) (hdown : s.isUp link.watched = false) :
    Tally link e id said unsent lost ends t := by
  have ht := h.follows hfollows
  have hdown' : ¬ t.isUp link.watched = true := by
    intro hup
    rw [hfollows.up hup] at hdown
    cases hdown
  have hless : ∀ lost stream, releases id said unsent lost stream ≤
      releases id said (call :: unsent) lost stream := by
    intro lost stream
    simp only [releases, List.countP_cons]
    omega
  refine ⟨ht.id_eq, ht.frames, fun other hother => ht.encodes other (List.mem_cons_of_mem _ hother),
    ht.numbered, ht.distinct, fun stream hunknown => ?_, fun stream hknows => ?_,
    fun hup => absurd hup hdown', fun name hname hunreleasable => ?_, ?_,
    fun hup => absurd hup hdown'⟩
  · exact Nat.le_zero.1 ((hless lost stream).trans_eq (ht.unknown stream hunknown))
  · exact (hless lost stream).trans (ht.once stream hknows)
  · exact Nat.le_zero.1 ((hless [] name.1).trans_eq (ht.unmade name hname hunreleasable))
  · refine Nat.le_trans ?_ ht.ended_le
    simp only [endings, List.countP_cons]
    omega

/-- A call that neither releases a stream nor ends the execution does not count. -/
theorem asked (h : Tally link e id said unsent lost ends s) (hencodes : call.Encodes s.settings)
    (hrelease : ∀ stream, call.isRelease id stream = false) (hend : call.isEnd id = false) :
    Tally link e id said (call :: unsent) lost ends s := by
  refine h.congr (Follows.refl s).alike h.frames ?_ (fun stream => ?_) ?_
  · intro other hother
    rcases List.mem_cons.1 hother with rfl | hother
    · exact hencodes
    · exact h.encodes other hother
  · simp [releases, hrelease]
  · simp [endings, hend]

section Claim

variable {stream : UInt64} {m : Lob.Marks} {calls : List Invocation} {lapses : List UInt64}

theorem releases_append (lost lapses : List UInt64) (other : UInt64) :
    releases id said (calls ++ unsent) (lost ++ lapses) other =
      releases id said unsent lost other + releases id [] calls lapses other := by
  simp only [releases, List.countP_append, List.count_append, List.countP_nil]
  omega

variable (calls lapses) in
/-- Whoever claims the release of a stream makes one call ready, or notes that nothing comes of it,
or does neither if it cannot. -/
theorem claim (h : Tally link e id said unsent lost ends s) (hknows : s.Knows e stream)
    (hunreleased : (s.marks e stream).released = false) (hm : m.released = true)
    (hencodes : ∀ call ∈ calls, call.Encodes s.settings)
    (hends : calls.countP (·.isEnd id) = 0)
    (hother : ∀ other, other ≠ stream → releases id [] calls lapses other = 0)
    (hself : releases id [] calls lapses stream ≤ 1)
    (hexact : s.isUp link.watched = true → ∀ reference, (stream, reference) ∈ s.names e →
      Releasable s.settings id (stream, reference) → 1 ≤ releases id [] calls lapses stream)
    (hunmade : ∀ reference, (stream, reference) ∈ s.names e →
      ¬ Releasable s.settings id (stream, reference) → releases id [] calls [] stream = 0) :
    Tally link e id said (calls ++ unsent) (lost ++ lapses) ends (s.setMarks e stream m) where
  id_eq := executionId_setMarks.trans h.id_eq
  frames := h.frames
  encodes call hcall := (List.mem_append.1 hcall).elim (hencodes call) (h.encodes call)
  numbered := by
    rw [names_setMarks]
    exact h.numbered
  distinct := by
    rw [names_setMarks]
    exact h.distinct
  unknown other hunknown := by
    rw [Knows, names_setMarks] at hunknown
    have hne : other ≠ stream := fun heq => hunknown (heq ▸ hknows)
    rw [releases_append, h.unknown other hunknown, hother other hne]
  once other hother' := by
    rw [Knows, names_setMarks] at hother'
    have honce := h.once other hother'
    rw [releases_append]
    by_cases heq : other = stream
    · subst heq
      rw [marks_setMarks_self hknows, hm, if_pos rfl]
      rw [hunreleased] at honce
      simp only [Bool.false_eq_true, if_false] at honce
      omega
    · rw [marks_setMarks_of_ne heq, hother other heq, Nat.add_zero]
      exact honce
  exact hup name hname hreleasable hreleased := by
    rw [names_setMarks] at hname
    rw [releases_append]
    by_cases heq : name.1 = stream
    · subst heq
      have hone := hexact hup name.2 hname hreleasable
      omega
    · rw [marks_setMarks_of_ne heq] at hreleased
      exact (h.exact hup name hname hreleasable hreleased).trans (Nat.le_add_right _ _)
  unmade name hname hunreleasable := by
    rw [names_setMarks] at hname
    rw [← List.append_nil [], releases_append, h.unmade name hname hunreleasable, Nat.zero_add]
    by_cases heq : name.1 = stream
    · subst heq
      exact hunmade name.2 hname hunreleasable
    · have hnone := hother name.1 heq
      simp only [releases, List.count_nil] at hnone ⊢
      omega
  ended_le := by
    have hle := h.ended_le
    simp only [endings, List.countP_append, hends] at hle ⊢
    omega
  ended hup hendable := by
    have hge := h.ended hup hendable
    simp only [endings, List.countP_append, hends] at hge ⊢
    omega

variable {reference : LobReference}

/-- A stream has one reference. -/
theorem name_eq {other : LobReference} (h : Tally link e id said unsent lost ends s)
    (hname : (stream, reference) ∈ s.names e) (hother : (stream, other) ∈ s.names e) :
    (stream, reference) = (stream, other) :=
  List.inj_on_of_nodup_map h.distinct hname hother rfl

/-- The claim is followed by a call. -/
theorem claim_ready (h : Tally link e id said unsent lost ends s)
    (hname : (stream, reference) ∈ s.names e) (hunreleased : (s.marks e stream).released = false)
    (hm : m.released = true) (hencodes : call.Encodes s.settings) (hservice : call.service = .dqp)
    (hmethod : call.method = "closeLobChunkStream")
    (hargs : call.args = releaseArgs id stream reference) :
    Tally link e id said (call :: unsent) lost ends (s.setMarks e stream m) := by
  have hrelease : ∀ other, call.isRelease id other = (stream == other) :=
    fun other => isRelease_release hmethod hargs
  have hend : call.isEnd id = false := isEnd_of_method (by simp [hmethod])
  have hreleasable : Releasable s.settings id (stream, reference) :=
    releasable_of_encodes hservice hmethod hargs hencodes
  have hclaim := h.claim [call] [] (List.mem_map_of_mem hname) hunreleased hm
    (List.forall_mem_singleton.2 hencodes) (by simp [hend])
    (fun other hne => by simp [releases, hrelease, Ne.symm hne])
    (by simp [releases, hrelease]) (fun _ _ _ _ => by simp [releases, hrelease])
    (fun other hother hunreleasable =>
      absurd (h.name_eq hname hother ▸ hreleasable) hunreleasable)
  rwa [List.append_nil] at hclaim

/-- The claim comes to nothing, and that is noted. -/
theorem claim_lost (h : Tally link e id said unsent lost ends s) (hknows : s.Knows e stream)
    (hunreleased : (s.marks e stream).released = false) (hm : m.released = true) :
    Tally link e id said unsent (lost ++ [stream]) ends (s.setMarks e stream m) :=
  h.claim [] [stream] hknows hunreleased hm (fun _ hcall => absurd hcall List.not_mem_nil) rfl
    (fun other hne => by simp [releases, Ne.symm hne]) (by simp [releases])
    (fun _ _ _ _ => by simp [releases]) (fun _ _ _ => rfl)

/-- The claim is not followed by a call, as the session is down or the call cannot be encoded. -/
theorem claim_refused (h : Tally link e id said unsent lost ends s)
    (hname : (stream, reference) ∈ s.names e) (hunreleased : (s.marks e stream).released = false)
    (hm : m.released = true)
    (hwhy : s.isUp link.watched = true → ¬ Releasable s.settings id (stream, reference)) :
    Tally link e id said unsent lost ends (s.setMarks e stream m) := by
  have hclaim := h.claim [] [] (List.mem_map_of_mem hname) hunreleased hm
    (fun _ hcall => absurd hcall List.not_mem_nil) rfl (fun _ _ => rfl) (Nat.zero_le _)
    (fun hup other hother hreleasable =>
      absurd (h.name_eq hother hname ▸ hreleasable) (hwhy hup))
    (fun _ _ _ => rfl)
  rwa [List.append_nil] at hclaim

end Claim

/-- The call that ends the execution is ready. -/
theorem end_ready (h : Tally link e id said unsent lost 0 s) (hencodes : call.Encodes s.settings)
    (hmethod : call.method = "closeRequest") (hargs : call.args = [.long id]) :
    Tally link e id said (call :: unsent) lost 1 s := by
  have hrelease : ∀ stream, call.isRelease id stream = false :=
    fun stream => isRelease_of_method (by simp [hmethod])
  have hend : call.isEnd id = true := isEnd_end hmethod hargs
  have hreleases : ∀ lost stream, releases id said (call :: unsent) lost stream =
      releases id said unsent lost stream := fun lost stream => by simp [releases, hrelease]
  have hendings : endings id said (call :: unsent) = endings id said unsent + 1 := by
    simp only [endings, List.countP_cons, hend, if_true]
    omega
  have hnone : endings id said unsent = 0 := Nat.le_zero.1 h.ended_le
  refine ⟨h.id_eq, h.frames, List.forall_mem_cons.2 ⟨hencodes, h.encodes⟩, h.numbered, h.distinct,
    fun stream hunknown => ?_, fun stream hknows => ?_, fun hup name hname => ?_,
    fun name hname => ?_, ?_, fun _ _ => ?_⟩
  · exact (hreleases lost stream).trans (h.unknown stream hunknown)
  · exact (hreleases lost stream).trans_le (h.once stream hknows)
  · rw [hreleases]
    exact h.exact hup name hname
  · rw [hreleases]
    exact h.unmade name hname
  · rw [hendings, hnone]
  · rw [hendings, hnone]

/-- The call that ends the execution cannot be made. -/
theorem end_refused (h : Tally link e id said unsent lost 0 s)
    (hwhy : s.isUp link.watched = true → ¬ Endable s.settings id) :
    Tally link e id said unsent lost 1 s :=
  { h with
    ended_le := h.ended_le.trans (Nat.zero_le 1)
    ended := fun hup hendable => absurd hendable (hwhy hup) }

theorem toNat_next (hfew : s.lastStream.toNat + 1 < 2 ^ 64) :
    (s.lastStream + 1).toNat = s.lastStream.toNat + 1 := by
  rw [UInt64.toNat_add]
  exact Nat.mod_eq_of_lt hfew

/-- No stream has had the next number. -/
theorem not_knows_next (h : Tally link e id said unsent lost ends s)
    (hfew : s.lastStream.toNat + 1 < 2 ^ 64) : ¬ s.Knows e (s.lastStream + 1) := by
  intro hknows
  obtain ⟨name, hname, hstream⟩ := List.mem_map.1 hknows
  have hle := h.numbered name hname
  rw [hstream, toNat_next hfew] at hle
  omega

/-- Another stream is opened. -/
theorem opened (h : Tally link e id said unsent lost ends s) (reference : LobReference)
    (hopen : s.isExecutionClosed e = false) (hfew : s.lastStream.toNat + 1 < 2 ^ 64) :
    Tally link e id said unsent lost ends (s.withStream e reference) := by
  have hnumber := toNat_next hfew
  have hnew := h.not_knows_next hfew
  have hknows : ∀ stream, (s.withStream e reference).Knows e stream ↔
      s.Knows e stream ∨ stream = s.lastStream + 1 := by
    intro stream
    rw [Knows, names_withStream hopen, List.map_append, List.mem_append]
    simp [Knows]
  refine ⟨(executionId_withStream hopen).trans h.id_eq, h.frames, h.encodes, ?_, ?_, ?_, ?_, ?_,
    ?_, h.ended_le, h.ended⟩
  · intro name hname
    rw [names_withStream hopen, List.mem_append, List.mem_singleton] at hname
    have hlast : (s.withStream e reference).lastStream.toNat = s.lastStream.toNat + 1 := hnumber
    rcases hname with hname | rfl
    · exact (h.numbered name hname).trans (by omega)
    · exact hlast.ge.trans' (Nat.le_of_eq hnumber)
  · rw [names_withStream hopen, List.map_append]
    refine List.nodup_append.2 ⟨h.distinct, List.pairwise_singleton .., ?_⟩
    intro stream hstream last hlast heq
    rw [List.map_singleton, List.mem_singleton] at hlast
    rw [heq, hlast] at hstream
    exact hnew hstream
  · intro stream hunknown
    exact h.unknown stream fun hbefore => hunknown ((hknows stream).2 (.inl hbefore))
  · intro stream hafter
    rcases (hknows stream).1 hafter with hbefore | rfl
    · rw [marks_withStream_of_knows hopen hbefore]
      exact h.once stream hbefore
    · rw [h.unknown _ hnew]
      exact Nat.zero_le _
  · intro hup name hname hreleasable hreleased
    rw [names_withStream hopen, List.mem_append, List.mem_singleton] at hname
    rcases hname with hname | rfl
    · rw [marks_withStream_of_knows hopen (List.mem_map_of_mem hname)] at hreleased
      exact h.exact hup name hname hreleasable hreleased
    · rw [marks_withStream_new hopen hnew] at hreleased
      cases hreleased
  · intro name hname hunreleasable
    rw [names_withStream hopen, List.mem_append, List.mem_singleton] at hname
    rcases hname with hname | rfl
    · exact h.unmade name hname hunreleasable
    · have hnone := h.unknown _ hnew
      simp only [releases, List.count_nil] at hnone ⊢
      omega

end Tally

end Keeping

end Session

end QueryClient
