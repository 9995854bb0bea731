import QueryClient.Proofs.Session.Entries

/-!
# Failed calls

A call that the table holds a failure for has failed in one of two ways: it was swept away by the
shutdown of the session, or its own reply did not agree with itself, and the session was lost over
that. So once a session has ended no call waits, and each failure says why the session has ended.
-/

namespace QueryClient

namespace Calls

variable {calls after : Calls} {key : UInt64} {cause : Shutdown} {fault : Fault}

/-- The ways in which the call `key` fails when a session ends. -/
inductive FailedBy (key : UInt64) : Shutdown → Fault → Prop
  | swept (cause : Shutdown) : FailedBy key cause cause.fault
  | own {reply : Reply} {fault : Fault} (hkey : reply.key = key)
      (h : reply.validate = .error fault) : FailedBy key (.lost fault.message) fault

/-- Where a fault is fatal the session was lost, not closed. -/
theorem FailedBy.lost_of_fatal (h : FailedBy key cause fault) (hfatal : fault.isFatal = true) :
    ∃ reason, cause = .lost reason := by
  cases h with
  | swept cause =>
    cases cause with
    | closed => exact absurd hfatal (by decide)
    | lost reason => exact ⟨reason, rfl⟩
  | own hkey h => exact ⟨_, rfl⟩

/-- What holds of a table all along: after the shutdown no call waits, replies that are kept agree
with themselves, and failures that are kept come with the shutdown. -/
structure Sound (calls : Calls) : Prop where
  quiet : ∀ cause, calls.shutdown = some cause → calls.waiting = []
  agrees : ∀ key reply, calls.kept key = some (.ok reply) → reply.validate = .ok ()
  failed : ∀ key fault, calls.kept key = some (.error fault) →
    ∃ cause, calls.shutdown = some cause ∧ FailedBy key cause fault

theorem sound_empty : empty.Sound where
  quiet _ h := nomatch h
  agrees _ _ h := nomatch h
  failed _ _ h := nomatch h

namespace Sound

theorem register (hcalls : calls.Sound) (h : calls.register key = .ok after) : after.Sound := by
  obtain ⟨hopen, rfl⟩ := register_eq_ok h
  exact
    { quiet := fun cause hcause => by rw [hopen] at hcause; cases hcause
      agrees := hcalls.agrees
      failed := hcalls.failed }

theorem forget (hcalls : calls.Sound) (key : UInt64) : (calls.forget key).Sound where
  quiet cause hcause := by
    rw [Calls.forget, hcalls.quiet cause hcause, List.filter_nil]
  agrees other reply h := by
    rw [kept_forget] at h
    split at h
    · cases h
    · exact hcalls.agrees other reply h
  failed other fault h := by
    rw [kept_forget] at h
    split at h
    · cases h
    · exact hcalls.failed other fault h

theorem complete (hcalls : calls.Sound) {reply : Reply} (hvalid : reply.validate = .ok ()) :
    (calls.complete reply).2.Sound where
  quiet cause hcause := by
    rw [Calls.complete, shutdown_settle] at hcause
    exact List.sublist_nil.1 (hcalls.quiet cause hcause ▸ waiting_settle_sublist)
  agrees other kept h := by
    rw [Calls.complete, kept_settle] at h
    split at h
    · obtain rfl : reply = kept := by simpa using h
      exact hvalid
    · exact hcalls.agrees other kept h
  failed other fault h := by
    rw [Calls.complete, shutdown_settle]
    rw [Calls.complete, kept_settle] at h
    split at h
    · simp at h
    · exact hcalls.failed other fault h

/-- Nobody waits after the shutdown. -/
theorem not_mem_waiting (hcalls : calls.Sound) (hcause : calls.shutdown = some cause)
    (key : UInt64) : key ∉ calls.waiting := by
  rw [hcalls.quiet cause hcause]
  exact List.not_mem_nil

/-- What a shutdown sweeps away fails with the first cause. -/
theorem shutDown (hcalls : calls.Sound) (cause : Shutdown) : (calls.shutDown cause).Sound where
  quiet _ _ := waiting_shutDown cause
  agrees key reply h := by
    rw [kept_shutDown] at h
    split at h
    · simp at h
    · exact hcalls.agrees key reply h
  failed key fault h := by
    rw [kept_shutDown] at h
    split at h
    · obtain rfl : (calls.shutdown.getD cause).fault = fault := by simpa using h
      exact ⟨_, shutdown_shutDown cause, .swept _⟩
    · obtain ⟨first, hfirst, hfailed⟩ := hcalls.failed key fault h
      exact ⟨first, by rw [shutdown_shutDown, hfirst, Option.getD_some], hfailed⟩

/-- The one failure that no shutdown precedes is followed by one at once. -/
theorem failLost (hcalls : calls.Sound) {reply : Reply} (hfault : reply.validate = .error fault) :
    ((calls.fail reply.key fault).2.lose fault.message).Sound := by
  cases hcause : calls.shutdown with
  | some cause =>
    rw [Calls.fail, settle_of_not_mem (hcalls.not_mem_waiting hcause reply.key)]
    exact hcalls.shutDown _
  | none =>
    have hafter : ((calls.fail reply.key fault).2.lose fault.message).shutdown =
        some (.lost fault.message) := by
      simp [Calls.fail, lose, hcause]
    refine ⟨fun _ _ => rfl, fun other kept h => ?_, fun other kept h => ⟨_, hafter, ?_⟩⟩
    · rw [lose, kept_shutDown, Calls.fail, kept_settle] at h
      split at h
      · simp at h
      · split at h
        · simp at h
        · exact hcalls.agrees other kept h
    · rw [lose, kept_shutDown, Calls.fail, kept_settle, shutdown_settle, hcause] at h
      split at h
      · obtain rfl : (Shutdown.lost fault.message).fault = kept := by simpa using h
        exact .swept _
      · split at h
        · rename_i hown
          obtain rfl : fault = kept := by simpa using h
          exact .own hown.1.symm hfault
        · obtain ⟨cause, hshut, -⟩ := hcalls.failed other kept h
          rw [hcause] at hshut
          cases hshut

theorem receive (hcalls : calls.Sound) (arrival : Except Fault Message) :
    (calls.receive arrival).2.Sound := by
  cases arrival using arrival_cases with
  | answer reply h =>
    rw [Calls.receive, h]
    exact hcalls.complete h
  | malformed reply fault h =>
    rw [Calls.receive, h]
    exact hcalls.failLost h
  | unsolicited m h => simpa [Calls.receive] using hcalls
  | failure fault => exact hcalls.shutDown _

theorem receiveAll (hcalls : calls.Sound) (arrivals : List (Except Fault Message)) :
    (Calls.receiveAll arrivals calls).2.Sound := by
  induction arrivals generalizing calls with
  | nil => exact hcalls
  | cons arrival rest ih =>
    cases h : ending arrival with
    | some fault =>
      rw [receiveAll_of_ending h]
      exact hcalls.receive arrival
    | none =>
      rw [receiveAll_of_goesOn h]
      exact ih (hcalls.receive arrival)

/-! ## What a call gets -/

theorem agrees_of_outcome? (hcalls : calls.Sound) {reply : Reply}
    (h : calls.outcome? key = some (.ok reply)) : reply.validate = .ok () := by
  rcases kept_or_of_outcome? h with hkept | hfault
  · exact hcalls.agrees key reply hkept
  · cases hfault

/-- A call fails because the session has ended, or because nobody waits for it any more. -/
theorem failed_of_outcome? (hcalls : calls.Sound) (h : calls.outcome? key = some (.error fault)) :
    (calls.shutdown = none ∧ fault = .sessionClosed) ∨
      ∃ cause, calls.shutdown = some cause ∧ FailedBy key cause fault := by
  rcases kept_or_of_outcome? h with hkept | hfault
  · exact .inr (hcalls.failed key fault hkept)
  · obtain rfl : fault = calls.shutdownFault := Except.error.inj hfault
    cases hcause : calls.shutdown with
    | none => exact .inl ⟨rfl, by rw [shutdownFault, hcause]⟩
    | some cause =>
      refine .inr ⟨cause, rfl, ?_⟩
      rw [shutdownFault, hcause]
      exact .swept cause

/-- After the shutdown a call has been answered, or has failed over it. -/
theorem outcome_of_shutDown (hcalls : calls.Sound) (hcause : calls.shutdown = some cause)
    (key : UInt64) :
    (∃ reply, calls.outcome? key = some (.ok reply)) ∨
      ∃ fault, calls.outcome? key = some (.error fault) ∧ FailedBy key cause fault := by
  cases houtcome : calls.outcome? key with
  | none =>
    exact absurd (outcome?_eq_none_iff.1 houtcome).2 (hcalls.not_mem_waiting hcause key)
  | some outcome =>
    cases outcome with
    | ok reply => exact .inl ⟨reply, rfl⟩
    | error fault =>
      refine .inr ⟨fault, rfl, ?_⟩
      rcases hcalls.failed_of_outcome? houtcome with ⟨hopen, -⟩ | ⟨first, hfirst, hfailed⟩
      · rw [hopen] at hcause
        cases hcause
      · obtain rfl : first = cause := Option.some.inj (hfirst.symm.trans hcause)
        exact hfailed

end Sound

end Calls

end QueryClient
