import QueryClient.Proofs.Session.Table
import Mathlib.Tactic.Tauto

/-!
# The table of calls and its history

Readers, writers, callers and whoever closes the session act on the table one at a time, in any
order. The history of what they did says all there is to know about it: which calls are in it, what
has been handed to which call, and whether and why it is shut down.
-/

namespace QueryClient

/-- What can be done to the table of calls. -/
inductive CallEvent where
  | registered (key : UInt64)
  | completed (reply : Reply)
  | failed (key : UInt64) (fault : Fault)
  | dropped (key : UInt64)
  | lost (reason : String)
  | closed

namespace CallEvent

variable {event : CallEvent} {key : UInt64}

/-- The cause of a shutdown. -/
def cause? : CallEvent → Option Shutdown
  | lost reason => some (.lost reason)
  | closed => some .closed
  | _ => none

/-- The call that is entered. -/
def registered? : CallEvent → Option UInt64
  | registered key => some key
  | _ => none

/-- Whether a call does not wait any longer: it is answered, has failed, or is given up. -/
def ends (key : UInt64) : CallEvent → Bool
  | registered _ => false
  | completed reply => reply.key == key
  | failed other _ => other == key
  | dropped other => other == key
  | lost _ => true
  | closed => true

theorem ends_of_cause {cause : Shutdown} (h : event.cause? = some cause) :
    event.ends key = true := by
  cases event <;> first | rfl | cases h

end CallEvent

namespace Calls

open CallEvent

variable {calls : Calls} {event : CallEvent} {key : UInt64}

/-- The table after an event. A call is not entered after the shutdown. -/
def apply (calls : Calls) : CallEvent → Calls
  | .registered key => (calls.register key).toOption.getD calls
  | .completed reply => (calls.complete reply).2
  | .failed key fault => (calls.fail key fault).2
  | .dropped key => calls.forget key
  | .lost reason => calls.lose reason
  | .closed => calls.close

/-- The table after a history. -/
def replay (events : List CallEvent) (calls : Calls) : Calls :=
  events.foldl apply calls

/-- The outcomes that have been handed over between one table and a later one. -/
def handed (before after : Calls) : List (UInt64 × Except Fault Reply) :=
  after.outcomes.take (after.outcomes.length - before.outcomes.length)

/-- The outcomes that are handed over in a history, in their order. -/
def deliveries : List CallEvent → Calls → List (UInt64 × Except Fault Reply)
  | [], _ => []
  | event :: rest, calls => handed calls (calls.apply event) ++ deliveries rest (calls.apply event)

/-- The calls that are entered in a history. -/
def registrations (events : List CallEvent) : List UInt64 :=
  events.filterMap registered?

/-- Whether a call has been entered, before any shutdown, and is neither answered nor has failed
nor has been given up since. -/
def Outstanding (key : UInt64) (events : List CallEvent) : Prop :=
  ∃ before after, events = before ++ .registered key :: after ∧
    (∀ event ∈ before, event.cause? = none) ∧ ∀ event ∈ after, event.ends key = false

/-! ## One event -/

theorem apply_registered_of_open (h : calls.shutdown = none) (key : UInt64) :
    calls.apply (.registered key) = { calls with waiting := key :: calls.waiting } := by
  rw [apply, register_of_open h]
  rfl

theorem apply_registered_of_shutDown {cause : Shutdown} (h : calls.shutdown = some cause)
    (key : UInt64) : calls.apply (.registered key) = calls := by
  rw [apply, register_of_shutDown h]
  rfl

/-- The first cause stays. -/
theorem shutdown_apply (calls : Calls) (event : CallEvent) :
    (calls.apply event).shutdown = calls.shutdown.or event.cause? := by
  cases event with
  | registered key =>
    cases h : calls.shutdown with
    | none => simp [apply_registered_of_open h, cause?, h]
    | some cause => simp [apply_registered_of_shutDown h, h]
  | completed reply => simp [apply, complete, cause?]
  | failed key fault => simp [apply, fail, cause?]
  | dropped key => simp [apply, cause?]
  | lost reason => cases h : calls.shutdown <;> simp [apply, lose, cause?, h]
  | closed => cases h : calls.shutdown <;> simp [apply, close, cause?, h]

theorem mem_waiting_apply : key ∈ (calls.apply event).waiting ↔
    (event = .registered key ∧ calls.shutdown = none) ∨
      (key ∈ calls.waiting ∧ event.ends key = false) := by
  cases event with
  | registered other =>
    cases h : calls.shutdown with
    | none => simp [apply_registered_of_open h, ends, eq_comm]
    | some cause => simp [apply_registered_of_shutDown h, ends]
  | completed reply => simp [apply, complete, ends, ne_comm]
  | failed other fault => simp [apply, fail, ends, ne_comm]
  | dropped other => simp [apply, ends, ne_comm]
  | lost reason => simp [apply, lose, ends]
  | closed => simp [apply, close, ends]

/-- An event enters a call, hands over an outcome, takes a call out, or shuts the table down. -/
theorem apply_cases (calls : Calls) (event : CallEvent) :
    (∃ key, event = .registered key) ∨
    (∃ key outcome, calls.apply event = (calls.settle key outcome).2) ∨
    (∃ key, calls.apply event = calls.forget key) ∨
    ∃ cause, calls.apply event = calls.shutDown cause := by
  cases event with
  | registered key => exact .inl ⟨key, rfl⟩
  | completed reply => exact .inr (.inl ⟨reply.key, .ok reply, rfl⟩)
  | failed key fault => exact .inr (.inl ⟨key, .error fault, rfl⟩)
  | dropped key => exact .inr (.inr (.inl ⟨key, rfl⟩))
  | lost reason => exact .inr (.inr (.inr ⟨.lost reason, rfl⟩))
  | closed => exact .inr (.inr (.inr ⟨.closed, rfl⟩))

/-- Nobody but the call that is entered comes to wait. -/
theorem waiting_apply_sublist (calls : Calls) (event : CallEvent) :
    (calls.apply event).waiting.Sublist (event.registered?.toList ++ calls.waiting) := by
  rcases apply_cases calls event with ⟨key, rfl⟩ | ⟨key, outcome, h⟩ | ⟨key, h⟩ | ⟨cause, h⟩
  · cases h : calls.shutdown with
    | none => simp [apply_registered_of_open h, registered?]
    | some cause => simp [apply_registered_of_shutDown h, registered?]
  · rw [h]
    exact waiting_settle_sublist.trans (List.sublist_append_right _ _)
  · rw [h]
    exact List.filter_sublist.trans (List.sublist_append_right _ _)
  · rw [h]
    exact List.nil_sublist _

/-! ## What an event hands over -/

section Handed

variable {outcome : Except Fault Reply}

theorem handed_of_append {before after : Calls} {new : List (UInt64 × Except Fault Reply)}
    (h : after.outcomes = new ++ before.outcomes) : handed before after = new := by
  simp [handed, h]

@[simp] theorem handed_self : handed calls calls = [] :=
  handed_of_append rfl

theorem handed_settle :
    handed calls (calls.settle key outcome).2 =
      if key ∈ calls.waiting then [(key, outcome)] else [] := by
  by_cases h : key ∈ calls.waiting
  · rw [if_pos h]
    exact handed_of_append (by simp [settle, h])
  · rw [settle_of_not_mem h, if_neg h, handed_self]

@[simp] theorem handed_forget : handed calls (calls.forget key) = [] := by
  have hle : (calls.forget key).outcomes.length ≤ calls.outcomes.length :=
    List.length_filter_le _ calls.outcomes
  rw [handed, Nat.sub_eq_zero_of_le hle, List.take_zero]

theorem handed_shutDown (cause : Shutdown) : handed calls (calls.shutDown cause) =
    calls.waiting.map (·, .error (calls.shutdown.getD cause).fault) :=
  handed_of_append rfl

@[simp] theorem handed_registered : handed calls (calls.apply (.registered key)) = [] := by
  cases h : calls.shutdown with
  | none => exact handed_of_append (by rw [apply_registered_of_open h]; rfl)
  | some cause => rw [apply_registered_of_shutDown h, handed_self]

/-- Only calls that wait are handed anything, each one thing. -/
theorem handed_sublist (calls : Calls) (event : CallEvent) :
    ((handed calls (calls.apply event)).map Prod.fst).Sublist calls.waiting := by
  rcases apply_cases calls event with ⟨key, rfl⟩ | ⟨key, outcome, h⟩ | ⟨key, h⟩ | ⟨cause, h⟩
  · simp
  · by_cases hkey : key ∈ calls.waiting <;> simp [h, handed_settle, hkey]
  · simp [h]
  · simp [h, handed_shutDown, Function.comp_def]

/-- A call that is handed something waits no longer. -/
theorem not_mem_waiting_of_handed (h : (key, outcome) ∈ handed calls (calls.apply event)) :
    key ∉ (calls.apply event).waiting := by
  rcases apply_cases calls event with
    ⟨other, rfl⟩ | ⟨other, o, happly⟩ | ⟨other, happly⟩ | ⟨cause, happly⟩
  · simp at h
  · rw [happly] at h ⊢
    by_cases hother : other ∈ calls.waiting
    · obtain ⟨rfl, rfl⟩ : key = other ∧ outcome = o := by simpa [handed_settle, hother] using h
      simp
    · simp [handed_settle, hother] at h
  · simp [happly] at h
  · simp [happly]

/-- A reply is handed to nobody but the call it is for. -/
theorem completed_of_handed {reply : Reply}
    (h : (key, .ok reply) ∈ handed calls (calls.apply event)) :
    event = .completed reply ∧ reply.key = key := by
  cases event with
  | registered other => simp at h
  | completed other =>
    by_cases hother : other.key ∈ calls.waiting
    · obtain ⟨rfl, rfl⟩ : key = other.key ∧ reply = other := by
        simpa [apply, complete, handed_settle, hother] using h
      exact ⟨rfl, rfl⟩
    · simp [apply, complete, handed_settle, hother] at h
  | failed other fault =>
    by_cases hother : other ∈ calls.waiting <;>
      simp [apply, fail, handed_settle, hother] at h
  | dropped other => simp [apply] at h
  | lost reason => simp [apply, lose, handed_shutDown] at h
  | closed => simp [apply, close, handed_shutDown] at h

/-- What is there to be picked up has been handed over. -/
theorem mem_outcomes_apply {entry : UInt64 × Except Fault Reply}
    (h : entry ∈ (calls.apply event).outcomes) :
    entry ∈ handed calls (calls.apply event) ∨ entry ∈ calls.outcomes := by
  rcases apply_cases calls event with
    ⟨other, rfl⟩ | ⟨other, o, happly⟩ | ⟨other, happly⟩ | ⟨cause, happly⟩
  · cases hcause : calls.shutdown with
    | none => exact .inr (by simpa [apply_registered_of_open hcause] using h)
    | some cause => exact .inr (by simpa [apply_registered_of_shutDown hcause] using h)
  · rw [happly] at h ⊢
    by_cases hother : other ∈ calls.waiting
    · simpa [settle, handed, hother] using h
    · rw [settle_of_not_mem hother] at h
      exact .inr h
  · rw [happly] at h
    exact .inr (List.mem_filter.1 h).1
  · rw [happly] at h ⊢
    simpa [handed, shutDown] using h

end Handed

/-! ## A whole history -/

theorem replay_cons (event : CallEvent) (events : List CallEvent) (calls : Calls) :
    replay (event :: events) calls = replay events (calls.apply event) := rfl

theorem replay_append (earlier later : List CallEvent) (calls : Calls) :
    replay (earlier ++ later) calls = replay later (replay earlier calls) :=
  List.foldl_append

theorem shutdown_replay (events : List CallEvent) (calls : Calls) :
    (replay events calls).shutdown = calls.shutdown.or (events.findSome? cause?) := by
  induction events generalizing calls with
  | nil => exact (Option.or_none).symm
  | cons event events ih =>
    rw [replay_cons, ih, shutdown_apply, Option.or_assoc, List.findSome?_cons]
    cases event.cause? <;> rfl

theorem outstanding_cons {events : List CallEvent} : Outstanding key (event :: events) ↔
    (event = .registered key ∧ ∀ later ∈ events, later.ends key = false) ∨
      (event.cause? = none ∧ Outstanding key events) := by
  constructor
  · rintro ⟨before, after, heq, hbefore, hafter⟩
    cases before with
    | nil =>
      obtain ⟨rfl, rfl⟩ := List.cons.inj heq
      exact .inl ⟨rfl, hafter⟩
    | cons first before =>
      obtain ⟨rfl, rfl⟩ := List.cons.inj heq
      obtain ⟨hfirst, hbefore⟩ := List.forall_mem_cons.1 hbefore
      exact .inr ⟨hfirst, before, after, rfl, hbefore, hafter⟩
  · rintro (⟨rfl, hafter⟩ | ⟨hevent, before, after, rfl, hbefore, hafter⟩)
    · exact ⟨[], events, rfl, by simp, hafter⟩
    · exact ⟨event :: before, after, rfl, List.forall_mem_cons.2 ⟨hevent, hbefore⟩, hafter⟩

/-- The calls that wait are those that did and have not been ended, and the outstanding ones. -/
theorem mem_waiting_replay {events : List CallEvent} : key ∈ (replay events calls).waiting ↔
    (key ∈ calls.waiting ∧ ∀ event ∈ events, event.ends key = false) ∨
      (calls.shutdown = none ∧ Outstanding key events) := by
  induction events generalizing calls with
  | nil => simp [replay, Outstanding]
  | cons event events ih =>
    rw [replay_cons, ih, mem_waiting_apply, shutdown_apply, outstanding_cons, List.forall_mem_cons,
      Option.or_eq_none_iff]
    tauto

/-- Nothing is outstanding after a shutdown. -/
theorem Outstanding.cause_eq_none {events : List CallEvent} (h : Outstanding key events) :
    events.findSome? cause? = none := by
  obtain ⟨before, after, rfl, hbefore, hafter⟩ := h
  refine List.findSome?_eq_none_iff.2 fun event hevent => ?_
  rcases List.mem_append.1 hevent with hmem | hmem
  · exact hbefore event hmem
  · cases hcause : event.cause? with
    | none => rfl
    | some cause =>
      have hends : event.ends key = true := ends_of_cause hcause
      rcases List.mem_cons.1 hmem with rfl | hmem
      · cases hends
      · rw [hafter event hmem] at hends
        cases hends

/-! ## Fresh keys -/

theorem registrations_cons (event : CallEvent) (events : List CallEvent) :
    registrations (event :: events) = event.registered?.toList ++ registrations events := by
  cases h : event.registered? <;> simp [registrations, h]

/-- Keys that are fresh now are fresh after an event. -/
theorem fresh_apply {events : List CallEvent}
    (h : (calls.waiting ++ registrations (event :: events)).Nodup) :
    ((calls.apply event).waiting ++ registrations events).Nodup := by
  have hperm : (calls.waiting ++ registrations (event :: events)).Perm
      (event.registered?.toList ++ calls.waiting ++ registrations events) := by
    rw [registrations_cons, ← List.append_assoc]
    exact List.perm_append_comm.append_right _
  exact (hperm.nodup_iff.1 h).sublist
    ((waiting_apply_sublist calls event).append_right (registrations events))

theorem mem_of_delivered {events : List CallEvent} {outcome : Except Fault Reply}
    (h : (key, outcome) ∈ deliveries events calls) :
    key ∈ calls.waiting ++ registrations events := by
  induction events generalizing calls with
  | nil => cases h
  | cons event events ih =>
    rw [registrations_cons, List.mem_append, List.mem_append]
    rcases List.mem_append.1 h with h | h
    · exact .inl ((handed_sublist calls event).mem (List.mem_map_of_mem h))
    · rcases List.mem_append.1 (ih h) with hmem | hmem
      · rcases List.mem_append.1 ((waiting_apply_sublist calls event).mem hmem) with hmem | hmem
        · exact .inr (.inl hmem)
        · exact .inl hmem
      · exact .inr (.inr hmem)

/-- While keys are fresh, no call is handed two outcomes. -/
theorem nodup_deliveries {events : List CallEvent}
    (h : (calls.waiting ++ registrations events).Nodup) :
    ((deliveries events calls).map Prod.fst).Nodup := by
  induction events generalizing calls with
  | nil => exact List.nodup_nil
  | cons event events ih =>
    have hwaiting : calls.waiting.Nodup := (List.nodup_append.1 h).1
    rw [deliveries, List.map_append, List.nodup_append]
    refine ⟨hwaiting.sublist (handed_sublist calls event), ih (fresh_apply h), ?_⟩
    rintro key hnow _ hlater rfl
    have hwaits : key ∈ calls.waiting := (handed_sublist calls event).mem hnow
    obtain ⟨outcome, hnow⟩ : ∃ outcome, (key, outcome) ∈ handed calls (calls.apply event) := by
      simpa using hnow
    obtain ⟨later, hlater⟩ : ∃ later, (key, later) ∈ deliveries events (calls.apply event) := by
      simpa using hlater
    rcases List.mem_append.1 (mem_of_delivered hlater) with hmem | hmem
    · exact not_mem_waiting_of_handed hnow hmem
    · have hentered : key ∈ registrations (event :: events) := by
        rw [registrations_cons]
        exact List.mem_append_right _ hmem
      exact (List.nodup_append.1 h).2.2 key hwaits key hentered rfl

theorem completed_of_delivered {events : List CallEvent} {reply : Reply}
    (h : (key, .ok reply) ∈ deliveries events calls) :
    .completed reply ∈ events ∧ reply.key = key := by
  induction events generalizing calls with
  | nil => cases h
  | cons event events ih =>
    rcases List.mem_append.1 h with h | h
    · obtain ⟨rfl, hkey⟩ := completed_of_handed h
      exact ⟨List.mem_cons_self, hkey⟩
    · obtain ⟨hmem, hkey⟩ := ih h
      exact ⟨List.mem_cons_of_mem event hmem, hkey⟩

theorem mem_outcomes_replay {events : List CallEvent} {entry : UInt64 × Except Fault Reply}
    (h : entry ∈ (replay events calls).outcomes) :
    entry ∈ deliveries events calls ∨ entry ∈ calls.outcomes := by
  induction events generalizing calls with
  | nil => exact .inr h
  | cons event events ih =>
    rw [deliveries, List.mem_append]
    rcases ih h with h | h
    · exact .inl (.inr h)
    · rcases mem_outcomes_apply h with h | h
      · exact .inl (.inl h)
      · exact .inr h

/-! ## The account of a table -/

/-- What a history says about the table it leads to. -/
structure Balanced (events : List CallEvent) (calls : Calls) : Prop where
  /-- The first cause of a shutdown stays. -/
  shutdown_eq : calls.shutdown = events.findSome? cause?
  /-- From a shutdown on nobody waits, and nobody comes to wait. -/
  after_shutdown : ∀ cause, events.findSome? cause? = some cause →
    calls.waiting = [] ∧ ∀ key, calls.register key = .error cause.fault
  /-- Exactly the outstanding calls have an entry, and each has one. -/
  mem_waiting_iff : ∀ key, key ∈ calls.waiting ↔ Outstanding key events
  nodup_waiting : calls.waiting.Nodup
  /-- Calls are handed one outcome at most, and nobody else is handed any. -/
  nodup_deliveries : ((deliveries events .empty).map Prod.fst).Nodup
  registered_of_delivered : ∀ key outcome, (key, outcome) ∈ deliveries events .empty →
    key ∈ registrations events
  /-- A reply that is handed to a call has come in and is for that call. -/
  completed_of_delivered : ∀ key reply, (key, .ok reply) ∈ deliveries events .empty →
    .completed reply ∈ events ∧ reply.key = key
  /-- What a call can pick up is what it was handed. -/
  delivered_of_kept : ∀ key outcome, calls.kept key = some outcome →
    (key, outcome) ∈ deliveries events .empty
  /-- Completing a call says whether it hands the reply to one that waits. -/
  complete_iff : ∀ reply, (calls.complete reply).1 = true ↔ Outstanding reply.key events
  handed_complete : ∀ reply, (calls.complete reply).1 = true →
    handed calls (calls.complete reply).2 = [(reply.key, .ok reply)]
  complete_of_nobody : ∀ reply, (calls.complete reply).1 = false →
    (calls.complete reply).2 = calls

theorem mem_waiting_iff_outstanding {events : List CallEvent} :
    key ∈ (replay events .empty).waiting ↔ Outstanding key events := by
  simp [mem_waiting_replay, empty]

theorem nodup_waiting_replay {events : List CallEvent}
    (h : (calls.waiting ++ registrations events).Nodup) : (replay events calls).waiting.Nodup := by
  induction events generalizing calls with
  | nil => exact (List.nodup_append.1 h).1
  | cons event events ih => exact ih (fresh_apply h)

/-- With fresh keys every history balances. -/
theorem balanced_replay {events : List CallEvent} (h : (registrations events).Nodup) :
    Balanced events (replay events .empty) := by
  have hfresh : (Calls.empty.waiting ++ registrations events).Nodup := h
  have hshutdown : (replay events .empty).shutdown = events.findSome? cause? :=
    shutdown_replay events .empty
  have hcomplete (reply : Reply) :
      ((replay events .empty).complete reply).1 = true ↔ Outstanding reply.key events :=
    settle_fst.trans mem_waiting_iff_outstanding
  exact {
    shutdown_eq := hshutdown
    after_shutdown := by
      intro cause hcause
      refine ⟨List.eq_nil_iff_forall_not_mem.2 fun key hkey => ?_,
        register_of_shutDown (hshutdown.trans hcause)⟩
      rw [(mem_waiting_iff_outstanding.1 hkey).cause_eq_none] at hcause
      cases hcause
    mem_waiting_iff := fun _ => mem_waiting_iff_outstanding
    nodup_waiting := nodup_waiting_replay hfresh
    nodup_deliveries := Calls.nodup_deliveries hfresh
    registered_of_delivered := fun _ _ hmem => mem_of_delivered hmem
    completed_of_delivered := fun _ _ hmem => Calls.completed_of_delivered hmem
    delivered_of_kept := by
      intro key outcome hkept
      obtain ⟨earlier, later, heq, -⟩ := List.lookup_eq_some_iff.1 hkept
      have hmem : (key, outcome) ∈ (replay events .empty).outcomes := by rw [heq]; simp
      exact (mem_outcomes_replay hmem).resolve_right List.not_mem_nil
    complete_iff := hcomplete
    handed_complete := by
      intro reply htrue
      rw [complete, handed_settle, if_pos (settle_fst.1 htrue)]
    complete_of_nobody := by
      intro reply hfalse
      have hmem : reply.key ∉ (replay events .empty).waiting := fun hmem => by
        rw [complete, settle_fst.2 hmem] at hfalse
        cases hfalse
      rw [complete, settle_of_not_mem hmem] }

end Calls

end QueryClient
