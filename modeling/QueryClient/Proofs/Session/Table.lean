import QueryClient.Session.Calls

/-!
# Operations on the table of calls

What each operation does to the calls that wait, to the outcomes that are kept and to the cause of
the shutdown. Outcomes are looked up, never listed: a key has the outcome that was entered last.
-/

namespace QueryClient.Calls

variable {calls : Calls} {key other : UInt64} {outcome : Except Fault Reply}

/-- The outcome that is kept for a call. -/
def kept (key : UInt64) (calls : Calls) : Option (Except Fault Reply) :=
  calls.outcomes.lookup key

theorem lookup_cons_eq_ite {first : UInt64} (rest : List (UInt64 × Except Fault Reply)) :
    ((first, outcome) :: rest).lookup key =
      if key = first then some outcome else rest.lookup key := by
  by_cases h : key = first
  · simp [h]
  · have hbeq : (key == first) = false := beq_eq_false_iff_ne.mpr h
    simp [List.lookup_cons, hbeq, h]

theorem lookup_map_const (keys : List UInt64) (rest : List (UInt64 × Except Fault Reply)) :
    (keys.map (·, outcome) ++ rest).lookup key =
      if key ∈ keys then some outcome else rest.lookup key := by
  induction keys with
  | nil => simp
  | cons first keys ih =>
    rw [List.map_cons, List.cons_append, lookup_cons_eq_ite, ih]
    by_cases hkey : key = first <;> simp [hkey]

theorem outcome?_eq_none_iff :
    calls.outcome? key = none ↔ calls.kept key = none ∧ key ∈ calls.waiting := by
  unfold outcome? kept
  cases calls.outcomes.lookup key <;> simp

theorem outcome?_of_kept (h : calls.kept key = some outcome) :
    calls.outcome? key = some outcome := by
  unfold kept at h
  rw [outcome?, h]

theorem outcome?_of_not_mem (h : key ∉ calls.waiting) :
    calls.outcome? key = some ((calls.kept key).getD (.error calls.shutdownFault)) := by
  unfold outcome? kept
  cases calls.outcomes.lookup key <;> simp [h]

/-- An outcome is the one that is kept for the call, or that of a call that is not in the table. -/
theorem kept_or_of_outcome? (h : calls.outcome? key = some outcome) :
    calls.kept key = some outcome ∨ outcome = .error calls.shutdownFault := by
  unfold outcome? at h
  split at h
  · next hkept =>
    rw [← h]
    exact .inl hkept
  · split at h
    · cases h
    · exact .inr (Option.some.inj h).symm

theorem shutdownFault_congr {calls' : Calls} (h : calls.shutdown = calls'.shutdown) :
    calls.shutdownFault = calls'.shutdownFault := by
  rw [shutdownFault, shutdownFault, h]

/-! ## Entering a call -/

theorem register_of_open (h : calls.shutdown = none) (key : UInt64) :
    calls.register key = .ok { calls with waiting := key :: calls.waiting } := by
  simp [register, isShutDown, h]

theorem register_of_shutDown {cause : Shutdown} (h : calls.shutdown = some cause) (key : UInt64) :
    calls.register key = .error cause.fault := by
  simp [register, isShutDown, shutdownFault, h]

theorem register_eq_ok {after : Calls} (h : calls.register key = .ok after) :
    calls.shutdown = none ∧ after = { calls with waiting := key :: calls.waiting } := by
  rcases Option.eq_none_or_eq_some calls.shutdown with hcause | ⟨cause, hcause⟩
  · rw [register_of_open hcause] at h
    exact ⟨hcause, (Except.ok.inj h).symm⟩
  · rw [register_of_shutDown hcause] at h
    cases h

/-! ## Handing over an outcome -/

theorem settle_fst : (calls.settle key outcome).1 = true ↔ key ∈ calls.waiting := by
  by_cases h : key ∈ calls.waiting <;> simp [settle, h]

theorem settle_of_not_mem (h : key ∉ calls.waiting) :
    calls.settle key outcome = (false, calls) := by
  simp [settle, h]

@[simp] theorem shutdown_settle : (calls.settle key outcome).2.shutdown = calls.shutdown := by
  by_cases h : key ∈ calls.waiting <;> simp [settle, h]

@[simp] theorem mem_waiting_settle :
    other ∈ (calls.settle key outcome).2.waiting ↔ other ∈ calls.waiting ∧ other ≠ key := by
  by_cases h : key ∈ calls.waiting
  · simp [settle, h]
  · rw [settle_of_not_mem h]
    exact ⟨fun hother => ⟨hother, fun heq => h (heq ▸ hother)⟩, And.left⟩

theorem waiting_settle_sublist :
    (calls.settle key outcome).2.waiting.Sublist calls.waiting := by
  by_cases h : key ∈ calls.waiting <;> simp [settle, h]

theorem kept_settle : (calls.settle key outcome).2.kept other =
    if other = key ∧ key ∈ calls.waiting then some outcome else calls.kept other := by
  by_cases h : key ∈ calls.waiting
  · simp [settle, kept, h, lookup_cons_eq_ite]
  · simp [settle_of_not_mem h, h]

theorem kept_settle_of_not_mem (h : other ∉ calls.waiting) :
    (calls.settle key outcome).2.kept other = calls.kept other := by
  rw [kept_settle, if_neg]
  rintro ⟨rfl, hmem⟩
  exact h hmem

/-! ## Forgetting a call -/

@[simp] theorem shutdown_forget : (calls.forget key).shutdown = calls.shutdown := rfl

@[simp] theorem mem_waiting_forget :
    other ∈ (calls.forget key).waiting ↔ other ∈ calls.waiting ∧ other ≠ key := by
  simp [forget]

theorem kept_forget :
    (calls.forget key).kept other = if other = key then none else calls.kept other := by
  unfold forget kept
  induction calls.outcomes with
  | nil => simp
  | cons entry rest ih =>
    obtain ⟨first, outcome⟩ := entry
    by_cases hfirst : first = key
    · rw [List.filter_cons_of_neg (by simp [hfirst]), ih, lookup_cons_eq_ite]
      by_cases hother : other = key <;> simp [hother, hfirst]
    · rw [List.filter_cons_of_pos (by simp [hfirst]), lookup_cons_eq_ite, lookup_cons_eq_ite, ih]
      by_cases hother : other = first
      · simp [hother, hfirst]
      · simp [hother]

/-! ## Shutting down -/

@[simp] theorem shutdown_shutDown (cause : Shutdown) :
    (calls.shutDown cause).shutdown = some (calls.shutdown.getD cause) := rfl

@[simp] theorem waiting_shutDown (cause : Shutdown) : (calls.shutDown cause).waiting = [] := rfl

theorem kept_shutDown (cause : Shutdown) : (calls.shutDown cause).kept key =
    if key ∈ calls.waiting then some (.error (calls.shutdown.getD cause).fault)
    else calls.kept key :=
  lookup_map_const calls.waiting calls.outcomes

end QueryClient.Calls
