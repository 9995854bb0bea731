import QueryClient.Fault

/-!
# Operations that may fail

Reads, writes, decodes and encodes are operations on a state that may fail. A sequence of two
succeeds exactly when both do, the second on the state that the first leaves.
-/

namespace QueryClient.Operation

variable {S α β : Type} {r : ExceptT Fault (StateM S) α} {g : α → ExceptT Fault (StateM S) β}
  {s t : S} {a : α} {b : β} {fault : Fault}

theorem bind_of_ok (h : r s = (.ok a, t)) : (r >>= g) s = g a t := by
  simp only [bind, ExceptT.bind, ExceptT.mk, StateT.bind, h, ExceptT.bindCont]

theorem bind_of_error (h : r s = (.error fault, t)) : (r >>= g) s = (.error fault, t) := by
  simp only [bind, ExceptT.bind, ExceptT.mk, StateT.bind, h, ExceptT.bindCont]
  rfl

theorem bind_eq_ok_iff :
    (r >>= g) s = (.ok b, t) ↔ ∃ a u, r s = (.ok a, u) ∧ g a u = (.ok b, t) := by
  rcases hr : r s with ⟨fault | a, u⟩
  · rw [bind_of_error hr]
    constructor
    · intro h
      cases h
    · rintro ⟨a, u, h, -⟩
      cases h
  · rw [bind_of_ok hr]
    constructor
    · intro hg
      exact ⟨a, u, rfl, hg⟩
    · rintro ⟨a', u', heq, hg⟩
      cases heq
      exact hg

theorem pure_eq_ok_iff {a' : α} :
    (pure a : ExceptT Fault (StateM S) α) s = (.ok a', t) ↔ a' = a ∧ t = s := by
  constructor
  · intro h
    cases h
    exact ⟨rfl, rfl⟩
  · rintro ⟨rfl, rfl⟩
    rfl

theorem fst_bind_eq_error_iff :
    ((r >>= g) s).1 = .error fault ↔
      (r s).1 = .error fault ∨ ∃ a u, r s = (.ok a, u) ∧ (g a u).1 = .error fault := by
  rcases hr : r s with ⟨fault' | a, u⟩
  · rw [bind_of_error hr]
    constructor
    · intro h
      cases h
      exact .inl rfl
    · rintro (h | ⟨a, u, h, -⟩)
      · cases h
        rfl
      · cases h
  · rw [bind_of_ok hr]
    constructor
    · intro hg
      exact .inr ⟨a, u, rfl, hg⟩
    · rintro (h | ⟨a', u', heq, hg⟩)
      · cases h
      · cases heq
        exact hg

/-- Every fault that an operation may end with is of some sort. -/
def Faults (p : Fault → Prop) (r : ExceptT Fault (StateM S) α) : Prop :=
  ∀ s fault, (r s).1 = .error fault → p fault

namespace Faults

variable {p q : Fault → Prop}

theorem mono (hr : Faults p r) (h : ∀ fault, p fault → q fault) : Faults q r :=
  fun s fault hfault => h fault (hr s fault hfault)

/-- An operation that always succeeds. -/
theorem sure (h : ∀ s, ∃ a, (r s).1 = .ok a) : Faults p r := by
  intro s fault hfault
  obtain ⟨a, hok⟩ := h s
  cases hok.symm.trans hfault

theorem pure (a : α) : Faults p (Pure.pure a : ExceptT Fault (StateM S) α) :=
  .sure fun _ => ⟨a, rfl⟩

theorem throw {fault : Fault} (h : p fault) :
    Faults p (MonadExcept.throw fault : ExceptT Fault (StateM S) α) := by
  intro s fault' hthrow
  cases hthrow
  exact h

theorem bind (hr : Faults p r) (hg : ∀ a, Faults p (g a)) : Faults p (r >>= g) := by
  intro s fault h
  rcases fst_bind_eq_error_iff.mp h with hfirst | ⟨a, u, -, hsecond⟩
  · exact hr s fault hfirst
  · exact hg a u fault hsecond

end Faults

/-- What is left of an outcome can be decided where outcomes cannot be compared. -/
theorem exists_of_toOption_map {outcome : Except Fault α} {f : α → β}
    (h : outcome.toOption.map f = some b) : ∃ a, outcome = .ok a ∧ f a = b := by
  cases outcome with
  | error fault => cases h
  | ok a => exact ⟨a, rfl, Option.some.inj h⟩

theorem exists_of_except_bind {outcome : Except Fault α} {f : α → Except Fault β}
    (h : outcome.bind f = .ok b) : ∃ a, outcome = .ok a ∧ f a = .ok b := by
  cases outcome with
  | error fault => cases h
  | ok a => exact ⟨a, rfl, h⟩

end QueryClient.Operation
