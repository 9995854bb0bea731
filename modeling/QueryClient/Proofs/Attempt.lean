import QueryClient.Cursor.Navigation

/-!
# Running attempts

The outcome of an attempt, as a function of the state it starts from. Each primitive has one
equation, so that a proof about an operation follows its text without opening the monads it is
written in.
-/

namespace QueryClient

namespace Attempt

variable {S α β : Type}

/-- The outcome of an attempt from a state, and the state it leaves. -/
def exec (m : Attempt S α) (s : S) : Except Stop α × S :=
  m.run.run s

@[simp] theorem exec_pure (a : α) (s : S) : exec (pure a) s = (.ok a, s) := rfl

@[simp] theorem exec_throw (stop : Stop) (s : S) :
    exec (throw stop : Attempt S α) s = (.error stop, s) := rfl

@[simp] theorem exec_fail (fault : Fault) (s : S) :
    exec (fail fault : Attempt S α) s = (.error (.fault fault), s) := rfl

theorem exec_bind (m : Attempt S α) (f : α → Attempt S β) (s : S) :
    exec (m >>= f) s = match exec m s with
      | (.ok a, t) => exec (f a) t
      | (.error stop, t) => (.error stop, t) := by
  simp only [exec, ExceptT.run_bind, StateT.run_bind]
  rcases m.run.run s with ⟨_ | a, t⟩ <;> rfl

theorem exec_bind_ok {m : Attempt S α} {f : α → Attempt S β} {s t : S} {a : α}
    (h : exec m s = (.ok a, t)) : exec (m >>= f) s = exec (f a) t := by
  rw [exec_bind, h]

theorem exec_bind_error {m : Attempt S α} {f : α → Attempt S β} {s t : S} {stop : Stop}
    (h : exec m s = (.error stop, t)) : exec (m >>= f) s = (.error stop, t) := by
  rw [exec_bind, h]

theorem exec_bind_pure (m : Attempt S α) (f : α → β) (s : S) :
    exec (m >>= fun a => pure (f a)) s = ((exec m s).1.map f, (exec m s).2) := by
  rw [exec_bind]
  rcases exec m s with ⟨_ | a, t⟩ <;> rfl

theorem exec_map (f : α → β) (m : Attempt S α) (s : S) :
    exec (f <$> m) s = ((exec m s).1.map f, (exec m s).2) := by
  rw [map_eq_pure_bind, exec_bind_pure]

@[simp] theorem exec_ofExcept (outcome : Except Fault α) (s : S) :
    exec (ofExcept outcome) s = (outcome.mapError .fault, s) := by
  cases outcome <;> rfl

theorem exec_recover (m : Attempt S α) (handler : Fault → Attempt S α) (s : S) :
    exec (recover m handler) s = match exec m s with
      | (.ok a, t) => (.ok a, t)
      | (.error (.fault fault), t) => exec (handler fault) t
      | (.error .outOfRounds, t) => (.error .outOfRounds, t) := by
  simp only [exec, recover, tryCatch, tryCatchThe, MonadExceptOf.tryCatch, ExceptT.tryCatch,
    ExceptT.run, ExceptT.mk, StateT.run_bind]
  rcases StateT.run m s with ⟨_ | a, t⟩
  · next stop => cases stop <;> rfl
  · rfl

end Attempt

namespace Cursor.Nav

open Attempt

variable {σ H α : Type}

@[simp] theorem exec_cursor (d : Desk σ H) :
    exec (cursor : Nav σ H (Cursor H)) d = (.ok d.cursor, d) := rfl

@[simp] theorem exec_update (f : Cursor H → Cursor H) (d : Desk σ H) :
    exec (update f) d = (.ok (), { d with cursor := f d.cursor }) := rfl

@[simp] theorem exec_ask (operation : σ → α × σ) (d : Desk σ H) :
    exec (ask operation : Nav σ H α) d =
      (.ok (operation d.source).1, { d with source := (operation d.source).2 }) := rfl

/-- The desk once sums are noted. -/
def noted (d : Desk σ H) (sums : List Int) : Desk σ H :=
  { d with overflowed := d.overflowed || !sums.all fits }

@[simp] theorem exec_note (sums : List Int) (d : Desk σ H) :
    exec (note sums) d = (.ok (), noted d sums) := rfl

@[simp] theorem exec_sum (a b : Int) (d : Desk σ H) :
    exec (sum a b) d = (.ok (a + b), noted d [a + b]) := rfl

end Cursor.Nav

end QueryClient
