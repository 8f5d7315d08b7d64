import Mathlib.Tactic.TypeStar

/-!
# Methods that change their receiver

A method in place: it reads and assigns the value it is called on, and an error leaves what was
assigned before it. `Method ε σ α` is a computation over the receiver `σ`, and `on` runs it on a
receiver; `raise` is an error as a method gives it.

* `on_get`, `on_modify`, `on_raise`, `on_bind`, `on_tryCatch`: one rule a statement, over arbitrary
  types.
* `on_raise_bind`, `on_get_bind`: the statements that are followed by others.

With these a method is rewritten to what it returns and the receiver it leaves, and so compared
with a function that returns the new receiver or an error.
-/

namespace GroupAgent.Lib

/-- A method that changes a `σ`, and may fail on the way. -/
abbrev Method (ε σ α : Type) : Type := ExceptT ε (StateM σ) α

namespace Method

variable {ε σ α β : Type}

/-- What a checked computation returns, or its error. -/
def raise : Except ε α → Method ε σ α
  | .ok a => pure a
  | .error error => throw error

/-- Call a method on a value: what it returns, and what the value is then. -/
def on (x : Method ε σ α) (self : σ) : Except ε α × σ := x.run.run self

@[simp] theorem on_pure (a : α) (self : σ) : on (pure a : Method ε σ α) self = (.ok a, self) := rfl

@[simp] theorem on_throw (error : ε) (self : σ) :
    on (throw error : Method ε σ α) self = (.error error, self) := rfl

@[simp] theorem on_get (self : σ) : on (get : Method ε σ σ) self = (.ok self, self) := rfl

@[simp] theorem on_modify (f : σ → σ) (self : σ) :
    on (modify f : Method ε σ PUnit) self = (.ok (), f self) := rfl

@[simp] theorem on_raise (r : Except ε α) (self : σ) : on (raise r) self = (r, self) := by
  cases r <;> rfl

/-- The next statement is called on what the last one left, unless it failed. -/
theorem on_bind (x : Method ε σ α) (f : α → Method ε σ β) (self : σ) :
    on (x >>= f) self = match on x self with
      | (.ok a, self') => on (f a) self'
      | (.error error, self') => (.error error, self') := by
  show (ExceptT.bindCont f (x.run.run self).1).run (x.run.run self).2 = _
  unfold on
  cases hx : x.run.run self with
  | mk r self' => cases r <;> rfl

/-- A handler is called on what the failed method left. -/
theorem on_tryCatch (x : Method ε σ α) (handle : ε → Method ε σ α) (self : σ) :
    on (tryCatch x handle) self = match on x self with
      | (.ok a, self') => (.ok a, self')
      | (.error error, self') => on (handle error) self' := by
  show (ExceptT.tryCatch x handle).run.run self = _
  unfold ExceptT.tryCatch on
  rw [ExceptT.run_mk, StateT.run_bind]
  show StateT.run (m := Id) _ (StateT.run (m := Id) x self).2 = match x.run.run self with
    | (.ok a, self') => (.ok a, self')
    | (.error error, self') => (handle error).run.run self'
  cases hx : x.run.run self with
  | mk r self' =>
    have hx' : StateT.run (m := Id) x self = (r, self') := hx
    rw [hx']
    cases r <;> rfl

/-- Checks made before anything is assigned: their error leaves the value. -/
theorem on_raise_bind (r : Except ε α) (f : α → Method ε σ β) (self : σ) :
    on (raise r >>= f) self = match r with
      | .ok a => on (f a) self
      | .error error => (.error error, self) := by
  rw [on_bind, on_raise]
  cases r <;> rfl

theorem on_get_bind (f : σ → Method ε σ β) (self : σ) :
    on ((get : Method ε σ σ) >>= f) self = on (f self) self := rfl

end Method

end GroupAgent.Lib
