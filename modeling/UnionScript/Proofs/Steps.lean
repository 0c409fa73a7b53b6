/-!
# Steps — steps that may fail, one after the other

A run and a reader are both steps on a state that either answer or fail.  Two of them in a row answer exactly if the
first one answers and the second one does so from where the first one ended.
-/
namespace UnionScript
namespace Steps

variable {ε σ α β : Type} {step : EStateM ε σ α} {next : α → EStateM ε σ β} {s s' : σ}

theorem bind_ok {a : α} (h : step s = .ok a s') : (step >>= next) s = next a s' := by
  show EStateM.bind step next s = _
  rw [EStateM.bind, h]

theorem bind_error {e : ε} (h : step s = .error e s') : (step >>= next) s = .error e s' := by
  show EStateM.bind step next s = _
  rw [EStateM.bind, h]

/-- If two steps answer one after the other, each of them does. -/
theorem of_bind_ok {b : β} (h : (step >>= next) s = .ok b s') : ∃ a t, step s = .ok a t ∧ next a t = .ok b s' := by
  cases hstep : step s with
  | ok a t => exact ⟨a, t, rfl, (bind_ok hstep).symm.trans h⟩
  | error e t => exact nomatch (bind_error hstep).symm.trans h

end Steps
end UnionScript
