/-!
# Computations that can fail

Two computations in sequence go through exactly if the first gives a value on which the second goes
through; otherwise the sequence fails as the first of them that fails does.
-/

namespace MiniLang

variable {ε : Type u} {α β : Type v}

/-- What follows a step that went through runs on its result. -/
theorem ok_bind (value : α) (next : α -> Except ε β) :
    (Except.ok value >>= next) = next value := rfl

/-- A sequence of two computations goes through only if both do. -/
theorem exists_of_bind
    {step : Except ε α}
    {next : α -> Except ε β}
    {result : β}
    (ran : (step >>= next) = .ok result) :
    ∃ value, step = .ok value ∧ next value = .ok result := by
  cases step with
  | error error => cases ran
  | ok value => exact ⟨value, rfl, ran⟩

end MiniLang
