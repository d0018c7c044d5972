/-!
# Attempts

Every reader of the library either succeeds with a value or fails with a reason.  The lemmas here
take an attempt apart into the attempts it is made of.
-/

namespace FormulaTree

variable {ε α β : Type}

/-- A mapped attempt succeeds just when the attempt does. -/
theorem map_eq_ok {e : Except ε α} {f : α → β} {b : β} :
    e.map f = .ok b ↔ ∃ a, e = .ok a ∧ f a = b := by
  cases e <;> simp [Except.map]

/-- Two attempts in a row succeed just when both do. -/
theorem bind_eq_ok {e : Except ε α} {f : α → Except ε β} {b : β} :
    e.bind f = .ok b ↔ ∃ a, e = .ok a ∧ f a = .ok b := by
  cases e <;> simp [Except.bind]

theorem map_eq_error {e : Except ε α} {f : α → β} {fault : ε} :
    e.map f = .error fault ↔ e = .error fault := by
  cases e <;> simp [Except.map]

/-- Two attempts in a row fail just when the first does, or the second after the first. -/
theorem bind_eq_error {e : Except ε α} {f : α → Except ε β} {fault : ε} :
    e.bind f = .error fault ↔ e = .error fault ∨ ∃ a, e = .ok a ∧ f a = .error fault := by
  cases e <;> simp [Except.bind]

end FormulaTree
