/-!
# Results of steps that can overflow

A step has a result, or it fails with an error. A step that adds numbers of 64 bits can also come to
a sum that has more bits. It then stops there: no error says so, and nothing comes after it. That is
what arithmetic with overflow checks does.
-/

namespace UtmTiles

/-- What a step comes to. -/
inductive Result (ε α : Type) where
  | ok (a : α)
  | error (fault : ε)
  /-- A sum had too many bits. -/
  | overflow
  deriving Repr

namespace Result

variable {ε ε' α β : Type}

def ofExcept : Except ε α → Result ε α
  | .ok a => .ok a
  | .error fault => .error fault

/-- What comes of a checked sum, which is not there if it has too many bits. -/
def ofOption : Option α → Result ε α
  | some a => .ok a
  | none => .overflow

def mapError (wrap : ε → ε') : Result ε α → Result ε' α
  | .ok a => .ok a
  | .error fault => .error (wrap fault)
  | .overflow => .overflow

/-- Goes on with a result. -/
protected def bind : Result ε α → (α → Result ε β) → Result ε β
  | .ok a, next => next a
  | .error fault, _ => .error fault
  | .overflow, _ => .overflow

instance : Monad (Result ε) where
  pure := .ok
  bind := Result.bind

/-! ### What the steps come to -/

theorem ofExcept_eq_ok_iff {answer : Except ε α} {a : α} :
    ofExcept answer = .ok a ↔ answer = .ok a := by
  cases answer <;> simp [ofExcept]

theorem ofExcept_eq_error_iff {answer : Except ε α} {fault : ε} :
    ofExcept answer = .error fault ↔ answer = .error fault := by
  cases answer <;> simp [ofExcept]

theorem ofExcept_ne_overflow (answer : Except ε α) : ofExcept answer ≠ .overflow := by
  cases answer <;> simp [ofExcept]

theorem ofOption_eq_ok_iff {sum : Option α} {a : α} :
    (ofOption sum : Result ε α) = .ok a ↔ sum = some a := by
  cases sum <;> simp [ofOption]

theorem ofOption_ne_error (sum : Option α) (fault : ε) : ofOption sum ≠ .error fault := by
  cases sum <;> simp [ofOption]

theorem ofOption_eq_overflow_iff {sum : Option α} :
    (ofOption sum : Result ε α) = .overflow ↔ sum = none := by
  cases sum <;> simp [ofOption]

section Bind

variable {step : Result ε α} {next : α → Result ε β}

@[simp] theorem ok_bind (a : α) (next : α → Result ε β) : Result.ok a >>= next = next a := rfl

theorem bind_eq_ok_iff {b : β} : step >>= next = .ok b ↔ ∃ a, step = .ok a ∧ next a = .ok b := by
  cases step <;> simp [bind, Result.bind]

theorem bind_eq_error_iff {fault : ε} : step >>= next = .error fault ↔
    step = .error fault ∨ ∃ a, step = .ok a ∧ next a = .error fault := by
  cases step <;> simp [bind, Result.bind]

theorem bind_eq_overflow_iff : step >>= next = .overflow ↔
    step = .overflow ∨ ∃ a, step = .ok a ∧ next a = .overflow := by
  cases step <;> simp [bind, Result.bind]

end Bind

end Result
end UtmTiles
