/-
# Validators as chains of checks

A validator rejects its input at the first check that fails. Read from the accepting
side, a chain of checks is the conjunction of what each of them leaves open.
-/

namespace OpenXJ380.Data

variable {ε α β : Type}

/-- An operation that can fail and changes nothing. -/
def attempt (failure : Option ε) : Except ε Unit :=
  match failure with
  | some error => .error error
  | none => .ok ()

theorem attempt_eq_ok {failure : Option ε} {value : Unit} :
    attempt failure = .ok value ↔ failure = none := by
  cases failure <;> simp [attempt]

theorem bind_eq_ok {first : Except ε α} {next : α → Except ε β} {result : β} :
    first >>= next = .ok result ↔ ∃ value, first = .ok value ∧ next value = .ok result := by
  cases first <;> simp [bind, Except.bind]

end OpenXJ380.Data
