/-!
# Results that may be errors

* `bind_eq_ok`, `bind_eq_error` — how two computations in a row succeed, and how they fail;
* `map_eq_ok`, `map_eq_error`, `mapError_eq_ok`, `mapError_eq_error` — the same for a result or an
  error that is changed.
-/

namespace CharacterSheet

variable {ε ε' α β : Type} {x : Except ε α} {a : α} {b : β} {error : ε}

theorem bind_eq_ok {f : α → Except ε β} : x >>= f = .ok b ↔ ∃ a, x = .ok a ∧ f a = .ok b := by
  cases x <;> simp [bind, Except.bind]

theorem bind_eq_error {f : α → Except ε β} :
    x >>= f = .error error ↔ x = .error error ∨ ∃ a, x = .ok a ∧ f a = .error error := by
  cases x <;> simp [bind, Except.bind]

theorem map_eq_ok {f : α → β} : x.map f = .ok b ↔ ∃ a, x = .ok a ∧ f a = b := by
  cases x <;> simp [Except.map]

theorem map_eq_error {f : α → β} : x.map f = .error error ↔ x = .error error := by
  cases x <;> simp [Except.map]

theorem mapError_eq_ok {f : ε → ε'} : x.mapError f = .ok a ↔ x = .ok a := by
  cases x with
  | error error => exact iff_of_false nofun nofun
  | ok b =>
    have hok : (Except.ok b : Except ε α).mapError f = .ok b := rfl
    rw [hok, Except.ok.injEq, Except.ok.injEq]

theorem mapError_eq_error {f : ε → ε'} {error' : ε'} :
    x.mapError f = .error error' ↔ ∃ error, x = .error error ∧ f error = error' := by
  cases x with
  | error error =>
    have herror : (Except.error error : Except ε α).mapError f = .error (f error) := rfl
    rw [herror]
    simp
  | ok a => exact iff_of_false nofun nofun

end CharacterSheet
