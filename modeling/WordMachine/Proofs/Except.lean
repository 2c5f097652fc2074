import Mathlib

/-!
# Steps that may fail

A chain of steps succeeds when each of its steps does and fails where the first of them
fails.  These are the equations that take such a chain apart.
-/

namespace WordMachine

variable {E A B C : Type}

theorem ok_bind (a : A) (f : A → Except E B) : (Except.ok a >>= f) = f a := rfl

theorem pure_eq_ok_iff {a b : A} : (pure a : Except E A) = .ok b ↔ a = b := by
  simp [pure, Except.pure]

theorem bind_eq_ok_iff {x : Except E A} {f : A → Except E B} {b : B} :
    (x >>= f) = .ok b ↔ ∃ a, x = .ok a ∧ f a = .ok b := by
  cases x with
  | error cause => simp [bind, Except.bind]
  | ok a => simp [ok_bind]

theorem bind_eq_error_iff {x : Except E A} {f : A → Except E B} {cause : E} :
    (x >>= f) = .error cause ↔ x = .error cause ∨ ∃ a, x = .ok a ∧ f a = .error cause := by
  cases x with
  | error cause' => simp [bind, Except.bind]
  | ok a => simp [ok_bind]

theorem map_eq_ok_iff {x : Except E A} {f : A → B} {b : B} :
    x.map f = .ok b ↔ ∃ a, x = .ok a ∧ f a = b := by
  cases x <;> simp [Except.map]

theorem map_eq_error_iff {x : Except E A} {f : A → B} {cause : E} :
    x.map f = .error cause ↔ x = .error cause := by
  cases x <;> simp [Except.map]

theorem eq_ok_iff_forall_ne_error {x : Except E Unit} :
    x = .ok () ↔ ∀ cause, x ≠ .error cause := by
  cases x <;> simp

theorem map_of_bind (x : Except E A) (f : A → Except E B) (g : B → C) :
    (x >>= f).map g = x >>= fun a => (f a).map g := by
  cases x <;> rfl

theorem bind_of_map (x : Except E A) (f : A → B) (g : B → Except E C) :
    (x.map f >>= g) = x >>= fun a => g (f a) := by
  cases x <;> rfl

end WordMachine
