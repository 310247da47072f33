/-!
# `Lib.Lockstep` — two computations that end alike

Two computations that may fail run in **lockstep** under a relation when both return and what they return is
related, or both fail with the same error. This is what a two-run property says of each pair of outcomes;
`Lockstep.bind` composes it along the steps of two programs.
-/

namespace TwoRun

variable {ε α β α' β' : Type}

/-- Both return and are related, or both fail alike. -/
def Lockstep (R : α → β → Prop) : Except ε α → Except ε β → Prop
  | .ok a, .ok b => R a b
  | .error e, .error e' => e = e'
  | _, _ => False

variable {R : α → β → Prop} {Q : α' → β' → Prop} {x : Except ε α} {y : Except ε β}

namespace Lockstep

theorem mono {R' : α → β → Prop} (h : Lockstep R x y) (hR : ∀ a b, R a b → R' a b) : Lockstep R' x y := by
  cases x with
  | ok a =>
      cases y with
      | ok b => exact hR a b h
      | error e => exact h
  | error e =>
      cases y with
      | ok b => exact h
      | error e' => exact h

/-- **The rule of composition.** -/
theorem bind {f : α → Except ε α'} {g : β → Except ε β'} (h : Lockstep R x y)
    (hfg : ∀ a b, R a b → Lockstep Q (f a) (g b)) : Lockstep Q (x.bind f) (y.bind g) := by
  cases x with
  | ok a =>
      cases y with
      | ok b => exact hfg a b h
      | error e => exact absurd h id
  | error e =>
      cases y with
      | ok b => exact absurd h id
      | error e' => exact h

/-- Two computations that fail alike. -/
theorem of_error {e : ε} (hx : x = .error e) (hy : y = .error e) : Lockstep R x y := by
  rw [hx, hy]
  exact rfl

/-- Two computations that return. -/
theorem of_ok {a : α} {b : β} (hx : x = .ok a) (hy : y = .ok b) (h : R a b) : Lockstep R x y := by
  rw [hx, hy]
  exact h

end Lockstep

end TwoRun
