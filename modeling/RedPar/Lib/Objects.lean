import Mathlib.Tactic.Lemma

/-!
# Objects and their abstraction

An object is a step function from a state and an input to the next state and an output. It
refines another object when an abstraction function, on the states that satisfy an invariant,
carries each of its steps to a step of the other with the same output.
-/

namespace Objects

variable {σ τ ι ο : Type}

/-- The state after a sequence of inputs. -/
def after (step : σ → ι → σ × ο) (s : σ) : List ι → σ
  | [] => s
  | i :: is => after step (step s i).1 is

/-- Each input of a sequence with the output that it gave. -/
def outputs (step : σ → ι → σ × ο) (s : σ) : List ι → List (ι × ο)
  | [] => []
  | i :: is => (i, (step s i).2) :: outputs step (step s i).1 is

/-- The object `step` refines the object `spec`. -/
structure Refines (step : σ → ι → σ × ο) (spec : τ → ι → τ × ο) (abs : σ → τ) (inv : σ → Prop) :
    Prop where
  keeps : ∀ s i, inv s → inv (step s i).1
  state : ∀ s i, inv s → abs (step s i).1 = (spec (abs s) i).1
  output : ∀ s i, inv s → (step s i).2 = (spec (abs s) i).2

namespace Refines

variable {step : σ → ι → σ × ο} {spec : τ → ι → τ × ο} {abs : σ → τ} {inv : σ → Prop}

theorem inv_after (h : Refines step spec abs inv) {s : σ} (hs : inv s) (is : List ι) :
    inv (after step s is) := by
  induction is generalizing s with
  | nil => exact hs
  | cons i is ih => exact ih (h.keeps s i hs)

theorem abs_after (h : Refines step spec abs inv) {s : σ} (hs : inv s) (is : List ι) :
    abs (after step s is) = after spec (abs s) is := by
  induction is generalizing s with
  | nil => rfl
  | cons i is ih =>
    change abs (after step (step s i).1 is) = after spec (spec (abs s) i).1 is
    rw [ih (h.keeps s i hs), h.state s i hs]

theorem outputs_eq (h : Refines step spec abs inv) {s : σ} (hs : inv s) (is : List ι) :
    outputs step s is = outputs spec (abs s) is := by
  induction is generalizing s with
  | nil => rfl
  | cons i is ih =>
    change (i, (step s i).2) :: outputs step (step s i).1 is =
      (i, (spec (abs s) i).2) :: outputs spec (spec (abs s) i).1 is
    rw [ih (h.keeps s i hs), h.state s i hs, h.output s i hs]

end Refines

end Objects
