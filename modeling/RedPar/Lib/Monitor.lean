import RedPar.Lib.Program

/-!
# Programs under a lock

A lock owns a state: while nobody holds it, the state satisfies `inv`. A program that takes the
lock has the state to itself, and gives it back in order. Without the lock it makes only calls
that leave the state alone.
-/

namespace Interleaved

/-- What a call does to the lock. -/
inductive LockUse
  | acquire | release | keep
deriving DecidableEq, Repr

namespace Prog

variable {C : Type} {R : C → Type} {α β S : Type}
variable (exec : Exec C R S) (use : C → LockUse) (inv : S → Prop) (safe : C → S → Prop)

/-- The program keeps to the lock, and makes no call that is not `safe`. It holds the lock in the
state `some s`; `final` holds at the end. -/
def Monitors (final : α → Option S → Prop) : Option S → Prog C R α → Prop
  | held, .pure a => final a held
  | held, .call c k =>
    match use c, held with
    | .acquire, none => ∀ s, inv s → ∀ r, Monitors final (some s) (k r)
    | .release, some s => inv s ∧ ∀ r, Monitors final none (k r)
    | .keep, some s => safe c s ∧ ∀ r s', exec c s = some (r, s') → Monitors final (some s') (k r)
    | .keep, none => (∀ s, safe c s) ∧ (∀ s r s', exec c s = some (r, s') → s' = s) ∧
        ∀ s r s', exec c s = some (r, s') → Monitors final none (k r)
    | _, _ => False

variable {exec use inv safe} {final : α → Option S → Prop} {held : Option S} {s : S}

@[simp] lemma monitors_pure {a : α} :
    Monitors exec use inv safe final held (.pure a : Prog C R α) ↔ final a held := Iff.rfl

lemma monitors_acquire {c : C} {k : R c → Prog C R α} (hc : use c = .acquire) :
    Monitors exec use inv safe final none (.call c k) ↔
      ∀ s, inv s → ∀ r, Monitors exec use inv safe final (some s) (k r) := by
  simp only [Monitors, hc]

lemma monitors_release {c : C} {k : R c → Prog C R α} (hc : use c = .release) :
    Monitors exec use inv safe final (some s) (.call c k) ↔
      inv s ∧ ∀ r, Monitors exec use inv safe final none (k r) := by
  simp only [Monitors, hc]

lemma monitors_held {c : C} {k : R c → Prog C R α} (hc : use c = .keep) :
    Monitors exec use inv safe final (some s) (.call c k) ↔
      safe c s ∧ ∀ r s', exec c s = some (r, s') →
        Monitors exec use inv safe final (some s') (k r) := by
  simp only [Monitors, hc]

lemma monitors_free {c : C} {k : R c → Prog C R α} (hc : use c = .keep) :
    Monitors exec use inv safe final none (.call c k) ↔
      (∀ s, safe c s) ∧ (∀ s r s', exec c s = some (r, s') → s' = s) ∧
        ∀ s r s', exec c s = some (r, s') → Monitors exec use inv safe final none (k r) := by
  simp only [Monitors, hc]

lemma monitors_answer {c : C} {k : R c → Prog C R α} (r : R c) {s' : S} (hc : use c = .keep)
    (hsafe : safe c s) (hexec : exec c s = some (r, s'))
    (h : Monitors exec use inv safe final (some s') (k r)) :
    Monitors exec use inv safe final (some s) (.call c k) := by
  refine (monitors_held hc).mpr ⟨hsafe, fun r' s'' hexec' => ?_⟩
  rw [hexec] at hexec'
  cases hexec'
  exact h

/-- A call without the lock that is always safe, and leaves the state alone. -/
lemma monitors_outside {c : C} {k : R c → Prog C R α} (hc : use c = .keep)
    (hsafe : ∀ s, safe c s) (hexec : ∀ s r s', exec c s = some (r, s') → s' = s)
    (h : ∀ r, Monitors exec use inv safe final none (k r)) :
    Monitors exec use inv safe final none (.call c k) :=
  (monitors_free hc).mpr ⟨hsafe, hexec, fun _ r _ _ => h r⟩

lemma Monitors.next_safe {c : C} {k : R c → Prog C R α} (hc : use c = .keep) {held : Option S} {s : S}
    (h : Monitors exec use inv safe final held (.call c k)) (hheld : ∀ s' ∈ held, s' = s) :
    safe c s := by
  cases held with
  | none => exact ((monitors_free hc).mp h).1 s
  | some s' =>
    obtain rfl := hheld s' rfl
    exact ((monitors_held hc).mp h).1

end Prog

end Interleaved
