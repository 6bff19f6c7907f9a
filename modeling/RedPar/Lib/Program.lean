import Mathlib.Logic.Function.Basic
import Mathlib.Data.List.Basic

/-!
# Programs over calls

A `Prog C R α` is a computation that talks to its environment through calls `c : C`, each
answered by a value of type `R c`. The environment is an `Exec`: a partial function that
answers a call and changes a state, where `none` stands for a call that cannot be made in
that state. The trace of a run lists the calls in the order in which they were made.
-/

namespace Interleaved

/-- A computation that ends with `a`, or makes the call `c` and goes on with its answer. -/
inductive Prog (C : Type) (R : C → Type) (α : Type) where
  | pure (a : α)
  | call (c : C) (k : R c → Prog C R α)

/-- An environment: what each call answers and how it changes the state. -/
abbrev Exec (C : Type) (R : C → Type) (S : Type) := (c : C) → S → Option (R c × S)

namespace Prog

variable {C : Type} {R : C → Type} {α β γ S : Type}

def bind : Prog C R α → (α → Prog C R β) → Prog C R β
  | .pure a, f => f a
  | .call c k, f => .call c fun r => (k r).bind f

instance : Monad (Prog C R) where
  pure := .pure
  bind := bind

def lift (c : C) : Prog C R (R c) := .call c .pure

@[simp] lemma pure_eq (a : α) : (Pure.pure a : Prog C R α) = .pure a := rfl

@[simp] lemma pure_bind_eq (a : α) (f : α → Prog C R β) : (Prog.pure a >>= f) = f a := rfl

@[simp] lemma call_bind_eq (c : C) (k : R c → Prog C R α) (f : α → Prog C R β) :
    (Prog.call c k >>= f) = .call c fun r => k r >>= f := rfl

@[simp] lemma lift_bind_eq (c : C) (f : R c → Prog C R β) : (lift c >>= f) = .call c f := rfl

lemma bind_bind_eq (p : Prog C R α) (f : α → Prog C R β) (g : β → Prog C R γ) :
    (p >>= f >>= g) = p >>= fun a => f a >>= g := by
  induction p with
  | pure a => rfl
  | call c k ih =>
    simp only [call_bind_eq]
    exact congrArg (Prog.call c) (funext ih)

/-- Runs a program alone: its value, the final state and the calls it made. -/
def run (exec : Exec C R S) : Prog C R α → S → Option (α × S × List C)
  | .pure a, s => some (a, s, [])
  | .call c k, s => do
    let (r, s') ← exec c s
    let (a, s'', trace) ← run exec (k r) s'
    some (a, s'', c :: trace)

variable (exec : Exec C R S)

@[simp] lemma run_pure (a : α) (s : S) : run exec (.pure a : Prog C R α) s = some (a, s, []) := rfl

lemma run_call {c : C} {k : R c → Prog C R α} {s s' : S} {r : R c} (h : exec c s = some (r, s')) :
    run exec (.call c k) s = (run exec (k r) s').map fun x => (x.1, x.2.1, c :: x.2.2) := by
  simp only [run, h, Option.bind_eq_bind, Option.bind_some]
  cases run exec (k r) s' <;> rfl

lemma run_call_none {c : C} {k : R c → Prog C R α} {s : S} (h : exec c s = none) :
    run exec (.call c k) s = none := by
  simp only [run, h, Option.bind_eq_bind, Option.bind_none]

lemma run_bind (p : Prog C R α) (f : α → Prog C R β) (s : S) :
    run exec (p >>= f) s = (run exec p s).bind fun x =>
      (run exec (f x.1) x.2.1).map fun y => (y.1, y.2.1, x.2.2 ++ y.2.2) := by
  induction p generalizing s with
  | pure a =>
    simp only [pure_bind_eq, run_pure, Option.bind_some, List.nil_append]
    cases run exec (f a) s <;> rfl
  | call c k ih =>
    rw [call_bind_eq]
    cases h : exec c s with
    | none => rw [run_call_none exec h, run_call_none exec h, Option.bind_none]
    | some x =>
      rw [run_call exec h, run_call exec h, ih]
      cases run exec (k x.1) x.2 with
      | none => rfl
      | some y => cases hy : run exec (f y.1) y.2.1 <;> simp [hy]

/-- A run of which only some calls are observed. -/
def observe {O : Type} (obs : C → Option O) (p : Prog C R α) (s : S) : Option (α × S × List O) :=
  (run exec p s).map fun x => (x.1, x.2.1, x.2.2.filterMap obs)

@[simp] lemma observe_pure {O : Type} (obs : C → Option O) (a : α) (s : S) :
    observe exec obs (.pure a : Prog C R α) s = some (a, s, []) := rfl

lemma observe_call {O : Type} (obs : C → Option O) (c : C) (k : R c → Prog C R α) (s : S) :
    observe exec obs (.call c k) s = (exec c s).bind fun x =>
      (observe exec obs (k x.1) x.2).map fun y => (y.1, y.2.1, (obs c).toList ++ y.2.2) := by
  unfold observe
  cases h : exec c s with
  | none => rw [run_call_none exec h, Option.map_none, Option.bind_none]
  | some x =>
    rw [run_call exec h, Option.bind_some]
    cases run exec (k x.1) x.2 with
    | none => rfl
    | some y => cases ho : obs c <;> simp [ho]

/-! ### Weakest preconditions

`wp exec p Q s` says that `p` runs to its end from `s`, without a call that has no answer, and
that its value, the final state and its trace satisfy `Q`. -/

/-- The weakest precondition of a program for a postcondition on value, state and trace. -/
def wp : Prog C R α → (α → S → List C → Prop) → S → Prop
  | .pure a, Q, s => Q a s []
  | .call c k, Q, s =>
    ∃ r s', exec c s = some (r, s') ∧ wp (k r) (fun a s'' trace => Q a s'' (c :: trace)) s'

variable {exec}

lemma wp_iff_run {p : Prog C R α} {Q : α → S → List C → Prop} {s : S} :
    wp exec p Q s ↔ ∃ a s' trace, run exec p s = some (a, s', trace) ∧ Q a s' trace := by
  induction p generalizing Q s with
  | pure a => simp [wp]
  | call c k ih =>
    simp only [wp, ih]
    constructor
    · rintro ⟨r, s', hcall, a, s'', trace, hrun, hQ⟩
      exact ⟨a, s'', c :: trace, by rw [run_call exec hcall, hrun]; rfl, hQ⟩
    · rintro ⟨a, s'', trace, hrun, hQ⟩
      cases hcall : exec c s with
      | none => simp [run_call_none exec hcall] at hrun
      | some x =>
        rw [run_call exec hcall] at hrun
        obtain ⟨⟨a', s₁, trace'⟩, hrest, heq⟩ := Option.map_eq_some_iff.mp hrun
        cases heq
        exact ⟨x.1, x.2, rfl, a', s₁, trace', hrest, hQ⟩

@[simp] lemma wp_pure {a : α} {Q : α → S → List C → Prop} {s : S} :
    wp exec (.pure a : Prog C R α) Q s ↔ Q a s [] := Iff.rfl

lemma wp_call {c : C} {k : R c → Prog C R α} {Q : α → S → List C → Prop} {s : S} :
    wp exec (.call c k) Q s ↔
      ∃ r s', exec c s = some (r, s') ∧ wp exec (k r) (fun a s'' trace => Q a s'' (c :: trace)) s' :=
  Iff.rfl

@[simp] lemma wp_lift {c : C} {Q : R c → S → List C → Prop} {s : S} :
    wp exec (lift c) Q s ↔ ∃ r s', exec c s = some (r, s') ∧ Q r s' [c] := Iff.rfl

lemma wp_mono {p : Prog C R α} {Q Q' : α → S → List C → Prop} {s : S} (h : wp exec p Q s)
    (hQ : ∀ a s' trace, Q a s' trace → Q' a s' trace) : wp exec p Q' s := by
  obtain ⟨a, s', trace, hrun, hpost⟩ := wp_iff_run.mp h
  exact wp_iff_run.mpr ⟨a, s', trace, hrun, hQ a s' trace hpost⟩

lemma wp_bind {p : Prog C R α} {f : α → Prog C R β} {Q : β → S → List C → Prop} {s : S}
    (h : wp exec p (fun a s' trace =>
      wp exec (f a) (fun b s'' trace' => Q b s'' (trace ++ trace')) s') s) :
    wp exec (p >>= f) Q s := by
  induction p generalizing Q s with
  | pure a => exact h
  | call c k ih =>
    obtain ⟨r, s', hcall, hrest⟩ := h
    exact ⟨r, s', hcall, ih r hrest⟩

variable (exec) in
/-- The program, the state and the calls so far, once it has made a number of calls. -/
def point : Nat → Prog C R α → S → Option (Prog C R α × S × List C)
  | 0, p, s => some (p, s, [])
  | _ + 1, .pure _, _ => none
  | count + 1, .call c k, s => do
    let (r, s') ← exec c s
    let (p, s'', calls) ← point count (k r) s'
    some (p, s'', c :: calls)

lemma point_of_run {p : Prog C R α} {s s' : S} {a : α} {trace : List C}
    (hrun : run exec p s = some (a, s', trace)) :
    point exec trace.length p s = some (.pure a, s', trace) := by
  induction p generalizing s trace with
  | pure a =>
    cases hrun
    rfl
  | call c k ih =>
    obtain ⟨⟨r, s₁⟩, hcall, hrun⟩ := Option.bind_eq_some_iff.mp hrun
    obtain ⟨⟨a', s₂, trace'⟩, hrun', heq⟩ := Option.bind_eq_some_iff.mp hrun
    cases heq
    simp only [List.length_cons, point, hcall, ih r hrun', Option.bind_eq_bind, Option.bind_some]

variable (exec) in
/-- The program runs to its end, where `final` holds; `I` holds at each point, of the calls so far
and the state. -/
def Along (I : List C → S → Prop) (final : α → List C → S → Prop) : List C → Prog C R α → S → Prop
  | done, .pure a, s => I done s ∧ final a done s
  | done, .call c k, s =>
    I done s ∧ ∃ r s', exec c s = some (r, s') ∧ Along I final (done ++ [c]) (k r) s'

variable {I : List C → S → Prop} {final : α → List C → S → Prop} {done : List C} {s : S}

@[simp] lemma along_pure {a : α} :
    Along exec I final done (.pure a : Prog C R α) s ↔ I done s ∧ final a done s := Iff.rfl

lemma along_call {c : C} {k : R c → Prog C R α} (r : R c) {s' : S} (hI : I done s)
    (hexec : exec c s = some (r, s')) (h : Along exec I final (done ++ [c]) (k r) s') :
    Along exec I final done (.call c k) s := ⟨hI, r, s', hexec, h⟩

lemma along_bind {final : β → List C → S → Prop} {p : Prog C R α} {f : α → Prog C R β}
    (h : Along exec I (fun a done' s' => Along exec I final done' (f a) s') done p s) :
    Along exec I final done (p >>= f) s := by
  induction p generalizing done s with
  | pure a => exact h.2
  | call c k ih =>
    obtain ⟨hI, r, s', hexec, hrest⟩ := h
    exact ⟨hI, r, s', hexec, ih r hrest⟩

lemma Along.mono {final' : α → List C → S → Prop} {p : Prog C R α}
    (h : Along exec I final done p s)
    (hfinal : ∀ a done' s', final a done' s' → final' a done' s') :
    Along exec I final' done p s := by
  induction p generalizing done s with
  | pure a => exact ⟨h.1, hfinal _ _ _ h.2⟩
  | call c k ih =>
    obtain ⟨hI, r, s', hexec, hrest⟩ := h
    exact ⟨hI, r, s', hexec, ih r hrest⟩

lemma Along.weaken {I' : List C → S → Prop} {p : Prog C R α} (h : Along exec I final done p s)
    (hI : ∀ done' s', I done' s' → I' done' s') : Along exec I' final done p s := by
  induction p generalizing done s with
  | pure a => exact ⟨hI _ _ h.1, h.2⟩
  | call c k ih =>
    obtain ⟨hpoint, r, s', hexec, hrest⟩ := h
    exact ⟨hI _ _ hpoint, r, s', hexec, ih r hrest⟩

lemma Along.run {p : Prog C R α} (h : Along exec I final done p s) :
    ∃ a s' trace, run exec p s = some (a, s', trace) ∧ final a (done ++ trace) s' := by
  induction p generalizing done s with
  | pure a => exact ⟨a, s, [], rfl, by simpa using h.2⟩
  | call c k ih =>
    obtain ⟨_, r, s', hexec, hrest⟩ := h
    obtain ⟨a, s'', trace, hrun, hfinal⟩ := ih r hrest
    refine ⟨a, s'', c :: trace, ?_, by simpa using hfinal⟩
    rw [run_call exec hexec, hrun]
    rfl

lemma Along.point {p : Prog C R α} (h : Along exec I final done p s) {count : Nat}
    {rest : Prog C R α} {s' : S} {calls : List C}
    (hpoint : Prog.point exec count p s = some (rest, s', calls)) : I (done ++ calls) s' := by
  induction count generalizing done p s calls with
  | zero =>
    cases hpoint
    rw [List.append_nil]
    cases rest with
    | pure a => exact h.1
    | call c k => exact h.1
  | succ count ih =>
    cases p with
    | pure a => cases hpoint
    | call c k =>
      obtain ⟨_, r, s₁, hexec, hrest⟩ := h
      simp only [Prog.point, hexec, Option.bind_eq_bind, Option.bind_some] at hpoint
      obtain ⟨⟨p', s₂, calls'⟩, hpoint', heq⟩ := Option.bind_eq_some_iff.mp hpoint
      cases heq
      simpa using ih hrest hpoint'

end Prog

end Interleaved
