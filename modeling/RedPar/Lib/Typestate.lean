import RedPar.Lib.Program

/-!
# Typestates

A typestate discipline allows some calls in each of its states and says which state comes next.
A program obeys it when all its runs do, whatever the environment answers within `answer`.
-/

namespace Interleaved.Prog

variable {C : Type} {R : C → Type} {α β Q : Type}
variable (answer : (c : C) → R c → Prop) (next : Q → C → Option Q)

/-- Every call is allowed, and `final` holds of the value and the state at the end. -/
def Obeys (final : α → Q → Prop) : Q → Prog C R α → Prop
  | q, .pure a => final a q
  | q, .call c k => ∃ q', next q c = some q' ∧ ∀ r, answer c r → Obeys final q' (k r)

variable {answer next}

@[simp] lemma obeys_pure {final : α → Q → Prop} {q : Q} {a : α} :
    Obeys answer next final q (.pure a : Prog C R α) ↔ final a q := Iff.rfl

lemma obeys_call {final : α → Q → Prop} {q : Q} {c : C} {k : R c → Prog C R α} :
    Obeys answer next final q (.call c k) ↔
      ∃ q', next q c = some q' ∧ ∀ r, answer c r → Obeys answer next final q' (k r) := Iff.rfl

@[simp] lemma obeys_lift {c : C} {final : R c → Q → Prop} {q : Q} :
    Obeys answer next final q (lift c) ↔
      ∃ q', next q c = some q' ∧ ∀ r, answer c r → final r q' := Iff.rfl

lemma Obeys.mono {final final' : α → Q → Prop} {q : Q} {p : Prog C R α}
    (h : Obeys answer next final q p) (hfinal : ∀ a q', final a q' → final' a q') :
    Obeys answer next final' q p := by
  induction p generalizing q with
  | pure a => exact hfinal a q h
  | call c k ih =>
    obtain ⟨q', hnext, hrest⟩ := h
    exact ⟨q', hnext, fun r hr => ih r (hrest r hr)⟩

lemma obeys_bind {final : β → Q → Prop} {q : Q} {p : Prog C R α} {f : α → Prog C R β} :
    Obeys answer next final q (p >>= f) ↔
      Obeys answer next (fun a q' => Obeys answer next final q' (f a)) q p := by
  induction p generalizing q with
  | pure a => exact Iff.rfl
  | call c k ih =>
    rw [call_bind_eq, obeys_call, obeys_call]
    refine exists_congr fun q' => and_congr_right fun _ => ?_
    exact forall_congr' fun r => forall_congr' fun _ => ih r

lemma Obeys.simulate {Q' : Type} {next' : Q' → C → Option Q'} {final : α → Q → Prop}
    {final' : α → Q' → Prop} {q : Q} {q' : Q'} {p : Prog C R α}
    (h : Obeys answer next final q p) (rel : Q → Q' → Prop) (hrel : rel q q')
    (hnext : ∀ q q' c q₁, rel q q' → next q c = some q₁ → ∃ q₁', next' q' c = some q₁' ∧ rel q₁ q₁')
    (hfinal : ∀ a q q', rel q q' → final a q → final' a q') :
    Obeys answer next' final' q' p := by
  induction p generalizing q q' with
  | pure a => exact hfinal a q q' hrel h
  | call c k ih =>
    obtain ⟨q₁, hq₁, hrest⟩ := h
    obtain ⟨q₁', hq₁', hrel'⟩ := hnext q q' c q₁ hrel hq₁
    exact ⟨q₁', hq₁', fun r hr => ih r (hrest r hr) hrel'⟩

lemma Obeys.of_call {final : α → Q → Prop} {q q' : Q} {c : C} {k : R c → Prog C R α} {r : R c}
    (h : Obeys answer next final q (.call c k)) (hnext : next q c = some q') (hr : answer c r) :
    Obeys answer next final q' (k r) := by
  obtain ⟨q₁, hq₁, hrest⟩ := h
  cases hnext.symm.trans hq₁
  exact hrest r hr

lemma Obeys.of_run {S : Type} {exec : Exec C R S} {final : α → Q → Prop} {q : Q} {p : Prog C R α}
    (h : Obeys answer next final q p)
    (hexec : ∀ c s r s', exec c s = some (r, s') → answer c r) {s s' : S} {a : α} {trace : List C}
    (hrun : run exec p s = some (a, s', trace)) : ∀ c ∈ trace, ∃ q' q'', next q' c = some q'' := by
  induction p generalizing q s trace with
  | pure a =>
    cases hrun
    exact fun _ hc => absurd hc List.not_mem_nil
  | call c k ih =>
    obtain ⟨q', hnext, hrest⟩ := h
    cases hcall : exec c s with
    | none =>
      rw [run_call_none exec hcall] at hrun
      cases hrun
    | some x =>
      rw [run_call exec hcall] at hrun
      obtain ⟨⟨a', s₁, trace'⟩, hrun', heq⟩ := Option.map_eq_some_iff.mp hrun
      cases heq
      intro c' hc'
      rcases List.mem_cons.mp hc' with rfl | hmem
      · exact ⟨q, q', hnext⟩
      · exact ih x.1 (hrest x.1 (hexec c s x.1 x.2 hcall)) hrun' c' hmem

/-- At each point of a run the calls made so far were allowed, and the rest of the program obeys. -/
lemma Obeys.point {S : Type} {exec : Exec C R S} {final : α → Q → Prop} {q : Q} {p : Prog C R α}
    (h : Obeys answer next final q p)
    (hexec : ∀ c s r s', exec c s = some (r, s') → answer c r) {count : Nat} {s s' : S}
    {rest : Prog C R α} {calls : List C} (hpoint : point exec count p s = some (rest, s', calls)) :
    ∃ q', calls.foldlM next q = some q' ∧ Obeys answer next final q' rest := by
  induction count generalizing q p s calls with
  | zero =>
    cases hpoint
    exact ⟨q, rfl, h⟩
  | succ count ih =>
    cases p with
    | pure a => cases hpoint
    | call c k =>
      obtain ⟨q₁, hnext, hrest⟩ := h
      obtain ⟨⟨r, s₁⟩, hcall, hpoint⟩ := Option.bind_eq_some_iff.mp hpoint
      obtain ⟨⟨p', s₂, calls'⟩, hpoint', heq⟩ := Option.bind_eq_some_iff.mp hpoint
      cases heq
      obtain ⟨q', hcalls, hobeys⟩ := ih (hrest r (hexec c s r s₁ hcall)) hpoint'
      refine ⟨q', ?_, hobeys⟩
      rw [List.foldlM_cons, hnext]
      exact hcalls

/-- The calls of a run lead to a state where `final` holds. -/
lemma Obeys.trace {S : Type} {exec : Exec C R S} {final : α → Q → Prop} {q : Q} {p : Prog C R α}
    (h : Obeys answer next final q p)
    (hexec : ∀ c s r s', exec c s = some (r, s') → answer c r) {s s' : S} {a : α} {trace : List C}
    (hrun : run exec p s = some (a, s', trace)) :
    ∃ q', trace.foldlM next q = some q' ∧ final a q' := by
  obtain ⟨q', htrace, hend⟩ := h.point hexec (point_of_run hrun)
  exact ⟨q', htrace, hend⟩

end Interleaved.Prog
