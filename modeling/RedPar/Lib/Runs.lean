import Mathlib.Tactic.Lemma

/-!
# Runs of a step function

A system is a partial function `step` from a state and a label to the next state. `Runs` are
its finite runs in which every step satisfies a condition `ok` on the state before it and on
its label; with the condition `anyStep` they are all runs.
-/

namespace Interleaved

variable {σ ℓ : Type} (step : σ → ℓ → Option σ)

/-- The runs from one state to another all of whose steps meet `ok`. -/
inductive Runs (ok : σ → ℓ → Prop) : σ → List ℓ → σ → Prop
  | nil (s : σ) : Runs ok s [] s
  | cons {s s' s'' : σ} {l : ℓ} {ls : List ℓ} (hok : ok s l) (hstep : step s l = some s')
      (hrest : Runs ok s' ls s'') : Runs ok s (l :: ls) s''

/-- No condition on the steps. -/
def anyStep (_ : σ) (_ : ℓ) : Prop := True

/-- A condition on the label alone. -/
def labelled (p : ℓ → Prop) (_ : σ) (l : ℓ) : Prop := p l

/-- The state after a sequence of labels, if each of its steps can be taken. -/
def follow (s : σ) : List ℓ → Option σ
  | [] => some s
  | l :: ls => (step s l).bind fun s' => follow s' ls

namespace Runs

variable {step} {ok : σ → ℓ → Prop}

theorem invariant {I : σ → Prop} (hI : ∀ s l s', I s → ok s l → step s l = some s' → I s')
    {s s' : σ} {ls : List ℓ} (hrun : Runs step ok s ls s') (h : I s) : I s' := by
  induction hrun with
  | nil => exact h
  | cons hok hstep _ ih => exact ih (hI _ _ _ h hok hstep)

theorem single {s s' : σ} {l : ℓ} (hok : ok s l) (hstep : step s l = some s') :
    Runs step ok s [l] s' := .cons hok hstep (.nil s')

theorem append {s s' s'' : σ} {ls ls' : List ℓ} (hrun : Runs step ok s ls s')
    (hrun' : Runs step ok s' ls' s'') : Runs step ok s (ls ++ ls') s'' := by
  induction hrun with
  | nil => exact hrun'
  | cons hok hstep _ ih => exact .cons hok hstep (ih hrun')

theorem mono {ok' : σ → ℓ → Prop} (h : ∀ s l, ok s l → ok' s l) {s s' : σ} {ls : List ℓ}
    (hrun : Runs step ok s ls s') : Runs step ok' s ls s' := by
  induction hrun with
  | nil => exact .nil _
  | cons hok hstep _ ih => exact .cons (h _ _ hok) hstep ih

theorem of_follow {s s' : σ} {ls : List ℓ} (h : follow step s ls = some s') :
    Runs step anyStep s ls s' := by
  induction ls generalizing s with
  | nil =>
    cases h
    exact .nil _
  | cons l ls ih =>
    rw [follow] at h
    obtain ⟨s₁, hstep, hrest⟩ := Option.bind_eq_some_iff.mp h
    exact .cons trivial hstep (ih hrest)

theorem labelled_of {p : ℓ → Prop} {s s' : σ} {ls : List ℓ} (hrun : Runs step anyStep s ls s')
    (h : ∀ l ∈ ls, p l) : Runs step (labelled p) s ls s' := by
  induction hrun with
  | nil => exact .nil _
  | cons _ hstep _ ih =>
    obtain ⟨hl, hls⟩ := List.forall_mem_cons.mp h
    exact .cons hl hstep (ih hls)

/-- A test of the state that labels lead to. -/
theorem exists_of_follow {s : σ} {ls : List ℓ} (p : σ → Bool)
    (h : (follow step s ls).any p = true) : ∃ s', Runs step anyStep s ls s' ∧ p s' = true := by
  obtain ⟨s', hs', hp⟩ := (Option.any_eq_true p _).mp h
  exact ⟨s', of_follow hs', hp⟩

/-- The same, where every step is tested first. -/
theorem exists_of_guarded [∀ s l, Decidable (ok s l)] {s : σ} {ls : List ℓ} (p : σ → Bool)
    (h : (follow (fun s l => if ok s l then step s l else none) s ls).any p = true) :
    ∃ s', Runs step ok s ls s' ∧ p s' = true := by
  obtain ⟨s', hrun, hp⟩ := exists_of_follow p h
  refine ⟨s', ?_, hp⟩
  clear h hp
  induction hrun with
  | nil => exact .nil _
  | cons _ hstep _ ih =>
    obtain ⟨hok, hs⟩ := Option.ite_none_right_eq_some.mp hstep
    exact .cons hok hs ih

theorem unique {s s₁ s₂ : σ} {ls : List ℓ} {ok' : σ → ℓ → Prop} (hrun : Runs step ok s ls s₁)
    (hrun' : Runs step ok' s ls s₂) : s₁ = s₂ := by
  induction hrun with
  | nil =>
    cases hrun'
    rfl
  | cons _ hstep _ ih =>
    cases hrun' with
    | cons _ hstep' hrest' =>
      cases hstep.symm.trans hstep'
      exact ih hrest'

/-- A run goes through the states that its beginnings lead to. -/
theorem split {s s' : σ} {ls ls' : List ℓ} (hrun : Runs step ok s (ls ++ ls') s') :
    ∃ s₁, Runs step ok s ls s₁ ∧ Runs step ok s₁ ls' s' := by
  induction ls generalizing s with
  | nil => exact ⟨s, .nil s, hrun⟩
  | cons l ls ih =>
    cases hrun with
    | cons hok hstep hrest =>
      obtain ⟨s₁, hrun₁, hrun₂⟩ := ih hrest
      exact ⟨s₁, .cons hok hstep hrun₁, hrun₂⟩

/-- A property holds in all states that a run goes through. -/
def Always (step : σ → ℓ → Option σ) (P : σ → Prop) (s : σ) (ls : List ℓ) : Prop :=
  ∀ ls' s', ls' <+: ls → Runs step anyStep s ls' s' → P s'

/-- A property holds throughout exactly the runs whose steps meet `ok`, if such runs keep it and
any other step of a run breaks it. -/
theorem always_iff {P : σ → Prop} {s s' : σ} {ls : List ℓ}
    (hkeep : ∀ ls s', Runs step ok s ls s' → P s')
    (hbreak : ∀ ls s₁ l s₂, Runs step anyStep s ls s₁ → step s₁ l = some s₂ → ¬ok s₁ l → ¬P s₂)
    (hrun : Runs step anyStep s ls s') : Always step P s ls ↔ Runs step ok s ls s' := by
  constructor
  · intro halways
    clear hkeep
    induction hrun with
    | nil => exact .nil _
    | cons _ hstep _ ih =>
      refine .cons ?_ hstep (ih (fun ls s₁ l s₂ hrun' => ?_) fun ls' s' hprefix hrun' => ?_)
      · refine Classical.byContradiction fun hnot => ?_
        exact hbreak [] _ _ _ (.nil _) hstep hnot (halways [_] _ (by simp) (.single trivial hstep))
      · exact hbreak (_ :: ls) s₁ l s₂ (.cons trivial hstep hrun')
      · exact halways _ s' (List.cons_prefix_cons.mpr ⟨rfl, hprefix⟩) (.cons trivial hstep hrun')
  · rintro hok ls' s₁ ⟨rest, rfl⟩ hrun₁
    obtain ⟨s₂, hrun₂, _⟩ := hok.split
    rw [hrun₁.unique hrun₂]
    exact hkeep ls' s₂ hrun₂

/-- A simulation: the steps of one system are runs of another. -/
theorem simulate {τ ℓ' : Type} {step' : τ → ℓ' → Option τ} {R : σ → τ → Prop}
    (expand : ℓ → List ℓ')
    (hsim : ∀ s t l s', R s t → step s l = some s' →
      ∃ t', Runs step' anyStep t (expand l) t' ∧ R s' t') {s s' : σ} {ls : List ℓ}
    (hrun : Runs step ok s ls s') {t : τ} (h : R s t) :
    ∃ t', Runs step' anyStep t (ls.flatMap expand) t' ∧ R s' t' := by
  induction hrun generalizing t with
  | nil => exact ⟨t, .nil t, h⟩
  | cons _ hstep _ ih =>
    obtain ⟨t₁, hrun₁, h₁⟩ := hsim _ t _ _ h hstep
    obtain ⟨t₂, hrun₂, h₂⟩ := ih h₁
    exact ⟨t₂, hrun₁.append hrun₂, h₂⟩

end Runs

section Notes

variable {γ : Type} (upd : σ → ℓ → γ → γ)

/-- The system with notes that its steps update. The notes decide nothing. -/
def withNotes (x : σ × γ) (l : ℓ) : Option (σ × γ) := (step x.1 l).map fun s' => (s', upd x.1 l x.2)

variable {step upd} {ok : σ → ℓ → Prop}

theorem withNotes_eq_some {x x' : σ × γ} {l : ℓ} :
    withNotes step upd x l = some x' ↔ step x.1 l = some x'.1 ∧ x'.2 = upd x.1 l x.2 := by
  unfold withNotes
  rw [Option.map_eq_some_iff]
  constructor
  · rintro ⟨s', hs', rfl⟩
    exact ⟨hs', rfl⟩
  · rintro ⟨hs', hnotes⟩
    exact ⟨x'.1, hs', Prod.ext rfl hnotes.symm⟩

theorem Runs.of_notes (ok : σ → ℓ → Prop) {x x' : σ × γ} {ls : List ℓ}
    (hrun : Runs (withNotes step upd) (fun x l => ok x.1 l) x ls x') :
    Runs step ok x.1 ls x'.1 := by
  induction hrun with
  | nil => exact .nil _
  | cons hok hstep _ ih => exact .cons hok (withNotes_eq_some.mp hstep).1 ih

end Notes

end Interleaved
