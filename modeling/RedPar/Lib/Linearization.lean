import Mathlib.Data.List.Basic
import Mathlib.Data.List.Nodup

/-!
# Linearizations

A history of calls and returns is linearized by an order of operations with their results: a run
of a sequential specification in which every result that was returned occurs, and which keeps the
order of operations that do not overlap. The lemmas extend a linearization by one step: a new
operation is called, an operation takes effect, or its result is returned.
-/

namespace Interleaved

/-- What can be seen of an operation; a return names it by its key. -/
inductive Action (Op ι ρ : Type)
  | call (op : Op)
  | ret (i : ι) (r : ρ)

variable {Op ι ρ σ : Type} (key : Op → ι) (spec : Op → σ → ρ × σ)

/-- Operations and results of a sequential run from one state to another. -/
def Legal : σ → List (Op × ρ) → σ → Prop
  | s, [], s' => s' = s
  | s, (op, r) :: order, s' => (spec op s).1 = r ∧ Legal (spec op s).2 order s'

variable {key spec}

lemma Legal.concat {s s' : σ} {order : List (Op × ρ)} (h : Legal spec s order s') (op : Op) :
    Legal spec s (order ++ [(op, (spec op s').1)]) (spec op s').2 := by
  induction order generalizing s with
  | nil =>
    cases h
    exact ⟨rfl, rfl⟩
  | cons x order ih => exact ⟨h.1, ih h.2⟩

lemma Legal.append {s s' : σ} {order order' : List (Op × ρ)}
    (h : Legal spec s (order ++ order') s') :
    ∃ s₁, Legal spec s order s₁ ∧ Legal spec s₁ order' s' := by
  induction order generalizing s with
  | nil => exact ⟨s, rfl, h⟩
  | cons x order ih =>
    obtain ⟨s₁, hlegal, hrest⟩ := ih h.2
    exact ⟨s₁, ⟨h.1, hlegal⟩, hrest⟩

variable (key spec)

structure Linearizes (init : σ) (history : List (Action Op ι ρ)) (final : σ)
    (order : List (Op × ρ)) : Prop where
  legal : Legal spec init order final
  nodup : (order.map fun x => key x.1).Nodup
  called : ∀ x ∈ order, .call x.1 ∈ history
  returned : ∀ i r, .ret i r ∈ history → ∃ op, key op = i ∧ (op, r) ∈ order
  realTime : ∀ i r op, [.ret i r, .call op].Sublist history → op ∈ order.map Prod.fst →
    [i, key op].Sublist (order.map fun x => key x.1)

variable {key spec}

lemma pair_sublist_of_concat {α : Type} {a b x : α} {l : List α}
    (h : [a, b].Sublist (l ++ [x])) (hne : b ≠ x) : [a, b].Sublist l := by
  rw [← List.reverse_sublist] at h ⊢
  rw [List.reverse_concat] at h
  cases h with
  | cons _ h => exact h
  | cons_cons => exact absurd rfl hne

namespace Linearizes

variable {init final : σ} {history : List (Action Op ι ρ)} {order : List (Op × ρ)}

lemma nil (s : σ) : Linearizes key spec s [] s [] where
  legal := rfl
  nodup := List.nodup_nil
  called _ h := absurd h List.not_mem_nil
  returned _ _ h := absurd h List.not_mem_nil
  realTime _ _ _ _ h := absurd h List.not_mem_nil

lemma call (h : Linearizes key spec init history final order) {op : Op}
    (hnew : op ∉ order.map Prod.fst) :
    Linearizes key spec init (history ++ [.call op]) final order where
  legal := h.legal
  nodup := h.nodup
  called x hx := List.mem_append_left _ (h.called x hx)
  returned i r hr := by
    rcases List.mem_append.mp hr with hold | hlast
    · exact h.returned i r hold
    · cases List.mem_singleton.mp hlast
  realTime i r op' hsub hop := by
    have hne : Action.call op' ≠ (.call op : Action Op ι ρ) := by
      rintro ⟨⟩
      exact hnew hop
    exact h.realTime i r op' (pair_sublist_of_concat hsub hne) hop

lemma effect (h : Linearizes key spec init history final order) {op : Op}
    (hcall : .call op ∈ history) (hnew : key op ∉ order.map fun x => key x.1) :
    Linearizes key spec init history (spec op final).2 (order ++ [(op, (spec op final).1)]) where
  legal := h.legal.concat op
  nodup := by
    rw [List.map_append]
    refine List.nodup_append.mpr ⟨h.nodup, List.nodup_singleton _, ?_⟩
    intro i hi j hj hij
    rw [hij, List.mem_singleton.mp hj] at hi
    exact hnew hi
  called x hx := by
    rcases List.mem_append.mp hx with hold | hlast
    · exact h.called x hold
    · rw [List.mem_singleton.mp hlast]
      exact hcall
  returned i r hr := by
    obtain ⟨op', hkey, hmem⟩ := h.returned i r hr
    exact ⟨op', hkey, List.mem_append_left _ hmem⟩
  realTime i r op' hsub hop := by
    rw [List.map_append] at hop ⊢
    rcases List.mem_append.mp hop with hold | hlast
    · exact (h.realTime i r op' hsub hold).trans (List.sublist_append_left _ _)
    · rw [List.mem_singleton.mp hlast] at hsub ⊢
      -- what has returned before the call has taken effect before
      obtain ⟨op₁, rfl, hmem⟩ := h.returned i r (hsub.subset List.mem_cons_self)
      have hfirst : [key op₁].Sublist (order.map fun x => key x.1) :=
        List.singleton_sublist.mpr (List.mem_map_of_mem hmem)
      exact hfirst.append (List.Sublist.refl [key op])

lemma ret (h : Linearizes key spec init history final order) {op : Op} {r : ρ}
    (hmem : (op, r) ∈ order) :
    Linearizes key spec init (history ++ [.ret (key op) r]) final order where
  legal := h.legal
  nodup := h.nodup
  called x hx := List.mem_append_left _ (h.called x hx)
  returned i r' hr := by
    rcases List.mem_append.mp hr with hold | hlast
    · exact h.returned i r' hold
    · cases List.mem_singleton.mp hlast
      exact ⟨op, rfl, hmem⟩
  realTime i r' op' hsub hop := h.realTime i r' op' (pair_sublist_of_concat hsub nofun) hop

end Linearizes

/-- How far an operation is: before its effect, before its return, or done. -/
inductive Status (ρ : Type)
  | todo
  | done (r : ρ)
  | replied

/-- What one step of an operation with the effect `f` can do: nothing, take effect, return its
result, or both. -/
inductive Status.Step (f : σ → ρ × σ) : Status ρ → σ → Option ρ → Status ρ → σ → Prop
  | stay (q : Status ρ) (s : σ) : Step f q s none q s
  | effect (s : σ) : Step f .todo s none (.done (f s).1) (f s).2
  | ret (r : ρ) (s : σ) : Step f (.done r) s (some r) .replied s
  | effectRet (s : σ) : Step f .todo s (some (f s).1) .replied (f s).2

lemma Status.Step.effect_of {f : σ → ρ × σ} {s s' : σ} {r : ρ} (h : f s = (r, s')) :
    Status.Step f .todo s none (.done r) s' := by
  have hstep := Status.Step.effect (f := f) s
  rwa [h] at hstep

lemma Status.Step.effectRet_of {f : σ → ρ × σ} {s s' : σ} {r : ρ} (h : f s = (r, s')) :
    Status.Step f .todo s (some r) .replied s' := by
  have hstep := Status.Step.effectRet (f := f) s
  rwa [h] at hstep

/-- What the order and the returned results show of the operation with key `i`. -/
def Status.Shows (key : Op → ι) (order : List (Op × ρ)) (returned : List ρ) (i : ι) :
    Status ρ → Prop
  | .todo => i ∉ order.map (fun x => key x.1) ∧ returned = []
  | .done r => (∃ op, key op = i ∧ (op, r) ∈ order) ∧ returned = []
  | .replied => ∃ op r, key op = i ∧ (op, r) ∈ order ∧ returned = [r]

lemma Status.Shows.concat {order : List (Op × ρ)} {returned : List ρ} {i : ι} {q : Status ρ}
    (h : q.Shows key order returned i) {x : Op × ρ} (hne : i ≠ key x.1) :
    q.Shows key (order ++ [x]) returned i := by
  cases q with
  | todo => exact ⟨by simpa [hne] using h.1, h.2⟩
  | done r =>
    obtain ⟨⟨op, hkey, hmem⟩, hret⟩ := h
    exact ⟨⟨op, hkey, List.mem_append_left _ hmem⟩, hret⟩
  | replied =>
    obtain ⟨op, r, hkey, hmem, hret⟩ := h
    exact ⟨op, r, hkey, List.mem_append_left _ hmem, hret⟩

theorem Linearizes.step {init s s' : σ} {history : List (Action Op ι ρ)} {order : List (Op × ρ)}
    (h : Linearizes key spec init history s order) {op : Op} (hcall : .call op ∈ history)
    {returned : List ρ} {q q' : Status ρ} (hq : q.Shows key order returned (key op))
    {r : Option ρ} (hstep : Status.Step (spec op) q s r q' s') :
    ∃ order', Linearizes key spec init (history ++ r.toList.map (.ret (key op))) s' order' ∧
      q'.Shows key order' (returned ++ r.toList) (key op) ∧
      ∀ i q₁ returned₁, i ≠ key op → Status.Shows key order returned₁ i q₁ →
        q₁.Shows key order' returned₁ i := by
  cases hstep with
  | stay =>
    refine ⟨order, ?_, ?_, fun _ _ _ _ h => h⟩
    · simpa using h
    · simpa using hq
  | effect =>
    refine ⟨order ++ [(op, (spec op s).1)], ?_, ?_, fun _ _ _ hne h => h.concat hne⟩
    · simpa using h.effect hcall hq.1
    · exact ⟨⟨op, rfl, by simp⟩, by simp [hq.2]⟩
  | ret r =>
    obtain ⟨⟨op', hkey, hmem⟩, hret⟩ := hq
    refine ⟨order, ?_, ⟨op', r, hkey, hmem, by simp [hret]⟩, fun _ _ _ _ h => h⟩
    rw [← hkey]
    exact h.ret hmem
  | effectRet =>
    refine ⟨order ++ [(op, (spec op s).1)], ?_, ?_, fun _ _ _ hne h => h.concat hne⟩
    · exact (h.effect hcall hq.1).ret (by simp)
    · exact ⟨op, (spec op s).1, rfl, by simp, by simp [hq.2]⟩

end Interleaved
