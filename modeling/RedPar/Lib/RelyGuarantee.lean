import RedPar.Lib.Program

/-!
# Rely and guarantee

Threads run programs over one shared state. A `Protocol` gives each thread a relation `rely`
that its knowledge survives and a relation `move` that its calls stay in; a world is a state
together with ghost values, which the proof of a program chooses anew at each call. `Secures`
says of a program that each of its calls has an answer, keeps the invariant and is a move.
`Protocol.step` carries this over to threads that run side by side.
-/

namespace Interleaved

/-- What the calls of threads `T` may rely on and must guarantee. -/
structure Protocol (T C : Type) (R : C → Type) (S W : Type) where
  exec : Exec C R S
  state : W → S
  inv : W → Prop
  rely : T → W → W → Prop
  move : T → C → W → W → Prop
  rely_refl : ∀ t w, rely t w w
  rely_trans : ∀ t w₁ w₂ w₃, rely t w₁ w₂ → rely t w₂ w₃ → rely t w₁ w₃
  rely_of_move : ∀ t u c w w', move t c w w' → u ≠ t → rely u w w'

namespace Protocol

variable {T C : Type} {R : C → Type} {S W α β : Type} (P : Protocol T C R S W) (t : T)

/-- Every call of the program has an answer and is a move, and `final` holds at the end, whatever
the other threads do in between. -/
def Secures (final : α → W → Prop) : Prog C R α → W → Prop
  | .pure a, w => final a w
  | .call c k, w => ∀ w₁, P.inv w₁ → P.rely t w w₁ →
      ∃ r w₂, P.exec c (P.state w₁) = some (r, P.state w₂) ∧ P.inv w₂ ∧ P.move t c w₁ w₂ ∧
        Secures final (k r) w₂

variable {P t} {final : α → W → Prop} {w : W}

@[simp] lemma secures_pure {a : α} : P.Secures t final (.pure a) w ↔ final a w := Iff.rfl

lemma Secures.mono {final' : α → W → Prop} {p : Prog C R α} (h : P.Secures t final p w)
    (hfinal : ∀ a w', final a w' → final' a w') : P.Secures t final' p w := by
  induction p generalizing w with
  | pure a => exact hfinal a w h
  | call c k ih =>
    intro w₁ hinv hrely
    obtain ⟨r, w₂, hexec, hinv₂, hmove, hrest⟩ := h w₁ hinv hrely
    exact ⟨r, w₂, hexec, hinv₂, hmove, ih r hrest⟩

lemma Secures.bind {final : β → W → Prop} {p : Prog C R α} {f : α → Prog C R β}
    (h : P.Secures t (fun a w' => P.Secures t final (f a) w') p w) :
    P.Secures t final (p >>= f) w := by
  induction p generalizing w with
  | pure a => exact h
  | call c k ih =>
    intro w₁ hinv hrely
    obtain ⟨r, w₂, hexec, hinv₂, hmove, hrest⟩ := h w₁ hinv hrely
    exact ⟨r, w₂, hexec, hinv₂, hmove, ih r hrest⟩

/-- A program stays secure when other threads move, if its final condition does. -/
lemma Secures.stable {p : Prog C R α} {w' : W} (h : P.Secures t final p w) (hrely : P.rely t w w')
    (hfinal : ∀ a, final a w → final a w') : P.Secures t final p w' := by
  cases p with
  | pure a => exact hfinal a h
  | call c k =>
    intro w₁ hinv hrely₁
    exact h w₁ hinv (P.rely_trans t w w' w₁ hrely hrely₁)

theorem step [DecidableEq T] {final : T → α → W → Prop} {threads : T → Prog C R α}
    (hinv : P.inv w) (h : ∀ u, P.Secures u (final u) (threads u) w)
    (hstable : ∀ u a w w', P.rely u w w' → final u a w → final u a w') {c : C}
    {k : R c → Prog C R α} (ht : threads t = .call c k) :
    ∃ r w', P.exec c (P.state w) = some (r, P.state w') ∧ P.inv w' ∧ P.move t c w w' ∧
      ∀ u, P.Secures u (final u) (Function.update threads t (k r) u) w' := by
  have hthread := h t
  rw [ht] at hthread
  obtain ⟨r, w', hexec, hinv', hmove, hrest⟩ := hthread w hinv (P.rely_refl t w)
  refine ⟨r, w', hexec, hinv', hmove, fun u => ?_⟩
  by_cases hu : u = t
  · subst hu
    rw [Function.update_self]
    exact hrest
  · rw [Function.update_of_ne hu]
    have hrely := P.rely_of_move t u c w w' hmove hu
    exact (h u).stable hrely fun a => hstable u a w w' hrely

end Protocol

end Interleaved
