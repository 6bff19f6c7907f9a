import RedPar.Lib.Program

/-!
# Programs under interference

Between two calls of a program other programs may change the state, as far as `rely` lets them.
`Keeps` says that each call of the program makes a `move`, whatever happens in between, if every
call is made in a state that is `allowed`. The moves take a ghost value along, on which `rely`
may depend.
-/

namespace Interleaved.Prog

variable {C : Type} {R : C → Type} {α β S G : Type}
variable (exec : Exec C R S) (allowed : C → S → Prop) (rely : G → S → S → Prop)
  (move : G → C → S → S → G → Prop)

/-- All calls make moves, and `final` holds at the end. -/
def Keeps (final : α → G → S → Prop) : G → Prog C R α → S → Prop
  | g, .pure a, s => final a g s
  | g, .call c k, s => ∀ s₁, rely g s s₁ → allowed c s₁ →
      ∀ r s₂, exec c s₁ = some (r, s₂) → ∃ g', move g c s₁ s₂ g' ∧ Keeps final g' (k r) s₂

variable {exec allowed rely move}

@[simp] lemma keeps_pure {final : α → G → S → Prop} {g : G} {a : α} {s : S} :
    Keeps exec allowed rely move final g (.pure a : Prog C R α) s ↔ final a g s := Iff.rfl

lemma Keeps.stable {final : α → G → S → Prop} {g : G} {p : Prog C R α} {s s' : S}
    (h : Keeps exec allowed rely move final g p s) (hrely : rely g s s')
    (htrans : ∀ {s₁ s₂ s₃}, rely g s₁ s₂ → rely g s₂ s₃ → rely g s₁ s₃)
    (hfinal : ∀ a, final a g s → final a g s') : Keeps exec allowed rely move final g p s' := by
  cases p with
  | pure a => exact hfinal a h
  | call c k => exact fun s₁ hs₁ => h s₁ (htrans hrely hs₁)

end Interleaved.Prog
