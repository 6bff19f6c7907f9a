import Mathlib.Data.List.Nodup

/-!
# Chains of nodes

`node` gives the value and the successor of each node. A segment is a list of nodes, with their
values, that leads from one address to another.
-/

namespace Chains

variable {A V : Type} (node : A → Option (V × A))

/-- The nodes `ns` lead from `p` to `q`. -/
def Seg : A → List (A × V) → A → Prop
  | p, [], q => p = q
  | p, (a, v) :: ns, q => p = a ∧ ∃ next, node a = some (v, next) ∧ Seg next ns q

abbrev addrs (ns : List (A × V)) : List A := ns.map Prod.fst

variable {node} {node' : A → Option (V × A)} {p q : A} {ns ms : List (A × V)}

@[simp] lemma seg_nil : Seg node p [] q ↔ p = q := Iff.rfl

@[simp] lemma seg_cons {a : A} {v : V} : Seg node p ((a, v) :: ns) q ↔
    p = a ∧ ∃ next, node a = some (v, next) ∧ Seg node next ns q := Iff.rfl

lemma seg_append : Seg node p (ns ++ ms) q ↔ ∃ r, Seg node p ns r ∧ Seg node r ms q := by
  induction ns generalizing p with
  | nil => simp
  | cons x ns ih =>
    obtain ⟨a, v⟩ := x
    simp only [List.cons_append, seg_cons, ih]
    constructor
    · rintro ⟨hp, next, hnode, r, hns, hms⟩
      exact ⟨r, ⟨hp, next, hnode, hns⟩, hms⟩
    · rintro ⟨r, ⟨hp, next, hnode, hns⟩, hms⟩
      exact ⟨hp, next, hnode, r, hns, hms⟩

lemma Seg.congr (h : Seg node p ns q) (hnode : ∀ a ∈ addrs ns, node' a = node a) :
    Seg node' p ns q := by
  induction ns generalizing p with
  | nil => exact h
  | cons x ns ih =>
    obtain ⟨a, v⟩ := x
    obtain ⟨hp, next, ha, hrest⟩ := h
    refine ⟨hp, next, ?_, ih hrest fun b hb => hnode b (List.mem_cons_of_mem _ hb)⟩
    rw [hnode a List.mem_cons_self, ha]

lemma Seg.node_of_mem (h : Seg node p ns q) {a : A} {v : V} (hmem : (a, v) ∈ ns) :
    ∃ next, node a = some (v, next) := by
  induction ns generalizing p with
  | nil => exact absurd hmem List.not_mem_nil
  | cons x ns ih =>
    obtain ⟨b, w⟩ := x
    obtain ⟨_, next, hb, hrest⟩ := h
    rcases List.mem_cons.mp hmem with heq | htail
    · cases heq
      exact ⟨next, hb⟩
    · exact ih hrest htail

end Chains
