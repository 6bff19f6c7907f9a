import RedPar.Proofs.RdbRoundTrip

/-!
# What the callbacks show of a list

The memory usage of a list is computed from its counter, so it is right where the counter is.
The digest and the rewriting of the append-only file walk along the chain, which is the sorted
arrangement of the values and does not depend on the history that led to them.
-/

namespace RedPar
open Objects

def MemUsageExact (o : LlcaObj) : Prop :=
  (llcaMemUsage o).toNat = sizeofLlcaObj.toNat + sizeofLlcaNode.toNat * o.head.length

/-- No removal has found its value, as far as the figure can tell, and the figure does not
overflow. -/
def History.Accounted (h : History) : Prop :=
  2 ^ 60 ∣ h.removals ∧
    sizeofLlcaObj.toNat + sizeofLlcaNode.toNat * h.remaining.card < 2 ^ 64

/-- The figure counts the nodes that were ever inserted. -/
lemma llcaMemUsage_object {h : History} {o : LlcaObj} (ho : h.object = some o) :
    (llcaMemUsage o).toNat = (16 + 16 * (o.head.length + h.removals)) % 2 ^ 64 := by
  have hlen := History.object_len ho
  simp only [llcaMemUsage, sizeofLlcaObj, sizeofLlcaNode, UInt64.toNat_add, UInt64.toNat_mul, hlen]
  simp

lemma llcaMemUsage_step (o : LlcaObj) (op : LlcaOp) :
    llcaMemUsage (o.step op).1 =
      match op with
      | .insert _ => llcaMemUsage o + sizeofLlcaNode
      | _ => llcaMemUsage o := by
  cases op with
  | insert val =>
    simp only [llcaMemUsage, LlcaObj.step, llcaInsert_len]
    rw [UInt64.mul_add, UInt64.mul_one, UInt64.add_assoc]
  | remove val => simp only [llcaMemUsage, LlcaObj.step, llcaRemove_eq]
  | contains val => rfl

/-- The figure is right exactly if no removal has found its value. -/
theorem mem_usage_iff (h : History) (o : LlcaObj) (ho : h.object = some o) :
    MemUsageExact o ↔ h.Accounted := by
  have hcard : h.remaining.card = o.head.length := by
    rw [← History.object_values ho]
    rfl
  have hobj : sizeofLlcaObj.toNat = 16 := rfl
  have hnode : sizeofLlcaNode.toNat = 16 := rfl
  rw [MemUsageExact, History.Accounted, llcaMemUsage_object ho, hcard, hobj, hnode]
  omega

theorem mem_usage_iff_inserted : MemUsageExact ⟨[3, 5, 5], 3⟩ := by
  refine (mem_usage_iff ⟨.create, [.insert 5, .insert 3, .remove 7, .insert 5]⟩ _ rfl).mpr ?_
  unfold History.Accounted
  decide

/-- An empty list from which a value was removed still counts its node. -/
theorem mem_usage_drifts : ¬∀ (h : History) (o : LlcaObj), h.object = some o → MemUsageExact o := by
  intro hall
  have hexact := hall ⟨.create, [.insert 5, .remove 5]⟩ ⟨[], 1⟩ (by decide)
  revert hexact
  unfold MemUsageExact
  decide

lemma llcaDigestLoop_eq (md : List DigestCall) (values : List Int64) :
    llcaDigestLoop md values = md ++ values.map .addLongLong := by
  induction values generalizing md with
  | nil => simp [llcaDigestLoop]
  | cons value values ih => simp [llcaDigestLoop, ih, digestAddLongLong]

lemma llcaDigest_injective (md : List DigestCall) {o o' : LlcaObj}
    (h : llcaDigest md o = llcaDigest md o') : o.head = o'.head := by
  unfold llcaDigest digestEndSequence at h
  rw [llcaDigestLoop_eq, llcaDigestLoop_eq] at h
  have hmap := List.append_cancel_left (List.append_cancel_right h)
  exact List.map_injective_iff.mpr (fun _ _ heq => DigestCall.addLongLong.inj heq) hmap

/-- Histories that end with the same values have the same chain, the same digest and the same
commands in the append-only file; different values have different digests. -/
theorem observers_history_independent (h h' : History) (o o' : LlcaObj) (ho : h.object = some o)
    (ho' : h'.object = some o') :
    (o.values = o'.values → o.head = o'.head ∧ (∀ md, llcaDigest md o = llcaDigest md o') ∧
      ∀ aof key, llcaAofRewrite aof key o = llcaAofRewrite aof key o') ∧
    (o.values ≠ o'.values → ∀ md, llcaDigest md o ≠ llcaDigest md o') := by
  constructor
  · intro hvalues
    have hhead : o.head = o'.head :=
      (History.object_sorted ho).head_eq (History.object_sorted ho') hvalues
    refine ⟨hhead, fun md => ?_, fun aof key => ?_⟩
    · unfold llcaDigest
      rw [hhead]
    · unfold llcaAofRewrite
      rw [hhead]
  · intro hvalues md hdigest
    apply hvalues
    unfold LlcaObj.values
    rw [llcaDigest_injective md hdigest]

/-- Two orders of insertion, one of them with a removal, and a loaded stream. -/
theorem observers_history_independent_loaded :
    llcaDigest [] ⟨[3, 7], 3⟩ = llcaDigest [] ⟨[3, 7], 2⟩ ∧
      llcaDigest [] ⟨[3, 7], 3⟩ ≠ llcaDigest [] ⟨[3], 1⟩ :=
  ⟨((observers_history_independent ⟨.create, [.insert 7, .insert 5, .insert 3, .remove 5]⟩
      ⟨.load [.word 2, .word 7, .word 3], []⟩ ⟨[3, 7], 3⟩ ⟨[3, 7], 2⟩ (by decide) (by decide)).1 rfl).2.1 [],
    (observers_history_independent ⟨.create, [.insert 7, .insert 5, .insert 3, .remove 5]⟩
      ⟨.create, [.insert 3]⟩ ⟨[3, 7], 3⟩ ⟨[3], 1⟩ (by decide) (by decide)).2 (by decide) []⟩

end RedPar
