import RedPar.Proofs.HeapRuns
import RedPar.Proofs.RdbRoundTrip

/-!
# A child forked in the middle of an insertion

`llca_insert` runs without the lock, so the child that saves the database may be forked between
any two of its writes. The child finds the chain and the counter in step, except between the
write that links the new node and the one that counts it.
-/

namespace RedPar.Memory
open Interleaved Chains

/-- `llca_rdb_save` of the object at `o` writes fields from which `llca_rdb_load` reads just
these, and gives one of two lists. -/
def SavedAs [Allocator] (fuel : Nat) (before after : LlcaObj) (o : Ptr) (h : Heap) : Prop :=
  ∃ rdb calls, Prog.run exec (llcaRdbSave fuel [] o) h = some (rdb, h, calls) ∧
    ∀ rest, ∃ ll, llcaRdbLoad 0 (rdb ++ rest) = some (some ll, rest) ∧ (ll = before ∨ ll = after)

lemma foldl_llcaInsert_len (values : List Int64) (ll : LlcaObj) :
    (values.foldl RedPar.llcaInsert ll).len.toNat = (ll.len.toNat + values.length) % 2 ^ 64 := by
  induction values generalizing ll with
  | nil => exact (Nat.mod_eq_of_lt ll.len.toNat_lt).symm
  | cons value values ih =>
    rw [List.foldl_cons, ih, llcaInsert_len, List.length_cons, UInt64.toNat_add]
    simp only [UInt64.toNat_one, Nat.mod_add_mod]
    congr 1
    omega

/-- A sorted list whose counter is right is what is loaded from its image. -/
lemma foldl_llcaInsert_eq {ll : LlcaObj} (hsorted : ll.Sorted)
    (hlen : ll.len.toNat = ll.head.length) :
    ll.head.foldl RedPar.llcaInsert RedPar.createLLCAObject = ll := by
  have hhead := foldl_llcaInsert_head hsorted
  have hcount := foldl_llcaInsert_len ll.head RedPar.createLLCAObject
  generalize ll.head.foldl RedPar.llcaInsert RedPar.createLLCAObject = loaded at *
  obtain ⟨head, len⟩ := ll
  obtain ⟨head', len'⟩ := loaded
  dsimp only at hhead hlen hcount
  have hsame : len' = len := by
    apply UInt64.toNat_inj.mp
    rw [hcount, hlen, show RedPar.createLLCAObject.len.toNat = 0 from rfl, Nat.zero_add, ← hlen]
    exact Nat.mod_eq_of_lt len.toNat_lt
  rw [hhead, hsame]

section Snapshot

variable [Allocator] {h h' : Heap} {o : Ptr} {ns : List (Ptr × Int64)} {len : UInt64}
  {val : Int64} {fuel : Nat}

lemma along_llcaRdbSaveLoop {rdb : List RdbField} {node : Ptr} {done : List Access}
    (hseg : Seg h.nodes node ns nullptr) (hfuel : ns.length < fuel)
    (hne : ∀ a ∈ addrs ns, a ≠ nullptr) :
    Prog.Along exec (fun _ _ => True)
      (fun rdb' _ h' => rdb' = RedPar.llcaRdbSaveLoop rdb (ns.map Prod.snd) ∧ h' = h)
      done (llcaRdbSaveLoop fuel rdb node) h := by
  induction fuel generalizing node ns rdb done with
  | zero => omega
  | succ fuel ih =>
    unfold llcaRdbSaveLoop
    cases ns with
    | nil =>
      have hnode : node = nullptr := hseg
      rw [if_pos hnode]
      exact ⟨trivial, rfl, rfl⟩
    | cons x ns =>
      obtain ⟨a, v⟩ := x
      obtain ⟨rfl, next, hnode, hrest⟩ := hseg
      rw [if_neg (hne node List.mem_cons_self)]
      refine along_loadValue hnode trivial ?_
      refine along_loadNext hnode trivial ?_
      exact ih hrest (by simpa using hfuel) fun b hb => hne b (List.mem_cons_of_mem _ hb)

lemma along_llcaRdbSave (hl : ListAt h o ns len) (hfuel : ns.length < fuel)
    (rdb : List RdbField) :
    Prog.Along exec (fun _ _ => True)
      (fun rdb' _ h' => rdb' = RedPar.llcaRdbSave rdb (listOf ns len) ∧ h' = h)
      [] (llcaRdbSave fuel rdb o) h := by
  unfold llcaRdbSave
  refine along_loadHead hl.objAt trivial ?_
  refine along_loadLen hl.objAt trivial ?_
  exact along_llcaRdbSaveLoop hl.seg hfuel fun a ha => (hl.lookup_node ha).1

lemma savedAs_iff (hl : ListAt h o ns len) (hfuel : ns.length < fuel) {before after : LlcaObj} :
    SavedAs fuel before after o h ↔ ∀ rest, ∃ ll,
      llcaRdbLoad 0 (RedPar.llcaRdbSave [] (listOf ns len) ++ rest) = some (some ll, rest) ∧
        (ll = before ∨ ll = after) := by
  obtain ⟨rdb, h', calls, hrun, rfl, rfl⟩ := (along_llcaRdbSave hl hfuel []).run
  constructor
  · rintro ⟨rdb', calls', hrun', hload⟩
    cases hrun.symm.trans hrun'
    exact hload
  · intro hload
    exact ⟨_, calls, hrun, hload⟩

lemma savedAs_of_counted (hl : ListAt h o ns len) (hsorted : (listOf ns len).Sorted)
    (hlen : len.toNat = ns.length) (hfuel : ns.length < fuel) (after : LlcaObj) :
    SavedAs fuel (listOf ns len) after o h := by
  refine (savedAs_iff hl hfuel).mpr fun rest => ⟨listOf ns len, ?_, .inl rfl⟩
  have hcount : (listOf ns len).len.toNat = (listOf ns len).head.length := by
    rw [List.length_map]
    exact hlen
  rw [llcaRdbLoad_save hcount, foldl_llcaInsert_eq hsorted hcount]

/-- A chain that has a node more than the counter says leaves a value unread. -/
lemma not_savedAs_of_uncounted (hl : ListAt h o ns len) (hlen : len.toNat < ns.length)
    (hfuel : ns.length < fuel) (before after : LlcaObj) : ¬ SavedAs fuel before after o h := by
  intro hsaved
  obtain ⟨ll, hload, _⟩ := (savedAs_iff hl hfuel).mp hsaved []
  obtain ⟨w, values, hvalues, heq, _⟩ := llcaRdbLoad_inv hload
  rw [llcaRdbSave_eq, List.nil_append, List.append_nil, List.append_nil] at heq
  have hw : len = w := by
    have hhead := (List.cons.inj heq).1
    injection hhead
  have hcount := congrArg List.length (List.cons.inj heq).2
  rw [List.length_map, List.length_map, List.length_map] at hcount
  rw [← hw] at hvalues
  omega

/-- The image is torn exactly between the fourth write, which links the node, and the fifth,
which counts it. -/
theorem snapshot_iff (hl : ListAt h o ns len) (hsorted : (listOf ns len).Sorted)
    (hlen : len.toNat = ns.length) (hfuel : ns.length + 1 < fuel) {count : Nat}
    {rest : HeapM Unit} {calls : List Access}
    (hpoint : Prog.point exec count (llcaInsert fuel o val) h = some (rest, h', calls))
    (hwrites : (writes calls).length < 5) :
    SavedAs fuel (listOf ns len) (RedPar.llcaInsert (listOf ns len) val) o h' ↔
      (writes calls).length ≠ 4 := by
  have hlist := ((along_llcaInsert val hl (show ns.length < fuel by omega)).point
    hpoint).list
  rw [List.nil_append, if_pos hwrites] at hlist
  constructor
  · intro hsaved hfour
    rw [if_neg (by omega)] at hlist
    have hlonger := length_inserted val (Allocator.fresh h) ns
    exact not_savedAs_of_uncounted hlist (by omega) (by omega) _ _ hsaved
  · intro hfour
    rw [if_pos (by omega)] at hlist
    exact savedAs_of_counted hlist hsorted hlen (by omega) _

end Snapshot

/-- An insertion of 5 into an empty list, with the new node linked and not yet counted: the image
says that there is no value, and the value behind it is left in the stream. -/
theorem snapshot_torn :
    let h : Heap := Finmap.singleton 1 (.obj (some nullptr) (some 0))
    ∃ rest h' calls, Prog.point (@exec bumpAllocator) 5 (llcaInsert 2 1 5) h =
      some (rest, h', calls) ∧
      ¬ @SavedAs bumpAllocator 2 (listOf [] 0) (RedPar.llcaInsert (listOf [] 0) 5) 1 h' := by
  intro h
  let _ := bumpAllocator
  refine ⟨_, _, _, rfl, ?_⟩
  refine not_savedAs_of_uncounted ?_ (show (0 : UInt64).toNat < [(2, (5 : Int64))].length by decide) (by decide) _ _
  exact ⟨⟨2, rfl, rfl, nullptr, rfl, rfl⟩, by decide⟩

/-- An insertion of 5 between 3 and 7, with the new node filled and not yet linked. -/
theorem snapshot_iff_filled :
    let h : Heap := (((Finmap.singleton 1 (.obj (some 2) (some 3))).insert 2
      (.node (some 3) (some 3))).insert 3 (.node (some 7) (some 4))).insert 4
        (.node (some 9) (some nullptr))
    let before := listOf [(2, 3), (3, 7), (4, 9)] 3
    ∃ rest h' calls, Prog.point (@exec bumpAllocator) 7 (llcaInsert 5 1 5) h =
      some (rest, h', calls) ∧
      @SavedAs bumpAllocator 5 before (RedPar.llcaInsert before 5) 1 h' := by
  intro h before
  let _ := bumpAllocator
  have hl : ListAt h 1 [(2, 3), (3, 7), (4, 9)] 3 := by
    refine ⟨⟨2, by decide, rfl, 3, by decide, rfl, 4, by decide, rfl, nullptr, by decide, rfl⟩, ?_⟩
    decide
  refine ⟨_, _, _, rfl, ?_⟩
  exact (snapshot_iff hl (by unfold LlcaObj.Sorted; decide) rfl (by decide)
    (show Prog.point exec 7 (llcaInsert 5 1 5) h = _ from rfl) (by decide)).mpr (by decide)

end RedPar.Memory
