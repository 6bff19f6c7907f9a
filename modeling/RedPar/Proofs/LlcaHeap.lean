import RedPar.Lib.Chain
import RedPar.Model.LlcaHeap
import RedPar.Proofs.LlcaList

/-!
# The heap under the lists

`ListAt` says that an object and its chain are in the heap. Each function of `llca.cpp` keeps to
the cells of its object, and does to the chain what the function on lists does to the values.
-/

namespace RedPar.Memory
open Interleaved Chains

/-! ## Cells -/

namespace Heap

/-- The nodes both of whose fields have been written. -/
def nodes (h : Heap) (a : Ptr) : Option (Int64 × Ptr) :=
  match h.nodeAt a with
  | some (some value, some next) => some (value, next)
  | _ => none

variable {h h' : Heap} {a p : Ptr}

lemma nodes_congr (hlookup : h'.lookup a = h.lookup a) : h'.nodes a = h.nodes a := by
  simp only [nodes, nodeAt, hlookup]

lemma nodeAt_insert (ha : a ≠ nullptr) (value : Option Int64) (next : Option Ptr) :
    nodeAt (h.insert a (.node value next)) a = some (value, next) := by
  simp [nodeAt, ha]

lemma objAt_insert (ha : a ≠ nullptr) (head : Option Ptr) (len : Option UInt64) :
    objAt (h.insert a (.obj head len)) a = some (head, len) := by
  simp [objAt, ha]

lemma nodes_insert (ha : a ≠ nullptr) (value : Int64) (next : Ptr) :
    nodes (h.insert a (.node (some value) (some next))) a = some (value, next) := by
  simp [nodes, nodeAt_insert ha]

lemma nodes_insert_of_ne (hp : p ≠ a) (c : Cell) : nodes (h.insert a c) p = h.nodes p :=
  nodes_congr (Finmap.lookup_insert_of_ne h hp)

lemma objAt_insert_of_ne (hp : p ≠ a) (c : Cell) : objAt (h.insert a c) p = h.objAt p := by
  simp [objAt, Finmap.lookup_insert_of_ne h hp]

lemma nodes_eq_some {v : Int64} {next : Ptr} (hnode : h.nodes a = some (v, next)) :
    h.nodeAt a = some (some v, some next) := by
  unfold nodes at hnode
  split at hnode
  · rename_i heq
    cases hnode
    exact heq
  · cases hnode

lemma nodeAt_eq_some {c : Option Int64 × Option Ptr} (hnode : h.nodeAt a = some c) :
    a ≠ nullptr ∧ h.lookup a = some (.node c.1 c.2) := by
  unfold nodeAt at hnode
  split at hnode
  · cases hnode
  · rename_i hne
    split at hnode
    · rename_i heq
      cases hnode
      exact ⟨hne, heq⟩
    · cases hnode

lemma objAt_eq_some {c : Option Ptr × Option UInt64} (hobj : h.objAt a = some c) :
    a ≠ nullptr ∧ h.lookup a = some (.obj c.1 c.2) := by
  unfold objAt at hobj
  split at hobj
  · cases hobj
  · rename_i hne
    split at hobj
    · rename_i heq
      cases hobj
      exact ⟨hne, heq⟩
    · cases hobj

end Heap

def firstAddr (ns : List (Ptr × Int64)) : Ptr := (ns.head?.map Prod.fst).getD nullptr

@[simp] lemma firstAddr_nil : firstAddr [] = nullptr := rfl

@[simp] lemma firstAddr_cons (a : Ptr) (v : Int64) (ns : List (Ptr × Int64)) :
    firstAddr ((a, v) :: ns) = a := rfl

lemma firstAddr_of_seg {node : Ptr → Option (Int64 × Ptr)} {p : Ptr} {ns : List (Ptr × Int64)}
    (hseg : Seg node p ns nullptr) : p = firstAddr ns := by
  cases ns with
  | nil => exact hseg
  | cons x ns => exact hseg.1

structure ListAt (h : Heap) (o : Ptr) (ns : List (Ptr × Int64)) (len : UInt64) : Prop where
  chain : ∃ head, h.objAt o = some (some head, some len) ∧ Seg h.nodes head ns nullptr
  nodup : (addrs ns).Nodup

/-- The list that a chain and a counter stand for. -/
abbrev listOf (ns : List (Ptr × Int64)) (len : UInt64) : LlcaObj := ⟨ns.map Prod.snd, len⟩

namespace ListAt

variable {h h' : Heap} {o : Ptr} {ns : List (Ptr × Int64)} {len : UInt64}

lemma lookup_obj (hl : ListAt h o ns len) : ∃ head, o ≠ nullptr ∧
    h.lookup o = some (.obj (some head) (some len)) ∧ Seg h.nodes head ns nullptr := by
  obtain ⟨head, hobj, hseg⟩ := hl.chain
  obtain ⟨hne, hlookup⟩ := Heap.objAt_eq_some hobj
  exact ⟨head, hne, hlookup, hseg⟩

lemma lookup_node (hl : ListAt h o ns len) {a : Ptr} (ha : a ∈ addrs ns) :
    a ≠ nullptr ∧ ∃ v next, h.lookup a = some (.node v next) := by
  obtain ⟨head, _, _, hseg⟩ := hl.lookup_obj
  obtain ⟨⟨_, v⟩, hmem, rfl⟩ := List.mem_map.mp ha
  obtain ⟨next, hnode⟩ := hseg.node_of_mem hmem
  obtain ⟨hne, hlookup⟩ := Heap.nodeAt_eq_some (Heap.nodes_eq_some hnode)
  exact ⟨hne, _, _, hlookup⟩

lemma obj_notMem (hl : ListAt h o ns len) : o ∉ addrs ns := by
  intro ho
  obtain ⟨head, _, hobj, _⟩ := hl.lookup_obj
  obtain ⟨_, v, next, hnode⟩ := hl.lookup_node ho
  cases hobj.symm.trans hnode

lemma ne_of_notMem (hl : ListAt h o ns len) {a : Ptr} (ha : a ∉ h) : a ≠ o ∧ a ∉ addrs ns := by
  have hnone := Finmap.lookup_eq_none.mpr ha
  constructor
  · rintro rfl
    obtain ⟨head, _, hobj, _⟩ := hl.lookup_obj
    cases hobj.symm.trans hnone
  · intro hmem
    obtain ⟨_, v, next, hnode⟩ := hl.lookup_node hmem
    cases hnode.symm.trans hnone

lemma node_mem (hl : ListAt h o ns len) {a : Ptr} (ha : a ∈ addrs ns) : a ∈ h := by
  obtain ⟨_, v, next, hnode⟩ := hl.lookup_node ha
  exact Finmap.mem_of_lookup_eq_some hnode

lemma congr (hl : ListAt h o ns len) (ho : h'.lookup o = h.lookup o)
    (hns : ∀ a ∈ addrs ns, h'.lookup a = h.lookup a) : ListAt h' o ns len where
  chain := by
    obtain ⟨head, hobj, hseg⟩ := hl.chain
    refine ⟨head, ?_, hseg.congr fun a ha => Heap.nodes_congr (hns a ha)⟩
    simpa only [Heap.objAt, ho] using hobj
  nodup := hl.nodup

lemma objAt (hl : ListAt h o ns len) : h.objAt o = some (some (firstAddr ns), some len) := by
  obtain ⟨head, hobj, hseg⟩ := hl.chain
  rw [hobj, firstAddr_of_seg hseg]

lemma seg (hl : ListAt h o ns len) : Seg h.nodes (firstAddr ns) ns nullptr := by
  obtain ⟨head, _, hseg⟩ := hl.chain
  rwa [firstAddr_of_seg hseg] at hseg

lemma obj_ne_nullptr (hl : ListAt h o ns len) : o ≠ nullptr := by
  obtain ⟨head, hne, _⟩ := hl.lookup_obj
  exact hne

lemma obj_mem (hl : ListAt h o ns len) : o ∈ h := by
  obtain ⟨head, _, hobj, _⟩ := hl.lookup_obj
  exact Finmap.mem_of_lookup_eq_some hobj

lemma node_inside (ms : List (Ptr × Int64)) {b : Ptr} {v : Int64}
    (hl : ListAt h o (ms ++ (b, v) :: ns) len) :
    h.nodes b = some (v, firstAddr ns) ∧ Seg h.nodes (firstAddr ns) ns nullptr := by
  obtain ⟨r, _, _, next, hnode, hrest⟩ := seg_append.mp hl.seg
  rw [firstAddr_of_seg hrest] at hnode hrest
  exact ⟨hnode, hrest⟩

lemma insert_of_ne (hl : ListAt h o ns len) {a : Ptr} (hao : a ≠ o) (hans : a ∉ addrs ns)
    (c : Cell) : ListAt (h.insert a c) o ns len :=
  hl.congr (Finmap.lookup_insert_of_ne h hao.symm) fun b hb =>
    Finmap.lookup_insert_of_ne h (by rintro rfl; exact hans hb)

lemma erase_of_ne (hl : ListAt h o ns len) {a : Ptr} (hao : a ≠ o) (hans : a ∉ addrs ns) :
    ListAt (h.erase a) o ns len :=
  hl.congr (Finmap.lookup_erase_ne hao.symm) fun b hb =>
    Finmap.lookup_erase_ne (by rintro rfl; exact hans hb)

lemma rehead (hl : ListAt h o ns len) {p : Ptr} {ns' : List (Ptr × Int64)}
    (hseg : Seg h.nodes p ns' nullptr) (hnodup : (addrs ns').Nodup) (len' : UInt64) :
    ListAt (h.insert o (.obj (some p) (some len'))) o ns' len' where
  chain := by
    refine ⟨p, Heap.objAt_insert hl.obj_ne_nullptr _ _, hseg.congr fun a ha => ?_⟩
    refine Heap.nodes_insert_of_ne ?_ _
    rintro rfl
    obtain ⟨head, _, hobj, _⟩ := hl.lookup_obj
    obtain ⟨⟨_, v⟩, hmem, heq⟩ := List.mem_map.mp ha
    obtain ⟨next, hnode⟩ := hseg.node_of_mem hmem
    dsimp only at heq
    rw [heq] at hnode
    obtain ⟨_, hlookup⟩ := Heap.nodeAt_eq_some (Heap.nodes_eq_some hnode)
    cases hobj.symm.trans hlookup
  nodup := hnodup

lemma relink {ms ns' : List (Ptr × Int64)} {b p : Ptr} {v : Int64}
    (hl : ListAt h o (ms ++ (b, v) :: ns) len) (hseg : Seg h.nodes p ns' nullptr)
    (hnodup : (addrs (ms ++ (b, v) :: ns')).Nodup) :
    ListAt (h.insert b (.node (some v) (some p))) o (ms ++ (b, v) :: ns') len where
  chain := by
    have hb : b ∈ addrs (ms ++ (b, v) :: ns) := by simp
    have hbo : o ≠ b := by
      rintro rfl
      exact hl.obj_notMem hb
    obtain ⟨head, hobj, hchain⟩ := hl.chain
    obtain ⟨r, hms, hr, _⟩ := seg_append.mp hchain
    simp only [addrs, List.map_append, List.map_cons, List.nodup_append, List.nodup_cons] at hnodup
    refine ⟨head, by rw [Heap.objAt_insert_of_ne hbo, hobj], seg_append.mpr ⟨r, ?_, hr, p, ?_, ?_⟩⟩
    · refine hms.congr fun a ha => Heap.nodes_insert_of_ne ?_ _
      exact hnodup.2.2 a ha b List.mem_cons_self
    · exact Heap.nodes_insert (hl.lookup_node hb).1 v p
    · refine hseg.congr fun a ha => Heap.nodes_insert_of_ne ?_ _
      rintro rfl
      exact hnodup.2.1.1 ha
  nodup := hnodup

lemma unlink_head {a : Ptr} {v : Int64} (hl : ListAt h o ((a, v) :: ns) len) :
    ListAt ((h.insert o (.obj (some (firstAddr ns)) (some len))).erase a) o ns len := by
  obtain ⟨_, hrest⟩ := hl.node_inside []
  obtain ⟨ha, hnodup⟩ := List.nodup_cons.mp hl.nodup
  refine (hl.rehead hrest hnodup len).erase_of_ne ?_ ha
  rintro rfl
  exact hl.obj_notMem List.mem_cons_self

lemma unlink {ms : List (Ptr × Int64)} {a b : Ptr} {v w : Int64}
    (hl : ListAt h o (ms ++ (b, w) :: (a, v) :: ns) len) :
    ListAt ((h.insert b (.node (some w) (some (firstAddr ns)))).erase a) o (ms ++ (b, w) :: ns)
      len := by
  have hl' : ListAt h o ((ms ++ [(b, w)]) ++ (a, v) :: ns) len := by simpa using hl
  obtain ⟨_, hrest⟩ := hl'.node_inside _
  have hnodup : (a :: addrs (ms ++ (b, w) :: ns)).Nodup := by
    refine List.Perm.nodup ?_ hl'.nodup
    have hperm := (@List.perm_middle _ (a, v) (ms ++ [(b, w)]) ns).map Prod.fst
    simpa [addrs] using hperm
  obtain ⟨ha, hnodup⟩ := List.nodup_cons.mp hnodup
  refine (hl.relink hrest hnodup).erase_of_ne ?_ ha
  rintro rfl
  exact hl.obj_notMem (by simp)

end ListAt

/-! ## Writes -/

def Access.isWrite : Access → Bool
  | .loadValue _ | .loadNext _ | .loadHead _ | .loadLen _ | .diverge => false
  | _ => true

/-- The writes among the calls, allocations and releases included. -/
abbrev writes (calls : List Access) : List Access := calls.filter Access.isWrite

lemma writes_read {done : List Access} {c : Access} (hc : c.isWrite = false) :
    writes (done ++ [c]) = writes done := by
  rw [writes, List.filter_append, List.filter_cons_of_neg (by simp [hc]), List.filter_nil,
    List.append_nil]

lemma writes_write {done : List Access} {c : Access} (hc : c.isWrite = true) :
    writes (done ++ [c]) = writes done ++ [c] := by
  rw [writes, List.filter_append, List.filter_cons_of_pos hc, List.filter_nil]

def Access.allocates : Access → Bool
  | .allocNode | .allocObj => true
  | _ => false

def Access.freed? : Access → Option Ptr
  | .free ptr => some ptr
  | _ => none

def allocations (calls : List Access) : Nat := calls.countP Access.allocates

/-- The addresses that are released, in order. -/
def frees (calls : List Access) : List Ptr := calls.filterMap Access.freed?

lemma allocations_writes (calls : List Access) : allocations (writes calls) = allocations calls := by
  unfold allocations writes
  rw [List.countP_filter]
  refine List.countP_congr fun c _ => ?_
  cases c <;> simp [Access.allocates, Access.isWrite]

lemma frees_writes (calls : List Access) : frees (writes calls) = frees calls := by
  unfold frees writes
  rw [List.filterMap_filter]
  refine List.filterMap_congr fun c _ => ?_
  cases c <;> rfl

lemma allocations_free (ptrs : List Ptr) : allocations (ptrs.map .free) = 0 := by
  unfold allocations
  rw [List.countP_map]
  exact List.countP_eq_zero.mpr fun ptr _ => by simp [Access.allocates]

lemma frees_free (ptrs : List Ptr) : frees (ptrs.map .free) = ptrs := by
  unfold frees
  rw [List.filterMap_map]
  exact List.filterMap_some

section Calls

variable [Allocator] {α : Type} {I : List Access → Heap → Prop}
  {final : α → List Access → Heap → Prop} {done : List Access} {h : Heap}

lemma along_loadValue {a next : Ptr} {v : Int64} {k : Int64 → HeapM α}
    (hnode : h.nodes a = some (v, next)) (hI : I done h)
    (hrest : Prog.Along exec I final (done ++ [.loadValue a]) (k v) h) :
    Prog.Along exec I final done (loadValue a >>= k) h :=
  Prog.along_call (c := .loadValue a) v hI (by simp [exec, Heap.nodes_eq_some hnode]) hrest

lemma along_loadNext {a next : Ptr} {v : Int64} {k : Ptr → HeapM α}
    (hnode : h.nodes a = some (v, next)) (hI : I done h)
    (hrest : Prog.Along exec I final (done ++ [.loadNext a]) (k next) h) :
    Prog.Along exec I final done (loadNext a >>= k) h :=
  Prog.along_call (c := .loadNext a) next hI (by simp [exec, Heap.nodes_eq_some hnode]) hrest

lemma along_loadHead {o head : Ptr} {len : Option UInt64} {k : Ptr → HeapM α}
    (hobj : h.objAt o = some (some head, len)) (hI : I done h)
    (hrest : Prog.Along exec I final (done ++ [.loadHead o]) (k head) h) :
    Prog.Along exec I final done (loadHead o >>= k) h :=
  Prog.along_call (c := .loadHead o) head hI (by simp [exec, hobj]) hrest

lemma along_loadLen {o : Ptr} {head : Option Ptr} {len : UInt64} {k : UInt64 → HeapM α}
    (hobj : h.objAt o = some (head, some len)) (hI : I done h)
    (hrest : Prog.Along exec I final (done ++ [.loadLen o]) (k len) h) :
    Prog.Along exec I final done (loadLen o >>= k) h :=
  Prog.along_call (c := .loadLen o) len hI (by simp [exec, hobj]) hrest

lemma along_allocNode {k : Ptr → HeapM α} (hI : I done h)
    (hrest : Prog.Along exec I final (done ++ [.allocNode]) (k (Allocator.fresh h))
      (h.insert (Allocator.fresh h) (.node none none))) :
    Prog.Along exec I final done (allocNode >>= k) h :=
  Prog.along_call (c := .allocNode) _ hI rfl hrest

lemma along_storeValue {a : Ptr} {v : Int64} {c : Option Int64 × Option Ptr} {k : Unit → HeapM α}
    (hnode : h.nodeAt a = some c) (hI : I done h)
    (hrest : Prog.Along exec I final (done ++ [.storeValue a v]) (k ())
      (h.insert a (.node (some v) c.2))) :
    Prog.Along exec I final done (storeValue a v >>= k) h :=
  Prog.along_call (c := .storeValue a v) () hI (by simp [exec, hnode]) hrest

lemma along_storeNext {a p : Ptr} {c : Option Int64 × Option Ptr} {k : Unit → HeapM α}
    (hnode : h.nodeAt a = some c) (hI : I done h)
    (hrest : Prog.Along exec I final (done ++ [.storeNext a p]) (k ())
      (h.insert a (.node c.1 (some p)))) :
    Prog.Along exec I final done (storeNext a p >>= k) h :=
  Prog.along_call (c := .storeNext a p) () hI (by simp [exec, hnode]) hrest

lemma along_storeHead {o p : Ptr} {c : Option Ptr × Option UInt64} {k : Unit → HeapM α}
    (hobj : h.objAt o = some c) (hI : I done h)
    (hrest : Prog.Along exec I final (done ++ [.storeHead o p]) (k ())
      (h.insert o (.obj (some p) c.2))) :
    Prog.Along exec I final done (storeHead o p >>= k) h :=
  Prog.along_call (c := .storeHead o p) () hI (by simp [exec, hobj]) hrest

lemma along_storeLen {o : Ptr} {len : UInt64} {c : Option Ptr × Option UInt64} {k : Unit → HeapM α}
    (hobj : h.objAt o = some c) (hI : I done h)
    (hrest : Prog.Along exec I final (done ++ [.storeLen o len]) (k ())
      (h.insert o (.obj c.1 (some len)))) :
    Prog.Along exec I final done (storeLen o len >>= k) h :=
  Prog.along_call (c := .storeLen o len) () hI (by simp [exec, hobj]) hrest

lemma along_free {a : Ptr} {k : Unit → HeapM α} (hne : a ≠ nullptr) (ha : a ∈ h) (hI : I done h)
    (hrest : Prog.Along exec I final (done ++ [.free a]) (k ()) (h.erase a)) :
    Prog.Along exec I final done (free a >>= k) h :=
  Prog.along_call (c := .free a) () hI (by simp [exec, hne, ha]) hrest

end Calls

/-! ## Insertion -/

/-- The last node of a walk, or the one it started behind. -/
def lastAddr (prev : Ptr) (ns : List (Ptr × Int64)) : Ptr := (ns.getLast?.map Prod.fst).getD prev

lemma lastAddr_cons (prev a : Ptr) (v : Int64) (ns : List (Ptr × Int64)) :
    lastAddr prev ((a, v) :: ns) = lastAddr a ns := by
  unfold lastAddr
  cases h : ns.getLast? <;> simp [List.getLast?_cons, h]

/-- Nodes that are walked past, and nodes behind them. -/
abbrev below (val : Int64) (ns : List (Ptr × Int64)) := ns.takeWhile fun x => x.2 < val
abbrev above (val : Int64) (ns : List (Ptr × Int64)) := ns.dropWhile fun x => x.2 < val

lemma below_append_above (val : Int64) (ns : List (Ptr × Int64)) :
    below val ns ++ above val ns = ns := List.takeWhile_append_dropWhile

/-- The nodes once `val` is in front of the first value that is not below it. -/
abbrev inserted (val : Int64) (a : Ptr) (ns : List (Ptr × Int64)) : List (Ptr × Int64) :=
  below val ns ++ (a, val) :: above val ns

lemma mem_inserted {a p : Ptr} {ns : List (Ptr × Int64)} {val : Int64} :
    p ∈ addrs (inserted val a ns) ↔ p = a ∨ p ∈ addrs ns := by
  have hperm : (addrs (inserted val a ns)).Perm (a :: addrs ns) := by
    refine (List.perm_middle.map _).trans ?_
    rw [below_append_above]
    exact List.Perm.refl _
  rw [hperm.mem_iff, List.mem_cons]

lemma nodup_inserted (val : Int64) {a : Ptr} {ns : List (Ptr × Int64)}
    (hnodup : (addrs ns).Nodup) (ha : a ∉ addrs ns) :
    (addrs (inserted val a ns)).Nodup := by
  have hperm : (addrs (inserted val a ns)).Perm (a :: addrs ns) := by
    refine (List.perm_middle.map _).trans ?_
    rw [List.takeWhile_append_dropWhile]
    exact List.Perm.refl _
  exact hperm.nodup_iff.mpr (List.nodup_cons.mpr ⟨ha, hnodup⟩)

lemma length_inserted (val : Int64) (a : Ptr) (ns : List (Ptr × Int64)) :
    (inserted val a ns).length = ns.length + 1 := by
  have hsplit := congrArg List.length (below_append_above val ns)
  simp only [inserted, List.length_append, List.length_cons] at hsplit ⊢
  omega

section Insert

variable [Allocator]

/-- The loop stops between the two; it writes nothing. -/
lemma along_llcaInsertLoop {I : List Access → Heap → Prop}
    {final : Ptr × Ptr → List Access → Heap → Prop} {h : Heap} {val : Int64} {fuel : Nat}
    {prev next : Ptr} {ns : List (Ptr × Int64)} {done : List Access}
    (hseg : Seg h.nodes next ns nullptr) (hfuel : ns.length < fuel)
    (hne : ∀ a ∈ addrs ns, a ≠ nullptr)
    (hI : ∀ done', writes done' = writes done → I done' h)
    (hfinal : ∀ done', writes done' = writes done →
      final (lastAddr prev (below val ns), firstAddr (above val ns)) done' h) :
    Prog.Along exec I final done (llcaInsertLoop val fuel prev next) h := by
  induction fuel generalizing prev next ns done with
  | zero => omega
  | succ fuel ih =>
    unfold llcaInsertLoop
    cases ns with
    | nil =>
      have hp : next = nullptr := hseg
      subst hp
      rw [if_pos rfl]
      exact ⟨hI done rfl, hfinal done rfl⟩
    | cons x ns =>
      obtain ⟨a, v⟩ := x
      obtain ⟨rfl, next', hnode, hrest⟩ := hseg
      rw [if_neg (hne next List.mem_cons_self)]
      refine along_loadValue hnode (hI done rfl) ?_
      by_cases hv : v < val
      · rw [if_pos hv]
        refine along_loadNext hnode (hI _ (writes_read rfl)) ?_
        have hdone : writes (done ++ [.loadValue next] ++ [.loadNext next]) = writes done :=
          (writes_read rfl).trans (writes_read rfl)
        refine ih hrest (by simpa using hfuel) (fun b hb => hne b (List.mem_cons_of_mem _ hb))
          (fun done' h' => hI done' (h'.trans hdone)) fun done' h' => ?_
        have hstop := hfinal done' (h'.trans hdone)
        rw [below, above, List.takeWhile_cons_of_pos (by simpa using hv),
          List.dropWhile_cons_of_pos (by simpa using hv), lastAddr_cons] at hstop
        exact hstop
      · rw [if_neg hv]
        refine ⟨hI _ (writes_read rfl), ?_⟩
        have hstop := hfinal (done ++ [.loadValue next]) (writes_read rfl)
        simpa [below, above, hv, lastAddr, firstAddr] using hstop

/-- The heap in the course of an insertion: the fourth write links the node, the fifth counts
it. -/
structure InsertPoint (h : Heap) (o : Ptr) (ns : List (Ptr × Int64)) (len : UInt64) (val : Int64)
    (done : List Access) (h' : Heap) : Prop where
  frame : ∀ p, p ≠ o → p ∉ addrs ns → p ≠ Allocator.fresh h → h'.lookup p = h.lookup p
  list : ListAt h' o
    (if (writes done).length < 4 then ns else inserted val (Allocator.fresh h) ns)
    (if (writes done).length < 5 then len else len + 1)

variable {h h' : Heap} {o : Ptr} {ns : List (Ptr × Int64)} {len : UInt64} {val : Int64}
  {done : List Access}

lemma InsertPoint.start (hl : ListAt h o ns len) (hdone : writes done = []) :
    InsertPoint h o ns len val done h where
  frame p _ _ _ := rfl
  list := by simpa [hdone] using hl

lemma InsertPoint.read (hpoint : InsertPoint h o ns len val done h') {c : Access}
    (hc : c.isWrite = false) : InsertPoint h o ns len val (done ++ [c]) h' where
  frame := hpoint.frame
  list := by simpa only [writes_read hc] using hpoint.list

/-- The new node is filled before it is linked. -/
lemma InsertPoint.fill (hl : ListAt h o ns len) (hpoint : InsertPoint h o ns len val done h')
    {c : Access} (hc : c.isWrite = true) (hdone : (writes done).length < 3) (cell : Cell) :
    InsertPoint h o ns len val (done ++ [c]) (h'.insert (Allocator.fresh h) cell) where
  frame p ho hns ha := by rw [Finmap.lookup_insert_of_ne _ ha, hpoint.frame p ho hns ha]
  list := by
    obtain ⟨hao, hans⟩ := hl.ne_of_notMem (Allocator.fresh_notMem h)
    have hlist := hpoint.list
    rw [if_pos (by omega), if_pos (by omega)] at hlist
    rw [writes_write hc, List.length_append, List.length_singleton, if_pos (by omega),
      if_pos (by omega)]
    exact hlist.insert_of_ne hao hans cell

/-- The new node before it is linked. -/
lemma along_fill {β : Type} {final : β → List Access → Heap → Prop} {next : Ptr}
    {k : Ptr → HeapM β} (hl : ListAt h o ns len) (hdone : writes done = [])
    (hrest : ∀ done' h', writes done' = [.allocNode, .storeValue (Allocator.fresh h) val,
        .storeNext (Allocator.fresh h) next] → InsertPoint h o ns len val done' h' →
      h'.nodes (Allocator.fresh h) = some (val, next) →
      Prog.Along exec (InsertPoint h o ns len val) final done' (k (Allocator.fresh h)) h') :
    Prog.Along exec (InsertPoint h o ns len val) final done (do
      let newnode ← allocNode
      storeValue newnode val
      storeNext newnode next
      k newnode) h := by
  have hne := Allocator.fresh_ne_nullptr h
  have hstart : InsertPoint h o ns len val done h := .start hl hdone
  have hdone₁ : writes (done ++ [.allocNode]) = [.allocNode] := by
    rw [writes_write rfl, hdone]
    rfl
  have hdone₂ : writes (done ++ [.allocNode] ++ [.storeValue (Allocator.fresh h) val]) =
      [.allocNode, .storeValue (Allocator.fresh h) val] := by
    rw [writes_write rfl, hdone₁]
    rfl
  refine along_allocNode hstart ?_
  have halloc := hstart.fill hl (c := .allocNode) rfl (by simp [hdone]) (.node none none)
  refine along_storeValue (Heap.nodeAt_insert hne _ _) halloc ?_
  have hvalue := halloc.fill hl (c := .storeValue (Allocator.fresh h) val) rfl
    (by simp [hdone₁]) (.node (some val) none)
  refine along_storeNext (Heap.nodeAt_insert hne _ _) hvalue ?_
  refine hrest _ _ ?_ ?_ (Heap.nodes_insert hne val next)
  · rw [writes_write rfl, hdone₂]
    rfl
  · exact hvalue.fill hl rfl (by rw [hdone₂]; simp) _

lemma InsertPoint.link_head (hl : ListAt h o ns len) (hpoint : InsertPoint h o ns len val done h')
    (hdone : (writes done).length = 3) (hbelow : below val ns = [])
    (hnode : h'.nodes (Allocator.fresh h) = some (val, firstAddr (above val ns))) :
    InsertPoint h o ns len val (done ++ [.storeHead o (Allocator.fresh h)])
      (h'.insert o (.obj (some (Allocator.fresh h)) (some len))) where
  frame p ho hns ha := by rw [Finmap.lookup_insert_of_ne _ ho, hpoint.frame p ho hns ha]
  list := by
    have hlist := hpoint.list
    have habove : above val ns = ns := by
      have hsplit := below_append_above val ns
      rwa [hbelow, List.nil_append] at hsplit
    rw [if_pos (by omega), if_pos (by omega)] at hlist
    rw [writes_write rfl, List.length_append, hdone, if_neg (by simp), if_pos (by simp)]
    refine hlist.rehead ?_ (nodup_inserted _ hl.nodup
      (hl.ne_of_notMem (Allocator.fresh_notMem h)).2) len
    rw [inserted, hbelow, List.nil_append, habove]
    rw [habove] at hnode
    exact ⟨rfl, _, hnode, hlist.seg⟩

lemma InsertPoint.link_behind (hl : ListAt h o ns len)
    (hpoint : InsertPoint h o ns len val done h') (hdone : (writes done).length = 3)
    {ms : List (Ptr × Int64)} {b : Ptr} {v : Int64} (hbelow : below val ns = ms ++ [(b, v)])
    (hnode : h'.nodes (Allocator.fresh h) = some (val, firstAddr (above val ns))) :
    h'.nodeAt b = some (some v, some (firstAddr (above val ns))) ∧ b ∈ addrs ns ∧
      InsertPoint h o ns len val (done ++ [.storeNext b (Allocator.fresh h)])
        (h'.insert b (.node (some v) (some (Allocator.fresh h)))) := by
  have hlist := hpoint.list
  rw [if_pos (by omega), if_pos (by omega)] at hlist
  have hns : ns = ms ++ (b, v) :: above val ns := by
    rw [← List.singleton_append, ← List.append_assoc, ← hbelow, below_append_above]
  have hb : b ∈ addrs ns := by
    rw [hns]
    simp
  have hnodup := nodup_inserted val hl.nodup (hl.ne_of_notMem (Allocator.fresh_notMem h)).2
  rw [inserted, hbelow, List.append_assoc, List.singleton_append] at hnodup
  rw [hns] at hlist
  obtain ⟨hcell, hrest⟩ := hlist.node_inside _
  refine ⟨Heap.nodes_eq_some hcell, hb, ⟨?_, ?_⟩⟩
  · intro p ho hp ha
    have hpb : p ≠ b := by
      rintro rfl
      exact hp hb
    rw [Finmap.lookup_insert_of_ne _ hpb, hpoint.frame p ho hp ha]
  · rw [writes_write rfl, List.length_append, hdone, if_neg (by simp), if_pos (by simp), inserted,
      hbelow, List.append_assoc, List.singleton_append]
    exact hlist.relink ⟨rfl, _, hnode, hrest⟩ hnodup

lemma along_count (hpoint : InsertPoint h o ns len val done h')
    (hdone : (writes done).length = 4) :
    Prog.Along exec (InsertPoint h o ns len val)
      (fun _ done' h'' => InsertPoint h o ns len val done' h'' ∧
        writes done' = writes done ++ [.storeLen o (len + 1)])
      done (do storeLen o ((← loadLen o) + 1)) h' := by
  have hlist := hpoint.list
  rw [if_neg (by omega), if_pos (by omega)] at hlist
  refine along_loadLen hlist.objAt hpoint ?_
  have hwrites : writes (done ++ [.loadLen o] ++ [.storeLen o (len + 1)]) =
      writes done ++ [.storeLen o (len + 1)] := by
    rw [writes_write rfl, writes_read rfl]
  have hend : InsertPoint h o ns len val (done ++ [.loadLen o] ++ [.storeLen o (len + 1)])
      (h'.insert o (.obj (some (firstAddr (inserted val (Allocator.fresh h) ns)))
        (some (len + 1)))) := by
    constructor
    · intro p ho hns ha
      rw [Finmap.lookup_insert_of_ne _ ho, hpoint.frame p ho hns ha]
    · rw [hwrites, List.length_append, hdone, if_neg (by simp), if_neg (by simp)]
      exact hlist.rehead hlist.seg hlist.nodup (len + 1)
  exact along_storeLen (k := .pure) hlist.objAt (hpoint.read rfl) ⟨hend, hend, hwrites⟩

inductive InsertWrites (h : Heap) (o : Ptr) (ns : List (Ptr × Int64)) (len : UInt64)
    (val : Int64) : List Access → Prop
  | front (next : Ptr) : InsertWrites h o ns len val
      [.allocNode, .storeValue (Allocator.fresh h) val, .storeNext (Allocator.fresh h) next,
        .storeHead o (Allocator.fresh h), .storeLen o (len + 1)]
  | behind (prev next : Ptr) : prev ∈ addrs ns → InsertWrites h o ns len val
      [.allocNode, .storeValue (Allocator.fresh h) val, .storeNext (Allocator.fresh h) next,
        .storeNext prev (Allocator.fresh h), .storeLen o (len + 1)]

lemma InsertWrites.length {calls : List Access} (hcalls : InsertWrites h o ns len val calls) :
    calls.length = 5 := by
  cases hcalls <;> rfl

lemma InsertWrites.allocations {calls : List Access} (hcalls : InsertWrites h o ns len val calls) :
    allocations calls = 1 := by
  cases hcalls <;> rfl

lemma InsertWrites.frees {calls : List Access} (hcalls : InsertWrites h o ns len val calls) :
    frees calls = [] := by
  cases hcalls <;> rfl

lemma along_llcaInsert (val : Int64) (hl : ListAt h o ns len) {fuel : Nat} (hfuel : ns.length < fuel) :
    Prog.Along exec (InsertPoint h o ns len val)
      (fun _ done h' => InsertPoint h o ns len val done h' ∧
        InsertWrites h o ns len val (writes done))
      [] (llcaInsert fuel o val) h := by
  unfold llcaInsert
  refine along_loadHead hl.objAt (.start hl rfl) ?_
  apply Prog.along_bind
  refine along_llcaInsertLoop hl.seg hfuel (fun b hb => (hl.lookup_node hb).1)
    (fun done hdone => .start hl hdone) fun done hdone => ?_
  refine along_fill hl hdone fun done h' hdone hpoint hnode => ?_
  have hlen : (writes done).length = 3 := by simp [hdone]
  rcases List.eq_nil_or_concat (below val ns) with hbelow | ⟨ms, ⟨b, v⟩, hbelow⟩
  · have hobj := hpoint.list
    rw [if_pos (by omega), if_pos (by omega)] at hobj
    have hprev : lastAddr nullptr (below val ns) = nullptr := by
      rw [hbelow]
      rfl
    rw [if_neg (by simpa using hprev)]
    refine along_storeHead hobj.objAt hpoint ?_
    refine (along_count (hpoint.link_head hl hlen hbelow hnode) ?_).mono fun _ done' h'' hend => ?_
    · rw [writes_write rfl, hdone]
      rfl
    · refine ⟨hend.1, ?_⟩
      rw [hend.2, writes_write rfl, hdone]
      exact .front _
  · rw [List.concat_eq_append] at hbelow
    obtain ⟨hcell, hb, hlinked⟩ := hpoint.link_behind hl hlen hbelow hnode
    have hprev : lastAddr nullptr (below val ns) = b := by
      rw [hbelow]
      simp [lastAddr]
    rw [hprev, if_pos (hl.lookup_node hb).1]
    refine along_storeNext hcell hpoint ?_
    refine (along_count hlinked ?_).mono fun _ done' h'' hend => ?_
    · rw [writes_write rfl, hdone]
      rfl
    · refine ⟨hend.1, ?_⟩
      rw [hend.2, writes_write rfl, hdone]
      exact .behind b _ hb

end Insert

/-! ## Search and removal -/

abbrev removed (val : Int64) (ns : List (Ptr × Int64)) : List (Ptr × Int64) :=
  ns.eraseP fun x => x.2 = val

structure RemoveEnd (h : Heap) (o : Ptr) (ns : List (Ptr × Int64)) (len : UInt64) (val : Int64)
    (found : Bool) (done : List Access) (h' : Heap) : Prop where
  found_eq : found = decide (val ∈ ns.map Prod.snd)
  list : ListAt h' o (removed val ns) len
  frame : ∀ p, p ≠ o → p ∉ addrs ns → h'.lookup p = h.lookup p
  gone : ∀ p ∈ addrs ns, p ∉ addrs (removed val ns) → p ∉ h'
  frees_eq : frees done = ((ns.find? fun x => x.2 = val).map Prod.fst).toList
  allocations_eq : allocations done = 0

section RemoveEnd

variable {h : Heap} {o : Ptr} {ns : List (Ptr × Int64)} {len : UInt64} {val : Int64}
  {done : List Access}

lemma RemoveEnd.of_absent (hl : ListAt h o ns len) (hnot : val ∉ ns.map Prod.snd)
    (hdone : writes done = []) : RemoveEnd h o ns len val false done h := by
  have hne : ∀ x ∈ ns, ¬ decide (x.2 = val) = true := by
    intro x hx heq
    exact hnot (List.mem_map.mpr ⟨x, hx, by simpa using heq⟩)
  have hsame : removed val ns = ns := List.eraseP_of_forall_not hne
  constructor
  · simpa using hnot
  · rwa [hsame]
  · intro p _ _
    rfl
  · intro p hp hgone
    rw [hsame] at hgone
    exact absurd hp hgone
  · rw [List.find?_eq_none.mpr hne, ← frees_writes, hdone]
    rfl
  · rw [← allocations_writes, hdone]
    rfl

lemma RemoveEnd.of_unlinked {h' : Heap} (ms : List (Ptr × Int64)) {rest : List (Ptr × Int64)}
    {a : Ptr} {link : Access}
    (hns : ns = ms ++ (a, val) :: rest) (hnot : val ∉ ms.map Prod.snd)
    (hlist : ListAt h' o (ms ++ rest) len) (ha : a ∉ h')
    (hframe : ∀ p, p ≠ o → p ∉ addrs ns → h'.lookup p = h.lookup p)
    (hdone : writes done = [link, .free a])
    (hlink : link.allocates = false ∧ link.freed? = none) :
    RemoveEnd h o ns len val true done h' := by
  have hne : ∀ x ∈ ms, ¬ decide (x.2 = val) = true := by
    intro x hx heq
    exact hnot (List.mem_map.mpr ⟨x, hx, by simpa using heq⟩)
  have hremoved : removed val ns = ms ++ rest := by
    rw [removed, hns, List.eraseP_append_right _ hne, List.eraseP_cons_of_pos (by simp)]
  constructor
  · rw [hns]
    simp
  · rwa [hremoved]
  · exact hframe
  · intro p hp hgone
    rw [hremoved] at hgone
    have hpa : p = a := by
      rw [hns] at hp
      simp only [addrs, List.map_append, List.map_cons, List.mem_append, List.mem_cons] at hp hgone
      tauto
    rwa [hpa]
  · rw [hns, List.find?_append, List.find?_eq_none.mpr hne, ← frees_writes, hdone]
    rw [frees, List.filterMap_cons_none hlink.2]
    simp [Access.freed?]
  · rw [← allocations_writes, hdone]
    rw [allocations, List.countP_cons_of_neg (by simp [hlink.1])]
    rfl

lemma RemoveEnd.of_head {a : Ptr} {rest : List (Ptr × Int64)}
    (hl : ListAt h o ((a, val) :: rest) len)
    (hdone : writes done = [.storeHead o (firstAddr rest), .free a]) :
    RemoveEnd h o ((a, val) :: rest) len val true done
      ((h.insert o (.obj (some (firstAddr rest)) (some len))).erase a) := by
  refine .of_unlinked [] rfl List.not_mem_nil hl.unlink_head Finmap.notMem_erase_self
    (fun p ho hp => ?_) hdone ⟨rfl, rfl⟩
  have hpa : p ≠ a := by
    rintro rfl
    exact hp List.mem_cons_self
  rw [Finmap.lookup_erase_ne hpa, Finmap.lookup_insert_of_ne _ ho]

lemma RemoveEnd.of_behind {ms rest : List (Ptr × Int64)} {a b : Ptr} {w : Int64}
    (hl : ListAt h o ns len) (hns : ns = (ms ++ [(b, w)]) ++ (a, val) :: rest)
    (hnot : val ∉ (ms ++ [(b, w)]).map Prod.snd)
    (hdone : writes done = [.storeNext b (firstAddr rest), .free a]) :
    RemoveEnd h o ns len val true done
      ((h.insert b (.node (some w) (some (firstAddr rest)))).erase a) := by
  have hl' : ListAt h o (ms ++ (b, w) :: (a, val) :: rest) len := by simpa [hns] using hl
  refine .of_unlinked _ hns hnot (by simpa using hl'.unlink) Finmap.notMem_erase_self
    (fun p ho hp => ?_) hdone ⟨rfl, rfl⟩
  have hpa : p ≠ a := by
    rintro rfl
    exact hp (by simp [hns])
  have hpb : p ≠ b := by
    rintro rfl
    exact hp (by simp [hns])
  rw [Finmap.lookup_erase_ne hpa, Finmap.lookup_insert_of_ne _ hpb]

end RemoveEnd

section Remove

variable [Allocator] {h : Heap} {o : Ptr} {ns : List (Ptr × Int64)} {len : UInt64} {val : Int64}
  {done : List Access}

lemma along_llcaContainsLoop {fuel : Nat} {cur : Ptr} (hseg : Seg h.nodes cur ns nullptr)
    (hfuel : ns.length < fuel) (hne : ∀ a ∈ addrs ns, a ≠ nullptr) :
    Prog.Along exec (fun _ _ => True)
      (fun found done' h' => found = decide (val ∈ ns.map Prod.snd) ∧ h' = h ∧
        writes done' = writes done)
      done (llcaContainsLoop val fuel cur) h := by
  induction fuel generalizing cur ns done with
  | zero => omega
  | succ fuel ih =>
    unfold llcaContainsLoop
    cases ns with
    | nil =>
      have hcur : cur = nullptr := hseg
      rw [if_pos hcur]
      exact ⟨trivial, rfl, rfl, rfl⟩
    | cons x ns =>
      obtain ⟨a, v⟩ := x
      obtain ⟨rfl, next, hnode, hrest⟩ := hseg
      rw [if_neg (hne cur List.mem_cons_self)]
      refine along_loadValue hnode trivial ?_
      by_cases hv : v = val
      · rw [if_pos hv]
        exact ⟨trivial, by simp [hv], rfl, writes_read rfl⟩
      · rw [if_neg hv]
        refine along_loadNext hnode trivial ?_
        refine (ih hrest (by simpa using hfuel) fun b hb => hne b
          (List.mem_cons_of_mem _ hb)).mono fun found done' h' hend => ?_
        obtain ⟨rfl, rfl, hwrites⟩ := hend
        refine ⟨by simp [Ne.symm hv], rfl, ?_⟩
        rw [hwrites, writes_read rfl, writes_read rfl]

lemma along_llcaContains (hl : ListAt h o ns len) {fuel : Nat} (hfuel : ns.length < fuel) :
    Prog.Along exec (fun _ _ => True)
      (fun found done h' => found = decide (val ∈ ns.map Prod.snd) ∧ h' = h ∧ writes done = [])
      [] (llcaContains fuel o val) h := by
  unfold llcaContains
  refine along_loadHead hl.objAt trivial ?_
  exact (along_llcaContainsLoop hl.seg hfuel fun a ha => (hl.lookup_node ha).1).mono
    fun found done h' hend => hend

/-- The loop of `llca_remove` stops at the first node that holds `val`, or at the last one. -/
lemma along_llcaRemoveLoop {fuel : Nat} {prev cur : Ptr} {v : Int64}
    (hseg : Seg h.nodes cur ((cur, v) :: ns) nullptr) (hfuel : ns.length < fuel)
    (hne : ∀ a ∈ addrs ns, a ≠ nullptr) :
    Prog.Along exec (fun _ _ => True)
      (fun found done' h' => (∃ ms w rest, (cur, v) :: ns = ms ++ (found.2, w) :: rest ∧
        found.1 = lastAddr prev ms ∧ val ∉ ms.map Prod.snd ∧ (rest = [] ∨ w = val)) ∧
        h' = h ∧ writes done' = writes done)
      done (llcaRemoveLoop val fuel prev cur) h := by
  induction fuel generalizing prev cur v ns done with
  | zero => omega
  | succ fuel ih =>
    obtain ⟨_, next, hnode, hrest⟩ := hseg
    unfold llcaRemoveLoop
    refine along_loadNext hnode trivial ?_
    cases ns with
    | nil =>
      have hnext : next = nullptr := hrest
      rw [if_pos hnext]
      exact ⟨trivial, ⟨[], v, [], rfl, rfl, List.not_mem_nil, .inl rfl⟩, rfl, writes_read rfl⟩
    | cons x ns =>
      obtain ⟨b, w⟩ := x
      have hb : next = b := hrest.1
      subst hb
      rw [if_neg (hne next List.mem_cons_self)]
      refine along_loadValue hnode trivial ?_
      by_cases hv : v = val
      · rw [if_pos hv]
        refine ⟨trivial, ⟨[], v, _, rfl, rfl, List.not_mem_nil, .inr hv⟩, rfl, ?_⟩
        rw [writes_read rfl, writes_read rfl]
      · rw [if_neg hv]
        refine along_loadNext hnode trivial ?_
        refine (ih hrest (by simpa using hfuel) fun a ha => hne a
          (List.mem_cons_of_mem _ ha)).mono fun found done' h' hend => ?_
        obtain ⟨⟨ms, u, rest, hsplit, hprev, hnot, hstop⟩, rfl, hwrites⟩ := hend
        refine ⟨⟨(cur, v) :: ms, u, rest, by rw [hsplit]; rfl, ?_, ?_, hstop⟩, rfl, ?_⟩
        · rw [hprev, lastAddr_cons]
        · simp only [List.map_cons, List.mem_cons, not_or]
          exact ⟨Ne.symm hv, hnot⟩
        · rw [hwrites, writes_read rfl, writes_read rfl, writes_read rfl]

lemma along_llcaRemove (hl : ListAt h o ns len) {fuel : Nat} (hfuel : ns.length < fuel) :
    Prog.Along exec (fun _ _ => True) (RemoveEnd h o ns len val) [] (llcaRemove fuel o val) h := by
  unfold llcaRemove
  refine along_loadHead hl.objAt trivial ?_
  cases ns with
  | nil =>
    rw [firstAddr_nil, if_pos rfl]
    exact ⟨trivial, .of_absent hl List.not_mem_nil rfl⟩
  | cons x ns =>
    obtain ⟨a, v⟩ := x
    have hne := fun b hb => (hl.lookup_node (a := b) hb).1
    obtain ⟨hcell, hrest⟩ := hl.node_inside []
    rw [firstAddr_cons, if_neg (hne _ List.mem_cons_self)]
    refine along_loadHead hl.objAt trivial ?_
    rw [firstAddr_cons]
    refine along_loadValue hcell trivial ?_
    by_cases hv : v = val
    · subst hv
      rw [if_pos rfl]
      refine along_loadNext hcell trivial ?_
      refine along_storeHead hl.objAt trivial ?_
      refine along_free (hne _ List.mem_cons_self) ?_ trivial ?_
      · exact Finmap.mem_insert.mpr (.inr (hl.node_mem List.mem_cons_self))
      · exact ⟨trivial, .of_head hl rfl⟩
    · rw [if_neg hv]
      apply Prog.along_bind
      refine (along_llcaRemoveLoop hl.seg (Nat.lt_of_succ_lt hfuel)
        fun b hb => hne b (List.mem_cons_of_mem _ hb)).mono fun found done h' hend => ?_
      obtain ⟨prev, cur⟩ := found
      obtain ⟨⟨ms, w, rest, hsplit, hprev, hnot, hstop⟩, rfl, hdone⟩ := hend
      replace hdone : writes done = [] := hdone
      dsimp only [firstAddr_cons] at hsplit hprev ⊢
      rw [hsplit] at hl hne ⊢
      obtain ⟨hcur, _⟩ := hl.node_inside _
      refine along_loadNext hcur trivial ?_
      by_cases hw : w = val
      · subst hw
        rcases List.eq_nil_or_concat ms with rfl | ⟨ms', ⟨b, u⟩, rfl⟩
        · cases hsplit
          exact absurd rfl hv
        · rw [List.concat_eq_append] at *
          obtain ⟨hb, _⟩ := (show ListAt h' o (ms' ++ (b, u) :: (cur, w) :: rest) len by
            simpa using hl).node_inside _
          have hmem : ∀ cell, cur ∈ h'.insert b cell := fun cell =>
            Finmap.mem_insert.mpr (.inr (hl.node_mem (by simp)))
          have hprev : prev = b := by simpa [lastAddr] using hprev
          subst hprev
          cases rest with
          | nil =>
            rw [firstAddr_nil, if_pos rfl]
            refine along_loadValue hcur trivial ?_
            rw [if_pos rfl]
            refine along_storeNext (Heap.nodes_eq_some hb) trivial ?_
            refine along_free (hne cur (by simp)) (hmem _) trivial ?_
            refine ⟨trivial, .of_behind hl rfl hnot ?_⟩
            rw [writes_write rfl, writes_write rfl, writes_read rfl, writes_read rfl, hdone]
            rfl
          | cons y rest =>
            rw [if_neg (hne _ (by simp [firstAddr]))]
            refine along_loadNext hcur trivial ?_
            refine along_storeNext (Heap.nodes_eq_some hb) trivial ?_
            refine along_free (hne cur (by simp)) (hmem _) trivial ?_
            refine ⟨trivial, .of_behind hl rfl hnot ?_⟩
            rw [writes_write rfl, writes_write rfl, writes_read rfl, writes_read rfl, hdone]
            rfl
      · obtain rfl : rest = [] := hstop.resolve_right hw
        rw [firstAddr_nil, if_pos rfl]
        refine along_loadValue hcur trivial ?_
        rw [if_neg hw]
        refine ⟨trivial, .of_absent hl ?_ ?_⟩
        · simp only [List.map_append, List.map_cons, List.map_nil, List.mem_append,
            List.mem_singleton, not_or]
          exact ⟨hnot, Ne.symm hw⟩
        · rw [writes_read rfl, writes_read rfl, hdone]

end Remove

/-! ## Creation and release -/

section Release

variable [Allocator] {h : Heap} {o : Ptr} {ns : List (Ptr × Int64)} {len : UInt64}
  {done : List Access}

lemma along_createLLCAObject (h : Heap) :
    Prog.Along exec (fun _ _ => True)
      (fun o _ h' => o = Allocator.fresh h ∧ ListAt h' o [] 0 ∧
        ∀ p, p ≠ o → h'.lookup p = h.lookup p)
      [] createLLCAObject h := by
  have hne := Allocator.fresh_ne_nullptr h
  unfold createLLCAObject
  refine Prog.along_call (c := Access.allocObj) (Allocator.fresh h) trivial rfl ?_
  refine along_storeHead (Heap.objAt_insert hne _ _) trivial ?_
  refine along_storeLen (Heap.objAt_insert hne _ _) trivial ?_
  refine ⟨trivial, rfl, ⟨⟨nullptr, Heap.objAt_insert hne _ _, rfl⟩, List.nodup_nil⟩, ?_⟩
  intro p hp
  rw [Finmap.lookup_insert_of_ne _ hp, Finmap.lookup_insert_of_ne _ hp,
    Finmap.lookup_insert_of_ne _ hp]

lemma along_llcaReleaseLoop {fuel : Nat} {cur : Ptr} (hseg : Seg h.nodes cur ns nullptr)
    (hnodup : (addrs ns).Nodup) (hfuel : ns.length < fuel) :
    Prog.Along exec (fun _ _ => True)
      (fun _ done' h' => (∀ p ∈ addrs ns, p ∉ h') ∧
        (∀ p, p ∉ addrs ns → h'.lookup p = h.lookup p) ∧
        writes done' = writes done ++ (addrs ns).map .free)
      done (llcaReleaseLoop fuel cur) h := by
  induction fuel generalizing h cur ns done with
  | zero => omega
  | succ fuel ih =>
    unfold llcaReleaseLoop
    cases ns with
    | nil =>
      have hcur : cur = nullptr := hseg
      rw [if_pos hcur]
      exact ⟨trivial, fun p hp => absurd hp List.not_mem_nil, fun p _ => rfl,
        (List.append_nil _).symm⟩
    | cons x ns =>
      obtain ⟨a, v⟩ := x
      obtain ⟨rfl, next, hnode, hrest⟩ := hseg
      obtain ⟨ha, hnodup⟩ := List.nodup_cons.mp hnodup
      obtain ⟨hne, hlookup⟩ := Heap.nodeAt_eq_some (Heap.nodes_eq_some hnode)
      rw [if_neg hne]
      refine along_loadNext hnode trivial ?_
      refine along_free hne (Finmap.mem_of_lookup_eq_some hlookup) trivial ?_
      have hrest' : Seg (Heap.nodes (h.erase cur)) next ns nullptr := by
        refine hrest.congr fun b hb => Heap.nodes_congr (Finmap.lookup_erase_ne ?_)
        rintro rfl
        exact ha hb
      refine (ih hrest' hnodup (by simpa using hfuel)).mono fun _ done' h' hend => ?_
      obtain ⟨hgone, hsame, hwrites⟩ := hend
      refine ⟨?_, ?_, ?_⟩
      · intro p hp
        rcases List.mem_cons.mp hp with rfl | hp
        · rw [← Finmap.lookup_eq_none, hsame p ha]
          exact Finmap.lookup_erase ..
        · exact hgone p hp
      · intro p hp
        obtain ⟨hpc, hp⟩ := List.ne_and_not_mem_of_not_mem_cons hp
        rw [hsame p hp, Finmap.lookup_erase_ne hpc]
      · rw [hwrites, writes_write rfl, writes_read rfl, List.append_assoc]
        rfl

lemma along_llcaRelease (hl : ListAt h o ns len) {fuel : Nat} (hfuel : ns.length < fuel) :
    Prog.Along exec (fun _ _ => True)
      (fun _ done h' => (∀ p ∈ o :: addrs ns, p ∉ h') ∧
        (∀ p, p ∉ o :: addrs ns → h'.lookup p = h.lookup p) ∧
        writes done = (addrs ns ++ [o]).map .free)
      [] (llcaRelease fuel o) h := by
  unfold llcaRelease
  refine along_loadHead hl.objAt trivial ?_
  apply Prog.along_bind
  refine (along_llcaReleaseLoop hl.seg hl.nodup hfuel).mono fun _ done h' hend => ?_
  obtain ⟨hgone, hsame, hwrites⟩ := hend
  have ho : o ∈ h' := by
    rw [Finmap.mem_iff, hsame o hl.obj_notMem]
    exact Finmap.mem_iff.mp hl.obj_mem
  refine along_free (k := .pure) hl.obj_ne_nullptr ho trivial ⟨trivial, ?_, ?_, ?_⟩
  · intro p hp
    rcases List.mem_cons.mp hp with rfl | hp
    · exact Finmap.notMem_erase_self
    · intro hmem
      exact hgone p hp (Finmap.mem_erase.mp hmem).2
  · intro p hp
    obtain ⟨hpo, hp⟩ := List.ne_and_not_mem_of_not_mem_cons hp
    rw [Finmap.lookup_erase_ne hpo, hsame p hp]
  · rw [writes_write rfl, hwrites, List.map_append]
    rfl

end Release

/-! ## One call -/

def perform (fuel : Nat) (o : Ptr) : LlcaOp → HeapM (Option Bool)
  | .insert val => do
    llcaInsert fuel o val
    return none
  | .remove val => do
    let found ← llcaRemove fuel o val
    return some found
  | .contains val => do
    let found ← llcaContains fuel o val
    return some found

/-- The cells of an object. -/
abbrev footprint (o : Ptr) (ns : List (Ptr × Int64)) : List Ptr := o :: addrs ns

lemma ListAt.footprint_mem {h : Heap} {o p : Ptr} {ns : List (Ptr × Int64)} {len : UInt64}
    (hl : ListAt h o ns len) (hp : p ∈ footprint o ns) : p ∈ h := by
  rcases List.mem_cons.mp hp with rfl | hp
  · exact hl.obj_mem
  · exact hl.node_mem hp

/-- The chain that a call leaves, where `a` is the address of a new node. -/
def nodesAfter (a : Ptr) (ns : List (Ptr × Int64)) : LlcaOp → List (Ptr × Int64)
  | .insert val => inserted val a ns
  | .remove val => removed val ns
  | .contains _ => ns

lemma mem_nodesAfter {a o p : Ptr} {ns : List (Ptr × Int64)} {op : LlcaOp}
    (hp : p ∈ footprint o (nodesAfter a ns op)) : p = a ∨ p ∈ footprint o ns := by
  rcases List.mem_cons.mp hp with rfl | hp
  · exact .inr List.mem_cons_self
  · cases op with
    | insert val => exact (mem_inserted.mp hp).imp_right (List.mem_cons_of_mem _)
    | remove val =>
      exact .inr (List.mem_cons_of_mem _ (List.Sublist.subset (List.eraseP_sublist.map _) hp))
    | contains val => exact .inr (List.mem_cons_of_mem _ hp)

lemma length_nodesAfter (a : Ptr) (ns : List (Ptr × Int64)) (op : LlcaOp) :
    (nodesAfter a ns op).length ≤ ns.length + 1 := by
  cases op with
  | insert val => exact (length_inserted val a ns).le
  | remove val => exact Nat.le_succ_of_le List.eraseP_sublist.length_le
  | contains val => exact Nat.le_succ _

/-- The number of nodes that a call allocates. -/
def allocated : LlcaOp → Nat
  | .insert _ => 1
  | _ => 0

/-- The nodes that a call releases: the one that it unlinks. -/
def freed (ns : List (Ptr × Int64)) : LlcaOp → List Ptr
  | .remove val => ((ns.find? fun x => x.2 = val).map Prod.fst).toList
  | _ => []

lemma listOf_inserted (a : Ptr) (val : Int64) (ns : List (Ptr × Int64)) (len : UInt64) :
    listOf (inserted val a ns) (len + 1) = RedPar.llcaInsert (listOf ns len) val := by
  rw [llcaInsert_eq, List.orderedInsert_eq_take_drop]
  simp only [listOf, inserted, below, above, List.map_append, List.map_cons, not_le]
  rw [List.takeWhile_map, List.dropWhile_map]
  rfl

lemma listOf_removed (val : Int64) (ns : List (Ptr × Int64)) (len : UInt64) :
    listOf (removed val ns) len = (RedPar.llcaRemove (listOf ns len) val).2 := by
  rw [llcaRemove_eq]
  have hp : (fun x : Ptr × Int64 => decide (x.2 = val)) = (· == val) ∘ Prod.snd := by
    funext x
    exact (beq_eq_decide x.2 val).symm
  simp only [listOf, removed, hp, List.erase_eq_eraseP', List.eraseP_map]

section Call

variable [Allocator] {h h' : Heap} {o : Ptr} {ns : List (Ptr × Int64)} {len : UInt64} {op : LlcaOp}
  {r : Option Bool} {calls : List Access}

/-- What holds after a call on the object at `o` that returned `r`. -/
structure Performed (h : Heap) (o : Ptr) (ns : List (Ptr × Int64)) (len : UInt64) (op : LlcaOp)
    (r : Option Bool) (h' : Heap) (calls : List Access) : Prop where
  refines : ∃ len', ListAt h' o (nodesAfter (Allocator.fresh h) ns op) len' ∧
    (listOf ns len).step op = (listOf (nodesAfter (Allocator.fresh h) ns op) len', r)
  unchanged : ∀ p, p ∉ footprint o ns → p ∉ footprint o (nodesAfter (Allocator.fresh h) ns op) →
    h'.lookup p = h.lookup p
  gone : ∀ p ∈ footprint o ns, p ∉ footprint o (nodesAfter (Allocator.fresh h) ns op) → p ∉ h'
  allocations_eq : allocations calls = allocated op
  frees_eq : frees calls = freed ns op

lemma along_perform (hl : ListAt h o ns len) {fuel : Nat} (hfuel : ns.length < fuel)
    (op : LlcaOp) :
    Prog.Along exec (fun _ _ => True) (fun r calls h' => Performed h o ns len op r h' calls) []
      (perform fuel o op) h := by
  cases op with
  | insert val =>
    have hrun := (along_llcaInsert val hl hfuel).weaken fun _ _ _ => trivial
    refine Prog.along_bind (hrun.mono fun _ calls h' hend => ?_)
    obtain ⟨hpoint, hcalls⟩ := hend
    refine ⟨trivial, ⟨⟨len + 1, ?_, ?_⟩, ?_, ?_, ?_, ?_⟩⟩
    · have hlist := hpoint.list
      rwa [hcalls.length, if_neg (by omega), if_neg (by omega)] at hlist
    · exact congrArg (·, none) (listOf_inserted _ val ns len).symm
    · intro p hp hp'
      obtain ⟨ho, hns⟩ := List.ne_and_not_mem_of_not_mem_cons hp
      exact hpoint.frame p ho hns fun ha => hp' (List.mem_cons_of_mem _ (mem_inserted.mpr (.inl ha)))
    · intro p hp hgone
      rcases List.mem_cons.mp hp with rfl | hp
      · exact absurd List.mem_cons_self hgone
      · exact absurd (List.mem_cons_of_mem _ (mem_inserted.mpr (.inr hp))) hgone
    · rw [← allocations_writes]
      exact hcalls.allocations
    · rw [← frees_writes]
      exact hcalls.frees
  | remove val =>
    refine Prog.along_bind ((along_llcaRemove hl hfuel).mono fun found calls h' hend => ?_)
    refine ⟨trivial, ⟨⟨len, hend.list, ?_⟩, ?_, ?_, hend.allocations_eq, hend.frees_eq⟩⟩
    · change (_, some _) = _
      rw [← listOf_removed, hend.found_eq, llcaRemove_eq]
      rfl
    · intro p hp _
      obtain ⟨ho, hns⟩ := List.ne_and_not_mem_of_not_mem_cons hp
      exact hend.frame p ho hns
    · intro p hp hgone
      rcases List.mem_cons.mp hp with rfl | hp
      · exact absurd List.mem_cons_self hgone
      · exact hend.gone p hp fun hmem => hgone (List.mem_cons_of_mem _ hmem)
  | contains val =>
    refine Prog.along_bind ((along_llcaContains hl hfuel).mono fun found calls h' hend => ?_)
    obtain ⟨rfl, rfl, hcalls⟩ := hend
    refine ⟨trivial, ⟨⟨len, hl, ?_⟩, fun p _ _ => rfl, fun p hp hgone => absurd hp hgone, ?_, ?_⟩⟩
    · change (_, some _) = _
      rw [llcaContains_eq]
      rfl
    · rw [← allocations_writes, hcalls]
      rfl
    · rw [← frees_writes, hcalls]
      rfl

namespace Performed

variable {o' : Ptr} {ms : List (Ptr × Int64)} {len' : UInt64}

/-- What a list that is elsewhere occupies is not touched, and stays elsewhere. -/
lemma others (hcall : Performed h o ns len op r h' calls) (hms : ListAt h o' ms len')
    (hapart : (footprint o ns).Disjoint (footprint o' ms)) :
    ListAt h' o' ms len' ∧
      (footprint o (nodesAfter (Allocator.fresh h) ns op)).Disjoint (footprint o' ms) := by
  have hout : ∀ p ∈ footprint o' ms, p ∉ footprint o (nodesAfter (Allocator.fresh h) ns op) := by
    intro p hp hmem
    rcases mem_nodesAfter hmem with rfl | hmem
    · exact Allocator.fresh_notMem h (hms.footprint_mem hp)
    · exact hapart hmem hp
  have hsame : ∀ p ∈ footprint o' ms, h'.lookup p = h.lookup p := fun p hp =>
    hcall.unchanged p (fun hmem => hapart hmem hp) (hout p hp)
  exact ⟨hms.congr (hsame _ List.mem_cons_self) fun a ha => hsame a (List.mem_cons_of_mem _ ha),
    fun p hmem hp => hout p hp hmem⟩

end Performed

end Call

end RedPar.Memory
