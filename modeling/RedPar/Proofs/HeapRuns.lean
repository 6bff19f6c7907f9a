import RedPar.Proofs.LlcaHeap
import Mathlib.Order.Lattice.Nat

/-!
# Any number of lists on one heap

Lists are created, used and freed in any order. What they occupy stays apart, nothing else on the
heap is touched, and once all of them are freed the heap is as it was.
-/

namespace RedPar.Memory
open Interleaved Chains

/-- A statement of the program that uses the lists, which it knows by their position. -/
inductive ObjectOp
  | create
  | on (index : Nat) (op : LlcaOp)
  | free (index : Nat)
deriving DecidableEq, Repr

def handle (fuel : Nat) (objs : List Ptr) : ObjectOp → HeapM (List Ptr)
  | .create => do
    let o ← createLLCAObject
    return objs ++ [o]
  | .on index op =>
    match objs[index]? with
    | none => return objs
    | some o => do
      let _ ← perform fuel o op
      return objs
  | .free index =>
    match objs[index]? with
    | none => return objs
    | some o => do
      llcaFree fuel o
      return objs.erase o

/-- A sequence of statements, from no list: the lists that are left. -/
def handleAll (fuel : Nat) : List Ptr → List ObjectOp → HeapM (List Ptr)
  | objs, [] => return objs
  | objs, op :: ops => do
    let objs ← handle fuel objs op
    handleAll fuel objs ops

/-- What is live: each object with its chain. -/
abbrev Live := Ptr → Option (List (Ptr × Int64))

/-- The cells of the object at `o`, none if it is not live. -/
def cells (o : Ptr) : Option (List (Ptr × Int64)) → List Ptr
  | none => []
  | some ns => footprint o ns

/-- The heap, which was `h₀` when nothing was live, holds what is live and nothing more. -/
structure Owned (h₀ : Heap) (live : Live) (bound : Nat) (h : Heap) : Prop where
  lists : ∀ o ns, live o = some ns → ns.length ≤ bound ∧ ∃ len, ListAt h o ns len
  apart : ∀ o o', o ≠ o' → (cells o (live o)).Disjoint (cells o' (live o'))
  new : ∀ o, ∀ p ∈ cells o (live o), p ∉ h₀
  rest : ∀ p, (∀ o, p ∉ cells o (live o)) → h.lookup p = h₀.lookup p

namespace Owned

variable {h₀ h h' : Heap} {live : Live} {bound : Nat} {o p : Ptr}

lemma start (h : Heap) : Owned h (fun _ => none) 0 h where
  lists _ _ heq := by cases heq
  apart _ _ _ _ hp := absurd hp List.not_mem_nil
  new _ _ hp := absurd hp List.not_mem_nil
  rest _ _ := rfl

lemma mono (hown : Owned h₀ live bound h) : Owned h₀ live (bound + 1) h where
  lists o ns hlive := (hown.lists o ns hlive).imp_left Nat.le_succ_of_le
  apart := hown.apart
  new := hown.new
  rest := hown.rest

lemma mem (hown : Owned h₀ live bound h) (hp : p ∈ cells o (live o)) : p ∈ h := by
  cases hlive : live o with
  | none =>
    rw [hlive] at hp
    exact absurd hp List.not_mem_nil
  | some ns =>
    obtain ⟨_, len, hl⟩ := hown.lists o ns hlive
    rw [hlive] at hp
    exact hl.footprint_mem hp

lemma unused (hown : Owned h₀ live bound h) (hp : p ∉ h) : p ∉ h₀ := by
  rw [← Finmap.lookup_eq_none, ← hown.rest p fun o hmem => hp (hown.mem hmem)]
  exact Finmap.lookup_eq_none.mpr hp

/-- A statement that keeps to the object at `o`, and takes cells for it that are not in use. -/
lemma change (hown : Owned h₀ live bound h) {c : Option (List (Ptr × Int64))}
    (hlist : ∀ ns, c = some ns → ns.length ≤ bound + 1 ∧ ∃ len, ListAt h' o ns len)
    (hnew : ∀ p ∈ cells o c, p ∈ cells o (live o) ∨ p ∉ h)
    (hsame : ∀ p, p ∉ cells o (live o) → p ∉ cells o c → h'.lookup p = h.lookup p)
    (hgone : ∀ p ∈ cells o (live o), p ∉ cells o c → p ∉ h') :
    Owned h₀ (Function.update live o c) (bound + 1) h' := by
  have hout : ∀ o', o' ≠ o → (cells o c).Disjoint (cells o' (live o')) := by
    intro o' ho' p hp hp'
    rcases hnew p hp with hp | hp
    · exact hown.apart o' o ho' hp' hp
    · exact hp (hown.mem hp')
  constructor
  · intro o' ns hlive
    by_cases ho' : o' = o
    · subst ho'
      rw [Function.update_self] at hlive
      exact hlist ns hlive
    · rw [Function.update_of_ne ho'] at hlive
      obtain ⟨hshort, len, hl⟩ := hown.lists o' ns hlive
      have hkept : ∀ p ∈ footprint o' ns, h'.lookup p = h.lookup p := by
        intro p hp
        have hp' : p ∈ cells o' (live o') := by rwa [hlive]
        exact hsame p (hown.apart o' o ho' hp') fun hmem => hout o' ho' hmem hp'
      exact ⟨Nat.le_succ_of_le hshort, len, hl.congr (hkept _ List.mem_cons_self)
        fun a ha => hkept a (List.mem_cons_of_mem _ ha)⟩
  · intro o₁ o₂ hne
    by_cases h₁ : o₁ = o
    · subst h₁
      rw [Function.update_self, Function.update_of_ne hne.symm]
      exact hout o₂ hne.symm
    · rw [Function.update_of_ne h₁]
      by_cases h₂ : o₂ = o
      · subst h₂
        rw [Function.update_self]
        exact (hout o₁ hne).symm
      · rw [Function.update_of_ne h₂]
        exact hown.apart o₁ o₂ hne
  · intro o' p hp
    by_cases ho' : o' = o
    · subst ho'
      rw [Function.update_self] at hp
      exact (hnew p hp).elim (hown.new o' p) hown.unused
    · rw [Function.update_of_ne ho'] at hp
      exact hown.new o' p hp
  · intro p hp
    have hc : p ∉ cells o c := by simpa using hp o
    by_cases hold : p ∈ cells o (live o)
    · rw [Finmap.lookup_eq_none.mpr (hgone p hold hc),
        Finmap.lookup_eq_none.mpr (hown.new o p hold)]
    · rw [hsame p hold hc]
      refine hown.rest p fun o' => ?_
      by_cases ho' : o' = o
      · rwa [ho']
      · simpa [Function.update_of_ne ho'] using hp o'

end Owned

section Balance

variable [Allocator] {h h' : Heap}

omit [Allocator] in
lemma keys_insert (h : Heap) (a : Ptr) (c : Cell) : (h.insert a c).keys = insert a h.keys := by
  ext p
  simp only [Finmap.mem_keys, Finmap.mem_insert, Finset.mem_insert]

omit [Allocator] in
lemma card_store {a : Ptr} (ha : a ∈ h) (c : Cell) : (h.insert a c).keys.card = h.keys.card := by
  rw [keys_insert, Finset.insert_eq_of_mem (Finmap.mem_keys.mpr ha)]

lemma card_alloc (h : Heap) (c : Cell) :
    (h.insert (Allocator.fresh h) c).keys.card = h.keys.card + 1 := by
  rw [keys_insert]
  exact Finset.card_insert_of_notMem fun hmem =>
    Allocator.fresh_notMem h (Finmap.mem_keys.mp hmem)

omit [Allocator] in
lemma mem_of_nodeAt {a : Ptr} {c : Option Int64 × Option Ptr} (hnode : h.nodeAt a = some c) :
    a ∈ h := Finmap.mem_of_lookup_eq_some (Heap.nodeAt_eq_some hnode).2

omit [Allocator] in
lemma mem_of_objAt {o : Ptr} {c : Option Ptr × Option UInt64} (hobj : h.objAt o = some c) :
    o ∈ h := Finmap.mem_of_lookup_eq_some (Heap.objAt_eq_some hobj).2

/-- Each call changes the number of cells as it allocates or releases. -/
lemma card_exec {c : Access} {r : c.Res} (hexec : exec c h = some (r, h')) :
    h'.keys.card + (frees [c]).length = h.keys.card + allocations [c] := by
  cases c with
  | allocNode =>
    cases hexec
    exact card_alloc h _
  | allocObj =>
    cases hexec
    exact card_alloc h _
  | free ptr =>
    simp only [exec] at hexec
    split at hexec
    · rename_i hmem
      cases hexec
      rw [Finmap.keys_erase]
      exact Finset.card_erase_add_one (Finmap.mem_keys.mpr hmem.2)
    · cases hexec
  | storeValue node value =>
    obtain ⟨c, hnode, heq⟩ := Option.map_eq_some_iff.mp hexec
    cases heq
    exact card_store (mem_of_nodeAt hnode) _
  | storeNext node next =>
    obtain ⟨c, hnode, heq⟩ := Option.map_eq_some_iff.mp hexec
    cases heq
    exact card_store (mem_of_nodeAt hnode) _
  | storeHead o head =>
    obtain ⟨c, hobj, heq⟩ := Option.map_eq_some_iff.mp hexec
    cases heq
    exact card_store (mem_of_objAt hobj) _
  | storeLen o len =>
    obtain ⟨c, hobj, heq⟩ := Option.map_eq_some_iff.mp hexec
    cases heq
    exact card_store (mem_of_objAt hobj) _
  | loadValue node =>
    obtain ⟨c, _, hload⟩ := Option.bind_eq_some_iff.mp hexec
    obtain ⟨_, _, heq⟩ := Option.map_eq_some_iff.mp hload
    cases heq
    rfl
  | loadNext node =>
    obtain ⟨c, _, hload⟩ := Option.bind_eq_some_iff.mp hexec
    obtain ⟨_, _, heq⟩ := Option.map_eq_some_iff.mp hload
    cases heq
    rfl
  | loadHead o =>
    obtain ⟨c, _, hload⟩ := Option.bind_eq_some_iff.mp hexec
    obtain ⟨_, _, heq⟩ := Option.map_eq_some_iff.mp hload
    cases heq
    rfl
  | loadLen o =>
    obtain ⟨c, _, hload⟩ := Option.bind_eq_some_iff.mp hexec
    obtain ⟨_, _, heq⟩ := Option.map_eq_some_iff.mp hload
    cases heq
    rfl
  | diverge => cases hexec

lemma card_run {α : Type} {p : HeapM α} {a : α} {calls : List Access}
    (hrun : Prog.run exec p h = some (a, h', calls)) :
    h'.keys.card + (frees calls).length = h.keys.card + allocations calls := by
  induction p generalizing h calls with
  | pure a =>
    cases hrun
    rfl
  | call c k ih =>
    cases hexec : exec c h with
    | none => simp [Prog.run_call_none exec hexec] at hrun
    | some x =>
      rw [Prog.run_call exec hexec] at hrun
      obtain ⟨⟨a', h₁, calls'⟩, hrest, heq⟩ := Option.map_eq_some_iff.mp hrun
      cases heq
      have hfirst : x.2.keys.card + (frees [c]).length = h.keys.card + allocations [c] :=
        card_exec hexec
      have hlater := ih x.1 hrest
      have hfrees : frees (c :: calls') = frees [c] ++ frees calls' :=
        List.filterMap_append (l := [c])
      have hallocations : allocations (c :: calls') = allocations [c] + allocations calls' :=
        @List.countP_append _ _ [c] calls'
      rw [hfrees, hallocations, List.length_append]
      omega

end Balance

section Runs

variable [Allocator] {h₀ h : Heap} {objs : List Ptr} {live : Live} {bound fuel : Nat}

/-- The statements know what is live. -/
structure Holds (objs : List Ptr) (live : Live) : Prop where
  nodup : objs.Nodup
  mem_iff : ∀ o, o ∈ objs ↔ live o ≠ none

namespace Holds

variable {o : Ptr} {ns ns' : List (Ptr × Int64)}

omit [Allocator] in
lemma push (hobjs : Holds objs live) (hdead : live o = none) :
    Holds (objs ++ [o]) (Function.update live o (some ns)) where
  nodup := by
    refine List.nodup_append.mpr ⟨hobjs.nodup, List.nodup_singleton o, fun o' ho' p hp heq => ?_⟩
    rw [heq, List.mem_singleton.mp hp] at ho'
    exact (hobjs.mem_iff o).mp ho' hdead
  mem_iff o' := by
    by_cases ho' : o' = o
    · simp [ho']
    · simp [ho', hobjs.mem_iff]

omit [Allocator] in
lemma update (hobjs : Holds objs live) (hlive : live o = some ns) :
    Holds objs (Function.update live o (some ns')) where
  nodup := hobjs.nodup
  mem_iff o' := by
    by_cases ho' : o' = o
    · simp [ho', hobjs.mem_iff, hlive]
    · simp [ho', hobjs.mem_iff]

omit [Allocator] in
lemma erase (hobjs : Holds objs live) : Holds (objs.erase o) (Function.update live o none) where
  nodup := hobjs.nodup.erase o
  mem_iff o' := by
    rw [hobjs.nodup.mem_erase_iff]
    by_cases ho' : o' = o
    · simp [ho']
    · simp [ho', hobjs.mem_iff]

omit [Allocator] in
lemma live_of_getElem? (hobjs : Holds objs live) {index : Nat} (hindex : objs[index]? = some o) :
    ∃ ns, live o = some ns :=
  Option.ne_none_iff_exists'.mp ((hobjs.mem_iff o).mp (List.mem_of_getElem? hindex))

end Holds

lemma run_handle (hown : Owned h₀ live bound h) (hobjs : Holds objs live) (hfuel : bound < fuel)
    (op : ObjectOp) :
    ∃ objs' h' calls live', Prog.run exec (handle fuel objs op) h = some (objs', h', calls) ∧
      Owned h₀ live' (bound + 1) h' ∧ Holds objs' live' := by
  cases op with
  | create =>
    obtain ⟨o, h', calls, hrun, rfl, hl, hsame⟩ := (along_createLLCAObject h).run
    have hnew : ∀ o', Allocator.fresh h ∉ cells o' (live o') := fun o' hmem =>
      Allocator.fresh_notMem h (hown.mem hmem)
    have hdead : live (Allocator.fresh h) = none := by
      cases hlive : live (Allocator.fresh h) with
      | none => rfl
      | some ns =>
        refine absurd ?_ (hnew (Allocator.fresh h))
        rw [hlive]
        exact List.mem_cons_self
    refine ⟨objs ++ [Allocator.fresh h], h', calls ++ [],
      Function.update live (Allocator.fresh h) (some []), ?_, hown.change ?_ ?_ ?_ ?_,
      hobjs.push hdead⟩
    · simp only [handle, Prog.run_bind, hrun, Option.bind_some]
      rfl
    · rintro ns ⟨⟩
      exact ⟨Nat.zero_le _, 0, hl⟩
    · rintro p hp
      rw [List.mem_singleton.mp hp]
      exact .inr (Allocator.fresh_notMem h)
    · intro p _ hp
      exact hsame p fun heq => hp (List.mem_singleton.mpr heq)
    · intro p hp
      rw [hdead] at hp
      exact absurd hp List.not_mem_nil
  | on index op =>
    cases hindex : objs[index]? with
    | none => exact ⟨objs, h, [], live, by simp only [handle, hindex]; rfl, hown.mono, hobjs⟩
    | some o =>
      obtain ⟨ns, hlive⟩ := hobjs.live_of_getElem? hindex
      obtain ⟨hshort, len, hl⟩ := hown.lists o ns hlive
      obtain ⟨r, h', calls, hrun, hcall⟩ := (along_perform hl (hshort.trans_lt hfuel) op).run
      rw [List.nil_append] at hcall
      obtain ⟨len', hl', _⟩ := hcall.refines
      refine ⟨objs, h', calls ++ [], Function.update live o (some (nodesAfter (Allocator.fresh h) ns op)), ?_,
        hown.change ?_ ?_ ?_ ?_, hobjs.update hlive⟩
      · simp only [handle, hindex, Prog.run_bind, hrun, Option.bind_some]
        rfl
      · rintro ns' ⟨⟩
        exact ⟨(length_nodesAfter _ ns op).trans (Nat.succ_le_succ hshort), len', hl'⟩
      · intro p hp
        rw [hlive]
        rcases mem_nodesAfter hp with rfl | hp
        · exact .inr (Allocator.fresh_notMem h)
        · exact .inl hp
      · rw [hlive]
        exact hcall.unchanged
      · rw [hlive]
        exact hcall.gone
  | free index =>
    cases hindex : objs[index]? with
    | none => exact ⟨objs, h, [], live, by simp only [handle, hindex]; rfl, hown.mono, hobjs⟩
    | some o =>
      obtain ⟨ns, hlive⟩ := hobjs.live_of_getElem? hindex
      obtain ⟨hshort, len, hl⟩ := hown.lists o ns hlive
      obtain ⟨_, h', calls, hrun, hgone, hsame, _⟩ :=
        (along_llcaRelease hl (hshort.trans_lt hfuel)).run
      refine ⟨objs.erase o, h', calls ++ [], Function.update live o none, ?_, hown.change ?_ ?_ ?_ ?_,
        hobjs.erase⟩
      · simp only [handle, hindex, llcaFree, Prog.run_bind, hrun, Option.bind_some]
        rfl
      · rintro ns' ⟨⟩
      · intro p hp
        exact absurd hp List.not_mem_nil
      · rw [hlive]
        exact fun p hp _ => hsame p hp
      · rw [hlive]
        exact fun p hp _ => hgone p hp

lemma run_handleAll (hown : Owned h₀ live bound h) (hobjs : Holds objs live) (ops : List ObjectOp)
    (hfuel : bound + ops.length < fuel) :
    ∃ objs' h' calls live', Prog.run exec (handleAll fuel objs ops) h = some (objs', h', calls) ∧
      Owned h₀ live' (bound + ops.length) h' ∧ Holds objs' live' := by
  induction ops generalizing h objs live bound with
  | nil => exact ⟨objs, h, [], live, rfl, hown, hobjs⟩
  | cons op ops ih =>
    rw [List.length_cons, Nat.add_comm ops.length, ← Nat.add_assoc] at hfuel ⊢
    obtain ⟨objs₁, h₁, calls₁, live₁, hfirst, hown₁, hobjs₁⟩ :=
      run_handle hown hobjs (show bound < fuel by omega) op
    obtain ⟨objs₂, h₂, calls₂, live₂, hrest, hown₂, hobjs₂⟩ := ih hown₁ hobjs₁ hfuel
    refine ⟨objs₂, h₂, calls₁ ++ calls₂, live₂, ?_, hown₂, hobjs₂⟩
    simp only [handleAll, Prog.run_bind, hfirst, Option.bind_some, hrest]
    rfl

omit [Allocator] in
lemma Owned.restored (hown : Owned h₀ live bound h) (hdead : ∀ o, live o = none) : h = h₀ := by
  refine Finmap.ext_lookup fun p => hown.rest p fun o hp => ?_
  rw [hdead o] at hp
  exact List.not_mem_nil hp

/-- Each function ends, stays within its object and does to the chain what the function on lists
does to the values; an insertion allocates one node, a removal releases the node that it unlinks,
and a release gives back the chain and the object. A run that frees all its lists gives back what
it took. -/
theorem pointers_refine_lists (fuel : Nat) :
    (∀ (h : Heap) (o : Ptr) (ns : List (Ptr × Int64)) (len : UInt64) (op : LlcaOp),
      ListAt h o ns len → ns.length < fuel →
      ∃ r h' calls, Prog.run exec (perform fuel o op) h = some (r, h', calls) ∧
        Performed h o ns len op r h' calls ∧
        ∀ o' ms len', ListAt h o' ms len' → (footprint o ns).Disjoint (footprint o' ms) →
          ListAt h' o' ms len' ∧
          (footprint o (nodesAfter (Allocator.fresh h) ns op)).Disjoint (footprint o' ms)) ∧
    (∀ (h : Heap) (o : Ptr) (ns : List (Ptr × Int64)) (len : UInt64),
      ListAt h o ns len → ns.length < fuel →
      ∃ h' calls, Prog.run exec (llcaRelease fuel o) h = some ((), h', calls) ∧
        (∀ p ∈ footprint o ns, p ∉ h') ∧ (∀ p, p ∉ footprint o ns → h'.lookup p = h.lookup p) ∧
        allocations calls = 0 ∧ frees calls = addrs ns ++ [o]) ∧
    ∀ (h : Heap) (ops : List ObjectOp), ops.length < fuel →
      ∃ objs h' calls, Prog.run exec (handleAll fuel [] ops) h = some (objs, h', calls) ∧
        (objs = [] → h' = h ∧ (frees calls).length = allocations calls) := by
  refine ⟨?_, ?_, ?_⟩
  · intro h o ns len op hl hfuel
    obtain ⟨r, h', calls, hrun, hcall⟩ := (along_perform hl hfuel op).run
    exact ⟨r, h', calls, hrun, hcall, fun o' ms len' => hcall.others⟩
  · intro h o ns len hl hfuel
    obtain ⟨_, h', calls, hrun, hgone, hsame, hcalls⟩ := (along_llcaRelease hl hfuel).run
    rw [List.nil_append] at hcalls
    refine ⟨h', calls, hrun, hgone, hsame, ?_, ?_⟩
    · rw [← allocations_writes, hcalls]
      exact allocations_free _
    · rw [← frees_writes, hcalls]
      exact frees_free _
  · intro h ops hfuel
    obtain ⟨objs, h', calls, live, hrun, hown, hobjs⟩ :=
      run_handleAll (.start h) ⟨List.nodup_nil, by simp⟩ ops (show 0 + _ < fuel by omega)
    refine ⟨objs, h', calls, hrun, ?_⟩
    rintro rfl
    have hdead : ∀ o, live o = none := by
      intro o
      by_contra hlive
      exact List.not_mem_nil ((hobjs.mem_iff o).mpr hlive)
    obtain rfl := hown.restored hdead
    have hbalance := card_run hrun
    exact ⟨rfl, by omega⟩

end Runs

/-- The address above all that are in use. -/
@[reducible]
def bumpAllocator : Allocator where
  fresh h := h.keys.sup id + 1
  fresh_notMem _ hmem :=
    Nat.not_succ_le_self _ (Finset.le_sup (f := id) (Finmap.mem_keys.mpr hmem))
  fresh_ne_nullptr _ := Nat.succ_ne_zero _

/-- The removal of the second of three nodes. -/
theorem pointers_refine_lists_unlink :
    let h : Heap := (((Finmap.singleton 1 (.obj (some 2) (some 3))).insert 2
      (.node (some 3) (some 3))).insert 3 (.node (some 7) (some 4))).insert 4
        (.node (some 9) (some nullptr))
    ∃ r h' calls, Prog.run (@exec bumpAllocator) (perform 4 1 (.remove 7)) h = some (r, h', calls) ∧
      (∃ len, ListAt h' 1 [(2, 3), (4, 9)] len) ∧ frees calls = [3] := by
  intro h
  let _ := bumpAllocator
  have hl : ListAt h 1 [(2, 3), (3, 7), (4, 9)] 3 := by
    refine ⟨⟨2, by decide, rfl, 3, by decide, rfl, 4, by decide, rfl, nullptr, by decide, rfl⟩, ?_⟩
    decide
  obtain ⟨r, h', calls, hrun, hcall, _⟩ :=
    (pointers_refine_lists 4).1 h 1 [(2, 3), (3, 7), (4, 9)] 3 (.remove 7) hl (by decide)
  obtain ⟨len, hlist, _⟩ := hcall.refines
  exact ⟨r, h', calls, hrun, ⟨len, hlist⟩, hcall.frees_eq⟩

end RedPar.Memory
