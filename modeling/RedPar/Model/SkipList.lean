import RedPar.Lib.Program
import Mathlib.Data.Finset.Erase
import Mathlib.Data.Finset.Insert
import Mathlib.Order.Compare

/-!
# The lock-free skip list

`SkipListSet` of libcds, which holds the values of an `llca_conc_obj`: `insert`, `erase` and
`contains` with the functions that they call, over keys `K`. An operation is a program over
`Access`: each atomic load, store or read-modify-write of a link or a counter is one step, and
`Heap.exec` says what it does. An access to a node that has been deleted or past its tower, a
counter that would become negative, a second `retire` of a node and a failing `assert` have no
answer.

The loops of one operation take at most `fuel` turns; an operation that runs out of fuel stops
where it is, so every beginning of its run is one for enough fuel. Retired nodes stay where they
are: a hazard pointer's `protect` is a load.
-/

namespace RedPar.SkipList
open Interleaved

/-- `c_nMaxHeight` -/
def maxHeight : Nat := 32

/-- `c_nMinHeight` -/
def minHeight : Nat := 5

abbrev NodePtr := Nat

/-- `m_Head.head()` -/
def head : NodePtr := 0

/-- A link with its deletion mark; `none` is `nullptr`. -/
structure MarkedPtr where
  ptr : Option NodePtr
  bits : Bool
deriving DecidableEq, Repr

namespace MarkedPtr

/-- `marked_ptr()` -/
def null : MarkedPtr := ⟨none, false⟩

/-- `marked_ptr( p )` -/
def of (p : NodePtr) : MarkedPtr := ⟨some p, false⟩

/-- `p | 1` -/
def marked (p : MarkedPtr) : MarkedPtr := ⟨p.ptr, true⟩

end MarkedPtr

/-- What never changes in a node: its value, which the head does not have, and its height. -/
structure Node (K : Type) where
  value : Option K
  height : Nat
deriving DecidableEq, Repr

/-- The nodes with their towers of links and `m_nUnlink`, and `m_nHeight`. Addresses from `fresh`
on have never been allocated. -/
structure Heap (K : Type) where
  node : NodePtr → Option (Node K)
  next : NodePtr → Nat → MarkedPtr
  unlink : NodePtr → Nat
  nHeight : Nat
  fresh : NodePtr
  retired : List NodePtr

inductive Access (K : Type)
  /-- `node_allocator().New( nHeight, v )` -/
  | new (nHeight : Nat) (v : K)
  /-- `node_allocator().Delete( p )` -/
  | delete (p : NodePtr)
  | value (p : NodePtr)
  | height (p : NodePtr)
  | load (p : NodePtr) (nLevel : Nat)
  | store (p : NodePtr) (nLevel : Nat) (v : MarkedPtr)
  | compareExchange (p : NodePtr) (nLevel : Nat) (expected desired : MarkedPtr)
  | isUpperLevel (p : NodePtr) (nLevel : Nat)
  | levelUnlinked (p : NodePtr) (nCount : Nat)
  | loadHeight
  | exchangeHeight (expected desired : Nat)
  | retire (p : NodePtr)
  | assert (holds : Bool)
  /-- `m_Stat.onEraseContention()` -/
  | onEraseContention

/-- A compare-exchange returns whether it succeeded, and the value that it found. -/
abbrev Access.Res {K : Type} : Access K → Type
  | .new _ _ => NodePtr
  | .value _ => K
  | .height _ => Nat
  | .load _ _ => MarkedPtr
  | .compareExchange _ _ _ _ => Bool × MarkedPtr
  | .isUpperLevel _ _ => Bool
  | .levelUnlinked _ _ => Bool
  | .loadHeight => Nat
  | _ => Unit

abbrev SkipM (K : Type) := Prog (Access K) Access.Res

variable {K : Type}

namespace Heap

/-- The empty set. -/
def init : Heap K where
  node := Function.update (fun _ => none) head (some ⟨none, maxHeight⟩)
  next _ _ := .null
  unlink := Function.update (fun _ => 0) head maxHeight
  nHeight := minHeight
  fresh := head + 1
  retired := []

/-- `assert( nLevel < height())` for a node that exists. -/
def hasLevel (h : Heap K) (p : NodePtr) (nLevel : Nat) : Bool :=
  (h.node p).any fun n => nLevel < n.height

def setNext (h : Heap K) (p : NodePtr) (nLevel : Nat) (v : MarkedPtr) : Heap K :=
  { h with next := Function.update h.next p (Function.update (h.next p) nLevel v) }

/-- What one access answers, and how it changes the heap. -/
def exec : Exec (Access K) Access.Res (Heap K)
  | .new nHeight v, h =>
    some (h.fresh, { h with
      node := Function.update h.node h.fresh (some ⟨some v, nHeight⟩)
      unlink := Function.update h.unlink h.fresh nHeight
      fresh := h.fresh + 1 })
  | .delete p, h =>
    if (h.node p).isSome then some ((), { h with node := Function.update h.node p none }) else none
  | .value p, h => ((h.node p).bind Node.value).map fun v => (v, h)
  | .height p, h => (h.node p).map fun n => (n.height, h)
  | .load p nLevel, h => if h.hasLevel p nLevel then some (h.next p nLevel, h) else none
  | .store p nLevel v, h => if h.hasLevel p nLevel then some ((), h.setNext p nLevel v) else none
  | .compareExchange p nLevel expected desired, h =>
    if h.hasLevel p nLevel then
      if h.next p nLevel = expected then some ((true, expected), h.setNext p nLevel desired)
      else some ((false, h.next p nLevel), h)
    else none
  | .isUpperLevel p nLevel, h => (h.node p).map fun _ => (decide (h.unlink p = nLevel + 1), h)
  | .levelUnlinked p nCount, h =>
    if (h.node p).isSome ∧ nCount ≤ h.unlink p then
      some (decide (h.unlink p = 1),
        { h with unlink := Function.update h.unlink p (h.unlink p - nCount) })
    else none
  | .loadHeight, h => some (h.nHeight, h)
  | .exchangeHeight expected desired, h =>
    if h.nHeight = expected then some ((), { h with nHeight := desired }) else some ((), h)
  | .retire p, h =>
    if (h.node p).isSome ∧ p ∉ h.retired then some ((), { h with retired := p :: h.retired })
    else none
  | .assert holds, h => if holds then some ((), h) else none
  | .onEraseContention, h => some ((), h)

end Heap

abbrev access (c : Access K) : SkipM K c.Res := Prog.lift c

abbrev new (nHeight : Nat) (v : K) : SkipM K NodePtr := access (.new nHeight v)
abbrev delete (p : NodePtr) : SkipM K Unit := access (.delete p)
abbrev value (p : NodePtr) : SkipM K K := access (.value p)
abbrev height (p : NodePtr) : SkipM K Nat := access (.height p)
abbrev load (p : NodePtr) (nLevel : Nat) : SkipM K MarkedPtr := access (.load p nLevel)
abbrev store (p : NodePtr) (nLevel : Nat) (v : MarkedPtr) : SkipM K Unit :=
  access (.store p nLevel v)
abbrev compareExchange (p : NodePtr) (nLevel : Nat) (expected desired : MarkedPtr) :
    SkipM K (Bool × MarkedPtr) := access (.compareExchange p nLevel expected desired)
abbrev isUpperLevel (p : NodePtr) (nLevel : Nat) : SkipM K Bool := access (.isUpperLevel p nLevel)
abbrev levelUnlinked (p : NodePtr) (nCount : Nat) : SkipM K Bool :=
  access (.levelUnlinked p nCount)
abbrev loadHeight : SkipM K Nat := access .loadHeight
abbrev exchangeHeight (expected desired : Nat) : SkipM K Unit :=
  access (.exchangeHeight expected desired)
abbrev retire (p : NodePtr) : SkipM K Unit := access (.retire p)
abbrev assert (holds : Bool) : SkipM K Unit := access (.assert holds)
abbrev onEraseContention : SkipM K Unit := access .onEraseContention

/-! ## Searching -/

/-- `struct position` -/
structure Position where
  pPrev : Nat → NodePtr
  pSucc : Nat → Option NodePtr
  pCur : Option NodePtr

namespace Position

/-- Before a search has written to it. -/
def unset : Position := ⟨fun _ => head, fun _ => none, none⟩

/-- `pos.pPrev[nLevel] = pPred; pos.pSucc[nLevel] = pCur.ptr();` -/
def set (pos : Position) (nLevel : Nat) (pPred : NodePtr) (pCur : Option NodePtr) : Position :=
  { pos with
    pPrev := Function.update pos.pPrev nLevel pPred
    pSucc := Function.update pos.pSucc nLevel pCur }

end Position

def helpRemove (nLevel : Nat) (pPred pCur : NodePtr) : SkipM K Unit := do
  if ← isUpperLevel pCur nLevel then
    let pSucc ← load pCur nLevel
    if pSucc.bits then
      let cas ← compareExchange pPred nLevel (.of pCur) ⟨pSucc.ptr, false⟩
      if cas.1 then
        if ← levelUnlinked pCur 1 then retire pCur
        else return ()
      else return ()
    else return ()
  else return ()

variable [LinearOrder K]

/-- How the loops of a search end. -/
inductive Search
  /-- The node that is being inserted is marked. -/
  | removing
  /-- Stopped at an equal key. -/
  | found (pCur : NodePtr)
  /-- All levels are done. -/
  | bottom (pCur : Option NodePtr) (nCmp : Ordering)

/-- The loops of `find_position` and of `renew_insert_position`, with `nLevels` levels left. They
differ in what they do at the mark of `pNode` and at an equal key. -/
def searchLoop (val : K) (pNode : Option NodePtr) (bStopIfFound : Bool) :
    Nat → Nat → NodePtr → Option NodePtr → Ordering → Position →
      SkipM K (Option (Search × Position))
  | _, 0, _, pCur, nCmp, pos => return some (.bottom pCur nCmp, pos)
  | 0, _ + 1, _, _, _, _ => return none
  | fuel + 1, nLevel + 1, pPred, _, nCmp, pos => do
    let pCur ← load pPred nLevel
    -- pPred is logically deleted
    if pCur.bits then searchLoop val pNode bStopIfFound fuel maxHeight head none .gt pos
    else
      match pCur.ptr with
      | none =>
        searchLoop val pNode bStopIfFound fuel nLevel pPred none nCmp (pos.set nLevel pPred none)
      | some cur =>
        let pSucc ← load cur nLevel
        let again ← load pPred nLevel
        if again ≠ .of cur then
          searchLoop val pNode bStopIfFound fuel maxHeight head none .gt pos
        else if pSucc.bits then
          if pNode = some cur then return some (.removing, pos)
          else
            helpRemove nLevel pPred cur
            searchLoop val pNode bStopIfFound fuel maxHeight head none .gt pos
        else
          let nCmp := cmp (← value cur) val
          if nCmp = .lt then
            searchLoop val pNode bStopIfFound fuel (nLevel + 1) cur (some cur) nCmp pos
          else if nCmp = .eq ∧ bStopIfFound then return some (.found cur, pos)
          else
            searchLoop val pNode bStopIfFound fuel nLevel pPred (some cur) nCmp
              (pos.set nLevel pPred (some cur))

def findPosition (fuel : Nat) (val : K) (pos : Position) (bStopIfFound : Bool) :
    SkipM K (Option (Bool × Position)) := do
  match ← searchLoop val none bStopIfFound fuel maxHeight head none .gt pos with
  | none => return none
  | some (.removing, pos) => return some (false, pos)
  | some (.found pCur, pos) => return some (true, { pos with pCur := some pCur })
  | some (.bottom pCur nCmp, pos) =>
    if nCmp ≠ .eq then return some (false, pos)
    else return some (pCur.isSome, { pos with pCur })

def renewInsertPosition (fuel : Nat) (val : K) (pNode : NodePtr) (pos : Position) :
    SkipM K (Option (Bool × Position)) := do
  match ← searchLoop val (some pNode) false fuel maxHeight head none .gt pos with
  | none => return none
  | some (.removing, pos) => return some (false, pos)
  | some (.found _, pos) => return some (true, pos)
  | some (.bottom _ nCmp, pos) => return some (nCmp = .eq, pos)

/-! ## Insertion -/

/-- `pNode->next( nLevel ).store( marked_node_ptr())` from `nLevel` up, `count` times. -/
def clearLevels (pNode : NodePtr) (nLevel : Nat) : Nat → SkipM K Unit
  | 0 => return ()
  | count + 1 => do
    store pNode nLevel .null
    clearLevels pNode (nLevel + 1) count

/-- The node has been removed while it was inserted: it stays linked below `nLevel`. -/
def stopInserting (fuel : Nat) (val : K) (pNode : NodePtr) (nHeight nLevel : Nat)
    (pos : Position) : SkipM K (Option Bool) := do
  assert !(← levelUnlinked pNode (nHeight - nLevel))
  match ← findPosition fuel val pos false with
  | none => return none
  | some _ => return some true

/-- The loops over the levels from `nLevel` up; `p` is what `pNode->next( nLevel )` holds. -/
def linkLevels (val : K) (pNode : NodePtr) (nHeight : Nat) :
    Nat → Nat → MarkedPtr → Position → SkipM K (Option Bool)
  | 0, _, _, _ => return none
  | fuel + 1, nLevel, p, pos => do
    if nLevel < nHeight then
      let pSucc : MarkedPtr := ⟨pos.pSucc nLevel, false⟩
      let own ← compareExchange pNode nLevel p pSucc
      if !own.1 then
        assert own.2.bits
        stopInserting fuel val pNode nHeight nLevel pos
      else
        let cas ← compareExchange (pos.pPrev nLevel) nLevel pSucc (.of pNode)
        if cas.1 then linkLevels val pNode nHeight fuel (nLevel + 1) .null pos
        else
          match ← renewInsertPosition fuel val pNode pos with
          | none => return none
          | some (true, pos) => linkLevels val pNode nHeight fuel nLevel pSucc pos
          | some (false, pos) => stopInserting fuel val pNode nHeight nLevel pos
    else return some true

def insertAtPosition (fuel : Nat) (val : K) (pNode : NodePtr) (pos : Position) :
    SkipM K (Option Bool) := do
  let nHeight ← height pNode
  clearLevels pNode 1 (nHeight - 1)
  let p : MarkedPtr := ⟨pos.pSucc 0, false⟩
  store pNode 0 p
  let cas ← compareExchange (pos.pPrev 0) 0 p (.of pNode)
  if !cas.1 then return some false
  else linkLevels val pNode nHeight fuel 1 .null pos

def increaseHeight (nHeight : Nat) : SkipM K Unit := do
  let nCur ← loadHeight
  if nCur < nHeight then exchangeHeight nCur nHeight
  else return ()

/-- The loop of the intrusive `insert`. -/
def insertLoop (val : K) (pNode : NodePtr) (nHeight : Nat) :
    Nat → Position → SkipM K (Option Bool)
  | 0, _ => return none
  | fuel + 1, pos => do
    match ← findPosition fuel val pos true with
    | none => return none
    | some (true, _) => return some false
    | some (false, pos) =>
      match ← insertAtPosition fuel val pNode pos with
      | none => return none
      | some false => insertLoop val pNode nHeight fuel pos
      | some true =>
        increaseHeight nHeight
        return some true

/-- `insert` of the container; `random` is what `m_RandomLevelGen()` returns. -/
def insert (fuel : Nat) (val : K) (random : Fin maxHeight) : SkipM K (Option Bool) := do
  let pNode ← new (random.val + 1) val
  match ← insertLoop val pNode (random.val + 1) fuel .unset with
  | none => return none
  | some true => return some true
  | some false =>
    delete pNode
    return some false

/-! ## Deletion -/

/-- The loop that marks one level. -/
def markLevel (pDel : NodePtr) (nLevel : Nat) : Nat → MarkedPtr → SkipM K (Option Unit)
  | 0, _ => return none
  | fuel + 1, pSucc => do
    let cas ← compareExchange pDel nLevel pSucc pSucc.marked
    if cas.1 || cas.2.bits then return some ()
    else markLevel pDel nLevel fuel cas.2

/-- Marks the levels from `nLevel` down to 1. -/
def markLevels (fuel : Nat) (pDel : NodePtr) : Nat → SkipM K (Option Unit)
  | 0 => return some ()
  | nLevel + 1 => do
    let pSucc ← load pDel (nLevel + 1)
    if pSucc.bits then markLevels fuel pDel nLevel
    else
      match ← markLevel pDel (nLevel + 1) fuel pSucc with
      | none => return none
      | some () => markLevels fuel pDel nLevel

/-- The fast erase, with `nLevels` levels left; the slow one is a search. -/
def unlinkLevels (fuel : Nat) (val : K) (pDel : NodePtr) (pos : Position) :
    Nat → SkipM K (Option Bool)
  | 0 => do
    retire pDel
    return some true
  | nLevel + 1 => do
    let pSucc ← load pDel nLevel
    let cas ← compareExchange (pos.pPrev nLevel) nLevel (.of pDel) ⟨pSucc.ptr, false⟩
    if cas.1 then
      let _ ← levelUnlinked pDel 1
      unlinkLevels fuel val pDel pos nLevel
    else
      match ← findPosition fuel val pos false with
      | none => return none
      | some (true, pos) =>
        assert (pos.pCur ≠ some pDel)
        return some true
      | some (false, _) => return some true

/-- The loop that marks level 0. -/
def markBottom (val : K) (pDel : NodePtr) (nHeight : Nat) (pos : Position) :
    Nat → MarkedPtr → SkipM K (Option Bool)
  | 0, _ => return none
  | fuel + 1, p => do
    let cas ← compareExchange pDel 0 p p.marked
    if cas.1 then unlinkLevels fuel val pDel pos nHeight
    else if cas.2.bits then
      onEraseContention
      return some false
    else markBottom val pDel nHeight pos fuel cas.2

def tryRemoveAt (fuel : Nat) (pDel : NodePtr) (pos : Position) : SkipM K (Option Bool) := do
  let nHeight ← height pDel
  match ← markLevels fuel pDel (nHeight - 1) with
  | none => return none
  | some () =>
    let p ← load pDel 0
    markBottom (← value pDel) pDel nHeight pos fuel ⟨p.ptr, false⟩

def erase (fuel : Nat) (val : K) : SkipM K (Option Bool) := do
  match ← findPosition fuel val .unset false with
  | none => return none
  | some (false, _) => return some false
  | some (true, pos) =>
    match pos.pCur with
    | none =>
      assert false
      return none
    | some pDel =>
      assert (cmp (← value pDel) val = .eq)
      tryRemoveAt fuel pDel pos

/-! ## Lookup -/

/-- `find_fastpath_found`, `find_fastpath_not_found` or `find_fastpath_abort`. -/
inductive FindFastpathResult
  | found | notFound | abort
deriving DecidableEq, Repr

/-- The loop on one level: the node to go down from, or the result. -/
def fastpathLevel (val : K) (nLevel : Nat) : Nat → NodePtr → MarkedPtr →
    SkipM K (Option (NodePtr ⊕ FindFastpathResult))
  | 0, _, _ => return none
  | fuel + 1, pPred, pCur => do
    if pCur.bits then return some (.inr .abort)
    else
      match pCur.ptr with
      | none => return some (.inl pPred)
      | some cur =>
        let nCmp := cmp (← value cur) val
        if nCmp = .lt then
          let pCur ← load cur nLevel
          fastpathLevel val nLevel fuel cur pCur
        else if nCmp = .eq then return some (.inr .found)
        else return some (.inl pPred)

/-- The loop over the levels, from `nLevels - 1` down. -/
def fastpathLevels (fuel : Nat) (val : K) : Nat → NodePtr → SkipM K (Option FindFastpathResult)
  | 0, _ => return some .notFound
  | nLevel + 1, pPred => do
    let pCur ← load pPred nLevel
    match ← fastpathLevel val nLevel fuel pPred pCur with
    | none => return none
    | some (.inl pPred) => fastpathLevels fuel val nLevel pPred
    | some (.inr result) => return some result

/-- The attempts that are left; a link that is marked ends one. -/
def findFastpath (fuel : Nat) (val : K) : Nat → SkipM K (Option FindFastpathResult)
  | 0 => return some .abort
  | attempts + 1 => do
    let nHeight ← loadHeight
    match ← fastpathLevels fuel val nHeight head with
    | some .abort => findFastpath fuel val attempts
    | result => return result

def findSlowpath (fuel : Nat) (val : K) : SkipM K (Option Bool) := do
  match ← findPosition fuel val .unset true with
  | none => return none
  | some (false, _) => return some false
  | some (true, pos) =>
    match pos.pCur with
    | none =>
      assert false
      return none
    | some pCur =>
      assert (cmp (← value pCur) val = .eq)
      return some true

/-- `find_with_` -/
def contains (fuel : Nat) (val : K) : SkipM K (Option Bool) := do
  match ← findFastpath fuel val 4 with
  | none => return none
  | some .found => return some true
  | some .notFound => return some false
  | some .abort => findSlowpath fuel val

inductive Op (K : Type)
  | insert (val : K) (random : Fin maxHeight)
  | erase (val : K)
  | contains (val : K)
deriving DecidableEq

namespace Op

def run (fuel : Nat) : Op K → SkipM K (Option Bool)
  | insert val random => SkipList.insert fuel val random
  | erase val => SkipList.erase fuel val
  | contains val => SkipList.contains fuel val

/-- The operation on a set. -/
def spec : Op K → Finset K → Bool × Finset K
  | insert val _, s => (decide (val ∉ s), Insert.insert val s)
  | erase val, s => (decide (val ∈ s), s.erase val)
  | contains val, s => (decide (val ∈ s), s)

end Op

/-- What can be observed of a run; operations are told apart by their numbers. -/
inductive Entry (K : Type)
  | call (id : Nat) (op : Op K)
  | ret (id : Nat) (r : Bool)
  | contention (id : Nat)
deriving DecidableEq

/-- An operation and what is left of it. -/
structure Running (K : Type) where
  id : Nat
  op : Op K
  rest : SkipM K (Option Bool)

/-- Threads `T` that work on one set. -/
structure System (T K : Type) where
  heap : Heap K
  procs : T → Option (Running K)
  history : List (Entry K)
  nextId : Nat

/-- A thread calls an operation, or takes its next step. -/
inductive Label (T K : Type)
  | call (t : T) (op : Op K) (fuel : Nat)
  | step (t : T)

/-- What an access adds to the history. -/
def Access.entries (id : Nat) : Access K → List (Entry K)
  | .onEraseContention => [.contention id]
  | _ => []

namespace System

variable {T : Type} [DecidableEq T]

def init : System T K := ⟨.init, fun _ => none, [], 0⟩

def step (s : System T K) : Label T K → Option (System T K)
  | .call t op fuel =>
    match s.procs t with
    | some _ => none
    | none =>
      some { s with
        procs := Function.update s.procs t (some ⟨s.nextId, op, op.run fuel⟩)
        history := s.history ++ [.call s.nextId op]
        nextId := s.nextId + 1 }
  | .step t =>
    match s.procs t with
    | none => none
    -- out of fuel
    | some ⟨_, _, .pure none⟩ => none
    | some ⟨id, _, .pure (some r)⟩ =>
      some { s with
        procs := Function.update s.procs t none
        history := s.history ++ [.ret id r] }
    | some ⟨id, op, .call c k⟩ => do
      let (r, heap) ← s.heap.exec c
      some { s with
        heap
        procs := Function.update s.procs t (some ⟨id, op, k r⟩)
        history := s.history ++ c.entries id }

end System

end RedPar.SkipList
