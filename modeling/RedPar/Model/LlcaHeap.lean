import RedPar.Lib.Program
import RedPar.Model.RedisTypes
import Mathlib.Data.Finmap

/-!
# The pointers of `llca.cpp`

The functions of `llca.cpp` as programs over a heap, in which each allocation, each read and each
write of a field is one call. Memory comes from `RedisModule_Alloc` without contents; a read of a
field that nothing has been written to, or of memory that is not allocated, has no answer. A loop
gets a bound for its iterations, and does not end when it reaches it.
-/

namespace RedPar.Memory
open Interleaved

/-- What is allocated at an address: a `struct llca_node` or a `struct llca_obj`. -/
inductive Cell
  | node (value : Option Int64) (next : Option Ptr)
  | obj (head : Option Ptr) (len : Option UInt64)
deriving DecidableEq

abbrev Heap := Finmap fun _ : Ptr => Cell

/-- `RedisModule_Alloc`, a parameter: it returns an address that is not in use. -/
class Allocator where
  fresh : Heap → Ptr
  fresh_notMem : ∀ h, fresh h ∉ h
  fresh_ne_nullptr : ∀ h, fresh h ≠ nullptr

inductive Access
  /-- `RedisModule_Alloc(sizeof(llca_node))` -/
  | allocNode
  /-- `RedisModule_Alloc(sizeof(llca_obj))` -/
  | allocObj
  /-- `RedisModule_Free` -/
  | free (ptr : Ptr)
  | loadValue (node : Ptr)
  | storeValue (node : Ptr) (value : Int64)
  | loadNext (node : Ptr)
  | storeNext (node : Ptr) (next : Ptr)
  | loadHead (o : Ptr)
  | storeHead (o : Ptr) (head : Ptr)
  | loadLen (o : Ptr)
  | storeLen (o : Ptr) (len : UInt64)
  /-- A loop that does not end. -/
  | diverge
deriving DecidableEq, Repr

abbrev Access.Res : Access → Type
  | .allocNode | .allocObj | .loadNext _ | .loadHead _ => Ptr
  | .loadValue _ => Int64
  | .loadLen _ => UInt64
  | .diverge => Empty
  | _ => Unit

abbrev HeapM := Prog Access Access.Res

namespace Heap

/-- The node at an address. -/
def nodeAt (h : Heap) (ptr : Ptr) : Option (Option Int64 × Option Ptr) :=
  if ptr = nullptr then none
  else
    match h.lookup ptr with
    | some (.node value next) => some (value, next)
    | _ => none

/-- The object at an address. -/
def objAt (h : Heap) (ptr : Ptr) : Option (Option Ptr × Option UInt64) :=
  if ptr = nullptr then none
  else
    match h.lookup ptr with
    | some (.obj head len) => some (head, len)
    | _ => none

end Heap

variable [Allocator]

def exec : Exec Access Access.Res Heap
  | .allocNode, h => some (Allocator.fresh h, h.insert (Allocator.fresh h) (.node none none))
  | .allocObj, h => some (Allocator.fresh h, h.insert (Allocator.fresh h) (.obj none none))
  | .free ptr, h => if ptr ≠ nullptr ∧ ptr ∈ h then some ((), h.erase ptr) else none
  | .loadValue node, h => (h.nodeAt node).bind fun c => c.1.map fun value => (value, h)
  | .storeValue node value, h =>
    (h.nodeAt node).map fun c => ((), h.insert node (.node (some value) c.2))
  | .loadNext node, h => (h.nodeAt node).bind fun c => c.2.map fun next => (next, h)
  | .storeNext node next, h =>
    (h.nodeAt node).map fun c => ((), h.insert node (.node c.1 (some next)))
  | .loadHead o, h => (h.objAt o).bind fun c => c.1.map fun head => (head, h)
  | .storeHead o head, h => (h.objAt o).map fun c => ((), h.insert o (.obj (some head) c.2))
  | .loadLen o, h => (h.objAt o).bind fun c => c.2.map fun len => (len, h)
  | .storeLen o len, h => (h.objAt o).map fun c => ((), h.insert o (.obj c.1 (some len)))
  | .diverge, _ => none

omit [Allocator]

abbrev access (c : Access) : HeapM c.Res := Prog.lift c

abbrev allocNode : HeapM Ptr := access .allocNode
abbrev allocObj : HeapM Ptr := access .allocObj
abbrev free (ptr : Ptr) : HeapM Unit := access (.free ptr)
abbrev loadValue (node : Ptr) : HeapM Int64 := access (.loadValue node)
abbrev storeValue (node : Ptr) (value : Int64) : HeapM Unit := access (.storeValue node value)
abbrev loadNext (node : Ptr) : HeapM Ptr := access (.loadNext node)
abbrev storeNext (node next : Ptr) : HeapM Unit := access (.storeNext node next)
abbrev loadHead (o : Ptr) : HeapM Ptr := access (.loadHead o)
abbrev storeHead (o head : Ptr) : HeapM Unit := access (.storeHead o head)
abbrev loadLen (o : Ptr) : HeapM UInt64 := access (.loadLen o)
abbrev storeLen (o : Ptr) (len : UInt64) : HeapM Unit := access (.storeLen o len)

def diverge {α : Type} : HeapM α := .call .diverge Empty.elim

def createLLCAObject : HeapM Ptr := do
  let o ← allocObj
  storeHead o nullptr
  storeLen o 0
  return o

/-- `while(next && next->value < val)`: the last `prev` and `next`. -/
def llcaInsertLoop (val : Int64) : Nat → Ptr → Ptr → HeapM (Ptr × Ptr)
  | 0, _, _ => diverge
  | fuel + 1, prev, next => do
    if next = nullptr then return (prev, next)
    else if (← loadValue next) < val then llcaInsertLoop val fuel next (← loadNext next)
    else return (prev, next)

def llcaInsert (fuel : Nat) (o : Ptr) (val : Int64) : HeapM Unit := do
  let next ← loadHead o
  let (prev, next) ← llcaInsertLoop val fuel nullptr next
  let newnode ← allocNode
  storeValue newnode val
  storeNext newnode next
  if prev ≠ nullptr then storeNext prev newnode else storeHead o newnode
  storeLen o ((← loadLen o) + 1)

/-- `while(cur->next != NULL && cur->value != val)`: the last `prev` and `cur`. -/
def llcaRemoveLoop (val : Int64) : Nat → Ptr → Ptr → HeapM (Ptr × Ptr)
  | 0, _, _ => diverge
  | fuel + 1, prev, cur => do
    if (← loadNext cur) = nullptr then return (prev, cur)
    else if (← loadValue cur) = val then return (prev, cur)
    else llcaRemoveLoop val fuel cur (← loadNext cur)

def llcaRemove (fuel : Nat) (o : Ptr) (val : Int64) : HeapM Bool := do
  if (← loadHead o) = nullptr then return false
  else
    let cur ← loadHead o
    let prev := cur
    if (← loadValue cur) = val then
      storeHead o (← loadNext cur)
      free cur
      return true
    else
      let (prev, cur) ← llcaRemoveLoop val fuel prev cur
      if (← loadNext cur) = nullptr then
        if (← loadValue cur) = val then
          storeNext prev nullptr
          free cur
          return true
        else return false
      else
        storeNext prev (← loadNext cur)
        free cur
        return true

def llcaContainsLoop (val : Int64) : Nat → Ptr → HeapM Bool
  | 0, _ => diverge
  | fuel + 1, cur => do
    if cur = nullptr then return false
    else if (← loadValue cur) = val then return true
    else llcaContainsLoop val fuel (← loadNext cur)

def llcaContains (fuel : Nat) (o : Ptr) (val : Int64) : HeapM Bool := do
  llcaContainsLoop val fuel (← loadHead o)

def llcaReleaseLoop : Nat → Ptr → HeapM Unit
  | 0, _ => diverge
  | fuel + 1, cur => do
    if cur = nullptr then return ()
    else
      let next ← loadNext cur
      free cur
      llcaReleaseLoop fuel next

def llcaRelease (fuel : Nat) (o : Ptr) : HeapM Unit := do
  llcaReleaseLoop fuel (← loadHead o)
  free o

/-- The type's free callback. -/
def llcaFree (fuel : Nat) (value : Ptr) : HeapM Unit := llcaRelease fuel value

def llcaRdbSaveLoop : Nat → List RdbField → Ptr → HeapM (List RdbField)
  | 0, _, _ => diverge
  | fuel + 1, rdb, node => do
    if node = nullptr then return rdb
    else
      let rdb := saveSigned rdb (← loadValue node)
      llcaRdbSaveLoop fuel rdb (← loadNext node)

def llcaRdbSave (fuel : Nat) (rdb : List RdbField) (value : Ptr) : HeapM (List RdbField) := do
  let node ← loadHead value
  let rdb := saveUnsigned rdb (← loadLen value)
  llcaRdbSaveLoop fuel rdb node

end RedPar.Memory
