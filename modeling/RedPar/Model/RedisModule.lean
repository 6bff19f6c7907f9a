import RedPar.Lib.Program
import RedPar.Model.Llca
import Mathlib.Data.Finset.Insert
import Mathlib.Data.Finset.Erase

/-!
# The calls of a command body

A command body is a program over `Call`: the calls of the module API that it makes, the
whole-list functions of `llca.cpp`, and the operations of the skip-list set. Each call is one
step. `Store.exec` says what it does to the keyspace and to the allocated objects; a call that
would read past `argv` or use an object that does not exist has no answer.
-/

namespace RedPar
open Interleaved

/-- `llca_conc_obj`: the skip list behaves as a set. -/
abbrev LlcaConcObj := Finset Int64

inductive Call
  | autoMemory
  | threadSafeContextLock
  | threadSafeContextUnlock
  | argv (i : Nat)
  | openKey (keyname : RedisModuleString)
  | keyType (kp : RedisModuleKey)
  | moduleTypeGetType (kp : RedisModuleKey)
  | moduleTypeGetValue (kp : RedisModuleKey)
  | moduleTypeSetValue (kp : RedisModuleKey) (mt : RedisModuleType) (value : Ptr)
  | deleteKey (kp : RedisModuleKey)
  | createLLCAObject
  | llcaInsert (o : Ptr) (val : Int64)
  | llcaRemove (o : Ptr) (val : Int64)
  | llcaContains (o : Ptr) (val : Int64)
  /-- `RedisModule_Alloc(sizeof(llca_conc_obj))` -/
  | alloc
  /-- The placement `new` of an `llca_conc_obj`. -/
  | constructConc (ll : Ptr)
  /-- `ll->sl.~SkipListSet_impl()` -/
  | destroyConc (ll : Ptr)
  /-- `RedisModule_Free` -/
  | free (ptr : Ptr)
  | slInsert (ll : Ptr) (val : Int64)
  | slErase (ll : Ptr) (val : Int64)
  | slContains (ll : Ptr) (val : Int64)
  /-- The `RedisModule_ReplyWith` calls. -/
  | reply (r : Reply)
  | closeKey (kp : RedisModuleKey)
  | replicate (cmdname : String) (args : List RedisModuleString)
  | replicateVerbatim
deriving DecidableEq, Repr

abbrev Call.Res : Call → Type
  | .argv _ => RedisModuleString
  | .openKey _ => RedisModuleKey
  | .keyType _ => KeyType
  | .moduleTypeGetType _ => Option RedisModuleType
  | .moduleTypeGetValue _ => Ptr
  | .createLLCAObject => Ptr
  | .llcaRemove _ _ => Bool
  | .llcaContains _ _ => Bool
  | .alloc => Ptr
  | .slInsert _ _ => Bool
  | .slErase _ _ => Bool
  | .slContains _ _ => Bool
  | _ => Unit

/-- Command bodies. -/
abbrev RedisM := Prog Call Call.Res

/-- What stands at an allocated address. -/
inductive Obj
  | raw
  | llca (o : LlcaObj)
  | llcaConc (sl : LlcaConcObj)
deriving DecidableEq

/-- The keyspace and the objects of the two data types. Addresses from `next` on have never
been allocated; an address below it without an object has been freed. -/
structure Store where
  keyspace : RedisModuleString → Option Value
  heap : Ptr → Option Obj
  next : Ptr

namespace Store

/-- No keys and no objects. -/
def empty : Store := ⟨fun _ => none, fun _ => none, nullptr + 1⟩

def setObj (st : Store) (ptr : Ptr) (obj : Option Obj) : Store :=
  { st with heap := Function.update st.heap ptr obj }

def setKey (st : Store) (name : RedisModuleString) (value : Option Value) : Store :=
  { st with keyspace := Function.update st.keyspace name value }

/-- Allocation at a fresh address. -/
def allocObj (st : Store) (obj : Obj) : Store :=
  { st with heap := Function.update st.heap st.next (some obj), next := st.next + 1 }

/-- The list at an address. -/
def llcaAt (st : Store) (ptr : Ptr) : Option LlcaObj :=
  match st.heap ptr with
  | some (.llca o) => some o
  | _ => none

/-- The set at an address. -/
def concAt (st : Store) (ptr : Ptr) : Option LlcaConcObj :=
  match st.heap ptr with
  | some (.llcaConc sl) => some sl
  | _ => none

/-- The free callbacks: `llca_free` releases the list, `llca_conc_free` does nothing. -/
def freeValue (st : Store) : Value → Option Store
  | .module .llca ptr => (st.llcaAt ptr).map fun _ => st.setObj ptr none
  | .module .llcaConc _ => some st
  | .module (.foreign _) _ => some st
  | .native _ _ => some st

/-- Removes the binding of a key and frees its value. -/
def dbDelete (st : Store) (name : RedisModuleString) : Option Store :=
  match st.keyspace name with
  | none => some st
  | some value => (st.freeValue value).map (·.setKey name none)

/-- Replaces whatever the key holds. -/
def dbOverwrite (st : Store) (name : RedisModuleString) (value : Value) : Option Store :=
  (st.dbDelete name).map (·.setKey name (some value))

/-- The effect of one call on the store, for an event with the arguments `argv`. -/
def exec (argv : List RedisModuleString) : Exec Call Call.Res Store
  | .autoMemory, st => some ((), st)
  | .threadSafeContextLock, st => some ((), st)
  | .threadSafeContextUnlock, st => some ((), st)
  | .argv i, st => argv[i]?.map fun arg => (arg, st)
  | .openKey keyname, st => some (⟨keyname, st.keyspace keyname⟩, st)
  | .keyType kp, st => some (kp.keyType, st)
  | .moduleTypeGetType kp, st => some (kp.moduleType, st)
  | .moduleTypeGetValue kp, st => some (kp.moduleValue, st)
  | .moduleTypeSetValue kp mt value, st =>
    (st.dbOverwrite kp.name (.module mt value)).map fun st => ((), st)
  | .deleteKey kp, st =>
    if kp.value = none then some ((), st) else (st.dbDelete kp.name).map fun st => ((), st)
  | .createLLCAObject, st => some (st.next, st.allocObj (.llca createLLCAObject))
  | .llcaInsert o val, st =>
    (st.llcaAt o).map fun ll => ((), st.setObj o (some (.llca (llcaInsert ll val))))
  | .llcaRemove o val, st =>
    (st.llcaAt o).map fun ll =>
      ((llcaRemove ll val).1, st.setObj o (some (.llca (llcaRemove ll val).2)))
  | .llcaContains o val, st => (st.llcaAt o).map fun ll => (llcaContains ll val, st)
  | .alloc, st => some (st.next, st.allocObj .raw)
  | .constructConc ll, st =>
    if st.heap ll = some .raw then some ((), st.setObj ll (some (.llcaConc ∅))) else none
  | .destroyConc ll, st => (st.concAt ll).map fun _ => ((), st.setObj ll (some .raw))
  | .free ptr, st => (st.heap ptr).map fun _ => ((), st.setObj ptr none)
  | .slInsert ll val, st =>
    (st.concAt ll).map fun sl => (decide (val ∉ sl), st.setObj ll (some (.llcaConc (insert val sl))))
  | .slErase ll val, st =>
    (st.concAt ll).map fun sl => (decide (val ∈ sl), st.setObj ll (some (.llcaConc (sl.erase val))))
  | .slContains ll val, st => (st.concAt ll).map fun sl => (decide (val ∈ sl), st)
  | .reply _, st => some ((), st)
  | .closeKey _, st => some ((), st)
  | .replicate _ _, st => some ((), st)
  | .replicateVerbatim, st => some ((), st)

end Store

namespace Call

/-- The calls that reach the keyspace or a key handle. -/
def isKeyspace : Call → Bool
  | .openKey _ | .keyType _ | .moduleTypeGetType _ | .moduleTypeGetValue _
  | .moduleTypeSetValue _ _ _ | .deleteKey _ | .closeKey _ => true
  | _ => false

/-- The reply that a call sends. -/
def reply? : Call → Option Reply
  | .reply r => some r
  | _ => none

/-- The effect of a call of thread `t` on the global lock. A thread that does not hold the
lock cannot release it, and locking waits until the lock is free. -/
def lockStep {T : Type} [DecidableEq T] (t : T) : Call → Option T → Option (Option T)
  | .threadSafeContextLock, lock => if lock = none then some (some t) else none
  | .threadSafeContextUnlock, lock => if lock = some t then some none else none
  | _, lock => some lock

end Call

abbrev api (c : Call) : RedisM c.Res := Prog.lift c

abbrev autoMemory : RedisM Unit := api .autoMemory
abbrev threadSafeContextLock : RedisM Unit := api .threadSafeContextLock
abbrev threadSafeContextUnlock : RedisM Unit := api .threadSafeContextUnlock
abbrev argvAt (i : Nat) : RedisM RedisModuleString := api (.argv i)
abbrev openKey (keyname : RedisModuleString) : RedisM RedisModuleKey := api (.openKey keyname)
abbrev keyType (kp : RedisModuleKey) : RedisM KeyType := api (.keyType kp)
abbrev moduleTypeGetType (kp : RedisModuleKey) : RedisM (Option RedisModuleType) :=
  api (.moduleTypeGetType kp)
abbrev moduleTypeGetValue (kp : RedisModuleKey) : RedisM Ptr := api (.moduleTypeGetValue kp)
abbrev moduleTypeSetValue (kp : RedisModuleKey) (mt : RedisModuleType) (value : Ptr) : RedisM Unit :=
  api (.moduleTypeSetValue kp mt value)
abbrev deleteKey (kp : RedisModuleKey) : RedisM Unit := api (.deleteKey kp)
abbrev newLLCAObject : RedisM Ptr := api .createLLCAObject
abbrev insertLLCA (o : Ptr) (val : Int64) : RedisM Unit := api (.llcaInsert o val)
abbrev removeLLCA (o : Ptr) (val : Int64) : RedisM Bool := api (.llcaRemove o val)
abbrev containsLLCA (o : Ptr) (val : Int64) : RedisM Bool := api (.llcaContains o val)
abbrev alloc : RedisM Ptr := api .alloc
abbrev constructConc (ll : Ptr) : RedisM Unit := api (.constructConc ll)
abbrev destroyConc (ll : Ptr) : RedisM Unit := api (.destroyConc ll)
abbrev free (ptr : Ptr) : RedisM Unit := api (.free ptr)
abbrev slInsert (ll : Ptr) (val : Int64) : RedisM Bool := api (.slInsert ll val)
abbrev slErase (ll : Ptr) (val : Int64) : RedisM Bool := api (.slErase ll val)
abbrev slContains (ll : Ptr) (val : Int64) : RedisM Bool := api (.slContains ll val)
abbrev replyWithString (str : RedisModuleString) : RedisM Unit := api (.reply (.string str))
abbrev replyWithSimpleString (msg : String) : RedisM Unit := api (.reply (.simpleString msg))
abbrev replyWithError (err : String) : RedisM Unit := api (.reply (.error err))

end RedPar
