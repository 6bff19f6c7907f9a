import RedPar.Lib.Bag
import RedPar.Model.RedisTypes

/-!
# The sorted list of `llca.cpp`

`LlcaObj` is `struct llca_obj`: the values of the chain of nodes that starts at `head`, and the
counter `len`. The loops keep the nodes that `prev` has walked past as a list, the nearest
first, so that linking a node behind `prev` puts the two parts of the chain together again.
-/

namespace RedPar
open Objects

structure LlcaObj where
  head : List Int64
  len : UInt64
deriving DecidableEq, Repr

def createLLCAObject : LlcaObj := ⟨[], 0⟩

/-- The loop of `llca_insert`: the nodes before and from the first value that is not below
`val`. -/
def llcaInsertLoop (val : Int64) (prev : List Int64) : List Int64 → List Int64 × List Int64
  | [] => (prev, [])
  | value :: next =>
    if value < val then llcaInsertLoop val (value :: prev) next else (prev, value :: next)

def llcaInsert (o : LlcaObj) (val : Int64) : LlcaObj :=
  let (prev, next) := llcaInsertLoop val [] o.head
  let newnode := val :: next
  match prev with
  | node :: before => { head := before.reverse ++ node :: newnode, len := o.len + 1 }
  | [] => { head := newnode, len := o.len + 1 }

/-- The loop of `llca_remove`: stops at the last node, or earlier at the first one that holds
`val`. -/
def llcaRemoveLoop (val : Int64) (prev : List Int64) (cur : Int64) :
    List Int64 → List Int64 × Int64 × List Int64
  | [] => (prev, cur, [])
  | value :: next =>
    if cur ≠ val then llcaRemoveLoop val (cur :: prev) value next else (prev, cur, value :: next)

/-- None of the exits of `llca_remove` writes `len`. -/
def llcaRemove (o : LlcaObj) (val : Int64) : Bool × LlcaObj :=
  match o.head with
  | [] => (false, o)
  | cur :: next =>
    if cur = val then (true, { o with head := next })
    else
      match llcaRemoveLoop val [] cur next with
      | (prev, cur, []) => if cur = val then (true, { o with head := prev.reverse }) else (false, o)
      | (prev, _, value :: next) => (true, { o with head := prev.reverse ++ value :: next })

/-- The loop of `llca_contains`. -/
def llcaContainsLoop (val : Int64) : List Int64 → Bool
  | [] => false
  | value :: next => if value = val then true else llcaContainsLoop val next

def llcaContains (o : LlcaObj) (val : Int64) : Bool := llcaContainsLoop val o.head

/-- The loop of `llca_rdb_load`, which counts `elements` down to zero. -/
def llcaRdbLoadLoop : Nat → LlcaObj → RdbReader LlcaObj
  | 0, ll => return ll
  | elements + 1, ll => do
    let ele ← loadSigned
    llcaRdbLoadLoop elements (llcaInsert ll ele)

/-- `none` is the null pointer returned for an unknown encoding version. -/
def llcaRdbLoad (encver : Int) : RdbReader (Option LlcaObj) := do
  if encver ≠ 0 then return none
  else
    let elements ← loadUnsigned
    let ll ← llcaRdbLoadLoop elements.toNat createLLCAObject
    return some ll

def llcaRdbSaveLoop (rdb : List RdbField) : List Int64 → List RdbField
  | [] => rdb
  | value :: next => llcaRdbSaveLoop (saveSigned rdb value) next

def llcaRdbSave (rdb : List RdbField) (ll : LlcaObj) : List RdbField :=
  llcaRdbSaveLoop (saveUnsigned rdb ll.len) ll.head

def llcaAofRewriteLoop (aof : List AofCommand) (key : RedisModuleString) :
    List Int64 → List AofCommand
  | [] => aof
  | value :: next => llcaAofRewriteLoop (emitAOF aof "LLCA_TYPE.INSERT" key value) key next

def llcaAofRewrite (aof : List AofCommand) (key : RedisModuleString) (ll : LlcaObj) :
    List AofCommand := llcaAofRewriteLoop aof key ll.head

/-- `sizeof(llca_node)`: a value and a pointer. -/
def sizeofLlcaNode : UInt64 := 16

/-- `sizeof(llca_obj)`: a pointer and the counter. -/
def sizeofLlcaObj : UInt64 := 16

def llcaMemUsage (ll : LlcaObj) : UInt64 := sizeofLlcaObj + sizeofLlcaNode * ll.len

def llcaDigestLoop (md : List DigestCall) : List Int64 → List DigestCall
  | [] => md
  | value :: next => llcaDigestLoop (digestAddLongLong md value) next

def llcaDigest (md : List DigestCall) (ll : LlcaObj) : List DigestCall :=
  digestEndSequence (llcaDigestLoop md ll.head)

/-- The calls on a list: `llca_insert`, `llca_remove` and `llca_contains`. -/
abbrev LlcaOp := BagOp Int64

/-- One call: the object it leaves, and what it returns (`llca_insert` returns nothing). -/
def LlcaObj.step (o : LlcaObj) : LlcaOp → LlcaObj × Option Bool
  | .insert val => (llcaInsert o val, none)
  | .remove val => ((llcaRemove o val).2, some (llcaRemove o val).1)
  | .contains val => (o, some (llcaContains o val))

end RedPar
