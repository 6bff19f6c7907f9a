import RedPar.Model.EventQueue
import RedPar.Model.SkipList
import RedPar.Proofs.LlcaList

/-!
# The system with its skip lists

The threads of the event queue, where a member function of an `llca_conc_obj` is not one step: it
is an operation of the `SkipListSet` that the object holds, and each of its accesses is a step
between those of the other threads. The values of a set are in its skip list; the `Finset` that an
`llca_conc_obj` has in the store is empty here and never looked at.
-/

namespace RedPar
open Interleaved

/-- The member functions of `llca_conc_obj`. -/
inductive SetOp
  | insert (val : Int64)
  | remove (val : Int64)
  | contains (val : Int64)
deriving DecidableEq

/-- The operation of `sl`. -/
def SetOp.sl (random : Fin SkipList.maxHeight) : SetOp → SkipList.Op Int64
  | insert val => .insert val random
  | remove val => .erase val
  | contains val => .contains val

/-- A call of a member function, and what the command does with its result. -/
structure SetCall where
  event : Event
  ll : Ptr
  op : SetOp
  k : Bool → RedisM Unit

/-- The member function that a thread calls next. -/
def Proc.setCall? : Proc → Option SetCall
  | .execute e (.call (.slInsert ll val) k) => some ⟨e, ll, .insert val, k⟩
  | .execute e (.call (.slErase ll val) k) => some ⟨e, ll, .remove val, k⟩
  | .execute e (.call (.slContains ll val) k) => some ⟨e, ll, .contains val, k⟩
  | _ => none

/-- The object that a thread constructs next. -/
def Proc.constructs? : Proc → Option Ptr
  | .execute _ (.call (.constructConc ll) _) => some ll
  | _ => none

/-- The system, and the skip list of each `llca_conc_obj` that has been constructed. -/
structure FineState (n : Nat) where
  state : State n
  sl : Ptr → Option (SkipList.System (Thread n) Int64)

/-- A step outside of the skip lists; a thread enters a member function, with a result of
`m_RandomLevelGen()` and enough fuel; or it takes its next step there. -/
inductive FineLabel (n : Nat)
  | outside (l : Label n)
  | enter (t : Thread n) (random : Fin SkipList.maxHeight) (fuel : Nat)
  | inside (t : Thread n)

namespace FineState

variable {n : Nat}

def init (n : Nat) (st : Store) : FineState n := ⟨.init n st, fun _ => none⟩

/-- A step of a thread that calls no member function; the constructor makes an empty list. -/
def stepOutside [StringToLongLong] (s : FineState n) (t : Thread n) : Option (FineState n) :=
  match (s.state.procs t).setCall?, (s.state.procs t).constructs? with
  | some _, _ => none
  | none, none => (s.state.step (.step t)).map fun state => { s with state }
  | none, some ll =>
    match s.sl ll with
    | some _ => none
    | none => (s.state.step (.step t)).map fun state =>
      { state, sl := Function.update s.sl ll (some .init) }

/-- The skip list of the object that `c` is called on; an object that has been destroyed has
none. -/
def target (s : FineState n) (c : SetCall) : Option (SkipList.System (Thread n) Int64) :=
  (s.state.redis.store.concAt c.ll).bind fun _ => s.sl c.ll

/-- What the operation of `t` has returned, if it is about to. -/
def result? (list : SkipList.System (Thread n) Int64) (t : Thread n) : Option Bool :=
  match list.procs t with
  | some ⟨_, _, .pure r⟩ => r
  | _ => none

/-- A thread in a member function takes its next step, or returns from it. -/
def stepInside (s : FineState n) (t : Thread n) (l : SkipList.Label (Thread n) Int64) :
    Option (FineState n) := do
  let c ← (s.state.procs t).setCall?
  let list ← s.target c
  let list' ← list.step l
  let s' := { s with sl := Function.update s.sl c.ll (some list') }
  match result? list t with
  | none => some s'
  | some r => some { s' with state := s.state.setProc t (.execute c.event (c.k r)) }

def step [StringToLongLong] (s : FineState n) : FineLabel n → Option (FineState n)
  | .outside (.step t) => s.stepOutside t
  | .outside l => (s.state.step l).map fun state => { s with state }
  | .enter t random fuel => do
    let c ← (s.state.procs t).setCall?
    s.stepInside t (.call t (c.op.sl random) fuel)
  | .inside t => s.stepInside t (.step t)

end FineState

end RedPar
