import RedPar.Model.EventQueue
import RedPar.Lib.Runs

/-!
# Contexts and key handles

What Redis keeps of each context: whether automatic memory management has been enabled on it, and
the handles that `OpenKey` returned. A handle is released by `CloseKey`, or at the end of its
context if the management was enabled before it was opened.
-/

namespace RedPar
open Interleaved

/-- The context of an event: that of its command, or a thread safe one. -/
inductive Context
  | command (id : Nat)
  | threadSafe (id : Nat)
deriving DecidableEq, Repr

def Event.context (e : Event) : Context :=
  if e.threadSafe then .command e.id else .threadSafe e.id

/-- A context ends when its command returns, and in `RedisModule_FreeThreadSafeContext`. -/
def Context.ending : Context → Entry
  | .command id => .executed id
  | .threadSafe id => .freeThreadSafeContext id

/-- What `OpenKey` returned: the key, whether automatic memory management was enabled, and how
often the handle has been closed. -/
structure Handle where
  keyname : RedisModuleString
  auto : Bool
  closed : Nat
deriving DecidableEq, Repr

/-- How often a handle has been released, if its context has ended so many times. The management
leaves alone what has been closed. -/
def Handle.releases (h : Handle) (ends : Nat) : Nat :=
  h.closed + if h.auto ∧ h.closed = 0 then ends else 0

/-- The handles of a context, the latest first. -/
structure KeyHandles where
  auto : Bool
  handles : List Handle
deriving DecidableEq, Repr

namespace KeyHandles

/-- A context without handles. -/
def none : KeyHandles := ⟨false, []⟩

/-- Closes the latest handle of a key. -/
def close (keyname : RedisModuleString) : List Handle → List Handle
  | [] => []
  | h :: hs =>
    if h.keyname = keyname then { h with closed := h.closed + 1 } :: hs
    else h :: close keyname hs

/-- What a call does to the handles of its context. -/
def after (ctx : KeyHandles) : Call → KeyHandles
  | .autoMemory => { ctx with auto := true }
  | .openKey keyname => { ctx with handles := ⟨keyname, ctx.auto, 0⟩ :: ctx.handles }
  | .closeKey kp => { ctx with handles := close kp.name ctx.handles }
  | _ => ctx

end KeyHandles

/-- The event for which a step makes a call, and the call. -/
def State.made? {n : Nat} (s : State n) : Label n → Option (Event × Call)
  | .step t =>
    match s.procs t with
    | .execute e (.call c _) => some (e, c)
    | _ => none
  | _ => none

/-- Notes about each context, which the calls made in it update. -/
def State.note {n : Nat} {Q : Type} (next : Q → Call → Q) (s : State n) (l : Label n)
    (notes : Context → Q) : Context → Q :=
  match s.made? l with
  | some (e, c) => Function.update notes e.context (next (notes e.context) c)
  | none => notes

/-- The system with the handles of each context. -/
def State.stepHandles [StringToLongLong] {n : Nat} :
    State n × (Context → KeyHandles) → Label n → Option (State n × (Context → KeyHandles)) :=
  withNotes State.step (State.note KeyHandles.after)

end RedPar
