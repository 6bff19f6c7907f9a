import RedPar.Model.EventQueue

/-!
# Clients

What Redis does with the client of a command. It owns the command's `argv` and releases it when
the command ends, for a blocked client after it has been unblocked, or when the client goes away.
Inside a transaction or a script it does not block a client.
-/

namespace RedPar
open Interleaved

variable {n : Nat}

/-- The system, and whether the arguments of a command are still there. -/
structure Served (n : Nat) where
  state : State n
  live : Nat → Bool

inductive ClientLabel (n : Nat)
  | system (l : Label n)
  /-- The command of an unblocked client ends. -/
  | finish (id : Nat)
  /-- A client is disconnected or killed. -/
  | disconnect (id : Nat)
deriving DecidableEq

namespace Served

def init (n : Nat) (st : Store) : Served n := ⟨State.init n st, fun _ => false⟩

/-- The arguments after a step of the system: those of a new command are there, and those of a
direct command go when it returns. -/
def liveAfter (x : Served n) : Label n → Nat → Bool
  | .command _ _ => Function.update x.live x.state.nextId true
  | .step .main =>
    match x.state.procs .main with
    | .execute e (.pure _) => Function.update x.live e.id false
    | _ => x.live
  | _ => x.live

/-- The main thread is between two commands, and takes the global lock to release the arguments
of a client. -/
def releaseArgs (x : Served n) (id : Nat) : Option (Served n) :=
  if x.state.procs .main = .idle ∧ x.state.redis.lock = none ∧ x.live id then
    some { x with live := Function.update x.live id false }
  else none

def step [StringToLongLong] (x : Served n) : ClientLabel n → Option (Served n)
  | .system l => (x.state.step l).map fun s' => ⟨s', x.liveAfter l⟩
  | .finish id =>
    if .unblockClient (some id) ∈ x.state.redis.history then x.releaseArgs id else none
  | .disconnect id => x.releaseArgs id

end Served

/-- Commands issued outside of transactions and scripts, and commands issued inside that would
block their client: `RedisModule_BlockClient` sends the caller the error `err`. -/
inductive CallerLabel (n : Nat)
  | outside (l : Label n)
  | refused (err : String) (name : CommandName) (argv : List RedisModuleString)
deriving DecidableEq

namespace State

/-- `conc_handler` inside a transaction or a script, up to the constructed event. The handle that
`RedisModule_BlockClient` returns has no client, nor has the context made from it. -/
def refuse (s : State n) (err : String) (name : CommandName) (argv : List RedisModuleString) :
    Option (State n) :=
  match name.handler with
  | .seq => none
  | .conc =>
    let id := s.nextId
    let e := Event.new id name.event ⟨none⟩ argv false
    ({ s with nextId := id + 1, useCount := Function.update s.useCount id 1 }.record
      [.invoke id name argv, .reply id (.error err)]).accept (.enqueue e)

def stepCaller [StringToLongLong] (s : State n) : CallerLabel n → Option (State n)
  | .outside l => s.step l
  | .refused err name argv => s.refuse err name argv

end State

end RedPar
