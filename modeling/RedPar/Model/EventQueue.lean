import RedPar.Model.Commands

/-!
# The event queue and its threads

The main thread of Redis and `n` worker threads running `work`. A label says which thread
takes its next step, or which command the main thread accepts next; the main thread holds the
global lock from a command's start to its end. Each call of a command body, each `enqueue` and
each `dequeue` (both under `queue_mutex`) and each drop of a `shared_ptr` is one step.
-/

namespace RedPar
open Interleaved

inductive Thread (n : Nat)
  | main
  | worker (w : Fin n)
deriving DecidableEq

/-- A context: the client that replies go to, if there is one. -/
structure RedisModuleCtx where
  client : Option Nat
deriving DecidableEq, Repr

/-- A blocked client's handle. -/
structure RedisModuleBlockedClient where
  client : Option Nat
deriving DecidableEq, Repr

/-- `struct event` with its subclass `type`. Events are told apart by `id`, the number of the
command that constructed them. -/
structure Event where
  id : Nat
  type : EventType
  ctx : RedisModuleCtx
  argv : List RedisModuleString
  client : Option RedisModuleBlockedClient
  threadSafe : Bool
deriving DecidableEq, Repr

/-- What can be observed of a run, in order: commands and replies, the module's work on its
events, and the API calls of `~event`. -/
inductive Entry
  | invoke (id : Nat) (name : CommandName) (argv : List RedisModuleString)
  | enqueued (id : Nat)
  | dequeued (id : Nat)
  | executed (id : Nat)
  | reply (client : Nat) (r : Reply)
  | dropped (id : Nat)
  | freeThreadSafeContext (id : Nat)
  | unblockClient (client : Option Nat)
deriving DecidableEq, Repr

/-- The state of Redis: its data, the global lock and what has happened. -/
structure Redis (T : Type) where
  store : Store
  lock : Option T
  history : List Entry

namespace Redis

variable {T : Type} [DecidableEq T]

/-- One call of thread `t` on behalf of the event `e`. -/
def exec (t : T) (e : Event) : Exec Call Call.Res (Redis T) := fun c r => do
  let lock ← c.lockStep t r.lock
  let (res, store) ← r.store.exec e.argv c
  let replies := match c.reply?, e.ctx.client with
    | some reply, some client => [.reply client reply]
    | _, _ => []
  some (res, { store, lock, history := r.history ++ replies })

end Redis

/-- Commands of Redis itself that remove or replace a value. -/
inductive BuiltinCommand
  | del (key : RedisModuleString)
  | set (key : RedisModuleString) (contents : Nat)
deriving DecidableEq, Repr

def BuiltinCommand.key : BuiltinCommand → RedisModuleString
  | .del key => key
  | .set key _ => key

/-- Where a thread stands. -/
inductive Proc
  /-- The main thread between two commands; a worker about to `dequeue`. -/
  | idle
  /-- `conc_handler` is about to construct its event. -/
  | construct (id : Nat) (type : EventType) (argv : List RedisModuleString)
  /-- `conc_handler` holds `e` and is about to `enqueue` it. -/
  | enqueue (e : Event)
  /-- `conc_handler` is about to return and to drop `e`. -/
  | ret (e : Event)
  /-- `execute` of `e` has this much left to do. -/
  | execute (e : Event) (rest : RedisM Unit)
  /-- A worker is about to drop `e`. -/
  | drop (e : Event)
  /-- The main thread runs a command of Redis itself. -/
  | builtin (c : BuiltinCommand)

instance Proc.decidableIdle : (p : Proc) → Decidable (p = .idle)
  | .idle => isTrue rfl
  | .construct _ _ _ => isFalse nofun
  | .enqueue _ => isFalse nofun
  | .ret _ => isFalse nofun
  | .execute _ _ => isFalse nofun
  | .drop _ => isFalse nofun
  | .builtin _ => isFalse nofun

/-- `event::event`; the command's own context has its client. -/
def Event.new (id : Nat) (type : EventType) (ctx_a : RedisModuleCtx)
    (argv : List RedisModuleString) (ts : Bool) : Event :=
  if ts then { id, type, ctx := ctx_a, argv, client := none, threadSafe := true }
  else
    -- RedisModule_BlockClient(ctx_a, ...) and RedisModule_GetThreadSafeContext(client)
    let client : RedisModuleBlockedClient := ⟨ctx_a.client⟩
    { id, type, ctx := ⟨client.client⟩, argv, client := some client, threadSafe := false }

def Event.execute [StringToLongLong] (e : Event) : RedisM Unit :=
  e.type.execute e.argv.length e.threadSafe

/-- The API calls of `event::~event`. -/
def Event.destroy (e : Event) : List Entry :=
  match e.threadSafe, e.client with
  | false, some client => [.freeThreadSafeContext e.id, .unblockClient client.client]
  | _, _ => []

/-- The whole system. `useCount` is the number of `shared_ptr`s to each event. -/
structure State (n : Nat) where
  redis : Redis (Thread n)
  procs : Thread n → Proc
  queue : List Event
  useCount : Nat → Nat
  nextId : Nat

/-- Which step comes next. -/
inductive Label (n : Nat)
  | command (name : CommandName) (argv : List RedisModuleString)
  | redis (c : BuiltinCommand)
  | step (t : Thread n)
deriving DecidableEq

namespace State

variable {n : Nat} (s : State n)

def setProc (t : Thread n) (p : Proc) : State n := { s with procs := Function.update s.procs t p }

def record (es : List Entry) : State n :=
  { s with redis := { s.redis with history := s.redis.history ++ es } }

def setLock (lock : Option (Thread n)) : State n := { s with redis := { s.redis with lock } }

/-- Drops one `shared_ptr` to `e`; the last one to go runs the destructor. -/
def release (e : Event) : State n :=
  let count := s.useCount e.id - 1
  let s := { s with useCount := Function.update s.useCount e.id count }
  if count = 0 then s.record e.destroy else s

/-- The main thread takes the global lock and enters a command. -/
def accept (p : Proc) : Option (State n) :=
  match s.procs .main, s.redis.lock with
  | .idle, none => some ((s.setProc .main p).setLock (some .main))
  | _, _ => none

/-- The main thread leaves its command. -/
def leave : State n := (s.setProc .main .idle).setLock none

/-- The effect of a command of Redis itself. -/
def builtinStore (st : Store) : BuiltinCommand → Option Store
  | .del key => st.dbDelete key
  | .set key contents => st.dbOverwrite key (.native .string contents)

/-- The next step of thread `t`. -/
def stepThread [StringToLongLong] (s : State n) (t : Thread n) : Option (State n) :=
  match s.procs t with
  | .idle =>
    match t, s.queue with
    | .main, _ => none
    -- dequeue returned nullptr: the loop goes round
    | .worker _, [] => some s
    -- front and pop: the queue's reference becomes the worker's
    | .worker w, e :: queue =>
      some (({ s with queue }.setProc (.worker w) (.execute e e.execute)).record [.dequeued e.id])
  | .construct id type argv =>
    let e := Event.new id type ⟨some id⟩ argv false
    some ({ s with useCount := Function.update s.useCount id 1 }.setProc t (.enqueue e))
  | .enqueue e =>
    some (({ s with
      queue := s.queue ++ [e]
      useCount := Function.update s.useCount e.id (s.useCount e.id + 1) }.setProc t (.ret e)).record
        [.enqueued e.id])
  | .ret e => some (s.leave.release e)
  | .execute e (.call c k) => do
    let (res, redis) ← s.redis.exec t e c
    some ({ s with redis }.setProc t (.execute e (k res)))
  | .execute e (.pure ()) =>
    match t with
    -- seq_handler returns; its event is a local object whose destructor does nothing
    | .main => some (s.leave.record (.executed e.id :: e.destroy))
    | .worker _ => some ((s.setProc t (.drop e)).record [.executed e.id])
  | .drop e => some (((s.setProc t .idle).record [.dropped e.id]).release e)
  | .builtin c => do
    let store ← builtinStore s.redis.store c
    some { s with redis := { s.redis with store } }.leave

/-- One step of the system. -/
def step [StringToLongLong] (s : State n) : Label n → Option (State n)
  | .command name argv =>
    let id := s.nextId
    let p := match name.handler with
      | .conc => .construct id name.event argv
      | .seq =>
        let e := Event.new id name.event ⟨some id⟩ argv true
        .execute e e.execute
    ({ s with nextId := id + 1 }.record [.invoke id name argv]).accept p
  | .redis c => s.accept (.builtin c)
  | .step t => s.stepThread t

/-- Nothing has happened yet. -/
def init (n : Nat) (st : Store) : State n where
  redis := ⟨st, none, []⟩
  procs := fun _ => .idle
  queue := []
  useCount := fun _ => 0
  nextId := 0

/-- The queue is empty and no event is executing. -/
def Drained : Prop := s.queue = [] ∧ ∀ t e rest, s.procs t ≠ .execute e rest

/-- The queue is empty, and all threads are between two commands or events. -/
def Quiescent : Prop := s.queue = [] ∧ ∀ t, s.procs t = .idle

instance : Decidable s.Quiescent :=
  decidable_of_iff (s.queue = [] ∧ s.procs .main = .idle ∧ ∀ w, s.procs (.worker w) = .idle)
    ⟨fun h => ⟨h.1, fun t => match t with | .main => h.2.1 | .worker w => h.2.2 w⟩,
      fun h => ⟨h.1, h.2 .main, fun w => h.2 (.worker w)⟩⟩

end State

end RedPar
