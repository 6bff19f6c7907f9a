import RedPar.Model.RedisModule

/-!
# The command bodies

The three commands of `llca.cpp` and the five events of `skip_list.cpp`, from the arity check
to the reply. `threadSafe` is the mode flag of an event: a queued event (`false`) takes the
global lock itself, a direct one (`true`) runs on the main thread, which already holds it.
-/

namespace RedPar
open Interleaved

variable [StringToLongLong]

/-- `type != REDISMODULE_KEYTYPE_EMPTY && RedisModule_ModuleTypeGetType(key) != mt` -/
def wrongType (key : RedisModuleKey) (type : KeyType) (mt : RedisModuleType) : RedisM Bool := do
  if type = .empty then return false
  else
    let keyMt ← moduleTypeGetType key
    return keyMt ≠ some mt

/-! ## llca.cpp -/

/-- What the three commands share: everything up to the parsed value. The lock is held around
`OpenKey` alone. -/
def llcaRedisCommand (body : RedisModuleKey → KeyType → Int64 → RedisM RedisModuleString)
    (argc : Nat) : RedisM RedisModuleString := do
  autoMemory
  if argc ≠ 3 then return createString "wrong arity" 11
  else
    threadSafeContextLock
    let key ← openKey (← argvAt 1)
    threadSafeContextUnlock
    let type ← keyType key
    if ← wrongType key type .llca then return createString "wrong type" 10
    else
      match StringToLongLong.parse (← argvAt 2) with
      | none => return createString "wrong int type" 14
      | some value => body key type value

def llcaRemoveRedisCommand : Nat → RedisM RedisModuleString :=
  llcaRedisCommand fun key type value => do
    if type = .empty then return createString "List does not exist" 19
    else
      let ll ← moduleTypeGetValue key
      if ← removeLLCA ll value then return createString "success" 7
      else return createString "failure" 7

def llcaContainsRedisCommand : Nat → RedisM RedisModuleString :=
  llcaRedisCommand fun key type value => do
    if type = .empty then return createString "List does not exist" 19
    else
      let ll ← moduleTypeGetValue key
      if ← containsLLCA ll value then return createString "value present" 13
      else return createString "value not present" 17

/-- Unlike the other two, this command creates the list of an absent key. -/
def llcaInsertRedisCommand : Nat → RedisM RedisModuleString :=
  llcaRedisCommand fun key type value => do
    if type = .empty then
      let ll ← newLLCAObject
      moduleTypeSetValue key .llca ll
      insertLLCA ll value
      return createString "success" 7
    else
      let ll ← moduleTypeGetValue key
      insertLLCA ll value
      return createString "success" 7

/-- `execute` of the three events: the string that the command returns is the reply. -/
def llcaEvent (command : Nat → RedisM RedisModuleString) (argc : Nat) : RedisM Unit := do
  let result ← command argc
  replyWithString result

/-! ## skip_list.cpp -/

def checkArity (argc expected : Nat) : RedisM Bool := do
  if argc ≠ expected then
    replyWithError "ERR: wrong arity"
    return false
  else return true

/-- `string_to_longlong`, with its out parameter as the result. -/
def stringToLonglong (str : RedisModuleString) : RedisM (Option Int64) := do
  match StringToLongLong.parse str with
  | none =>
    replyWithError "ERR invalid value: must be a signed 64 bit integer"
    return none
  | some value => return some value

/-- The two lock calls of `lookup_key` are commented out, so the mode is not looked at. -/
def lookupKey (keyStr : RedisModuleString) (_threadSafe : Bool) : RedisM Ptr := do
  let key ← openKey keyStr
  let type ← keyType key
  if ← wrongType key type .llcaConc then
    replyWithError REDISMODULE_ERRORMSG_WRONGTYPE
    return nullptr
  else if type = .empty then
    replyWithError "ERR: no list exists for that key"
    return nullptr
  else moduleTypeGetValue key

/-- `if(!thread_safe){ RedisModule_ThreadSafeContextLock(ctx); }` -/
def lockUnless (threadSafe : Bool) : RedisM Unit :=
  if threadSafe then pure () else threadSafeContextLock

/-- `if(!thread_safe){ RedisModule_ThreadSafeContextUnlock(ctx); }` -/
def unlockUnless (threadSafe : Bool) : RedisM Unit :=
  if threadSafe then pure () else threadSafeContextUnlock

def llcaConcCreateEvent (argc : Nat) (threadSafe : Bool) : RedisM Unit := do
  if ← checkArity argc 2 then
    lockUnless threadSafe
    let key ← openKey (← argvAt 1)
    let type ← keyType key
    if type ≠ .empty then
      replyWithSimpleString "ERR: key already exists"
      unlockUnless threadSafe
    else
      let ll ← alloc
      constructConc ll
      moduleTypeSetValue key .llcaConc ll
      unlockUnless threadSafe
      replyWithSimpleString "OK"
  else return ()

def llcaConcDeleteEvent (argc : Nat) (threadSafe : Bool) : RedisM Unit := do
  if ← checkArity argc 2 then
    lockUnless threadSafe
    let key ← openKey (← argvAt 1)
    let type ← keyType key
    if type = .empty then
      replyWithSimpleString "ERR: key does not exist"
      unlockUnless threadSafe
    else
      let keyMt ← moduleTypeGetType key
      if keyMt ≠ some .llcaConc then
        replyWithError REDISMODULE_ERRORMSG_WRONGTYPE
        unlockUnless threadSafe
      else
        let ll ← moduleTypeGetValue key
        destroyConc ll
        free ll
        deleteKey key
        unlockUnless threadSafe
        replyWithSimpleString "OK"
  else return ()

/-- What the three events on the values of a set share: `op` is the member function of
`llca_conc_obj`, and `failure` the reply where it returns false. -/
def llcaConcSetEvent (op : Ptr → Int64 → RedisM Bool) (failure : String) (argc : Nat)
    (threadSafe : Bool) : RedisM Unit := do
  if ← checkArity argc 3 then
    match ← stringToLonglong (← argvAt 2) with
    | none => return ()
    | some value =>
      let obj ← lookupKey (← argvAt 1) threadSafe
      if obj = nullptr then return ()
      else if ← op obj value then replyWithSimpleString "OK"
      else replyWithSimpleString failure
  else return ()

def llcaConcRemoveEvent : Nat → Bool → RedisM Unit :=
  llcaConcSetEvent slErase "ERR: value does not exist"

def llcaConcContainsEvent : Nat → Bool → RedisM Unit :=
  llcaConcSetEvent slContains "ERR: value does not exist"

def llcaConcInsertEvent : Nat → Bool → RedisM Unit :=
  llcaConcSetEvent slInsert "ERR: value exists"

/-- The subclasses of `event`. -/
inductive EventType
  | llcaRemove | llcaContains | llcaInsert
  | llcaConcCreate | llcaConcDelete | llcaConcRemove | llcaConcContains | llcaConcInsert
deriving DecidableEq, Repr

/-- `execute` of each subclass. -/
def EventType.execute (argc : Nat) (threadSafe : Bool) : EventType → RedisM Unit
  | .llcaRemove => llcaEvent llcaRemoveRedisCommand argc
  | .llcaContains => llcaEvent llcaContainsRedisCommand argc
  | .llcaInsert => llcaEvent llcaInsertRedisCommand argc
  | .llcaConcCreate => llcaConcCreateEvent argc threadSafe
  | .llcaConcDelete => llcaConcDeleteEvent argc threadSafe
  | .llcaConcRemove => llcaConcRemoveEvent argc threadSafe
  | .llcaConcContains => llcaConcContainsEvent argc threadSafe
  | .llcaConcInsert => llcaConcInsertEvent argc threadSafe

/-- The two handlers: through the queue, and on the main thread. -/
inductive Handler
  | conc | seq
deriving DecidableEq, Repr

/-- The commands that `LLCA_OnLoad` and `LLCA_Conc_OnLoad` create. -/
inductive CommandName
  | llcaTypeInsert | llcaTypeContains | llcaTypeRemove
  | llcaConcInsert | llcaConcContains | llcaConcRemove | llcaConcCreate | llcaConcDelete
  | llcaSeqInsert | llcaSeqContains | llcaSeqRemove | llcaSeqCreate | llcaSeqDelete
deriving DecidableEq, Repr

namespace CommandName

/-- The name, the handler and the event type of each command. -/
def registration : CommandName → String × Handler × EventType
  | llcaTypeInsert => ("llca_type.insert", .conc, .llcaInsert)
  | llcaTypeContains => ("llca_type.contains", .conc, .llcaContains)
  | llcaTypeRemove => ("llca_type.remove", .conc, .llcaRemove)
  | llcaConcInsert => ("llca_conc.insert", .conc, .llcaConcInsert)
  | llcaConcContains => ("llca_conc.contains", .conc, .llcaConcContains)
  | llcaConcRemove => ("llca_conc.remove", .conc, .llcaConcRemove)
  | llcaConcCreate => ("llca_conc.create", .conc, .llcaConcCreate)
  | llcaConcDelete => ("llca_conc.delete", .conc, .llcaConcDelete)
  | llcaSeqInsert => ("llca_seq.insert", .seq, .llcaConcInsert)
  | llcaSeqContains => ("llca_seq.contains", .seq, .llcaConcContains)
  | llcaSeqRemove => ("llca_seq.remove", .seq, .llcaConcRemove)
  | llcaSeqCreate => ("llca_seq.create", .seq, .llcaConcCreate)
  | llcaSeqDelete => ("llca_seq.delete", .seq, .llcaConcDelete)

def handler (name : CommandName) : Handler := name.registration.2.1

def event (name : CommandName) : EventType := name.registration.2.2

/-- In the order of registration. -/
def all : List CommandName :=
  [llcaTypeInsert, llcaTypeContains, llcaTypeRemove, llcaConcInsert, llcaConcContains,
    llcaConcRemove, llcaConcCreate, llcaConcDelete, llcaSeqInsert, llcaSeqContains,
    llcaSeqRemove, llcaSeqCreate, llcaSeqDelete]

/-- Command lookup, which ignores case. -/
def lookup (cmdname : String) : Option CommandName :=
  all.find? fun name => name.registration.1.toList.map Char.toLower = cmdname.toList.map Char.toLower

end CommandName

/-- A command running alone: the store it leaves and the calls it made. -/
def runCommand (name : CommandName) (argv : List RedisModuleString) (st : Store) :
    Option (Store × List Call) :=
  ((name.event.execute argv.length (name.handler = .seq)).run (Store.exec argv) st).map Prod.snd

/-- Commands running alone, one after the other: the store they leave and the replies of each. -/
def runCommands : List (CommandName × List RedisModuleString) → Store →
    Option (Store × List (List Reply))
  | [], st => some (st, [])
  | (name, argv) :: cmds, st => do
    let (st, calls) ← runCommand name argv st
    let (st, replies) ← runCommands cmds st
    some (st, calls.filterMap Call.reply? :: replies)

/-- What a call sends to the append-only file and to the replicas. -/
def Call.propagated? (name : CommandName) (argv : List RedisModuleString) : Call → Option AofCommand
  | .replicate cmdname args => some ⟨cmdname, args⟩
  | .replicateVerbatim => some ⟨name.registration.1, argv.tail⟩
  | _ => none

/-- Commands running alone, one after the other, and what they propagate. -/
def runPropagating : List (CommandName × List RedisModuleString) → Store →
    Option (Store × List AofCommand)
  | [], st => some (st, [])
  | (name, argv) :: cmds, st => do
    let (st, calls) ← runCommand name argv st
    let (st, aof) ← runPropagating cmds st
    some (st, calls.filterMap (Call.propagated? name argv) ++ aof)

/-- What the rewrite of the append-only file makes of the lists bound to `keys`. -/
def aofRewrite (st : Store) : List RedisModuleString → List AofCommand
  | [] => []
  | key :: keys =>
    let aof :=
      match st.keyspace key with
      | some (.module .llca value) =>
        match st.llcaAt value with
        | some ll => llcaAofRewrite [] key ll
        | none => []
      | _ => []
    aof ++ aofRewrite st keys

/-- Loading an append-only file: each of its commands runs to completion. -/
def replay : List AofCommand → Store → Option Store
  | [], st => some st
  | cmd :: aof, st => do
    let name ← CommandName.lookup cmd.cmdname
    let (st, _) ← runCommand name (cmd.cmdname :: cmd.args) st
    replay aof st

end RedPar
