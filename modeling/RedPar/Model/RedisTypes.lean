import Mathlib.Logic.Function.Basic

/-!
# What the module sees of Redis

The types of the module API that the code under `src/src` handles: argument strings, values
bound to keys, key handles, contexts, replies, and the streams of the RDB and AOF callbacks.
-/

namespace RedPar

/-- Argument strings and key names. -/
abbrev RedisModuleString := String

/-- `RedisModule_CreateString`: the first `len` characters of `ptr`. -/
def createString (ptr : String) (len : Nat) : RedisModuleString := String.ofList (ptr.toList.take len)

/-- `RedisModule_StringToLongLong`, a parameter: the signed 64-bit integer that a string
spells, or `none` where the call does not return `REDISMODULE_OK`. -/
class StringToLongLong where
  parse : RedisModuleString → Option Int64

/-- A value in decimal, the format of the `l` specifier of `RedisModule_EmitAOF`. -/
def decimal (value : Int64) : RedisModuleString := value.toInt.repr

/-- The value of a string of decimal digits, after a minus sign or not. -/
def decimalValue (str : RedisModuleString) : Int :=
  match str.toList with
  | '-' :: digits => -(Nat.ofDigitChars 10 digits 0)
  | digits => Nat.ofDigitChars 10 digits 0

/-- The call as Redis has it: the strings that it accepts are those of the values in decimal. -/
@[reducible] def decimalStrings : StringToLongLong where
  parse str :=
    let value := Int64.ofInt (decimalValue str)
    if decimal value = str then some value else none

/-- Addresses of allocated objects; `nullptr` is never allocated. -/
abbrev Ptr := Nat

def nullptr : Ptr := 0

/-- The data types that modules register: the two of this module, and those of others. -/
inductive RedisModuleType
  | llca
  | llcaConc
  | foreign (id : Nat)
deriving DecidableEq, Repr

/-- `RedisModule_KeyType`. -/
inductive KeyType
  | empty | string | list | hash | set | zset | module
deriving DecidableEq, Repr

/-- The types built into Redis. -/
inductive NativeType
  | string | list | hash | set | zset
deriving DecidableEq, Repr

def NativeType.keyType : NativeType → KeyType
  | .string => .string
  | .list => .list
  | .hash => .hash
  | .set => .set
  | .zset => .zset

/-- A value bound to a key: a module object, or a built-in value with its contents. -/
inductive Value
  | module (mt : RedisModuleType) (value : Ptr)
  | native (type : NativeType) (contents : Nat)
deriving DecidableEq, Repr

/-- A key handle: the name it was opened with and the value bound to it at that moment. -/
structure RedisModuleKey where
  name : RedisModuleString
  value : Option Value
deriving DecidableEq, Repr

namespace RedisModuleKey

/-- `RedisModule_KeyType` reads the value that the handle caches. -/
def keyType (kp : RedisModuleKey) : KeyType :=
  match kp.value with
  | none => .empty
  | some (.module _ _) => .module
  | some (.native type _) => type.keyType

/-- `RedisModule_ModuleTypeGetType`: `none` unless the handle caches a module object. -/
def moduleType (kp : RedisModuleKey) : Option RedisModuleType :=
  match kp.value with
  | some (.module mt _) => some mt
  | _ => none

/-- `RedisModule_ModuleTypeGetValue`. -/
def moduleValue (kp : RedisModuleKey) : Ptr :=
  match kp.value with
  | some (.module _ value) => value
  | _ => nullptr

end RedisModuleKey

/-- Replies, by the call that sends them. -/
inductive Reply
  | string (str : RedisModuleString)
  | simpleString (msg : String)
  | error (err : String)
deriving DecidableEq, Repr

def REDISMODULE_ERRORMSG_WRONGTYPE : String :=
  "WRONGTYPE Operation against a key holding the wrong kind of value"

/-- Fields of an RDB stream: 64-bit words, which the signed and the unsigned calls share, and
byte strings. -/
inductive RdbField
  | word (w : UInt64)
  | bytes (data : List UInt8)
deriving DecidableEq, Repr

/-- A callback that reads an RDB stream. Redis gives up on a field of another kind, and on a
stream that has ended. -/
abbrev RdbReader := StateT (List RdbField) Option

def loadUnsigned : RdbReader UInt64
  | .word w :: rdb => some (w, rdb)
  | _ => none

def loadSigned : RdbReader Int64 := do
  return (← loadUnsigned).toInt64

def saveUnsigned (rdb : List RdbField) (value : UInt64) : List RdbField := rdb ++ [.word value]

def saveSigned (rdb : List RdbField) (value : Int64) : List RdbField :=
  rdb ++ [.word value.toUInt64]

/-- A command of the append-only file, with its arguments. -/
structure AofCommand where
  cmdname : String
  args : List RedisModuleString
deriving DecidableEq, Repr

/-- `RedisModule_EmitAOF` with the format `sl`. -/
def emitAOF (aof : List AofCommand) (cmdname : String) (key : RedisModuleString) (l : Int64) :
    List AofCommand := aof ++ [⟨cmdname, [key, decimal l]⟩]

/-- The calls that feed a digest. -/
inductive DigestCall
  | addLongLong (ll : Int64)
  | endSequence
deriving DecidableEq, Repr

def digestAddLongLong (md : List DigestCall) (ll : Int64) : List DigestCall :=
  md ++ [.addLongLong ll]

def digestEndSequence (md : List DigestCall) : List DigestCall := md ++ [.endSequence]

end RedPar
