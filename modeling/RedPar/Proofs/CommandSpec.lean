import RedPar.Proofs.Keyspace
import RedPar.Proofs.LlcaList

/-!
# What the commands do to the keyspace

`EventType.spec` states the reply of each event and its effect on the abstract keyspace, by the
arity, the parsed value and what the key holds. It is compared with the command bodies.
-/

namespace RedPar
open Interleaved

namespace EventType

def OnList : EventType → Prop
  | .llcaInsert | .llcaRemove | .llcaContains => True
  | _ => False

instance : (type : EventType) → Decidable type.OnList
  | .llcaInsert | .llcaRemove | .llcaContains => isTrue trivial
  | .llcaConcCreate | .llcaConcDelete | .llcaConcRemove | .llcaConcContains | .llcaConcInsert =>
    isFalse id

/-- Whether an update of a list succeeds, and what it leaves. -/
def onBag (v : Int64) (m : Multiset Int64) : EventType → Bool × Multiset Int64
  | llcaInsert => (true, v ::ₘ m)
  | llcaRemove => (decide (v ∈ m), m.erase v)
  | _ => (false, m)

/-- The number of arguments, with the command's name. -/
def arity : EventType → Nat
  | llcaConcCreate | llcaConcDelete => 2
  | _ => 3

def arityReply : EventType → Reply
  | llcaRemove | llcaContains | llcaInsert => .string "wrong arity"
  | _ => .error "ERR: wrong arity"

/-- A command of `llca.cpp`: `onList` is its effect on a list, and `onEmpty` says whether it
creates the list of an absent key. -/
def llcaSpec (onList : Int64 → LlcaObj → String × LlcaObj)
    (onEmpty : Int64 → String × Option LlcaObj) (value : Option Int64) :
    Option Content → Reply × Option Content
  | some (.list o) =>
    match value with
    | none => (.string "wrong int type", some (.list o))
    | some v => (.string (onList v o).1, some (.list (onList v o).2))
  | none =>
    match value with
    | none => (.string "wrong int type", none)
    | some v => (.string (onEmpty v).1, (onEmpty v).2.map .list)
  | some c => (.string "wrong type", some c)

/-- An event on the values of a set: `op` tells whether it succeeds, and gives the new set. -/
def concSetSpec (op : Int64 → LlcaConcObj → Bool × LlcaConcObj) (failure : String) :
    Option Int64 → Option Content → Reply × Option Content
  | none, c => (.error "ERR invalid value: must be a signed 64 bit integer", c)
  | some _, none => (.error "ERR: no list exists for that key", none)
  | some v, some (.set values) =>
    (.simpleString (if (op v values).1 then "OK" else failure), some (.set (op v values).2))
  | some _, some c => (.error REDISMODULE_ERRORMSG_WRONGTYPE, some c)

/-- The reply, and what the key holds afterwards. -/
def keySpec : EventType → Option Int64 → Option Content → Reply × Option Content
  | llcaRemove => llcaSpec
      (fun v o => (if v ∈ o.head then "success" else "failure", ⟨o.head.erase v, o.len⟩))
      (fun _ => ("List does not exist", none))
  | llcaContains => llcaSpec
      (fun v o => (if v ∈ o.head then "value present" else "value not present", o))
      (fun _ => ("List does not exist", none))
  | llcaInsert => llcaSpec
      (fun v o => ("success", ⟨o.head.orderedInsert (· ≤ ·) v, o.len + 1⟩))
      (fun v => ("success", some ⟨[v], 1⟩))
  | llcaConcCreate => fun _ c =>
      match c with
      | none => (.simpleString "OK", some (.set ∅))
      | some c => (.simpleString "ERR: key already exists", some c)
  | llcaConcDelete => fun _ c =>
      match c with
      | none => (.simpleString "ERR: key does not exist", none)
      | some (.set _) => (.simpleString "OK", none)
      | some c => (.error REDISMODULE_ERRORMSG_WRONGTYPE, some c)
  | llcaConcRemove => concSetSpec (fun v s => (decide (v ∈ s), s.erase v))
      "ERR: value does not exist"
  | llcaConcContains => concSetSpec (fun v s => (decide (v ∈ s), s)) "ERR: value does not exist"
  | llcaConcInsert => concSetSpec (fun v s => (decide (v ∉ s), insert v s)) "ERR: value exists"

end EventType

namespace RedisModuleKey

lemma keyType_eq_empty_iff (kp : RedisModuleKey) : kp.keyType = .empty ↔ kp.value = none := by
  obtain ⟨name, value⟩ := kp
  cases value with
  | none => simp [keyType]
  | some v =>
    cases v with
    | module mt value => simp [keyType]
    | native type contents => cases type <;> simp [keyType, NativeType.keyType]

lemma moduleType_eq_some_iff (kp : RedisModuleKey) (mt : RedisModuleType) :
    kp.moduleType = some mt ↔ ∃ value, kp.value = some (.module mt value) := by
  obtain ⟨name, value⟩ := kp
  match value with
  | none => simp [moduleType]
  | some (.module mt value) => simp [moduleType]
  | some (.native type contents) => simp [moduleType]

lemma keyType_other (name : RedisModuleString) (v : Value) : keyType ⟨name, some v⟩ ≠ .empty := by
  simp [keyType_eq_empty_iff]

lemma moduleType_other {v : Value} (hv : v.ptr? = none) (name : RedisModuleString) :
    moduleType ⟨name, some v⟩ ≠ some .llca ∧ moduleType ⟨name, some v⟩ ≠ some .llcaConc := by
  constructor <;>
  · rw [ne_eq, moduleType_eq_some_iff]
    rintro ⟨ptr, hptr⟩
    cases hptr
    cases hv

end RedisModuleKey

/-- The states of a key in a sound store. -/
inductive KeyState (st : Store) (key : RedisModuleString) : Prop
  | absent (hk : st.keyspace key = none) (hc : st.content key = none)
  | list (ptr : Ptr) (o : LlcaObj) (hk : st.keyspace key = some (.module .llca ptr))
      (hobj : st.heap ptr = some (.llca o)) (hc : st.content key = some (.list o))
  | set (ptr : Ptr) (sl : LlcaConcObj) (hk : st.keyspace key = some (.module .llcaConc ptr))
      (hobj : st.heap ptr = some (.llcaConc sl)) (hc : st.content key = some (.set sl))
  | other (v : Value) (hk : st.keyspace key = some v) (hv : v.ptr? = none)
      (hc : st.content key = some (.other v))

lemma Store.Sound.keyState {st : Store} (h : st.Sound) (key : RedisModuleString) :
    KeyState st key := by
  match hk : st.keyspace key with
  | none => exact .absent hk (by simp [Store.content, hk])
  | some (.module .llca ptr) =>
    obtain ⟨o, ho, hc⟩ := h.llca_of_content hk
    exact .list ptr o hk ho hc
  | some (.module .llcaConc ptr) =>
    obtain ⟨sl, hsl, hc⟩ := h.conc_of_content hk
    exact .set ptr sl hk hsl hc
  | some (.module (.foreign id) ptr) => exact .other _ hk rfl (Store.content_of_keyspace hk)
  | some (.native type contents) => exact .other _ hk rfl (Store.content_of_keyspace hk)

/-- The outcome of an event that acts on the key `key`: the reply `r.1`, and the contents `r.2`. -/
structure Outcome (argc : Nat) (st : Store) (key : RedisModuleString) (r : Reply × Option Content)
    (st' : Store) (calls : List Call) : Prop where
  sound : st'.Sound
  replies : calls.filterMap Call.reply? = [r.1]
  content : st'.content = Function.update st.content key r.2
  inBounds : ∀ i, .argv i ∈ calls → i < argc

/-- Calls that neither reply nor read `argv`. -/
def Silent (calls : List Call) : Prop := ∀ c ∈ calls, c.reply? = none ∧ ∀ i, c ≠ .argv i

/-- Silent calls that give the key `key` the contents `c`. -/
structure Sets (st : Store) (key : RedisModuleString) (c : Option Content) (st' : Store)
    (calls : List Call) : Prop where
  sound : st'.Sound
  content : st'.content = Function.update st.content key c
  silent : Silent calls

@[simp] lemma silent_nil : Silent [] := fun _ h => absurd h List.not_mem_nil

@[simp] lemma silent_cons {c : Call} {calls : List Call} :
    Silent (c :: calls) ↔ (c.reply? = none ∧ ∀ i, c ≠ .argv i) ∧ Silent calls :=
  List.forall_mem_cons

lemma Silent.filterMap_reply {calls : List Call} (h : Silent calls) :
    calls.filterMap Call.reply? = [] :=
  List.filterMap_eq_nil_iff.mpr fun c hc => (h c hc).1

lemma Silent.not_argv {calls : List Call} (h : Silent calls) (i : Nat) : .argv i ∉ calls :=
  fun hc => (h _ hc).2 i rfl

lemma Sets.unchanged {st : Store} {key : RedisModuleString} {c : Option Content}
    {calls : List Call} (h : st.Sound) (hc : st.content key = c) (hs : Silent calls) :
    Sets st key c st calls :=
  ⟨h, by rw [← hc, Function.update_eq_self], hs⟩

lemma Outcome.unchanged {argc : Nat} {st : Store} {key : RedisModuleString}
    {r : Reply × Option Content} {calls : List Call} (h : st.Sound) (hc : st.content key = r.2)
    (hreplies : calls.filterMap Call.reply? = [r.1])
    (hargv : ∀ i, .argv i ∈ calls → i < argc) : Outcome argc st key r st calls :=
  ⟨h, hreplies, by rw [← hc, Function.update_eq_self], hargv⟩

/-- The later of two changes of one key counts. -/
lemma Sets.trans {st st' st'' : Store} {key : RedisModuleString} {c c' : Option Content}
    {calls calls' : List Call} (h' : Sets st' key c' st'' calls') (h : Sets st key c st' calls) :
    Sets st key c' st'' calls' :=
  ⟨h'.sound, by rw [h'.content, h.content, Function.update_idem], h'.silent⟩

/-- An event whose other calls are silent. -/
lemma Sets.outcome {argc : Nat} {st st' : Store} {key : RedisModuleString} {c : Option Content}
    {calls calls' : List Call} {r : Reply} (h : Sets st key c st' calls)
    (hreplies : calls'.filterMap Call.reply? = [r])
    (hargv : ∀ i, .argv i ∈ calls' → i < argc) : Outcome argc st key (r, c) st' calls' :=
  ⟨h.sound, hreplies, h.content, hargv⟩

lemma sets_list {st : Store} {key : RedisModuleString} {ptr : Ptr} (h : st.Sound)
    (hk : st.keyspace key = some (.module .llca ptr)) (o : LlcaObj) {calls : List Call}
    (hs : Silent calls) :
    Sets st key (some (.list o)) (st.setObj ptr (some (.llca o))) calls := by
  have hc : (Value.module .llca ptr).content (Function.update st.heap ptr (some (.llca o))) =
      some (.list o) := by
    simp [Value.content]
  exact ⟨h.setObj hk rfl hc, h.content_setObj hk rfl hc, hs⟩

lemma sets_set {st : Store} {key : RedisModuleString} {ptr : Ptr} (h : st.Sound)
    (hk : st.keyspace key = some (.module .llcaConc ptr)) (sl : LlcaConcObj) {calls : List Call}
    (hs : Silent calls) :
    Sets st key (some (.set sl)) (st.setObj ptr (some (.llcaConc sl))) calls := by
  have hc : (Value.module .llcaConc ptr).content
      (Function.update st.heap ptr (some (.llcaConc sl))) = some (.set sl) := by
    simp [Value.content]
  exact ⟨h.setObj hk rfl hc, h.content_setObj hk rfl hc, hs⟩

lemma sets_fresh {st : Store} {key : RedisModuleString} {obj : Obj} {v : Value} {c : Content}
    (h : st.Sound) (hptr : v.ptr? = some st.next)
    (hc : v.content (st.allocObj obj).heap = some c) {calls : List Call} (hs : Silent calls) :
    Sets st key (some c) ((st.allocObj obj).setKey key (some v)) calls where
  sound := (h.allocObj obj).setKey_some hc fun ptr hv name v' hn => by
    cases hptr.symm.trans hv
    exact h.next_unbound name v' hn
  content := by rw [Store.content_setKey, h.content_allocObj, Option.bind_some, hc]
  silent := hs

variable [StringToLongLong]

namespace EventType

/-- The integer argument, for the events that have one. -/
def value (type : EventType) (argv : List RedisModuleString) : Option Int64 :=
  if type.arity = 3 then argv[2]?.bind StringToLongLong.parse else none

/-- The reply and the keyspace after the event. -/
def spec (type : EventType) (argv : List RedisModuleString) (ks : Keyspace) : Reply × Keyspace :=
  match argv[1]? with
  | some key =>
    if argv.length = type.arity then
      let r := type.keySpec (type.value argv) (ks key)
      (r.1, Function.update ks key r.2)
    else (type.arityReply, ks)
  | none => (type.arityReply, ks)

lemma spec_of_arity {type : EventType} {argv : List RedisModuleString}
    (hlen : argv.length ≠ type.arity) (ks : Keyspace) :
    type.spec argv ks = (type.arityReply, ks) := by
  unfold spec
  split <;> simp [hlen]

end EventType

/-- The outcome of an event is the specified one, with one reply and no read past `argv`. -/
structure Answers (type : EventType) (argv : List RedisModuleString) (st st' : Store)
    (calls : List Call) : Prop where
  sound : st'.Sound
  replies : calls.filterMap Call.reply? = [(type.spec argv st.content).1]
  content : st'.content = (type.spec argv st.content).2
  inBounds : ∀ i, .argv i ∈ calls → i < argv.length

section Llca

variable {st : Store} {name key arg : RedisModuleString}

/-- The part of a command of `llca.cpp` before its own body, by what the key holds. -/
lemma wp_llcaEvent (h : st.Sound)
    {body : RedisModuleKey → KeyType → Int64 → RedisM RedisModuleString}
    {onList : Int64 → LlcaObj → String × LlcaObj} {onEmpty : Int64 → String × Option LlcaObj}
    (hempty : ∀ v, st.keyspace key = none →
      Prog.wp (Store.exec [name, key, arg]) (body ⟨key, none⟩ .empty v) (fun res st' calls =>
        res = (onEmpty v).1 ∧ Sets st key ((onEmpty v).2.map .list) st' calls) st)
    (hlist : ∀ v ptr o, st.keyspace key = some (.module .llca ptr) →
      st.heap ptr = some (.llca o) →
      Prog.wp (Store.exec [name, key, arg]) (body ⟨key, some (.module .llca ptr)⟩ .module v)
        (fun res st' calls => res = (onList v o).1 ∧
          Sets st key (some (.list (onList v o).2)) st' calls) st) :
    Prog.wp (Store.exec [name, key, arg]) (llcaEvent (llcaRedisCommand body) 3)
      (fun _ st' calls => Outcome 3 st key
        (EventType.llcaSpec onList onEmpty (StringToLongLong.parse arg) (st.content key))
        st' calls) st := by
  simp only [llcaEvent, llcaRedisCommand, wrongType]
  cases h.keyState key with
  | absent hk hc =>
    cases hp : StringToLongLong.parse arg with
    | none =>
      simp [Prog.wp_call, Store.exec, hk, hp, RedisModuleKey.keyType, EventType.llcaSpec, hc]
      exact .unchanged h hc rfl (by simp)
    | some v =>
      simp [Prog.wp_call, Store.exec, hk, hp, RedisModuleKey.keyType, EventType.llcaSpec, hc]
      refine Prog.wp_bind (Prog.wp_mono (hempty v hk) ?_)
      rintro _ st' calls ⟨rfl, hsets⟩
      simp [Store.exec]
      exact hsets.outcome
        (by simp [List.filterMap_cons, Call.reply?, hsets.silent.filterMap_reply])
        (by simp [hsets.silent.not_argv])
  | list ptr o hk hobj hc =>
    cases hp : StringToLongLong.parse arg with
    | none =>
      simp [Prog.wp_call, Store.exec, hk, hp, RedisModuleKey.keyType, RedisModuleKey.moduleType,
        EventType.llcaSpec, hc]
      exact .unchanged h hc rfl (by simp)
    | some v =>
      simp [Prog.wp_call, Store.exec, hk, hp, RedisModuleKey.keyType, RedisModuleKey.moduleType,
        EventType.llcaSpec, hc]
      refine Prog.wp_bind (Prog.wp_mono (hlist v ptr o hk hobj) ?_)
      rintro _ st' calls ⟨rfl, hsets⟩
      simp [Store.exec]
      exact hsets.outcome
        (by simp [List.filterMap_cons, Call.reply?, hsets.silent.filterMap_reply])
        (by simp [hsets.silent.not_argv])
  | set ptr sl hk hobj hc =>
    simp [Prog.wp_call, Store.exec, hk, RedisModuleKey.keyType, RedisModuleKey.moduleType,
      EventType.llcaSpec, hc]
    exact .unchanged h hc rfl (by simp)
  | other v hk hv hc =>
    simp [Prog.wp_call, Store.exec, hk, RedisModuleKey.keyType_other,
      RedisModuleKey.moduleType_other hv, EventType.llcaSpec, hc]
    exact .unchanged h hc rfl (by simp)

/-- What each event answers, for arguments of the right number. -/
abbrev KeyOutcome (type : EventType) (argc : Nat) (st : Store) (key arg : RedisModuleString)
    (_ : Unit) (st' : Store) (calls : List Call) : Prop :=
  Outcome argc st key (type.keySpec (StringToLongLong.parse arg) (st.content key)) st' calls

lemma wp_llcaRemove (h : st.Sound) :
    Prog.wp (Store.exec [name, key, arg]) (llcaEvent llcaRemoveRedisCommand 3)
      (KeyOutcome .llcaRemove 3 st key arg) st := by
  refine wp_llcaEvent h (fun v hk => ?_) fun v ptr o hk hobj => ?_
  · exact ⟨rfl, .unchanged h (by simp [Store.content, hk]) silent_nil⟩
  · have ho : st.llcaAt ptr = some o := by simp [Store.llcaAt, hobj]
    by_cases hv : v ∈ o.head <;>
    · simp [Prog.wp_call, Store.exec, RedisModuleKey.moduleValue, ho, llcaRemove_eq, hv]
      exact ⟨rfl, sets_list h hk ⟨o.head.erase v, o.len⟩ (by simp [Call.reply?])⟩

lemma wp_llcaContains (h : st.Sound) :
    Prog.wp (Store.exec [name, key, arg]) (llcaEvent llcaContainsRedisCommand 3)
      (KeyOutcome .llcaContains 3 st key arg) st := by
  refine wp_llcaEvent h (fun v hk => ?_) fun v ptr o hk hobj => ?_
  · exact ⟨rfl, .unchanged h (by simp [Store.content, hk]) silent_nil⟩
  · have ho : st.llcaAt ptr = some o := by simp [Store.llcaAt, hobj]
    have hc : st.content key = some (.list o) := by
      rw [Store.content_of_keyspace hk]
      simp [Value.content, hobj]
    by_cases hv : v ∈ o.head <;>
    · simp [Prog.wp_call, Store.exec, RedisModuleKey.moduleValue, ho, llcaContains_eq, hv]
      exact ⟨rfl, .unchanged h hc (by simp [Call.reply?])⟩

lemma wp_llcaInsert (h : st.Sound) :
    Prog.wp (Store.exec [name, key, arg]) (llcaEvent llcaInsertRedisCommand 3)
      (KeyOutcome .llcaInsert 3 st key arg) st := by
  refine wp_llcaEvent h (fun v hk => ?_) fun v ptr o hk hobj => ?_
  · have hfresh : Sets st key (some (.list createLLCAObject))
        ((st.allocObj (.llca createLLCAObject)).setKey key (some (.module .llca st.next))) [] :=
      sets_fresh h rfl (by simp [Value.content, Store.allocObj]) silent_nil
    have hover : (st.allocObj (.llca createLLCAObject)).dbOverwrite key (.module .llca st.next) =
        some ((st.allocObj (.llca createLLCAObject)).setKey key (some (.module .llca st.next))) :=
      Store.dbOverwrite_absent _ hk
    have hobj : ((st.allocObj (.llca createLLCAObject)).setKey key
        (some (.module .llca st.next))).llcaAt st.next = some createLLCAObject := by
      simp [Store.llcaAt, Store.setKey, Store.allocObj]
    simp [Prog.wp_call, Store.exec, hover, hobj]
    refine ⟨rfl, (sets_list hfresh.sound ?_ (llcaInsert createLLCAObject v) ?_).trans hfresh⟩
    · simp [Store.setKey]
    · simp [Call.reply?]
  · have ho : st.llcaAt ptr = some o := by simp [Store.llcaAt, hobj]
    simp [Prog.wp_call, Store.exec, RedisModuleKey.moduleValue, ho]
    refine ⟨rfl, ?_⟩
    rw [← llcaInsert_eq]
    exact sets_list h hk (llcaInsert o v) (by simp [Call.reply?])

end Llca

section Conc

variable {st : Store} {name key arg : RedisModuleString} (threadSafe : Bool)

/-- The part of an event on the values of a set before the operation itself. -/
lemma wp_llcaConcSetEvent (h : st.Sound) {op : Ptr → Int64 → RedisM Bool}
    {onSet : Int64 → LlcaConcObj → Bool × LlcaConcObj} (failure : String)
    (hset : ∀ v ptr sl, st.keyspace key = some (.module .llcaConc ptr) →
      st.heap ptr = some (.llcaConc sl) →
      Prog.wp (Store.exec [name, key, arg]) (op ptr v) (fun found st' calls =>
        found = (onSet v sl).1 ∧ Sets st key (some (.set (onSet v sl).2)) st' calls) st) :
    Prog.wp (Store.exec [name, key, arg]) (llcaConcSetEvent op failure 3 threadSafe)
      (fun _ st' calls => Outcome 3 st key
        (EventType.concSetSpec onSet failure (StringToLongLong.parse arg) (st.content key))
        st' calls) st := by
  simp only [llcaConcSetEvent, checkArity, stringToLonglong, lookupKey, wrongType]
  cases hp : StringToLongLong.parse arg with
  | none =>
    simp [Prog.wp_call, Store.exec, hp, EventType.concSetSpec]
    exact .unchanged h rfl rfl (by simp)
  | some v =>
    cases h.keyState key with
    | absent hk hc =>
      simp [Prog.wp_call, Store.exec, hk, hp, RedisModuleKey.keyType, EventType.concSetSpec, hc]
      exact .unchanged h hc rfl (by simp)
    | list ptr o hk hobj hc =>
      simp [Prog.wp_call, Store.exec, hk, hp, RedisModuleKey.keyType, RedisModuleKey.moduleType,
        EventType.concSetSpec, hc]
      exact .unchanged h hc rfl (by simp)
    | set ptr sl hk hobj hc =>
      have hne : ptr ≠ nullptr := h.ne_null (by simp [hobj])
      simp [Prog.wp_call, Store.exec, hk, hp, RedisModuleKey.keyType, RedisModuleKey.moduleType,
        RedisModuleKey.moduleValue, EventType.concSetSpec, hc, hne]
      refine Prog.wp_bind (Prog.wp_mono (hset v ptr sl hk hobj) ?_)
      rintro _ st' calls ⟨rfl, hsets⟩
      cases (onSet v sl).1 <;>
      · simp [Store.exec]
        exact hsets.outcome
          (by simp [List.filterMap_cons, Call.reply?, hsets.silent.filterMap_reply])
          (by simp [hsets.silent.not_argv])
    | other v hk hv hc =>
      simp [Prog.wp_call, Store.exec, hk, hp, RedisModuleKey.keyType_other,
        RedisModuleKey.moduleType_other hv, EventType.concSetSpec, hc]
      exact .unchanged h hc rfl (by simp)

lemma wp_llcaConcRemove (h : st.Sound) :
    Prog.wp (Store.exec [name, key, arg]) (llcaConcRemoveEvent 3 threadSafe)
      (KeyOutcome .llcaConcRemove 3 st key arg) st := by
  refine wp_llcaConcSetEvent threadSafe h _ fun v ptr sl hk hobj => ?_
  have hsl : st.concAt ptr = some sl := by simp [Store.concAt, hobj]
  simp [Store.exec, hsl]
  exact sets_set h hk (sl.erase v) (by simp [Call.reply?])

lemma wp_llcaConcContains (h : st.Sound) :
    Prog.wp (Store.exec [name, key, arg]) (llcaConcContainsEvent 3 threadSafe)
      (KeyOutcome .llcaConcContains 3 st key arg) st := by
  refine wp_llcaConcSetEvent threadSafe h _ fun v ptr sl hk hobj => ?_
  have hsl : st.concAt ptr = some sl := by simp [Store.concAt, hobj]
  have hc : st.content key = some (.set sl) := by
    rw [Store.content_of_keyspace hk]
    simp [Value.content, hobj]
  simp [Store.exec, hsl]
  exact .unchanged h hc (by simp [Call.reply?])

lemma wp_llcaConcInsert (h : st.Sound) :
    Prog.wp (Store.exec [name, key, arg]) (llcaConcInsertEvent 3 threadSafe)
      (KeyOutcome .llcaConcInsert 3 st key arg) st := by
  refine wp_llcaConcSetEvent threadSafe h _ fun v ptr sl hk hobj => ?_
  have hsl : st.concAt ptr = some sl := by simp [Store.concAt, hobj]
  simp [Store.exec, hsl]
  exact sets_set h hk (insert v sl) (by simp [Call.reply?])

omit [StringToLongLong] in
lemma wp_llcaConcCreate (h : st.Sound) :
    Prog.wp (Store.exec [name, key]) (llcaConcCreateEvent 2 threadSafe)
      (fun _ st' calls => Outcome 2 st key
        (EventType.llcaConcCreate.keySpec none (st.content key)) st' calls) st := by
  simp only [llcaConcCreateEvent, checkArity, lockUnless, unlockUnless]
  cases h.keyState key with
  | absent hk hc =>
    have hraw : (st.allocObj .raw).heap st.next = some .raw := by simp [Store.allocObj]
    have hover : (st.allocObj (.llcaConc ∅)).dbOverwrite key (.module .llcaConc st.next) =
        some ((st.allocObj (.llcaConc ∅)).setKey key (some (.module .llcaConc st.next))) :=
      Store.dbOverwrite_absent _ hk
    have hsets : Sets st key (some (.set ∅)) ((st.allocObj (.llcaConc ∅)).setKey key
        (some (.module .llcaConc st.next))) [] :=
      sets_fresh h rfl (by simp [Value.content, Store.allocObj]) silent_nil
    cases threadSafe <;>
    · simp [Prog.wp_call, Store.exec, hk, RedisModuleKey.keyType, EventType.keySpec, hc, hraw,
        Store.setObj_allocObj, hover]
      exact hsets.outcome rfl (by simp)
  | list ptr o hk hobj hc =>
    cases threadSafe <;>
    · simp [Prog.wp_call, Store.exec, hk, RedisModuleKey.keyType, EventType.keySpec, hc]
      exact .unchanged h hc rfl (by simp)
  | set ptr sl hk hobj hc =>
    cases threadSafe <;>
    · simp [Prog.wp_call, Store.exec, hk, RedisModuleKey.keyType, EventType.keySpec, hc]
      exact .unchanged h hc rfl (by simp)
  | other v hk hv hc =>
    cases threadSafe <;>
    · simp [Prog.wp_call, Store.exec, hk, RedisModuleKey.keyType_other, EventType.keySpec, hc]
      exact .unchanged h hc rfl (by simp)

omit [StringToLongLong] in
lemma wp_llcaConcDelete (h : st.Sound) :
    Prog.wp (Store.exec [name, key]) (llcaConcDeleteEvent 2 threadSafe)
      (fun _ st' calls => Outcome 2 st key
        (EventType.llcaConcDelete.keySpec none (st.content key)) st' calls) st := by
  simp only [llcaConcDeleteEvent, checkArity, lockUnless, unlockUnless]
  cases h.keyState key with
  | absent hk hc =>
    cases threadSafe <;>
    · simp [Prog.wp_call, Store.exec, hk, RedisModuleKey.keyType, EventType.keySpec, hc]
      exact .unchanged h hc rfl (by simp)
  | list ptr o hk hobj hc =>
    cases threadSafe <;>
    · simp [Prog.wp_call, Store.exec, hk, RedisModuleKey.keyType, RedisModuleKey.moduleType,
        EventType.keySpec, hc]
      exact .unchanged h hc rfl (by simp)
  | set ptr sl hk hobj hc =>
    have hsl : st.concAt ptr = some sl := by simp [Store.concAt, hobj]
    have hraw : (st.setObj ptr (some .raw)).heap ptr = some .raw := by simp [Store.setObj]
    have hfree : (st.setObj ptr (some .raw)).setObj ptr none = st.setObj ptr none := by
      simp [Store.setObj]
    -- the object is gone by now, but llca_conc_free does not look at it
    have hdelete : (st.setObj ptr none).dbDelete key =
        some ((st.setObj ptr none).setKey key none) := by
      simp [Store.dbDelete, Store.setObj, Store.freeValue, hk]
    obtain ⟨hsound, hcontent⟩ := h.setKey_setObj_none hk rfl
    have hsets : Sets st key none ((st.setObj ptr none).setKey key none) [] :=
      ⟨hsound, hcontent, silent_nil⟩
    cases threadSafe <;>
    · simp [Prog.wp_call, Store.exec, hk, RedisModuleKey.keyType, RedisModuleKey.moduleType,
        RedisModuleKey.moduleValue, EventType.keySpec, hc, hsl, hraw, hfree, hdelete]
      exact hsets.outcome rfl (by simp)
  | other v hk hv hc =>
    cases threadSafe <;>
    · simp [Prog.wp_call, Store.exec, hk, RedisModuleKey.keyType_other,
        RedisModuleKey.moduleType_other hv, EventType.keySpec, hc]
      exact .unchanged h hc rfl (by simp)

end Conc

section Events

variable {st : Store} {argv : List RedisModuleString}

lemma Outcome.answers {type : EventType} {key : RedisModuleString} {st' : Store}
    {calls : List Call} (hkey : argv[1]? = some key) (hlen : argv.length = type.arity)
    (h : Outcome argv.length st key (type.keySpec (type.value argv) (st.content key)) st' calls) :
    Answers type argv st st' calls := by
  have hspec : type.spec argv st.content =
      ((type.keySpec (type.value argv) (st.content key)).1,
        Function.update st.content key (type.keySpec (type.value argv) (st.content key)).2) := by
    simp [EventType.spec, hkey, hlen]
  exact ⟨h.sound, by rw [hspec, h.replies], by rw [hspec, h.content], h.inBounds⟩

lemma wp_wrong_arity (h : st.Sound) (type : EventType) (threadSafe : Bool)
    (hlen : argv.length ≠ type.arity) :
    Prog.wp (Store.exec argv) (type.execute argv.length threadSafe)
      (fun _ st' calls => Answers type argv st st' calls) st := by
  have hspec := EventType.spec_of_arity hlen st.content
  cases type <;>
  · simp only [EventType.arity] at hlen
    simp [EventType.execute, llcaEvent, llcaRemoveRedisCommand, llcaContainsRedisCommand,
      llcaInsertRedisCommand, llcaRedisCommand, llcaConcCreateEvent, llcaConcDeleteEvent,
      llcaConcRemoveEvent, llcaConcContainsEvent, llcaConcInsertEvent, llcaConcSetEvent,
      checkArity, hlen, Prog.wp_call, Store.exec]
    exact ⟨h, by rw [hspec]; rfl, by rw [hspec], by simp⟩

theorem wp_execute (argv : List RedisModuleString) (h : st.Sound) (type : EventType) (threadSafe : Bool) :
    Prog.wp (Store.exec argv) (type.execute argv.length threadSafe)
      (fun _ st' calls => Answers type argv st st' calls) st := by
  by_cases hlen : argv.length = type.arity
  · cases type
    case llcaConcCreate =>
      obtain ⟨name, key, rfl⟩ := List.length_eq_two.mp hlen
      exact Prog.wp_mono (wp_llcaConcCreate threadSafe h) fun _ _ _ ho => Outcome.answers rfl rfl ho
    case llcaConcDelete =>
      obtain ⟨name, key, rfl⟩ := List.length_eq_two.mp hlen
      exact Prog.wp_mono (wp_llcaConcDelete threadSafe h) fun _ _ _ ho => Outcome.answers rfl rfl ho
    all_goals obtain ⟨name, key, arg, rfl⟩ := List.length_eq_three.mp hlen
    case llcaRemove => exact Prog.wp_mono (wp_llcaRemove h) fun _ _ _ ho => Outcome.answers rfl rfl ho
    case llcaContains => exact Prog.wp_mono (wp_llcaContains h) fun _ _ _ ho => Outcome.answers rfl rfl ho
    case llcaInsert => exact Prog.wp_mono (wp_llcaInsert h) fun _ _ _ ho => Outcome.answers rfl rfl ho
    case llcaConcRemove =>
      exact Prog.wp_mono (wp_llcaConcRemove threadSafe h) fun _ _ _ ho => Outcome.answers rfl rfl ho
    case llcaConcContains =>
      exact Prog.wp_mono (wp_llcaConcContains threadSafe h) fun _ _ _ ho => Outcome.answers rfl rfl ho
    case llcaConcInsert =>
      exact Prog.wp_mono (wp_llcaConcInsert threadSafe h) fun _ _ _ ho => Outcome.answers rfl rfl ho
  · exact wp_wrong_arity h type threadSafe hlen

end Events

end RedPar
