import RedPar.Model.KeyHandles
import RedPar.Proofs.Steps
import RedPar.Proofs.Keyspace

/-!
# Objects that workers operate on

A worker gets an object from `ModuleTypeGetValue` and operates on it in its next step, without the
lock. It operates on objects that stand if no thread destroys an object between the `OpenKey` that
a worker found it with and its operation, and no worker finds one that has been destroyed before.
-/

namespace RedPar
open Interleaved

/-! ## Objects that stand -/

namespace Store

/-- An object that has been constructed, and neither destroyed nor freed. -/
def Stands (st : Store) (ptr : Ptr) : Prop := ∃ obj ∈ st.heap ptr, obj ≠ .raw

/-- Nothing is at an address that has never been allocated. -/
def Fresh (st : Store) : Prop := ∀ ptr, st.next ≤ ptr → st.heap ptr = none

/-- The object that `llca_free` releases when the key is removed or overwritten. -/
def frees? (st : Store) (key : RedisModuleString) : Option Ptr :=
  match st.keyspace key with
  | some (.module .llca ptr) => some ptr
  | _ => none

/-- A change of the store that destroys the object `dead` and no other. -/
structure Loses (dead : Option Ptr) (st st' : Store) : Prop where
  fresh : st.Fresh → st'.Fresh
  gone : ∀ ptr ∈ dead, ¬st'.Stands ptr
  stays : ∀ ptr, dead ≠ some ptr → st.Fresh → st.Stands ptr → st'.Stands ptr

variable {st st' : Store} {ptr : Ptr}

lemma stands_congr {p : Ptr} (h : st'.heap p = st.heap p) : st'.Stands p ↔ st.Stands p := by
  unfold Stands
  rw [h]

lemma setObj_heap_of_ne {p : Ptr} (obj : Option Obj) (h : p ≠ ptr) :
    (st.setObj ptr obj).heap p = st.heap p := Function.update_of_ne h ..

lemma setObj_heap_self (obj : Option Obj) : (st.setObj ptr obj).heap ptr = obj :=
  Function.update_self ..

lemma Fresh.setObj (h : st.Fresh) (hptr : st.heap ptr ≠ none) (obj : Option Obj) :
    (st.setObj ptr obj).Fresh := by
  intro p hp
  have hne : p ≠ ptr := fun heq => hptr (heq ▸ h p hp)
  rw [setObj_heap_of_ne obj hne]
  exact h p hp

namespace Loses

lemma rfl : Loses none st st := ⟨id, nofun, fun _ _ _ => id⟩

lemma write {obj : Obj} (hptr : st.heap ptr ≠ none) (hobj : obj ≠ .raw) :
    Loses none st (st.setObj ptr (some obj)) where
  fresh h := h.setObj hptr _
  gone := nofun
  stays p _ _ hp := by
    by_cases hpp : p = ptr
    · subst hpp
      exact ⟨obj, setObj_heap_self _, hobj⟩
    · exact (stands_congr (setObj_heap_of_ne _ hpp)).mpr hp

lemma destroy {obj : Option Obj} (hptr : st.heap ptr ≠ none) (hobj : ∀ o ∈ obj, o = .raw) :
    Loses (some ptr) st (st.setObj ptr obj) where
  fresh h := h.setObj hptr _
  gone p hp := by
    cases hp
    rintro ⟨o, ho, hraw⟩
    rw [setObj_heap_self] at ho
    exact hraw (hobj o ho)
  stays p hne _ hp := by
    have hpp : p ≠ ptr := fun heq => hne (heq ▸ Eq.refl _)
    exact (stands_congr (setObj_heap_of_ne _ hpp)).mpr hp

lemma alloc (obj : Obj) : Loses none st (st.allocObj obj) where
  fresh h p hp := by
    have hlt : st.next < p := hp
    have hheap : (st.allocObj obj).heap p = st.heap p := Function.update_of_ne hlt.ne' ..
    rw [hheap]
    exact h p hlt.le
  gone := nofun
  stays p _ h hp := by
    have hne : p ≠ st.next := by
      rintro rfl
      obtain ⟨o, ho, _⟩ := hp
      rw [h _ le_rfl] at ho
      cases ho
    have hheap : (st.allocObj obj).heap p = st.heap p := Function.update_of_ne hne ..
    exact (stands_congr hheap).mpr hp

lemma setKey {dead : Option Ptr} (h : Loses dead st st') (key : RedisModuleString)
    (value : Option Value) : Loses dead st (st'.setKey key value) := ⟨h.fresh, h.gone, h.stays⟩

lemma dbDelete {key : RedisModuleString} (h : st.dbDelete key = some st') :
    Loses (st.frees? key) st st' := by
  unfold Store.dbDelete at h
  unfold frees?
  cases hkey : st.keyspace key with
  | none =>
    rw [hkey] at h
    cases h
    exact .rfl
  | some value =>
    rw [hkey] at h
    obtain ⟨st₁, hfree, rfl⟩ := Option.map_eq_some_iff.mp h
    unfold freeValue at hfree
    split at hfree
    · rename_i ptr
      obtain ⟨o, ho, rfl⟩ := Option.map_eq_some_iff.mp hfree
      have hptr : st.heap ptr ≠ none := by
        intro hnone
        simp [llcaAt, hnone] at ho
      have hgone : Loses (some ptr) st (st.setObj ptr none) := destroy hptr nofun
      exact hgone.setKey key none
    all_goals
      cases hfree
      exact Loses.rfl.setKey key none

lemma dbOverwrite {key : RedisModuleString} {value : Value}
    (h : st.dbOverwrite key value = some st') : Loses (st.frees? key) st st' := by
  obtain ⟨st₁, hdelete, rfl⟩ := Option.map_eq_some_iff.mp h
  exact (dbDelete hdelete).setKey key _

end Loses

end Store

namespace Call

/-- The object that a call destroys or frees. -/
def destroys? (st : Store) : Call → Option Ptr
  | .destroyConc ll => some ll
  | .free ptr => some ptr
  | .moduleTypeSetValue kp _ _ => st.frees? kp.name
  | .deleteKey kp => if kp.value = none then none else st.frees? kp.name
  | _ => none

lemma heap_of_llcaAt {st : Store} {ptr : Ptr} {o : LlcaObj} (h : st.llcaAt ptr = some o) :
    st.heap ptr ≠ none := by
  intro hnone
  simp [Store.llcaAt, hnone] at h

lemma heap_of_concAt {st : Store} {ptr : Ptr} {sl : LlcaConcObj} (h : st.concAt ptr = some sl) :
    st.heap ptr ≠ none := by
  intro hnone
  simp [Store.concAt, hnone] at h

lemma loses {argv : List RedisModuleString} {c : Call} {st st' : Store} {res : c.Res}
    (h : Store.exec argv c st = some (res, st')) : st.Loses (c.destroys? st) st' := by
  cases c with
  | argv i =>
    obtain ⟨arg, _, heq⟩ := Option.map_eq_some_iff.mp h
    cases heq
    exact .rfl
  | moduleTypeSetValue kp mt value =>
    obtain ⟨st₁, hset, heq⟩ := Option.map_eq_some_iff.mp h
    cases heq
    exact .dbOverwrite hset
  | deleteKey kp =>
    by_cases hkp : kp.value = none
    · have hdead : (deleteKey kp).destroys? st = none := if_pos hkp
      rw [Store.exec, if_pos hkp] at h
      cases h
      rw [hdead]
      exact .rfl
    · have hdead : (deleteKey kp).destroys? st = st.frees? kp.name := if_neg hkp
      rw [Store.exec, if_neg hkp] at h
      obtain ⟨st₁, hdelete, heq⟩ := Option.map_eq_some_iff.mp h
      cases heq
      rw [hdead]
      exact .dbDelete hdelete
  | createLLCAObject | alloc =>
    cases h
    exact .alloc _
  | llcaInsert o val | llcaRemove o val =>
    obtain ⟨ll, hll, heq⟩ := Option.map_eq_some_iff.mp h
    cases heq
    exact .write (heap_of_llcaAt hll) nofun
  | llcaContains o val =>
    obtain ⟨ll, hll, heq⟩ := Option.map_eq_some_iff.mp h
    cases heq
    exact .rfl
  | constructConc ll =>
    obtain ⟨hraw, heq⟩ := Option.ite_none_right_eq_some.mp h
    cases heq
    exact .write (by simp [hraw]) nofun
  | destroyConc ll =>
    obtain ⟨sl, hsl, heq⟩ := Option.map_eq_some_iff.mp h
    cases heq
    exact .destroy (heap_of_concAt hsl) (by simp)
  | free ptr =>
    obtain ⟨obj, hobj, heq⟩ := Option.map_eq_some_iff.mp h
    cases heq
    exact .destroy (by simp [hobj]) nofun
  | slInsert ll val | slErase ll val =>
    obtain ⟨sl, hsl, heq⟩ := Option.map_eq_some_iff.mp h
    cases heq
    exact .write (heap_of_concAt hsl) nofun
  | slContains ll val =>
    obtain ⟨sl, hsl, heq⟩ := Option.map_eq_some_iff.mp h
    cases heq
    exact .rfl
  | _ =>
    cases h
    exact .rfl

/-! ## Where a worker is bound to go -/

/-- The object that an insertion, a removal or a membership test is applied to. -/
def operand? : Call → Option Ptr
  | .llcaInsert o _ | .llcaRemove o _ | .llcaContains o _ => some o
  | .slInsert ll _ | .slErase ll _ | .slContains ll _ => some ll
  | _ => none

/-- The pointer that an event has got from `ModuleTypeGetValue`, after a call. -/
def obtain (got : Option Ptr) : Call → Option Ptr
  | .moduleTypeGetValue kp => some kp.moduleValue
  | _ => got

/-- What a call returns, where this does not depend on the store. -/
def known? (argv : List RedisModuleString) : (c : Call) → Option c.Res
  | .argv i => argv[i]?
  | .threadSafeContextUnlock => some ()
  | .keyType kp => some kp.keyType
  | .moduleTypeGetType kp => some kp.moduleType
  | .moduleTypeGetValue kp => some kp.moduleValue
  | _ => none

lemma operand?_of_known {argv : List RedisModuleString} {c : Call} {r : c.Res}
    (h : c.known? argv = some r) : c.operand? = none := by
  cases c <;> first | rfl | cases h

lemma unknown_of_destroys {c : Call} {st : Store} {ptr : Ptr} (h : c.destroys? st = some ptr)
    (argv : List RedisModuleString) : c.operand? = none ∧ c.known? argv = none := by
  cases c <;> first | exact ⟨rfl, rfl⟩ | cases h

lemma exec_known {argv : List RedisModuleString} {c : Call} {r res : c.Res} {st st' : Store}
    (h : c.known? argv = some r) (hexec : Store.exec argv c st = some (res, st')) :
    res = r ∧ st' = st := by
  cases c
  case argv i =>
    obtain ⟨arg, harg, heq⟩ := Option.map_eq_some_iff.mp hexec
    cases heq
    exact ⟨Option.some.inj (harg.symm.trans h), rfl⟩
  all_goals first
    | cases h; done
    | (cases h; cases hexec; exact ⟨rfl, rfl⟩)

end Call

/-- The object that a program has got from `ModuleTypeGetValue`, or will get, and is bound to operate
on whatever the other threads do. -/
def aim? (argv : List RedisModuleString) : Option Ptr → RedisM Unit → Option Ptr
  | _, .pure _ => none
  | got, .call c k =>
    match c.operand? with
    | some ptr => if got = some ptr then some ptr else none
    | none =>
      match c.known? argv with
      | some r => aim? argv (c.obtain got) (k r)
      | none => none

/-- A program that gets to an object by one `OpenKey`: after any other call that depends on the
store it is not bound to operate on an object that it has got from `ModuleTypeGetValue`. -/
def LooksUpOnce (argv : List RedisModuleString) : Option Ptr → RedisM Unit → Prop
  | _, .pure _ => True
  | got, .call c k =>
    match c.known? argv with
    | some r => LooksUpOnce argv (c.obtain got) (k r)
    | none => ∀ r, LooksUpOnce argv got (k r) ∧
        ((∃ key, c = .openKey key) ∨ aim? argv got (k r) = none)

section Bodies

variable {argv : List RedisModuleString} {got : Option Ptr} {c : Call} {k : c.Res → RedisM Unit}

lemma aim?_operand {ptr : Ptr} (hc : c.operand? = some ptr) (hgot : got = some ptr) :
    aim? argv got (.call c k) = some ptr := by
  simp only [aim?, hc, if_pos hgot]

lemma aim?_known {r : c.Res} (hc : c.known? argv = some r) :
    aim? argv got (.call c k) = aim? argv (c.obtain got) (k r) := by
  simp only [aim?, hc, Call.operand?_of_known hc]

lemma aim?_unknown (hop : c.operand? = none) (hc : c.known? argv = none) :
    aim? argv got (.call c k) = none := by
  simp only [aim?, hc, hop]

lemma once_known {r : c.Res} (hc : c.known? argv = some r)
    (h : LooksUpOnce argv (c.obtain got) (k r)) : LooksUpOnce argv got (.call c k) := by
  simp only [LooksUpOnce, hc]
  exact h

/-- A program that is not yet, or no longer, bound to operate on an object. -/
def Unaimed (argv : List RedisModuleString) (got : Option Ptr) (p : RedisM Unit) : Prop :=
  LooksUpOnce argv got p ∧ aim? argv got p = none

lemma unaimed_pure : Unaimed argv got (.pure ()) := ⟨trivial, rfl⟩

lemma once_unknown (hc : c.known? argv = none) (h : ∀ r, Unaimed argv got (k r)) :
    LooksUpOnce argv got (.call c k) := by
  simp only [LooksUpOnce, hc]
  exact fun r => ⟨(h r).1, .inr (h r).2⟩

lemma unaimed_unknown (hop : c.operand? = none) (hc : c.known? argv = none)
    (h : ∀ r, Unaimed argv got (k r)) : Unaimed argv got (.call c k) :=
  ⟨once_unknown hc h, aim?_unknown hop hc⟩

lemma unaimed_known {r : c.Res} (hc : c.known? argv = some r)
    (h : Unaimed argv (c.obtain got) (k r)) : Unaimed argv got (.call c k) :=
  ⟨once_known hc h.1, (aim?_known hc).trans h.2⟩

lemma unaimed_open {key : RedisModuleString} {k : RedisModuleKey → RedisM Unit}
    (h : ∀ kp, LooksUpOnce argv got (k kp)) : Unaimed argv got (.call (.openKey key) k) :=
  ⟨fun kp => ⟨h kp, .inl ⟨key, rfl⟩⟩, rfl⟩

lemma unaimed_reply (r : Reply) : Unaimed argv got (api (.reply r)) :=
  unaimed_unknown rfl rfl fun _ => unaimed_pure

lemma unaimed_unlock : Unaimed argv got threadSafeContextUnlock := unaimed_known rfl unaimed_pure

lemma once_wrongType {kp : RedisModuleKey} {mt : RedisModuleType} {f : Bool → RedisM Unit}
    (hf : ∀ wrong, LooksUpOnce argv got (f wrong)) :
    LooksUpOnce argv got (wrongType kp kp.keyType mt >>= f) := by
  unfold wrongType
  split
  · exact hf false
  · exact once_known rfl (hf _)

/-- `lookup_key`, and what its caller does with the object. -/
lemma unaimed_lookupKey {key : RedisModuleString} {f : Ptr → RedisM Unit}
    (hnull : Unaimed argv none (f nullptr)) (hf : ∀ ptr, LooksUpOnce argv (some ptr) (f ptr)) :
    Unaimed argv none (lookupKey key false >>= f) := by
  unfold lookupKey
  simp only [Prog.bind_bind_eq, Prog.lift_bind_eq, Prog.call_bind_eq]
  refine unaimed_open fun kp => once_known rfl (once_wrongType fun wrong => ?_)
  split
  · exact once_unknown rfl fun _ => hnull
  · split
    · exact once_unknown rfl fun _ => hnull
    · exact once_known rfl (hf _)

lemma unaimed_create : Unaimed argv none (llcaConcCreateEvent argv.length false) := by
  unfold llcaConcCreateEvent checkArity
  by_cases hlen : argv.length = 2
  · obtain ⟨name, key, rfl⟩ := List.length_eq_two.mp hlen
    refine unaimed_unknown rfl rfl fun _ => unaimed_known (r := key) rfl ?_
    refine unaimed_open fun kp => once_known rfl ?_
    dsimp only [Prog.bind]
    split
    · exact once_unknown rfl fun _ => unaimed_unlock
    · refine once_unknown rfl fun ll => unaimed_unknown rfl rfl fun _ => ?_
      refine unaimed_unknown rfl rfl fun _ => unaimed_known rfl (unaimed_reply _)
  · rw [if_pos hlen]
    exact unaimed_reply _

lemma unaimed_delete : Unaimed argv none (llcaConcDeleteEvent argv.length false) := by
  unfold llcaConcDeleteEvent checkArity
  by_cases hlen : argv.length = 2
  · obtain ⟨name, key, rfl⟩ := List.length_eq_two.mp hlen
    refine unaimed_unknown rfl rfl fun _ => unaimed_known (r := key) rfl ?_
    refine unaimed_open fun kp => once_known rfl ?_
    dsimp only [Prog.bind]
    split
    · exact once_unknown rfl fun _ => unaimed_unlock
    · refine once_known rfl ?_
      dsimp only [Prog.bind]
      split
      · exact once_unknown rfl fun _ => unaimed_unlock
      · refine once_known rfl (once_unknown rfl fun _ => unaimed_unknown rfl rfl fun _ => ?_)
        exact unaimed_unknown rfl rfl fun _ => unaimed_known rfl (unaimed_reply _)
  · rw [if_pos hlen]
    exact unaimed_reply _

variable [StringToLongLong]

/-- The event of a member function of `llca_conc_obj`, which is one call. -/
lemma unaimed_setEvent {op : Ptr → Int64 → RedisM Bool} {failure : String}
    (hop : ∀ (ptr : Ptr) v (f : Bool → RedisM Unit), (∀ found, Unaimed argv (some ptr) (f found)) →
      LooksUpOnce argv (some ptr) (op ptr v >>= f)) :
    Unaimed argv none (llcaConcSetEvent op failure argv.length false) := by
  unfold llcaConcSetEvent checkArity
  by_cases hlen : argv.length = 3
  · obtain ⟨name, key, arg, rfl⟩ := List.length_eq_three.mp hlen
    refine unaimed_known (r := arg) rfl ?_
    dsimp only [Prog.bind]
    unfold stringToLonglong
    cases StringToLongLong.parse arg with
    | none => exact unaimed_unknown rfl rfl fun _ => unaimed_pure
    | some value =>
      refine unaimed_known (r := key) rfl (unaimed_lookupKey unaimed_pure fun ptr => ?_)
      split
      · trivial
      · refine hop ptr value _ fun found => ?_
        split
        · exact unaimed_reply _
        · exact unaimed_reply _
  · rw [if_pos hlen]
    exact unaimed_reply _

lemma unaimed_llcaEvent {body : RedisModuleKey → KeyType → Int64 → RedisM RedisModuleString}
    (hbody : ∀ kp value, LooksUpOnce argv none (body kp kp.keyType value >>= replyWithString)) :
    Unaimed argv none (llcaEvent (llcaRedisCommand body) argv.length) := by
  unfold llcaEvent llcaRedisCommand
  refine unaimed_unknown rfl rfl fun _ => ?_
  by_cases hlen : argv.length = 3
  · obtain ⟨name, key, arg, rfl⟩ := List.length_eq_three.mp hlen
    refine unaimed_unknown rfl rfl fun _ => unaimed_known (r := key) rfl ?_
    refine unaimed_open fun kp => once_known rfl (once_known rfl ?_)
    change LooksUpOnce _ none ((wrongType kp kp.keyType .llca >>= _) >>= replyWithString)
    rw [Prog.bind_bind_eq]
    refine once_wrongType fun wrong => ?_
    split
    · exact (unaimed_reply _).1
    · refine once_known (r := arg) rfl ?_
      dsimp only [Prog.bind]
      cases StringToLongLong.parse arg with
      | none => exact (unaimed_reply _).1
      | some value => exact hbody kp value
  · rw [if_pos hlen]
    exact unaimed_reply _

/-- What the events do before and after they look up an object. -/
theorem unaimed_execute (type : EventType) (argv : List RedisModuleString) :
    Unaimed argv none (type.execute argv.length false) := by
  cases type with
  | llcaRemove =>
    refine unaimed_llcaEvent fun kp value => ?_
    split
    · exact (unaimed_reply _).1
    · refine once_known rfl (once_unknown rfl fun removed => ?_)
      dsimp only [Prog.bind]
      split
      · exact unaimed_reply _
      · exact unaimed_reply _
  | llcaContains =>
    refine unaimed_llcaEvent fun kp value => ?_
    split
    · exact (unaimed_reply _).1
    · refine once_known rfl (once_unknown rfl fun found => ?_)
      dsimp only [Prog.bind]
      split
      · exact unaimed_reply _
      · exact unaimed_reply _
  | llcaInsert =>
    refine unaimed_llcaEvent fun kp value => ?_
    split
    · -- the list that it inserts into has not come from ModuleTypeGetValue
      refine once_unknown rfl fun ll => unaimed_unknown rfl rfl fun _ => ?_
      exact ⟨once_unknown rfl fun _ => unaimed_reply _, if_neg nofun⟩
    · exact once_known rfl (once_unknown rfl fun _ => unaimed_reply _)
  | llcaConcCreate => exact unaimed_create
  | llcaConcDelete => exact unaimed_delete
  | llcaConcRemove | llcaConcContains | llcaConcInsert =>
    exact unaimed_setEvent fun ptr v f hf => once_unknown rfl hf

end Bodies

/-! ## Runs -/

section Runs

variable {n : Nat}

def State.destroys? (s : State n) : Label n → Option Ptr
  | .step t =>
    match s.procs t with
    | .execute _ (.call c _) => c.destroys? s.redis.store
    | .builtin c => s.redis.store.frees? c.key
    | _ => none
  | _ => none

/-- The pointers that the workers have got from `ModuleTypeGetValue` for their events. -/
def State.noteObtained (s : State n) : Label n → (Fin n → Option Ptr) → Fin n → Option Ptr
  | .step (.worker w), got =>
    match s.procs (.worker w) with
    | .execute _ (.call c _) => Function.update got w (c.obtain (got w))
    | .idle => Function.update got w none
    | _ => got
  | _, got => got

/-- The system with the pointers that its workers have got. -/
def State.stepObtained [StringToLongLong] :
    State n × (Fin n → Option Ptr) → Label n → Option (State n × (Fin n → Option Ptr)) :=
  withNotes State.step State.noteObtained

/-- The object that a thread with the pointer `got` is bound to operate on. -/
def Proc.aim? (got : Option Ptr) : Proc → Option Ptr
  | .execute e rest => RedPar.aim? e.argv got rest
  | _ => none

/-- The object that a worker finds in this step, and will be bound to operate on. -/
def State.finds? (s : State n) (got : Fin n → Option Ptr) : Label n → Option Ptr
  | .step (.worker w) =>
    match s.procs (.worker w) with
    | .execute e (.call (.openKey key) k) =>
      RedPar.aim? e.argv (got w) (k ⟨key, s.redis.store.keyspace key⟩)
    | _ => none
  | _ => none

/-- The step destroys no object that a worker has found and not yet operated on, and finds no
object that has been destroyed. -/
def SparesObjects (x : State n × (Fin n → Option Ptr)) (l : Label n) : Prop :=
  (∀ ptr ∈ x.1.destroys? l, ∀ w, (x.1.procs (.worker w)).aim? (x.2 w) ≠ some ptr) ∧
    ∀ ptr ∈ x.1.finds? x.2 l, x.1.redis.store.Stands ptr

def AimsStand (x : State n × (Fin n → Option Ptr)) : Prop :=
  ∀ w, ∀ ptr ∈ (x.1.procs (.worker w)).aim? (x.2 w), x.1.redis.store.Stands ptr

/-- An insertion, a removal or a membership test that a worker applies to an object that it has got
from `ModuleTypeGetValue` finds it standing. -/
def OperandsStand (x : State n × (Fin n → Option Ptr)) : Prop :=
  ∀ w, ∀ c ∈ (x.1.procs (.worker w)).call?, ∀ ptr ∈ c.operand?, x.2 w = some ptr →
    x.1.redis.store.Stands ptr

variable {s s' : State n} {got : Fin n → Option Ptr} {l : Label n}

lemma loses_step [StringToLongLong] (hs : StepCase s l s') :
    s.redis.store.Loses (s.destroys? l) s'.redis.store := by
  cases hs with
  | conc | seq | redis => exact .rfl
  | construct id type argv hproc =>
    simp only [State.destroys?, hproc]
    exact .rfl
  | enqueue e hproc | seqReturn e hproc | executed w e hproc =>
    simp only [State.destroys?, hproc]
    exact .rfl
  | ret e hproc | drop w e hproc =>
    simp only [State.destroys?, hproc, State.release_store]
    exact .rfl
  | spin w hidle | dequeue w e queue hidle =>
    simp only [State.destroys?, hidle]
    exact .rfl
  | mainCall e c k hproc _ res redis hexec | workerCall w e c k hproc _ res redis hexec =>
    obtain ⟨lock, store, _, hstore, rfl⟩ := Redis.exec_eq_some hexec
    simp only [State.destroys?, hproc]
    exact Call.loses hstore
  | builtin c hproc store hstore =>
    simp only [State.destroys?, hproc]
    cases c with
    | del key => exact .dbDelete hstore
    | set key contents => exact .dbOverwrite hstore

lemma noteObtained_call {w : Fin n} {e : Event} {c : Call} {k : c.Res → RedisM Unit}
    (hproc : s.procs (.worker w) = .execute e (.call c k)) :
    s.noteObtained (.step (.worker w)) got w = c.obtain (got w) := by
  simp [State.noteObtained, hproc]

lemma noteObtained_of_ne {w : Fin n} (hl : l ≠ .step (.worker w)) :
    s.noteObtained l got w = got w := by
  cases l with
  | command | redis => rfl
  | step t =>
    cases t with
    | main => rfl
    | worker w' =>
      have hne : w ≠ w' := fun heq => hl (heq ▸ rfl)
      cases hproc : s.procs (.worker w') with
      | idle => simp [State.noteObtained, hproc, hne]
      | execute e rest => cases rest <;> simp [State.noteObtained, hproc, hne]
      | _ => simp [State.noteObtained, hproc]

variable [StringToLongLong]

lemma procs_of_ne (hs : StepCase s l s') {w : Fin n} (hl : l ≠ .step (.worker w)) :
    s'.procs (.worker w) = s.procs (.worker w) := by
  have hne : ∀ w', l = .step (.worker w') → w ≠ w' := fun w' hw' heq => hl (heq ▸ hw')
  cases hs with
  | conc | seq | redis | construct | enqueue | ret | mainCall | seqReturn | builtin => simp
  | spin w' => rfl
  | dequeue w' | workerCall w' | executed w' | drop w' => simp [hne w' rfl]

/-- What runs keep in which no object is destroyed that a worker is bound to operate on. -/
structure Aimed (x : State n × (Fin n → Option Ptr)) : Prop where
  wellFormed : x.1.WellFormed
  fresh : x.1.redis.store.Fresh
  once : ∀ w e rest, x.1.procs (.worker w) = .execute e rest → LooksUpOnce e.argv (x.2 w) rest
  stand : AimsStand x

namespace Aimed

variable {x x' : State n × (Fin n → Option Ptr)}

omit [StringToLongLong] in
lemma init {st : Store} (hst : st.Fresh) : Aimed (State.init n st, fun _ => none) where
  wellFormed := State.wellFormed_init st
  fresh := hst
  once _ _ _ h := nomatch h
  stand _ _ h := nomatch h

lemma own (h : Aimed (s, got)) {w : Fin n} (hok : SparesObjects (s, got) (.step (.worker w)))
    (hs : StepCase s (.step (.worker w)) s') :
    (∀ e rest, s'.procs (.worker w) = .execute e rest →
      LooksUpOnce e.argv (s.noteObtained (.step (.worker w)) got w) rest) ∧
    ∀ ptr ∈ (s'.procs (.worker w)).aim? (s.noteObtained (.step (.worker w)) got w),
      s'.redis.store.Stands ptr := by
  cases hs with
  | spin _ hidle => 
    rw [hidle]
    exact ⟨nofun, nofun⟩
  | dequeue _ e queue hidle _ he =>
    have hgot : s.noteObtained (.step (.worker w)) got w = none := by
      simp [State.noteObtained, hidle]
    have hproc : (({ s with queue }.setProc (.worker w) (.execute e e.execute)).record
        [.dequeued e.id]).procs (.worker w) = .execute e e.execute := by simp
    have hstart : Unaimed e.argv none e.execute := by
      rw [Event.execute, he.threadSafe]
      exact unaimed_execute e.type e.argv
    rw [hgot, hproc]
    refine ⟨fun e' rest heq => ?_, fun ptr hptr => ?_⟩
    · cases heq
      exact hstart.1
    · cases hstart.2.symm.trans hptr
  | workerCall _ e c k hproc _ res redis hexec =>
    obtain ⟨lock, store, _, hstore, rfl⟩ := Redis.exec_eq_some hexec
    have honce := h.once w e _ hproc
    -- where the rest of the event is bound to go
    have hrest : LooksUpOnce e.argv (c.obtain (got w)) (k res) ∧
        ∀ ptr ∈ aim? e.argv (c.obtain (got w)) (k res), store.Stands ptr := by
      cases hc : c.known? e.argv with
      | some r =>
        obtain ⟨rfl, rfl⟩ := Call.exec_known hc hstore
        simp only [LooksUpOnce, hc] at honce
        refine ⟨honce, fun ptr hptr => h.stand w ptr ?_⟩
        rw [hproc]
        exact (aim?_known hc).trans hptr
      | none =>
        have hsame : c.obtain (got w) = got w := by cases c <;> first | rfl | cases hc
        simp only [LooksUpOnce, hc] at honce
        rw [hsame]
        refine ⟨(honce res).1, fun ptr hptr => ?_⟩
        rcases (honce res).2 with ⟨key, rfl⟩ | hnone
        · cases hstore
          refine hok.2 ptr ?_
          simp only [State.finds?, hproc]
          exact hptr
        · cases hnone.symm.trans hptr
    rw [noteObtained_call hproc]
    refine ⟨fun e' rest heq => ?_, fun ptr hptr => hrest.2 ptr ?_⟩
    · have hproc' : Proc.execute e (k res) = .execute e' rest := by simpa using heq
      cases hproc'
      exact hrest.1
    · simpa [Proc.aim?] using hptr
  | executed _ e hproc =>
    exact ⟨by simp, by simp [Proc.aim?]⟩
  | drop _ e hproc =>
    exact ⟨by simp, by simp [Proc.aim?]⟩

theorem step (h : Aimed x) (hok : SparesObjects x l) (hstep : State.stepObtained x l = some x') :
    Aimed x' := by
  obtain ⟨s, got⟩ := x
  obtain ⟨s', got'⟩ := x'
  obtain ⟨hstep, rfl⟩ := withNotes_eq_some.mp hstep
  have hs : StepCase s l s' := State.step_cases h.wellFormed hstep
  have hloses := loses_step hs
  refine ⟨State.wellFormed_step h.wellFormed hstep, hloses.fresh h.fresh, fun w e rest hproc => ?_,
    fun w ptr hptr => ?_⟩
  · by_cases hl : l = .step (.worker w)
    · subst hl
      exact (h.own hok hs).1 e rest hproc
    · dsimp only at hproc ⊢
      rw [procs_of_ne hs hl] at hproc
      rw [noteObtained_of_ne hl]
      exact h.once w e rest hproc
  · by_cases hl : l = .step (.worker w)
    · subst hl
      exact (h.own hok hs).2 ptr hptr
    · dsimp only at hptr ⊢
      rw [procs_of_ne hs hl, noteObtained_of_ne hl] at hptr
      exact hloses.stays ptr (fun hdead => hok.1 ptr hdead w hptr) h.fresh (h.stand w ptr hptr)

end Aimed

omit [StringToLongLong] in
lemma finds?_eq_some {ptr : Ptr} (h : s.finds? got l = some ptr) :
    ∃ w e key k, l = .step (.worker w) ∧
      s.procs (.worker w) = .execute e (.call (.openKey key) k) ∧
      aim? e.argv (got w) (k ⟨key, s.redis.store.keyspace key⟩) = some ptr := by
  unfold State.finds? at h
  split at h
  · rename_i w
    split at h
    · rename_i e key k hproc
      exact ⟨w, e, key, k, rfl, hproc, h⟩
    · cases h
  · cases h

/-- A step that destroys an object that a worker is bound to operate on, or by which a worker finds
an object that has been destroyed. -/
lemma not_aimsStand {x x' : State n × (Fin n → Option Ptr)} (hw : x.1.WellFormed)
    (hstep : State.stepObtained x l = some x') (hnot : ¬SparesObjects x l) : ¬AimsStand x' := by
  obtain ⟨s, got⟩ := x
  obtain ⟨s', got'⟩ := x'
  obtain ⟨hstep, rfl⟩ := withNotes_eq_some.mp hstep
  have hs : StepCase s l s' := State.step_cases hw hstep
  intro hstand
  refine hnot ⟨fun ptr hdead w haim => ?_, fun ptr hfinds => ?_⟩
  · have hl : l ≠ .step (.worker w) := by
      rintro rfl
      cases hproc : s.procs (.worker w) with
      | execute e rest =>
        cases rest with
        | pure u => simp [State.destroys?, hproc] at hdead
        | call c k =>
          simp only [State.destroys?, hproc] at hdead
          obtain ⟨hop, hunknown⟩ := Call.unknown_of_destroys hdead e.argv
          have hnone : (s.procs (.worker w)).aim? (got w) = none := by
            rw [hproc]
            exact aim?_unknown hop hunknown
          cases hnone.symm.trans haim
      | _ =>
        dsimp only at haim
        rw [hproc] at haim
        cases haim
    refine (loses_step hs).gone ptr hdead (hstand w ptr ?_)
    dsimp only
    rw [procs_of_ne hs hl, noteObtained_of_ne hl]
    exact haim
  · obtain ⟨w, e, key, k, rfl, hproc, haim⟩ := finds?_eq_some hfinds
    have hcall : (s.stepThread (.worker w)) = some s' := hstep
    rw [State.stepThread_call hproc] at hcall
    obtain ⟨⟨res, redis⟩, hexec, rfl⟩ := Option.map_eq_some_iff.mp hcall
    obtain ⟨lock, store, _, hstore, rfl⟩ := Redis.exec_eq_some hexec
    cases hstore
    refine hstand w ptr ?_
    dsimp only
    rw [noteObtained_call hproc, State.setProc_procs, Function.update_self]
    exact haim

/-- The objects that workers are bound to operate on stand throughout a run if and only if none of
its steps destroys such an object, and no worker finds one that has been destroyed. -/
theorem aimsStand_iff {st : Store} (hst : st.Fresh) {ls : List (Label n)}
    {x : State n × (Fin n → Option Ptr)}
    (hrun : Runs State.stepObtained anyStep (State.init n st, fun _ => none) ls x) :
    Runs.Always State.stepObtained AimsStand (State.init n st, fun _ => none) ls ↔
      Runs State.stepObtained SparesObjects (State.init n st, fun _ => none) ls x := by
  refine Runs.always_iff (fun ls x hrun => ?_) (fun ls x l x' hrun hstep hnot => ?_) hrun
  · exact (hrun.invariant (fun _ _ _ h hok hstep => h.step hok hstep) (Aimed.init hst)).stand
  · have hw : x.1.WellFormed :=
      (State.run_invariant (I := fun _ => True) trivial (fun _ _ _ _ _ _ _ => trivial)
        (Runs.of_notes anyStep hrun)).1
    exact not_aimsStand hw hstep hnot

omit [StringToLongLong] in
lemma AimsStand.operandsStand {x : State n × (Fin n → Option Ptr)} (h : AimsStand x) :
    OperandsStand x := by
  intro w c hc ptr hop hgot
  refine h w ptr ?_
  unfold Proc.call? at hc
  split at hc
  · rename_i e c' k hproc
    cases hc
    rw [hproc]
    exact aim?_operand hop hgot
  · cases hc

/-- In every run in which no object is destroyed that a worker has found and not yet operated on,
and in which no worker finds one that has been destroyed, the workers operate on objects that
stand. -/
theorem operands_stand {st : Store} (hst : st.Fresh) {ls : List (Label n)}
    {x : State n × (Fin n → Option Ptr)}
    (hrun : Runs State.stepObtained SparesObjects (State.init n st, fun _ => none) ls x) :
    OperandsStand x := by
  have hany : Runs State.stepObtained anyStep (State.init n st, fun _ => none) ls x :=
    hrun.mono fun _ _ _ => trivial
  exact ((aimsStand_iff hst hany).mpr hrun ls x List.prefix_rfl hany).operandsStand

end Runs

instance (st : Store) (ptr : Ptr) : Decidable (st.Stands ptr) :=
  inferInstanceAs (Decidable (∃ obj ∈ st.heap ptr, obj ≠ .raw))

instance {n : Nat} (x : State n × (Fin n → Option Ptr)) (l : Label n) :
    Decidable (SparesObjects x l) := inferInstanceAs (Decidable (_ ∧ _))

lemma fresh_empty : Store.empty.Fresh := fun _ _ => rfl

def Label.insertion (value : RedisModuleString) : List (Label 1) :=
  Label.queue .llcaTypeInsert ["llca_type.insert", "k", value]

/-- The second of two insertions, where it has got the list. -/
theorem operands_stand_insert : ∃ x : State 1 × (Fin 1 → Option Ptr),
    (x.1.procs (.worker 0)).call? = some (.llcaInsert 1 6) ∧ x.2 0 = some 1 ∧
      x.1.redis.store.Stands 1 := by
  let _ := decimalStrings
  let labels := Label.insertion "5" ++ Label.insertion "6" ++ Label.turn (.worker 0) 24
  obtain ⟨x, hrun, hx⟩ : ∃ x, Runs State.stepObtained SparesObjects (State.init 1 .empty, fun _ => none)
      labels x ∧
      decide ((x.1.procs (.worker 0)).call? = some (.llcaInsert 1 6) ∧ x.2 0 = some 1) = true :=
    Runs.exists_of_guarded _ (by decide +kernel)
  obtain ⟨hcall, hgot⟩ := of_decide_eq_true hx
  exact ⟨x, hcall, hgot, operands_stand fresh_empty hrun 0 _ hcall 1 rfl hgot⟩

/-- `DEL` of the list that the second insertion has got. -/
theorem operands_stand_fails : ¬∀ (n : Nat) (st : Store) (ls : List (Label n))
    (x : State n × (Fin n → Option Ptr)), st.Fresh →
      Runs (@State.stepObtained n decimalStrings) anyStep (State.init n st, fun _ => none) ls x →
        OperandsStand x := by
  let _ := decimalStrings
  intro hall
  let labels := Label.insertion "5" ++ Label.insertion "6" ++ Label.turn (.worker 0) 24 ++
    .redis (.del "k") :: Label.turn .main 1
  obtain ⟨x, hrun, hx⟩ : ∃ x, Runs State.stepObtained anyStep (State.init 1 .empty, fun _ => none)
      labels x ∧ decide ((x.1.procs (.worker 0)).call? = some (.llcaInsert 1 6) ∧ x.2 0 = some 1 ∧
        ¬x.1.redis.store.Stands 1) = true :=
    Runs.exists_of_follow _ (by decide +kernel)
  obtain ⟨hcall, hgot, hgone⟩ := of_decide_eq_true hx
  exact hgone (hall 1 .empty labels x fresh_empty hrun 0 _ hcall 1 rfl hgot)

end RedPar
