import RedPar.Model.SkipListSets
import RedPar.Proofs.SkipListSafety
import RedPar.Proofs.Steps

/-!
# Skip lists behave as sets

The system with its skip lists refines the system in which the member functions of an
`llca_conc_obj` are single steps of a set. What the skip list does to the order of effects stays
inside: a member function takes effect at one of its accesses, or at one of another thread's. The
one thing that shows is an erase that reports contention: it returns false, and has no effect.
-/

namespace RedPar
open Interleaved SkipList

variable {n : Nat}

inductive LossyLabel (n : Nat)
  | step (l : Label n)
  | lose (t : Thread n)
deriving DecidableEq

/-- The system, where an erase may also return false without an effect. -/
def State.stepLossy [StringToLongLong] (s : State n) : LossyLabel n → Option (State n)
  | .step l => s.step l
  | .lose t =>
    match (s.procs t).setCall? with
    | some ⟨e, ll, .remove _, k⟩ =>
      (s.redis.store.concAt ll).map fun _ => s.setProc t (.execute e (k false))
    | _ => none

/-- An object whose values are `sl`, if it is a set. -/
def Obj.withSet (sl : LlcaConcObj) : Obj → Obj
  | .llcaConc _ => .llcaConc sl
  | obj => obj

namespace Store

variable (sets : Ptr → LlcaConcObj) (st : Store)

/-- The store with the values of its sets. -/
def withSets : Store := { st with heap := fun ptr => (st.heap ptr).map (Obj.withSet (sets ptr)) }

lemma withSets_heap (ptr : Ptr) :
    (st.withSets sets).heap ptr = (st.heap ptr).map (Obj.withSet (sets ptr)) := rfl

@[simp] lemma withSets_llcaAt (ptr : Ptr) : (st.withSets sets).llcaAt ptr = st.llcaAt ptr := by
  unfold llcaAt
  rw [withSets_heap]
  cases st.heap ptr with
  | none => rfl
  | some obj => cases obj <;> rfl

@[simp] lemma withSets_concAt (ptr : Ptr) :
    (st.withSets sets).concAt ptr = (st.concAt ptr).map fun _ => sets ptr := by
  unfold concAt
  rw [withSets_heap]
  cases st.heap ptr with
  | none => rfl
  | some obj => cases obj <;> rfl

lemma withSets_raw (ptr : Ptr) :
    (st.withSets sets).heap ptr = some .raw ↔ st.heap ptr = some .raw := by
  rw [withSets_heap]
  cases hobj : st.heap ptr with
  | none => exact Iff.rfl
  | some obj => cases obj <;> simp [Obj.withSet]

@[simp] lemma withSets_setKey (name : RedisModuleString) (value : Option Value) :
    (st.setKey name value).withSets sets = (st.withSets sets).setKey name value := rfl

@[simp] lemma withSets_setObj (ptr : Ptr) (obj : Option Obj) :
    (st.setObj ptr obj).withSets sets =
      (st.withSets sets).setObj ptr (obj.map (Obj.withSet (sets ptr))) := by
  have hheap := funext (Function.apply_update (fun ptr => Option.map (Obj.withSet (sets ptr)))
    st.heap ptr obj)
  exact congrArg (Store.mk st.keyspace · st.next) hheap

@[simp] lemma withSets_allocObj (obj : Obj) :
    (st.allocObj obj).withSets sets =
      (st.withSets sets).allocObj (obj.withSet (sets st.next)) := by
  have hheap := funext (Function.apply_update (fun ptr => Option.map (Obj.withSet (sets ptr)))
    st.heap st.next (some obj))
  exact congrArg (Store.mk st.keyspace · (st.next + 1)) hheap

lemma withSets_freeValue (value : Value) :
    (st.withSets sets).freeValue value = (st.freeValue value).map (withSets sets) := by
  unfold freeValue
  split
  · rw [withSets_llcaAt]
    cases st.llcaAt _ with
    | none => rfl
    | some o => simp
  · rfl
  · rfl
  · rfl

lemma withSets_dbDelete (name : RedisModuleString) :
    (st.withSets sets).dbDelete name = (st.dbDelete name).map (withSets sets) := by
  unfold dbDelete
  have hkey : (st.withSets sets).keyspace name = st.keyspace name := rfl
  rw [hkey]
  cases st.keyspace name with
  | none => rfl
  | some value =>
    dsimp only
    rw [withSets_freeValue, Option.map_map, Option.map_map]
    rfl

lemma withSets_dbOverwrite (name : RedisModuleString) (value : Value) :
    (st.withSets sets).dbOverwrite name value = (st.dbOverwrite name value).map (withSets sets) := by
  unfold dbOverwrite
  rw [withSets_dbDelete, Option.map_map, Option.map_map]
  rfl

end Store

/-- A call that does not look at the values of a set. -/
def Call.Blind (sets : Ptr → LlcaConcObj) : Call → Prop
  | .slInsert _ _ | .slErase _ _ | .slContains _ _ => False
  | .constructConc ll => sets ll = ∅
  | _ => True

lemma Store.withSets_exec {sets : Ptr → LlcaConcObj} {c : Call} (hc : c.Blind sets)
    (argv : List RedisModuleString) (st : Store) :
    (st.withSets sets).exec argv c = (st.exec argv c).map fun x => (x.1, x.2.withSets sets) := by
  cases c with
  | slInsert | slErase | slContains => exact hc.elim
  | argv i => cases h : argv[i]? <;> simp [exec, h]
  | moduleTypeSetValue kp mt value =>
    simp only [exec, withSets_dbOverwrite, Option.map_map]
    rfl
  | deleteKey kp =>
    unfold exec
    by_cases hvalue : kp.value = none
    · simp [hvalue]
    · simp only [hvalue, if_false, withSets_dbDelete, Option.map_map]
      rfl
  | createLLCAObject | alloc => simp [exec, Obj.withSet]; rfl
  | llcaInsert o val | llcaRemove o val | llcaContains o val =>
    simp only [exec, withSets_llcaAt]
    cases st.llcaAt o <;> simp [Obj.withSet]
  | constructConc ll =>
    have hempty : sets ll = ∅ := hc
    have hraw := st.withSets_raw sets ll
    simp only [exec]
    by_cases h : st.heap ll = some .raw
    · rw [if_pos h, if_pos (hraw.mpr h)]
      simp [Obj.withSet, hempty]
    · rw [if_neg h, if_neg (mt hraw.mp h)]
      rfl
  | destroyConc ll =>
    simp only [exec, withSets_concAt]
    cases st.concAt ll <;> simp [Obj.withSet]
  | free ptr =>
    simp only [exec, withSets_heap]
    cases st.heap ptr <;> simp
  | _ => rfl

namespace Proc

variable {status : Ptr → Progress} {p : Proc}

/-- Where a thread stands whose member function has taken effect, if `status` says so. -/
def answered (status : Ptr → Progress) (p : Proc) : Proc :=
  match p.setCall? with
  | none => p
  | some c =>
    match status c.ll with
    | .todo => p
    | .done r => .execute c.event (c.k r)
    | .lost => .execute c.event (c.k false)

lemma answered_of_none (h : p.setCall? = none) : p.answered status = p := by
  unfold answered
  rw [h]

lemma answered_of_todo (h : ∀ ptr, status ptr = .todo) : p.answered status = p := by
  unfold answered
  cases p.setCall? with
  | none => rfl
  | some c =>
    dsimp only
    rw [h]

end Proc

namespace State

variable (W : Ptr → World (Thread n) Int64) (s : State n) (t : Thread n) (p : Proc) (e : Event)

/-- The state in which the sets have the values of their skip lists, and a member function is over
once it has taken effect. -/
def coarse : State n :=
  { s with
    redis := { s.redis with store := s.redis.store.withSets fun ptr => (W ptr).set }
    procs := fun t => (s.procs t).answered fun ptr => (W ptr).status t }

lemma coarse_procs : (s.coarse W).procs t = (s.procs t).answered fun ptr => (W ptr).status t := rfl

lemma coarse_setProc :
    (s.setProc t p).coarse W = (s.coarse W).setProc t (p.answered fun ptr => (W ptr).status t) :=
  congrArg (fun procs => { s.coarse W with procs }) <| funext <|
    Function.apply_update (fun t p => p.answered fun ptr => (W ptr).status t) s.procs t p

lemma coarse_record (es : List Entry) : (s.record es).coarse W = (s.coarse W).record es := rfl

lemma coarse_setLock (lock : Option (Thread n)) :
    (s.setLock lock).coarse W = (s.coarse W).setLock lock := rfl

lemma coarse_leave : s.leave.coarse W = (s.coarse W).leave := by
  unfold leave
  rw [coarse_setLock, coarse_setProc]
  rfl

lemma coarse_release : (s.release e).coarse W = (s.coarse W).release e := by
  rw [release_eq, release_eq, coarse_record]
  rfl

lemma coarse_exec {c : Call} (hc : c.Blind fun ptr => (W ptr).set) :
    (s.coarse W).redis.exec t e c = (s.redis.exec t e c).map fun x =>
      (x.1, { x.2 with store := x.2.store.withSets fun ptr => (W ptr).set }) := by
  have hlock : (s.coarse W).redis.lock = s.redis.lock := rfl
  have hstore : (s.coarse W).redis.store = s.redis.store.withSets fun ptr => (W ptr).set := rfl
  unfold Redis.exec
  rw [hlock, hstore, Store.withSets_exec hc]
  cases c.lockStep t s.redis.lock with
  | none => rfl
  | some lock => cases s.redis.store.exec e.argv c <;> rfl

lemma builtinStore_withSets (sets : Ptr → LlcaConcObj) (st : Store) (c : BuiltinCommand) :
    builtinStore (st.withSets sets) c = (builtinStore st c).map (Store.withSets sets) := by
  cases c with
  | del key => exact st.withSets_dbDelete sets key
  | set key contents => exact st.withSets_dbOverwrite sets key _

variable {W s t}

lemma coarse_stepThread [StringToLongLong] (htodo : ∀ ptr, (W ptr).status t = .todo)
    (hset : (s.procs t).setCall? = none)
    (hnew : ∀ ll, (s.procs t).constructs? = some ll → (W ll).set = ∅) :
    (s.coarse W).stepThread t = (s.stepThread t).map (coarse W) := by
  have hproc := (s.coarse_procs W t).trans (Proc.answered_of_none hset)
  have hanswered : ∀ p : Proc, (p.answered fun ptr => (W ptr).status t) = p :=
    fun p => Proc.answered_of_todo htodo
  cases hp : s.procs t with
  | idle =>
    rw [hp] at hproc
    cases t with
    | main => simp [stepThread, hp, hproc]
    | worker w =>
      have hqueue : (s.coarse W).queue = s.queue := rfl
      cases hq : s.queue with
      | nil => simp [stepThread, hp, hproc, hqueue, hq]
      | cons e queue =>
        simp only [stepThread, hp, hproc, hqueue, hq, Option.map_some, coarse_record,
          coarse_setProc, hanswered]
        rfl
  | construct id type argv =>
    rw [hp] at hproc
    simp only [stepThread, hp, hproc, Option.map_some, coarse_setProc, hanswered]
    rfl
  | enqueue e =>
    rw [hp] at hproc
    simp only [stepThread, hp, hproc, Option.map_some, coarse_record, coarse_setProc, hanswered]
    rfl
  | ret e =>
    rw [hp] at hproc
    simp only [stepThread, hp, hproc, Option.map_some, coarse_release, coarse_leave]
  | execute e rest =>
    rw [hp] at hproc
    cases rest with
    | pure u =>
      cases t with
      | main => simp only [stepThread, hp, hproc, Option.map_some, coarse_record, coarse_leave]
      | worker w =>
        simp only [stepThread, hp, hproc, Option.map_some, coarse_record, coarse_setProc, hanswered]
    | call c k =>
      have hblind : c.Blind fun ptr => (W ptr).set := by
        rw [hp] at hset hnew
        cases c with
        | slInsert | slErase | slContains => cases hset
        | constructConc ll => exact hnew ll rfl
        | _ => trivial
      rw [stepThread_call hp, stepThread_call hproc, coarse_exec W s t e hblind, Option.map_map,
        Option.map_map]
      refine congrArg (Option.map · _) (funext fun x => ?_)
      simp only [Function.comp_apply, coarse_setProc, hanswered]
      rfl
  | drop e =>
    rw [hp] at hproc
    simp only [stepThread, hp, hproc, Option.map_some, coarse_release, coarse_record,
      coarse_setProc, hanswered]
  | builtin c =>
    rw [hp] at hproc
    have hstore : (s.coarse W).redis.store = s.redis.store.withSets fun ptr => (W ptr).set := rfl
    simp only [stepThread, hp, hproc, hstore, builtinStore_withSets, Option.bind_eq_bind]
    cases builtinStore s.redis.store c with
    | none => rfl
    | some store =>
      simp only [Option.map_some, Option.bind_some, coarse_leave]
      rfl

end State

namespace Store

variable {st st' : Store} {ll ptr : Ptr}

lemma concAt_setObj_of_ne {obj : Option Obj} (h : ll ≠ ptr) :
    (st.setObj ptr obj).concAt ll = st.concAt ll := by
  have hheap : (st.setObj ptr obj).heap ll = st.heap ll := Function.update_of_ne h _ _
  unfold concAt
  rw [hheap]

lemma concAt_setObj {obj : Option Obj} (h : ((st.setObj ptr obj).concAt ll).isSome)
    (hobj : ∀ sl, obj = some (.llcaConc sl) → (st.concAt ptr).isSome) : (st.concAt ll).isSome := by
  by_cases hptr : ll = ptr
  · subst hptr
    have hheap : (st.setObj ll obj).heap ll = obj := Function.update_self ..
    unfold concAt at h
    rw [hheap] at h
    cases obj with
    | none => cases h
    | some obj =>
      cases obj with
      | raw | llca => cases h
      | llcaConc sl => exact hobj sl rfl
  · rwa [concAt_setObj_of_ne hptr] at h

lemma concAt_dbDelete {name : RedisModuleString} (h : st.dbDelete name = some st')
    (hset : (st'.concAt ll).isSome) : (st.concAt ll).isSome := by
  unfold dbDelete at h
  cases hkey : st.keyspace name with
  | none =>
    rw [hkey] at h
    cases h
    exact hset
  | some value =>
    rw [hkey] at h
    obtain ⟨st₁, hfree, rfl⟩ := Option.map_eq_some_iff.mp h
    have hset₁ : (st₁.concAt ll).isSome := hset
    unfold freeValue at hfree
    split at hfree
    · obtain ⟨_, _, rfl⟩ := Option.map_eq_some_iff.mp hfree
      exact concAt_setObj hset₁ nofun
    · cases hfree
      exact hset₁
    · cases hfree
      exact hset₁
    · cases hfree
      exact hset₁

lemma concAt_dbOverwrite {name : RedisModuleString} {value : Value}
    (h : st.dbOverwrite name value = some st') (hset : (st'.concAt ll).isSome) :
    (st.concAt ll).isSome := by
  obtain ⟨st₁, hdelete, rfl⟩ := Option.map_eq_some_iff.mp h
  exact concAt_dbDelete hdelete hset

/-- Sets come from their constructor alone. -/
lemma concAt_exec {argv : List RedisModuleString} {c : Call} {res : c.Res}
    (h : st.exec argv c = some (res, st')) (hset : (st'.concAt ll).isSome) :
    (st.concAt ll).isSome ∨ c = .constructConc ll := by
  cases c with
  | argv i =>
    obtain ⟨_, _, heq⟩ := Option.map_eq_some_iff.mp h
    cases heq
    exact .inl hset
  | moduleTypeSetValue kp mt value =>
    obtain ⟨st₁, hst₁, heq⟩ := Option.map_eq_some_iff.mp h
    cases heq
    exact .inl (concAt_dbOverwrite hst₁ hset)
  | deleteKey kp =>
    simp only [exec] at h
    by_cases hvalue : kp.value = none
    · rw [if_pos hvalue] at h
      cases h
      exact .inl hset
    · rw [if_neg hvalue] at h
      obtain ⟨st₁, hst₁, heq⟩ := Option.map_eq_some_iff.mp h
      cases heq
      exact .inl (concAt_dbDelete hst₁ hset)
  | createLLCAObject | alloc =>
    cases h
    exact .inl (concAt_setObj (show ((st.setObj st.next _).concAt ll).isSome from hset) nofun)
  | llcaInsert o val | llcaRemove o val | destroyConc o | free o =>
    obtain ⟨_, _, heq⟩ := Option.map_eq_some_iff.mp h
    cases heq
    exact .inl (concAt_setObj hset nofun)
  | slInsert o val | slErase o val =>
    obtain ⟨sl, hsl, heq⟩ := Option.map_eq_some_iff.mp h
    cases heq
    refine .inl (concAt_setObj hset fun _ _ => ?_)
    rw [hsl]
    rfl
  | llcaContains o val | slContains o val =>
    obtain ⟨_, _, heq⟩ := Option.map_eq_some_iff.mp h
    cases heq
    exact .inl hset
  | constructConc o =>
    obtain ⟨_, heq⟩ := Option.ite_none_right_eq_some.mp h
    cases heq
    by_cases ho : o = ll
    · exact .inr (ho ▸ rfl)
    · rw [concAt_setObj_of_ne (Ne.symm ho)] at hset
      exact .inl hset
  | _ =>
    cases h
    exact .inl hset

end Store

namespace StepCase

variable [StringToLongLong] {s s' : State n} {l : Label n}

lemma concAt (hs : StepCase s l s') {ll : Ptr} (hset : (s'.redis.store.concAt ll).isSome) :
    (s.redis.store.concAt ll).isSome ∨
      ∃ t, l = .step t ∧ (s.procs t).constructs? = some ll := by
  have hcall : ∀ {t : Thread n} {e : Event} {c : Call} {k : c.Res → RedisM Unit} {res : c.Res}
      {redis : Redis (Thread n)}, s.procs t = .execute e (.call c k) →
      s.redis.exec t e c = some (res, redis) → (redis.store.concAt ll).isSome →
      (s.redis.store.concAt ll).isSome ∨ (s.procs t).constructs? = some ll := by
    intro t e c k res redis hproc hexec hset
    obtain ⟨lock, store, _, hstore, rfl⟩ := Redis.exec_eq_some hexec
    refine (Store.concAt_exec hstore hset).imp_right ?_
    rintro rfl
    rw [hproc]
    rfl
  cases hs with
  | mainCall e c k hproc he res redis hexec =>
    exact (hcall hproc hexec hset).imp_right fun h => ⟨.main, rfl, h⟩
  | workerCall w e c k hproc he res redis hexec =>
    exact (hcall hproc hexec hset).imp_right fun h => ⟨.worker w, rfl, h⟩
  | builtin c hproc store hstore =>
    cases c with
    | del key => exact .inl (Store.concAt_dbDelete hstore hset)
    | set key contents => exact .inl (Store.concAt_dbOverwrite hstore hset)
  | ret e | drop w e =>
    simp only [State.release_store] at hset
    exact .inl hset
  | _ => exact .inl hset

lemma procs_setCall (hs : StepCase s l s') {u : Thread n} {c : SetCall}
    (hu : (s.procs u).setCall? = some c) (hl : l ≠ .step u) : s'.procs u = s.procs u := by
  have hidle : s.procs .main = .idle → u ≠ .main := by
    rintro hmain rfl
    rw [hmain] at hu
    cases hu
  cases hs with
  | conc _ _ _ hmain | seq _ _ _ hmain | redis _ hmain => simp [hidle hmain]
  | construct | enqueue | ret | mainCall | seqReturn | builtin =>
    have hne : u ≠ .main := fun heq => hl (heq ▸ rfl)
    simp [hne]
  | spin => rfl
  | dequeue w | workerCall w | executed w | drop w =>
    have hne : u ≠ .worker w := fun heq => hl (heq ▸ rfl)
    simp [hne]

end StepCase

end RedPar
