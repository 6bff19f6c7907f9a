import RedPar.Lib.Runs
import RedPar.Model.EventQueue

/-!
# What one step of the system can do

In a well-formed state the threads stand where they can stand: only the main thread runs
handlers, only workers drop events, and every event is as its constructor made it. `StepCase`
lists the steps of such a state, one constructor for each, with what it needs and the state it
leads to. Invariants are proved by cases on it.
-/

namespace RedPar
open Interleaved

namespace Redis

variable {T : Type} [DecidableEq T]

/-- What a call adds to the history. -/
def sent (e : Event) (c : Call) : List Entry :=
  match c.reply?, e.ctx.client with
  | some reply, some client => [.reply client reply]
  | _, _ => []

/-- What one call does to the lock, to the store and to the history. -/
lemma exec_eq_some {t : T} {e : Event} {c : Call} {r r' : Redis T} {res : c.Res}
    (h : r.exec t e c = some (res, r')) : ∃ lock store, c.lockStep t r.lock = some lock ∧
      r.store.exec e.argv c = some (res, store) ∧ r' = ⟨store, lock, r.history ++ sent e c⟩ := by
  obtain ⟨lock, hlock, h⟩ := Option.bind_eq_some_iff.mp h
  obtain ⟨⟨res', store⟩, hstore, h⟩ := Option.bind_eq_some_iff.mp h
  cases h
  exact ⟨lock, store, hlock, hstore, rfl⟩

end Redis

namespace State

variable {n : Nat} (s : State n) (t : Thread n) (p : Proc) (e : Event)

@[simp] lemma setProc_redis : (s.setProc t p).redis = s.redis := rfl
@[simp] lemma setProc_procs : (s.setProc t p).procs = Function.update s.procs t p := rfl
@[simp] lemma setProc_queue : (s.setProc t p).queue = s.queue := rfl
@[simp] lemma setProc_useCount : (s.setProc t p).useCount = s.useCount := rfl
@[simp] lemma setProc_nextId : (s.setProc t p).nextId = s.nextId := rfl

@[simp] lemma record_store (es : List Entry) : (s.record es).redis.store = s.redis.store := rfl
@[simp] lemma record_lock (es : List Entry) : (s.record es).redis.lock = s.redis.lock := rfl
@[simp] lemma record_history (es : List Entry) :
    (s.record es).redis.history = s.redis.history ++ es := rfl
@[simp] lemma record_procs (es : List Entry) : (s.record es).procs = s.procs := rfl
@[simp] lemma record_queue (es : List Entry) : (s.record es).queue = s.queue := rfl
@[simp] lemma record_useCount (es : List Entry) : (s.record es).useCount = s.useCount := rfl
@[simp] lemma record_nextId (es : List Entry) : (s.record es).nextId = s.nextId := rfl

@[simp] lemma setLock_store (lock : Option (Thread n)) :
    (s.setLock lock).redis.store = s.redis.store := rfl
@[simp] lemma setLock_lock (lock : Option (Thread n)) : (s.setLock lock).redis.lock = lock := rfl
@[simp] lemma setLock_history (lock : Option (Thread n)) :
    (s.setLock lock).redis.history = s.redis.history := rfl
@[simp] lemma setLock_procs (lock : Option (Thread n)) : (s.setLock lock).procs = s.procs := rfl
@[simp] lemma setLock_queue (lock : Option (Thread n)) : (s.setLock lock).queue = s.queue := rfl
@[simp] lemma setLock_useCount (lock : Option (Thread n)) :
    (s.setLock lock).useCount = s.useCount := rfl
@[simp] lemma setLock_nextId (lock : Option (Thread n)) : (s.setLock lock).nextId = s.nextId := rfl

@[simp] lemma leave_store : s.leave.redis.store = s.redis.store := rfl
@[simp] lemma leave_lock : s.leave.redis.lock = none := rfl
@[simp] lemma leave_history : s.leave.redis.history = s.redis.history := rfl
@[simp] lemma leave_procs : s.leave.procs = Function.update s.procs .main .idle := rfl
@[simp] lemma leave_queue : s.leave.queue = s.queue := rfl
@[simp] lemma leave_useCount : s.leave.useCount = s.useCount := rfl
@[simp] lemma leave_nextId : s.leave.nextId = s.nextId := rfl

/-- The API calls made when one reference to `e` is dropped. -/
def released : List Entry := if s.useCount e.id - 1 = 0 then e.destroy else []

lemma release_eq : s.release e =
    ({ s with useCount := Function.update s.useCount e.id (s.useCount e.id - 1) } : State n).record
      (s.released e) := by
  by_cases h : s.useCount e.id - 1 = 0
  · simp only [release, released, if_pos h]
  · simp only [release, released, if_neg h, record, List.append_nil]

@[simp] lemma release_store : (s.release e).redis.store = s.redis.store := by simp [release_eq]
@[simp] lemma release_lock : (s.release e).redis.lock = s.redis.lock := by simp [release_eq]
@[simp] lemma release_history :
    (s.release e).redis.history = s.redis.history ++ s.released e := by simp [release_eq]
@[simp] lemma release_procs : (s.release e).procs = s.procs := by simp [release_eq]
@[simp] lemma release_queue : (s.release e).queue = s.queue := by simp [release_eq]
@[simp] lemma release_useCount : (s.release e).useCount =
    Function.update s.useCount e.id (s.useCount e.id - 1) := by simp [release_eq]
@[simp] lemma release_nextId : (s.release e).nextId = s.nextId := by simp [release_eq]

lemma Quiescent.drained (h : s.Quiescent) : s.Drained :=
  ⟨h.1, fun t e rest => by rw [h.2 t]; nofun⟩

lemma accept_eq_some {s s' : State n} {p : Proc} (h : s.accept p = some s') :
    s.procs .main = .idle ∧ s.redis.lock = none ∧
      s' = (s.setProc .main p).setLock (some .main) := by
  unfold accept at h
  split at h
  · rename_i hidle hlock
    exact ⟨hidle, hlock, (Option.some.inj h).symm⟩
  · cases h

end State

namespace Event

@[simp] lemma new_id (id : Nat) (type : EventType) (ctx_a : RedisModuleCtx)
    (argv : List RedisModuleString) (ts : Bool) : (new id type ctx_a argv ts).id = id := by
  cases ts <;> rfl

def Queued (e : Event) : Prop := e = new e.id e.type ⟨some e.id⟩ e.argv false

def Direct (e : Event) : Prop := e = new e.id e.type ⟨some e.id⟩ e.argv true

variable {e : Event}

lemma Queued.threadSafe (h : e.Queued) : e.threadSafe = false := by rw [h]; rfl

lemma Queued.ctx (h : e.Queued) : e.ctx = ⟨some e.id⟩ := by rw [h]; rfl

lemma Queued.destroy (h : e.Queued) :
    e.destroy = [.freeThreadSafeContext e.id, .unblockClient (some e.id)] := by rw [h]; rfl

lemma Direct.threadSafe (h : e.Direct) : e.threadSafe = true := by rw [h]; rfl

lemma Direct.ctx (h : e.Direct) : e.ctx = ⟨some e.id⟩ := by rw [h]; rfl

lemma Direct.destroy (h : e.Direct) : e.destroy = [] := by rw [h]; rfl

end Event

/-- Where the main thread can stand. -/
inductive MainProc : Proc → Prop
  | idle : MainProc .idle
  | construct (id : Nat) (type : EventType) (argv : List RedisModuleString) :
      MainProc (.construct id type argv)
  | enqueue (e : Event) (he : e.Queued) : MainProc (.enqueue e)
  | ret (e : Event) (he : e.Queued) : MainProc (.ret e)
  | execute (e : Event) (rest : RedisM Unit) (he : e.Direct) : MainProc (.execute e rest)
  | builtin (c : BuiltinCommand) : MainProc (.builtin c)

/-- Where a worker can stand. -/
inductive WorkerProc : Proc → Prop
  | idle : WorkerProc .idle
  | execute (e : Event) (rest : RedisM Unit) (he : e.Queued) : WorkerProc (.execute e rest)
  | drop (e : Event) (he : e.Queued) : WorkerProc (.drop e)

structure State.WellFormed {n : Nat} (s : State n) : Prop where
  main : MainProc (s.procs .main)
  worker : ∀ w, WorkerProc (s.procs (.worker w))
  queue : ∀ e ∈ s.queue, e.Queued

namespace State

variable {n : Nat} {s : State n}

lemma WellFormed.setMain {s₁ : State n} (hw : s.WellFormed) {p : Proc} (hp : MainProc p)
    (hprocs : s₁.procs = Function.update s.procs .main p)
    (hqueue : ∀ e ∈ s₁.queue, e ∈ s.queue ∨ e.Queued) : s₁.WellFormed where
  main := by rw [hprocs, Function.update_self]; exact hp
  worker w := by rw [hprocs, Function.update_of_ne (by simp)]; exact hw.worker w
  queue e he := (hqueue e he).elim (hw.queue e) id

lemma WellFormed.setWorker {s₁ : State n} (hw : s.WellFormed) {w : Fin n} {p : Proc}
    (hp : WorkerProc p) (hprocs : s₁.procs = Function.update s.procs (.worker w) p)
    (hqueue : ∀ e ∈ s₁.queue, e ∈ s.queue) : s₁.WellFormed where
  main := by rw [hprocs, Function.update_of_ne (by simp)]; exact hw.main
  worker w' := by
    rw [hprocs]
    by_cases hww : w' = w
    · rw [hww, Function.update_self]
      exact hp
    · rw [Function.update_of_ne (by simpa using hww)]
      exact hw.worker w'
  queue e he := hw.queue e (hqueue e he)

lemma WellFormed.direct (hw : s.WellFormed) {e : Event} {rest : RedisM Unit}
    (hproc : s.procs .main = .execute e rest) : e.Direct := by
  have hmain := hw.main
  rw [hproc] at hmain
  cases hmain
  assumption

lemma WellFormed.queued (hw : s.WellFormed) {w : Fin n} {e : Event} {rest : RedisM Unit}
    (hproc : s.procs (.worker w) = .execute e rest) : e.Queued := by
  have hworker := hw.worker w
  rw [hproc] at hworker
  cases hworker
  assumption

lemma wellFormed_init (st : Store) : (init n st).WellFormed where
  main := .idle
  worker _ := .idle
  queue _ h := absurd h List.not_mem_nil

end State

variable [StringToLongLong]

/-- The steps of a well-formed state. -/
inductive StepCase {n : Nat} (s : State n) : Label n → State n → Prop
  | conc (name : CommandName) (argv : List RedisModuleString) (hconc : name.handler = .conc)
      (hidle : s.procs .main = .idle) (hlock : s.redis.lock = none) :
      StepCase s (.command name argv)
        (((({ s with nextId := s.nextId + 1 }.record [.invoke s.nextId name argv]).setProc .main
          (.construct s.nextId name.event argv)).setLock (some .main)))
  | seq (name : CommandName) (argv : List RedisModuleString) (hseq : name.handler = .seq)
      (hidle : s.procs .main = .idle) (hlock : s.redis.lock = none) (e : Event)
      (he : e = Event.new s.nextId name.event ⟨some s.nextId⟩ argv true) :
      StepCase s (.command name argv)
        ((({ s with nextId := s.nextId + 1 }.record [.invoke s.nextId name argv]).setProc .main
          (.execute e e.execute)).setLock (some .main))
  | redis (c : BuiltinCommand) (hidle : s.procs .main = .idle) (hlock : s.redis.lock = none) :
      StepCase s (.redis c) ((s.setProc .main (.builtin c)).setLock (some .main))
  | construct (id : Nat) (type : EventType) (argv : List RedisModuleString)
      (hproc : s.procs .main = .construct id type argv) (e : Event)
      (he : e = Event.new id type ⟨some id⟩ argv false) :
      StepCase s (.step .main)
        ({ s with useCount := Function.update s.useCount id 1 }.setProc .main (.enqueue e))
  | enqueue (e : Event) (hproc : s.procs .main = .enqueue e) (he : e.Queued) :
      StepCase s (.step .main)
        (({ s with
          queue := s.queue ++ [e]
          useCount := Function.update s.useCount e.id (s.useCount e.id + 1) }.setProc .main
            (.ret e)).record [.enqueued e.id])
  | ret (e : Event) (hproc : s.procs .main = .ret e) (he : e.Queued) :
      StepCase s (.step .main) (s.leave.release e)
  | mainCall (e : Event) (c : Call) (k : c.Res → RedisM Unit)
      (hproc : s.procs .main = .execute e (.call c k)) (he : e.Direct) (res : c.Res)
      (redis : Redis (Thread n)) (hexec : s.redis.exec .main e c = some (res, redis)) :
      StepCase s (.step .main) ({ s with redis }.setProc .main (.execute e (k res)))
  | seqReturn (e : Event) (hproc : s.procs .main = .execute e (.pure ())) (he : e.Direct) :
      StepCase s (.step .main) (s.leave.record [.executed e.id])
  | builtin (c : BuiltinCommand) (hproc : s.procs .main = .builtin c) (store : Store)
      (hstore : State.builtinStore s.redis.store c = some store) :
      StepCase s (.step .main) { s with redis := { s.redis with store } }.leave
  | spin (w : Fin n) (hidle : s.procs (.worker w) = .idle) (hqueue : s.queue = []) :
      StepCase s (.step (.worker w)) s
  | dequeue (w : Fin n) (e : Event) (queue : List Event) (hidle : s.procs (.worker w) = .idle)
      (hqueue : s.queue = e :: queue) (he : e.Queued) :
      StepCase s (.step (.worker w))
        (({ s with queue }.setProc (.worker w) (.execute e e.execute)).record [.dequeued e.id])
  | workerCall (w : Fin n) (e : Event) (c : Call) (k : c.Res → RedisM Unit)
      (hproc : s.procs (.worker w) = .execute e (.call c k)) (he : e.Queued) (res : c.Res)
      (redis : Redis (Thread n)) (hexec : s.redis.exec (.worker w) e c = some (res, redis)) :
      StepCase s (.step (.worker w)) ({ s with redis }.setProc (.worker w) (.execute e (k res)))
  | executed (w : Fin n) (e : Event) (hproc : s.procs (.worker w) = .execute e (.pure ()))
      (he : e.Queued) :
      StepCase s (.step (.worker w)) ((s.setProc (.worker w) (.drop e)).record [.executed e.id])
  | drop (w : Fin n) (e : Event) (hproc : s.procs (.worker w) = .drop e) (he : e.Queued) :
      StepCase s (.step (.worker w))
        (((s.setProc (.worker w) .idle).record [.dropped e.id]).release e)

namespace State

variable {n : Nat} {s s' : State n}

lemma stepThread_call {t : Thread n} {e : Event} {c : Call} {k : c.Res → RedisM Unit}
    (hproc : s.procs t = .execute e (.call c k)) :
    s.stepThread t = (s.redis.exec t e c).map fun x =>
      { s with redis := x.2 }.setProc t (.execute e (k x.1)) := by
  unfold stepThread
  rw [hproc, Option.map_eq_bind]
  rfl

lemma step_main_cases (hw : s.WellFormed) (h : s.stepThread .main = some s') :
    StepCase s (.step .main) s' := by
  have hmain := hw.main
  generalize hproc : s.procs .main = p at hmain
  unfold stepThread at h
  rw [hproc] at h
  cases hmain with
  | idle => cases h
  | construct id type argv =>
    cases h
    exact .construct id type argv hproc _ rfl
  | enqueue e he =>
    cases h
    exact .enqueue e hproc he
  | ret e he =>
    cases h
    exact .ret e hproc he
  | execute e rest he =>
    cases rest with
    | pure _ =>
      cases h
      rw [he.destroy]
      exact .seqReturn e hproc he
    | call c k =>
      obtain ⟨⟨res, redis⟩, hexec, hs⟩ := Option.bind_eq_some_iff.mp h
      cases hs
      exact .mainCall e c k hproc he res redis hexec
  | builtin c =>
    obtain ⟨store, hstore, hs⟩ := Option.bind_eq_some_iff.mp h
    cases hs
    exact .builtin c hproc store hstore

lemma step_worker_cases {w : Fin n} (hw : s.WellFormed)
    (h : s.stepThread (.worker w) = some s') : StepCase s (.step (.worker w)) s' := by
  have hworker := hw.worker w
  generalize hproc : s.procs (.worker w) = p at hworker
  unfold stepThread at h
  rw [hproc] at h
  cases hworker with
  | idle =>
    cases hqueue : s.queue with
    | nil =>
      simp only [hqueue] at h
      cases h
      exact .spin w hproc hqueue
    | cons e queue =>
      simp only [hqueue] at h
      cases h
      exact .dequeue w e queue hproc hqueue (hw.queue e (hqueue ▸ List.mem_cons_self))
  | execute e rest he =>
    cases rest with
    | pure _ =>
      cases h
      exact .executed w e hproc he
    | call c k =>
      obtain ⟨⟨res, redis⟩, hexec, hs⟩ := Option.bind_eq_some_iff.mp h
      cases hs
      exact .workerCall w e c k hproc he res redis hexec
  | drop e he =>
    cases h
    exact .drop w e hproc he

theorem step_cases {l : Label n} (hw : s.WellFormed) (h : s.step l = some s') :
    StepCase s l s' := by
  cases l with
  | command name argv =>
    obtain ⟨hidle, hlock, rfl⟩ := accept_eq_some h
    have hidle' : s.procs .main = .idle := hidle
    cases hh : name.handler with
    | conc => exact .conc name argv hh hidle' hlock
    | seq => exact .seq name argv hh hidle' hlock _ rfl
  | redis c =>
    obtain ⟨hidle, hlock, rfl⟩ := accept_eq_some h
    exact .redis c hidle hlock
  | step t =>
    cases t with
    | main => exact step_main_cases hw h
    | worker w => exact step_worker_cases hw h

theorem wellFormed_step {l : Label n} (hw : s.WellFormed) (h : s.step l = some s') :
    s'.WellFormed := by
  cases step_cases hw h with
  | conc name argv => exact hw.setMain (.construct ..) rfl fun _ => .inl
  | seq name argv _ _ _ e he =>
    have hdirect : e.Direct := by rw [he]; rfl
    exact hw.setMain (.execute e _ hdirect) rfl fun _ => .inl
  | redis c => exact hw.setMain (.builtin c) rfl fun _ => .inl
  | construct id type argv _ e he =>
    have hqueued : e.Queued := by rw [he]; rfl
    exact hw.setMain (.enqueue e hqueued) rfl fun _ => .inl
  | enqueue e _ he =>
    refine hw.setMain (.ret e he) rfl fun e' he' => ?_
    rcases List.mem_append.mp he' with hold | hnew
    · exact .inl hold
    · rw [List.mem_singleton.mp hnew]
      exact .inr he
  | ret e => exact hw.setMain .idle (by simp) (by simp +contextual)
  | mainCall e c k _ he res => exact hw.setMain (.execute e _ he) rfl fun _ => .inl
  | seqReturn e => exact hw.setMain .idle rfl fun _ => .inl
  | builtin c => exact hw.setMain .idle rfl fun _ => .inl
  | spin w => exact hw
  | dequeue w e queue _ hqueue he =>
    exact hw.setWorker (.execute e _ he) rfl fun _ h => hqueue ▸ List.mem_cons_of_mem _ h
  | workerCall w e c k _ he res => exact hw.setWorker (.execute e _ he) rfl fun _ => id
  | executed w e _ he => exact hw.setWorker (.drop e he) rfl fun _ => id
  | drop w e => exact hw.setWorker (w := w) .idle (by simp) (by simp)

/-- What holds at the start and is kept by the steps of well-formed states holds in every run. -/
theorem run_invariant {st : Store} {ok : State n → Label n → Prop} {I : State n → Prop}
    (hinit : I (init n st))
    (hstep : ∀ s l s', s.WellFormed → I s → ok s l → StepCase s l s' → I s')
    {ls : List (Label n)} (hrun : Runs step ok (init n st) ls s) : s.WellFormed ∧ I s :=
  Runs.invariant (fun _ _ _ h hok hs =>
    And.intro (wellFormed_step h.1 hs) (hstep _ _ _ h.1 h.2 hok (step_cases h.1 hs)))
    hrun ⟨wellFormed_init st, hinit⟩

end State

def Proc.call? : Proc → Option Call
  | .execute _ (.call c _) => some c
  | _ => none

/-- The call of a command body that a step makes. -/
def State.call? {n : Nat} (s : State n) : Label n → Option Call
  | .step t => (s.procs t).call?
  | _ => none

section Carries

variable {n : Nat} (p : Nat → Bool → EventType → List RedisModuleString → Prop)

/-- The event at hand satisfies `p`, by its number, mode, type and arguments. -/
def Proc.Carries : Proc → Prop
  | .construct id type argv => p id false type argv
  | .enqueue e | .ret e | .execute e _ | .drop e => p e.id e.threadSafe e.type e.argv
  | .idle | .builtin _ => True

structure State.Carries (s : State n) : Prop where
  procs : ∀ t, (s.procs t).Carries p
  queue : ∀ e ∈ s.queue, p e.id e.threadSafe e.type e.argv

/-- Only commands whose events satisfy `q`. -/
def Label.Issues (q : Bool → EventType → List RedisModuleString → Prop) : Label n → Prop
  | .command name argv => q (name.handler = .seq) name.event argv
  | _ => True

namespace State

variable {p} {s s' : State n}

omit [StringToLongLong] in
lemma carries_init (st : Store) : (init n st).Carries p where
  procs _ := trivial
  queue _ h := absurd h List.not_mem_nil

omit [StringToLongLong] in
lemma Carries.mono {p' : Nat → Bool → EventType → List RedisModuleString → Prop}
    (h : s.Carries p) (hp : ∀ id ts type argv, p id ts type argv → p' id ts type argv) :
    s.Carries p' where
  procs t := by
    have ht := h.procs t
    cases hproc : s.procs t <;> rw [hproc] at ht <;> first | exact hp _ _ _ _ ht | exact trivial
  queue e he := hp _ _ _ _ (h.queue e he)

omit [StringToLongLong] in
lemma Carries.set (h : s.Carries p) {t : Thread n} {q : Proc}
    (hprocs : s'.procs = Function.update s.procs t q) (hq : q.Carries p)
    (hqueue : ∀ e ∈ s'.queue, e ∈ s.queue ∨ p e.id e.threadSafe e.type e.argv) :
    s'.Carries p where
  procs t' := by
    rw [hprocs]
    by_cases ht : t' = t
    · rw [ht, Function.update_self]
      exact hq
    · rw [Function.update_of_ne ht]
      exact h.procs t'
  queue e he := (hqueue e he).elim (h.queue e) id

omit [StringToLongLong] in
lemma Carries.of_proc (h : s.Carries p) {t : Thread n} {q : Proc} (hq : s.procs t = q) :
    q.Carries p := hq ▸ h.procs t

theorem Carries.step (h : s.Carries p) {l : Label n}
    (hl : ∀ name argv, l = .command name argv →
      p s.nextId (name.handler = .seq) name.event argv)
    (hs : StepCase s l s') : s'.Carries p := by
  cases hs with
  | conc name argv hconc =>
    have hp : p s.nextId false name.event argv := by simpa [hconc] using hl name argv rfl
    exact h.set rfl hp fun _ => .inl
  | seq name argv hseq _ _ e he =>
    have hp : p s.nextId true name.event argv := by simpa [hseq] using hl name argv rfl
    subst he
    exact h.set rfl hp fun _ => .inl
  | redis c => exact h.set rfl trivial fun _ => .inl
  | construct id type argv hproc e he =>
    have hp : p e.id e.threadSafe e.type e.argv := by
      rw [he]
      exact h.of_proc hproc
    exact h.set rfl hp fun _ => .inl
  | enqueue e hproc =>
    have hp : p e.id e.threadSafe e.type e.argv := h.of_proc hproc
    refine h.set rfl hp fun e' he' => ?_
    rcases List.mem_append.mp he' with hold | hnew
    · exact .inl hold
    · rw [List.mem_singleton.mp hnew]
      exact .inr hp
  | ret e => exact h.set (State.release_procs ..) trivial (by simp +contextual)
  | mainCall e c k hproc =>
    have hp : p e.id e.threadSafe e.type e.argv := h.of_proc hproc
    exact h.set rfl hp fun _ => .inl
  | seqReturn e => exact h.set rfl trivial fun _ => .inl
  | builtin c => exact h.set rfl trivial fun _ => .inl
  | spin w => exact h
  | dequeue w e queue _ hqueue =>
    have hmem : e ∈ s.queue := hqueue ▸ List.mem_cons_self
    refine h.set rfl (h.queue e hmem) fun e' he' => .inl ?_
    exact hqueue ▸ List.mem_cons_of_mem e he'
  | workerCall w e c k hproc =>
    have hp : p e.id e.threadSafe e.type e.argv := h.of_proc hproc
    exact h.set rfl hp fun _ => .inl
  | executed w e hproc =>
    have hp : p e.id e.threadSafe e.type e.argv := h.of_proc hproc
    exact h.set rfl hp fun _ => .inl
  | drop w e =>
    exact h.set (State.release_procs ..) trivial (by simp +contextual)

/-- What holds of every command that is issued holds of every event at hand. -/
lemma Carries.issued {q : Bool → EventType → List RedisModuleString → Prop}
    (h : s.Carries fun _ => q) {l : Label n} (hl : l.Issues q) (hs : StepCase s l s') :
    s'.Carries fun _ => q :=
  h.step (fun _ _ hcmd => by subst hcmd; exact hl) hs

def NoBuiltin (s : State n) : Prop := ∀ c, s.procs .main ≠ .builtin c

omit [StringToLongLong] in
lemma NoBuiltin.set (h : s.NoBuiltin) {t : Thread n} {q : Proc}
    (hprocs : s'.procs = Function.update s.procs t q) (hq : ∀ c, q ≠ .builtin c) :
    s'.NoBuiltin := by
  intro c
  rw [hprocs]
  by_cases ht : .main = t
  · rw [← ht, Function.update_self]
    exact hq c
  · rw [Function.update_of_ne ht]
    exact h c

lemma NoBuiltin.step (h : s.NoBuiltin) {l : Label n} (hl : ∀ c, l ≠ .redis c)
    (hs : StepCase s l s') : s'.NoBuiltin := by
  cases hs with
  | redis c => exact absurd rfl (hl c)
  | spin w => exact h
  | ret e | drop w e => exact h.set (State.release_procs ..) nofun
  | _ => exact h.set rfl nofun

end State

end Carries

namespace Label

variable {n : Nat}

/-- A command, and the main thread's steps through `conc_handler`. -/
def queue (name : CommandName) (argv : List RedisModuleString) : List (Label n) :=
  .command name argv :: List.replicate 3 (.step .main)

def turn (t : Thread n) (count : Nat) : List (Label n) := List.replicate count (.step t)

variable {p : Label n → Prop}

omit [StringToLongLong] in
lemma forall_mem_queue {name : CommandName} {argv : List RedisModuleString} :
    (∀ l ∈ queue name argv, p l) ↔ p (.command name argv) ∧ p (.step .main) := by
  simp [queue]

omit [StringToLongLong] in
lemma forall_mem_turn {t : Thread n} {count : Nat} (h : p (.step t)) : ∀ l ∈ turn t count, p l :=
  fun _ hl => List.eq_of_mem_replicate hl ▸ h

end Label

end RedPar
