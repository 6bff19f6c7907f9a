import RedPar.Proofs.History
import RedPar.Proofs.LockDiscipline

/-!
# The queued path and the direct path

One worker runs the events of `llca_conc.*` commands in the order in which their handlers
enqueued them. `Lags` compares the queued machine with the direct commands run up to the event at
the worker; `direct_run` says that the machine runs direct commands one after the other.
-/

namespace RedPar
open Interleaved

lemma observe_create (argv : List RedisModuleString) (argc : Nat) (st : Store) :
    Prog.observe (Store.exec argv) Call.reply? (llcaConcCreateEvent argc false) st =
      Prog.observe (Store.exec argv) Call.reply? (llcaConcCreateEvent argc true) st := by
  unfold llcaConcCreateEvent checkArity lockUnless unlockUnless
  by_cases hlen : argc = 2
  · simp [hlen, Prog.observe_call, Prog.lift, Store.exec, Call.reply?]
    refine congrArg _ (funext fun key => ?_)
    split <;> simp [Prog.observe_call, Store.exec, Call.reply?]
  · simp [hlen, Prog.observe_call]

lemma observe_delete (argv : List RedisModuleString) (argc : Nat) (st : Store) :
    Prog.observe (Store.exec argv) Call.reply? (llcaConcDeleteEvent argc false) st =
      Prog.observe (Store.exec argv) Call.reply? (llcaConcDeleteEvent argc true) st := by
  unfold llcaConcDeleteEvent checkArity lockUnless unlockUnless
  by_cases hlen : argc = 2
  · simp [hlen, Prog.observe_call, Prog.lift, Store.exec, Call.reply?]
    refine congrArg _ (funext fun key => ?_)
    split
    · simp [Prog.observe_call, Store.exec, Call.reply?]
    · simp [Prog.observe_call, Store.exec, Call.reply?]
      split <;> simp [Prog.observe_call, Store.exec, Call.reply?]
  · simp [hlen, Prog.observe_call]

/-- Run alone, an event on a set does the same in both modes. -/
theorem observe_mode [StringToLongLong] {type : EventType} (h : type.OnSet)
    (argv : List RedisModuleString) (argc : Nat) (st : Store) :
    Prog.observe (Store.exec argv) Call.reply? (type.execute argc false) st =
      Prog.observe (Store.exec argv) Call.reply? (type.execute argc true) st := by
  cases type with
  | llcaRemove | llcaContains | llcaInsert => cases h
  | llcaConcCreate => exact observe_create argv argc st
  | llcaConcDelete => exact observe_delete argv argc st
  | llcaConcRemove | llcaConcContains | llcaConcInsert => rfl

def CommandName.toSeq : CommandName → CommandName
  | llcaConcInsert => llcaSeqInsert
  | llcaConcContains => llcaSeqContains
  | llcaConcRemove => llcaSeqRemove
  | llcaConcCreate => llcaSeqCreate
  | llcaConcDelete => llcaSeqDelete
  | name => name

namespace Invocation

def direct (c : Invocation) : Invocation := { c with name := c.name.toSeq }

def command (c : Invocation) : CommandName × List RedisModuleString := (c.name, c.argv)

def event (c : Invocation) : Event := Event.new c.id c.name.event ⟨some c.id⟩ c.argv false

end Invocation

lemma toSeq_event {name : CommandName} (h : name.event.OnSet) :
    name.toSeq.handler = .seq ∧ name.toSeq.event = name.event := by
  cases name <;> first | exact ⟨rfl, rfl⟩ | cases h

section Machines

variable [StringToLongLong]

/-- The observation of a queued event is the run of the direct command. -/
lemma runCommand_of_observe {c : Invocation} (h : c.name.event.OnSet) {st st' : Store}
    {replies : List Reply}
    (hobs : Prog.observe (Store.exec c.argv) Call.reply? c.event.execute st =
      some ((), st', replies)) :
    ∃ calls, runCommand c.name.toSeq c.argv st = some (st', calls) ∧
      calls.filterMap Call.reply? = replies := by
  obtain ⟨hseq, hevent⟩ := toSeq_event h
  have hmode : Prog.observe (Store.exec c.argv) Call.reply?
      (c.name.event.execute c.argv.length true) st = some ((), st', replies) := by
    rw [← observe_mode h]
    exact hobs
  unfold Prog.observe at hmode
  obtain ⟨⟨a, st₁, calls⟩, hrun, heq⟩ := Option.map_eq_some_iff.mp hmode
  cases heq
  refine ⟨calls, ?_, rfl⟩
  simp only [runCommand, hevent, hseq, decide_true, hrun, Option.map_some]

omit [StringToLongLong] in
lemma observe_pure_unit {argv : List RedisModuleString} (a : Unit) (st : Store) :
    Prog.observe (Store.exec argv) Call.reply? (.pure a) st = some ((), st, []) := rfl

lemma runCommands_concat {cmds : List (CommandName × List RedisModuleString)} {st st₁ st₂ : Store}
    {replies : List (List Reply)} {name : CommandName} {argv : List RedisModuleString}
    {calls : List Call} (hcmds : runCommands cmds st = some (st₁, replies))
    (hcmd : runCommand name argv st₁ = some (st₂, calls)) :
    runCommands (cmds ++ [(name, argv)]) st =
      some (st₂, replies ++ [calls.filterMap Call.reply?]) := by
  induction cmds generalizing st replies with
  | nil =>
    cases hcmds
    simp [runCommands, hcmd]
  | cons cmd cmds ih =>
    obtain ⟨name', argv'⟩ := cmd
    simp only [runCommands, Option.bind_eq_bind, List.cons_append] at hcmds ⊢
    obtain ⟨⟨st', calls'⟩, hfirst, hcmds⟩ := Option.bind_eq_some_iff.mp hcmds
    obtain ⟨⟨st'', replies'⟩, hrest, hcmds⟩ := Option.bind_eq_some_iff.mp hcmds
    cases hcmds
    simp [hfirst, ih hrest]

/-- What the worker does with the event of a command, whose start the store `st₁` was. -/
def Serves (st₁ : Store) (s : State 1) : Option Invocation → Prop
  | none => (∀ e rest, s.procs (.worker 0) ≠ .execute e rest) ∧ s.redis.store = st₁
  | some c => c.name.event.OnSet ∧ ∃ rest, s.procs (.worker 0) = .execute c.event rest ∧
      Prog.observe (Store.exec c.argv) Call.reply? c.event.execute st₁ =
        (Prog.observe (Store.exec c.argv) Call.reply? rest s.redis.store).map fun x =>
          (x.1, x.2.1, repliesTo s.redis.history c.id ++ x.2.2)

/-- The commands `ended` have led to the store `st₁`, `current` is at the worker, and the events
of `waiting` are still to come. -/
structure Lags (st : Store) (s : State 1) (ended : List Invocation) (st₁ : Store)
    (current : Option Invocation) (waiting : List Invocation) : Prop where
  order : invocations s.redis.history = ended ++ current.toList ++ waiting
  done : runCommands (ended.map fun c => c.direct.command) st =
    some (st₁, ended.map fun c => repliesTo s.redis.history c.id)
  serves : Serves st₁ s current
  queued : waiting.map Invocation.event = s.queue ++ (s.procs .main).coming
  answered : ∀ id, repliesTo s.redis.history id ≠ [] → ∃ c ∈ ended ++ current.toList, c.id = id

/-- Commands of `skip_list.cpp` through the queue, and steps. -/
def Label.QueuesOnSet {n : Nat} : Label n → Prop
  | .command name _ => name.handler = .conc ∧ name.event.OnSet
  | .redis _ => False
  | .step _ => True

section Lags

variable {st st₁ : Store} {s s' : State 1} {ended waiting : List Invocation}
  {current : Option Invocation}

lemma Serves.congr (h : Serves st₁ s current) {es : List Entry}
    (hworker : s'.procs (.worker 0) = s.procs (.worker 0))
    (hstore : s'.redis.store = s.redis.store)
    (hhistory : s'.redis.history = s.redis.history ++ es) (hreplies : ∀ id, repliesTo es id = []) :
    Serves st₁ s' current := by
  unfold Serves at h ⊢
  simpa only [hworker, hstore, hhistory, repliesTo_append, hreplies, List.append_nil] using h

/-- A worker that executes an event executes that of the current command. -/
lemma Serves.of_execute (h : Serves st₁ s current) {e : Event} {rest : RedisM Unit}
    (hproc : s.procs (.worker 0) = .execute e rest) : ∃ c, current = some c ∧ c.event = e ∧
      c.name.event.OnSet ∧ Prog.observe (Store.exec c.argv) Call.reply? c.event.execute st₁ =
        (Prog.observe (Store.exec c.argv) Call.reply? rest s.redis.store).map fun x =>
          (x.1, x.2.1, repliesTo s.redis.history c.id ++ x.2.2) := by
  cases current with
  | none => exact absurd hproc (h.1 e rest)
  | some c =>
    obtain ⟨hset, rest', hrest', hobs⟩ := h
    cases hrest'.symm.trans hproc
    exact ⟨c, rfl, rfl, hset, hobs⟩

lemma Serves.of_not_execute (h : Serves st₁ s current)
    (hproc : ∀ e rest, s.procs (.worker 0) ≠ .execute e rest) :
    current = none ∧ s.redis.store = st₁ := by
  cases current with
  | none => exact ⟨rfl, h.2⟩
  | some c =>
    obtain ⟨_, rest, hrest, _⟩ := h
    exact absurd hrest (hproc c.event rest)

namespace Lags

lemma waiting_unanswered (h : Lags st s ended st₁ current waiting) (hids : s.Numbered)
    {c : Invocation} (hc : c ∈ waiting) : repliesTo s.redis.history c.id = [] := by
  by_contra hne
  obtain ⟨c', hc', hid⟩ := h.answered c.id hne
  have hnodup := hids.nodup
  rw [h.order, List.map_append] at hnodup
  exact (List.nodup_append.mp hnodup).2.2 c'.id (List.mem_map_of_mem hc') c.id
    (List.mem_map_of_mem hc) hid

lemma ended_ne {c : Invocation} (h : Lags st s ended st₁ (some c) waiting) (hids : s.Numbered)
    {c' : Invocation} (hc' : c' ∈ ended) : c'.id ≠ c.id := by
  have hnodup := hids.nodup
  rw [h.order, List.append_assoc, List.map_append] at hnodup
  refine (List.nodup_append.mp hnodup).2.2 c'.id (List.mem_map_of_mem hc') c.id ?_
  exact List.mem_map_of_mem (by simp)

lemma stay (h : Lags st s ended st₁ current waiting) (es : List Entry)
    (hhistory : s'.redis.history = s.redis.history ++ es) (hreplies : ∀ id, repliesTo es id = [])
    (hserves : Serves st₁ s' current)
    (hqueued : (waiting ++ invocations es).map Invocation.event =
      s'.queue ++ (s'.procs .main).coming) :
    Lags st s' ended st₁ current (waiting ++ invocations es) where
  order := by rw [hhistory, invocations_append, h.order, List.append_assoc]
  done := by simpa only [hhistory, repliesTo_append, hreplies, List.append_nil] using h.done
  serves := hserves
  queued := hqueued
  answered id hid := by
    rw [hhistory, repliesTo_append, hreplies, List.append_nil] at hid
    exact h.answered id hid

lemma main (h : Lags st s ended st₁ current waiting) (es : List Entry)
    (hworker : s'.procs (.worker 0) = s.procs (.worker 0))
    (hstore : s'.redis.store = s.redis.store)
    (hhistory : s'.redis.history = s.redis.history ++ es) (hreplies : ∀ id, repliesTo es id = [])
    (hqueued : s'.queue ++ (s'.procs .main).coming =
      s.queue ++ (s.procs .main).coming ++ (invocations es).map Invocation.event) :
    Lags st s' ended st₁ current (waiting ++ invocations es) :=
  h.stay es hhistory hreplies (h.serves.congr hworker hstore hhistory hreplies)
    (by rw [List.map_append, h.queued, hqueued])

lemma dequeue (h : Lags st s ended st₁ current waiting) (hids : s.Numbered) {e : Event}
    {queue : List Event} (hidle : s.procs (.worker 0) = .idle) (hqueue : s.queue = e :: queue)
    (hset : e.type.OnSet) :
    ∃ c waiting', Lags st
      (({ s with queue }.setProc (.worker 0) (.execute e e.execute)).record [.dequeued e.id])
      ended st₁ (some c) waiting' := by
  obtain ⟨rfl, hstore⟩ := h.serves.of_not_execute (by simp [hidle])
  have hqueued := h.queued
  rw [hqueue, List.cons_append] at hqueued
  obtain ⟨c, waiting', rfl, hc, hwaiting⟩ := List.map_eq_cons_iff.mp hqueued
  subst hc
  have hsilent := h.waiting_unanswered hids List.mem_cons_self
  have hnone : ∀ id, repliesTo (s.redis.history ++ [.dequeued c.event.id]) id =
      repliesTo s.redis.history id := by
    intro id
    rw [repliesTo_append]
    exact List.append_nil _
  refine ⟨c, waiting', ?_⟩
  exact
    { order := by
        have hes : invocations [Entry.dequeued c.event.id] = [] := rfl
        rw [State.record_history, invocations_append, hes, List.append_nil]
        simpa using h.order
      done := by simpa only [State.record_history, State.setProc_redis, hnone] using h.done
      serves := by
        refine ⟨hset, c.event.execute, by simp, ?_⟩
        simp only [State.record_history, State.setProc_redis, hnone, hsilent, State.record_store,
          hstore, List.nil_append]
        exact Option.map_id'.symm
      queued := by simpa using hwaiting
      answered := fun id hid => by
        simp only [State.record_history, State.setProc_redis, hnone] at hid
        obtain ⟨c', hc', heq⟩ := h.answered id hid
        exact ⟨c', by simp_all, heq⟩ }

lemma call (h : Lags st s ended st₁ current waiting) (hids : s.Numbered) {e : Event} {c : Call}
    {k : c.Res → RedisM Unit} (hproc : s.procs (.worker 0) = .execute e (.call c k))
    (he : e.ctx = ⟨some e.id⟩) {res : c.Res} {store : Store}
    (hexec : Store.exec e.argv c s.redis.store = some (res, store)) {lock : Option (Thread 1)}
    {redis : Redis (Thread 1)}
    (hredis : redis = ⟨store, lock, s.redis.history ++ Redis.sent e c⟩) :
    Lags st ({ s with redis }.setProc (.worker 0) (.execute e (k res))) ended st₁ current
      waiting := by
  obtain ⟨inv, rfl, rfl, hset, hobs⟩ := h.serves.of_execute hproc
  have hself : repliesTo redis.history inv.id =
      repliesTo s.redis.history inv.id ++ c.reply?.toList := by
    rw [hredis, repliesTo_append, repliesTo_sent he]
    exact congrArg _ (if_pos rfl)
  have hother : ∀ id, id ≠ inv.id → repliesTo redis.history id = repliesTo s.redis.history id := by
    intro id hid
    have hne : id ≠ inv.event.id := hid
    rw [hredis, repliesTo_append, repliesTo_sent he, if_neg hne, List.append_nil]
  have hended : ∀ inv' ∈ ended, repliesTo s.redis.history inv'.id = repliesTo redis.history inv'.id :=
    fun inv' hinv' => (hother inv'.id (h.ended_ne hids hinv')).symm
  exact
    { order := by
        rw [State.setProc_redis, hredis, invocations_append, invocations_sent, List.append_nil]
        exact h.order
      done := by
        rw [State.setProc_redis, ← List.map_congr_left hended]
        exact h.done
      serves := by
        refine ⟨hset, k res, by simp, ?_⟩
        have hstore : redis.store = store := by rw [hredis]
        have hcall : Store.exec inv.argv c s.redis.store = some (res, store) := hexec
        rw [hobs, State.setProc_redis, hself, hstore, Prog.observe_call, hcall, Option.bind_some,
          Option.map_map]
        simp only [Function.comp_def, List.append_assoc]
      queued := by simpa using h.queued
      answered := fun id hid => by
        by_cases heq : id = inv.id
        · exact ⟨inv, by simp, heq.symm⟩
        · rw [State.setProc_redis, hother id heq] at hid
          exact h.answered id hid }

lemma executed (h : Lags st s ended st₁ current waiting) {e : Event} {a : Unit}
    (hproc : s.procs (.worker 0) = .execute e (.pure a)) :
    ∃ ended', Lags st ((s.setProc (.worker 0) (.drop e)).record [.executed e.id]) ended'
      s.redis.store none waiting := by
  obtain ⟨inv, rfl, rfl, hset, hobs⟩ := h.serves.of_execute hproc
  rw [observe_pure_unit, Option.map_some, List.append_nil] at hobs
  obtain ⟨calls, hrun, hcalls⟩ := runCommand_of_observe hset hobs
  have hnone : ∀ id, repliesTo (s.redis.history ++ [.executed inv.event.id]) id =
      repliesTo s.redis.history id := by
    intro id
    rw [repliesTo_append]
    exact List.append_nil _
  refine ⟨ended ++ [inv], ?_⟩
  exact
    { order := by
        have hes : invocations [Entry.executed inv.event.id] = [] := rfl
        rw [State.record_history, invocations_append, hes, List.append_nil]
        simpa using h.order
      done := by
        simp only [State.record_history, State.setProc_redis, hnone, List.map_append,
          List.map_singleton]
        rw [← hcalls]
        exact runCommands_concat h.done hrun
      serves := ⟨by simp, rfl⟩
      queued := by simpa using h.queued
      answered := fun id hid => by
        simp only [State.record_history, State.setProc_redis, hnone] at hid
        simpa using h.answered id hid }

/-- Every step keeps the comparison, with the commands further along. -/
theorem step (h : Lags st s ended st₁ current waiting) (hids : s.Numbered)
    (hcarries : s.Carries fun _ threadSafe type _ => threadSafe = false ∧ type.OnSet)
    (hbuiltin : s.NoBuiltin) {l : Label 1} (hl : l.QueuesOnSet)
    (hs : StepCase s l s') :
    ∃ ended st₁ current waiting, Lags st s' ended st₁ current waiting := by
  have hdirect : ∀ e rest, s.procs .main = .execute e rest → ¬e.Direct := by
    intro e rest hproc he
    have hfalse : e.threadSafe = false ∧ e.type.OnSet := hcarries.of_proc hproc
    rw [he.threadSafe] at hfalse
    cases hfalse.1
  cases hs with
  | conc name argv _ hidle =>
    refine ⟨ended, st₁, current, _, h.main _ (by simp) rfl rfl (fun _ => rfl) ?_⟩
    simp [hidle, Proc.coming, invocations, Entry.invocation?, Invocation.event]
  | seq name argv hseq => simp [Label.QueuesOnSet, hseq] at hl
  | redis c => cases hl
  | construct id type argv hproc e he =>
    refine ⟨ended, st₁, current, _, h.main [] (by simp) rfl (by simp) (fun _ => rfl) ?_⟩
    simp [hproc, Proc.coming, he]
  | enqueue e hproc =>
    refine ⟨ended, st₁, current, _, h.main _ (by simp) rfl rfl (fun _ => rfl) ?_⟩
    simp [hproc, Proc.coming, invocations, Entry.invocation?]
  | ret e hproc he =>
    refine ⟨ended, st₁, current, _, h.main (s.leave.released e) (by simp) (by simp)
      (by simp) (repliesTo_released he) ?_⟩
    simp [hproc, Proc.coming, invocations_released he]
  | mainCall e c k hproc he => exact absurd he (hdirect e _ hproc)
  | seqReturn e hproc he => exact absurd he (hdirect e _ hproc)
  | builtin c hproc => exact absurd hproc (hbuiltin c)
  | spin w => exact ⟨ended, st₁, current, waiting, h⟩
  | dequeue w e queue hidle hqueue =>
    obtain rfl : w = 0 := Subsingleton.elim w 0
    have hset : e.threadSafe = false ∧ e.type.OnSet :=
      hcarries.queue e (hqueue ▸ List.mem_cons_self)
    obtain ⟨c, waiting', h'⟩ := h.dequeue hids hidle hqueue hset.2
    exact ⟨ended, st₁, some c, waiting', h'⟩
  | workerCall w e c k hproc he res redis hexec =>
    obtain rfl : w = 0 := Subsingleton.elim w 0
    obtain ⟨lock, store, _, hstore, hredis⟩ := Redis.exec_eq_some hexec
    exact ⟨ended, st₁, current, waiting, h.call hids hproc he.ctx hstore hredis⟩
  | executed w e hproc =>
    obtain rfl : w = 0 := Subsingleton.elim w 0
    obtain ⟨ended', h'⟩ := h.executed hproc
    exact ⟨ended', s.redis.store, none, waiting, h'⟩
  | drop w e hproc he =>
    obtain rfl : w = 0 := Subsingleton.elim w 0
    obtain ⟨rfl, hstore⟩ := h.serves.of_not_execute (by simp [hproc])
    refine ⟨ended, st₁, none, _, h.stay ([.dropped e.id] ++ s.released e) ?_ ?_ ?_ ?_⟩
    · rw [State.release_history, State.record_history, List.append_assoc]
      rfl
    · intro id
      rw [repliesTo_append, repliesTo_released he]
      rfl
    · exact ⟨by simp, by simpa using hstore⟩
    · rw [invocations_dropped he, List.append_nil]
      simpa using h.queued

end Lags

/-- The queued machine, once it has run all events. -/
theorem runCommands_of_drained {ls : List (Label 1)}
    (hrun : Runs State.step (labelled Label.QueuesOnSet) (State.init 1 st) ls s)
    (hq : s.Drained) (hidle : s.procs .main = .idle) :
    runCommands ((invocations s.redis.history).map fun c => c.direct.command) st =
      some (s.redis.store,
        (invocations s.redis.history).map fun c => repliesTo s.redis.history c.id) ∧
    (∀ id, repliesTo s.redis.history id ≠ [] → ∃ c ∈ invocations s.redis.history, c.id = id) ∧
    s.Numbered ∧ s.Invoked fun name _ => name.event.OnSet := by
  have hissues : ∀ l : Label 1, l.QueuesOnSet →
      l.Issues fun threadSafe type _ => threadSafe = false ∧ type.OnSet := by
    intro l hl
    cases l with
    | command name argv => exact ⟨by simp [hl.1], hl.2⟩
    | redis c => cases hl
    | step t => exact trivial
  have hinv := State.run_invariant
    (I := fun s => s.Numbered ∧ s.Invoked (fun name _ => name.event.OnSet) ∧
      s.Carries (fun _ threadSafe type _ => threadSafe = false ∧ type.OnSet) ∧ s.NoBuiltin ∧
      ∃ ended st₁ current waiting, Lags st s ended st₁ current waiting)
    ⟨State.numbered_init st, State.invoked_init _ st, State.carries_init st, nofun,
      [], st, none, [], ⟨rfl, rfl, ⟨nofun, rfl⟩, rfl, fun _ h => absurd rfl h⟩⟩
    (fun s l s' _ ⟨hids, hset, hcarries, hbuiltin, _, _, _, _, hlags⟩ hl hs =>
      ⟨hids.step hs, hset.step (fun _ _ hcmd => by subst hcmd; exact hl.2) hs,
        hcarries.issued (hissues l hl) hs,
        hbuiltin.step (fun _ hcmd => by subst hcmd; exact hl) hs,
        hlags.step hids hcarries hbuiltin hl hs⟩) hrun
  obtain ⟨_, hids, hset, _, _, ended, st₁, current, waiting, h⟩ := hinv
  obtain ⟨rfl, hstore⟩ := h.serves.of_not_execute (hq.2 _)
  have hwaiting : waiting = [] := by
    have hqueued := h.queued
    rw [hq.1, hidle] at hqueued
    exact List.map_eq_nil_iff.mp hqueued
  have horder : invocations s.redis.history = ended := by
    rw [h.order, hwaiting]
    simp
  have hanswered := h.answered
  rw [Option.toList_none, List.append_nil] at hanswered
  rw [horder, hstore]
  exact ⟨h.done, hanswered, hids, hset⟩

end Lags

section Direct

variable {n : Nat} {s : State n}

/-- Commands of `llca_seq.*`, and steps of the main thread. -/
def Label.Direct : Label n → Prop
  | .command name _ => name.handler = .seq
  | .redis _ => False
  | .step t => t = .main

omit [StringToLongLong] in
lemma lockStep_of_keep {t : Thread n} {c : Call} {lock : Option (Thread n)} {held held' : Bool}
    (h : keepNext held c = some held') : c.lockStep t lock = some lock := by
  cases c <;> first | rfl | cases h

/-- In `s'` the main thread stands at `p`; the workers are where they were in `s`. -/
structure MainAt (s s' : State n) (p : Proc) (redis : Redis (Thread n)) : Prop where
  procs : s'.procs = Function.update s.procs .main p
  queue : s'.queue = s.queue
  redis : s'.redis = redis

lemma direct_body {e : Event} {rest : RedisM Unit} (hproc : s.procs .main = .execute e rest)
    (hctx : e.ctx = ⟨some e.id⟩) {held : Bool}
    (hkeep : Prog.Obeys (Call.Answer e.argv) keepNext (fun _ _ => True) held rest) {a : Unit}
    {st : Store} {calls : List Call}
    (hrun : rest.run (Store.exec e.argv) s.redis.store = some (a, st, calls)) :
    ∃ ls s', Runs State.step (labelled Label.Direct) s ls s' ∧ s'.nextId = s.nextId ∧
      MainAt s s' (.execute e (.pure ())) ⟨st, s.redis.lock,
        s.redis.history ++ (calls.filterMap Call.reply?).map (Entry.reply e.id)⟩ := by
  induction rest generalizing s held calls with
  | pure a' =>
    cases hrun
    exact ⟨[], s, .nil s, rfl, by rw [← hproc, Function.update_eq_self], rfl, by simp⟩
  | call c k ih =>
    obtain ⟨held', hnext, hrest⟩ := hkeep
    cases hexec : Store.exec e.argv c s.redis.store with
    | none =>
      rw [Prog.run_call_none _ hexec] at hrun
      cases hrun
    | some x =>
      obtain ⟨res, store⟩ := x
      rw [Prog.run_call _ hexec] at hrun
      obtain ⟨⟨a', st', calls'⟩, htail, heq⟩ := Option.map_eq_some_iff.mp hrun
      cases heq
      let s₁ : State n := ({ s with redis := ⟨store, s.redis.lock,
        s.redis.history ++ Redis.sent e c⟩ }).setProc .main (.execute e (k res))
      have hcall : s.redis.exec .main e c =
          some (res, ⟨store, s.redis.lock, s.redis.history ++ Redis.sent e c⟩) := by
        simp only [Redis.exec, lockStep_of_keep hnext, hexec]
        rfl
      have hstep : s.step (.step .main) = some s₁ := by
        simp [State.step, State.stepThread, hproc, hcall, s₁]
      have hproc₁ : s₁.procs .main = .execute e (k res) := by simp [s₁]
      obtain ⟨ls, s', hruns, hid, hat⟩ := ih res hproc₁ (hrest res (answer_of_exec hexec)) htail
      refine ⟨.step .main :: ls, s', .cons rfl hstep hruns, hid, ?_, hat.queue, ?_⟩
      · rw [hat.procs]
        exact Function.update_idem ..
      · rw [hat.redis]
        cases hreply : c.reply? <;> simp [s₁, sent_eq hctx, hreply]

lemma direct_command {name : CommandName} {argv : List RedisModuleString}
    (hidle : s.procs .main = .idle) (hlock : s.redis.lock = none) (hseq : name.handler = .seq)
    {st : Store} {calls : List Call}
    (hrun : runCommand name argv s.redis.store = some (st, calls)) :
    ∃ ls s', Runs State.step (labelled Label.Direct) s ls s' ∧ s'.nextId = s.nextId + 1 ∧
      MainAt s s' .idle ⟨st, none, s.redis.history ++ [.invoke s.nextId name argv] ++
        (calls.filterMap Call.reply?).map (Entry.reply s.nextId) ++ [.executed s.nextId]⟩ := by
  obtain ⟨⟨a, st', calls'⟩, hbody, heq⟩ := Option.map_eq_some_iff.mp hrun
  cases heq
  rw [decide_eq_true hseq] at hbody
  let e := Event.new s.nextId name.event ⟨some s.nextId⟩ argv true
  let s₁ : State n := (({ s with nextId := s.nextId + 1 }.record
    [.invoke s.nextId name argv]).setProc .main (.execute e e.execute)).setLock (some .main)
  have haccept : s.step (.command name argv) = some s₁ := by
    simp [State.step, State.accept, hidle, hlock, hseq, s₁, e]
  have hkeep := EventType.obeys_keepNext (onSet_of_seq hseq) argv argv.length
  have hproc₁ : s₁.procs .main = .execute e e.execute := by simp [s₁]
  obtain ⟨ls, s₂, hruns, hid, hat⟩ := direct_body hproc₁ rfl hkeep hbody
  have hproc₂ : s₂.procs .main = .execute e (.pure ()) := by simp [hat.procs]
  have hreturn : s₂.step (.step .main) = some (s₂.leave.record [.executed e.id]) := by
    simp [State.step, State.stepThread, hproc₂, e, Event.new, Event.destroy]
  have hok : labelled Label.Direct s₂ (.step (.main : Thread n)) := rfl
  refine ⟨.command name argv :: (ls ++ [.step .main]), s₂.leave.record [.executed e.id],
    .cons hseq haccept (hruns.append (.single hok hreturn)), hid, ?_, hat.queue, ?_⟩
  · rw [State.record_procs, State.leave_procs, hat.procs]
    simp [s₁]
  · unfold State.record State.leave State.setLock State.setProc
    simp [hat.redis, s₁, e, Event.new]

/-- Direct commands run one after the other as `runCommands` says. -/
theorem direct_run {cs : List Invocation} (hq : s.Quiescent) (hlock : s.redis.lock = none)
    (hids : cs.map Invocation.id = List.range' s.nextId cs.length)
    (hseq : ∀ c ∈ cs, c.name.handler = .seq)
    (hfresh : ∀ id, s.nextId ≤ id → repliesTo s.redis.history id = []) {st : Store}
    {replies : List (List Reply)}
    (hrun : runCommands (cs.map Invocation.command) s.redis.store = some (st, replies)) :
    ∃ ls s', Runs State.step (labelled Label.Direct) s ls s' ∧ s'.Quiescent ∧
      s'.redis.store = st ∧ invocations s'.redis.history = invocations s.redis.history ++ cs ∧
      cs.map (fun c => repliesTo s'.redis.history c.id) = replies ∧
      ∀ id, id ∉ cs.map Invocation.id →
        repliesTo s'.redis.history id = repliesTo s.redis.history id := by
  induction cs generalizing s replies with
  | nil =>
    cases hrun
    exact ⟨[], s, .nil s, hq, rfl, (List.append_nil _).symm, rfl, fun _ _ => rfl⟩
  | cons c cs ih =>
    obtain ⟨hfirst, hrest⟩ := List.forall_mem_cons.mp hseq
    rw [List.map_cons, List.length_cons, List.range'_succ] at hids
    obtain ⟨hid, hids⟩ := List.cons.inj hids
    simp only [List.map_cons, runCommands, Invocation.command, Option.bind_eq_bind] at hrun
    obtain ⟨⟨st₁, calls⟩, hcmd, hrun⟩ := Option.bind_eq_some_iff.mp hrun
    obtain ⟨⟨st₂, replies'⟩, hcmds, hrun⟩ := Option.bind_eq_some_iff.mp hrun
    cases hrun
    obtain ⟨ls, s₁, hruns, hnext, hat⟩ := direct_command (hq.2 .main) hlock hfirst hcmd
    have hreplies : ∀ id, repliesTo s₁.redis.history id = repliesTo s.redis.history id ++
        if id = s.nextId then calls.filterMap Call.reply? else [] := by
      intro id
      have hinvoke : repliesTo [.invoke s.nextId c.name c.argv] id = [] := rfl
      have hexecuted : repliesTo [.executed s.nextId] id = [] := rfl
      simp only [hat.redis, repliesTo_append, repliesTo_map_reply, hinvoke, hexecuted,
        List.append_nil]
    have hq₁ : s₁.Quiescent := by
      refine ⟨hat.queue.trans hq.1, fun t => ?_⟩
      have hmain := Function.update_eq_self Thread.main s.procs
      rw [hq.2 .main] at hmain
      rw [hat.procs, hmain]
      exact hq.2 t
    obtain ⟨ls', s', hruns', hq', hst, hinv, hmap, hother⟩ := ih hq₁ (by rw [hat.redis])
      (by rw [hids, hnext]) hrest (fun id hle => by
        rw [hreplies, hfresh id (by omega), if_neg (by omega)]
        rfl) (by rw [hat.redis]; exact hcmds)
    have hnotin : ∀ id, id ∈ cs.map Invocation.id → s.nextId < id := by
      intro id hmem
      rw [hids] at hmem
      exact (List.mem_range'_1.mp hmem).1
    refine ⟨ls ++ ls', s', hruns.append hruns', hq', hst, ?_, ?_, fun id hmem => ?_⟩
    · have hnew : invocations [.invoke s.nextId c.name c.argv] = [c] := by
        rw [← hid]
        rfl
      have hexecuted : invocations [.executed s.nextId] = [] := rfl
      have hinv₁ : invocations s₁.redis.history = invocations s.redis.history ++ [c] := by
        simp only [hat.redis, invocations_append, hnew, hexecuted, invocations_map_reply,
          List.append_nil]
      rw [hinv, hinv₁, List.append_assoc]
      rfl
    · rw [List.map_cons, hmap, hother c.id fun hmem => (hnotin c.id hmem).ne' hid, hreplies,
        hfresh c.id hid.ge, if_pos hid]
      rfl
    · obtain ⟨hne, hmem⟩ := not_or.mp (List.mem_cons.not.mp hmem)
      rw [hother id hmem, hreplies, if_neg (hid ▸ hne), List.append_nil]

end Direct

/-- Running the direct commands in the order of the queued ones leaves the store and gives every
client the replies of the queued run. -/
theorem queued_refines_direct {st : Store} {ls : List (Label 1)} {s : State 1}
    (hrun : Runs State.step (labelled Label.QueuesOnSet) (State.init 1 st) ls s)
    (hq : s.Drained) (hidle : s.procs .main = .idle) :
    ∃ ls' s', Runs State.step (labelled Label.Direct) (State.init 1 st) ls' s' ∧ s'.Quiescent ∧
      invocations s'.redis.history = (invocations s.redis.history).map Invocation.direct ∧
      s'.redis.store = s.redis.store ∧
      ∀ client, repliesTo s'.redis.history client = repliesTo s.redis.history client := by
  obtain ⟨hcmds, hanswered, hids, hset⟩ := runCommands_of_drained hrun hq hidle
  generalize hcs : invocations s.redis.history = cs at hcmds hanswered
  unfold State.Numbered at hids
  unfold State.Invoked at hset
  rw [hcs] at hids hset
  have hlen : cs.length = s.nextId := by simpa using congrArg List.length hids
  have hids' : (cs.map Invocation.direct).map Invocation.id =
      List.range' (State.init 1 st).nextId (cs.map Invocation.direct).length := by
    have hmap : (cs.map Invocation.direct).map Invocation.id = cs.map Invocation.id :=
      List.map_map
    rw [hmap, hids, List.length_map, hlen, List.range_eq_range']
    rfl
  have hseq : ∀ c ∈ cs.map Invocation.direct, c.name.handler = .seq := by
    intro c hc
    obtain ⟨c', hc', rfl⟩ := List.mem_map.mp hc
    exact (toSeq_event (hset c' hc')).1
  have hcmds' : runCommands ((cs.map Invocation.direct).map Invocation.command) st =
      some (s.redis.store, cs.map fun c => repliesTo s.redis.history c.id) := by
    rw [List.map_map]
    exact hcmds
  obtain ⟨ls', s', hruns, hq', hst, hinv, hmap, hother⟩ := direct_run (s := State.init 1 st)
    ⟨rfl, fun _ => rfl⟩ rfl hids' hseq (fun _ _ => rfl) hcmds'
  refine ⟨ls', s', hruns, hq', hinv, hst, fun client => ?_⟩
  rw [List.map_map] at hmap
  by_cases hclient : client ∈ cs.map Invocation.id
  · obtain ⟨c, hc, rfl⟩ := List.mem_map.mp hclient
    exact List.map_inj_left.mp hmap c hc
  · have hnone : repliesTo s.redis.history client = [] := by
      by_contra hne
      obtain ⟨c, hc, hid⟩ := hanswered client hne
      exact hclient (List.mem_map.mpr ⟨c, hc, hid⟩)
    rw [hnone]
    refine hother client fun hmem => hclient ?_
    rw [List.map_map] at hmem
    exact hmem

end Machines

/-- A set is created and a value inserted. -/
theorem queued_refines_direct_create_insert : ∃ s : State 1, s.Quiescent ∧
    (∃ ls' s', Runs (@State.step 1 decimalStrings) (labelled Label.Direct)
        (State.init 1 .empty) ls' s' ∧ s'.Quiescent ∧
      invocations s'.redis.history = (invocations s.redis.history).map Invocation.direct ∧
      s'.redis.store = s.redis.store ∧
      ∀ client, repliesTo s'.redis.history client = repliesTo s.redis.history client) ∧
    repliesTo s.redis.history 1 = [.simpleString "OK"] := by
  let _ := decimalStrings
  let labels : List (Label 1) := Label.queue .llcaConcCreate ["llca_conc.create", "k"] ++
    Label.queue .llcaConcInsert ["llca_conc.insert", "k", "5"] ++ Label.turn (.worker 0) 23
  obtain ⟨s, hrun, hs⟩ : ∃ s, Runs State.step anyStep (State.init 1 .empty) labels s ∧
      decide (s.Quiescent ∧ repliesTo s.redis.history 1 = [.simpleString "OK"]) = true :=
    Runs.exists_of_follow _ (by decide +kernel)
  obtain ⟨hq, hreply⟩ := of_decide_eq_true hs
  have hlabels : ∀ l ∈ labels, l.QueuesOnSet := by
    simp only [labels, List.forall_mem_append, Label.forall_mem_queue]
    exact ⟨⟨⟨⟨rfl, trivial⟩, trivial⟩, ⟨rfl, trivial⟩, trivial⟩, Label.forall_mem_turn trivial⟩
  exact ⟨s, hq, queued_refines_direct (hrun.labelled_of hlabels) hq.drained (hq.2 .main),
    hreply⟩

end RedPar
