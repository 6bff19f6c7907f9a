import RedPar.Model.Clients
import RedPar.Proofs.History
import RedPar.Proofs.LifeCycle

/-!
# Commands that are refused

`conc_handler` does not look at its context. Inside a transaction or a script the caller gets an
error, and the event is queued and executed all the same: its effect is that of the same command
issued outside.
-/

namespace RedPar
open Interleaved

variable {n : Nat}

def Event.anon (e : Event) : Event :=
  { e with ctx := ⟨none⟩, client := e.client.map fun _ => ⟨none⟩ }

/-- What a history says apart from replies and the names of clients. -/
def Entry.anon? : Entry → Option Entry
  | .reply _ _ => none
  | .unblockClient _ => some (.unblockClient none)
  | entry => some entry

def Proc.anon : Proc → Proc
  | .enqueue e => .enqueue e.anon
  | .ret e => .ret e.anon
  | .execute e rest => .execute e.anon rest
  | .drop e => .drop e.anon
  | p => p

namespace State

def anon (s : State n) : State n where
  redis := { s.redis with history := s.redis.history.filterMap Entry.anon? }
  procs := fun t => (s.procs t).anon
  queue := s.queue.map Event.anon
  useCount := s.useCount
  nextId := s.nextId

end State

@[simp] lemma Event.anon_anon (e : Event) : e.anon.anon = e.anon := by
  simp [anon, Function.comp_def]

@[simp] lemma Event.anon_comp : Event.anon ∘ Event.anon = Event.anon := funext anon_anon

@[simp] lemma Event.anon_id (e : Event) : e.anon.id = e.id := rfl

@[simp] lemma Event.anon_execute [StringToLongLong] (e : Event) : e.anon.execute = e.execute := rfl

lemma Event.anon_destroy (e : Event) : e.anon.destroy = e.destroy.filterMap Entry.anon? := by
  unfold destroy
  cases hts : e.threadSafe <;> cases hc : e.client <;> simp [anon, hts, hc, Entry.anon?]

lemma Entry.anon?_anon? (entry : Entry) : entry.anon?.bind Entry.anon? = entry.anon? := by
  cases entry <;> rfl

@[simp] lemma Entry.filterMap_anon? (es : List Entry) :
    (es.filterMap anon?).filterMap anon? = es.filterMap anon? := by
  simp [List.filterMap_filterMap, Entry.anon?_anon?]

@[simp] lemma Proc.anon_anon (p : Proc) : p.anon.anon = p.anon := by
  cases p <;> simp [anon]

namespace State

variable (s : State n) (t : Thread n) (p : Proc) (e : Event)

@[simp] lemma anon_anon : s.anon.anon = s.anon := by
  simp [anon]

@[simp] lemma anon_setProc : (s.setProc t p).anon = s.anon.setProc t p.anon := by
  unfold anon setProc
  congr
  funext t'
  by_cases ht : t' = t
  · simp [ht]
  · simp [ht]

@[simp] lemma anon_record (es : List Entry) :
    (s.record es).anon = s.anon.record (es.filterMap Entry.anon?) := by
  simp [anon, record]

@[simp] lemma anon_setLock (lock : Option (Thread n)) :
    (s.setLock lock).anon = s.anon.setLock lock := rfl

@[simp] lemma anon_leave : s.leave.anon = s.anon.leave := by
  unfold leave
  rw [anon_setLock, anon_setProc]
  rfl

lemma anon_released : s.anon.released e.anon = (s.released e).filterMap Entry.anon? := by
  have hsame : s.anon.useCount e.anon.id = s.useCount e.id := rfl
  unfold released
  rw [hsame]
  split
  · exact e.anon_destroy
  · rfl

@[simp] lemma anon_release : (s.release e).anon = s.anon.release e.anon := by
  rw [release_eq, release_eq, anon_record, anon_released]
  rfl

lemma anon_accept : (s.accept p).map anon = (s.anon.accept p).map anon := by
  have hmain : s.anon.procs .main = (s.procs .main).anon := rfl
  have hlock : s.anon.redis.lock = s.redis.lock := rfl
  unfold accept
  rw [hmain, hlock]
  cases s.procs .main <;> cases s.redis.lock <;> simp [Proc.anon]

lemma anon_store : s.anon.redis.store = s.redis.store := rfl

lemma anon_lock : s.anon.redis.lock = s.redis.lock := rfl

lemma anon_useCount : s.anon.useCount = s.useCount := rfl

@[simp] lemma anon_withQueue (queue : List Event) :
    ({ s with queue } : State n).anon = { s.anon with queue := queue.map Event.anon } := rfl

@[simp] lemma anon_withCount (useCount : Nat → Nat) :
    ({ s with useCount } : State n).anon = { s.anon with useCount } := rfl

lemma anon_with (queue : List Event) (useCount : Nat → Nat) :
    ({ s with queue, useCount } : State n).anon =
      { s.anon with queue := queue.map Event.anon, useCount } := rfl

@[simp] lemma anon_withStore (store : Store) :
    ({ s with redis := { s.redis with store } } : State n).anon =
      { s.anon with redis := { s.anon.redis with store } } := rfl

lemma anon_exec (c : Call) :
    (s.redis.exec t e c).map (fun x => (x.1, ({ s with redis := x.2 } : State n).anon)) =
      (s.anon.redis.exec t e.anon c).map fun x =>
        (x.1, ({ s.anon with redis := x.2 } : State n).anon) := by
  unfold Redis.exec
  rw [anon_lock, anon_store]
  cases c.lockStep t s.redis.lock with
  | none => rfl
  | some lock =>
    cases hstore : s.redis.store.exec e.argv c with
    | none => simp [Event.anon, hstore]
    | some x =>
      simp [Event.anon, hstore, anon]
      split <;> simp [Entry.anon?]

variable [StringToLongLong]

lemma anon_stepThread : (s.stepThread t).map anon = (s.anon.stepThread t).map anon := by
  have hproc : s.anon.procs t = (s.procs t).anon := rfl
  have hqueue : s.anon.queue = s.queue.map Event.anon := rfl
  cases hp : s.procs t with
  | idle =>
    rw [hp] at hproc
    cases t with
    | main => simp [stepThread, hp, hproc, Proc.anon]
    | worker w => cases hq : s.queue <;> simp [stepThread, hp, hproc, Proc.anon, hqueue, hq, Entry.anon?]
  | construct id type argv =>
    rw [hp] at hproc
    simp [stepThread, hp, hproc, Proc.anon, anon_useCount]
  | enqueue e =>
    rw [hp] at hproc
    simp [stepThread, hp, hproc, Proc.anon, Entry.anon?, hqueue, anon_useCount, anon_with]
  | ret e =>
    rw [hp] at hproc
    simp [stepThread, hp, hproc, Proc.anon]
  | execute e rest =>
    rw [hp] at hproc
    cases rest with
    | pure u => cases t <;> simp [stepThread, hp, hproc, Proc.anon, Entry.anon?, Event.anon_destroy]
    | call c k =>
      have hcall := congrArg (Option.map fun y => y.2.setProc t (.execute e.anon (k y.1)))
        (s.anon_exec t e c)
      rw [stepThread_call hp, stepThread_call hproc, Option.map_map,
        Option.map_map]
      rw [Option.map_map, Option.map_map] at hcall
      simpa [Function.comp_def, Proc.anon] using hcall
  | drop e =>
    rw [hp] at hproc
    simp [stepThread, hp, hproc, Proc.anon, Entry.anon?]
  | builtin c =>
    rw [hp] at hproc
    simp [stepThread, hp, hproc, Proc.anon, anon_store]

theorem anon_step (l : Label n) : (s.step l).map anon = (s.anon.step l).map anon := by
  cases l with
  | command name argv =>
    refine (anon_accept _ _).trans ?_
    rw [anon_record]
    rfl
  | redis c => exact s.anon_accept (.builtin c)
  | step t => exact s.anon_stepThread t

lemma step_of_anon {x x' s : State n} {l : Label n} (h : x.anon = s.anon)
    (hstep : x.step l = some x') : ∃ s', s.step l = some s' ∧ x'.anon = s'.anon := by
  have hs : (s.step l).map anon = some x'.anon := by
    rw [anon_step, ← h, ← anon_step, hstep, Option.map_some]
  obtain ⟨s', hs', heq⟩ := Option.map_eq_some_iff.mp hs
  exact ⟨s', hs', heq.symm⟩

/-- A command that is refused goes the way of a command that is accepted. -/
lemma anon_refuse {s s' : State n} {err : String} {name : CommandName}
    {argv : List RedisModuleString} (h : s.refuse err name argv = some s') :
    name.handler = .conc ∧ ∃ s₁ s₂, s.step (.command name argv) = some s₁ ∧
      s₁.step (.step .main) = some s₂ ∧ s'.anon = s₂.anon := by
  unfold refuse at h
  split at h
  · cases h
  · rename_i hconc
    obtain ⟨hidle, hlock, rfl⟩ := accept_eq_some h
    have hidle' : s.procs .main = .idle := hidle
    have hlock' : s.redis.lock = none := hlock
    let s₁ := (({ s with nextId := s.nextId + 1 }.record [.invoke s.nextId name argv]).setProc .main
      (.construct s.nextId name.event argv)).setLock (some .main)
    let e := Event.new s.nextId name.event ⟨some s.nextId⟩ argv false
    let s₂ := { s₁ with useCount := Function.update s₁.useCount s.nextId 1 }.setProc .main (.enqueue e)
    refine ⟨hconc, s₁, s₂, ?_, ?_, ?_⟩
    · simp [s₁, step, hconc, accept, hidle', hlock']
    · have hproc : s₁.procs .main = .construct s.nextId name.event argv := by simp [s₁]
      simp [s₂, e, step, stepThread, hproc]
    · simp [anon, setLock, setProc, record, Entry.anon?, s₁, s₂, e]
      funext t
      by_cases ht : t = .main
      · subst ht
        rw [Function.update_self, Function.update_self]
        rfl
      · rw [Function.update_of_ne ht, Function.update_of_ne ht]

end State

section Clients

variable (p : Nat → Prop)

/-- Replies to the event go to a client that satisfies `p`. -/
def Event.RepliesTo (e : Event) : Prop := ∀ c, e.ctx.client = some c → p c

def Proc.RepliesTo : Proc → Prop
  | .construct id _ _ => p id
  | .enqueue e | .ret e | .execute e _ | .drop e => e.RepliesTo p
  | .idle | .builtin _ => True

structure State.RepliesTo (s : State n) : Prop where
  procs : ∀ t, (s.procs t).RepliesTo p
  queue : ∀ e ∈ s.queue, e.RepliesTo p

variable {p} {s s' : State n}

lemma Event.repliesTo_new {id : Nat} (hid : p id) (type : EventType)
    (argv : List RedisModuleString) (ts : Bool) :
    (Event.new id type ⟨some id⟩ argv ts).RepliesTo p := by
  intro c hc
  cases ts <;> cases hc <;> exact hid

lemma repliesTo_refusal (id : Nat) (name : CommandName) (argv : List RedisModuleString)
    (err : String) (c : Nat) :
    repliesTo [.invoke id name argv, .reply id (.error err)] c =
      if id = c then [.error err] else [] := by
  unfold repliesTo
  rw [List.filterMap_cons_none rfl]
  by_cases hid : id = c
  · simp [Entry.replyTo?, hid]
  · simp [Entry.replyTo?, hid]

/-- Entries that accept no command, and reply to clients that satisfy `p` only. -/
structure Quiet (p : Nat → Prop) (es : List Entry) : Prop where
  invocations : invocations es = []
  replies : ∀ c, ¬p c → repliesTo es c = []

namespace Quiet

lemma nil : Quiet p [] := ⟨rfl, fun _ _ => rfl⟩

lemma cons {entry : Entry} {es : List Entry} (hentry : entry.invocation? = none)
    (hreply : ∀ c, entry.replyTo? c = none) (h : Quiet p es) : Quiet p (entry :: es) where
  invocations := by rw [RedPar.invocations, List.filterMap_cons_none hentry]; exact h.invocations
  replies c hc := by rw [repliesTo, List.filterMap_cons_none (hreply c)]; exact h.replies c hc

lemma single {entry : Entry} (hentry : entry.invocation? = none)
    (hreply : ∀ c, entry.replyTo? c = none) : Quiet p [entry] := .cons hentry hreply .nil

lemma destroy (e : Event) : Quiet p e.destroy := by
  unfold Event.destroy
  split
  · exact .cons rfl (fun _ => rfl) (.single rfl fun _ => rfl)
  · exact .nil

lemma released (s : State n) (e : Event) : Quiet p (s.released e) := by
  unfold State.released
  split
  · exact .destroy e
  · exact .nil

lemma sent {e : Event} (he : e.RepliesTo p) (c : Call) : Quiet p (Redis.sent e c) where
  invocations := invocations_sent e c
  replies client hclient := by
    unfold Redis.sent
    split
    · rename_i reply client' _ hctx
      have hne : client' ≠ client := fun heq => hclient (heq ▸ he client' hctx)
      simp [repliesTo, Entry.replyTo?, hne]
    · rfl

end Quiet

namespace State.RepliesTo

lemma mono {q : Nat → Prop} (h : s.RepliesTo p) (hpq : ∀ c, p c → q c) : s.RepliesTo q where
  procs t := by
    have ht := h.procs t
    cases hproc : s.procs t <;> rw [hproc] at ht <;> first
      | exact hpq _ ht
      | exact fun c hc => hpq c (ht c hc)
      | exact ht
  queue e he c hc := hpq c (h.queue e he c hc)

lemma set (h : s.RepliesTo p) {t : Thread n} {q : Proc}
    (hprocs : s'.procs = Function.update s.procs t q) (hq : q.RepliesTo p)
    (hqueue : ∀ e ∈ s'.queue, e ∈ s.queue ∨ e.RepliesTo p) : s'.RepliesTo p where
  procs t' := by
    rw [hprocs]
    by_cases ht : t' = t
    · rw [ht, Function.update_self]
      exact hq
    · rw [Function.update_of_ne ht]
      exact h.procs t'
  queue e he := (hqueue e he).elim (h.queue e) id

lemma stepThread [StringToLongLong] (h : s.RepliesTo p) {t : Thread n}
    (hs : s.stepThread t = some s') : s'.RepliesTo p ∧ s'.nextId = s.nextId ∧
      ∃ es, s'.redis.history = s.redis.history ++ es ∧ Quiet p es := by
  have hproc := h.procs t
  unfold State.stepThread at hs
  cases hp : s.procs t with
  | idle =>
    rw [hp] at hs
    cases t with
    | main => cases hs
    | worker w =>
      cases hq : s.queue with
      | nil =>
        rw [hq] at hs
        cases hs
        exact ⟨h, rfl, [], (List.append_nil _).symm, .nil⟩
      | cons e queue =>
        rw [hq] at hs
        cases hs
        have he : e.RepliesTo p := h.queue e (hq ▸ List.mem_cons_self)
        exact ⟨h.set rfl he fun e' he' => .inl (hq ▸ List.mem_cons_of_mem e he'), rfl, _, rfl,
          .single rfl fun _ => rfl⟩
  | construct id type argv =>
    rw [hp] at hs hproc
    cases hs
    exact ⟨h.set rfl (Event.repliesTo_new hproc type argv false) fun _ => .inl, rfl, [],
      (List.append_nil _).symm, .nil⟩
  | enqueue e =>
    rw [hp] at hs hproc
    cases hs
    refine ⟨h.set rfl hproc fun e' he' => ?_, rfl, _, rfl, .single rfl fun _ => rfl⟩
    rcases List.mem_append.mp he' with hold | hnew
    · exact .inl hold
    · cases List.mem_singleton.mp hnew
      exact .inr hproc
  | ret e =>
    rw [hp] at hs
    cases hs
    exact ⟨h.set (State.release_procs ..) trivial (by simp +contextual), by simp, _,
      State.release_history .., .released _ e⟩
  | execute e rest =>
    rw [hp] at hs hproc
    cases rest with
    | pure u =>
      cases t with
      | main =>
        cases hs
        exact ⟨h.set rfl trivial fun _ => .inl, rfl, _, rfl, .cons rfl (fun _ => rfl) (.destroy e)⟩
      | worker w =>
        cases hs
        exact ⟨h.set rfl hproc fun _ => .inl, rfl, _, rfl, .single rfl fun _ => rfl⟩
    | call c k =>
      obtain ⟨⟨res, redis⟩, hexec, hs⟩ := Option.bind_eq_some_iff.mp hs
      cases hs
      obtain ⟨lock, store, _, _, rfl⟩ := Redis.exec_eq_some hexec
      exact ⟨h.set rfl hproc fun _ => .inl, rfl, _, rfl, .sent hproc c⟩
  | drop e =>
    rw [hp] at hs
    cases hs
    refine ⟨h.set (State.release_procs ..) trivial (by simp +contextual), by simp,
      .dropped e.id :: ((s.setProc t .idle).record [.dropped e.id]).released e, ?_,
      .cons rfl (fun _ => rfl) (.released _ e)⟩
    rw [State.release_history, State.record_history, List.append_assoc]
    rfl
  | builtin c =>
    rw [hp] at hs
    obtain ⟨store, _, hs⟩ := Option.bind_eq_some_iff.mp hs
    cases hs
    exact ⟨h.set rfl trivial fun _ => .inl, rfl, [], (List.append_nil _).symm, .nil⟩

end State.RepliesTo

end Clients

/-- Which commands have been refused, and the errors that their callers got. -/
def State.noteRefusal (x : State n) : CallerLabel n → List (Nat × String) → List (Nat × String)
  | .refused err _ _, refused => (x.nextId, err) :: refused
  | .outside _, refused => refused

/-- The system with the commands that have been refused. -/
def State.stepRefusals [StringToLongLong] :
    State n × List (Nat × String) → CallerLabel n → Option (State n × List (Nat × String)) :=
  withNotes State.stepCaller State.noteRefusal

/-- The command issued outside: the main thread enters the handler and constructs the event. -/
def CallerLabel.outsideSteps : CallerLabel n → List (Label n)
  | .outside l => [l]
  | .refused _ name argv => [.command name argv, .step .main]

/-- The callers of the refused commands have got their errors and nothing else. -/
structure Answered (x : State n) (refused : List (Nat × String)) : Prop where
  clients : x.RepliesTo fun c => c < x.nextId ∧ ∀ r ∈ refused, r.1 ≠ c
  later : ∀ c, x.nextId ≤ c → repliesTo x.redis.history c = []
  replies : ∀ r ∈ refused, r.1 < x.nextId ∧ repliesTo x.redis.history r.1 = [.error r.2]
  invoked : ∀ r ∈ refused, ∃ inv ∈ invocations x.redis.history,
    inv.id = r.1 ∧ inv.name.handler = .conc

namespace Answered

variable {x x' : State n} {refused : List (Nat × String)}

lemma init (st : Store) : Answered (State.init n st) [] where
  clients := ⟨fun _ => trivial, fun _ h => absurd h List.not_mem_nil⟩
  later _ _ := rfl
  replies _ h := absurd h List.not_mem_nil
  invoked _ h := absurd h List.not_mem_nil

lemma quiet (h : Answered x refused) {es : List Entry}
    (hclients : x'.RepliesTo fun c => c < x'.nextId ∧ ∀ r ∈ refused, r.1 ≠ c)
    (hnext : x.nextId ≤ x'.nextId) (hhistory : x'.redis.history = x.redis.history ++ es)
    (hreplies : ∀ c, ¬(c < x.nextId ∧ ∀ r ∈ refused, r.1 ≠ c) → repliesTo es c = []) :
    Answered x' refused where
  clients := hclients
  later c hc := by
    rw [hhistory, repliesTo_append, h.later c (hnext.trans hc), hreplies c (by omega)]
    rfl
  replies r hr := by
    obtain ⟨hlt, heq⟩ := h.replies r hr
    refine ⟨hlt.trans_le hnext, ?_⟩
    rw [hhistory, repliesTo_append, heq, hreplies r.1 fun hc => hc.2 r hr rfl]
    rfl
  invoked r hr := by
    obtain ⟨inv, hinv, hid⟩ := h.invoked r hr
    exact ⟨inv, by simp [hhistory, hinv], hid⟩

variable [StringToLongLong]

lemma outside (h : Answered x refused) {l : Label n} (hs : x.step l = some x') :
    Answered x' refused := by
  cases l with
  | command name argv =>
    obtain ⟨_, _, rfl⟩ := State.accept_eq_some hs
    have hnew : x.nextId < x.nextId + 1 ∧ ∀ r ∈ refused, r.1 ≠ x.nextId :=
      ⟨Nat.lt_succ_self _, fun r hr => (h.replies r hr).1.ne⟩
    have hold := h.clients.mono fun c hc => And.intro (hc.1.trans (Nat.lt_succ_self _)) hc.2
    refine h.quiet (hold.set rfl ?_ fun _ => .inl) (Nat.le_succ _) rfl fun _ _ => rfl
    cases name.handler with
    | conc => exact hnew
    | seq => exact Event.repliesTo_new hnew name.event argv true
  | redis c =>
    obtain ⟨_, _, rfl⟩ := State.accept_eq_some hs
    exact h.quiet (h.clients.set rfl trivial fun _ => .inl) le_rfl (List.append_nil _).symm
      fun _ _ => rfl
  | step t =>
    obtain ⟨hclients, hnext, es, hhistory, hquiet⟩ := h.clients.stepThread hs
    exact h.quiet (hnext ▸ hclients) hnext.ge hhistory hquiet.replies

omit [StringToLongLong] in
lemma refuse (h : Answered x refused) {err : String} {name : CommandName}
    {argv : List RedisModuleString} (hs : x.refuse err name argv = some x') :
    Answered x' ((x.nextId, err) :: refused) := by
  unfold State.refuse at hs
  split at hs
  · cases hs
  · rename_i hconc
    obtain ⟨_, _, rfl⟩ := State.accept_eq_some hs
    have hold : x.RepliesTo fun c => c < x.nextId + 1 ∧ ∀ r ∈ (x.nextId, err) :: refused, r.1 ≠ c :=
      h.clients.mono fun c hc =>
        ⟨hc.1.trans (Nat.lt_succ_self _), List.forall_mem_cons.mpr ⟨hc.1.ne', hc.2⟩⟩
    refine ⟨hold.set rfl nofun fun _ => .inl, fun c hc => ?_, fun r hr => ?_, fun r hr => ?_⟩
    · have hlt : x.nextId < c := hc
      refine (repliesTo_append ..).trans ?_
      rw [repliesTo_refusal, if_neg hlt.ne, h.later c hlt.le]
      rfl
    · rcases List.mem_cons.mp hr with rfl | hr
      · refine ⟨Nat.lt_succ_self _, (repliesTo_append ..).trans ?_⟩
        rw [repliesTo_refusal, if_pos rfl, h.later _ le_rfl]
        rfl
      · obtain ⟨hlt, heq⟩ := h.replies r hr
        refine ⟨hlt.trans (Nat.lt_succ_self _), (repliesTo_append ..).trans ?_⟩
        rw [repliesTo_refusal, if_neg hlt.ne', heq]
        rfl
    · rcases List.mem_cons.mp hr with rfl | hr
      · refine ⟨⟨x.nextId, name, argv⟩, ?_, rfl, hconc⟩
        exact mem_invocations.mpr (List.mem_append_right _ List.mem_cons_self)
      · obtain ⟨inv, hinv, hid⟩ := h.invoked r hr
        exact ⟨inv, mem_invocations.mpr (List.mem_append_left _ (mem_invocations.mp hinv)), hid⟩

lemma step (h : Answered x refused) {l : CallerLabel n} {y : State n × List (Nat × String)}
    (hs : State.stepRefusals (x, refused) l = some y) : Answered y.1 y.2 := by
  obtain ⟨hstep, hnotes⟩ := withNotes_eq_some.mp hs
  rw [hnotes]
  cases l with
  | outside l => exact h.outside hstep
  | refused err name argv => exact h.refuse hstep

end Answered

namespace State

variable {x s : State n}

lemma anon_quiescent (h : x.anon = s.anon) (hquiet : x.Quiescent) : s.Quiescent := by
  constructor
  · have hqueue : x.queue.map Event.anon = s.queue.map Event.anon := congrArg queue h
    rw [hquiet.1] at hqueue
    exact List.map_eq_nil_iff.mp hqueue.symm
  · intro t
    have hproc : (x.procs t).anon = (s.procs t).anon := congrArg (procs · t) h
    rw [hquiet.2 t] at hproc
    cases hp : s.procs t <;> rw [hp] at hproc <;> first | rfl | cases hproc

lemma anon_executed (h : x.anon = s.anon) (id : Nat) :
    x.redis.history.count (.executed id) = s.redis.history.count (.executed id) := by
  have hcount : ∀ s : State n,
      s.anon.redis.history.count (.executed id) = s.redis.history.count (.executed id) := by
    intro s
    refine (List.count_filterMap ..).trans (List.countP_congr fun entry _ => ?_)
    cases entry <;> simp [Entry.anon?]
  rw [← hcount x, h, hcount s]

lemma anon_invoke (h : x.anon = s.anon) {id : Nat} {name : CommandName}
    {argv : List RedisModuleString} (hinvoke : .invoke id name argv ∈ x.redis.history) :
    .invoke id name argv ∈ s.redis.history := by
  have hmem : .invoke id name argv ∈ x.anon.redis.history :=
    List.mem_filterMap.mpr ⟨_, hinvoke, rfl⟩
  rw [h] at hmem
  obtain ⟨entry, hentry, heq⟩ := List.mem_filterMap.mp hmem
  cases entry <;> cases heq
  exact hentry

variable [StringToLongLong]

/-- A run with refused commands, and the run in which the same commands are issued outside. -/
lemma outside_run {st : Store} {ls : List (CallerLabel n)}
    (hrun : Runs stepCaller anyStep (init n st) ls x) :
    ∃ s, Runs step anyStep (init n st) (ls.flatMap CallerLabel.outsideSteps) s ∧
      x.anon = s.anon := by
  refine hrun.simulate (R := fun (x s : State n) => x.anon = s.anon) CallerLabel.outsideSteps ?_ rfl
  intro x s l x' h hstep
  cases l with
  | outside l =>
    obtain ⟨s', hs', h'⟩ := step_of_anon h hstep
    exact ⟨s', .single trivial hs', h'⟩
  | refused err name argv =>
    obtain ⟨_, x₁, x₂, hx₁, hx₂, h'⟩ := anon_refuse hstep
    obtain ⟨s₁, hs₁, h₁⟩ := step_of_anon h hx₁
    obtain ⟨s₂, hs₂, h₂⟩ := step_of_anon h₁ hx₂
    exact ⟨s₂, .cons trivial hs₁ (.single trivial hs₂), h'.trans h₂⟩

end State

section

variable [StringToLongLong]

/-- A refused command takes effect. In every run with refused commands the store is that of the
run in which the same commands are issued outside; their callers get the errors and nothing else,
and their events have all been executed, each once, when nothing is left to do. -/
theorem refused_takes_effect {st : Store} {ls : List (CallerLabel n)} {x : State n}
    {refused : List (Nat × String)}
    (hrun : Runs State.stepRefusals anyStep (State.init n st, []) ls (x, refused)) :
    (∃ s, Runs State.step anyStep (State.init n st) (ls.flatMap CallerLabel.outsideSteps) s ∧
      x.redis.store = s.redis.store) ∧
    ∀ r ∈ refused, repliesTo x.redis.history r.1 = [.error r.2] ∧
      (x.Quiescent → x.redis.history.count (.executed r.1) = 1) := by
  obtain ⟨s, hs, hanon⟩ := State.outside_run (Runs.of_notes anyStep hrun)
  have hanswered : Answered x refused :=
    Runs.invariant (I := fun y => Answered y.1 y.2) (fun _ _ _ h _ hstep => h.step hstep) hrun
      (.init st)
  refine ⟨⟨s, hs, congrArg (·.redis.store) hanon⟩, fun r hr => ?_⟩
  refine ⟨(hanswered.replies r hr).2, fun hquiet => ?_⟩
  obtain ⟨inv, hinv, hid, hconc⟩ := hanswered.invoked r hr
  have hinvoke := State.anon_invoke hanon (mem_invocations.mp hinv)
  obtain ⟨⟨stage, htracks⟩, _⟩ := tracks_run hs
  obtain ⟨hhandler, htimeline⟩ := htracks.handler_of_invoked hinvoke
  have hdestroyed := htracks.destroyed_of_quiescent (State.anon_quiescent hanon hquiet)
    (hhandler.trans (congrArg some hconc))
  obtain ⟨name, argv, _, hcount⟩ := htracks.count_eq r.1
  rw [State.anon_executed hanon, hcount _ rfl, ← hid, hdestroyed]
  simp [Stage.timeline, life]

end

/-- A script creates a set, and gets an error. -/
theorem refused_takes_effect_create : ∃ x : State 1, x.Quiescent ∧
    repliesTo x.redis.history 0 = [.error "ERR Blocking module command called from Lua script"] ∧
    x.redis.history.count (.executed 0) = 1 := by
  let _ := decimalStrings
  let err := "ERR Blocking module command called from Lua script"
  let steps : List (Label 1) := Label.turn .main 2 ++ Label.turn (.worker 0) 12
  let labels : List (CallerLabel 1) :=
    .refused err .llcaConcCreate ["llca_conc.create", "k"] :: steps.map .outside
  obtain ⟨⟨x, refused⟩, hrun, hx⟩ : ∃ y, Runs State.stepRefusals anyStep (State.init 1 .empty, [])
      labels y ∧ decide (y.1.Quiescent ∧ y.2 = [(0, err)]) = true :=
    Runs.exists_of_follow _ (by decide +kernel)
  obtain ⟨hquiet, rfl⟩ := of_decide_eq_true hx
  obtain ⟨hreply, hexecuted⟩ := (refused_takes_effect hrun).2 (0, err) List.mem_cons_self
  exact ⟨x, hquiet, hreply, hexecuted hquiet⟩

/-- The set that the script creates is there afterwards. -/
theorem refused_has_effect : ¬∀ (n : Nat) (st : Store) (err : String) (name : CommandName)
    (argv : List RedisModuleString) (sched : List (Thread n)) (x : State n),
    name.handler = .conc →
    Runs (@State.stepCaller n decimalStrings) anyStep (State.init n st)
      (.refused err name argv :: sched.map fun t => .outside (.step t)) x →
    x.redis.store.keyspace = st.keyspace ∧ .executed 0 ∉ x.redis.history := by
  let _ := decimalStrings
  intro hall
  let sched : List (Thread 1) := List.replicate 2 .main ++ List.replicate 12 (.worker 0)
  obtain ⟨x, hrun, hx⟩ : ∃ x, Runs State.stepCaller anyStep (State.init 1 .empty)
      (.refused "" .llcaConcCreate ["llca_conc.create", "k"] ::
        sched.map fun t => .outside (.step t)) x ∧
      (x.redis.store.keyspace "k").isSome = true :=
    Runs.exists_of_follow _ (by decide +kernel)
  rw [(hall 1 .empty "" .llcaConcCreate _ sched x rfl hrun).1] at hx
  cases hx

end RedPar
