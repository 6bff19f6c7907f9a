import RedPar.Lib.Typestate
import RedPar.Proofs.Steps

/-!
# The global lock

`lockNext guarded` is the discipline of a thread that takes and releases the global lock itself:
it may not lock twice or unlock without the lock, and makes the calls in `guarded` only with it.
-/

namespace RedPar
open Interleaved

/-- The discipline, by whether the thread holds the lock. -/
def lockNext (guarded : Call → Bool) (held : Bool) : Call → Option Bool
  | .threadSafeContextLock => if held then none else some true
  | .threadSafeContextUnlock => if held then some false else none
  | c => if guarded c && !held then none else some held

/-- The discipline of a thread that neither takes nor releases the lock. -/
def keepNext (held : Bool) : Call → Option Bool
  | .threadSafeContextLock | .threadSafeContextUnlock => none
  | _ => some held

/-- `argv` is read as it is. -/
def Call.Answer (argv : List RedisModuleString) : (c : Call) → c.Res → Prop
  | .argv i, arg => argv[i]? = some arg
  | _, _ => True

lemma answer_of_exec {argv : List RedisModuleString} {c : Call} {st st' : Store} {res : c.Res}
    (h : Store.exec argv c st = some (res, st')) : c.Answer argv res := by
  cases c
  case argv i =>
    obtain ⟨arg, harg, heq⟩ := Option.map_eq_some_iff.mp h
    cases heq
    exact harg
  all_goals trivial

section Bodies

variable {argv : List RedisModuleString}

lemma obeys_create : Prog.Obeys (Call.Answer argv) (lockNext Call.isKeyspace)
    (fun _ held => held = false) false (llcaConcCreateEvent argv.length false) := by
  unfold llcaConcCreateEvent checkArity lockUnless unlockUnless
  by_cases hlen : argv.length = 2
  · simp [hlen, Prog.obeys_call, Prog.lift, lockNext, Call.isKeyspace, Call.Answer]
    intro kp type
    split <;> simp [Prog.obeys_call, lockNext, Call.isKeyspace, Call.Answer]
  · simp [hlen, Prog.obeys_call, Prog.lift, lockNext, Call.isKeyspace]

lemma obeys_delete : Prog.Obeys (Call.Answer argv) (lockNext Call.isKeyspace)
    (fun _ held => held = false) false (llcaConcDeleteEvent argv.length false) := by
  unfold llcaConcDeleteEvent checkArity lockUnless unlockUnless
  by_cases hlen : argv.length = 2
  · simp [hlen, Prog.obeys_call, Prog.lift, lockNext, Call.isKeyspace, Call.Answer]
    intro kp type
    split
    · simp [Prog.obeys_call, lockNext, Call.isKeyspace, Call.Answer]
    · simp [Prog.obeys_call, lockNext, Call.isKeyspace, Call.Answer]
      intro mt
      split <;> simp [Prog.obeys_call, lockNext, Call.isKeyspace, Call.Answer]
  · simp [hlen, Prog.obeys_call, Prog.lift, lockNext, Call.isKeyspace]

variable [StringToLongLong]

/-- An event that stops at its integer argument does not get to `lookup_key`. -/
lemma obeys_setEvent {op : Ptr → Int64 → RedisM Bool} {failure : String}
    (h : argv.length ≠ 3 ∨ argv[2]?.bind StringToLongLong.parse = none) :
    Prog.Obeys (Call.Answer argv) (lockNext Call.isKeyspace) (fun _ held => held = false) false
      (llcaConcSetEvent op failure argv.length false) := by
  unfold llcaConcSetEvent checkArity stringToLonglong
  by_cases hlen : argv.length = 3
  · have hparse : StringToLongLong.parse argv[2] = none := by
      have hbind := h.resolve_left (not_not.mpr hlen)
      rwa [List.getElem?_eq_getElem (by omega), Option.bind_some] at hbind
    simp [hlen, hparse, Prog.obeys_call, Prog.lift, lockNext, Call.isKeyspace, Call.Answer]
  · simp [hlen, Prog.obeys_call, Prog.lift, lockNext, Call.isKeyspace]

lemma obeys_setEvent_direct {op : Ptr → Int64 → RedisM Bool} {failure : String} {argc : Nat}
    (hop : ∀ ptr v, Prog.Obeys (Call.Answer argv) keepNext (fun _ held => held = true) true (op ptr v)) :
    Prog.Obeys (Call.Answer argv) keepNext (fun _ _ => True) true
      (llcaConcSetEvent op failure argc true) := by
  have hrest : ∀ ptr v, Prog.Obeys (Call.Answer argv) keepNext (fun _ _ => True) true (do
      if ← op ptr v then replyWithSimpleString "OK" else replyWithSimpleString failure) := by
    intro ptr v
    rw [Prog.obeys_bind]
    refine (hop ptr v).mono fun found held hheld => ?_
    split <;> simp [Prog.lift, Prog.obeys_call, keepNext, hheld]
  unfold llcaConcSetEvent checkArity stringToLonglong lookupKey wrongType
  by_cases hlen : argc = 3
  · simp only [hlen, ne_eq, not_true_eq_false, ↓reduceIte, Prog.pure_eq, Prog.lift_bind_eq,
      decide_not, Prog.call_bind_eq, Prog.pure_bind_eq, Prog.obeys_call, keepNext,
      Option.some.injEq, Bool.true_eq, exists_eq_left]
    intro arg _
    cases StringToLongLong.parse arg with
    | none => simp [Prog.obeys_call, keepNext]
    | some value =>
      simp only [Prog.pure_bind_eq, Prog.obeys_call, keepNext, Option.some.injEq, Bool.true_eq,
        exists_eq_left', exists_eq_left]
      intro key _ kp _ type _
      by_cases htype : type = .empty
      · simp [htype, Prog.obeys_call, keepNext]
      · simp [htype, Prog.obeys_call, Prog.obeys_bind, keepNext]
        intro mt _
        by_cases hmt : mt = some .llcaConc
        · simp [hmt, Prog.lift, Prog.obeys_call, keepNext]
          intro ptr _
          split
          · simp
          · exact hrest ptr value
        · simp [hmt, Prog.obeys_call, keepNext]
  · simp [hlen, Prog.obeys_call, Prog.lift, keepNext]

lemma obeys_llcaEvent {body : RedisModuleKey → KeyType → Int64 → RedisM RedisModuleString}
    (hlen : argv.length ≠ 3) :
    Prog.Obeys (Call.Answer argv) (lockNext Call.isKeyspace) (fun _ held => held = false) false
      (llcaEvent (llcaRedisCommand body) argv.length) := by
  unfold llcaEvent llcaRedisCommand
  simp [hlen, Prog.obeys_call, Prog.lift, lockNext, Call.isKeyspace]

end Bodies

namespace EventType

variable [StringToLongLong]

/-- The event reaches no key without the lock: it takes the lock first, or stops before. -/
def Locks (type : EventType) (argv : List RedisModuleString) : Prop :=
  match type with
  | llcaRemove | llcaContains | llcaInsert => argv.length ≠ 3
  | llcaConcCreate | llcaConcDelete => True
  | llcaConcRemove | llcaConcContains | llcaConcInsert =>
    argv.length ≠ 3 ∨ argv[2]?.bind StringToLongLong.parse = none

/-- A queued event of this kind obeys the discipline and ends without the lock. -/
theorem obeys_lockNext {type : EventType} {argv : List RedisModuleString} (h : type.Locks argv) :
    Prog.Obeys (Call.Answer argv) (lockNext Call.isKeyspace) (fun _ held => held = false) false
      (type.execute argv.length false) := by
  cases type with
  | llcaRemove | llcaContains | llcaInsert => exact obeys_llcaEvent h
  | llcaConcCreate => exact obeys_create
  | llcaConcDelete => exact obeys_delete
  | llcaConcRemove | llcaConcContains | llcaConcInsert => exact obeys_setEvent h

def OnSet : EventType → Prop
  | llcaRemove | llcaContains | llcaInsert => False
  | _ => True

/-- A direct event leaves the lock to its caller. -/
theorem obeys_keepNext {type : EventType} (h : type.OnSet) (argv : List RedisModuleString)
    (argc : Nat) : Prog.Obeys (Call.Answer argv) keepNext (fun _ _ => True) true
      (type.execute argc true) := by
  cases type with
  | llcaRemove | llcaContains | llcaInsert => cases h
  | llcaConcCreate =>
    unfold execute llcaConcCreateEvent checkArity lockUnless unlockUnless
    by_cases hlen : argc = 2
    · simp only [hlen, ne_eq, not_true_eq_false, ↓reduceIte, Prog.pure_eq, Prog.lift_bind_eq,
        Prog.pure_bind_eq, ite_not, Prog.obeys_call, keepNext, Option.some.injEq, Bool.true_eq,
        exists_eq_left', exists_eq_left]
      intro arg harg kp hkp type htype
      split <;> simp [Prog.obeys_call, Prog.lift, keepNext]
    · simp [hlen, Prog.obeys_call, Prog.lift, keepNext]
  | llcaConcDelete =>
    unfold execute llcaConcDeleteEvent checkArity lockUnless unlockUnless
    by_cases hlen : argc = 2
    · simp only [hlen, ne_eq, not_true_eq_false, ↓reduceIte, Prog.pure_eq, Prog.lift_bind_eq,
        Prog.pure_bind_eq, ite_not, Prog.obeys_call, keepNext, Option.some.injEq, Bool.true_eq,
        exists_eq_left', exists_eq_left]
      intro arg harg kp hkp type htype
      split
      · simp [Prog.obeys_call, keepNext]
      · simp [Prog.obeys_call, keepNext]
        intro mt hmt
        split <;> simp [Prog.obeys_call, Prog.lift, keepNext]
    · simp [hlen, Prog.obeys_call, Prog.lift, keepNext]
  | llcaConcRemove | llcaConcContains | llcaConcInsert =>
    exact obeys_setEvent_direct fun ptr v => by simp [Prog.lift, Prog.obeys_call, keepNext]

end EventType

lemma onSet_of_seq {name : CommandName} (h : name.handler = .seq) : name.event.OnSet := by
  cases name <;> first | exact trivial | cases h

section Lock

variable {T : Type} [DecidableEq T] {t t' : T} {c : Call} {lock lock' : Option T}

lemma lockStep_other (h : c.lockStep t lock = some lock') (ht : t' ≠ t) :
    lock' = some t' ↔ lock = some t' := by
  unfold Call.lockStep at h
  split at h
  · split at h
    · cases h
      simp_all [eq_comm]
    · cases h
  · split at h
    · cases h
      simp_all [eq_comm]
    · cases h
  · cases h
    exact Iff.rfl

lemma lockStep_keep {held held' : Bool} (h : c.lockStep t lock = some lock')
    (hkeep : keepNext held c = some held') : lock' = lock ∧ held' = held := by
  unfold keepNext at hkeep
  split at hkeep
  · cases hkeep
  · cases hkeep
  · unfold Call.lockStep at h
    split at h
    · contradiction
    · contradiction
    · cases h
      cases hkeep
      exact ⟨rfl, rfl⟩

lemma lockStep_next {guarded : Call → Bool} {held : Bool} (h : c.lockStep t lock = some lock')
    (hnext : lockNext guarded (decide (lock = some t)) c = some held) :
    held = decide (lock' = some t) := by
  unfold Call.lockStep at h
  split at h
  · split at h
    · cases h
      simp_all [lockNext]
    · cases h
  · split at h
    · cases h
      simp_all [lockNext]
    · cases h
  · cases h
    unfold lockNext at hnext
    split at hnext
    · contradiction
    · contradiction
    · split at hnext
      · cases hnext
      · exact (Option.some.inj hnext).symm

end Lock

variable {n : Nat} {s s' : State n}

/-- The main thread holds the lock exactly while it runs a command. -/
structure MainLock (s : State n) : Prop where
  busy : s.procs .main ≠ .idle → s.redis.lock = some .main
  idle : s.procs .main = .idle → s.redis.lock ≠ some .main
  direct : ∀ e rest, s.procs .main = .execute e rest →
    Prog.Obeys (Call.Answer e.argv) keepNext (fun _ _ => True) true rest

namespace MainLock

lemma init (st : Store) : MainLock (State.init n st) where
  busy h := absurd rfl h
  idle _ := nofun
  direct _ _ h := nomatch h

lemma stay (h : MainLock s) (hproc : s'.procs .main = s.procs .main)
    (hlock : s'.redis.lock = some .main ↔ s.redis.lock = some .main) : MainLock s' where
  busy hne := hlock.mpr (h.busy (hproc ▸ hne))
  idle hidle hl := h.idle (hproc ▸ hidle) (hlock.mp hl)
  direct e rest he := h.direct e rest (hproc ▸ he)

lemma enter (hproc : s'.procs .main ≠ .idle) (hlock : s'.redis.lock = some .main)
    (hdirect : ∀ e rest, s'.procs .main = .execute e rest →
      Prog.Obeys (Call.Answer e.argv) keepNext (fun _ _ => True) true rest) : MainLock s' :=
  ⟨fun _ => hlock, fun h => absurd h hproc, hdirect⟩

lemma leave (hproc : s'.procs .main = .idle) (hlock : s'.redis.lock = none) : MainLock s' where
  busy h := absurd hproc h
  idle _ := by simp [hlock]
  direct e rest he := by
    rw [hproc] at he
    cases he

theorem step [StringToLongLong] (h : MainLock s) {l : Label n} (hs : StepCase s l s') : MainLock s' := by
  cases hs with
  | conc name argv => exact enter (by simp) rfl (by simp)
  | seq name argv hseq _ _ e he =>
    refine enter (by simp) rfl fun e' rest hproc => ?_
    have heq : Proc.execute e e.execute = .execute e' rest := by simpa using hproc
    cases heq
    subst he
    exact EventType.obeys_keepNext (onSet_of_seq hseq) argv argv.length
  | redis c => exact enter (by simp) rfl (by simp)
  | construct id type argv hproc =>
    exact enter (by simp) (h.busy (by simp [hproc])) (by simp)
  | enqueue e hproc => exact enter (by simp) (h.busy (by simp [hproc])) (by simp)
  | ret e => exact leave (by simp) (by simp)
  | mainCall e c k hproc _ res redis hexec =>
    obtain ⟨lock, store, hlock, hstore, rfl⟩ := Redis.exec_eq_some hexec
    obtain ⟨held, hkeep, hrest⟩ := h.direct e _ hproc
    obtain ⟨rfl, rfl⟩ := lockStep_keep hlock hkeep
    refine enter (by simp) (h.busy (by simp [hproc])) fun e' rest hproc' => ?_
    have heq : Proc.execute e (k res) = .execute e' rest := by simpa using hproc'
    cases heq
    exact hrest res (answer_of_exec hstore)
  | seqReturn e => exact leave (by simp) rfl
  | builtin c => exact leave (by simp) rfl
  | spin w => exact h
  | dequeue w e => exact h.stay (by simp) Iff.rfl
  | workerCall w e c k hproc _ res redis hexec =>
    obtain ⟨lock, store, hlock, _, rfl⟩ := Redis.exec_eq_some hexec
    exact h.stay (by simp) (lockStep_other hlock (by simp))
  | executed w e => exact h.stay (by simp) Iff.rfl
  | drop w e => exact h.stay (by simp) (by simp)

end MainLock

/-- The workers obey the discipline for the calls in `guarded`. -/
structure WorkersObey (guarded : Call → Bool) (s : State n) : Prop where
  held : ∀ w e rest, s.procs (.worker w) = .execute e rest →
    Prog.Obeys (Call.Answer e.argv) (lockNext guarded) (fun _ held => held = false)
      (decide (s.redis.lock = some (.worker w))) rest
  free : ∀ w, (∀ e rest, s.procs (.worker w) ≠ .execute e rest) →
    s.redis.lock ≠ some (.worker w)

namespace WorkersObey

variable {guarded : Call → Bool}

lemma init (st : Store) : WorkersObey guarded (State.init n st) where
  held _ _ _ h := nomatch h
  free _ _ := nofun

lemma stay (h : WorkersObey guarded s) (hproc : ∀ w, s'.procs (.worker w) = s.procs (.worker w))
    (hlock : ∀ w, s'.redis.lock = some (.worker w) ↔ s.redis.lock = some (.worker w)) :
    WorkersObey guarded s' where
  held w e rest he := by
    simp only [hlock]
    exact h.held w e rest (hproc w ▸ he)
  free w hw hl := h.free w (hproc w ▸ hw) ((hlock w).mp hl)

lemma move (h : WorkersObey guarded s) {w : Fin n} {p : Proc}
    (hproc : s'.procs = Function.update s.procs (.worker w) p)
    (hother : ∀ w', w' ≠ w →
      (s'.redis.lock = some (.worker w') ↔ s.redis.lock = some (.worker w')))
    (hheld : ∀ e rest, p = .execute e rest →
      Prog.Obeys (Call.Answer e.argv) (lockNext guarded) (fun _ held => held = false)
        (decide (s'.redis.lock = some (.worker w))) rest)
    (hfree : (∀ e rest, p ≠ .execute e rest) → s'.redis.lock ≠ some (.worker w)) :
    WorkersObey guarded s' where
  held w' e rest he := by
    by_cases hw : w' = w
    · subst hw
      rw [hproc, Function.update_self] at he
      exact hheld e rest he
    · rw [hproc, Function.update_of_ne (by simpa using hw)] at he
      simp only [hother w' hw]
      exact h.held w' e rest he
  free w' hidle := by
    by_cases hw : w' = w
    · subst hw
      rw [hproc, Function.update_self] at hidle
      exact hfree hidle
    · rw [hproc, Function.update_of_ne (by simpa using hw)] at hidle
      rw [ne_eq, hother w' hw]
      exact h.free w' hidle

theorem step [StringToLongLong] (h : WorkersObey guarded s) (hmain : MainLock s) {l : Label n}
    (hs : StepCase s l s')
    (hgood : ∀ e ∈ s.queue, e.Queued → Prog.Obeys (Call.Answer e.argv) (lockNext guarded)
      (fun _ held => held = false) false (e.type.execute e.argv.length false)) :
    WorkersObey guarded s' := by
  have hnone : s.procs .main ≠ .idle → ∀ w, s.redis.lock ≠ some (.worker w) := by
    intro hbusy w hw
    cases (hmain.busy hbusy).symm.trans hw
  cases hs with
  | conc name argv _ _ hlock => exact h.stay (by simp) (by simp [hlock])
  | seq name argv _ _ hlock => exact h.stay (by simp) (by simp [hlock])
  | redis c _ hlock => exact h.stay (by simp) (by simp [hlock])
  | construct id type argv hproc => exact h.stay (by simp) fun _ => Iff.rfl
  | enqueue e hproc => exact h.stay (by simp) fun _ => Iff.rfl
  | ret e hproc => exact h.stay (by simp) (by simp [hnone, hproc])
  | mainCall e c k hproc _ res redis hexec =>
    obtain ⟨lock, store, hlock, _, rfl⟩ := Redis.exec_eq_some hexec
    exact h.stay (by simp) fun w => lockStep_other hlock (by simp)
  | seqReturn e hproc => exact h.stay (by simp) (by simp [hnone, hproc])
  | builtin c hproc => exact h.stay (by simp) (by simp [hnone, hproc])
  | spin w => exact h
  | dequeue w e queue hidle hqueue he =>
    have hfree : s.redis.lock ≠ some (.worker w) := h.free w (by simp [hidle])
    refine h.move rfl (fun _ _ => Iff.rfl) (fun e' rest hp => ?_) (by simp)
    cases hp
    have hmem : e ∈ s.queue := hqueue ▸ List.mem_cons_self
    have hexec : e.execute = e.type.execute e.argv.length false := by
      rw [Event.execute, he.threadSafe]
    simpa [hfree, hexec] using hgood e hmem he
  | workerCall w e c k hproc _ res redis hexec =>
    obtain ⟨lock, store, hlock, hstore, rfl⟩ := Redis.exec_eq_some hexec
    obtain ⟨held, hnext, hrest⟩ := h.held w e _ hproc
    refine h.move rfl (fun w' hw => lockStep_other hlock (by simpa using hw))
      (fun e' rest hp => ?_) (by simp)
    cases hp
    rw [lockStep_next hlock hnext] at hrest
    exact hrest res (answer_of_exec hstore)
  | executed w e hproc =>
    have hfree : decide (s.redis.lock = some (.worker w)) = false := h.held w e _ hproc
    exact h.move rfl (fun _ _ => Iff.rfl) (by simp) fun _ => of_decide_eq_false hfree
  | drop w e hproc =>
    have hfree : s.redis.lock ≠ some (.worker w) := h.free w (by simp [hproc])
    exact h.move (State.release_procs ..) (by simp) (by simp) (by simpa using hfree)

end WorkersObey

/-- A worker that is about to make a keyspace call holds the lock; then the main thread runs no
command, and no other worker is about to make a keyspace call. -/
def KeyspaceLocked (s : State n) : Prop :=
  ∀ w e c k, s.procs (.worker w) = .execute e (.call c k) → c.isKeyspace = true →
    s.redis.lock = some (.worker w) ∧ s.procs .main = .idle ∧
      ∀ w' e' c' k', s.procs (.worker w') = .execute e' (.call c' k') → c'.isKeyspace = true →
        w' = w

lemma WorkersObey.lock_of_keyspace (h : WorkersObey Call.isKeyspace s) {w : Fin n} {e : Event}
    {c : Call} {k : c.Res → RedisM Unit} (hproc : s.procs (.worker w) = .execute e (.call c k))
    (hc : c.isKeyspace = true) : s.redis.lock = some (.worker w) := by
  obtain ⟨held, hnext, _⟩ := h.held w e _ hproc
  by_contra hfree
  cases c <;> simp_all [lockNext, Call.isKeyspace]

/-- Only commands whose queued events take the lock before they reach a key. -/
def Label.Locks [StringToLongLong] : Label n → Prop :=
  Label.Issues fun threadSafe type argv => threadSafe = false → type.Locks argv

theorem keyspace_locked [StringToLongLong] {st : Store} {ls : List (Label n)}
    (hrun : Runs State.step (labelled Label.Locks) (State.init n st) ls s) :
    KeyspaceLocked s := by
  have hinv := State.run_invariant
    (I := fun s => s.Carries (fun _ ts type argv => ts = false → type.Locks argv) ∧ MainLock s ∧
      WorkersObey Call.isKeyspace s)
    ⟨State.carries_init st, .init st, .init st⟩
    (fun s l s' _ ⟨hcarries, hmain, hworkers⟩ hl hs =>
      ⟨hcarries.issued hl hs, hmain.step hs, hworkers.step hmain hs fun e he hq =>
        EventType.obeys_lockNext (hcarries.queue e he hq.threadSafe)⟩) hrun
  obtain ⟨_, _, hmain, hworkers⟩ := hinv
  intro w e c k hproc hc
  have hlock := hworkers.lock_of_keyspace hproc hc
  refine ⟨hlock, ?_, fun w' e' c' k' hproc' hc' => ?_⟩
  · by_contra hbusy
    cases (hmain.busy hbusy).symm.trans hlock
  · have hlock' := hworkers.lock_of_keyspace hproc' hc'
    cases hlock.symm.trans hlock'
    rfl

/-- A worker creates a set under the lock. -/
theorem keyspace_locked_create : ∃ s : State 1, KeyspaceLocked s ∧
    (match s.procs (.worker 0) with
      | .execute _ (.call c _) => c.isKeyspace
      | _ => false) = true := by
  let _ := decimalStrings
  let labels : List (Label 1) :=
    Label.queue .llcaConcCreate ["llca_conc.create", "k"] ++ Label.turn (.worker 0) 3
  obtain ⟨s, hrun, hs⟩ : ∃ s, Runs State.step anyStep (State.init 1 .empty) labels s ∧
      (match s.procs (.worker 0) with
        | .execute _ (.call c _) => c.isKeyspace
        | _ => false) = true :=
    Runs.exists_of_follow _ (by decide +kernel)
  have hlabels : ∀ l ∈ labels, Label.Locks l := by
    simp only [labels, List.forall_mem_append, Label.forall_mem_queue]
    exact ⟨⟨fun _ => trivial, trivial⟩, Label.forall_mem_turn trivial⟩
  exact ⟨s, keyspace_locked (hrun.labelled_of hlabels), hs⟩

/-- A queued insertion opens its key without the lock. -/
theorem keyspace_locked_fails : ¬∀ (n : Nat) (st : Store) (ls : List (Label n)) (s : State n),
    Runs (@State.step n decimalStrings) anyStep (State.init n st) ls s → KeyspaceLocked s := by
  let _ := decimalStrings
  intro hall
  let labels : List (Label 1) :=
    Label.queue .llcaConcInsert ["llca_conc.insert", "k", "5"] ++ Label.turn (.worker 0) 3
  obtain ⟨s, hrun, hs⟩ : ∃ s, Runs State.step anyStep (State.init 1 .empty) labels s ∧
      (match s.procs (.worker 0) with
        | .execute _ (.call c _) => c.isKeyspace && decide (s.redis.lock = none)
        | _ => false) = true :=
    Runs.exists_of_follow _ (by decide +kernel)
  split at hs
  · rename_i e c k hproc
    obtain ⟨hc, hnone⟩ := Bool.and_eq_true_iff.mp hs
    have hlock := (hall 1 .empty labels s hrun 0 e c k hproc hc).1
    cases hlock.symm.trans (of_decide_eq_true hnone)
  · cases hs

end RedPar
