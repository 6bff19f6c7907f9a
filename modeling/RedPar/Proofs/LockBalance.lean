import RedPar.Proofs.CommandSpec
import RedPar.Proofs.LockDiscipline

/-!
# The balance of the global lock

A queued event locks only without the lock and unlocks only with it, whatever it finds under its
key, and ends without it. A direct event leaves the lock alone, which its command holds.
-/

namespace RedPar
open Interleaved

/-- Whether the lock is held after `calls`; nothing if one of them locks it twice or unlocks it
without holding it. -/
def heldAfter (held : Bool) (calls : List Call) : Option Bool :=
  calls.foldlM (lockNext fun _ => false) held

section Bodies

variable {argv : List RedisModuleString}

lemma obeys_unguarded {guarded : Call → Bool} {p : RedisM Unit} {held : Bool}
    (h : Prog.Obeys (Call.Answer argv) (lockNext guarded) (fun _ held => held = false) held p) :
    Prog.Obeys (Call.Answer argv) (lockNext fun _ => false) (fun _ held => held = false) held
      p := by
  refine h.simulate Eq rfl (fun held _ c held₁ hrel hnext => ⟨held₁, ?_, rfl⟩) ?_
  · subst hrel
    cases c <;> simp_all [lockNext]
  · intro _ held _ hrel hfinal
    exact hrel ▸ hfinal

lemma obeys_of_keepNext {α : Type} {p : RedisM α} (held held' : Bool)
    (h : Prog.Obeys (Call.Answer argv) keepNext (fun _ _ => True) held p) :
    Prog.Obeys (Call.Answer argv) (lockNext fun _ => false) (fun _ held₁ => held₁ = held') held'
      p := by
  refine h.simulate (fun _ held₁ => held₁ = held') rfl ?_ fun _ _ _ hrel _ => hrel
  intro _ held₁ c _ hrel hnext
  refine ⟨held₁, ?_, hrel⟩
  cases c <;> simp_all [lockNext, keepNext]

lemma obeys_reply {p : RedisM RedisModuleString} {held : Bool}
    (h : Prog.Obeys (Call.Answer argv) keepNext (fun _ _ => True) held p) :
    Prog.Obeys (Call.Answer argv) keepNext (fun _ _ => True) held (do
      let result ← p
      replyWithString result) := by
  rw [Prog.obeys_bind]
  apply h.mono
  intro result held' _
  exact ⟨held', rfl, fun _ _ => trivial⟩

variable [StringToLongLong]

/-- The lock is held around `OpenKey` alone. -/
lemma obeys_llcaEvent_queued {body : RedisModuleKey → KeyType → Int64 → RedisM RedisModuleString}
    (argc : Nat)
    (hbody : ∀ key type value, Prog.Obeys (Call.Answer argv) keepNext (fun _ _ => True) false
      (body key type value)) :
    Prog.Obeys (Call.Answer argv) (lockNext fun _ => false) (fun _ held => held = false) false
      (llcaEvent (llcaRedisCommand body) argc) := by
  unfold llcaEvent llcaRedisCommand wrongType
  by_cases hlen : argc = 3
  · simp [hlen, Prog.obeys_call, lockNext]
    intro _ _ _ _ arg _ key _ _ _ type _
    apply obeys_of_keepNext false false
    apply obeys_reply
    by_cases htype : type = .empty
    · simp [htype, Prog.obeys_call, keepNext]
      intro arg _
      cases StringToLongLong.parse arg with
      | none => exact trivial
      | some value => exact hbody key .empty value
    · simp [htype, Prog.obeys_call, keepNext]
      intro mt _
      by_cases hmt : mt = some .llca
      · simp [hmt, Prog.obeys_call, keepNext]
        intro arg _
        cases StringToLongLong.parse arg with
        | none => exact trivial
        | some value => exact hbody key type value
      · simp [hmt]
  · simp [hlen, Prog.obeys_call, Prog.lift, lockNext]

end Bodies

namespace EventType

variable [StringToLongLong]

theorem obeys_queued (type : EventType) (argv : List RedisModuleString) :
    Prog.Obeys (Call.Answer argv) (lockNext fun _ => false) (fun _ held => held = false) false
      (type.execute argv.length false) := by
  cases type with
  | llcaRemove | llcaContains | llcaInsert =>
    apply obeys_llcaEvent_queued
    intro key type value
    by_cases htype : type = .empty
    · simp [htype, Prog.obeys_call, keepNext]
    · simp [htype, Prog.obeys_call, keepNext]
  | llcaConcCreate => exact obeys_unguarded obeys_create
  | llcaConcDelete => exact obeys_unguarded obeys_delete
  -- `lookup_key` does not look at the mode, so a queued event is here the direct one.
  | llcaConcRemove =>
    exact obeys_of_keepNext true false (llcaConcRemove.obeys_keepNext trivial argv argv.length)
  | llcaConcContains =>
    exact obeys_of_keepNext true false (llcaConcContains.obeys_keepNext trivial argv argv.length)
  | llcaConcInsert =>
    exact obeys_of_keepNext true false (llcaConcInsert.obeys_keepNext trivial argv argv.length)

/-- A queued event that runs alone never locks with the lock held, never unlocks without it, and
returns without it; it does return, from a sound keyspace. -/
structure QueuedBalanced (type : EventType) (argv : List RedisModuleString) (st : Store) :
    Prop where
  point : ∀ count rest st' calls, Prog.point (Store.exec argv) count
    (type.execute argv.length false) st = some (rest, st', calls) → heldAfter false calls ≠ none
  released : ∀ st' calls, (type.execute argv.length false).run (Store.exec argv) st =
    some ((), st', calls) → heldAfter false calls = some false
  returns : st.Sound → ∃ st' calls,
    (type.execute argv.length false).run (Store.exec argv) st = some ((), st', calls)

theorem queuedBalanced (type : EventType) (argv : List RedisModuleString) (st : Store) :
    type.QueuedBalanced argv st where
  point count rest st' calls hpoint := by
    obtain ⟨held, hheld, _⟩ :=
      (type.obeys_queued argv).point (fun _ _ _ _ => answer_of_exec) hpoint
    rw [heldAfter, hheld]
    exact Option.some_ne_none held
  released st' calls hrun := by
    obtain ⟨held, hheld, hfree⟩ :=
      (type.obeys_queued argv).trace (fun _ _ _ _ => answer_of_exec) hrun
    rw [heldAfter, hheld, hfree]
  returns hsound := by
    obtain ⟨_, st', calls, hrun, _⟩ := Prog.wp_iff_run.mp (wp_execute argv hsound type false)
    exact ⟨st', calls, hrun⟩

/-- The calls up to any point of a run of a direct event leave the lock alone. -/
def DirectSilent (type : EventType) (argv : List RedisModuleString) (st : Store) : Prop :=
  ∀ count rest st' calls, Prog.point (Store.exec argv) count (type.execute argv.length true) st =
    some (rest, st', calls) → .threadSafeContextLock ∉ calls ∧ .threadSafeContextUnlock ∉ calls

omit [StringToLongLong] in
lemma not_mem_of_keepNext {calls : List Call} {held held' : Bool}
    (h : calls.foldlM keepNext held = some held') :
    .threadSafeContextLock ∉ calls ∧ .threadSafeContextUnlock ∉ calls := by
  induction calls generalizing held with
  | nil => simp
  | cons c calls ih =>
    rw [List.foldlM_cons] at h
    obtain ⟨held₁, hkeep, hrest⟩ := Option.bind_eq_some_iff.mp h
    obtain ⟨hlock, hunlock⟩ := ih hrest
    cases c <;> simp_all [keepNext]

theorem directSilent {type : EventType} (h : type.OnSet) (argv : List RedisModuleString)
    (st : Store) : type.DirectSilent argv st := by
  intro count rest st' calls hpoint
  obtain ⟨held, hheld, _⟩ :=
    (obeys_keepNext h argv argv.length).point (fun _ _ _ _ => answer_of_exec) hpoint
  exact not_mem_of_keepNext hheld

end EventType

variable {n : Nat} {s : State n}

/-- No thread waits for the lock that it holds itself or unlocks it without holding it, and a worker
between two events does not hold it. -/
structure LockBalanced (s : State n) : Prop where
  lock : ∀ t, (s.procs t).call? = some .threadSafeContextLock → s.redis.lock ≠ some t
  unlock : ∀ t, (s.procs t).call? = some .threadSafeContextUnlock → s.redis.lock = some t
  direct : (s.procs .main).call? ≠ some .threadSafeContextLock ∧
    (s.procs .main).call? ≠ some .threadSafeContextUnlock
  /-- The main thread may wait for the lock to enter its next command. -/
  entry : s.procs .main = .idle → s.redis.lock ≠ some .main
  returned : ∀ w e, s.procs (.worker w) = .execute e (.pure ()) → s.redis.lock ≠ some (.worker w)
  free : ∀ w, (∀ e rest, s.procs (.worker w) ≠ .execute e rest) →
    s.redis.lock ≠ some (.worker w)
  quiescent : s.Quiescent → s.redis.lock = none

lemma call?_eq_some {p : Proc} {c : Call} (h : p.call? = some c) :
    ∃ e k, p = .execute e (.call c k) := by
  unfold Proc.call? at h
  split at h
  · cases h
    exact ⟨_, _, rfl⟩
  · cases h

lemma MainLock.call?_ne (h : MainLock s) {c : Call} (hc : keepNext true c = none) :
    (s.procs .main).call? ≠ some c := by
  intro hcall
  obtain ⟨e, k, hproc⟩ := call?_eq_some hcall
  obtain ⟨held, hkeep, _⟩ := h.direct e _ hproc
  rw [hc] at hkeep
  cases hkeep

lemma WorkersObey.balanced (h : WorkersObey (fun _ => false) s) (hmain : MainLock s) :
    LockBalanced s := by
  have hdirect : (s.procs .main).call? ≠ some .threadSafeContextLock ∧
      (s.procs .main).call? ≠ some .threadSafeContextUnlock :=
    ⟨hmain.call?_ne rfl, hmain.call?_ne rfl⟩
  refine ⟨fun t hcall => ?_, fun t hcall => ?_, hdirect, hmain.idle, fun w e hproc => ?_, h.free,
    fun hquiet => ?_⟩
  · cases t with
    | main => exact absurd hcall hdirect.1
    | worker w =>
      obtain ⟨e, k, hproc⟩ := call?_eq_some hcall
      obtain ⟨held, hnext, _⟩ := h.held w e _ hproc
      intro hheld
      simp [lockNext, hheld] at hnext
  · cases t with
    | main => exact absurd hcall hdirect.2
    | worker w =>
      obtain ⟨e, k, hproc⟩ := call?_eq_some hcall
      obtain ⟨held, hnext, _⟩ := h.held w e _ hproc
      by_contra hfree
      simp [lockNext, hfree] at hnext
  · have hfree : decide (s.redis.lock = some (.worker w)) = false := h.held w e _ hproc
    exact of_decide_eq_false hfree
  · apply Option.eq_none_iff_forall_ne_some.mpr
    intro t
    cases t with
    | main => exact hmain.idle (hquiet.2 .main)
    | worker w => exact h.free w (by simp [hquiet.2])

lemma lockBalanced_of_run [StringToLongLong] {st : Store} {ls : List (Label n)}
    (hrun : Runs State.step anyStep (State.init n st) ls s) : LockBalanced s := by
  have hinv := State.run_invariant
    (I := fun s => MainLock s ∧ WorkersObey (fun _ => false) s) ⟨.init st, .init st⟩
    (fun s l s' _ ⟨hmain, hworkers⟩ _ hs => ⟨hmain.step hs,
      hworkers.step hmain hs fun e _ _ => e.type.obeys_queued e.argv⟩) hrun
  exact hinv.2.2.balanced hinv.2.1

/-- The lock is balanced in every event that runs alone, in either mode, and in every run. -/
theorem lock_balanced [StringToLongLong] :
    (∀ (type : EventType) argv st, type.QueuedBalanced argv st) ∧
    (∀ (type : EventType) argv st, type.OnSet → type.DirectSilent argv st) ∧
    ∀ n st ls (s : State n), Runs State.step anyStep (State.init n st) ls s → LockBalanced s :=
  ⟨EventType.queuedBalanced, fun _ argv st h => EventType.directSilent h argv st,
    fun _ _ _ _ => lockBalanced_of_run⟩

/-- One worker waits for the lock while the other creates a set. -/
theorem lock_balanced_contended : ∃ s : State 2, LockBalanced s ∧
    s.redis.lock = some (.worker 0) ∧
    (s.procs (.worker 1)).call? = some .threadSafeContextLock := by
  let _ := decimalStrings
  let create (key : RedisModuleString) : List (Label 2) :=
    Label.queue .llcaConcCreate ["llca_conc.create", key]
  let labels : List (Label 2) := create "a" ++ create "b" ++
    Label.turn (.worker 0) 1 ++ Label.turn (.worker 1) 1 ++ Label.turn (.worker 0) 1
  obtain ⟨s, hrun, hs⟩ : ∃ s, Runs State.step anyStep (State.init 2 .empty) labels s ∧
      (decide (s.redis.lock = some (.worker 0)) &&
        decide ((s.procs (.worker 1)).call? = some .threadSafeContextLock)) = true :=
    Runs.exists_of_follow _ (by decide +kernel)
  obtain ⟨hlock, hcall⟩ := Bool.and_eq_true_iff.mp hs
  have hbalanced : LockBalanced s := lock_balanced.2.2 2 .empty labels s hrun
  exact ⟨s, hbalanced, of_decide_eq_true hlock, of_decide_eq_true hcall⟩

end RedPar
