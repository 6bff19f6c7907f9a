import RedPar.Lib.Monitor
import RedPar.Proofs.LockDiscipline

/-!
# What the lock owns

If the events touch the store under the lock only, the lock may own an invariant of it: the store
satisfies it whenever no thread has the lock for an event, and each event may break it in between.
-/

namespace RedPar
open Interleaved

def Call.use : Call → LockUse
  | .threadSafeContextLock => .acquire
  | .threadSafeContextUnlock => .release
  | _ => .keep

variable (inv : Store → Prop) (safe : Call → Store → Prop)

/-- The rest of an event keeps to the lock. -/
abbrev KeepsLock (argv : List RedisModuleString) (final : Option Store → Prop)
    (held : Option Store) (rest : RedisM Unit) : Prop :=
  Prog.Monitors (Store.exec argv) Call.use inv safe (fun _ => final) held rest

/-- The end of an event on the main thread, which keeps the lock. -/
def GivesBack (held : Option Store) : Prop := ∃ st, held = some st ∧ inv st

/-- Events that keep to the lock: direct ones have it throughout, queued ones take it. -/
def Guarded [StringToLongLong] (good : Bool → EventType → List RedisModuleString → Prop) : Prop :=
  ∀ (type : EventType) (argv : List RedisModuleString),
    (good true type argv → ∀ st, inv st →
      KeepsLock inv safe argv (GivesBack inv) (some st) (type.execute argv.length true)) ∧
    (good false type argv →
      KeepsLock inv safe argv (· = none) none (type.execute argv.length false))

variable {n : Nat}

structure Monitored (s : State n) : Prop where
  main : ∀ e rest, s.procs .main = .execute e rest →
    KeepsLock inv safe e.argv (GivesBack inv) (some s.redis.store) rest
  worker : ∀ w e rest, s.procs (.worker w) = .execute e rest → KeepsLock inv safe e.argv (· = none)
    (if s.redis.lock = some (.worker w) then some s.redis.store else none) rest
  free : ∀ w, (∀ e rest, s.procs (.worker w) ≠ .execute e rest) →
    s.redis.lock ≠ some (.worker w)
  rest : (∀ e rest, s.procs .main ≠ .execute e rest) →
    (∀ w, s.redis.lock ≠ some (.worker w)) → inv s.redis.store

variable {inv safe} {s s' : State n}

lemma lockStep_use {t : Thread n} {c : Call} {lock lock' : Option (Thread n)}
    (h : c.lockStep t lock = some lock') :
    match c.use with
    | .acquire => lock = none ∧ lock' = some t
    | .release => lock = some t ∧ lock' = none
    | .keep => lock' = lock := by
  cases c
  case threadSafeContextLock | threadSafeContextUnlock =>
    obtain ⟨hlock, heq⟩ := Option.ite_none_right_eq_some.mp h
    exact ⟨hlock, (Option.some.inj heq).symm⟩
  all_goals exact (Option.some.inj h).symm

lemma store_of_use {argv : List RedisModuleString} {c : Call} {st st' : Store} {res : c.Res}
    (hc : c.use ≠ .keep) (h : Store.exec argv c st = some (res, st')) : st' = st := by
  cases c
  case threadSafeContextLock | threadSafeContextUnlock =>
    exact (Prod.mk.inj (Option.some.inj h)).2.symm
  all_goals exact absurd rfl hc

namespace Monitored

lemma init {st : Store} (hst : inv st) : Monitored inv safe (State.init n st) where
  main _ _ h := nomatch h
  worker _ _ _ h := nomatch h
  free _ _ := nofun
  rest _ _ := hst

lemma ofMain (h : Monitored inv safe s)
    (hprocs : ∀ w, s'.procs (.worker w) = s.procs (.worker w))
    (hlock : ∀ w, s.redis.lock ≠ some (.worker w)) (hlock' : ∀ w, s'.redis.lock ≠ some (.worker w))
    (hmain : ∀ e rest, s'.procs .main = .execute e rest →
      KeepsLock inv safe e.argv (GivesBack inv) (some s'.redis.store) rest)
    (hrest : (∀ e rest, s'.procs .main ≠ .execute e rest) → inv s'.redis.store) :
    Monitored inv safe s' where
  main := hmain
  worker w e rest hproc := by
    rw [hprocs] at hproc
    have hw := h.worker w e rest hproc
    rw [if_neg (hlock w)] at hw
    rwa [if_neg (hlock' w)]
  free w _ := hlock' w
  rest hidle _ := hrest hidle

lemma ofWorker (h : Monitored inv safe s) {w : Fin n} {p : Proc}
    (hprocs : s'.procs = Function.update s.procs (.worker w) p)
    (hstore : s'.redis.store = s.redis.store) (hlock : s'.redis.lock = s.redis.lock)
    (hp : ∀ e rest, p = .execute e rest → KeepsLock inv safe e.argv (· = none)
      (if s.redis.lock = some (.worker w) then some s.redis.store else none) rest)
    (hfree : (∀ e rest, p ≠ .execute e rest) → s.redis.lock ≠ some (.worker w)) :
    Monitored inv safe s' where
  main e rest hproc := by
    rw [hprocs, Function.update_of_ne (by simp)] at hproc
    rw [hstore]
    exact h.main e rest hproc
  worker w' e rest hproc := by
    rw [hprocs] at hproc
    rw [hstore, hlock]
    by_cases hw : w' = w
    · subst hw
      rw [Function.update_self] at hproc
      exact hp e rest hproc
    · rw [Function.update_of_ne (by simpa using hw)] at hproc
      exact h.worker w' e rest hproc
  free w' hidle := by
    rw [hlock]
    rw [hprocs] at hidle
    by_cases hw : w' = w
    · subst hw
      rw [Function.update_self] at hidle
      exact hfree hidle
    · rw [Function.update_of_ne (by simpa using hw)] at hidle
      exact h.free w' hidle
  rest hidle hnone := by
    rw [hprocs, Function.update_of_ne (by simp)] at hidle
    rw [hlock] at hnone
    rw [hstore]
    exact h.rest hidle hnone

lemma ofHolder (h : Monitored inv safe s) {w : Fin n} {e : Event} {rest : RedisM Unit}
    (hprocs : s'.procs = Function.update s.procs (.worker w) (.execute e rest))
    (hmain : ∀ e rest, s.procs .main ≠ .execute e rest)
    (hother : ∀ w', w' ≠ w → s.redis.lock ≠ some (.worker w') ∧ s'.redis.lock ≠ some (.worker w'))
    {held : Option Store} (hp : KeepsLock inv safe e.argv (· = none) held rest)
    (hheld : held = if s'.redis.lock = some (.worker w) then some s'.redis.store else none)
    (hrest : s'.redis.lock ≠ some (.worker w) → inv s'.redis.store) : Monitored inv safe s' where
  main e' rest' hproc := by
    rw [hprocs, Function.update_of_ne (by simp)] at hproc
    exact absurd hproc (hmain e' rest')
  worker w' e' rest' hproc := by
    rw [hprocs] at hproc
    by_cases hw : w' = w
    · subst hw
      rw [Function.update_self] at hproc
      cases hproc
      exact hheld ▸ hp
    · rw [Function.update_of_ne (by simpa using hw)] at hproc
      have hw' := h.worker w' e' rest' hproc
      obtain ⟨hold, hnew⟩ := hother w' hw
      rw [if_neg hold] at hw'
      rwa [if_neg hnew]
  free w' hidle := by
    by_cases hw : w' = w
    · subst hw
      rw [hprocs, Function.update_self] at hidle
      exact absurd rfl (hidle e rest)
    · exact (hother w' hw).2
  rest _ hnone := hrest (hnone w)

lemma workerCall (h : Monitored inv safe s) (hmain : MainLock s) {w : Fin n} {e : Event} {c : Call}
    {k : c.Res → RedisM Unit} (hproc : s.procs (.worker w) = .execute e (.call c k)) {res : c.Res}
    {redis : Redis (Thread n)} (hexec : s.redis.exec (.worker w) e c = some (res, redis)) :
    Monitored inv safe ({ s with redis }.setProc (.worker w) (.execute e (k res))) := by
  obtain ⟨lock, store, hlock, hstore, rfl⟩ := Redis.exec_eq_some hexec
  have hw := h.worker w e _ hproc
  have huse := lockStep_use hlock
  have hidle : s.redis.lock ≠ some .main → ∀ e rest, s.procs .main ≠ .execute e rest := by
    intro hfree e rest hexecute
    exact hfree (hmain.busy (by simp [hexecute]))
  cases hc : c.use with
  | acquire =>
    simp only [hc] at huse
    obtain ⟨hnone, rfl⟩ := huse
    obtain rfl := store_of_use (by simp [hc]) hstore
    have hinv : inv s.redis.store := h.rest (hidle (by simp [hnone])) (by simp [hnone])
    rw [if_neg (by simp [hnone])] at hw
    replace hw := (Prog.monitors_acquire hc).mp hw
    refine h.ofHolder rfl (hidle (by simp [hnone])) (fun w' hw' => ?_) (hw _ hinv res)
      (if_pos rfl).symm (absurd rfl)
    simp [hnone, Ne.symm hw']
  | release =>
    simp only [hc] at huse
    obtain ⟨hheld, rfl⟩ := huse
    obtain rfl := store_of_use (by simp [hc]) hstore
    rw [if_pos hheld] at hw
    replace hw := (Prog.monitors_release hc).mp hw
    refine h.ofHolder rfl (hidle (by simp [hheld])) (fun w' hw' => ?_) (hw.2 res)
      (if_neg (by simp)).symm fun _ => hw.1
    simp [hheld, Ne.symm hw']
  | keep =>
    simp only [hc] at huse
    subst huse
    by_cases hheld : s.redis.lock = some (.worker w)
    · rw [if_pos hheld] at hw
      replace hw := (Prog.monitors_held hc).mp hw
      refine h.ofHolder rfl (hidle (by simp [hheld])) (fun w' hw' => ?_) (hw.2 res store hstore)
        (if_pos hheld).symm (absurd hheld)
      simp [hheld, Ne.symm hw']
    · rw [if_neg hheld] at hw
      replace hw := (Prog.monitors_free hc).mp hw
      have hsame : store = s.redis.store := hw.2.1 _ _ _ hstore
      refine h.ofWorker rfl hsame rfl (fun e' rest hp => ?_) (fun hp => absurd rfl (hp e (k res)))
      cases hp
      rw [if_neg hheld]
      exact hw.2.2 _ _ _ hstore

theorem step [StringToLongLong] {good : Bool → EventType → List RedisModuleString → Prop}
    (hguarded : Guarded inv safe good) (h : Monitored inv safe s) (hmain : MainLock s)
    (hcarries : s.Carries fun _ => good) {l : Label n} (hl : l.Issues good)
    (hbuiltin : ∀ c st, l = .step .main → s.procs .main = .builtin c →
      State.builtinStore s.redis.store c = some st → inv s.redis.store → inv st)
    (hs : StepCase s l s') : Monitored inv safe s' := by
  have hbusy : s.procs .main ≠ .idle → ∀ w, s.redis.lock ≠ some (.worker w) := by
    intro hne w hw
    cases (hmain.busy hne).symm.trans hw
  cases hs with
  | conc name argv _ hidle hlock =>
    have hinv : inv s.redis.store := h.rest (by simp [hidle]) (by simp [hlock])
    exact h.ofMain (by simp) (by simp [hlock]) (by simp) (by simp) fun _ => hinv
  | seq name argv hseq hidle hlock e he =>
    have hinv : inv s.redis.store := h.rest (by simp [hidle]) (by simp [hlock])
    have hgood : good true name.event argv := by
      have hissue : good (name.handler = .seq) name.event argv := hl
      rwa [decide_eq_true hseq] at hissue
    refine h.ofMain (by simp) (by simp [hlock]) (by simp) (fun e' rest hproc => ?_)
      fun hne => absurd (by simp) (hne e e.execute)
    have heq : Proc.execute e e.execute = .execute e' rest := by simpa using hproc
    cases heq
    subst he
    exact (hguarded name.event argv).1 hgood _ hinv
  | redis c hidle hlock =>
    have hinv : inv s.redis.store := h.rest (by simp [hidle]) (by simp [hlock])
    exact h.ofMain (by simp) (by simp [hlock]) (by simp) (by simp) fun _ => hinv
  | construct id type argv hproc =>
    have hfree := hbusy (by simp [hproc])
    exact h.ofMain (by simp) hfree hfree (by simp) fun _ => h.rest (by simp [hproc]) hfree
  | enqueue e hproc =>
    have hfree := hbusy (by simp [hproc])
    exact h.ofMain (by simp) hfree hfree (by simp) fun _ => h.rest (by simp [hproc]) hfree
  | ret e hproc =>
    have hfree := hbusy (by simp [hproc])
    exact h.ofMain (by simp) hfree (by simp) (by simp) fun _ => by
      simpa using h.rest (by simp [hproc]) hfree
  | mainCall e c k hproc he res redis hexec =>
    obtain ⟨lock, store, hlock, hstore, rfl⟩ := Redis.exec_eq_some hexec
    obtain ⟨held, hkeep, _⟩ := hmain.direct e _ hproc
    obtain ⟨rfl, _⟩ := lockStep_keep hlock hkeep
    have hfree := hbusy (by simp [hproc])
    have hc : c.use = .keep := by
      cases c <;> first | rfl | cases hkeep
    have hheld := (Prog.monitors_held hc).mp (h.main e _ hproc)
    refine h.ofMain (by simp) hfree hfree (fun e' rest hproc' => ?_)
      fun hne => absurd (by simp) (hne e (k res))
    have heq : Proc.execute e (k res) = .execute e' rest := by simpa using hproc'
    cases heq
    exact hheld.2 res store hstore
  | seqReturn e hproc =>
    obtain ⟨st, hst, hinv⟩ : GivesBack inv (some s.redis.store) := h.main e _ hproc
    cases hst
    exact h.ofMain (by simp) (hbusy (by simp [hproc])) (by simp) (by simp) fun _ => hinv
  | builtin c hproc store hstore =>
    have hfree := hbusy (by simp [hproc])
    have hinv := h.rest (by simp [hproc]) hfree
    exact h.ofMain (by simp) hfree (by simp) (by simp) fun _ =>
      hbuiltin c store rfl hproc hstore hinv
  | spin w => exact h
  | dequeue w e queue hidle hqueue he =>
    have hfree : s.redis.lock ≠ some (.worker w) := h.free w (by simp [hidle])
    refine h.ofWorker rfl rfl rfl (fun e' rest hp => ?_) fun _ => hfree
    cases hp
    have hgood : good e.threadSafe e.type e.argv := hcarries.queue e (hqueue ▸ List.mem_cons_self)
    rw [he.threadSafe] at hgood
    rw [if_neg hfree, Event.execute, he.threadSafe]
    exact (hguarded e.type e.argv).2 hgood
  | workerCall w e c k hproc he res redis hexec => exact h.workerCall hmain hproc hexec
  | executed w e hproc =>
    have hfree : s.redis.lock ≠ some (.worker w) := by
      intro hheld
      have hend := h.worker w e _ hproc
      rw [if_pos hheld] at hend
      cases hend
    exact h.ofWorker rfl rfl rfl (fun _ _ hp => by cases hp) fun _ => hfree
  | drop w e hproc =>
    have hfree : s.redis.lock ≠ some (.worker w) := h.free w (by simp [hproc])
    exact h.ofWorker (State.release_procs ..) (State.release_store ..) (State.release_lock ..)
      (fun _ _ hp => by cases hp) fun _ => hfree

end Monitored

end RedPar
