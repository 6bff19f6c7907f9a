import RedPar.Proofs.Linearizability
import RedPar.Proofs.SkipListSets

/-!
# The refinement of sets by skip lists

A simulation: each skip list has a world, and the state with sets is that of the worlds. A step
outside of the skip lists is the same step of the state with sets. An access at which a member
function takes effect is its step there, a report of contention is a lost erase, and the other
steps inside of a skip list do not show.
-/

namespace RedPar
open Interleaved SkipList

/-! ## Steps of one skip list -/

namespace SkipList

variable {T K : Type} [DecidableEq T] [LinearOrder K] {list list' : System T K} {w : World T K}
  {t : T}

lemma System.history_prefix {l : Label T K} (h : list.step l = some list') :
    list.history <+: list'.history := by
  cases l with
  | call u op fuel =>
    simp only [System.step] at h
    cases hu : list.procs u with
    | some p => simp [hu] at h
    | none =>
      simp only [hu] at h
      cases h
      exact List.prefix_append ..
  | step u =>
    simp only [System.step] at h
    cases hu : list.procs u with
    | none => simp [hu] at h
    | some p =>
      obtain ⟨id, op, ⟨_ | r⟩ | ⟨c, k⟩⟩ := p
      · simp [hu] at h
      · simp only [hu] at h
        cases h
        exact List.prefix_append ..
      · simp only [hu] at h
        obtain ⟨_, _, h⟩ := Option.bind_eq_some_iff.mp h
        cases h
        exact List.prefix_append ..

lemma Follows.enter (h : Follows list w) {op : Op K} {fuel : Nat}
    (hstep : list.step (.call t op fuel) = some list') :
    list.procs t = none ∧ Follows list' (w.become t (some op) .todo) ∧
      ∃ p : Running K, p.op = op ∧ list'.procs = Function.update list.procs t (some p) := by
  simp only [System.step] at hstep
  cases ht : list.procs t with
  | some p => simp [ht] at hstep
  | none =>
    simp only [ht] at hstep
    cases hstep
    exact ⟨rfl, h.call ht op fuel _ _ _, _, rfl, rfl⟩

/-- What the step of a thread in an operation does. -/
inductive Turn (t : T) (p : Running K) (list list' : System T K) (w w' : World T K) : Prop
  | ret (r : Bool) (hrest : p.rest = .pure (some r))
      (hprocs : list'.procs = Function.update list.procs t none)
      (hstatus : w.status t = .done r ∨ w.status t = .lost ∧ r = false)
      (hw : w' = w.become t none .todo)
  | access (p' : Running K) (c : Access K) (hrest : ∀ r, p.rest ≠ .pure r) (hop : p'.op = p.op)
      (hprocs : list'.procs = Function.update list.procs t (some p')) (heffect : Effect t c w w')
      (hlost : c = .onEraseContention → ∃ id, .contention id ∈ list'.history)

lemma Follows.turn (h : Follows list w) (hstep : list.step (.step t) = some list') :
    ∃ p w', list.procs t = some p ∧ Follows list' w' ∧ Turn t p list list' w w' := by
  simp only [System.step] at hstep
  cases ht : list.procs t with
  | none => simp [ht] at hstep
  | some p =>
    obtain ⟨id, op, ⟨_ | r⟩ | ⟨c, k⟩⟩ := p
    · simp [ht] at hstep
    · simp only [ht] at hstep
      cases hstep
      obtain ⟨_, _, hstatus⟩ := h.running ht
      exact ⟨_, _, rfl, h.ret ht _ _, .ret r rfl rfl hstatus rfl⟩
    · simp only [ht] at hstep
      obtain ⟨r, w', hexec, hmove, hfollows⟩ := h.access ht
      rw [hexec] at hstep
      cases hstep
      refine ⟨_, w', rfl, hfollows _ _, .access ⟨id, op, k r⟩ c nofun rfl rfl hmove.effect ?_⟩
      rintro rfl
      exact ⟨id, List.mem_append_right _ (List.mem_singleton.mpr rfl)⟩

end SkipList

/-! ## Worlds -/

variable {n : Nat} {f f' : FineState n} {W : Ptr → World (Thread n) Int64}

structure Worlds (f : FineState n) (W : Ptr → World (Thread n) Int64) : Prop where
  wellFormed : f.state.WellFormed
  follows : ∀ ll list, f.sl ll = some list → Follows list (W ll)
  empty : ∀ ll, f.sl ll = none → W ll = World.init
  constructed : ∀ ll, (f.state.redis.store.concAt ll).isSome → (f.sl ll).isSome
  calls : ∀ ll list t p, f.sl ll = some list → list.procs t = some p →
    ∃ c random, (f.state.procs t).setCall? = some c ∧ c.ll = ll ∧ p.op = c.op.sl random
  todo : ∀ ll list t, f.sl ll = some list → list.procs t = none → (W ll).status t = .todo

namespace Worlds

lemma init {st : Store} (hst : ∀ ll, st.concAt ll = none) :
    Worlds (FineState.init n st) fun _ => World.init where
  wellFormed := State.wellFormed_init st
  follows := nofun
  empty _ _ := rfl
  constructed ll h := by
    have hnone : ((FineState.init n st).state.redis.store.concAt ll).isSome = false := by
      rw [show (FineState.init n st).state.redis.store.concAt ll = none from hst ll]
      rfl
    cases hnone.symm.trans h
  calls := nofun
  todo := nofun

/-- A thread that calls no member function is in none. -/
lemma status_todo (h : Worlds f W) {t : Thread n} (hset : (f.state.procs t).setCall? = none)
    (ll : Ptr) : (W ll).status t = .todo := by
  cases hsl : f.sl ll with
  | none =>
    rw [h.empty ll hsl]
    rfl
  | some list =>
    cases hp : list.procs t with
    | none => exact h.todo ll list t hsl hp
    | some p =>
      obtain ⟨_, _, hc, _⟩ := h.calls ll list t p hsl hp
      cases hset.symm.trans hc

/-- A thread is in the skip list of the object that it calls. -/
lemma status_todo_of_ne (h : Worlds f W) {t : Thread n} {c : SetCall}
    (hc : (f.state.procs t).setCall? = some c) {ll : Ptr} (hll : ll ≠ c.ll) :
    (W ll).status t = .todo := by
  cases hsl : f.sl ll with
  | none =>
    rw [h.empty ll hsl]
    rfl
  | some list =>
    cases hp : list.procs t with
    | none => exact h.todo ll list t hsl hp
    | some p =>
      obtain ⟨c', _, hc', hll', _⟩ := h.calls ll list t p hsl hp
      cases hc.symm.trans hc'
      exact absurd hll'.symm hll

end Worlds

/-! ## Steps outside of the skip lists -/

section Outside

variable [StringToLongLong]

lemma FineState.stepOutside_eq_some {t : Thread n} (h : f.stepOutside t = some f') :
    (f.state.procs t).setCall? = none ∧ ∃ state, f.state.step (.step t) = some state ∧
      ((f.state.procs t).constructs? = none ∧ f' = { f with state } ∨
        ∃ ll, (f.state.procs t).constructs? = some ll ∧ f.sl ll = none ∧
          f' = ⟨state, Function.update f.sl ll (some .init)⟩) := by
  unfold stepOutside at h
  split at h
  · cases h
  · rename_i hset hnew
    obtain ⟨state, hstate, rfl⟩ := Option.map_eq_some_iff.mp h
    exact ⟨hset, state, hstate, .inl ⟨hnew, rfl⟩⟩
  · rename_i ll hset hnew
    split at h
    · cases h
    · rename_i hsl
      obtain ⟨state, hstate, rfl⟩ := Option.map_eq_some_iff.mp h
      exact ⟨hset, state, hstate, .inr ⟨ll, hnew, hsl, rfl⟩⟩

namespace Worlds

/-- What a step outside does to the worlds: none of them moves, and a new list has the first. -/
lemma outside (h : Worlds f W) {l : Label n} {state : State n}
    (hstep : f.state.step l = some state)
    (hset : ∀ t, l = .step t → (f.state.procs t).setCall? = none)
    {sl : Ptr → Option (System (Thread n) Int64)}
    (hold : ∀ ll list, f.sl ll = some list → sl ll = some list)
    (hnew : ∀ ll list, sl ll = some list → f.sl ll = some list ∨ f.sl ll = none ∧ list = .init)
    (hconstructed : ∀ t ll, l = .step t → (f.state.procs t).constructs? = some ll →
      (sl ll).isSome) : Worlds ⟨state, sl⟩ W := by
  have hs := State.step_cases h.wellFormed hstep
  have hempty : ∀ ll, f.sl ll = none → W ll = World.init := h.empty
  exact
    { wellFormed := State.wellFormed_step h.wellFormed hstep
      follows := fun ll list hll => by
        rcases hnew ll list hll with hold | ⟨hnone, rfl⟩
        · exact h.follows ll list hold
        · rw [hempty ll hnone]
          exact .init
      empty := fun ll hll => hempty ll <| by
        cases hsl : f.sl ll with
        | none => rfl
        | some list => cases hll.symm.trans (hold ll list hsl)
      constructed := fun ll hll => by
        rcases hs.concAt hll with hll | ⟨t, hl, hll⟩
        · obtain ⟨list, hlist⟩ := Option.isSome_iff_exists.mp (h.constructed ll hll)
          exact Option.isSome_iff_exists.mpr ⟨list, hold ll list hlist⟩
        · exact hconstructed t ll hl hll
      calls := fun ll list t p hll hp => by
        rcases hnew ll list hll with hll | ⟨_, rfl⟩
        · obtain ⟨c, random, hc, hrest⟩ := h.calls ll list t p hll hp
          refine ⟨c, random, ?_, hrest⟩
          rw [hs.procs_setCall hc fun hl => ?_]
          · exact hc
          · cases (hset t hl).symm.trans hc
        · cases hp
      todo := fun ll list t hll hp => by
        rcases hnew ll list hll with hold | ⟨hnone, rfl⟩
        · exact h.todo ll list t hold hp
        · rw [hempty ll hnone]
          rfl }

omit [StringToLongLong] in
/-- A command that the main thread accepts is the same command with sets. -/
lemma coarse_accept (h : Worlds f W) {s s' : State n} {p : Proc}
    (hprocs : s.procs = f.state.procs) (haccept : s.accept p = some s') :
    (s.coarse W).accept p = some (s'.coarse W) := by
  obtain ⟨hidle, hlock, rfl⟩ := State.accept_eq_some haccept
  have hmain : (f.state.procs .main).setCall? = none := by
    rw [← hprocs, hidle]
    rfl
  have hidle' : (s.coarse W).procs .main = .idle := by
    rw [State.coarse_procs, hidle]
    rfl
  have hlock' : (s.coarse W).redis.lock = none := hlock
  unfold State.accept
  rw [hidle', hlock', State.coarse_setLock, State.coarse_setProc,
    Proc.answered_of_todo (h.status_todo hmain)]

lemma coarse_step (h : Worlds f W) {l : Label n} {state : State n}
    (hstep : f.state.step l = some state)
    (hset : ∀ t, l = .step t → (f.state.procs t).setCall? = none)
    (hnew : ∀ t ll, l = .step t → (f.state.procs t).constructs? = some ll → f.sl ll = none) :
    (f.state.coarse W).step l = some (state.coarse W) := by
  cases l with
  | command name argv =>
    let s : State n :=
      { f.state with nextId := f.state.nextId + 1 }.record [.invoke f.state.nextId name argv]
    exact h.coarse_accept (s := s) rfl hstep
  | redis c => exact h.coarse_accept rfl hstep
  | step t =>
    refine (State.coarse_stepThread (h.status_todo (hset t rfl)) (hset t rfl) fun ll hll => ?_).trans
      (Option.map_eq_some_iff.mpr ⟨state, hstep, rfl⟩)
    rw [h.empty ll (hnew t ll rfl hll)]
    rfl

end Worlds

end Outside

/-! ## Member functions of sets -/

/-- The call of a member function takes effect at once. -/
lemma State.step_setCall [StringToLongLong] {s : State n} {t : Thread n} {c : SetCall}
    {sl : LlcaConcObj} (random : Fin maxHeight) (hc : (s.procs t).setCall? = some c)
    (hsl : s.redis.store.concAt c.ll = some sl) :
    s.step (.step t) = some ({ s with
      redis := { s.redis with
        store := s.redis.store.setObj c.ll (some (.llcaConc ((c.op.sl random).spec sl).2)) }
      }.setProc t (.execute c.event (c.k ((c.op.sl random).spec sl).1))) := by
  have hcall : ∀ {e : Event} {call : Call} {k : call.Res → RedisM Unit} {res : call.Res}
      {store : Store}, s.procs t = .execute e (.call call k) → call.lockStep t = some →
      call.reply? = none → s.redis.store.exec e.argv call = some (res, store) →
      s.step (.step t) = some ({ s with redis := { s.redis with store } }.setProc t
        (.execute e (k res))) := by
    intro e call k res store hproc hlock hreply hexec
    have hredis : s.redis.exec t e call = some (res, { s.redis with store }) := by
      simp [Redis.exec, hlock, hreply, hexec]
    exact (stepThread_call hproc).trans (Option.map_eq_some_iff.mpr ⟨_, hredis, rfl⟩)
  cases hproc : s.procs t with
  | execute e rest =>
    cases rest with
    | pure u =>
      rw [hproc] at hc
      cases hc
    | call call k =>
      rw [hproc] at hc
      cases call with
      | slInsert ll val =>
        cases hc
        refine hcall hproc rfl rfl ?_
        simp only [Store.exec, hsl, Option.map_some]
        congr
        exact Subsingleton.elim _ _
      | slErase ll val =>
        cases hc
        refine hcall hproc rfl rfl ?_
        simp only [Store.exec, hsl, Option.map_some]
        congr
        exact Subsingleton.elim _ _
      | slContains ll val =>
        cases hc
        refine hcall hproc rfl rfl ?_
        simp only [Store.exec, hsl, Option.map_some]
        congr
        exact (Store.setObj_concAt hsl).symm
      | _ => cases hc
  | _ =>
    rw [hproc] at hc
    cases hc

/-- The erase that a thread calls is lost. -/
lemma State.step_lose [StringToLongLong] {s : State n} {t : Thread n} {c : SetCall} {val : Int64}
    (hc : (s.procs t).setCall? = some c) (hop : c.op = .remove val)
    (hsl : (s.redis.store.concAt c.ll).isSome) :
    s.stepLossy (.lose t) = some (s.setProc t (.execute c.event (c.k false))) := by
  obtain ⟨e, ll, op, k⟩ := c
  cases hop
  obtain ⟨sl, hsl⟩ := Option.isSome_iff_exists.mp hsl
  simp only [stepLossy, hc, hsl, Option.map_some]

/-- The result of an operation that has taken effect or has been lost. -/
def SkipList.Progress.result? : Progress → Option Bool
  | .todo => none
  | .done r => some r
  | .lost => some false

namespace State

variable {s s' : State n} {W' : Ptr → World (Thread n) Int64}

lemma coarse_eq (hset : ∀ ll, (W' ll).set = (W ll).set)
    (hprocs : ∀ t, (s'.procs t).answered (fun ll => (W' ll).status t) =
      (s.procs t).answered fun ll => (W ll).status t)
    (hrest : s' = { s with procs := s'.procs }) : s'.coarse W' = s.coarse W := by
  have hsets : (fun ll => (W' ll).set) = fun ll => (W ll).set := funext hset
  have hthreads := funext hprocs
  rw [hrest]
  unfold coarse
  rw [hsets]
  exact congrArg (fun procs => { s.coarse W with procs }) hthreads

lemma answered_of_result {c : SetCall} {p : Proc} {status : Ptr → Progress} {r : Bool}
    (hc : p.setCall? = some c) (hstatus : (status c.ll).result? = some r) :
    p.answered status = .execute c.event (c.k r) := by
  unfold Proc.answered
  rw [hc]
  dsimp only
  cases hq : status c.ll with
  | todo =>
    rw [hq] at hstatus
    cases hstatus
  | done r' | lost =>
    rw [hq] at hstatus
    cases hstatus
    rfl

end State

lemma Store.withSets_update {sets : Ptr → LlcaConcObj} {st : Store} {ll : Ptr}
    (h : (st.concAt ll).isSome) (sl : LlcaConcObj) :
    st.withSets (Function.update sets ll sl) =
      (st.withSets sets).setObj ll (some (.llcaConc sl)) := by
  unfold withSets setObj
  refine congrArg (Store.mk st.keyspace · st.next) (funext fun ptr => ?_)
  by_cases hptr : ptr = ll
  · subst hptr
    rw [Function.update_self, Function.update_self]
    unfold concAt at h
    cases hobj : st.heap ptr with
    | none =>
      rw [hobj] at h
      cases h
    | some obj =>
      rw [hobj] at h
      cases obj with
      | raw | llca => cases h
      | llcaConc sl' => rfl
  · rw [Function.update_of_ne hptr, Function.update_of_ne hptr]

/-! ## Steps inside of a skip list -/

section Inside

variable {ll : Ptr} {list list' : System (Thread n) Int64} {w' : World (Thread n) Int64}

namespace Worlds

lemma setList (h : Worlds f W) (hlist : f.sl ll = some list) (hfollows : Follows list' w')
    {state : State n} (hwf : state.WellFormed)
    (hstore : state.redis.store = f.state.redis.store)
    (hcalls : ∀ t p, list'.procs t = some p →
      ∃ c random, (state.procs t).setCall? = some c ∧ c.ll = ll ∧ p.op = c.op.sl random)
    (hother : ∀ t c, (f.state.procs t).setCall? = some c → c.ll ≠ ll →
      state.procs t = f.state.procs t)
    (htodo : ∀ t, list'.procs t = none → w'.status t = .todo) :
    Worlds ⟨state, Function.update f.sl ll (some list')⟩ (Function.update W ll w') where
  wellFormed := hwf
  follows ll₁ list₁ hlist₁ := by
    by_cases hll : ll₁ = ll
    · subst hll
      dsimp only at hlist₁
      rw [Function.update_self] at hlist₁ ⊢
      cases hlist₁
      exact hfollows
    · dsimp only at hlist₁
      rw [Function.update_of_ne hll] at hlist₁ ⊢
      exact h.follows ll₁ list₁ hlist₁
  empty ll₁ hlist₁ := by
    by_cases hll : ll₁ = ll
    · subst hll
      dsimp only at hlist₁
      rw [Function.update_self] at hlist₁
      cases hlist₁
    · dsimp only at hlist₁
      rw [Function.update_of_ne hll] at hlist₁ ⊢
      exact h.empty ll₁ hlist₁
  constructed ll₁ hset := by
    dsimp only at hset ⊢
    by_cases hll : ll₁ = ll
    · subst hll
      rw [Function.update_self]
      rfl
    · rw [Function.update_of_ne hll]
      rw [hstore] at hset
      exact h.constructed ll₁ hset
  calls ll₁ list₁ t p hlist₁ hp := by
    by_cases hll : ll₁ = ll
    · subst hll
      dsimp only at hlist₁
      rw [Function.update_self] at hlist₁
      cases hlist₁
      exact hcalls t p hp
    · dsimp only at hlist₁
      rw [Function.update_of_ne hll] at hlist₁
      obtain ⟨c, random, hc, hcll, hop⟩ := h.calls ll₁ list₁ t p hlist₁ hp
      refine ⟨c, random, ?_, hcll, hop⟩
      rw [hother t c hc (hcll ▸ hll)]
      exact hc
  todo ll₁ list₁ t hlist₁ hp := by
    by_cases hll : ll₁ = ll
    · subst hll
      dsimp only at hlist₁
      rw [Function.update_self] at hlist₁ ⊢
      cases hlist₁
      exact htodo t hp
    · dsimp only at hlist₁
      rw [Function.update_of_ne hll] at hlist₁ ⊢
      exact h.todo ll₁ list₁ t hlist₁ hp

/-- A step at which no member function takes effect does not show. -/
lemma coarse_update {s : State n} (hset : w'.set = (W ll).set)
    (hstatus : ∀ t, w'.status t = (W ll).status t) :
    s.coarse (Function.update W ll w') = s.coarse W := by
  refine State.coarse_eq (fun ll₁ => ?_) (fun t => ?_) rfl
  · by_cases hll : ll₁ = ll
    · subst hll
      rw [Function.update_self, hset]
    · rw [Function.update_of_ne hll]
  · refine congrArg (Proc.answered · _) (funext fun ll₁ => ?_)
    by_cases hll : ll₁ = ll
    · subst hll
      rw [Function.update_self, hstatus]
    · rw [Function.update_of_ne hll]

lemma enter (h : Worlds f W) {t : Thread n} {c : SetCall} {random : Fin maxHeight} {fuel : Nat}
    (hc : (f.state.procs t).setCall? = some c) (hlist : f.sl c.ll = some list)
    (hstep : list.step (.call t (c.op.sl random) fuel) = some list') :
    ∃ W', Worlds ⟨f.state, Function.update f.sl c.ll (some list')⟩ W' ∧
      f.state.coarse W' = f.state.coarse W := by
  obtain ⟨hidle, hfollows, p, hop, hprocs⟩ := (h.follows c.ll list hlist).enter hstep
  have hstatus : ∀ u, ((W c.ll).become t (some (c.op.sl random)) .todo).status u =
      (W c.ll).status u := by
    intro u
    by_cases hu : u = t
    · subst hu
      exact (Function.update_self ..).trans (h.todo c.ll list u hlist hidle).symm
    · exact Function.update_of_ne hu _ _
  refine ⟨_, h.setList hlist hfollows h.wellFormed rfl (fun u q hq => ?_) (fun _ _ _ _ => rfl)
    fun u hu => ?_, coarse_update rfl hstatus⟩
  · rw [hprocs] at hq
    by_cases hut : u = t
    · subst hut
      rw [Function.update_self] at hq
      cases hq
      exact ⟨c, random, hc, rfl, hop⟩
    · rw [Function.update_of_ne hut] at hq
      exact h.calls c.ll list u q hlist hq
  · rw [hprocs] at hu
    by_cases hut : u = t
    · subst hut
      rw [Function.update_self] at hu
      cases hu
    · rw [Function.update_of_ne hut] at hu
      exact (hstatus u).trans (h.todo c.ll list u hlist hu)

lemma wellFormed_return (h : Worlds f W) {t : Thread n} {c : SetCall}
    (hc : (f.state.procs t).setCall? = some c) (rest : RedisM Unit) :
    (f.state.setProc t (.execute c.event rest)).WellFormed := by
  obtain ⟨rest', hproc⟩ : ∃ rest', f.state.procs t = .execute c.event rest' := by
    cases hproc : f.state.procs t with
    | execute e rest' =>
      rw [hproc] at hc
      unfold Proc.setCall? at hc
      split at hc <;> cases hc <;> rename_i heq <;> cases heq <;> exact ⟨_, rfl⟩
    | _ =>
      rw [hproc] at hc
      cases hc
  cases t with
  | main => exact h.wellFormed.setMain (.execute _ _ (h.wellFormed.direct hproc)) rfl fun _ => .inl
  | worker w =>
    exact h.wellFormed.setWorker (.execute _ _ (h.wellFormed.queued hproc)) rfl fun _ => id

lemma ret (h : Worlds f W) {t : Thread n} {c : SetCall} {r : Bool}
    (hc : (f.state.procs t).setCall? = some c) (hlist : f.sl c.ll = some list)
    (hfollows : Follows list' ((W c.ll).become t none .todo))
    (hprocs : list'.procs = Function.update list.procs t none)
    (hstatus : ((W c.ll).status t).result? = some r) :
    ∃ W', Worlds ⟨f.state.setProc t (.execute c.event (c.k r)),
        Function.update f.sl c.ll (some list')⟩ W' ∧
      (f.state.setProc t (.execute c.event (c.k r))).coarse W' = f.state.coarse W := by
  have hother : ∀ u, u ≠ t → ((W c.ll).become t none .todo).status u = (W c.ll).status u :=
    fun u hu => Function.update_of_ne hu _ _
  refine ⟨_, h.setList hlist hfollows (h.wellFormed_return hc _) rfl (fun u q hq => ?_)
    (fun u c' hc' hll => ?_) fun u hu => ?_, State.coarse_eq (fun ll => ?_) (fun u => ?_) rfl⟩
  · rw [hprocs] at hq
    by_cases hut : u = t
    · subst hut
      rw [Function.update_self] at hq
      cases hq
    · rw [Function.update_of_ne hut] at hq
      rw [State.setProc_procs, Function.update_of_ne hut]
      exact h.calls c.ll list u q hlist hq
  · refine Function.update_of_ne (fun hut => hll ?_) _ _
    rw [hut] at hc'
    cases hc.symm.trans hc'
    rfl
  · by_cases hut : u = t
    · rw [hut]
      exact Function.update_self ..
    · rw [hprocs, Function.update_of_ne hut] at hu
      exact (hother u hut).trans (h.todo c.ll list u hlist hu)
  · by_cases hll : ll = c.ll
    · rw [hll, Function.update_self]
      rfl
    · rw [Function.update_of_ne hll]
  · rw [State.setProc_procs]
    by_cases hut : u = t
    · subst hut
      rw [Function.update_self, State.answered_of_result hc hstatus]
      refine Proc.answered_of_todo fun ll => ?_
      by_cases hll : ll = c.ll
      · rw [hll, Function.update_self]
        exact Function.update_self ..
      · rw [Function.update_of_ne hll]
        exact h.status_todo_of_ne hc hll
    · rw [Function.update_of_ne hut]
      refine congrArg (Proc.answered · _) (funext fun ll => ?_)
      by_cases hll : ll = c.ll
      · rw [hll, Function.update_self]
        exact hother u hut
      · rw [Function.update_of_ne hll]

lemma coarse_settle {u : Thread n} {c : SetCall} {q : Progress} {r : Bool}
    (hc : (f.state.procs u).setCall? = some c) (hr : q.result? = some r)
    (hset : (f.state.redis.store.concAt c.ll).isSome)
    (hstatus : w'.status = Function.update (W c.ll).status u q) :
    f.state.coarse (Function.update W c.ll w') =
      ({ f.state.coarse W with
        redis := { (f.state.coarse W).redis with
          store := (f.state.coarse W).redis.store.setObj c.ll (some (.llcaConc w'.set)) }
        }.setProc u (.execute c.event (c.k r))) := by
  have hstore : (f.state.coarse (Function.update W c.ll w')).redis.store =
      (f.state.coarse W).redis.store.setObj c.ll (some (.llcaConc w'.set)) := by
    refine Eq.trans ?_ (Store.withSets_update hset w'.set)
    refine congrArg (Store.withSets · f.state.redis.store) (funext fun ll => ?_)
    exact Function.apply_update (fun _ (w : World (Thread n) Int64) => w.set) W c.ll w' ll
  have hprocs : (f.state.coarse (Function.update W c.ll w')).procs =
      Function.update (f.state.coarse W).procs u (.execute c.event (c.k r)) := by
    funext v
    rw [State.coarse_procs]
    by_cases hv : v = u
    · subst hv
      rw [Function.update_self]
      refine State.answered_of_result hc ?_
      rw [Function.update_self, hstatus, Function.update_self]
      exact hr
    · rw [Function.update_of_ne hv, State.coarse_procs]
      refine congrArg (Proc.answered · _) (funext fun ll => ?_)
      by_cases hll : ll = c.ll
      · rw [hll, Function.update_self, hstatus, Function.update_of_ne hv]
      · rw [Function.update_of_ne hll]
  have hredis : (f.state.coarse (Function.update W c.ll w')).redis =
      { (f.state.coarse W).redis with
        store := (f.state.coarse W).redis.store.setObj c.ll (some (.llcaConc w'.set)) } := by
    rw [← hstore]
    rfl
  unfold State.setProc
  dsimp only
  rw [← hprocs, ← hredis]
  rfl

/-- A running member function has the operation that its thread calls. -/
lemma running (h : Worlds f W) (hlist : f.sl ll = some list) {u : Thread n} {o : Op Int64}
    (hop : (W ll).op u = some o) :
    ∃ p c random, list.procs u = some p ∧ (f.state.procs u).setCall? = some c ∧ c.ll = ll ∧
      o = c.op.sl random := by
  have hfollows := h.follows ll list hlist
  cases hp : list.procs u with
  | none => cases (hfollows.idle hp).op.symm.trans hop
  | some p =>
    obtain ⟨c, random, hc, hll, heq⟩ := h.calls ll list u p hlist hp
    have hsame : p.op = o := Option.some.inj ((hfollows.op u p hp).symm.trans hop)
    exact ⟨p, c, random, rfl, hc, hll, hsame.symm.trans heq⟩

/-- Until it takes effect, a thread stands at the call of its member function. -/
lemma coarse_setCall (h : Worlds f W) {u : Thread n} {c : SetCall}
    (hc : (f.state.procs u).setCall? = some c) (htodo : (W c.ll).status u = .todo) :
    ((f.state.coarse W).procs u).setCall? = some c := by
  rw [State.coarse_procs, Proc.answered_of_todo fun ll => ?_]
  · exact hc
  · by_cases hll : ll = c.ll
    · rw [hll]
      exact htodo
    · exact h.status_todo_of_ne hc hll

variable [StringToLongLong]

/-- An access in a skip list is a step of the state with sets, or does not show. -/
lemma access (h : Worlds f W) {t : Thread n} (hlist : f.sl ll = some list)
    (hset : (f.state.redis.store.concAt ll).isSome) {p p' : Running Int64} {c : Access Int64}
    (hp : list.procs t = some p) (hop : p'.op = p.op) (hfollows : Follows list' w')
    (hprocs : list'.procs = Function.update list.procs t (some p'))
    (heffect : Effect t c (W ll) w')
    (hlost : c = .onEraseContention → ∃ id, .contention id ∈ list'.history) :
    ∃ W' ls, Worlds ⟨f.state, Function.update f.sl ll (some list')⟩ W' ∧
      Runs State.stepLossy anyStep (f.state.coarse W) ls (f.state.coarse W') ∧
      ((∃ u, .lose u ∈ ls) → ∃ id, .contention id ∈ list'.history) := by
  have hconc : (f.state.coarse W).redis.store.concAt ll = some (W ll).set := by
    obtain ⟨sl, hsl⟩ := Option.isSome_iff_exists.mp hset
    refine (f.state.redis.store.withSets_concAt _ ll).trans ?_
    rw [hsl]
    rfl
  have hworlds : (∀ u, list.procs u = none → w'.status u = (W ll).status u) →
      Worlds ⟨f.state, Function.update f.sl ll (some list')⟩ (Function.update W ll w') := by
    intro hidle
    refine h.setList hlist hfollows h.wellFormed rfl (fun u q hq => ?_) (fun _ _ _ _ => rfl)
      fun u hu => ?_
    · rw [hprocs] at hq
      by_cases hut : u = t
      · subst hut
        rw [Function.update_self] at hq
        cases hq
        obtain ⟨c', random, hc', hll, hop'⟩ := h.calls ll list u p hlist hp
        exact ⟨c', random, hc', hll, hop.trans hop'⟩
      · rw [Function.update_of_ne hut] at hq
        exact h.calls ll list u q hlist hq
    · rw [hprocs] at hu
      by_cases hut : u = t
      · subst hut
        rw [Function.update_self] at hu
        cases hu
      · rw [Function.update_of_ne hut] at hu
        exact (hidle u hu).trans (h.todo ll list u hlist hu)
  cases heffect with
  | stay _ hsame hstatus =>
    refine ⟨_, [], hworlds fun u _ => congrFun hstatus u, ?_, nofun⟩
    rw [coarse_update hsame fun u => congrFun hstatus u]
    exact .nil _
  | effect _ u o hopu htodo hspec hstatus =>
    obtain ⟨q, c', random, hq, hc', rfl, rfl⟩ := h.running hlist hopu
    refine ⟨_, [.step (.step u)], hworlds fun v hv => ?_, .single trivial ?_, ?_⟩
    · have hne : v ≠ u := by
        rintro rfl
        cases hv.symm.trans hq
      rw [hstatus, Function.update_of_ne hne]
    · rw [coarse_settle hc' rfl hset hstatus, hspec]
      exact State.step_setCall random (h.coarse_setCall hc' htodo) hconc
    · rintro ⟨v, hv⟩
      cases List.mem_singleton.mp hv
  | lost hc v hopt htodo hsame hstatus =>
    obtain ⟨q, c', random, hq, hc', rfl, hremove⟩ := h.running hlist hopt
    have hval : c'.op = .remove v := by
      cases hop' : c'.op <;> rw [hop'] at hremove <;> cases hremove
      rfl
    refine ⟨_, [.lose t], hworlds fun u hu => ?_, .single trivial ?_, fun _ => hlost hc⟩
    · have hne : u ≠ t := by
        rintro rfl
        cases hu.symm.trans hq
      rw [hstatus, Function.update_of_ne hne]
    · rw [coarse_settle hc' rfl hset hstatus, hsame]
      have hsome : ((f.state.coarse W).redis.store.concAt c'.ll).isSome := by
        rw [hconc]
        rfl
      rw [Store.setObj_concAt hconc]
      exact State.step_lose (h.coarse_setCall hc' htodo) hval hsome

end Worlds

end Inside

/-! ## Runs -/

def FineState.Contended (f : FineState n) : Prop :=
  ∃ ll list id, f.sl ll = some list ∧ .contention id ∈ list.history

section Runs

variable [StringToLongLong] {l : FineLabel n}

namespace FineState

variable {list : System (Thread n) Int64} {t : Thread n} {p : Running Int64}

omit [StringToLongLong] in
lemma result?_of_pure {r : Option Bool} (hp : list.procs t = some p) (hrest : p.rest = .pure r) :
    result? list t = r := by
  obtain ⟨id, op, rest⟩ := p
  cases hrest
  unfold result?
  rw [hp]

omit [StringToLongLong] in
lemma result?_of_call (hp : list.procs t = some p) (hrest : ∀ r, p.rest ≠ .pure r) :
    result? list t = none := by
  obtain ⟨id, op, r | ⟨c, k⟩⟩ := p
  · exact absurd rfl (hrest r)
  · unfold result?
    rw [hp]

end FineState

omit [StringToLongLong] in
lemma FineState.stepInside_eq_some {t : Thread n} {l : SkipList.Label (Thread n) Int64}
    (h : f.stepInside t l = some f') : ∃ c list list', (f.state.procs t).setCall? = some c ∧
      f.sl c.ll = some list ∧ (f.state.redis.store.concAt c.ll).isSome ∧
      list.step l = some list' ∧
      f' = ⟨(result? list t).elim f.state fun r => f.state.setProc t (.execute c.event (c.k r)),
        Function.update f.sl c.ll (some list')⟩ := by
  obtain ⟨c, hc, h⟩ := Option.bind_eq_some_iff.mp h
  obtain ⟨list, hlist, h⟩ := Option.bind_eq_some_iff.mp h
  obtain ⟨list', hstep, h⟩ := Option.bind_eq_some_iff.mp h
  obtain ⟨sl, hsl, hlist⟩ := Option.bind_eq_some_iff.mp hlist
  refine ⟨c, list, list', hc, hlist, by rw [hsl]; rfl, hstep, ?_⟩
  cases hr : FineState.result? list t <;> rw [hr] at h <;> cases h <;> rfl

/-- The histories of the lists only grow. -/
lemma FineState.Contended.step (h : f.Contended) (hstep : f.step l = some f') : f'.Contended := by
  obtain ⟨ll, list, id, hlist, hmem⟩ := h
  have hinside : ∀ {t : Thread n} {l : SkipList.Label (Thread n) Int64},
      f.stepInside t l = some f' → f'.Contended := by
    intro t l hstep
    obtain ⟨c, list₁, list', _, hlist₁, _, hstep₁, rfl⟩ := FineState.stepInside_eq_some hstep
    by_cases hll : ll = c.ll
    · subst hll
      cases hlist.symm.trans hlist₁
      exact ⟨c.ll, list', id, Function.update_self .., (System.history_prefix hstep₁).mem hmem⟩
    · exact ⟨ll, list, id, (Function.update_of_ne hll _ _).trans hlist, hmem⟩
  cases l with
  | outside l =>
    cases l with
    | command | redis =>
      obtain ⟨_, _, rfl⟩ := Option.map_eq_some_iff.mp hstep
      exact ⟨ll, list, id, hlist, hmem⟩
    | step t =>
      obtain ⟨_, state, _, ⟨_, rfl⟩ | ⟨ll', _, hnone, rfl⟩⟩ := FineState.stepOutside_eq_some hstep
      · exact ⟨ll, list, id, hlist, hmem⟩
      · have hll : ll ≠ ll' := by
          rintro rfl
          cases hnone.symm.trans hlist
        exact ⟨ll, list, id, (Function.update_of_ne hll _ _).trans hlist, hmem⟩
  | enter t random fuel =>
    obtain ⟨c, _, hstep⟩ := Option.bind_eq_some_iff.mp hstep
    exact hinside hstep
  | inside t => exact hinside hstep

omit [StringToLongLong] in
lemma State.coarse_init {st : Store} (hst : ∀ ll, st.concAt ll = none) :
    (init n st).coarse (fun _ => World.init) = init n st := by
  have hstore : st.withSets (fun _ => ∅) = st := by
    refine congrArg (Store.mk st.keyspace · st.next) (funext fun ptr => ?_)
    have hnone := hst ptr
    unfold Store.concAt at hnone
    cases hobj : st.heap ptr with
    | none => rfl
    | some obj =>
      rw [hobj] at hnone
      cases obj with
      | raw | llca => rfl
      | llcaConc sl => cases hnone
  exact congrArg (fun store => { init n st with redis := ⟨store, none, []⟩ }) hstore

lemma State.runs_of_lossy {s s' : State n} {ls : List (LossyLabel n)}
    (hruns : Runs stepLossy anyStep s ls s') (hno : ∀ t, .lose t ∉ ls) :
    ∃ ls', Runs State.step anyStep s ls' s' := by
  induction hruns with
  | nil => exact ⟨[], .nil _⟩
  | @cons s s₁ s₂ l ls _ hstep _ ih =>
    obtain ⟨ls', hls'⟩ := ih fun t ht => hno t (List.mem_cons_of_mem _ ht)
    cases l with
    | step l => exact ⟨l :: ls', .cons trivial hstep hls'⟩
    | lose t => exact absurd List.mem_cons_self (hno t)

lemma Worlds.step (h : Worlds f W) (hstep : f.step l = some f') :
    ∃ W' ls, Worlds f' W' ∧
      Runs State.stepLossy anyStep (f.state.coarse W) ls (f'.state.coarse W') ∧
      ((∃ t, .lose t ∈ ls) → f'.Contended) := by
  have hsingle : ∀ {l : Label n} {s : State n}, (f.state.coarse W).step l = some s →
      Runs State.stepLossy anyStep (f.state.coarse W) [.step l] s :=
    fun hs => .single trivial hs
  have hno : ∀ l : Label n, ¬∃ t, .lose t ∈ [LossyLabel.step l] := by
    rintro l ⟨t, ht⟩
    cases List.mem_singleton.mp ht
  cases l with
  | outside l =>
    cases l with
    | command name argv =>
      obtain ⟨state, hstate, rfl⟩ := Option.map_eq_some_iff.mp hstep
      exact ⟨W, _, h.outside hstate nofun (fun _ _ => id) (fun _ _ => .inl) nofun,
        hsingle (h.coarse_step hstate nofun nofun), fun hlose => (hno _ hlose).elim⟩
    | redis c =>
      obtain ⟨state, hstate, rfl⟩ := Option.map_eq_some_iff.mp hstep
      exact ⟨W, _, h.outside hstate nofun (fun _ _ => id) (fun _ _ => .inl) nofun,
        hsingle (h.coarse_step hstate nofun nofun), fun hlose => (hno _ hlose).elim⟩
    | step t =>
      obtain ⟨hset, state, hstate, hnew⟩ := FineState.stepOutside_eq_some hstep
      have hset' : ∀ t', Label.step t = .step t' → (f.state.procs t').setCall? = none := by
        rintro _ ⟨⟩
        exact hset
      rcases hnew with ⟨hnone, rfl⟩ | ⟨ll, hll, hnone, rfl⟩
      · have hnew' : ∀ t' ll, Label.step t = .step t' →
            (f.state.procs t').constructs? ≠ some ll := by
          rintro _ ll ⟨⟩ hll
          cases hnone.symm.trans hll
        exact ⟨W, _, h.outside hstate hset' (fun _ _ => id) (fun _ _ => .inl)
            fun t' ll ht hll => absurd hll (hnew' t' ll ht),
          hsingle (h.coarse_step hstate hset' fun t' ll ht hll => absurd hll (hnew' t' ll ht)),
          fun hlose => (hno _ hlose).elim⟩
      · have hll' : ∀ t' ll', Label.step t = .step t' →
            (f.state.procs t').constructs? = some ll' → ll' = ll := by
          rintro _ ll' ⟨⟩ hll'
          exact Option.some.inj (hll'.symm.trans hll)
        refine ⟨W, _, h.outside hstate hset' (fun ll₁ list hlist => ?_) (fun ll₁ list hlist => ?_)
            fun t' ll₁ ht hll₁ => ?_,
          hsingle (h.coarse_step hstate hset' fun t' ll₁ ht hll₁ => ?_),
          fun hlose => (hno _ hlose).elim⟩
        · refine (Function.update_of_ne ?_ _ _).trans hlist
          rintro rfl
          cases hnone.symm.trans hlist
        · by_cases heq : ll₁ = ll
          · subst heq
            rw [Function.update_self] at hlist
            cases hlist
            exact .inr ⟨hnone, rfl⟩
          · rw [Function.update_of_ne heq] at hlist
            exact .inl hlist
        · rw [hll' t' ll₁ ht hll₁, Function.update_self]
          rfl
        · rw [hll' t' ll₁ ht hll₁]
          exact hnone
  | enter t random fuel =>
    obtain ⟨c, hc, hstep⟩ := Option.bind_eq_some_iff.mp hstep
    obtain ⟨c', list, list', hc', hlist, _, hlstep, rfl⟩ := FineState.stepInside_eq_some hstep
    cases hc.symm.trans hc'
    obtain ⟨W', hworlds, hsame⟩ := h.enter hc hlist hlstep
    have hresult : FineState.result? list t = none := by
      unfold FineState.result?
      rw [((h.follows c.ll list hlist).enter hlstep).1]
    rw [hresult]
    exact ⟨W', [], hworlds, hsame ▸ .nil _, nofun⟩
  | inside t =>
    obtain ⟨c, list, list', hc, hlist, hset, hlstep, rfl⟩ := FineState.stepInside_eq_some hstep
    obtain ⟨p, w', hp, hfollows, hturn⟩ := (h.follows c.ll list hlist).turn hlstep
    cases hturn with
    | ret r hrest hprocs hstatus hw =>
      subst hw
      have hr : ((W c.ll).status t).result? = some r := by
        rcases hstatus with hstatus | ⟨hstatus, rfl⟩ <;> rw [hstatus] <;> rfl
      obtain ⟨W', hworlds, hsame⟩ := h.ret hc hlist hfollows hprocs hr
      rw [FineState.result?_of_pure hp hrest]
      exact ⟨W', [], hworlds, hsame ▸ .nil _, nofun⟩
    | access p' a hrest hop hprocs heffect hlost =>
      obtain ⟨W', ls, hworlds, hruns, hlose⟩ :=
        h.access hlist hset hp hop hfollows hprocs heffect hlost
      rw [FineState.result?_of_call hp hrest]
      refine ⟨W', ls, hworlds, hruns, fun hls => ?_⟩
      obtain ⟨id, hid⟩ := hlose hls
      exact ⟨c.ll, list', id, Function.update_self .., hid⟩

/-- A state with sets that shows the same as one with skip lists. -/
structure Agrees (f : FineState n) (s : State n) : Prop where
  history : s.redis.history = f.state.redis.history
  lock : s.redis.lock = f.state.redis.lock
  queue : s.queue = f.state.queue
  keyspace : s.redis.store.keyspace = f.state.redis.store.keyspace
  /-- Where a set is, its values are those of the nodes that are linked at level 0. -/
  sets : ∀ ll, (f.state.redis.store.concAt ll).isSome → ∃ list sl, f.sl ll = some list ∧
    s.redis.store.concAt ll = some sl ∧
      ∀ val : Int64, val ∈ sl ↔ ∃ x, list.heap.Linked 0 x ∧ list.heap.rank x = val
  others : ∀ ptr, f.state.redis.store.concAt ptr = none →
    s.redis.store.heap ptr = f.state.redis.store.heap ptr
  /-- Threads that are in no member function stand at the same place. -/
  procs : ∀ t, (∀ ll list, f.sl ll = some list → list.procs t = none) →
    s.procs t = f.state.procs t

omit [StringToLongLong] in
lemma Worlds.agrees (h : Worlds f W) : Agrees f (f.state.coarse W) where
  history := rfl
  lock := rfl
  queue := rfl
  keyspace := rfl
  sets ll hset := by
    obtain ⟨sl, hsl⟩ := Option.isSome_iff_exists.mp hset
    obtain ⟨list, hlist⟩ := Option.isSome_iff_exists.mp (h.constructed ll hset)
    have hfollows := h.follows ll list hlist
    refine ⟨list, (W ll).set, hlist, ?_, fun val => ?_⟩
    · refine (f.state.redis.store.withSets_concAt _ ll).trans ?_
      rw [hsl]
      rfl
    · rw [hfollows.inv.stands.set val, ← hfollows.heap]
      refine exists_congr fun x => and_congr_left fun _ => ?_
      exact (hfollows.inv.linked_iff (by decide)).symm
  others ptr hnone := by
    refine (f.state.redis.store.withSets_heap _ ptr).trans ?_
    unfold Store.concAt at hnone
    cases hobj : f.state.redis.store.heap ptr with
    | none => rfl
    | some obj =>
      rw [hobj] at hnone
      cases obj with
      | raw | llca => rfl
      | llcaConc sl => cases hnone
  procs t hout := by
    rw [State.coarse_procs]
    refine Proc.answered_of_todo fun ll => ?_
    cases hsl : f.sl ll with
    | none =>
      rw [h.empty ll hsl]
      rfl
    | some list => exact h.todo ll list t hsl (hout ll list hsl)

/-- The skip lists have worlds, and sets that may lose erases have a run to the same state. -/
def Simulated (st : Store) (f : FineState n) : Prop :=
  ∃ W ls, Worlds f W ∧ Runs State.stepLossy anyStep (.init n st) ls (f.state.coarse W) ∧
    ((∃ t, .lose t ∈ ls) → f.Contended)

lemma Simulated.init {st : Store} (hst : ∀ ll, st.concAt ll = none) :
    Simulated st (.init n st) := by
  refine ⟨fun _ => World.init, [], .init hst, ?_, nofun⟩
  have hinit : (FineState.init n st).state.coarse (fun _ => World.init) = .init n st :=
    State.coarse_init hst
  rw [hinit]
  exact .nil _

lemma Simulated.step {st : Store} (h : Simulated st f) (hstep : f.step l = some f') :
    Simulated st f' := by
  obtain ⟨W, ls, hworlds, hruns, hlose⟩ := h
  obtain ⟨W', ls', hworlds', hruns', hlose'⟩ := hworlds.step hstep
  refine ⟨W', ls ++ ls', hworlds', hruns.append hruns', ?_⟩
  rintro ⟨t, ht⟩
  rcases List.mem_append.mp ht with ht | ht
  · exact (hlose ⟨t, ht⟩).step hstep
  · exact hlose' ⟨t, ht⟩

/-- In every run, what the system with skip lists shows is what the system with sets shows that is
allowed to lose erases. If no erase has reported contention, none is lost. -/
theorem skip_lists_refine_sets {st : Store} (hst : ∀ ll, st.concAt ll = none)
    {ls : List (FineLabel n)} (hrun : Runs FineState.step anyStep (.init n st) ls f) :
    ∃ s, Agrees f s ∧ (∃ ls', Runs State.stepLossy anyStep (.init n st) ls' s) ∧
      (¬f.Contended → ∃ ls', Runs State.step anyStep (.init n st) ls' s) := by
  have hsimulated : Simulated st f :=
    hrun.invariant (fun _ _ _ h _ hstep => h.step hstep) (.init hst)
  obtain ⟨W, ls', hworlds, hruns, hlose⟩ := hsimulated
  exact ⟨_, hworlds.agrees, ⟨ls', hruns⟩, fun hcalm =>
    State.runs_of_lossy hruns fun t ht => hcalm (hlose ⟨t, ht⟩)⟩

end Runs

/-- `k` steps of a thread outside of the skip lists. -/
def FineLabel.turn (t : Thread n) (k : Nat) : List (FineLabel n) :=
  List.replicate k (.outside (.step t))

/-- `k` accesses of the member function that a thread is in. -/
def FineLabel.access (t : Thread n) (k : Nat) : List (FineLabel n) :=
  List.replicate k (.inside t)

/-- A worker and the main thread remove the same value; the main thread finds it marked. -/
theorem skip_lists_refine_sets_lost : ∃ f : FineState 1,
    (.reply 2 (.simpleString "OK") ∈ f.state.redis.history ∧
      .reply 3 (.simpleString "ERR: value does not exist") ∈ f.state.redis.history) ∧
    ∃ s, Agrees f s ∧ (∃ ls, Runs (@State.stepLossy 1 decimalStrings) anyStep (.init 1 .empty) ls s) ∧
      (¬f.Contended → ∃ ls, Runs (@State.step 1 decimalStrings) anyStep (.init 1 .empty) ls s) := by
  let _ := decimalStrings
  let w : Thread 1 := .worker 0
  let labels : List (FineLabel 1) :=
    .outside (.command .llcaSeqCreate ["llca_seq.create", "k"]) :: FineLabel.turn .main 8 ++
    .outside (.command .llcaSeqInsert ["llca_seq.insert", "k", "1"]) :: FineLabel.turn .main 6 ++
    .enter .main ⟨0, by decide⟩ 40 :: FineLabel.access .main 38 ++ FineLabel.turn .main 2 ++
    .outside (.command .llcaConcRemove ["llca_conc.remove", "k", "1"]) :: FineLabel.turn .main 3 ++
    FineLabel.turn w 7 ++
    .outside (.command .llcaSeqRemove ["llca_seq.remove", "k", "1"]) :: FineLabel.turn .main 6 ++
    .enter .main ⟨0, by decide⟩ 40 :: .enter w ⟨0, by decide⟩ 40 :: FineLabel.access .main 34 ++
    FineLabel.access w 46 ++ FineLabel.access .main 9 ++ FineLabel.turn .main 2 ++
    FineLabel.turn w 3
  obtain ⟨f, hrun, hf⟩ : ∃ f, Runs FineState.step anyStep (FineState.init 1 .empty) labels f ∧
      decide (.reply 2 (.simpleString "OK") ∈ f.state.redis.history ∧
        .reply 3 (.simpleString "ERR: value does not exist") ∈ f.state.redis.history) = true :=
    Runs.exists_of_follow _ (by decide +kernel)
  exact ⟨f, of_decide_eq_true hf, skip_lists_refine_sets (fun _ => rfl) hrun⟩

end RedPar
