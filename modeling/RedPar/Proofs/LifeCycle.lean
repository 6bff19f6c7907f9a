import RedPar.Proofs.Steps

/-!
# The life of an event

Every event passes through the stages of `Stage` in order. `Tracks` is the invariant: a stage for
each event number that agrees with what the threads hold, what is queued, how many references
there are and what the history says.
-/

namespace RedPar
open Interleaved

/-- The event that an entry of the history is about. A command's client has its number. -/
def Entry.event? : Entry → Option Nat
  | .invoke id _ _ | .enqueued id | .dequeued id | .executed id | .dropped id
  | .freeThreadSafeContext id => some id
  | .unblockClient client => client
  | .reply _ _ => none

/-- What the history says about one event. -/
def timeline (history : List Entry) (id : Nat) : List Entry :=
  history.filter fun entry => entry.event? = some id

def life (id : Nat) (name : CommandName) (argv : List RedisModuleString) : List Entry :=
  [.invoke id name argv, .enqueued id, .dequeued id, .executed id, .dropped id,
    .freeThreadSafeContext id, .unblockClient (some id)]

inductive Stage (n : Nat)
  /-- No command has this number yet. -/
  | absent
  /-- `conc_handler` has been entered. -/
  | invoked
  | constructed
  | queued
  | executing (w : Fin n)
  | returned (w : Fin n)
  /-- The worker is done with it, the handler is not. -/
  | dropped
  | destroyed
  /-- On the main thread, by `seq_handler`. -/
  | direct
  | directDone

namespace Stage

variable {n : Nat}

/-- The thread that works on an event in this stage. -/
def thread? : Stage n → Option (Thread n)
  | invoked | constructed | direct => some .main
  | executing w | returned w => some (.worker w)
  | _ => none

def timeline (id : Nat) (name : CommandName) (argv : List RedisModuleString) : Stage n → List Entry
  | absent => []
  | invoked | constructed | direct => (life id name argv).take 1
  | queued => (life id name argv).take 2
  | executing _ => (life id name argv).take 3
  | returned _ => (life id name argv).take 4
  | dropped => (life id name argv).take 5
  | destroyed => life id name argv
  | directDone => [.invoke id name argv, .executed id]

/-- The handler that an event of this stage belongs to. -/
def handler? : Stage n → Option Handler
  | absent => none
  | direct | directDone => some .seq
  | _ => some .conc

/-- The references to the event, except for the one of a handler that has enqueued it. -/
def references : Stage n → Nat
  | constructed | queued | executing _ | returned _ => 1
  | _ => 0

/-- The handler that has enqueued the event may still hold it. -/
def Shared : Stage n → Prop
  | queued | executing _ | returned _ | dropped => True
  | _ => False

/-- A thread takes an event from one stage to the next, and the history says so. -/
inductive Next (id : Nat) : Thread n → Stage n → Stage n → List Entry → Prop
  | construct : Next id .main invoked constructed []
  | enqueue : Next id .main constructed queued [.enqueued id]
  | dequeue (w : Fin n) : Next id (.worker w) queued (executing w) [.dequeued id]
  | executed (w : Fin n) : Next id (.worker w) (executing w) (returned w) [.executed id]
  | drop (w : Fin n) : Next id (.worker w) (returned w) dropped [.dropped id]
  | dropLast (w : Fin n) : Next id (.worker w) (returned w) destroyed
      [.dropped id, .freeThreadSafeContext id, .unblockClient (some id)]
  | retLast : Next id .main dropped destroyed
      [.freeThreadSafeContext id, .unblockClient (some id)]
  | seqReturn : Next id .main direct directDone [.executed id]

namespace Next

variable {id : Nat} {t : Thread n} {st st' : Stage n} {es : List Entry}

lemma about (h : Next id t st st' es) : ∀ e ∈ es, e.event? = some id := by
  cases h <;> simp [Entry.event?]

lemma timeline_eq (h : Next id t st st' es) (name : CommandName)
    (argv : List RedisModuleString) :
    st'.timeline id name argv = st.timeline id name argv ++ es := by
  cases h <;> rfl

lemma handler_eq (h : Next id t st st' es) : st'.handler? = st.handler? := by
  cases h <;> rfl

lemma ne_absent (h : Next id t st st' es) : st ≠ absent ∧ st' ≠ absent := by
  cases h <;> exact ⟨nofun, nofun⟩

lemma thread_old (h : Next id t st st' es) {t' : Thread n} (ht : st.thread? = some t') :
    t' = t := by
  cases h <;> cases ht <;> rfl

lemma thread_new (h : Next id t st st' es) {t' : Thread n} (ht : st'.thread? = some t') :
    t' = t := by
  cases h <;> cases ht <;> rfl

end Next

end Stage

/-- The event that a thread works on, and the stage that this shows. -/
def Proc.stage? {n : Nat} : Thread n → Proc → Option (Nat × Stage n)
  | .main, .construct id _ _ => some (id, .invoked)
  | .main, .enqueue e => some (e.id, .constructed)
  | .main, .execute e _ => some (e.id, .direct)
  | .worker w, .execute e _ => some (e.id, .executing w)
  | .worker w, .drop e => some (e.id, .returned w)
  | _, _ => none

lemma Proc.stage?_thread {n : Nat} {t : Thread n} {p : Proc} {id : Nat} {st : Stage n}
    (h : p.stage? t = some (id, st)) : st.thread? = some t := by
  unfold stage? at h
  split at h <;> cases h <;> rfl

variable {n : Nat} {stage : Nat → Stage n}

/-! ## Where the threads are -/

/-- The threads hold the events whose stage says so. -/
structure Located (procs : Thread n → Proc) (stage : Nat → Stage n) : Prop where
  place : ∀ t id st, (procs t).stage? t = some (id, st) → stage id = st
  back : ∀ t id, (stage id).thread? = some t → (procs t).stage? t = some (id, stage id)

namespace Located

variable {procs : Thread n → Proc} {t : Thread n} {p : Proc}

lemma stay (h : Located procs stage) (hp : p.stage? t = (procs t).stage? t) :
    Located (Function.update procs t p) stage := by
  have hsame : ∀ t', (Function.update procs t p t').stage? t' = (procs t').stage? t' := by
    intro t'
    by_cases ht : t' = t
    · rw [ht, Function.update_self, hp]
    · rw [Function.update_of_ne ht]
  exact ⟨fun t' => by rw [hsame]; exact h.place t', fun t' => by rw [hsame]; exact h.back t'⟩

lemma move (h : Located procs stage) {id : Nat} {st : Stage n} {es : List Entry}
    (hnext : Stage.Next id t (stage id) st es)
    (hone : ∀ x, (procs t).stage? t = some x → x.1 = id)
    (hp : p.stage? t = if st.thread? = some t then some (id, st) else none) :
    Located (Function.update procs t p) (Function.update stage id st) where
  place t' id' st' hst' := by
    by_cases ht : t' = t
    · subst ht
      rw [Function.update_self, hp] at hst'
      split at hst'
      · cases hst'
        exact Function.update_self ..
      · cases hst'
    · rw [Function.update_of_ne ht] at hst'
      have hstage := h.place t' id' st' hst'
      have hne : id' ≠ id := by
        rintro rfl
        exact ht (hnext.thread_old (hstage ▸ Proc.stage?_thread hst'))
      rw [Function.update_of_ne hne, hstage]
  back t' id' hst' := by
    by_cases hid : id' = id
    · subst hid
      rw [Function.update_self] at hst' ⊢
      cases hnext.thread_new hst'
      rw [Function.update_self, hp, if_pos hst']
    · rw [Function.update_of_ne hid] at hst' ⊢
      have hback := h.back t' id' hst'
      have ht : t' ≠ t := by
        rintro rfl
        exact hid (hone _ hback)
      rw [Function.update_of_ne ht, hback]

lemma start (h : Located procs stage) {id : Nat} {st : Stage n} (habsent : stage id = .absent)
    (hidle : (procs t).stage? t = none) (hst : st.thread? = some t)
    (hp : p.stage? t = some (id, st)) :
    Located (Function.update procs t p) (Function.update stage id st) where
  place t' id' st' hst' := by
    by_cases ht : t' = t
    · subst ht
      rw [Function.update_self, hp] at hst'
      cases hst'
      exact Function.update_self ..
    · rw [Function.update_of_ne ht] at hst'
      have hstage := h.place t' id' st' hst'
      have hne : id' ≠ id := by
        rintro rfl
        rw [habsent] at hstage
        cases hstage
        cases Proc.stage?_thread hst'
      rw [Function.update_of_ne hne, hstage]
  back t' id' hst' := by
    by_cases hid : id' = id
    · subst hid
      rw [Function.update_self] at hst' ⊢
      cases hst.symm.trans hst'
      rw [Function.update_self, hp]
    · rw [Function.update_of_ne hid] at hst' ⊢
      have hback := h.back t' id' hst'
      have ht : t' ≠ t := by
        rintro rfl
        cases hidle.symm.trans hback
      rw [Function.update_of_ne ht, hback]

end Located

/-! ## What the history says -/

/-- The history tells the stage of each event. -/
def Timelines (history : List Entry) (stage : Nat → Stage n) : Prop :=
  ∀ id, ∃ name argv, timeline history id = (stage id).timeline id name argv ∧
    ∀ handler, (stage id).handler? = some handler → name.handler = handler

namespace Timelines

variable {history : List Entry}

lemma timeline_append_of_ne {id id' : Nat} {es : List Entry}
    (hes : ∀ e ∈ es, e.event? = some id) (hne : id' ≠ id) :
    timeline (history ++ es) id' = timeline history id' := by
  have hnil : es.filter (fun entry => entry.event? = some id') = [] :=
    List.filter_eq_nil_iff.mpr fun e he => by simp [hes e he, hne.symm]
  rw [timeline, List.filter_append, hnil, List.append_nil, timeline]

lemma timeline_append_self {id : Nat} {es : List Entry} (hes : ∀ e ∈ es, e.event? = some id) :
    timeline (history ++ es) id = timeline history id ++ es := by
  have hall : es.filter (fun entry => entry.event? = some id) = es :=
    List.filter_eq_self.mpr fun e he => by simp [hes e he]
  rw [timeline, List.filter_append, hall, timeline]

/-- Replies are about no event. -/
lemma silent (h : Timelines history stage) {es : List Entry} (hes : ∀ e ∈ es, e.event? = none) :
    Timelines (history ++ es) stage := by
  intro id
  have hnil : es.filter (fun entry => entry.event? = some id) = [] :=
    List.filter_eq_nil_iff.mpr fun e he => by simp [hes e he]
  rw [timeline, List.filter_append, hnil, List.append_nil]
  exact h id

lemma move (h : Timelines history stage) {t : Thread n} {id : Nat} {st : Stage n}
    {es : List Entry} (hnext : Stage.Next id t (stage id) st es) :
    Timelines (history ++ es) (Function.update stage id st) := by
  intro id'
  by_cases hid : id' = id
  · subst hid
    obtain ⟨name, argv, heq, hname⟩ := h id'
    refine ⟨name, argv, ?_, ?_⟩
    · rw [timeline_append_self hnext.about, heq, Function.update_self, hnext.timeline_eq]
    · rw [Function.update_self, hnext.handler_eq]
      exact hname
  · rw [timeline_append_of_ne hnext.about hid, Function.update_of_ne hid]
    exact h id'

lemma start (h : Timelines history stage) {id : Nat} {st : Stage n} {name : CommandName}
    {argv : List RedisModuleString} (habsent : stage id = .absent)
    (hst : st.timeline id name argv = [.invoke id name argv])
    (hhandler : st.handler? = some name.handler) :
    Timelines (history ++ [.invoke id name argv]) (Function.update stage id st) := by
  intro id'
  have hes : ∀ e ∈ [Entry.invoke id name argv], e.event? = some id := by simp [Entry.event?]
  by_cases hid : id' = id
  · subst hid
    obtain ⟨name', argv', heq, _⟩ := h id'
    refine ⟨name, argv, ?_, ?_⟩
    · rw [timeline_append_self hes, heq, habsent, Function.update_self, hst]
      rfl
    · rw [Function.update_self, hhandler]
      rintro handler ⟨⟩
      rfl
  · rw [timeline_append_of_ne hes hid, Function.update_of_ne hid]
    exact h id'

end Timelines

/-! ## The invariant -/

/-- The event that a handler has enqueued and still holds. -/
def Proc.returning? : Proc → Option Nat
  | .ret e => some e.id
  | _ => none

/-- The references to one event, which a handler may hold besides those of its stage. -/
structure Counted (useCount : Nat) (held : Prop) [Decidable held] (st : Stage n) : Prop where
  count : useCount = st.references + if held then 1 else 0
  shared : held → st.Shared
  dropped : st = .dropped → held

/-- The stages of the events agree with the state. -/
structure Tracks (s : State n) (stage : Nat → Stage n) : Prop where
  located : Located s.procs stage
  timelines : Timelines s.redis.history stage
  nodup : (s.queue.map Event.id).Nodup
  queued : ∀ id, id ∈ s.queue.map Event.id ↔ stage id = .queued
  counted : ∀ id, Counted (s.useCount id) ((s.procs .main).returning? = some id) (stage id)
  fresh : ∀ id, stage id = .absent ↔ s.nextId ≤ id

namespace Tracks

variable {s s' : State n}

lemma init (st : Store) : Tracks (State.init n st) fun _ => .absent where
  located := ⟨fun t _ _ h => (by cases t <;> cases h), nofun⟩
  timelines _ := ⟨.llcaTypeInsert, [], rfl, nofun⟩
  nodup := List.nodup_nil
  queued _ := by simp [State.init]
  counted _ := ⟨rfl, nofun, nofun⟩
  fresh _ := by simp [State.init]

lemma stay (h : Tracks s stage) {t : Thread n} {p : Proc} {es : List Entry}
    (hprocs : s'.procs = Function.update s.procs t p)
    (hhistory : s'.redis.history = s.redis.history ++ es) (hes : ∀ e ∈ es, e.event? = none)
    (hqueue : s'.queue = s.queue) (hcount : s'.useCount = s.useCount)
    (hnext : s'.nextId = s.nextId) (hp : p.stage? t = (s.procs t).stage? t)
    (hret : p.returning? = none) (hret' : (s.procs t).returning? = none) : Tracks s' stage where
  located := hprocs ▸ h.located.stay hp
  timelines := hhistory ▸ h.timelines.silent hes
  nodup := hqueue ▸ h.nodup
  queued := hqueue ▸ h.queued
  counted id := by
    have hmain : (s'.procs .main).returning? = (s.procs .main).returning? := by
      rw [hprocs]
      by_cases ht : .main = t
      · subst ht
        rw [Function.update_self, hret, hret']
      · rw [Function.update_of_ne ht]
    simp only [hmain, hcount]
    exact h.counted id
  fresh := hnext ▸ h.fresh

lemma move (h : Tracks s stage) {t : Thread n} {p : Proc} {id : Nat} {st : Stage n}
    {es : List Entry} (hnext : Stage.Next id t (stage id) st es)
    (hprocs : s'.procs = Function.update s.procs t p)
    (hhistory : s'.redis.history = s.redis.history ++ es) (hid : s'.nextId = s.nextId)
    (hone : ∀ x, (s.procs t).stage? t = some x → x.1 = id)
    (hp : p.stage? t = if st.thread? = some t then some (id, st) else none)
    (hnodup : (s'.queue.map Event.id).Nodup)
    (hqueued : ∀ id', id' ∈ s'.queue.map Event.id ↔ Function.update stage id st id' = .queued)
    (hself : Counted (s'.useCount id) ((s'.procs .main).returning? = some id) st)
    (hother : ∀ id', id' ≠ id → s'.useCount id' = s.useCount id' ∧
      ((s'.procs .main).returning? = some id' ↔ (s.procs .main).returning? = some id')) :
    Tracks s' (Function.update stage id st) where
  located := hprocs ▸ h.located.move hnext hone hp
  timelines := hhistory ▸ h.timelines.move hnext
  nodup := hnodup
  queued := hqueued
  counted id' := by
    by_cases hne : id' = id
    · subst hne
      rw [Function.update_self]
      exact hself
    · obtain ⟨huse, hret⟩ := hother id' hne
      obtain ⟨hcount, hshared, hdropped⟩ := h.counted id'
      rw [Function.update_of_ne hne]
      exact ⟨by simp only [huse, hcount, hret], fun hr => hshared (hret.mp hr),
        fun hd => hret.mpr (hdropped hd)⟩
  fresh id' := by
    rw [hid]
    by_cases hne : id' = id
    · subst hne
      rw [Function.update_self, ← h.fresh]
      simp [hnext.ne_absent]
    · rw [Function.update_of_ne hne, h.fresh]

/-- The queue is as before, and the event that moves is not in it. -/
lemma queued_same (h : Tracks s stage) {id : Nat} {st : Stage n} (hqueue : s'.queue = s.queue)
    (hold : stage id ≠ .queued) (hnew : st ≠ .queued) (id' : Nat) :
    id' ∈ s'.queue.map Event.id ↔ Function.update stage id st id' = .queued := by
  rw [hqueue, h.queued]
  by_cases hid : id' = id
  · subst hid
    simp [hold, hnew]
  · rw [Function.update_of_ne hid]

lemma accept (h : Tracks s stage) {st : Stage n} {p : Proc} {name : CommandName}
    {argv : List RedisModuleString} (hidle : s.procs .main = .idle)
    (hprocs : s'.procs = Function.update s.procs .main p)
    (hhistory : s'.redis.history = s.redis.history ++ [.invoke s.nextId name argv])
    (hqueue : s'.queue = s.queue) (hcount : s'.useCount = s.useCount)
    (hnext : s'.nextId = s.nextId + 1)
    (hst : st = .invoked ∧ name.handler = .conc ∨ st = .direct ∧ name.handler = .seq)
    (hp : p.stage? (.main : Thread n) = some (s.nextId, st)) (hret : p.returning? = none) :
    Tracks s' (Function.update stage s.nextId st) := by
  have habsent : stage s.nextId = .absent := (h.fresh _).mpr le_rfl
  have hthread : st.thread? = some .main := by rcases hst with ⟨rfl, _⟩ | ⟨rfl, _⟩ <;> rfl
  have hmain : (s'.procs .main).returning? = (s.procs .main).returning? := by
    rw [hprocs, Function.update_self, hret, hidle]
    rfl
  have hidle' : (s.procs .main).stage? .main = (none : Option (Nat × Stage n)) := by
    rw [hidle]
    rfl
  refine
    { located := hprocs ▸ h.located.start habsent hidle' hthread hp
      timelines := hhistory ▸ h.timelines.start habsent ?_ ?_
      nodup := hqueue ▸ h.nodup
      queued := h.queued_same hqueue (by rw [habsent]; nofun) ?_
      counted := fun id => ?_
      fresh := fun id => ?_ }
  · rcases hst with ⟨rfl, _⟩ | ⟨rfl, _⟩ <;> rfl
  · rcases hst with ⟨rfl, hh⟩ | ⟨rfl, hh⟩ <;> rw [hh] <;> rfl
  · rcases hst with ⟨rfl, _⟩ | ⟨rfl, _⟩ <;> nofun
  · simp only [hmain, hcount]
    by_cases hid : id = s.nextId
    · obtain ⟨hc, hs, _⟩ := h.counted s.nextId
      rw [habsent] at hc hs
      rw [hid, Function.update_self]
      rcases hst with ⟨rfl, _⟩ | ⟨rfl, _⟩ <;> exact ⟨hc, hs, nofun⟩
    · rw [Function.update_of_ne hid]
      exact h.counted id
  · rw [hnext]
    by_cases hid : id = s.nextId
    · rw [hid, Function.update_self]
      rcases hst with ⟨rfl, _⟩ | ⟨rfl, _⟩ <;> simp
    · rw [Function.update_of_ne hid, h.fresh]
      omega

lemma stage_of_proc (h : Tracks s stage) {t : Thread n} {p : Proc} {id : Nat} {st : Stage n}
    (hproc : s.procs t = p) (hp : p.stage? t = some (id, st)) : stage id = st :=
  h.located.place t id st (hproc ▸ hp)

/-- The handler returns: the event is destroyed if its worker has dropped it, and stays where
it is if not. -/
lemma ret (h : Tracks s stage) {e : Event} (hproc : s.procs .main = .ret e) (he : e.Queued) :
    ∃ stage', Tracks (s.leave.release e) stage' := by
  obtain ⟨hcount, hshared, _⟩ := h.counted e.id
  have hheld : (s.procs .main).returning? = some e.id := by rw [hproc]; rfl
  have hstage := hshared hheld
  simp only [hheld, if_true] at hcount
  have hprocs : (s.leave.release e).procs = Function.update s.procs .main .idle := by simp
  have hnone : (s.procs .main).stage? .main = (none : Option (Nat × Stage n)) := by rw [hproc]; rfl
  have hret' : ((s.leave.release e).procs .main).returning? = none := by simp [Proc.returning?]
  have hother : ∀ id', id' ≠ e.id → (s.leave.release e).useCount id' = s.useCount id' ∧
      (((s.leave.release e).procs .main).returning? = some id' ↔
        (s.procs .main).returning? = some id') := by
    intro id' hid
    rw [hret', hheld]
    simp [hid, hid.symm]
  by_cases hdropped : stage e.id = .dropped
  · rw [hdropped] at hcount
    have hreleased : s.leave.released e =
        [.freeThreadSafeContext e.id, .unblockClient (some e.id)] := by
      simp [State.released, hcount, Stage.references, he.destroy]
    have hnext : Stage.Next e.id .main (stage e.id) .destroyed
        [.freeThreadSafeContext e.id, .unblockClient (some e.id)] := by
      rw [hdropped]
      exact .retLast
    refine ⟨_, h.move hnext hprocs (by simp [hreleased]) (by simp) ?_ rfl
      (by simpa using h.nodup) (h.queued_same (by simp) (by simp [hdropped]) (by simp)) ?_ hother⟩
    · intro x hx
      cases hnone.symm.trans hx
    · rw [hret']
      exact ⟨by simp [hcount, Stage.references], fun hr => absurd hr (by simp),
        fun hd => absurd hd (by simp)⟩
  · have hone : (stage e.id).references = 1 := by
      revert hstage hdropped
      cases stage e.id <;> simp [Stage.Shared, Stage.references]
    have hreleased : s.leave.released e = [] := by
      simp [State.released, hcount, hone]
    refine ⟨stage,
      { located := hprocs ▸ h.located.stay (by rw [hnone]; rfl)
        timelines := by simpa [hreleased] using h.timelines
        nodup := by simpa using h.nodup
        queued := by simpa using h.queued
        counted := fun id => ?_
        fresh := by simpa using h.fresh }⟩
    rw [hret']
    by_cases hid : id = e.id
    · subst hid
      exact ⟨by simp [hcount], fun hr => absurd hr (by simp), fun hd => absurd hd hdropped⟩
    · obtain ⟨huse, hiff⟩ := hother id hid
      obtain ⟨hc, hs, hd⟩ := h.counted id
      rw [hret'] at hiff
      exact ⟨by simp only [huse, hc, hiff], fun hr => absurd hr (by simp),
        fun hdrop => hiff.mpr (hd hdrop)⟩

/-- The worker drops the event: it is destroyed unless the handler still holds it. -/
lemma drop (h : Tracks s stage) {w : Fin n} {e : Event} (hproc : s.procs (.worker w) = .drop e)
    (he : e.Queued) :
    ∃ stage', Tracks (((s.setProc (.worker w) .idle).record [.dropped e.id]).release e) stage' := by
  have hstage : stage e.id = .returned w := h.stage_of_proc hproc rfl
  obtain ⟨hcount, _, _⟩ := h.counted e.id
  rw [hstage] at hcount
  generalize hs' : ((s.setProc (.worker w) .idle).record [.dropped e.id]).release e = s'
  have hprocs : s'.procs = Function.update s.procs (.worker w) .idle := by simp [← hs']
  have hmain : s'.procs .main = s.procs .main := by
    rw [hprocs, Function.update_of_ne (by simp)]
  have huse : s'.useCount = Function.update s.useCount e.id (s.useCount e.id - 1) := by
    simp [← hs']
  have hone : ∀ x, (s.procs (.worker w)).stage? (.worker w) = some x → x.1 = e.id := by
    rw [hproc]
    rintro _ ⟨⟩
    rfl
  have hother : ∀ id', id' ≠ e.id → s'.useCount id' = s.useCount id' ∧
      ((s'.procs .main).returning? = some id' ↔ (s.procs .main).returning? = some id') := by
    intro id' hid
    rw [hmain, huse, Function.update_of_ne hid]
    exact ⟨rfl, Iff.rfl⟩
  have hqueue : s'.queue = s.queue := by simp [← hs']
  have hreturned : stage e.id ≠ .queued := by simp [hstage]
  by_cases hheld : (s.procs .main).returning? = some e.id
  · have hnext : Stage.Next e.id (.worker w) (stage e.id) .dropped [.dropped e.id] := by
      rw [hstage]
      exact .drop w
    simp only [hheld, if_true] at hcount
    refine ⟨_, h.move hnext hprocs ?_ (by simp [← hs']) hone rfl (hqueue ▸ h.nodup)
      (h.queued_same hqueue hreturned (by simp)) ?_ hother⟩
    · simp [← hs', State.released, hcount, Stage.references]
    · rw [hmain]
      exact ⟨by simp [huse, hcount, hheld, Stage.references], fun _ => trivial, fun _ => hheld⟩
  · have hnext : Stage.Next e.id (.worker w) (stage e.id) .destroyed
        [.dropped e.id, .freeThreadSafeContext e.id, .unblockClient (some e.id)] := by
      rw [hstage]
      exact .dropLast w
    simp only [hheld, if_false] at hcount
    refine ⟨_, h.move hnext hprocs ?_ (by simp [← hs']) hone rfl (hqueue ▸ h.nodup)
      (h.queued_same hqueue hreturned (by simp)) ?_ hother⟩
    · simp [← hs', State.released, hcount, Stage.references, he.destroy]
    · rw [hmain]
      exact ⟨by simp [huse, hcount, hheld, Stage.references], fun hr => absurd hr hheld,
        fun hd => absurd hd (by simp)⟩

lemma call (h : Tracks s stage) {t : Thread n} {e : Event} {c : Call} {k : c.Res → RedisM Unit}
    {res : c.Res} {redis : Redis (Thread n)} (hproc : s.procs t = .execute e (.call c k))
    (hexec : s.redis.exec t e c = some (res, redis)) :
    Tracks ({ s with redis }.setProc t (.execute e (k res))) stage := by
  obtain ⟨lock, store, _, _, rfl⟩ := Redis.exec_eq_some hexec
  have hsent : ∀ x ∈ Redis.sent e c, x.event? = none := by
    unfold Redis.sent
    split
    · simp [Entry.event?]
    · simp
  refine h.stay rfl rfl hsent rfl rfl rfl ?_ rfl ?_
  · rw [hproc]
    cases t <;> rfl
  · rw [hproc]
    rfl

lemma construct (h : Tracks s stage) {id : Nat} {type : EventType} {argv : List RedisModuleString}
    (hproc : s.procs .main = .construct id type argv) {e : Event} (he : e.id = id) :
    ∃ stage', Tracks ({ s with useCount := Function.update s.useCount id 1 }.setProc .main
      (.enqueue e)) stage' := by
  have hstage : stage id = .invoked := h.stage_of_proc hproc rfl
  have hnext : Stage.Next id .main (stage id) .constructed [] := by
    rw [hstage]
    exact .construct
  refine ⟨_, h.move hnext rfl (List.append_nil _).symm rfl ?_ (by rw [← he]; rfl) h.nodup
    (h.queued_same rfl (by simp [hstage]) (by simp)) ?_ ?_⟩
  · rw [hproc]
    rintro _ ⟨⟩
    rfl
  · exact ⟨by simp [Stage.references, Proc.returning?], by simp [Proc.returning?], nofun⟩
  · intro id' hid
    simp [hproc, Proc.returning?, hid]

lemma enqueue (h : Tracks s stage) {e : Event} (hproc : s.procs .main = .enqueue e) :
    ∃ stage', Tracks (({ s with
      queue := s.queue ++ [e]
      useCount := Function.update s.useCount e.id (s.useCount e.id + 1) }.setProc .main
        (.ret e)).record [.enqueued e.id]) stage' := by
  have hstage : stage e.id = .constructed := h.stage_of_proc hproc rfl
  have hnext : Stage.Next e.id .main (stage e.id) .queued [.enqueued e.id] := by
    rw [hstage]
    exact .enqueue
  have hnot : e.id ∉ s.queue.map Event.id := by
    rw [h.queued, hstage]
    simp
  obtain ⟨hcount, _, _⟩ := h.counted e.id
  rw [hstage, hproc] at hcount
  refine ⟨_, h.move hnext rfl rfl rfl ?_ rfl ?_ ?_ ?_ ?_⟩
  · rw [hproc]
    rintro _ ⟨⟩
    rfl
  · simpa [List.nodup_append] using ⟨h.nodup, fun e' he' => by
      rintro heq
      exact hnot (heq ▸ List.mem_map_of_mem he')⟩
  · intro id'
    by_cases hid : id' = e.id
    · simp [hid]
    · rw [Function.update_of_ne hid, ← h.queued]
      simp [hid]
  · exact ⟨by simp [hcount, Stage.references, Proc.returning?], fun _ => trivial, nofun⟩
  · intro id' hid
    simp [hproc, Proc.returning?, hid, hid.symm]

lemma seqReturn (h : Tracks s stage) {e : Event} (hproc : s.procs .main = .execute e (.pure ())) :
    ∃ stage', Tracks (s.leave.record [.executed e.id]) stage' := by
  have hstage : stage e.id = .direct := h.stage_of_proc hproc rfl
  have hnext : Stage.Next e.id .main (stage e.id) .directDone [.executed e.id] := by
    rw [hstage]
    exact .seqReturn
  obtain ⟨hcount, _, _⟩ := h.counted e.id
  rw [hstage, hproc] at hcount
  refine ⟨_, h.move hnext rfl rfl rfl ?_ rfl h.nodup
    (h.queued_same rfl (by simp [hstage]) (by simp)) ?_ ?_⟩
  · rw [hproc]
    rintro _ ⟨⟩
    rfl
  · exact ⟨by simpa [Proc.returning?, Stage.references] using hcount, by simp [Proc.returning?], nofun⟩
  · intro id' hid
    simp [hproc, Proc.returning?]

lemma dequeue (h : Tracks s stage) {w : Fin n} {e : Event} {queue : List Event}
    (hidle : s.procs (.worker w) = .idle) (hqueue : s.queue = e :: queue) (rest : RedisM Unit) :
    ∃ stage', Tracks (({ s with queue }.setProc (.worker w) (.execute e rest)).record
      [.dequeued e.id]) stage' := by
  have hstage : stage e.id = .queued := (h.queued e.id).mp (by simp [hqueue])
  have hnext : Stage.Next e.id (.worker w) (stage e.id) (.executing w) [.dequeued e.id] := by
    rw [hstage]
    exact .dequeue w
  have hnodup := h.nodup
  rw [hqueue, List.map_cons, List.nodup_cons] at hnodup
  obtain ⟨hcount, _, _⟩ := h.counted e.id
  rw [hstage] at hcount
  refine ⟨_, h.move hnext rfl rfl rfl ?_ (by simp [Proc.stage?, Stage.thread?]) hnodup.2
    ?_ ?_ ?_⟩
  · rw [hidle]
    nofun
  · intro id'
    by_cases hid : id' = e.id
    · subst hid
      simpa using hnodup.1
    · rw [Function.update_of_ne hid, ← h.queued, hqueue]
      simp [hid]
  · exact ⟨by simpa [Stage.references] using hcount, fun _ => trivial, nofun⟩
  · intro id' hid
    simp

lemma executed (h : Tracks s stage) {w : Fin n} {e : Event}
    (hproc : s.procs (.worker w) = .execute e (.pure ())) :
    ∃ stage', Tracks ((s.setProc (.worker w) (.drop e)).record [.executed e.id]) stage' := by
  have hstage : stage e.id = .executing w := h.stage_of_proc hproc rfl
  have hnext : Stage.Next e.id (.worker w) (stage e.id) (.returned w) [.executed e.id] := by
    rw [hstage]
    exact .executed w
  obtain ⟨hcount, _, _⟩ := h.counted e.id
  rw [hstage] at hcount
  refine ⟨_, h.move hnext rfl rfl rfl ?_ (by simp [Proc.stage?, Stage.thread?]) h.nodup
    (h.queued_same rfl (by simp [hstage]) (by simp)) ?_ ?_⟩
  · rw [hproc]
    rintro _ ⟨⟩
    rfl
  · exact ⟨by simpa [Stage.references] using hcount, fun _ => trivial, nofun⟩
  · intro id' hid
    simp

variable [StringToLongLong]

/-- Every step takes at most one event from its stage to the next. -/
theorem step (h : Tracks s stage) {l : Label n} (hs : StepCase s l s') :
    ∃ stage', Tracks s' stage' := by
  cases hs with
  | conc name argv hconc hidle =>
    exact ⟨_, h.accept hidle rfl rfl rfl rfl rfl (.inl ⟨rfl, hconc⟩) rfl rfl⟩
  | seq name argv hseq hidle _ e he =>
    subst he
    exact ⟨_, h.accept hidle rfl rfl rfl rfl rfl (.inr ⟨rfl, hseq⟩) rfl rfl⟩
  | redis c hidle =>
    exact ⟨_, h.stay rfl (List.append_nil _).symm nofun rfl rfl rfl (by rw [hidle]; rfl) rfl
      (by rw [hidle]; rfl)⟩
  | construct id type argv hproc e he => exact h.construct hproc (by rw [he]; rfl)
  | enqueue e hproc => exact h.enqueue hproc
  | ret e hproc he => exact h.ret hproc he
  | mainCall e c k hproc _ res redis hexec => exact ⟨_, h.call hproc hexec⟩
  | seqReturn e hproc => exact h.seqReturn hproc
  | builtin c hproc =>
    exact ⟨_, h.stay rfl (List.append_nil _).symm nofun rfl rfl rfl (by rw [hproc]; rfl) rfl
      (by rw [hproc]; rfl)⟩
  | spin w => exact ⟨_, h⟩
  | dequeue w e queue hidle hqueue => exact h.dequeue hidle hqueue _
  | workerCall w e c k hproc _ res redis hexec => exact ⟨_, h.call hproc hexec⟩
  | executed w e hproc => exact h.executed hproc
  | drop w e hproc he => exact h.drop hproc he

end Tracks

/-! ## First in, first out -/

def enqueuedIds (history : List Entry) : List Nat :=
  history.filterMap fun
    | .enqueued id => some id
    | _ => none

def dequeuedIds (history : List Entry) : List Nat :=
  history.filterMap fun
    | .dequeued id => some id
    | _ => none

/-- The queue holds what has been enqueued and not yet dequeued, in order. -/
def Fifo (s : State n) : Prop :=
  enqueuedIds s.redis.history = dequeuedIds s.redis.history ++ s.queue.map Event.id

namespace Fifo

variable {s s' : State n}

lemma init (st : Store) : Fifo (State.init n st) := rfl

lemma stay (h : Fifo s) {es : List Entry} (hhistory : s'.redis.history = s.redis.history ++ es)
    (henqueued : enqueuedIds es = []) (hdequeued : dequeuedIds es = [])
    (hqueue : s'.queue = s.queue) : Fifo s' := by
  simp only [enqueuedIds, dequeuedIds] at henqueued hdequeued
  simp only [Fifo, enqueuedIds, dequeuedIds, hhistory, hqueue, List.filterMap_append, henqueued,
    hdequeued, List.append_nil]
  exact h

lemma call (h : Fifo s) {t : Thread n} {e : Event} {c : Call} {res : c.Res}
    {redis : Redis (Thread n)} (hexec : s.redis.exec t e c = some (res, redis)) (p : Proc) :
    Fifo ({ s with redis }.setProc t p) := by
  obtain ⟨lock, store, _, _, rfl⟩ := Redis.exec_eq_some hexec
  refine h.stay rfl ?_ ?_ rfl <;> unfold Redis.sent <;> split <;> rfl

lemma released (s : State n) (e : Event) (he : e.Queued) : enqueuedIds (s.released e) = [] ∧
    dequeuedIds (s.released e) = [] := by
  unfold State.released
  split
  · rw [he.destroy]
    exact ⟨rfl, rfl⟩
  · exact ⟨rfl, rfl⟩

theorem step [StringToLongLong] (h : Fifo s) {l : Label n} (hs : StepCase s l s') : Fifo s' := by
  cases hs with
  | enqueue e hproc =>
    simp only [Fifo, enqueuedIds, dequeuedIds] at h ⊢
    simp [h]
  | dequeue w e queue hidle hqueue =>
    simp only [Fifo, enqueuedIds, dequeuedIds, hqueue] at h ⊢
    simp [h]
  | ret e hproc he =>
    obtain ⟨henqueued, hdequeued⟩ := released s.leave e he
    exact h.stay (by simp) henqueued hdequeued (by simp)
  | drop w e hproc he =>
    have hdropped : Fifo ((s.setProc (.worker w) .idle).record [.dropped e.id]) :=
      h.stay rfl rfl rfl rfl
    obtain ⟨henqueued, hdequeued⟩ := released _ e he
    exact hdropped.stay (State.release_history ..) henqueued hdequeued (by simp)
  | mainCall e c k hproc _ res redis hexec => exact h.call hexec _
  | workerCall w e c k hproc _ res redis hexec => exact h.call hexec _
  | conc | seq | seqReturn | executed => exact h.stay rfl rfl rfl rfl
  | redis | construct | builtin | spin => exact h.stay (List.append_nil _).symm rfl rfl rfl

end Fifo

/-! ## What holds of one event -/

namespace Tracks

variable {s : State n}

lemma count_eq (h : Tracks s stage) (id : Nat) : ∃ name argv,
    (∀ handler, (stage id).handler? = some handler → name.handler = handler) ∧
      ∀ entry : Entry, entry.event? = some id →
        s.redis.history.count entry = ((stage id).timeline id name argv).count entry := by
  obtain ⟨name, argv, htimeline, hhandler⟩ := h.timelines id
  refine ⟨name, argv, hhandler, fun entry hentry => ?_⟩
  rw [← htimeline, timeline, List.count_filter (by simpa using hentry)]

lemma mem_iff (h : Tracks s stage) (id : Nat) : ∃ name argv,
    (∀ handler, (stage id).handler? = some handler → name.handler = handler) ∧
      ∀ entry : Entry, entry.event? = some id →
        (entry ∈ s.redis.history ↔ entry ∈ (stage id).timeline id name argv) := by
  obtain ⟨name, argv, hhandler, hcount⟩ := h.count_eq id
  refine ⟨name, argv, hhandler, fun entry hentry => ?_⟩
  rw [← List.count_pos_iff, ← List.count_pos_iff, hcount entry hentry]

lemma thread_of_execute (h : Tracks s stage) {t : Thread n} {e : Event} {rest : RedisM Unit}
    (hproc : s.procs t = .execute e rest) : (stage e.id).thread? = some t := by
  cases t with
  | main =>
    rw [h.stage_of_proc hproc rfl]
    rfl
  | worker w =>
    rw [h.stage_of_proc hproc rfl]
    rfl

lemma executing_unique (h : Tracks s stage) {t t' : Thread n} {e e' : Event}
    {rest rest' : RedisM Unit} (hproc : s.procs t = .execute e rest)
    (hproc' : s.procs t' = .execute e' rest') (hid : e.id = e'.id) : t = t' := by
  have ht := h.thread_of_execute hproc
  rw [hid, h.thread_of_execute hproc'] at ht
  exact (Option.some.inj ht).symm

lemma next_silent (h : Tracks s stage) {entry : Entry} (hentry : entry.event? = some s.nextId) :
    entry ∉ s.redis.history := by
  obtain ⟨name, argv, _, hmem⟩ := h.mem_iff s.nextId
  rw [hmem entry hentry, (h.fresh s.nextId).mpr le_rfl]
  exact List.not_mem_nil

lemma handler_of_invoked (h : Tracks s stage) {id : Nat} {name : CommandName}
    {argv : List RedisModuleString} (hinvoke : .invoke id name argv ∈ s.redis.history) :
    (stage id).handler? = some name.handler ∧
      timeline s.redis.history id = (stage id).timeline id name argv := by
  obtain ⟨name', argv', htimeline, hhandler⟩ := h.timelines id
  have hmem : Entry.invoke id name argv ∈ timeline s.redis.history id := by
    simp [timeline, Entry.event?, hinvoke]
  rw [htimeline] at hmem
  have hsame : stage id ≠ .absent ∧ name' = name ∧ argv' = argv := by
    cases hst : stage id <;> simp_all [Stage.timeline, life]
  obtain ⟨hpresent, rfl, rfl⟩ := hsame
  refine ⟨?_, htimeline⟩
  cases hh : (stage id).handler? with
  | none =>
    cases hst : stage id <;> rw [hst] at hh <;> cases hh
    exact absurd hst hpresent
  | some handler => rw [hhandler handler hh]

lemma timeline_head {st : Stage n} {handler : Handler} (h : st.handler? = some handler) (id : Nat)
    (name : CommandName) (argv : List RedisModuleString) :
    (st.timeline id name argv).head? = some (.invoke id name argv) := by
  cases st <;> first | rfl | cases h

lemma invoked_unique (h : Tracks s stage) {id : Nat} {name name' : CommandName}
    {argv argv' : List RedisModuleString} (hinvoke : .invoke id name argv ∈ s.redis.history)
    (hinvoke' : .invoke id name' argv' ∈ s.redis.history) : name = name' ∧ argv = argv' := by
  obtain ⟨hhandler, htimeline⟩ := h.handler_of_invoked hinvoke
  obtain ⟨hhandler', htimeline'⟩ := h.handler_of_invoked hinvoke'
  have hhead := timeline_head hhandler id name argv
  rw [← htimeline, htimeline', timeline_head hhandler'] at hhead
  cases hhead
  exact ⟨rfl, rfl⟩

/-- With nothing queued and every thread idle, a queued event has been destroyed. -/
lemma destroyed_of_quiescent (h : Tracks s stage) (hquiet : s.Quiescent) {id : Nat}
    (hconc : (stage id).handler? = some .conc) : stage id = .destroyed := by
  have hthread : (stage id).thread? = none := by
    cases ht : (stage id).thread? with
    | none => rfl
    | some t =>
      have hback := h.located.back t id ht
      rw [hquiet.2 t] at hback
      cases t <;> cases hback
  have hqueued : stage id ≠ .queued := fun hst => by
    have hmem := (h.queued id).mpr hst
    rw [hquiet.1] at hmem
    cases hmem
  have hdropped : stage id ≠ .dropped := fun hst => by
    have hheld := (h.counted id).dropped hst
    rw [hquiet.2] at hheld
    cases hheld
  cases hst : stage id <;> rw [hst] at hthread hqueued hdropped hconc <;> first
    | rfl
    | contradiction
    | (cases hthread; done)
    | cases hconc

end Tracks

section Runs

variable [StringToLongLong]

lemma tracks_run {st : Store} {s : State n} {ls : List (Label n)}
    (hrun : Runs State.step anyStep (State.init n st) ls s) :
    (∃ stage, Tracks s stage) ∧ Fifo s :=
  (State.run_invariant (I := fun s => (∃ stage, Tracks s stage) ∧ Fifo s)
    ⟨⟨_, .init st⟩, .init st⟩
    (fun _ _ _ _ ⟨⟨_, htracks⟩, hfifo⟩ _ hs => ⟨htracks.step hs, hfifo.step hs⟩) hrun).2

end Runs

end RedPar
