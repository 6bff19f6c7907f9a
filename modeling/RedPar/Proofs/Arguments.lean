import RedPar.Model.Clients
import RedPar.Proofs.LifeCycle

/-!
# The arguments of an event

An event keeps the `argv` pointer of its command. The arguments outlive it as long as the client
does, because the client is unblocked by `~event`.
-/

namespace RedPar
open Interleaved

variable {n : Nat}

/-- An event that is queued or executing, and may read its arguments. -/
def State.Pending (s : State n) (id : Nat) : Prop :=
  (∃ e ∈ s.queue, e.id = id) ∨ ∃ t e rest, s.procs t = .execute e rest ∧ e.id = id

namespace Served

/-- What a queued or executing event can read is there. -/
def ArgsLive (x : Served n) : Prop := ∀ id, x.state.Pending id → x.live id = true

/-- No client goes away while its event is queued or executing. -/
def ClientsStay (x : Served n) : ClientLabel n → Prop
  | .disconnect id => ¬x.state.Pending id
  | _ => True

end Served

/-- The event whose arguments a thread has still to hand on or to read. -/
def Proc.reads? : Proc → Option Nat
  | .construct id _ _ => some id
  | .enqueue e | .execute e _ => some e.id
  | _ => none

def Proc.executing? : Proc → Option Nat
  | .execute e _ => some e.id
  | _ => none

lemma Proc.executing?_eq_some {p : Proc} {id : Nat} :
    p.executing? = some id ↔ ∃ e rest, p = .execute e rest ∧ e.id = id := by
  unfold executing?
  split
  · simp
  · simp_all

/-- The arguments are there of all events in the queue and in the hands of a thread. -/
structure Readable (s : State n) (live : Nat → Bool) : Prop where
  queue : ∀ e ∈ s.queue, live e.id = true
  procs : ∀ t id, (s.procs t).reads? = some id → live id = true

namespace Readable

variable {s s' : State n} {live live' : Nat → Bool} {stage : Nat → Stage n}

lemma init (st : Store) : Readable (State.init n st) fun _ => false where
  queue _ h := absurd h List.not_mem_nil
  procs _ _ h := nomatch h

lemma argsLive (h : Readable s live) : Served.ArgsLive ⟨s, live⟩ := by
  rintro id (⟨e, he, rfl⟩ | ⟨t, e, rest, hproc, rfl⟩)
  · exact h.queue e he
  · exact h.procs t e.id (by rw [hproc]; rfl)

lemma set (h : Readable s live) {t : Thread n} {p : Proc}
    (hprocs : s'.procs = Function.update s.procs t p)
    (hlive : ∀ id, live id = true → live' id = true)
    (hp : ∀ id, p.reads? = some id → live' id = true)
    (hqueue : ∀ e ∈ s'.queue, e ∈ s.queue ∨ live' e.id = true) : Readable s' live' where
  queue e he := (hqueue e he).elim (fun hold => hlive _ (h.queue e hold)) id
  procs t' id hid := by
    rw [hprocs] at hid
    by_cases ht : t' = t
    · subst ht
      rw [Function.update_self] at hid
      exact hp id hid
    · rw [Function.update_of_ne ht] at hid
      exact hlive id (h.procs t' id hid)

/-- The arguments of a command go that no event reads any more. -/
lemma release (h : Readable s live) {id : Nat} (hqueue : ∀ e ∈ s.queue, e.id ≠ id)
    (hprocs : ∀ t, (s.procs t).reads? ≠ some id) :
    Readable s (Function.update live id false) where
  queue e he := by
    rw [Function.update_of_ne (hqueue e he)]
    exact h.queue e he
  procs t id' hid := by
    have hne : id' ≠ id := fun heq => hprocs t (heq ▸ hid)
    rw [Function.update_of_ne hne]
    exact h.procs t id' hid

lemma worker_executes (hw : s.WellFormed) {w : Fin n} {id : Nat}
    (hid : (s.procs (.worker w)).reads? = some id) :
    ∃ e rest, s.procs (.worker w) = .execute e rest ∧ e.id = id := by
  have hworker := hw.worker w
  generalize hproc : s.procs (.worker w) = p at hworker hid
  cases hworker with
  | idle => cases hid
  | execute e rest => exact ⟨e, rest, rfl, Option.some.inj hid⟩
  | drop e => cases hid

/-- An event on the main thread, or a destroyed one, is neither queued nor with a worker. -/
lemma not_with_worker (htracks : Tracks s stage) (hw : s.WellFormed) {id : Nat}
    (hstage : stage id = .direct ∨ stage id = .destroyed) :
    (∀ e ∈ s.queue, e.id ≠ id) ∧ ∀ w, (s.procs (.worker w)).reads? ≠ some id := by
  constructor
  · rintro e he rfl
    have hqueued := (htracks.queued e.id).mp (List.mem_map_of_mem he)
    rcases hstage with hst | hst <;> cases hst.symm.trans hqueued
  · intro w hid
    obtain ⟨e, rest, hproc, rfl⟩ := worker_executes hw hid
    have hexecuting := htracks.stage_of_proc hproc rfl
    rcases hstage with hst | hst <;> cases hst.symm.trans hexecuting

/-- The main thread does not return from a direct command. -/
lemma liveAfter_main (hproc : ∀ e, s.procs .main ≠ .execute e (.pure ())) :
    Served.liveAfter ⟨s, live⟩ (.step .main) = live := by
  dsimp only [Served.liveAfter]
  split
  · rename_i e _ heq
    exact absurd heq (hproc e)
  · rfl

variable [StringToLongLong]

lemma step (h : Readable s live) (htracks : Tracks s stage) (hw : s.WellFormed) {l : Label n}
    (hs : StepCase s l s') : Readable s' (Served.liveAfter ⟨s, live⟩ l) := by
  have hnew : ∀ id, live id = true → Function.update live s.nextId true id = true := by
    intro id hid
    by_cases hne : id = s.nextId
    · rw [hne, Function.update_self]
    · rwa [Function.update_of_ne hne]
  cases hs with
  | conc name argv =>
    refine h.set rfl hnew ?_ fun _ => .inl
    rintro _ ⟨⟩
    exact Function.update_self ..
  | seq name argv _ _ _ e he =>
    subst he
    refine h.set rfl hnew ?_ fun _ => .inl
    rintro _ ⟨⟩
    exact Function.update_self ..
  | redis c => exact h.set rfl (fun _ => id) nofun fun _ => .inl
  | construct id type argv hproc e he =>
    rw [liveAfter_main (by rw [hproc]; nofun)]
    refine h.set rfl (fun _ h => h) ?_ fun _ => .inl
    rintro _ ⟨⟩
    subst he
    exact h.procs .main id (by rw [hproc]; rfl)
  | enqueue e hproc =>
    have hlive : live e.id = true := h.procs .main e.id (by rw [hproc]; rfl)
    rw [liveAfter_main (by rw [hproc]; nofun)]
    refine h.set rfl (fun _ => id) nofun fun e' he' => ?_
    rcases List.mem_append.mp he' with hold | hnew
    · exact .inl hold
    · cases List.mem_singleton.mp hnew
      exact .inr hlive
  | ret e hproc =>
    rw [liveAfter_main (by rw [hproc]; nofun)]
    exact h.set (State.release_procs ..) (fun _ => id) nofun (by simp +contextual)
  | mainCall e c k hproc =>
    rw [liveAfter_main (by rw [hproc]; nofun)]
    refine h.set rfl (fun _ => id) ?_ fun _ => .inl
    rintro _ ⟨⟩
    exact h.procs .main e.id (by rw [hproc]; rfl)
  | seqReturn e hproc =>
    have hafter : Served.liveAfter ⟨s, live⟩ (.step .main) = Function.update live e.id false := by
      simp [Served.liveAfter, hproc]
    have hleft : Readable (s.leave.record [.executed e.id]) live :=
      h.set rfl (fun _ => id) nofun fun _ => .inl
    obtain ⟨hqueue, hworker⟩ := not_with_worker htracks hw (.inl (htracks.stage_of_proc hproc rfl))
    rw [hafter]
    refine hleft.release hqueue fun t hid => ?_
    cases t with
    | main => cases hid
    | worker w => exact hworker w hid
  | builtin c hproc =>
    rw [liveAfter_main (by rw [hproc]; nofun)]
    exact h.set rfl (fun _ => id) nofun fun _ => .inl
  | spin w => exact h
  | dequeue w e queue _ hqueue =>
    have hmem : e ∈ s.queue := hqueue ▸ List.mem_cons_self
    refine h.set rfl (fun _ => id) ?_ fun e' he' => .inl (hqueue ▸ List.mem_cons_of_mem e he')
    rintro _ ⟨⟩
    exact h.queue e hmem
  | workerCall w e c k hproc =>
    refine h.set rfl (fun _ => id) ?_ fun _ => .inl
    rintro _ ⟨⟩
    exact h.procs (.worker w) e.id (by rw [hproc]; rfl)
  | executed w e => exact h.set rfl (fun _ => id) nofun fun _ => .inl
  | drop w e => exact h.set (State.release_procs ..) (fun _ => id) nofun (by simp +contextual)

end Readable

namespace Served

variable {x x' : Served n} {id : Nat}

lemma releaseArgs_eq_some (h : x.releaseArgs id = some x') :
    x.state.procs .main = .idle ∧ x' = { x with live := Function.update x.live id false } := by
  obtain ⟨⟨hidle, _⟩, heq⟩ := Option.ite_none_right_eq_some.mp h
  exact ⟨hidle, (Option.some.inj heq).symm⟩

variable [StringToLongLong]

/-- What runs keep in which no client goes away too early. -/
def Inv (x : Served n) : Prop :=
  x.state.WellFormed ∧ (∃ stage, Tracks x.state stage) ∧ Readable x.state x.live

theorem inv_step {l : ClientLabel n} (h : x.Inv) (hstay : x.ClientsStay l)
    (hstep : x.step l = some x') : x'.Inv := by
  obtain ⟨hw, ⟨stage, htracks⟩, hread⟩ := h
  cases l with
  | system l =>
    obtain ⟨s', hs', rfl⟩ := Option.map_eq_some_iff.mp hstep
    have hcase := State.step_cases hw hs'
    exact ⟨State.wellFormed_step hw hs', htracks.step hcase, hread.step htracks hw hcase⟩
  | finish id =>
    obtain ⟨hunblocked, hrelease⟩ := Option.ite_none_right_eq_some.mp hstep
    obtain ⟨hidle, rfl⟩ := releaseArgs_eq_some hrelease
    have hdestroyed : stage id = .destroyed := by
      obtain ⟨name, argv, _, hmem⟩ := htracks.mem_iff id
      have hlife := (hmem _ rfl).mp hunblocked
      cases hst : stage id <;> rw [hst] at hlife <;> first
        | rfl
        | simp [Stage.timeline, life] at hlife
    obtain ⟨hqueue, hworker⟩ := Readable.not_with_worker htracks hw (.inr hdestroyed)
    refine ⟨hw, ⟨stage, htracks⟩, hread.release hqueue fun t hid => ?_⟩
    cases t with
    | main =>
      rw [hidle] at hid
      cases hid
    | worker w => exact hworker w hid
  | disconnect id =>
    obtain ⟨hidle, rfl⟩ := releaseArgs_eq_some hstep
    refine ⟨hw, ⟨stage, htracks⟩, hread.release (fun e he heq => ?_) fun t hid => ?_⟩
    · exact hstay (.inl ⟨e, he, heq⟩)
    · cases t with
      | main =>
        rw [hidle] at hid
        cases hid
      | worker w =>
        obtain ⟨e, rest, hproc, heq⟩ := Readable.worker_executes hw hid
        exact hstay (.inr ⟨_, e, rest, hproc, heq⟩)

/-- The arguments of a client that goes away too early are not there. -/
lemma not_argsLive {l : ClientLabel n} (hstep : x.step l = some x') (hleaves : ¬x.ClientsStay l) :
    ¬x'.ArgsLive := by
  intro hlive
  cases l with
  | system l | finish id => exact hleaves trivial
  | disconnect id =>
    obtain ⟨_, rfl⟩ := releaseArgs_eq_some hstep
    have hgone := hlive id (not_not.mp hleaves)
    simp at hgone

/-- The arguments of queued and executing events are there throughout a run if and only if no
client goes away while its event is queued or executing. -/
theorem arguments_outlive_iff {st : Store} {ls : List (ClientLabel n)}
    (hrun : Runs step anyStep (init n st) ls x) :
    Runs.Always step ArgsLive (init n st) ls ↔ Runs step ClientsStay (init n st) ls x := by
  refine Runs.always_iff (fun ls x hrun => ?_) (fun _ _ _ _ _ => not_argsLive) hrun
  have hinv : x.Inv := Runs.invariant (fun _ _ _ => inv_step) hrun
    ⟨State.wellFormed_init st, ⟨_, .init st⟩, .init st⟩
  exact hinv.2.2.argsLive

instance (s : State n) (id : Nat) : Decidable (s.Pending id) :=
  decidable_of_iff ((∃ e ∈ s.queue, e.id = id) ∨ (s.procs .main).executing? = some id ∨
    ∃ w, (s.procs (.worker w)).executing? = some id) <| by
  simp only [Proc.executing?_eq_some]
  refine or_congr_right ⟨?_, ?_⟩
  · rintro (⟨e, rest, h⟩ | ⟨w, e, rest, h⟩)
    · exact ⟨.main, e, rest, h⟩
    · exact ⟨.worker w, e, rest, h⟩
  · rintro ⟨_ | w, e, rest, h⟩
    · exact .inl ⟨e, rest, h⟩
    · exact .inr ⟨w, e, rest, h⟩

instance (x : Served n) : (l : ClientLabel n) → Decidable (x.ClientsStay l)
  | .disconnect id => inferInstanceAs (Decidable ¬x.state.Pending id)
  | .system _ => isTrue trivial
  | .finish _ => isTrue trivial

end Served

/-- A client goes away after its event has been executed, while another event is queued. -/
theorem arguments_outlive_iff_create : ∃ x : Served 1, x.state.Pending 1 ∧ x.live 1 = true ∧
    x.live 0 = false := by
  let _ := decimalStrings
  let steps : List (Label 1) := Label.queue .llcaConcCreate ["llca_conc.create", "k"] ++
    Label.queue .llcaConcCreate ["llca_conc.create", "j"] ++ Label.turn (.worker 0) 11
  let labels : List (ClientLabel 1) := steps.map .system ++ [.disconnect 0]
  obtain ⟨x, hrun, hx⟩ : ∃ x, Runs Served.step Served.ClientsStay (Served.init 1 .empty) labels x ∧
      decide (x.state.Pending 1 ∧ x.live 0 = false) = true :=
    Runs.exists_of_guarded _ (by decide +kernel)
  obtain ⟨hpending, hgone⟩ := of_decide_eq_true hx
  have hany : Runs Served.step anyStep (Served.init 1 .empty) labels x := hrun.mono fun _ _ _ => trivial
  have hlive := (Served.arguments_outlive_iff hany).mpr hrun labels x List.prefix_rfl hany
  exact ⟨x, hpending, hlive 1 hpending, hgone⟩

/-- A client is killed while its event is queued. -/
theorem arguments_outlive_fails : ¬∀ (n : Nat) (st : Store) (ls : List (ClientLabel n))
    (x : Served n), Runs (@Served.step n decimalStrings) anyStep (Served.init n st) ls x →
      x.ArgsLive := by
  let _ := decimalStrings
  intro hall
  let labels : List (ClientLabel 1) :=
    [.system (.command .llcaTypeInsert ["llca_type.insert", "k", "5"]), .system (.step .main),
      .system (.step .main), .system (.step .main), .disconnect 0]
  obtain ⟨x, hrun, hx⟩ : ∃ x, Runs Served.step anyStep (Served.init 1 .empty) labels x ∧
      decide (x.state.Pending 0 ∧ x.live 0 = false) = true :=
    Runs.exists_of_follow _ (by decide +kernel)
  obtain ⟨hpending, hgone⟩ := of_decide_eq_true hx
  have hlive := hall 1 .empty labels x hrun 0 hpending
  rw [hgone] at hlive
  cases hlive

end RedPar
