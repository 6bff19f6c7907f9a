import RedPar.Model.KeyHandles
import RedPar.Proofs.History
import RedPar.Proofs.LifeCycle
import RedPar.Proofs.LockDiscipline

/-!
# Notes about events

Notes about a context start at `q₀`, and the calls that its event makes update them. If every
command body leads them from `q₀` to notes that satisfy `post`, then every event of a run does.
-/

namespace RedPar
open Interleaved

def CommandName.context (name : CommandName) (id : Nat) : Context :=
  match name.handler with
  | .conc => .threadSafe id
  | .seq => .command id

def Context.id : Context → Nat
  | .command id | .threadSafe id => id

@[simp] lemma Event.context_id (e : Event) : e.context.id = e.id := by
  unfold context
  split <;> rfl

@[simp] lemma CommandName.context_id (name : CommandName) (id : Nat) : (name.context id).id = id := by
  unfold context
  split <;> rfl

def Started (history : List Entry) : Context → Prop
  | .command id => ∃ inv ∈ invocations history, inv.id = id ∧ inv.name.handler = .seq
  | .threadSafe id => .dequeued id ∈ history

lemma Started.append {history : List Entry} {ctx : Context} (h : Started history ctx)
    (es : List Entry) : Started (history ++ es) ctx := by
  cases ctx with
  | command id =>
    obtain ⟨inv, hinv, hid⟩ := h
    exact ⟨inv, by simp [hinv], hid⟩
  | threadSafe id => exact List.mem_append_left es h

variable {n : Nat} {s s' : State n} {stage : Nat → Stage n}

namespace Tracks

lemma started (h : Tracks s stage) (hw : s.WellFormed) {t : Thread n} {e : Event}
    {rest : RedisM Unit} (hproc : s.procs t = .execute e rest) :
    Started s.redis.history e.context ∧ .executed e.id ∉ s.redis.history := by
  obtain ⟨name, argv, hhandler, hmem⟩ := h.mem_iff e.id
  cases t with
  | main =>
    have hstage : stage e.id = .direct := h.stage_of_proc hproc rfl
    have hdirect := hw.direct hproc
    rw [hstage] at hmem hhandler
    have hinvoke := (hmem (.invoke e.id name argv) rfl).mpr (by simp [Stage.timeline, life])
    refine ⟨?_, (hmem _ rfl).not.mpr (by simp [Stage.timeline, life])⟩
    rw [Event.context, hdirect.threadSafe, if_pos rfl]
    exact ⟨⟨e.id, name, argv⟩, mem_invocations.mpr hinvoke, rfl, hhandler _ rfl⟩
  | worker w =>
    have hstage : stage e.id = .executing w := h.stage_of_proc hproc rfl
    have hqueued := hw.queued hproc
    rw [hstage] at hmem
    refine ⟨?_, (hmem _ rfl).not.mpr (by simp [Stage.timeline, life])⟩
    rw [Event.context, hqueued.threadSafe, if_neg (by simp)]
    exact (hmem (.dequeued e.id) rfl).mpr (by simp [Stage.timeline, life])

lemma context_eq (h : Tracks s stage) (hw : s.WellFormed) {t : Thread n} {e : Event}
    {rest : RedisM Unit} (hproc : s.procs t = .execute e rest) {inv : Invocation}
    (hinv : inv ∈ invocations s.redis.history) (hid : inv.id = e.id) :
    inv.name.context inv.id = e.context := by
  obtain ⟨hhandler, _⟩ := h.handler_of_invoked (mem_invocations.mp hinv)
  rw [hid] at hhandler ⊢
  cases t with
  | main =>
    rw [h.stage_of_proc hproc rfl] at hhandler
    have hseq : inv.name.handler = .seq := (Option.some.inj hhandler).symm
    rw [CommandName.context, Event.context, hseq, (hw.direct hproc).threadSafe, if_pos rfl]
  | worker w =>
    rw [h.stage_of_proc hproc rfl] at hhandler
    have hconc : inv.name.handler = .conc := (Option.some.inj hhandler).symm
    rw [CommandName.context, Event.context, hconc, (hw.queued hproc).threadSafe, if_neg (by simp)]

end Tracks

section Notes

variable {Q : Type} (next : Q → Call → Q) (q₀ : Q)
  (post : EventType → List RedisModuleString → Q → Prop)

/-- The rest of an event leads its notes to `post`. -/
abbrev Leads (type : EventType) (argv : List RedisModuleString) (q : Q) (rest : RedisM Unit) :
    Prop :=
  Prog.Obeys (Call.Answer argv) (fun q c => some (next q c)) (fun _ => post type argv) q rest

structure Noted (s : State n) (notes : Context → Q) : Prop where
  waiting : ∀ ctx, ¬Started s.redis.history ctx → notes ctx = q₀
  running : ∀ t e rest, s.procs t = .execute e rest →
    Leads next post e.type e.argv (notes e.context) rest
  done : ∀ inv ∈ invocations s.redis.history, .executed inv.id ∈ s.redis.history →
    post inv.name.event inv.argv (notes (inv.name.context inv.id))

variable {next q₀ post} {notes : Context → Q}

namespace Noted

lemma init (st : Store) : Noted next q₀ post (State.init n st) fun _ => q₀ where
  waiting _ _ := rfl
  running _ _ _ h := nomatch h
  done _ h := absurd h List.not_mem_nil

lemma stay (h : Noted next q₀ post s notes) {t : Thread n} {p : Proc} {es : List Entry}
    (hprocs : s'.procs = Function.update s.procs t p)
    (hhistory : s'.redis.history = s.redis.history ++ es) (hes : ∀ id, .executed id ∉ es)
    (hnew : ∀ inv ∈ invocations es, .executed inv.id ∉ s.redis.history)
    (hp : ∀ e rest, p = .execute e rest → Leads next post e.type e.argv (notes e.context) rest) :
    Noted next q₀ post s' notes where
  waiting ctx hctx := h.waiting ctx fun hstarted => hctx (hhistory ▸ hstarted.append es)
  running t' e rest hproc := by
    rw [hprocs] at hproc
    by_cases ht : t' = t
    · subst ht
      rw [Function.update_self] at hproc
      exact hp e rest hproc
    · rw [Function.update_of_ne ht] at hproc
      exact h.running t' e rest hproc
  done inv hinv hexecuted := by
    rw [hhistory] at hinv hexecuted
    have hold := (List.mem_append.mp hexecuted).resolve_right (hes inv.id)
    rw [invocations_append] at hinv
    rcases List.mem_append.mp hinv with hinv | hinv
    · exact h.done inv hinv hold
    · exact absurd hold (hnew inv hinv)

lemma finish (h : Noted next q₀ post s notes) (htracks : Tracks s stage) (hw : s.WellFormed)
    (hissued : s.Carries (Issued (fun _ _ _ => True) s.redis.history)) {t : Thread n} {p : Proc}
    {e : Event} (hproc : s.procs t = .execute e (.pure ()))
    (hprocs : s'.procs = Function.update s.procs t p)
    (hhistory : s'.redis.history = s.redis.history ++ [.executed e.id])
    (hp : ∀ e rest, p ≠ .execute e rest) : Noted next q₀ post s' notes where
  waiting ctx hctx := h.waiting ctx fun hstarted => hctx (hhistory ▸ hstarted.append _)
  running t' e' rest hproc' := by
    rw [hprocs] at hproc'
    by_cases ht : t' = t
    · subst ht
      rw [Function.update_self] at hproc'
      exact absurd hproc' (hp e' rest)
    · rw [Function.update_of_ne ht] at hproc'
      exact h.running t' e' rest hproc'
  done inv hinv hexecuted := by
    rw [hhistory] at hinv hexecuted
    have hold : inv ∈ invocations s.redis.history := by
      rw [invocations_append] at hinv
      exact (List.mem_append.mp hinv).resolve_right List.not_mem_nil
    by_cases hid : inv.id = e.id
    · obtain ⟨_, inv', hinv', hid', htype, hargv⟩ :
          Issued (fun _ _ _ => True) s.redis.history e.id e.threadSafe e.type e.argv :=
        hissued.of_proc hproc
      have hpost : post e.type e.argv (notes e.context) := h.running t e _ hproc
      obtain ⟨hname, hargs⟩ := htracks.invoked_unique (mem_invocations.mp hold)
        (hid.trans hid'.symm ▸ mem_invocations.mp hinv')
      rw [htracks.context_eq hw hproc hold hid, hname, hargs, htype, hargv]
      exact hpost
    · exact h.done inv hold (by simpa [hid] using hexecuted)

lemma call (h : Noted next q₀ post s notes) (htracks : Tracks s stage) (hw : s.WellFormed)
    {t : Thread n} {e : Event} {c : Call} {k : c.Res → RedisM Unit}
    (hproc : s.procs t = .execute e (.call c k)) {res : c.Res} {redis : Redis (Thread n)}
    (hexec : s.redis.exec t e c = some (res, redis)) :
    Noted next q₀ post ({ s with redis }.setProc t (.execute e (k res)))
      (Function.update notes e.context (next (notes e.context) c)) := by
  obtain ⟨lock, store, _, hstore, rfl⟩ := Redis.exec_eq_some hexec
  obtain ⟨hstarted, hunfinished⟩ := htracks.started hw hproc
  refine ⟨fun ctx hctx => ?_, fun t' e' rest hproc' => ?_, fun inv hinv hexecuted => ?_⟩
  · have hold : ¬Started s.redis.history ctx := fun hstarted => hctx (hstarted.append _)
    have hne : ctx ≠ e.context := fun heq => hold (heq ▸ hstarted)
    rw [Function.update_of_ne hne]
    exact h.waiting ctx hold
  · by_cases ht : t' = t
    · subst ht
      have heq : Proc.execute e (k res) = .execute e' rest := by simpa using hproc'
      cases heq
      rw [Function.update_self]
      exact (h.running t' e _ hproc).of_call rfl (answer_of_exec hstore)
    · have hold : s.procs t' = .execute e' rest := by simpa [ht] using hproc'
      have hne : e'.context ≠ e.context := fun heq =>
        ht (htracks.executing_unique hold hproc (by simpa using congrArg Context.id heq))
      rw [Function.update_of_ne hne]
      exact h.running t' e' rest hold
  · have hinv' : inv ∈ invocations s.redis.history := by simpa using hinv
    have hold : .executed inv.id ∈ s.redis.history := by
      refine (List.mem_append.mp hexecuted).resolve_right fun hmem => ?_
      unfold Redis.sent at hmem
      split at hmem <;> simp at hmem
    have hne : inv.name.context inv.id ≠ e.context := by
      intro heq
      have hid : inv.id = e.id := by simpa using congrArg Context.id heq
      exact hunfinished (hid ▸ hold)
    rw [Function.update_of_ne hne]
    exact h.done inv hinv' hold

lemma executed_not_mem_released {e : Event} (he : e.Queued) (id : Nat) :
    .executed id ∉ s.released e := by
  unfold State.released
  rw [he.destroy]
  split <;> simp

theorem step [StringToLongLong]
    (hbody : ∀ type argv threadSafe, Leads next post type argv q₀
      (type.execute argv.length threadSafe))
    (h : Noted next q₀ post s notes) (htracks : Tracks s stage) (hw : s.WellFormed)
    (hissued : s.Carries (Issued (fun _ _ _ => True) s.redis.history)) {l : Label n}
    (hs : StepCase s l s') : Noted next q₀ post s' (s.note next l notes) := by
  have hquiet : s.made? l = none → s.note next l notes = notes := by
    intro hnone
    unfold State.note
    rw [hnone]
  have hnext : ∀ name argv, ∀ inv ∈ invocations [.invoke s.nextId name argv],
      .executed inv.id ∉ s.redis.history := by
    intro name argv inv hinv
    cases List.mem_singleton.mp hinv
    exact htracks.next_silent rfl
  cases hs with
  | conc name argv hconc hidle =>
    exact h.stay rfl rfl (by simp) (hnext name argv) (by simp)
  | seq name argv hseq hidle _ e he =>
    refine h.stay rfl rfl (by simp) (hnext name argv) fun e' rest hp => ?_
    cases hp
    have hwaiting : ¬Started s.redis.history (.command s.nextId) := by
      rintro ⟨inv, hinv, hid, _⟩
      refine htracks.next_silent ?_ (mem_invocations.mp hinv)
      rw [← hid]
      rfl
    subst he
    have hstart : notes (.command s.nextId) = q₀ := h.waiting _ hwaiting
    exact hstart ▸ hbody name.event argv true
  | redis c hidle =>
    exact h.stay rfl (List.append_nil _).symm (by simp) (by simp) (by simp)
  | construct id type argv hproc e he =>
    rw [hquiet (by simp [State.made?, hproc])]
    exact h.stay rfl (List.append_nil _).symm (by simp) (by simp) (by simp)
  | enqueue e hproc =>
    rw [hquiet (by simp [State.made?, hproc])]
    exact h.stay rfl rfl (by simp) (fun _ hinv => absurd hinv List.not_mem_nil) (by simp)
  | ret e hproc he =>
    rw [hquiet (by simp [State.made?, hproc])]
    refine h.stay (State.release_procs ..) (State.release_history ..)
      (executed_not_mem_released he) ?_ (by simp)
    rw [invocations_released he]
    simp
  | mainCall e c k hproc _ res redis hexec =>
    have hnote : s.note next (.step .main) notes =
        Function.update notes e.context (next (notes e.context) c) := by
      simp [State.note, State.made?, hproc]
    rw [hnote]
    exact h.call htracks hw hproc hexec
  | seqReturn e hproc =>
    rw [hquiet (by simp [State.made?, hproc])]
    exact h.finish htracks hw hissued hproc rfl rfl (by simp)
  | builtin c hproc =>
    rw [hquiet (by simp [State.made?, hproc])]
    exact h.stay rfl (List.append_nil _).symm (by simp) (by simp) (by simp)
  | spin w hidle =>
    rw [hquiet (by simp [State.made?, hidle])]
    exact h
  | dequeue w e queue hidle hqueue he =>
    rw [hquiet (by simp [State.made?, hidle])]
    refine h.stay rfl rfl (by simp) (fun _ hinv => absurd hinv List.not_mem_nil) fun e' rest hp => ?_
    cases hp
    have hwaiting : ¬Started s.redis.history (.threadSafe e.id) := by
      obtain ⟨name, argv, _, hmem⟩ := htracks.mem_iff e.id
      have hstage : stage e.id = .queued := (htracks.queued e.id).mp (by simp [hqueue])
      rw [Started, hmem _ rfl, hstage]
      simp [Stage.timeline, life]
    have hcontext : e.context = .threadSafe e.id := by
      rw [Event.context, he.threadSafe, if_neg (by simp)]
    rw [hcontext, h.waiting _ hwaiting]
    exact hbody e.type e.argv e.threadSafe
  | workerCall w e c k hproc _ res redis hexec =>
    have hnote : s.note next (.step (.worker w)) notes =
        Function.update notes e.context (next (notes e.context) c) := by
      simp [State.note, State.made?, hproc]
    rw [hnote]
    exact h.call htracks hw hproc hexec
  | executed w e hproc =>
    rw [hquiet (by simp [State.made?, hproc])]
    exact h.finish htracks hw hissued hproc rfl rfl (by simp)
  | drop w e hproc he =>
    rw [hquiet (by simp [State.made?, hproc])]
    have hhistory : (((s.setProc (.worker w) .idle).record [.dropped e.id]).release e).redis.history
        = s.redis.history ++ ([.dropped e.id] ++
          ((s.setProc (.worker w) .idle).record [.dropped e.id]).released e) := by
      rw [State.release_history, State.record_history, List.append_assoc]
      rfl
    refine h.stay (State.release_procs ..) hhistory (fun id hmem => ?_) ?_ (by simp)
    · rcases List.mem_append.mp hmem with hmem | hmem
      · cases List.mem_singleton.mp hmem
      · exact executed_not_mem_released he id hmem
    · rw [invocations_dropped he]
      simp

end Noted

/-- What the bodies do to the notes, the events of a run do. -/
theorem noted_run [StringToLongLong]
    (hbody : ∀ type argv threadSafe, Leads next post type argv q₀
      (type.execute argv.length threadSafe)) {st : Store} {ls : List (Label n)}
    (hrun : Runs (withNotes State.step (State.note next)) anyStep (State.init n st, fun _ => q₀) ls
      (s, notes)) : (∃ stage, Tracks s stage) ∧ Noted next q₀ post s notes := by
  have hinv := hrun.invariant (I := fun x => x.1.WellFormed ∧ (∃ stage, Tracks x.1 stage) ∧
      x.1.Carries (Issued (fun _ _ _ => True) x.1.redis.history) ∧ Noted next q₀ post x.1 x.2)
    ?_ ⟨State.wellFormed_init st, ⟨_, .init st⟩, State.carries_init st, .init st⟩
  · exact ⟨hinv.2.1, hinv.2.2.2⟩
  · rintro ⟨s, notes⟩ l ⟨s', notes'⟩ ⟨hw, ⟨stage, htracks⟩, hissued, h⟩ _ hstep
    obtain ⟨hs, rfl⟩ := withNotes_eq_some.mp hstep
    have hcase := State.step_cases hw hs
    have hl : l.Issues fun _ _ _ => True := by cases l <;> trivial
    exact ⟨State.wellFormed_step hw hs, htracks.step hcase, issued_step hl hissued hcase,
      h.step hbody htracks hw hissued hcase⟩

end Notes

end RedPar
