import RedPar.Proofs.EventNotes

/-!
# The handles of a run

The commands of `llca.cpp` enable automatic memory management before they open their key, so the
handle goes with the context. The events of `skip_list.cpp` do not, and close no handle either.
-/

namespace RedPar
open Interleaved

/-- The event opens its key without automatic memory management: it is one of `skip_list.cpp`, and
its arguments pass the checks that come before `OpenKey`. -/
def EventType.OpensUnmanaged [StringToLongLong] (type : EventType) (argv : List RedisModuleString) :
    Prop :=
  match type with
  | llcaRemove | llcaContains | llcaInsert => False
  | llcaConcCreate | llcaConcDelete => argv.length = 2
  | llcaConcRemove | llcaConcContains | llcaConcInsert =>
    argv.length = 3 ∧ argv[2]?.bind StringToLongLong.parse ≠ none

/-- What an event leaves behind in its context. -/
def HandlesLeft [StringToLongLong] (type : EventType) (argv : List RedisModuleString)
    (ctx : KeyHandles) : Prop :=
  (∀ h ∈ ctx.handles, h.closed = 0) ∧
    ((∀ h ∈ ctx.handles, h.auto = true) ↔ ¬type.OpensUnmanaged argv)

section Bodies

variable {α β : Type} {argv : List RedisModuleString} {left mid ctx : KeyHandles}

/-- A program that leaves the handles `left` in its context. -/
abbrev Leaves (argv : List RedisModuleString) (left ctx : KeyHandles) (p : RedisM α) : Prop :=
  Prog.Obeys (Call.Answer argv) (fun ctx c => some (KeyHandles.after ctx c)) (fun _ => (· = left))
    ctx p

lemma leaves_pure (a : α) : Leaves argv ctx ctx (.pure a : RedisM α) := rfl

lemma leaves_bind {p : RedisM α} {f : α → RedisM β} (hp : Leaves argv mid ctx p)
    (hf : ∀ a, Leaves argv left mid (f a)) : Leaves argv left ctx (p >>= f) :=
  Prog.obeys_bind.mpr (hp.mono fun a _ heq => heq ▸ hf a)

lemma leaves_lift {c : Call} : Leaves argv (ctx.after c) ctx (Prog.lift c) :=
  ⟨_, rfl, fun _ _ => rfl⟩

lemma leaves_argv {i : Nat} {arg : RedisModuleString} {f : RedisModuleString → RedisM β}
    (harg : argv[i]? = some arg) (hf : Leaves argv left ctx (f arg)) :
    Leaves argv left ctx (argvAt i >>= f) := by
  refine ⟨ctx, rfl, fun r hr => ?_⟩
  cases harg.symm.trans hr
  exact hf

lemma leaves_wrongType (key : RedisModuleKey) (type : KeyType) (mt : RedisModuleType) :
    Leaves argv ctx ctx (wrongType key type mt) := by
  unfold wrongType
  split
  · exact leaves_pure _
  · exact leaves_bind leaves_lift fun _ => leaves_pure _

lemma leaves_lockUnless (threadSafe : Bool) : Leaves argv ctx ctx (lockUnless threadSafe) := by
  cases threadSafe with
  | false => exact leaves_lift
  | true => exact leaves_pure _

lemma leaves_unlockUnless (threadSafe : Bool) : Leaves argv ctx ctx (unlockUnless threadSafe) := by
  cases threadSafe with
  | false => exact leaves_lift
  | true => exact leaves_pure _

lemma leaves_checkArity {argc expected : Nat} (hargc : argc = expected) {f : Bool → RedisM β}
    (hf : Leaves argv left ctx (f true)) : Leaves argv left ctx (checkArity argc expected >>= f) := by
  unfold checkArity
  rw [if_neg (not_not.mpr hargc)]
  exact hf

lemma leaves_refusal {argc expected : Nat} (hargc : argc ≠ expected) {f : Bool → RedisM β}
    (hf : Leaves argv left ctx (f false)) : Leaves argv left ctx (checkArity argc expected >>= f) := by
  unfold checkArity
  rw [if_pos hargc]
  exact ⟨ctx, rfl, fun _ _ => hf⟩

/-- A context in which a key has been opened. -/
abbrev KeyHandles.opened (ctx : KeyHandles) (key : RedisModuleString) : KeyHandles :=
  ctx.after (.openKey key)

lemma leaves_create (threadSafe : Bool) {name key : RedisModuleString} :
    Leaves [name, key] (KeyHandles.none.opened key) .none
      (llcaConcCreateEvent [name, key].length threadSafe) := by
  unfold llcaConcCreateEvent
  refine leaves_checkArity rfl (leaves_bind (leaves_lockUnless _) fun _ => ?_)
  refine leaves_argv rfl (leaves_bind leaves_lift fun kp => leaves_bind leaves_lift fun type => ?_)
  split
  · exact leaves_bind leaves_lift fun _ => leaves_unlockUnless _
  · exact leaves_bind leaves_lift fun ll => leaves_bind leaves_lift fun _ =>
      leaves_bind leaves_lift fun _ => leaves_bind (leaves_unlockUnless _) fun _ => leaves_lift

lemma leaves_delete (threadSafe : Bool) {name key : RedisModuleString} :
    Leaves [name, key] (KeyHandles.none.opened key) .none
      (llcaConcDeleteEvent [name, key].length threadSafe) := by
  unfold llcaConcDeleteEvent
  refine leaves_checkArity rfl (leaves_bind (leaves_lockUnless _) fun _ => ?_)
  refine leaves_argv rfl (leaves_bind leaves_lift fun kp => leaves_bind leaves_lift fun type => ?_)
  split
  · exact leaves_bind leaves_lift fun _ => leaves_unlockUnless _
  · refine leaves_bind leaves_lift fun mt => ?_
    split
    · exact leaves_bind leaves_lift fun _ => leaves_unlockUnless _
    · exact leaves_bind leaves_lift fun ll => leaves_bind leaves_lift fun _ =>
        leaves_bind leaves_lift fun _ => leaves_bind leaves_lift fun _ =>
        leaves_bind (leaves_unlockUnless _) fun _ => leaves_lift

lemma leaves_lookupKey (key : RedisModuleString) (threadSafe : Bool) :
    Leaves argv (ctx.opened key) ctx (lookupKey key threadSafe) := by
  unfold lookupKey
  refine leaves_bind leaves_lift fun kp => leaves_bind leaves_lift fun type =>
    leaves_bind (leaves_wrongType ..) fun wrong => ?_
  split
  · exact leaves_bind leaves_lift fun _ => leaves_pure _
  · split
    · exact leaves_bind leaves_lift fun _ => leaves_pure _
    · exact leaves_lift

variable [StringToLongLong]

section SetEvents

variable {op : Ptr → Int64 → RedisM Bool}

lemma leaves_setEvent (threadSafe : Bool) {name key arg : RedisModuleString} {v : Int64}
    (hparse : StringToLongLong.parse arg = some v)
    (hop : ∀ ptr ctx, Leaves [name, key, arg] ctx ctx (op ptr v)) (failure : String) :
    Leaves [name, key, arg] (KeyHandles.none.opened key) .none
      (llcaConcSetEvent op failure [name, key, arg].length threadSafe) := by
  unfold llcaConcSetEvent
  refine leaves_checkArity rfl (leaves_argv (i := 2) rfl ?_)
  unfold stringToLonglong
  rw [hparse]
  refine leaves_argv rfl (leaves_bind (leaves_lookupKey ..) fun obj => ?_)
  split
  · exact leaves_pure _
  · refine leaves_bind (hop obj _) fun done => ?_
    split
    · exact leaves_lift
    · exact leaves_lift

lemma leaves_setEvent_invalid (threadSafe : Bool) {name key arg : RedisModuleString}
    (hparse : StringToLongLong.parse arg = none) (failure : String) :
    Leaves [name, key, arg] .none .none
      (llcaConcSetEvent op failure [name, key, arg].length threadSafe) := by
  unfold llcaConcSetEvent
  refine leaves_checkArity rfl (leaves_argv (i := 2) rfl ?_)
  unfold stringToLonglong
  rw [hparse]
  exact ⟨_, rfl, fun _ _ => leaves_pure _⟩

end SetEvents

/-- The handle is opened under automatic memory management. -/
lemma leaves_llcaEvent {body : RedisModuleKey → KeyType → Int64 → RedisM RedisModuleString}
    {name key arg : RedisModuleString}
    (hbody : ∀ kp type v ctx, Leaves [name, key, arg] ctx ctx (body kp type v)) :
    Leaves [name, key, arg] ((KeyHandles.none.after .autoMemory).opened key) .none
      (llcaEvent (llcaRedisCommand body) [name, key, arg].length) := by
  unfold llcaEvent llcaRedisCommand
  refine leaves_bind (leaves_bind leaves_lift fun _ => ?_) fun result => leaves_lift
  rw [if_neg (by simp)]
  refine leaves_bind leaves_lift fun _ => leaves_argv rfl (leaves_bind leaves_lift fun kp =>
    leaves_bind leaves_lift fun _ => leaves_bind leaves_lift fun type =>
    leaves_bind (leaves_wrongType ..) fun wrong => ?_)
  split
  · exact leaves_pure _
  · refine leaves_argv rfl ?_
    cases StringToLongLong.parse arg with
    | none => exact leaves_pure _
    | some v => exact hbody kp type v _

lemma leaves_llcaEvent_arity {body : RedisModuleKey → KeyType → Int64 → RedisM RedisModuleString}
    (hargc : argv.length ≠ 3) : Leaves argv (KeyHandles.none.after .autoMemory) .none
      (llcaEvent (llcaRedisCommand body) argv.length) := by
  unfold llcaEvent llcaRedisCommand
  refine leaves_bind (leaves_bind leaves_lift fun _ => ?_) fun result => leaves_lift
  rw [if_pos hargc]
  exact leaves_pure _

end Bodies

section Events

variable [StringToLongLong] {type : EventType} {argv : List RedisModuleString}
  {rest : RedisM Unit}

lemma leads_managed {left : KeyHandles} (hleft : ∀ h ∈ left.handles, h.auto = true ∧ h.closed = 0)
    (htype : ¬type.OpensUnmanaged argv) (h : Leaves argv left .none rest) :
    Leads KeyHandles.after HandlesLeft type argv .none rest := by
  refine h.mono fun _ ctx hctx => ?_
  subst hctx
  exact ⟨fun h hh => (hleft h hh).2, fun _ => htype, fun _ h hh => (hleft h hh).1⟩

lemma leads_none (htype : ¬type.OpensUnmanaged argv) (h : Leaves argv .none .none rest) :
    Leads KeyHandles.after HandlesLeft type argv .none rest :=
  leads_managed (fun _ hh => absurd hh List.not_mem_nil) htype h

lemma leads_unmanaged {key : RedisModuleString} (htype : type.OpensUnmanaged argv)
    (h : Leaves argv (KeyHandles.none.opened key) .none rest) :
    Leads KeyHandles.after HandlesLeft type argv .none rest := by
  refine h.mono fun _ ctx hctx => ?_
  subst hctx
  refine ⟨by simp [KeyHandles.after, KeyHandles.none], fun hauto => ?_, fun hnot => absurd htype hnot⟩
  have hhandle := hauto ⟨key, false, 0⟩ (by simp [KeyHandles.after, KeyHandles.none])
  cases hhandle

lemma leads_llcaEvent {body : RedisModuleKey → KeyType → Int64 → RedisM RedisModuleString}
    (htype : ¬type.OpensUnmanaged argv)
    (hbody : ∀ kp t v ctx, Leaves argv ctx ctx (body kp t v)) :
    Leads KeyHandles.after HandlesLeft type argv .none
      (llcaEvent (llcaRedisCommand body) argv.length) := by
  by_cases hargc : argv.length = 3
  · obtain ⟨name, key, arg, rfl⟩ := List.length_eq_three.mp hargc
    exact leads_managed (by simp [KeyHandles.after, KeyHandles.none]) htype (leaves_llcaEvent hbody)
  · exact leads_managed (by simp [KeyHandles.after, KeyHandles.none]) htype
      (leaves_llcaEvent_arity hargc)

lemma leads_setEvent {op : Ptr → Int64 → RedisM Bool} (failure : String) (threadSafe : Bool)
    (htype : type.OpensUnmanaged argv ↔
      argv.length = 3 ∧ argv[2]?.bind StringToLongLong.parse ≠ none)
    (hop : ∀ ptr v ctx, Leaves argv ctx ctx (op ptr v)) :
    Leads KeyHandles.after HandlesLeft type argv .none
      (llcaConcSetEvent op failure argv.length threadSafe) := by
  by_cases hargc : argv.length = 3
  · obtain ⟨name, key, arg, rfl⟩ := List.length_eq_three.mp hargc
    cases hparse : StringToLongLong.parse arg with
    | none =>
      exact leads_none (by simp [htype, hparse]) (leaves_setEvent_invalid threadSafe hparse failure)
    | some v =>
      exact leads_unmanaged (by simp [htype, hparse])
        (leaves_setEvent threadSafe hparse (fun ptr ctx => hop ptr v ctx) failure)
  · refine leads_none (by simp [htype, hargc]) ?_
    unfold llcaConcSetEvent
    exact leaves_refusal hargc (leaves_pure _)

theorem leads_execute (type : EventType) (argv : List RedisModuleString) (threadSafe : Bool) :
    Leads KeyHandles.after HandlesLeft type argv .none (type.execute argv.length threadSafe) := by
  cases type with
  | llcaRemove =>
    refine leads_llcaEvent id fun kp t v ctx => ?_
    split
    · exact leaves_pure _
    · refine leaves_bind leaves_lift fun ll => leaves_bind leaves_lift fun remover => ?_
      split <;> exact leaves_pure _
  | llcaContains =>
    refine leads_llcaEvent id fun kp t v ctx => ?_
    split
    · exact leaves_pure _
    · refine leaves_bind leaves_lift fun ll => leaves_bind leaves_lift fun found => ?_
      split <;> exact leaves_pure _
  | llcaInsert =>
    refine leads_llcaEvent id fun kp t v ctx => ?_
    split
    · exact leaves_bind leaves_lift fun ll => leaves_bind leaves_lift fun _ =>
        leaves_bind leaves_lift fun _ => leaves_pure _
    · exact leaves_bind leaves_lift fun ll => leaves_bind leaves_lift fun _ => leaves_pure _
  | llcaConcCreate =>
    by_cases hargc : argv.length = 2
    · obtain ⟨name, key, rfl⟩ := List.length_eq_two.mp hargc
      exact leads_unmanaged rfl (leaves_create threadSafe)
    · refine leads_none hargc ?_
      unfold EventType.execute llcaConcCreateEvent
      exact leaves_refusal hargc (leaves_pure _)
  | llcaConcDelete =>
    by_cases hargc : argv.length = 2
    · obtain ⟨name, key, rfl⟩ := List.length_eq_two.mp hargc
      exact leads_unmanaged rfl (leaves_delete threadSafe)
    · refine leads_none hargc ?_
      unfold EventType.execute llcaConcDeleteEvent
      exact leaves_refusal hargc (leaves_pure _)
  | llcaConcRemove | llcaConcContains | llcaConcInsert =>
    exact leads_setEvent _ threadSafe Iff.rfl fun ptr v ctx => leaves_lift

end Events

section Runs

variable {n : Nat} {s : State n} {stage : Nat → Stage n}

namespace Tracks

lemma invocation_of_started (h : Tracks s stage) {ctx : Context}
    (hstarted : Started s.redis.history ctx) :
    ∃ inv ∈ invocations s.redis.history, inv.name.context inv.id = ctx := by
  cases ctx with
  | command id =>
    obtain ⟨inv, hinv, rfl, hseq⟩ := hstarted
    exact ⟨inv, hinv, by rw [CommandName.context, hseq]⟩
  | threadSafe id =>
    obtain ⟨name, argv, hhandler, hmem⟩ := h.mem_iff id
    have hdequeued : .dequeued id ∈ (stage id).timeline id name argv := (hmem _ rfl).mp hstarted
    have hconc : (stage id).handler? = some .conc ∧
        .invoke id name argv ∈ (stage id).timeline id name argv := by
      cases hst : stage id <;> rw [hst] at hdequeued <;>
        simp_all [Stage.timeline, Stage.handler?, life]
    refine ⟨⟨id, name, argv⟩, mem_invocations.mpr ((hmem _ rfl).mpr hconc.2), ?_⟩
    rw [CommandName.context, hhandler _ hconc.1]

lemma ended_of_quiescent (h : Tracks s stage) (hquiet : s.Quiescent) {inv : Invocation}
    (hinv : inv ∈ invocations s.redis.history) : .executed inv.id ∈ s.redis.history ∧
      s.redis.history.count (inv.name.context inv.id).ending = 1 := by
  obtain ⟨hhandler, _⟩ := h.handler_of_invoked (mem_invocations.mp hinv)
  obtain ⟨name, argv, _, hcount⟩ := h.count_eq inv.id
  rw [← List.count_pos_iff]
  cases hname : inv.name.handler with
  | conc =>
    rw [hname] at hhandler
    have hstage := h.destroyed_of_quiescent hquiet hhandler
    rw [CommandName.context, hname, hcount _ rfl, hcount _ rfl, hstage]
    simp [Stage.timeline, life, Context.ending]
  | seq =>
    rw [hname] at hhandler
    have hstage : stage inv.id = .directDone := by
      have hback := h.located.back .main inv.id
      rw [hquiet.2 .main] at hback
      cases hst : stage inv.id <;> rw [hst] at hhandler hback <;> first
        | rfl
        | cases hback rfl
        | cases hhandler
    rw [CommandName.context, hname, hcount _ rfl, hcount _ rfl, hstage]
    simp [Stage.timeline, Context.ending]

end Tracks

variable [StringToLongLong] {handles : Context → KeyHandles}

/-- Once nothing is queued and all threads are idle, all handles have been released exactly once if
and only if no command opened its key without automatic memory management. -/
theorem handles_released_iff {st : Store} {ls : List (Label n)}
    (hrun : Runs State.stepHandles anyStep (State.init n st, fun _ => .none) ls (s, handles))
    (hquiet : s.Quiescent) :
    (∀ ctx, ∀ h ∈ (handles ctx).handles, h.releases (s.redis.history.count ctx.ending) = 1) ↔
      ∀ id name argv, .invoke id name argv ∈ s.redis.history → ¬name.event.OpensUnmanaged argv := by
  obtain ⟨⟨stage, htracks⟩, hnoted⟩ := noted_run leads_execute hrun
  constructor
  · intro hreleased id name argv hinvoke hopens
    have hinv : ⟨id, name, argv⟩ ∈ invocations s.redis.history := mem_invocations.mpr hinvoke
    obtain ⟨hclosed, hauto⟩ := hnoted.done _ hinv (htracks.ended_of_quiescent hquiet hinv).1
    refine hauto.mp (fun h hh => ?_) hopens
    have hone := hreleased _ h hh
    by_contra hnot
    simp [Handle.releases, hnot, hclosed h hh] at hone
  · intro hnone ctx h hh
    have hstarted : Started s.redis.history ctx := by
      by_contra hwaiting
      rw [hnoted.waiting ctx hwaiting] at hh
      exact List.not_mem_nil hh
    obtain ⟨inv, hinv, rfl⟩ := htracks.invocation_of_started hstarted
    obtain ⟨hexecuted, hended⟩ := htracks.ended_of_quiescent hquiet hinv
    obtain ⟨hclosed, hauto⟩ := hnoted.done inv hinv hexecuted
    have hmanaged := hauto.mpr (hnone inv.id inv.name inv.argv (mem_invocations.mp hinv)) h hh
    simp [Handle.releases, hmanaged, hclosed h hh, hended]

end Runs

/-- A list command and a command that stops at its arguments: one handle, released once. -/
theorem handles_released_iff_insert : ∃ (s : State 1) (handles : Context → KeyHandles),
    s.Quiescent ∧ (handles (.threadSafe 0)).handles = [⟨"k", true, 0⟩] ∧
      ∀ ctx, ∀ h ∈ (handles ctx).handles, h.releases (s.redis.history.count ctx.ending) = 1 := by
  let _ := decimalStrings
  let labels : List (Label 1) := Label.queue .llcaTypeInsert ["llca_type.insert", "k", "5"] ++
    .command .llcaSeqInsert ["llca_seq.insert", "k", "x"] :: Label.turn .main 3 ++
    Label.turn (.worker 0) 15
  obtain ⟨⟨s, handles⟩, hrun, hs⟩ : ∃ x, Runs State.stepHandles anyStep
      (State.init 1 .empty, fun _ => .none) labels x ∧
      decide (x.1.Quiescent ∧ (x.2 (.threadSafe 0)).handles = [⟨"k", true, 0⟩] ∧
        invocations x.1.redis.history = [⟨0, .llcaTypeInsert, ["llca_type.insert", "k", "5"]⟩,
          ⟨1, .llcaSeqInsert, ["llca_seq.insert", "k", "x"]⟩]) = true :=
    Runs.exists_of_follow _ (by decide +kernel)
  obtain ⟨hquiet, hhandle, hinvoked⟩ := of_decide_eq_true hs
  refine ⟨s, handles, hquiet, hhandle, (handles_released_iff hrun hquiet).mpr ?_⟩
  intro id name argv hinvoke
  have hinv : ⟨id, name, argv⟩ ∈ invocations s.redis.history := mem_invocations.mpr hinvoke
  rw [hinvoked] at hinv
  simp only [List.mem_cons, List.not_mem_nil, or_false, Invocation.mk.injEq] at hinv
  rcases hinv with ⟨_, rfl, rfl⟩ | ⟨_, rfl, rfl⟩
  · exact not_false
  · rintro ⟨_, hparse⟩
    exact hparse (by decide +kernel)

/-- The handle of a created set is never released. -/
theorem handles_released_fails : ¬∀ (n : Nat) (st : Store) (ls : List (Label n)) (s : State n)
    (handles : Context → KeyHandles),
    Runs (@State.stepHandles decimalStrings n) anyStep (State.init n st, fun _ => .none) ls
      (s, handles) → s.Quiescent →
    ∀ ctx, ∀ h ∈ (handles ctx).handles, h.releases (s.redis.history.count ctx.ending) = 1 := by
  let _ := decimalStrings
  intro hall
  let labels : List (Label 1) :=
    Label.queue .llcaConcCreate ["llca_conc.create", "k"] ++ Label.turn (.worker 0) 12
  obtain ⟨⟨s, handles⟩, hrun, hs⟩ : ∃ x, Runs State.stepHandles anyStep
      (State.init 1 .empty, fun _ => .none) labels x ∧
      decide (x.1.Quiescent ∧ ⟨"k", false, 0⟩ ∈ (x.2 (.threadSafe 0)).handles) = true :=
    Runs.exists_of_follow _ (by decide +kernel)
  obtain ⟨hquiet, hhandle⟩ := of_decide_eq_true hs
  have hone := hall 1 .empty labels s handles hrun hquiet _ _ hhandle
  simp [Handle.releases] at hone

end RedPar
