import RedPar.Lib.Typestate
import RedPar.Proofs.AofRewrite

/-!
# Propagation

No command body calls `RedisModule_Replicate` or `RedisModule_ReplicateVerbatim`, nor does any of
them close a key.
-/

namespace RedPar
open Interleaved

/-- The calls of the module API that `src/src` makes. -/
def Call.isMade : Call → Bool
  | .closeKey _ | .replicate _ _ | .replicateVerbatim => false
  | _ => true

/-- The discipline of making no other calls. -/
def madeNext (_ : Unit) (c : Call) : Option Unit := if c.isMade then some () else none

abbrev Made {α : Type} (p : RedisM α) : Prop :=
  Prog.Obeys (fun _ _ => True) madeNext (fun _ _ => True) () p

section Bodies

variable {α β : Type}

lemma made_bind {p : RedisM α} {f : α → RedisM β} (hp : Made p) (hf : ∀ a, Made (f a)) :
    Made (p >>= f) :=
  Prog.obeys_bind.mpr (hp.mono fun a _ _ => hf a)

lemma made_lift {c : Call} (hc : c.isMade = true) : Made (Prog.lift c) :=
  ⟨(), by simp [madeNext, hc], fun _ _ => trivial⟩

lemma made_wrongType (key : RedisModuleKey) (type : KeyType) (mt : RedisModuleType) :
    Made (wrongType key type mt) := by
  unfold wrongType
  split
  · trivial
  · exact made_bind (made_lift rfl) fun _ => trivial

lemma made_checkArity (argc expected : Nat) : Made (checkArity argc expected) := by
  unfold checkArity
  split
  · exact made_bind (made_lift rfl) fun _ => trivial
  · trivial

lemma made_lockUnless (threadSafe : Bool) : Made (lockUnless threadSafe) := by
  cases threadSafe with
  | false => exact made_lift rfl
  | true => trivial

lemma made_unlockUnless (threadSafe : Bool) : Made (unlockUnless threadSafe) := by
  cases threadSafe with
  | false => exact made_lift rfl
  | true => trivial

lemma made_lookupKey (keyStr : RedisModuleString) (threadSafe : Bool) :
    Made (lookupKey keyStr threadSafe) := by
  unfold lookupKey
  refine made_bind (made_lift rfl) fun key => made_bind (made_lift rfl) fun type =>
    made_bind (made_wrongType ..) fun wrong => ?_
  split
  · exact made_bind (made_lift rfl) fun _ => trivial
  · split
    · exact made_bind (made_lift rfl) fun _ => trivial
    · exact made_lift rfl

lemma made_create (argc : Nat) (threadSafe : Bool) : Made (llcaConcCreateEvent argc threadSafe) := by
  unfold llcaConcCreateEvent
  refine made_bind (made_checkArity ..) fun ok => ?_
  split
  · refine made_bind (made_lockUnless _) fun _ => made_bind (made_lift rfl) fun arg =>
      made_bind (made_lift rfl) fun key => made_bind (made_lift rfl) fun type => ?_
    split
    · exact made_bind (made_lift rfl) fun _ => made_unlockUnless _
    · exact made_bind (made_lift rfl) fun ll => made_bind (made_lift rfl) fun _ =>
        made_bind (made_lift rfl) fun _ => made_bind (made_unlockUnless _) fun _ => made_lift rfl
  · trivial

lemma made_delete (argc : Nat) (threadSafe : Bool) : Made (llcaConcDeleteEvent argc threadSafe) := by
  unfold llcaConcDeleteEvent
  refine made_bind (made_checkArity ..) fun ok => ?_
  split
  · refine made_bind (made_lockUnless _) fun _ => made_bind (made_lift rfl) fun arg =>
      made_bind (made_lift rfl) fun key => made_bind (made_lift rfl) fun type => ?_
    split
    · exact made_bind (made_lift rfl) fun _ => made_unlockUnless _
    · refine made_bind (made_lift rfl) fun mt => ?_
      split
      · exact made_bind (made_lift rfl) fun _ => made_unlockUnless _
      · exact made_bind (made_lift rfl) fun ll => made_bind (made_lift rfl) fun _ =>
          made_bind (made_lift rfl) fun _ => made_bind (made_lift rfl) fun _ =>
          made_bind (made_unlockUnless _) fun _ => made_lift rfl
  · trivial

variable [StringToLongLong]

lemma made_stringToLonglong (str : RedisModuleString) : Made (stringToLonglong str) := by
  unfold stringToLonglong
  cases StringToLongLong.parse str with
  | none => exact made_bind (made_lift rfl) fun _ => trivial
  | some v => trivial

lemma made_setEvent {op : Ptr → Int64 → RedisM Bool} (hop : ∀ ptr v, Made (op ptr v))
    (failure : String) (argc : Nat) (threadSafe : Bool) :
    Made (llcaConcSetEvent op failure argc threadSafe) := by
  unfold llcaConcSetEvent
  refine made_bind (made_checkArity ..) fun ok => ?_
  split
  · refine made_bind (made_lift rfl) fun arg => made_bind (made_stringToLonglong arg) fun value => ?_
    cases value with
    | none => trivial
    | some v =>
      refine made_bind (made_lift rfl) fun key => made_bind (made_lookupKey ..) fun obj => ?_
      split
      · trivial
      · refine made_bind (hop obj v) fun done => ?_
        split
        · exact made_lift rfl
        · exact made_lift rfl
  · trivial

lemma made_llcaEvent {body : RedisModuleKey → KeyType → Int64 → RedisM RedisModuleString}
    (hbody : ∀ key type v, Made (body key type v)) (argc : Nat) :
    Made (llcaEvent (llcaRedisCommand body) argc) := by
  unfold llcaEvent llcaRedisCommand
  refine made_bind (made_bind (made_lift rfl) fun _ => ?_) fun result => made_lift rfl
  split
  · trivial
  · refine made_bind (made_lift rfl) fun _ => made_bind (made_lift rfl) fun arg =>
      made_bind (made_lift rfl) fun key => made_bind (made_lift rfl) fun _ =>
      made_bind (made_lift rfl) fun type => made_bind (made_wrongType ..) fun wrong => ?_
    split
    · trivial
    · refine made_bind (made_lift rfl) fun arg => ?_
      cases StringToLongLong.parse arg with
      | none => trivial
      | some v => exact hbody key type v

theorem made_execute (type : EventType) (argc : Nat) (threadSafe : Bool) :
    Made (type.execute argc threadSafe) := by
  cases type with
  | llcaRemove =>
    refine made_llcaEvent (fun key type v => ?_) argc
    split
    · trivial
    · refine made_bind (made_lift rfl) fun ll => made_bind (made_lift rfl) fun remover => ?_
      split <;> trivial
  | llcaContains =>
    refine made_llcaEvent (fun key type v => ?_) argc
    split
    · trivial
    · refine made_bind (made_lift rfl) fun ll => made_bind (made_lift rfl) fun found => ?_
      split <;> trivial
  | llcaInsert =>
    refine made_llcaEvent (fun key type v => ?_) argc
    split
    · exact made_bind (made_lift rfl) fun ll => made_bind (made_lift rfl) fun _ =>
        made_bind (made_lift rfl) fun _ => trivial
    · exact made_bind (made_lift rfl) fun ll => made_bind (made_lift rfl) fun _ => trivial
  | llcaConcCreate => exact made_create argc threadSafe
  | llcaConcDelete => exact made_delete argc threadSafe
  | llcaConcRemove | llcaConcContains | llcaConcInsert =>
    exact made_setEvent (fun _ _ => made_lift rfl) _ argc threadSafe

lemma runCommand_propagated (name : CommandName) (argv : List RedisModuleString) {st st' : Store}
    {calls : List Call} (hrun : runCommand name argv st = some (st', calls)) :
    calls.filterMap (Call.propagated? name argv) = [] := by
  obtain ⟨⟨_, x⟩, hrun', heq⟩ := Option.map_eq_some_iff.mp hrun
  cases heq
  have hmade := (made_execute name.event argv.length (name.handler = .seq)).of_run
    (fun _ _ _ _ _ => trivial) hrun'
  refine List.filterMap_eq_nil_iff.mpr fun c hc => ?_
  obtain ⟨_, _, hnext⟩ := hmade c hc
  cases c <;> first | rfl | cases hnext

lemma runPropagating_eq (cmds : List (CommandName × List RedisModuleString)) {st : Store}
    (h : st.Sound) : ∃ st', runPropagating cmds st = some (st', []) ∧
      st'.content = (specCommands cmds st.content).1 := by
  induction cmds generalizing st with
  | nil => exact ⟨st, rfl, rfl⟩
  | cons cmd cmds ih =>
    obtain ⟨name, argv⟩ := cmd
    obtain ⟨st₁, calls, hrun, hanswers⟩ := runCommand_answers name argv h
    obtain ⟨st₂, hrest, hcontent⟩ := ih hanswers.sound
    refine ⟨st₂, ?_, ?_⟩
    · simp [runPropagating, hrun, hrest, runCommand_propagated name argv hrun]
    · rw [hcontent, hanswers.content]
      rfl

end Bodies

/-- The same keys hold lists with the same values, the same sets, and the same other values. -/
def SameKeyspace (st st' : Store) : Prop :=
  ∀ key, match st.content key, st'.content key with
    | none, none => True
    | some (.list o), some (.list o') => o.values = o'.values
    | some (.set sl), some (.set sl') => sl = sl'
    | some (.other v), some (.other v') => v = v'
    | _, _ => False

lemma sameKeyspace_empty (st : Store) :
    SameKeyspace st .empty ↔ ∀ key, st.content key = none := by
  have hnone : ∀ key, Store.empty.content key = none := fun _ => rfl
  refine forall_congr' fun key => ?_
  rw [hnone]
  cases st.content key with
  | none => simp
  | some c => cases c <;> simp

/-- Whatever the commands of a run do, nothing is propagated, so the replay leaves the keyspace
empty: the same as the run exactly if that has left no key either. -/
theorem propagates_nothing [StringToLongLong] (cmds : List (CommandName × List RedisModuleString)) :
    ∃ st aof st', runPropagating cmds .empty = some (st, aof) ∧ aof = [] ∧
      replay aof .empty = some st' ∧ (SameKeyspace st st' ↔ ∀ key, st.content key = none) := by
  obtain ⟨st, hrun, _⟩ := runPropagating_eq cmds Store.sound_empty
  exact ⟨st, [], .empty, hrun, rfl, rfl, sameKeyspace_empty st⟩

/-- An insertion that a replica never sees. -/
theorem insertion_not_propagated : ¬∀ (cmds : List (CommandName × List RedisModuleString)) st aof st',
    @runPropagating decimalStrings cmds .empty = some (st, aof) →
    @replay decimalStrings aof .empty = some st' → SameKeyspace st st' := by
  let _ := decimalStrings
  intro hall
  obtain ⟨st, hrun, hcontent⟩ := runPropagating_eq
    [(.llcaTypeInsert, ["llca_type.insert", "k", "5"])] Store.sound_empty
  have hsame := (sameKeyspace_empty st).mp (hall _ _ _ _ hrun rfl) "k"
  rw [hcontent] at hsame
  revert hsame
  decide

end RedPar
