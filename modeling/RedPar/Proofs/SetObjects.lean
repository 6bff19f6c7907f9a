import RedPar.Proofs.CommandSpec
import RedPar.Proofs.Monitors
import Mathlib.Data.Set.Card

/-!
# The objects of the sets

An `llca_conc_obj` is allocated by the create event, and destroyed and freed by the delete event.
`llca_conc_free` does neither, so an object whose key Redis itself removes stays allocated.
-/

namespace RedPar
open Interleaved

namespace Store

/-- An `llca_conc_obj` has been allocated here and has not been freed. -/
def IsSetObject (st : Store) (ptr : Ptr) : Prop :=
  st.heap ptr = some .raw ∨ ∃ sl, st.heap ptr = some (.llcaConc sl)

def HoldsSet (st : Store) (key : RedisModuleString) : Prop :=
  ∃ ptr, st.keyspace key = some (.module .llcaConc ptr)

/-- Each object of a set belongs to a key. -/
structure Balanced (st : Store) : Prop where
  sound : st.Sound
  owned : ∀ ptr, st.IsSetObject ptr → ∃ key, st.keyspace key = some (.module .llcaConc ptr)

def boundPtr (st : Store) (key : RedisModuleString) : Ptr :=
  match st.keyspace key with
  | some (.module _ ptr) => ptr
  | _ => nullptr

variable {st : Store}

namespace Balanced

lemma of_empty : empty.Balanced where
  sound := sound_empty
  owned _ h := by
    rcases h with h | ⟨sl, h⟩
    · cases h
    · cases h

lemma encard_eq (h : st.Balanced) :
    {ptr | st.IsSetObject ptr}.encard = {key | st.HoldsSet key}.encard := by
  have hbound : ∀ key ptr, st.keyspace key = some (.module .llcaConc ptr) →
      st.boundPtr key = ptr := by
    intro key ptr hk
    simp only [boundPtr, hk]
  have himage : {ptr | st.IsSetObject ptr} = st.boundPtr '' {key | st.HoldsSet key} := by
    ext ptr
    constructor
    · intro hptr
      obtain ⟨key, hk⟩ := h.owned ptr hptr
      exact ⟨key, ⟨ptr, hk⟩, hbound key ptr hk⟩
    · rintro ⟨key, ⟨p, hk⟩, rfl⟩
      rw [hbound key p hk]
      obtain ⟨sl, hsl, _⟩ := h.sound.conc_of_content hk
      exact .inr ⟨sl, hsl⟩
  have hinj : Set.InjOn st.boundPtr {key | st.HoldsSet key} := by
    rintro key ⟨p, hk⟩ key' ⟨p', hk'⟩ heq
    rw [hbound key p hk, hbound key' p' hk'] at heq
    subst heq
    exact h.sound.injective key key' _ _ p hk hk' rfl rfl
  rw [himage, hinj.encard_image]

/-- Creating a set: the object is allocated, constructed and bound. -/
lemma create (h : st.Balanced) {key : RedisModuleString} (hk : st.keyspace key = none) :
    ((st.allocObj (.llcaConc ∅)).setKey key (some (.module .llcaConc st.next))).Balanced where
  sound := by
    refine (h.sound.allocObj _).setKey_some (c := .set ∅) ?_ ?_
    · simp [Value.content, Store.allocObj]
    · intro ptr hptr
      cases hptr
      exact h.sound.next_unbound
  owned ptr hptr := by
    by_cases hp : ptr = st.next
    · subst hp
      exact ⟨key, by simp [setKey]⟩
    · have hold : st.IsSetObject ptr := by
        simpa [IsSetObject, setKey, Store.allocObj, hp] using hptr
      obtain ⟨key', hk'⟩ := h.owned ptr hold
      have hne : key' ≠ key := by
        rintro rfl
        rw [hk] at hk'
        cases hk'
      exact ⟨key', by simpa [setKey, Store.allocObj, hne] using hk'⟩

/-- A key is unbound, and nothing that remains is the object of its set. -/
lemma unbind (h : st.Balanced) {st' : Store} {key : RedisModuleString} (hsound : st'.Sound)
    (hkeyspace : st'.keyspace = Function.update st.keyspace key none)
    (hobj : ∀ ptr, st'.IsSetObject ptr →
      st.IsSetObject ptr ∧ st.keyspace key ≠ some (.module .llcaConc ptr)) : st'.Balanced where
  sound := hsound
  owned ptr hptr := by
    obtain ⟨hold, hother⟩ := hobj ptr hptr
    obtain ⟨key', hk'⟩ := h.owned ptr hold
    have hne : key' ≠ key := fun heq => hother (heq ▸ hk')
    exact ⟨key', by rw [hkeyspace, Function.update_of_ne hne, hk']⟩

/-- Deleting a set: the object is freed and its key is unbound. -/
lemma delete (h : st.Balanced) {key : RedisModuleString} {ptr : Ptr}
    (hk : st.keyspace key = some (.module .llcaConc ptr)) :
    ((st.setObj ptr none).setKey key none).Balanced := by
  refine h.unbind (h.sound.setKey_setObj_none hk rfl).1 rfl fun p hp => ?_
  have hpp : p ≠ ptr := by
    rintro rfl
    simp [IsSetObject, setKey, setObj] at hp
  refine ⟨by simpa [IsSetObject, setKey, setObj, hpp] using hp, ?_⟩
  rw [hk]
  rintro heq
  cases heq
  exact hpp rfl

lemma dbDelete (h : st.Balanced) {st' : Store} {key : RedisModuleString}
    (hkey : ¬st.HoldsSet key) (hdel : st.dbDelete key = some st') :
    st'.Balanced ∧ st'.keyspace key = none := by
  have hother : ∀ ptr, st.keyspace key ≠ some (.module .llcaConc ptr) := fun ptr hk => hkey ⟨ptr, hk⟩
  unfold Store.dbDelete at hdel
  cases h.sound.keyState key with
  | absent hk =>
    rw [hk] at hdel
    cases hdel
    exact ⟨h, hk⟩
  | list ptr o hk hobj =>
    have hfree : st.freeValue (.module .llca ptr) = some (st.setObj ptr none) := by
      simp [freeValue, llcaAt, hobj]
    rw [hk] at hdel
    simp only [hfree, Option.map_some] at hdel
    cases hdel
    refine ⟨h.unbind (h.sound.setKey_setObj_none hk rfl).1 rfl fun p hp => ⟨?_, hother p⟩,
      Function.update_self ..⟩
    by_cases hpp : p = ptr
    · subst hpp
      simp [IsSetObject, setKey, setObj] at hp
    · simpa [IsSetObject, setKey, setObj, hpp] using hp
  | set ptr sl hk => exact absurd hk (hother ptr)
  | other v hk hv =>
    have hfree : st.freeValue v = some st := by
      unfold freeValue
      split <;> first | rfl | cases hv
    rw [hk] at hdel
    simp only [hfree, Option.map_some] at hdel
    cases hdel
    exact ⟨h.unbind (h.sound.setKey_none key) rfl fun p hp => ⟨hp, hother p⟩,
      Function.update_self ..⟩

lemma bindNative (h : st.Balanced) {key : RedisModuleString} (hk : st.keyspace key = none)
    (type : NativeType) (contents : Nat) :
    (st.setKey key (some (.native type contents))).Balanced where
  sound := h.sound.setKey_some (c := .other (.native type contents)) rfl nofun
  owned ptr hptr := by
    obtain ⟨key', hk'⟩ := h.owned ptr hptr
    have hne : key' ≠ key := by
      rintro rfl
      rw [hk] at hk'
      cases hk'
    exact ⟨key', by simpa [setKey, hne] using hk'⟩

end Balanced

end Store

lemma balanced_builtin {st st' : Store} (h : st.Balanced) {c : BuiltinCommand}
    (hkey : ¬st.HoldsSet c.key) (hst : State.builtinStore st c = some st') : st'.Balanced := by
  cases c with
  | del key => exact (h.dbDelete hkey hst).1
  | set key contents =>
    obtain ⟨st₁, hdel, rfl⟩ := Option.map_eq_some_iff.mp hst
    obtain ⟨h₁, hnone⟩ := h.dbDelete hkey hdel
    exact h₁.bindNative hnone .string contents

/-- What the destructor and `RedisModule_Free` may be called on: an object that stands, and one
whose destructor has run. -/
def Call.Finds : Call → Store → Prop
  | .destroyConc ll, st => st.concAt ll ≠ none
  | .free ptr, st => st.heap ptr = some .raw
  | _, _ => True

/-- Where an event of the given mode stands when it is through. -/
def EndsBalanced : Bool → Option Store → Prop
  | true => GivesBack Store.Balanced
  | false => (· = none)

section Events

variable {argv : List RedisModuleString} {threadSafe : Bool} {st : Store}

lemma balanced_lock (h : st.Balanced) {rest : RedisM Unit}
    (hrest : ∀ st : Store, st.Balanced →
      KeepsLock Store.Balanced Call.Finds argv (EndsBalanced threadSafe) (some st) rest) :
    KeepsLock Store.Balanced Call.Finds argv (EndsBalanced threadSafe)
      (if threadSafe then some st else none) (lockUnless threadSafe >>= fun _ => rest) := by
  cases threadSafe with
  | true => exact hrest st h
  | false => exact (Prog.monitors_acquire rfl).mpr fun st' h' _ => hrest st' h'

lemma balanced_unlock_reply (h : st.Balanced) (r : Reply) :
    KeepsLock Store.Balanced Call.Finds argv (EndsBalanced threadSafe) (some st)
      (unlockUnless threadSafe >>= fun _ => api (.reply r)) := by
  cases threadSafe with
  | true => exact Prog.monitors_answer () rfl trivial rfl ⟨st, rfl, h⟩
  | false =>
    refine (Prog.monitors_release rfl).mpr ⟨h, fun _ => ?_⟩
    exact Prog.monitors_outside rfl (fun _ => trivial) (fun _ _ _ h => by cases h; rfl) fun _ => rfl

lemma balanced_reply_unlock (h : st.Balanced) (r : Reply) :
    KeepsLock Store.Balanced Call.Finds argv (EndsBalanced threadSafe) (some st)
      (api (.reply r) >>= fun _ => unlockUnless threadSafe) := by
  cases threadSafe with
  | true => exact Prog.monitors_answer () rfl trivial rfl ⟨st, rfl, h⟩
  | false =>
    refine Prog.monitors_answer () rfl trivial rfl ?_
    exact (Prog.monitors_release rfl).mpr ⟨h, fun _ => rfl⟩

lemma balanced_refusal (h : st.Balanced) (r : Reply) :
    KeepsLock Store.Balanced Call.Finds argv (EndsBalanced threadSafe)
      (if threadSafe then some st else none) (api (.reply r)) := by
  cases threadSafe with
  | true => exact Prog.monitors_answer () rfl trivial rfl ⟨st, rfl, h⟩
  | false =>
    exact Prog.monitors_outside rfl (fun _ => trivial) (fun _ _ _ h => by cases h; rfl) fun _ => rfl

variable (threadSafe) in
lemma balanced_create (h : st.Balanced) : KeepsLock Store.Balanced Call.Finds argv
    (EndsBalanced threadSafe) (if threadSafe then some st else none)
    (llcaConcCreateEvent argv.length threadSafe) := by
  unfold llcaConcCreateEvent checkArity
  by_cases hlen : argv.length = 2
  · obtain ⟨name, key, rfl⟩ := List.length_eq_two.mp hlen
    refine balanced_lock h fun st h => ?_
    refine Prog.monitors_answer key rfl trivial rfl ?_
    refine Prog.monitors_answer ⟨key, st.keyspace key⟩ rfl trivial rfl ?_
    refine Prog.monitors_answer _ rfl trivial rfl ?_
    by_cases hk : st.keyspace key = none
    · have hempty : RedisModuleKey.keyType ⟨key, st.keyspace key⟩ = .empty :=
        (RedisModuleKey.keyType_eq_empty_iff _).mpr hk
      dsimp only [Prog.bind]
      rw [if_neg (not_not.mpr hempty)]
      -- the object is allocated, constructed and bound
      have hconstruct : Store.exec [name, key] (.constructConc st.next) (st.allocObj .raw) =
          some ((), st.allocObj (.llcaConc ∅)) := by
        simp [Store.exec, Store.setObj, Store.allocObj]
      have hover : (st.allocObj (.llcaConc ∅)).dbOverwrite key (.module .llcaConc st.next) =
          some ((st.allocObj (.llcaConc ∅)).setKey key (some (.module .llcaConc st.next))) :=
        Store.dbOverwrite_absent _ hk
      have hset : Store.exec [name, key]
          (.moduleTypeSetValue ⟨key, st.keyspace key⟩ .llcaConc st.next)
          (st.allocObj (.llcaConc ∅)) =
          some ((), (st.allocObj (.llcaConc ∅)).setKey key (some (.module .llcaConc st.next))) :=
        congrArg (Option.map fun st => ((), st)) hover
      refine Prog.monitors_answer st.next rfl trivial rfl ?_
      refine Prog.monitors_answer () rfl trivial hconstruct ?_
      exact Prog.monitors_answer () rfl trivial hset (balanced_unlock_reply (h.create hk) _)
    · have hne : RedisModuleKey.keyType ⟨key, st.keyspace key⟩ ≠ .empty :=
        mt (RedisModuleKey.keyType_eq_empty_iff _).mp hk
      dsimp only [Prog.bind]
      rw [if_pos hne]
      exact balanced_reply_unlock h _
  · rw [if_pos hlen]
    exact balanced_refusal h _

variable (threadSafe) in
lemma balanced_delete (h : st.Balanced) : KeepsLock Store.Balanced Call.Finds argv
    (EndsBalanced threadSafe) (if threadSafe then some st else none)
    (llcaConcDeleteEvent argv.length threadSafe) := by
  unfold llcaConcDeleteEvent checkArity
  by_cases hlen : argv.length = 2
  · obtain ⟨name, key, rfl⟩ := List.length_eq_two.mp hlen
    refine balanced_lock h fun st h => ?_
    refine Prog.monitors_answer key rfl trivial rfl ?_
    refine Prog.monitors_answer ⟨key, st.keyspace key⟩ rfl trivial rfl ?_
    refine Prog.monitors_answer _ rfl trivial rfl ?_
    dsimp only [Prog.bind]
    by_cases hempty : RedisModuleKey.keyType ⟨key, st.keyspace key⟩ = .empty
    · rw [if_pos hempty]
      exact balanced_reply_unlock h _
    · rw [if_neg hempty]
      refine Prog.monitors_answer _ rfl trivial rfl ?_
      dsimp only [Prog.bind]
      by_cases hset : RedisModuleKey.moduleType ⟨key, st.keyspace key⟩ = some .llcaConc
      · obtain ⟨ptr, hk⟩ := (RedisModuleKey.moduleType_eq_some_iff _ _).mp hset
        dsimp only at hk
        obtain ⟨sl, hsl, _⟩ := h.sound.conc_of_content hk
        rw [if_neg (not_not.mpr hset)]
        have hvalue : Store.exec [name, key] (.moduleTypeGetValue ⟨key, st.keyspace key⟩) st =
            some (ptr, st) := by simp [Store.exec, RedisModuleKey.moduleValue, hk]
        have hconc : st.concAt ptr = some sl := by simp [Store.concAt, hsl]
        have hdestroy : Store.exec [name, key] (.destroyConc ptr) st =
            some ((), st.setObj ptr (some .raw)) := by simp [Store.exec, hconc]
        have hraw : (st.setObj ptr (some .raw)).heap ptr = some .raw := by simp [Store.setObj]
        have hfree : Store.exec [name, key] (.free ptr) (st.setObj ptr (some .raw)) =
            some ((), st.setObj ptr none) := by simp [Store.exec, Store.setObj]
        -- llca_conc_free is called on the object that is gone, and does not look at it
        have hdelete : Store.exec [name, key] (.deleteKey ⟨key, st.keyspace key⟩)
            (st.setObj ptr none) = some ((), (st.setObj ptr none).setKey key none) := by
          simp [Store.exec, Store.dbDelete, Store.freeValue, Store.setObj, hk]
        refine Prog.monitors_answer ptr rfl trivial hvalue ?_
        refine Prog.monitors_answer () rfl (by simp [Call.Finds, hconc]) hdestroy ?_
        refine Prog.monitors_answer () rfl hraw hfree ?_
        exact Prog.monitors_answer () rfl trivial hdelete (balanced_unlock_reply (h.delete hk) _)
      · rw [if_pos hset]
        exact balanced_reply_unlock h _
  · rw [if_pos hlen]
    exact balanced_refusal h _

end Events

/-- The commands that create and delete sets. -/
def EventType.OnSetKey (type : EventType) : Prop := type = .llcaConcCreate ∨ type = .llcaConcDelete

lemma guarded_setKey [StringToLongLong] :
    Guarded Store.Balanced Call.Finds fun _ type _ => type.OnSetKey := by
  intro type argv
  constructor
  · rintro (rfl | rfl) st h
    · exact balanced_create true h
    · exact balanced_delete true h
  · rintro (rfl | rfl)
    · exact balanced_create false Store.Balanced.of_empty
    · exact balanced_delete false Store.Balanced.of_empty

section Runs

variable {n : Nat}

def Label.OnSetKeys : Label n → Prop := Label.Issues fun _ type _ => type.OnSetKey

/-- The command of Redis itself that a step carries out. -/
def State.builtin? (s : State n) : Label n → Option BuiltinCommand
  | .step .main =>
    match s.procs .main with
    | .builtin c => some c
    | _ => none
  | _ => none

/-- Redis itself does not remove or replace a set. -/
def State.SparesSets (s : State n) (l : Label n) : Prop :=
  ∀ c ∈ s.builtin? l, ¬s.redis.store.HoldsSet c.key

/-- What an object is destroyed or freed by finds it standing, and once all is quiet there are as
many objects as keys that hold a set. -/
structure SetsBalance (s : State n) : Prop where
  finds : ∀ l, ∀ c ∈ s.call? l, c.Finds s.redis.store
  count : s.Quiescent →
    {ptr | s.redis.store.IsSetObject ptr}.encard = {key | s.redis.store.HoldsSet key}.encard

lemma Monitored.setsBalance {s : State n} (h : Monitored Store.Balanced Call.Finds s) :
    SetsBalance s where
  finds l c hc := by
    have hcall : ∀ t, (s.procs t).call? = some c → ∃ e k, s.procs t = .execute e (.call c k) := by
      intro t ht
      unfold Proc.call? at ht
      split at ht
      · rename_i e c' k hproc
        cases ht
        exact ⟨e, k, hproc⟩
      · cases ht
    by_cases huse : c.use = .keep
    · match l, hc with
      | .step .main, hc =>
        obtain ⟨e, k, hproc⟩ := hcall .main hc
        exact Prog.Monitors.next_safe huse (h.main e _ hproc) (by simp)
      | .step (.worker w), hc =>
        obtain ⟨e, k, hproc⟩ := hcall (.worker w) hc
        exact Prog.Monitors.next_safe huse (h.worker w e _ hproc) (by split <;> simp)
    · cases c
      case destroyConc | free => exact absurd rfl huse
      all_goals trivial
  count hq := by
    have hidle : ∀ t e rest, s.procs t ≠ .execute e rest := fun t e rest => by rw [hq.2 t]; nofun
    exact (h.rest (hidle .main) fun w => h.free w (hidle (.worker w))).encard_eq

theorem set_objects_balance [StringToLongLong] {st : Store} (hst : st.Balanced)
    {ls : List (Label n)} {s : State n}
    (hrun : Runs State.step (fun s l => l.OnSetKeys ∧ s.SparesSets l) (State.init n st) ls s) :
    SetsBalance s := by
  have hinv := State.run_invariant
    (I := fun s => s.Carries (fun _ _ type _ => type.OnSetKey) ∧ MainLock s ∧
      Monitored Store.Balanced Call.Finds s)
    ⟨State.carries_init st, .init st, .init hst⟩ ?_ hrun
  · exact hinv.2.2.2.setsBalance
  · rintro s l s' _ ⟨hcarries, hmain, h⟩ hl hs
    refine ⟨hcarries.issued hl.1 hs, hmain.step hs,
      h.step guarded_setKey hmain hcarries hl.1 (fun c st hstep hproc hst hbal => ?_) hs⟩
    subst hstep
    exact balanced_builtin hbal (hl.2 c (by simp [State.builtin?, hproc])) hst

end Runs

instance (type : EventType) : Decidable type.OnSetKey := inferInstanceAs (Decidable (_ ∨ _))

instance {n : Nat} : (l : Label n) → Decidable l.OnSetKeys
  | .command name _ => inferInstanceAs (Decidable name.event.OnSetKey)
  | .redis _ => isTrue trivial
  | .step _ => isTrue trivial

instance (st : Store) (key : RedisModuleString) : Decidable (st.HoldsSet key) :=
  decidable_of_iff (RedisModuleKey.moduleType ⟨key, st.keyspace key⟩ = some .llcaConc)
    (RedisModuleKey.moduleType_eq_some_iff _ _)

instance {n : Nat} (s : State n) (l : Label n) : Decidable (s.SparesSets l) :=
  inferInstanceAs (Decidable (∀ c ∈ s.builtin? l, ¬s.redis.store.HoldsSet c.key))

/-- A set that is created and deleted, another one that stays, and a string that replaces none. -/
theorem set_objects_balance_two : ∃ s : State 1, s.Quiescent ∧ s.redis.store.HoldsSet "k" ∧
    {ptr | s.redis.store.IsSetObject ptr}.encard = {key | s.redis.store.HoldsSet key}.encard := by
  let _ := decimalStrings
  let labels : List (Label 1) :=
    .command .llcaSeqCreate ["llca_seq.create", "j"] :: Label.turn .main 8 ++
    Label.queue .llcaConcCreate ["llca_conc.create", "k"] ++
    Label.queue .llcaConcDelete ["llca_conc.delete", "j"] ++ Label.turn (.worker 0) 26 ++
    .redis (.set "j" 0) :: Label.turn .main 1
  obtain ⟨s, hrun, hs⟩ : ∃ s, Runs State.step (fun s l => l.OnSetKeys ∧ s.SparesSets l)
      (State.init 1 .empty) labels s ∧
      decide (s.Quiescent ∧ s.redis.store.HoldsSet "k") = true :=
    Runs.exists_of_guarded _ (by decide +kernel)
  obtain ⟨hq, hk⟩ := of_decide_eq_true hs
  exact ⟨s, hq, hk, (set_objects_balance Store.Balanced.of_empty hrun).count hq⟩

/-- `DEL` of a set leaves its object behind. -/
theorem set_objects_leak : ¬∀ (n : Nat) (st : Store) (ls : List (Label n)) (s : State n),
    st.Balanced → Runs (@State.step n decimalStrings) (labelled Label.OnSetKeys)
      (State.init n st) ls s → SetsBalance s := by
  let _ := decimalStrings
  intro hall
  let labels : List (Label 1) := .command .llcaSeqCreate ["llca_seq.create", "k"] ::
    Label.turn .main 8 ++ .redis (.del "k") :: Label.turn .main 1
  let s := (follow State.step (State.init 1 .empty) labels).get (by decide +kernel)
  have hrun : Runs State.step anyStep (State.init 1 .empty) labels s :=
    .of_follow (Option.some_get _).symm
  have hlabels : ∀ l ∈ labels, l.OnSetKeys := by decide
  have hq : s.Quiescent := by decide +kernel
  have hobj : s.redis.store.heap 1 = some (.llcaConc ∅) := by decide +kernel
  have hkeys : s.redis.store.keyspace = Function.update
      (Function.update Store.empty.keyspace "k" (some (.module .llcaConc 1))) "k" none := rfl
  have hcount := (hall 1 .empty labels s Store.Balanced.of_empty (hrun.labelled_of hlabels)).count hq
  have hnone : {key | s.redis.store.HoldsSet key} = ∅ := by
    ext key
    simp only [Store.HoldsSet, hkeys, Set.mem_empty_iff_false, iff_false]
    rintro ⟨ptr, hk⟩
    by_cases hkey : key = "k" <;> simp [hkey, Store.empty] at hk
  rw [hnone, Set.encard_empty, Set.encard_eq_zero] at hcount
  have hmem : 1 ∈ {ptr | s.redis.store.IsSetObject ptr} := .inr ⟨∅, hobj⟩
  rw [hcount] at hmem
  exact hmem

end RedPar
