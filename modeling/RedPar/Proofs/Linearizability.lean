import RedPar.Proofs.CommandSpec
import RedPar.Proofs.Interleaving

/-!
# Linearizability of the skip-list commands

Without deletions a bound key stays bound, so a command that has found its key absent, of another
type, or taken by another creator has its effect there; the others have it at their operation on
the set, and a creator at the binding of its set.
-/

namespace RedPar
open Interleaved

def EventType.KeepsKeys : EventType → Prop
  | .llcaConcCreate | .llcaConcRemove | .llcaConcContains | .llcaConcInsert => True
  | _ => False

section Views

variable [StringToLongLong]

/-- The keyspace and all replies are observed. -/
def setView : View Reply Keyspace where
  abs := Store.content
  obs := id
  spec := EventType.spec
  excl := True
  allowed _ _ := True

variable {n : Nat} {t : Thread n} {type : EventType} {name key arg : RedisModuleString}
  {s : Shared (Thread n)}

lemma spec_of_three (h : type.arity = 3) (κ : Keyspace) :
    type.spec [name, key, arg] κ =
      ((type.keySpec (StringToLongLong.parse arg) (κ key)).1,
        Function.update κ key (type.keySpec (StringToLongLong.parse arg) (κ key)).2) := by
  simp [EventType.spec, EventType.value, h]

section Create

variable {threadSafe : Bool}

/-- The creator has found the key absent and holds the lock. -/
lemma keeps_bind (hlock : s.2 = some t) (hk : s.1.keyspace key = none) {k : RedisM Unit}
    (h : ∀ s₁ : Shared (Thread n), s₁.1.Sound → s₁.2 = some t →
      setView.Keeps t .llcaConcCreate [name, key] (.done (.simpleString "OK"), none) k s₁) :
    setView.Keeps t .llcaConcCreate [name, key] (.todo, none) (do
      let ll ← alloc
      constructConc ll
      moduleTypeSetValue ⟨key, none⟩ .llcaConc ll
      k) s := by
  refine .fresh .raw id (by rintro s r s' ⟨⟩; exact ⟨rfl, rfl⟩) rfl
    (fun st hst => hst.content_allocObj .raw) fun s₁ hs₁ => ?_
  have hlock₁ : s₁.2 = some t := hs₁.lock.mpr hlock
  have hk₁ : s₁.1.keyspace key = none := by rw [hs₁.bindings trivial hlock, hk]
  generalize hptr : s₁.1.next = ptr
  have hraw : (s₁.1.allocObj .raw).heap ptr = some .raw := by
    rw [← hptr]
    simp [Store.allocObj]
  refine View.Keeps.construct hraw (fun st obj hunbound =>
    Store.content_setObj_unbound obj hunbound) fun s₂ hs₂ => ?_
  have hlock₂ : s₂.2 = some t := hs₂.lock.mpr hlock₁
  have hk₂ : s₂.1.keyspace key = none := by
    rw [hs₂.bindings trivial hlock₁]
    exact hk₁
  refine View.Keeps.bindKey (c := .set ∅) rfl ?_ (fun s₃ hs₃ _ => ?_) (fun _ => hlock₂) ?_
  · simp [Value.content, Store.setObj]
  · rw [hs₃.bindings trivial hlock₂]
    exact hk₂
  intro s₃ hs₃ habsent st _ hsound hcontent
  refine ⟨.done (.simpleString "OK"), .effect_of ?_, h _ hsound (hs₃.lock.mpr hlock₂)⟩
  have hnone : s₃.1.content key = none := by simp [Store.content, habsent]
  simp only [setView, hcontent]
  simp [EventType.spec, EventType.arity, EventType.keySpec, hnone]

/-- The creation under the lock; `created` and `failed` are what comes after it. -/
lemma keeps_locked (hlock : s.2 = some t) {created failed : RedisM Unit}
    (hcreated : ∀ s₁ : Shared (Thread n), s₁.1.Sound → s₁.2 = some t → setView.Keeps t
      .llcaConcCreate [name, key] (.done (.simpleString "OK"), none) created s₁)
    (hfailed : ∀ s₁ : Shared (Thread n), s₁.1.Sound → s₁.2 = some t → setView.Keeps t
      .llcaConcCreate [name, key] (.replied, none) failed s₁) :
    setView.Keeps t .llcaConcCreate [name, key] (.todo, none) (do
      let kp ← openKey (← argvAt 1)
      let type ← keyType kp
      if type = .empty then do
        let ll ← alloc
        constructConc ll
        moduleTypeSetValue kp .llcaConc ll
        created
      else do
        replyWithSimpleString "ERR: key already exists"
        failed) s := by
  simp only [Prog.lift_bind_eq]
  refine View.Keeps.arg rfl fun s₁ hs₁ => ?_
  refine View.Keeps.openKey fun s₂ hs₂ => ?_
  have hlock₂ : s₂.2 = some t := hs₂.lock.mpr (hs₁.lock.mpr hlock)
  cases hk : s₂.1.keyspace key with
  | none =>
    refine ⟨.todo, .stay _ _, ?_⟩
    refine View.Keeps.read .empty (by rintro s r s' ⟨⟩; exact ⟨rfl, rfl⟩) rfl fun s₃ hs₃ => ?_
    rw [if_pos rfl]
    refine keeps_bind (hs₃.lock.mpr hlock₂) ?_ hcreated
    rw [hs₃.bindings trivial hlock₂]
    exact hk
  | some v =>
    obtain ⟨c, hc⟩ := hs₂.sound.typed key v hk
    have hcontent : s₂.1.content key = some c := by rw [Store.content_of_keyspace hk, hc]
    refine ⟨.done (.simpleString "ERR: key already exists"), .effect_of ?_, ?_⟩
    · have hupdate := Function.update_eq_self key s₂.1.content
      rw [hcontent] at hupdate
      simp [EventType.spec, EventType.arity, EventType.keySpec, setView, hcontent, hupdate]
    refine View.Keeps.read (RedisModuleKey.keyType ⟨key, some v⟩)
      (by rintro s r s' ⟨⟩; exact ⟨rfl, rfl⟩) rfl fun s₃ hs₃ => ?_
    rw [if_neg (RedisModuleKey.keyType_other key v)]
    refine View.Keeps.reply (r := .simpleString "ERR: key already exists") fun s₄ hs₄ => ?_
    exact hfailed s₄ hs₄.sound (hs₄.lock.mpr (hs₃.lock.mpr hlock₂))

lemma keeps_create (h : View.Starts t threadSafe s) :
    setView.Keeps t .llcaConcCreate [name, key] (.todo, none)
      (llcaConcCreateEvent 2 threadSafe) s := by
  unfold llcaConcCreateEvent checkArity lockUnless unlockUnless
  cases threadSafe with
  | false =>
    simp only [ne_eq, not_true_eq_false, ↓reduceIte, Prog.pure_eq, Bool.false_eq_true,
      Prog.lift_bind_eq, ite_not, Prog.pure_bind_eq]
    refine View.Keeps.lock fun s₁ hs₁ _ => ?_
    refine keeps_locked rfl (fun s₂ _ _ => ?_) fun s₂ _ _ => ?_
    · refine View.Keeps.unlock fun s₃ hs₃ => ?_
      exact View.Keeps.reply fun s₄ hs₄ => View.Keeps.done rfl fun _ hheld => by
        cases hs₄.lock.mp hheld
    · exact View.Keeps.unlock fun s₃ hs₃ => View.Keeps.done rfl fun _ => nofun
  | true =>
    obtain ⟨_, hmain, hlock⟩ := h
    simp only [ne_eq, not_true_eq_false, ↓reduceIte, Prog.pure_eq, Prog.lift_bind_eq,
      Prog.pure_bind_eq, ite_not]
    refine keeps_locked hlock (fun s₁ hsound hlock₁ => ?_) fun s₁ hsound hlock₁ => ?_
    · exact View.Keeps.reply fun s₂ hs₂ => View.Keeps.done rfl (absurd hmain)
    · exact View.Keeps.done rfl (absurd hmain)

end Create

omit [StringToLongLong] in
lemma Store.setObj_concAt {st : Store} {ptr : Ptr} {sl : LlcaConcObj} (h : st.concAt ptr = some sl) :
    st.setObj ptr (some (.llcaConc sl)) = st := by
  unfold concAt at h
  split at h
  · rename_i sl' hobj
    cases h
    rw [setObj, ← hobj, Function.update_eq_self]
  · cases h

section SetEvents

lemma keeps_operation {c : Call} (found : c.Res → Bool) (f : LlcaConcObj → Bool × LlcaConcObj)
    {failure : String} {argv : List RedisModuleString} {ptr : Ptr}
    (hk : s.1.keyspace key = some (.module .llcaConc ptr)) (hreply : c.reply? = none)
    (hexec : ∀ s₁ r s₂ sl, s₁.1.concAt ptr = some sl → Shared.exec t argv c s₁ = some (r, s₂) →
      found r = (f sl).1 ∧ s₂ = (s₁.1.setObj ptr (some (.llcaConc (f sl).2)), s₁.2))
    (hspec : ∀ (κ : Keyspace) sl, κ key = some (.set sl) → type.spec argv κ =
      (.simpleString (if (f sl).1 then "OK" else failure),
        Function.update κ key (some (.set (f sl).2))))
    (hfree : t ≠ .main → s.2 ≠ some t) :
    setView.Keeps t type argv (.todo, none) (.call c fun r =>
      if found r then replyWithSimpleString "OK" else replyWithSimpleString failure) s := by
  intro s₁ hs₁ _ r s₂ hcall
  have hk₁ := hs₁.keys key _ hk
  obtain ⟨sl, hobj, hcontent⟩ := hs₁.sound.conc_of_content hk₁
  obtain ⟨hfound, rfl⟩ := hexec s₁ r s₂ sl (by simp [Store.concAt, hobj]) hcall
  have hc : (Value.module .llcaConc ptr).content (Function.update s₁.1.heap ptr
      (some (.llcaConc (f sl).2))) = some (.set (f sl).2) := by
    simp [Value.content]
  have heffect := hspec s₁.1.content sl hcontent
  rw [← hs₁.sound.content_setObj hk₁ rfl hc] at heffect
  refine ⟨(.done (.simpleString (if (f sl).1 then "OK" else failure)), none),
    ⟨.write_bound hs₁.sound hk₁ rfl hc rfl, by rw [hreply]; exact .effect_of heffect⟩, ?_⟩
  have hdone : ∀ s₃ : Shared (Thread n), Rely setView.excl t none
      (s₁.1.setObj ptr (some (.llcaConc (f sl).2)), s₁.2) s₃ → t ≠ .main → s₃.2 ≠ some t :=
    fun s₃ hs₃ hne hheld => hfree hne (hs₁.lock.mp (hs₃.lock.mp hheld))
  simp only [hfound]
  cases (f sl).1 with
  | true => exact View.Keeps.reply fun s₃ hs₃ => View.Keeps.done rfl (hdone s₃ hs₃)
  | false => exact View.Keeps.reply fun s₃ hs₃ => View.Keeps.done rfl (hdone s₃ hs₃)

/-- An event on the values of a set, up to its operation. -/
lemma keeps_setEvent {op : Ptr → Int64 → RedisM Bool} {failure : String} {threadSafe : Bool}
    {onSet : Int64 → LlcaConcObj → Bool × LlcaConcObj} (harity : type.arity = 3)
    (hspec : type.keySpec = EventType.concSetSpec onSet failure)
    (hfree : t ≠ .main → s.2 ≠ some t)
    (hop : ∀ ptr v (s₁ : Shared (Thread n)), StringToLongLong.parse arg = some v →
      s₁.1.keyspace key = some (.module .llcaConc ptr) → (t ≠ .main → s₁.2 ≠ some t) →
      setView.Keeps t type [name, key, arg] (.todo, none) (do
        if ← op ptr v then replyWithSimpleString "OK" else replyWithSimpleString failure) s₁) :
    setView.Keeps t type [name, key, arg] (.todo, none)
      (llcaConcSetEvent op failure 3 threadSafe) s := by
  have hκ : ∀ κ : Keyspace, type.spec [name, key, arg] κ =
      ((EventType.concSetSpec onSet failure (StringToLongLong.parse arg) (κ key)).1,
        Function.update κ key
          (EventType.concSetSpec onSet failure (StringToLongLong.parse arg) (κ key)).2) := by
    intro κ
    rw [← hspec]
    exact spec_of_three harity κ
  unfold llcaConcSetEvent checkArity stringToLonglong lookupKey wrongType
  simp only [ne_eq, not_true_eq_false, ↓reduceIte, Prog.pure_eq, Prog.pure_bind_eq,
    Prog.lift_bind_eq]
  refine View.Keeps.arg rfl fun s₁ hs₁ => ?_
  have hfree₁ : t ≠ .main → s₁.2 ≠ some t := fun hne hheld => hfree hne (hs₁.lock.mp hheld)
  cases hp : StringToLongLong.parse arg with
  | none =>
    refine View.Keeps.refuse (fun κ => ?_) fun s₂ hs₂ =>
      View.Keeps.done rfl fun hne hheld => hfree₁ hne (hs₂.lock.mp hheld)
    simp [setView, hκ, hp, EventType.concSetSpec]
  | some v =>
    refine View.Keeps.arg rfl fun s₂ hs₂ => ?_
    refine View.Keeps.openKey fun s₃ hs₃ => ?_
    have hfree₃ : t ≠ .main → s₃.2 ≠ some t :=
      fun hne hheld => hfree₁ hne (hs₂.lock.mp (hs₃.lock.mp hheld))
    have hsame := Function.update_eq_self key s₃.1.content
    cases hs₃.sound.keyState key with
    | absent hk hc =>
      rw [hc] at hsame
      refine ⟨.done (.error "ERR: no list exists for that key"), .effect_of ?_, ?_⟩
      · simp [setView, hκ, hp, EventType.concSetSpec, hc, hsame]
      rw [hk]
      refine View.Keeps.keyType fun s₄ hs₄ => ?_
      refine View.Keeps.reply (r := .error "ERR: no list exists for that key") fun s₅ hs₅ => ?_
      exact View.Keeps.done rfl fun hne hheld =>
        hfree₃ hne (hs₄.lock.mp (hs₅.lock.mp hheld))
    | list ptr o hk hobj hc =>
      rw [hc] at hsame
      refine ⟨.done (.error REDISMODULE_ERRORMSG_WRONGTYPE), .effect_of ?_, ?_⟩
      · simp [setView, hκ, hp, EventType.concSetSpec, hc, hsame]
      rw [hk]
      refine View.Keeps.keyType fun s₄ hs₄ => ?_
      refine View.Keeps.moduleType fun s₅ hs₅ => ?_
      refine View.Keeps.reply (r := .error REDISMODULE_ERRORMSG_WRONGTYPE) fun s₆ hs₆ => ?_
      exact View.Keeps.done rfl fun hne hheld =>
        hfree₃ hne (hs₄.lock.mp (hs₅.lock.mp (hs₆.lock.mp hheld)))
    | set ptr sl hk hobj hc =>
      have hne : ptr ≠ nullptr := hs₃.sound.ne_null (by simp [hobj])
      refine ⟨.todo, .stay _ _, ?_⟩
      rw [hk]
      refine View.Keeps.keyType fun s₄ hs₄ => ?_
      refine View.Keeps.moduleType fun s₅ hs₅ => ?_
      refine View.Keeps.moduleValue fun s₆ hs₆ => ?_
      change setView.Keeps t type _ _ (if ptr = nullptr then .pure () else _) s₆
      rw [if_neg hne]
      refine hop ptr v s₆ hp (hs₆.keys _ _ (hs₅.keys _ _ (hs₄.keys _ _ hk))) fun hne hheld => ?_
      exact hfree₃ hne (hs₄.lock.mp (hs₅.lock.mp (hs₆.lock.mp hheld)))
    | other w hk hw hc =>
      rw [hc] at hsame
      refine ⟨.done (.error REDISMODULE_ERRORMSG_WRONGTYPE), .effect_of ?_, ?_⟩
      · simp [setView, hκ, hp, EventType.concSetSpec, hc, hsame]
      rw [hk]
      refine View.Keeps.keyType fun s₄ hs₄ => ?_
      simp only [RedisModuleKey.keyType_other, ↓reduceIte, decide_not, Prog.call_bind_eq,
        Prog.pure_bind_eq, Bool.not_eq_eq_eq_not, Bool.not_true, decide_eq_false_iff_not, ite_not]
      refine View.Keeps.moduleType fun s₅ hs₅ => ?_
      simp only [(RedisModuleKey.moduleType_other hw key).2, ↓reduceIte]
      refine View.Keeps.reply (r := .error REDISMODULE_ERRORMSG_WRONGTYPE) fun s₆ hs₆ => ?_
      exact View.Keeps.done rfl fun hne hheld =>
        hfree₃ hne (hs₄.lock.mp (hs₅.lock.mp (hs₆.lock.mp hheld)))

end SetEvents

theorem setView_covers : setView.Covers fun _ type _ => type.KeepsKeys := by
  intro n t threadSafe type argv s hkeeps hstarts
  have hfree : t ≠ .main → s.2 ≠ some t := by
    intro hne
    cases threadSafe with
    | false => exact hstarts.2.2
    | true => exact absurd hstarts.2.1 hne
  by_cases hlen : argv.length = type.arity
  · cases type with
    | llcaConcCreate =>
      obtain ⟨name, key, rfl⟩ := List.length_eq_two.mp hlen
      exact keeps_create hstarts
    | llcaConcRemove =>
      obtain ⟨name, key, arg, rfl⟩ := List.length_eq_three.mp hlen
      refine keeps_setEvent rfl rfl hfree fun ptr v s₁ hp hk hfree₁ => ?_
      refine keeps_operation (c := .slErase ptr v) id (fun sl => (decide (v ∈ sl), sl.erase v)) hk rfl
        (fun s₂ r s₃ sl hsl hcall => ?_) (fun κ sl hc => ?_) hfree₁
      · simpa [Shared.exec, Call.lockStep, Store.exec, hsl, eq_comm, Prod.ext_iff] using hcall
      · rw [spec_of_three rfl]
        simp [EventType.keySpec, hp, EventType.concSetSpec, hc]
    | llcaConcContains =>
      obtain ⟨name, key, arg, rfl⟩ := List.length_eq_three.mp hlen
      refine keeps_setEvent rfl rfl hfree fun ptr v s₁ hp hk hfree₁ => ?_
      refine keeps_operation (c := .slContains ptr v) id (fun sl => (decide (v ∈ sl), sl)) hk rfl
        (fun s₂ r s₃ sl hsl hcall => ?_) (fun κ sl hc => ?_) hfree₁
      · simpa [Shared.exec, Call.lockStep, Store.exec, hsl, Store.setObj_concAt hsl, eq_comm,
          Prod.ext_iff] using hcall
      · rw [spec_of_three rfl]
        simp [EventType.keySpec, hp, EventType.concSetSpec, hc]
    | llcaConcInsert =>
      obtain ⟨name, key, arg, rfl⟩ := List.length_eq_three.mp hlen
      refine keeps_setEvent rfl rfl hfree fun ptr v s₁ hp hk hfree₁ => ?_
      refine keeps_operation (c := .slInsert ptr v) id (fun sl => (decide (v ∉ sl), insert v sl)) hk
        rfl
        (fun s₂ r s₃ sl hsl hcall => ?_) (fun κ sl hc => ?_) hfree₁
      · simpa [Shared.exec, Call.lockStep, Store.exec, hsl, eq_comm, Prod.ext_iff] using hcall
      · rw [spec_of_three rfl]
        simp [EventType.keySpec, hp, EventType.concSetSpec, hc]
    | _ => cases hkeeps
  · have hspec : ∀ κ, setView.spec type argv κ = (type.arityReply, κ) :=
      EventType.spec_of_arity hlen
    have hdone : ∀ s₁, Rely setView.excl t none s s₁ →
        setView.Keeps t type argv (.replied, none) (.pure ()) s₁ := fun s₁ hs₁ =>
      View.Keeps.done rfl fun hne hheld => hfree hne (hs₁.lock.mp hheld)
    cases type with
    | llcaConcCreate | llcaConcRemove | llcaConcContains | llcaConcInsert =>
      simp only [EventType.arity] at hlen
      simp only [EventType.execute, llcaConcCreateEvent, llcaConcRemoveEvent, llcaConcContainsEvent,
        llcaConcInsertEvent, llcaConcSetEvent, checkArity, ne_eq, hlen, not_false_eq_true,
        ↓reduceIte, Prog.pure_eq, Prog.lift_bind_eq, ite_not, Prog.call_bind_eq,
        Prog.pure_bind_eq, Bool.false_eq_true]
      exact View.Keeps.refuse hspec hdone
    | _ => cases hkeeps

def Label.KeepsKeys : Label n → Prop
  | .command name _ => name.event.KeepsKeys
  | .redis _ => False
  | .step _ => True

/-- In every run, the commands that have taken effect form a sequential run from the initial
keyspace to the present one, in which a command that was answered before another one was accepted
comes first. The results are the replies: every command that has been executed is in the order and
answered, and once nothing is queued or executing, all answers have been sent. -/
theorem skip_list_linearizable {st : Store} (hst : st.Sound) {ls : List (Label n)} {s : State n}
    (hrun : Runs State.step (labelled Label.KeepsKeys) (State.init n st) ls s) :
    ∃ order : List (Invocation × Reply),
      Linearizes Invocation.id (fun c => c.name.event.spec c.argv) st.content
        (actions id s.redis.history) s.redis.store.content order ∧
      (∀ x ∈ order, repliesTo s.redis.history x.1.id = [x.2] ∨
        repliesTo s.redis.history x.1.id = [] ∧ ¬s.Drained) ∧
      ∀ id, .executed id ∈ s.redis.history →
        ∃ x ∈ order, x.1.id = id ∧ repliesTo s.redis.history id = [x.2] := by
  have hallows : ∀ (s : State n) (l : Label n), labelled Label.KeepsKeys s l →
      setView.Allows (fun _ type _ => type.KeepsKeys) s l := by
    intro s l hl
    cases l with
    | command name argv => exact ⟨hl, nofun, fun _ _ _ _ h => nomatch h⟩
    | redis c => cases hl
    | step t => exact ⟨trivial, nofun, fun _ _ _ _ _ _ => trivial⟩
  obtain ⟨order, h⟩ := View.linearized setView_covers hst hallows hrun
  refine ⟨order, h.linearizes, fun x hx => ?_, fun i hi => ?_⟩
  · have hreplies := h.replies x hx
    rwa [show setView.obs = id from rfl, List.map_id] at hreplies
  · obtain ⟨x, hx, hkey, hreplies⟩ := h.executed i hi
    rw [show setView.obs = id from rfl, List.map_id] at hreplies
    exact ⟨x, hx, hkey, hreplies⟩

end Views

/-- A direct lookup that overtakes a queued insertion. -/
theorem skip_list_linearizable_lookup : ∃ s : State 2, s.Drained ∧
    repliesTo s.redis.history 2 = [.simpleString "ERR: value does not exist"] ∧
    ∃ order : List (Invocation × Reply),
      Linearizes Invocation.id (fun c => @EventType.spec decimalStrings c.name.event c.argv)
        Store.empty.content (actions id s.redis.history) s.redis.store.content order ∧
      (∀ x ∈ order, repliesTo s.redis.history x.1.id = [x.2] ∨
        repliesTo s.redis.history x.1.id = [] ∧ ¬s.Drained) ∧
      ∀ id, .executed id ∈ s.redis.history →
        ∃ x ∈ order, x.1.id = id ∧ repliesTo s.redis.history id = [x.2] := by
  let _ := decimalStrings
  let labels : List (Label 2) := Label.queue .llcaConcCreate ["llca_conc.create", "k"] ++
    Label.queue .llcaConcInsert ["llca_conc.insert", "k", "5"] ++
    Label.turn (.worker 0) 12 ++ Label.turn (.worker 1) 5 ++
    .command .llcaSeqContains ["llca_seq.contains", "k", "5"] :: Label.turn .main 9 ++
    Label.turn (.worker 1) 6
  obtain ⟨s, hrun, hs⟩ : ∃ s, Runs State.step anyStep (State.init 2 .empty) labels s ∧
      decide (s.Quiescent ∧ repliesTo s.redis.history 2 =
        [.simpleString "ERR: value does not exist"]) = true :=
    Runs.exists_of_follow _ (by decide +kernel)
  obtain ⟨hq, hreply⟩ := of_decide_eq_true hs
  have hlabels : ∀ l ∈ labels, l.KeepsKeys := by
    simp only [labels, List.forall_mem_append, List.forall_mem_cons, Label.forall_mem_queue]
    refine ⟨⟨⟨⟨⟨⟨trivial, trivial⟩, trivial, trivial⟩, ?_⟩, ?_⟩, trivial, ?_⟩, ?_⟩
    all_goals exact Label.forall_mem_turn trivial
  exact ⟨s, hq.drained, hreply,
    skip_list_linearizable Store.sound_empty (hrun.labelled_of hlabels)⟩

end RedPar
