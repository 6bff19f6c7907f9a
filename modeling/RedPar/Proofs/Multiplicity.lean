import RedPar.Proofs.CommandSpec
import RedPar.Proofs.Interleaving

/-!
# Acknowledged updates of lists

As long as no command binds its new list to a key that has been bound in the meantime, lists are
never replaced, and every update acts on the list that its key holds. The values of a list then
balance with the updates that were answered "success".
-/

namespace RedPar
open Interleaved

/-- The values of the lists; a key that is absent counts as an empty list. -/
abbrev Bags := RedisModuleString → Option (Multiset Int64)

def Content.bag : Option Content → Option (Multiset Int64)
  | none => some 0
  | some (.list o) => some o.values
  | some _ => none

/-- How often `v` is in the list of a key. -/
def Store.multiplicity (st : Store) (key : RedisModuleString) (v : Int64) : Nat :=
  match st.content key with
  | some (.list o) => o.values.count v
  | _ => 0

def Call.setKey? : Call → Option RedisModuleString
  | .moduleTypeSetValue kp _ _ => some kp.name
  | _ => none

/-- A key whose value is set is still absent. -/
def Call.BindsAbsent (c : Call) (st : Store) : Prop := ∀ key ∈ c.setKey?, st.keyspace key = none

section Views

variable [StringToLongLong]

def EventType.bagSpec (type : EventType) (argv : List RedisModuleString) (β : Bags) :
    Bool × Bags :=
  match argv with
  | [_, key, arg] =>
    match StringToLongLong.parse arg, β key with
    | some v, some m => ((type.onBag v m).1, Function.update β key (some (type.onBag v m).2))
    | _, _ => (false, β)
  | _ => (false, β)

/-- The values of the lists and the replies "success" are observed. -/
def bagView : View Bool Bags where
  abs st := fun key => Content.bag (st.content key)
  obs r := decide (r = .string "success")
  spec := EventType.bagSpec
  excl := False
  allowed := Call.BindsAbsent

variable {n : Nat} {t : Thread n} {type : EventType} {name key arg : RedisModuleString}
  {s : Shared (Thread n)}

lemma bagSpec_of_bag (type : EventType) (name : RedisModuleString) {v : Int64}
    {m : Multiset Int64} {β : Bags} (hp : StringToLongLong.parse arg = some v) (hm : β key = some m) :
    type.bagSpec [name, key, arg] β =
      ((type.onBag v m).1, Function.update β key (some (type.onBag v m).2)) := by
  simp [EventType.bagSpec, hp, hm]

lemma bagSpec_cases (type : EventType) (argv : List RedisModuleString) (β : Bags) :
    type.bagSpec argv β = (false, β) ∨ ∃ name key arg v m, argv = [name, key, arg] ∧
      StringToLongLong.parse arg = some v ∧ β key = some m ∧
      type.bagSpec argv β = ((type.onBag v m).1, Function.update β key (some (type.onBag v m).2)) := by
  unfold EventType.bagSpec
  split
  · rename_i name key arg
    split
    · rename_i v m hp hm
      exact .inr ⟨name, key, arg, v, m, rfl, hp, hm, rfl⟩
    · exact .inl rfl
  · exact .inl rfl

omit [StringToLongLong] in
lemma Store.setObj_llcaAt {st : Store} {ptr : Ptr} {o : LlcaObj} (h : st.llcaAt ptr = some o) :
    st.setObj ptr (some (.llca o)) = st := by
  unfold llcaAt at h
  split at h
  · rename_i o' hobj
    cases h
    rw [setObj, ← hobj, Function.update_eq_self]
  · cases h

lemma bags_setObj {st : Store} (hst : st.Sound) {ptr : Ptr} (o : LlcaObj)
    (hk : st.keyspace key = some (.module .llca ptr)) :
    bagView.abs (st.setObj ptr (some (.llca o))) =
      Function.update (bagView.abs st) key (some o.values) := by
  have hc : (Value.module .llca ptr).content (Function.update st.heap ptr (some (.llca o))) =
      some (.list o) := by
    simp [Value.content]
  funext name
  unfold bagView
  simp only [hst.content_setObj hk rfl hc]
  by_cases hname : name = key
  · subst hname
    simp [Content.bag]
  · simp [hname]

lemma keeps_answer {str : RedisModuleString} {b : Bool} (hb : bagView.obs (.string str) = b)
    (hfree : s.2 ≠ some t) (argv : List RedisModuleString) :
    bagView.Keeps t type argv (.done b, none) (replyWithString str) s := by
  subst hb
  exact View.Keeps.reply fun s₁ hs₁ => View.Keeps.done rfl fun _ hheld =>
    hfree (hs₁.lock.mp hheld)

/-- The call on the list of the key, and what comes after it. -/
lemma keeps_update {c : Call} {k : c.Res → RedisM Unit} {v : Int64} {ptr : Ptr}
    (f : LlcaObj → LlcaObj) (hp : StringToLongLong.parse arg = some v)
    (hk : s.1.keyspace key = some (.module .llca ptr)) (hreply : c.reply? = none)
    (hf : ∀ o, (f o).values = (type.onBag v o.values).2) (hfree : s.2 ≠ some t)
    (hexec : ∀ s₁ r s₂ o, s₁.1.llcaAt ptr = some o →
      Shared.exec t [name, key, arg] c s₁ = some (r, s₂) →
      s₂ = (s₁.1.setObj ptr (some (.llca (f o))), s₁.2) ∧ ∀ s₃ : Shared (Thread n), s₃.2 ≠ some t →
        bagView.Keeps t type [name, key, arg] (.done (type.onBag v o.values).1, none) (k r) s₃) :
    bagView.Keeps t type [name, key, arg] (.todo, none) (.call c k) s := by
  intro s₁ hs₁ _ r s₂ hcall
  have hk₁ := hs₁.keys key _ hk
  obtain ⟨o, hobj, hcontent⟩ := hs₁.sound.llca_of_content hk₁
  obtain ⟨rfl, hrest⟩ := hexec s₁ r s₂ o (by simp [Store.llcaAt, hobj]) hcall
  have hc : (Value.module .llca ptr).content (Function.update s₁.1.heap ptr
      (some (.llca (f o)))) = some (.list (f o)) := by
    simp [Value.content]
  have hbag : bagView.abs s₁.1 key = some o.values := by
    simp [bagView, hcontent, Content.bag]
  have heffect := bagSpec_of_bag type name hp hbag
  rw [← hf, ← bags_setObj hs₁.sound (f o) hk₁] at heffect
  refine ⟨(.done (type.onBag v o.values).1, none),
    ⟨.write_bound hs₁.sound hk₁ rfl hc rfl, ?_⟩, hrest _ ?_⟩
  · rw [hreply]
    exact .effect_of heffect
  · exact fun hheld => hfree (hs₁.lock.mp hheld)

lemma keeps_insertLLCA {v : Int64} {ptr : Ptr} (hp : StringToLongLong.parse arg = some v)
    (hk : s.1.keyspace key = some (.module .llca ptr)) (hfree : s.2 ≠ some t) :
    bagView.Keeps t .llcaInsert [name, key, arg] (.todo, none) (do
      insertLLCA ptr v
      replyWithString "success") s := by
  refine keeps_update (llcaInsert · v) hp hk rfl (fun o => llcaInsert_values o v) hfree
    fun s₁ r s₂ o ho hcall => ⟨?_, fun s₃ hfree₃ => keeps_answer rfl hfree₃ _⟩
  simpa [Shared.exec, Call.lockStep, Store.exec, ho, eq_comm] using hcall

lemma keeps_removeLLCA {v : Int64} {ptr : Ptr} (hp : StringToLongLong.parse arg = some v)
    (hk : s.1.keyspace key = some (.module .llca ptr)) (hfree : s.2 ≠ some t) :
    bagView.Keeps t .llcaRemove [name, key, arg] (.todo, none) ((do
      if ← removeLLCA ptr v then return createString "success" 7
      else return createString "failure" 7) >>= replyWithString) s := by
  refine keeps_update (fun o => (llcaRemove o v).2) hp hk rfl (fun o => ?_) hfree
    fun s₁ r s₂ o ho hcall => ?_
  · rw [llcaRemove_eq]
    rfl
  · obtain ⟨hr, hs₂⟩ : (llcaRemove o v).1 = r ∧
        (s₁.1.setObj ptr (some (.llca (llcaRemove o v).2)), s₁.2) = s₂ := by
      simpa [Shared.exec, Call.lockStep, Store.exec, ho, Prod.ext_iff] using hcall
    refine ⟨hs₂.symm, fun s₃ hfree₃ => ?_⟩
    have hanswer : (EventType.onBag v o.values .llcaRemove).1 = r := by
      rw [← hr, llcaRemove_eq]
      rfl
    rw [hanswer]
    cases r with
    | true => exact keeps_answer rfl hfree₃ _
    | false => exact keeps_answer rfl hfree₃ _

lemma keeps_containsLLCA {v : Int64} {ptr : Ptr} (hp : StringToLongLong.parse arg = some v)
    (hk : s.1.keyspace key = some (.module .llca ptr)) (hfree : s.2 ≠ some t) :
    bagView.Keeps t .llcaContains [name, key, arg] (.todo, none) ((do
      if ← containsLLCA ptr v then return createString "value present" 13
      else return createString "value not present" 17) >>= replyWithString) s := by
  refine keeps_update id hp hk rfl (fun o => rfl) hfree fun s₁ r s₂ o ho hcall => ?_
  obtain ⟨_, rfl⟩ : llcaContains o v = r ∧ s₁ = s₂ := by
    simpa [Shared.exec, Call.lockStep, Store.exec, ho] using hcall
  refine ⟨by simp [Store.setObj_llcaAt ho], fun s₃ hfree₃ => ?_⟩
  cases r with
  | true => exact keeps_answer rfl hfree₃ _
  | false => exact keeps_answer rfl hfree₃ _

/-- A new list is bound to the key, if it is still absent. -/
lemma keeps_create_insert {v : Int64} (hp : StringToLongLong.parse arg = some v)
    (hfree : s.2 ≠ some t) :
    bagView.Keeps t .llcaInsert [name, key, arg] (.todo, none) (do
      let ll ← newLLCAObject
      moduleTypeSetValue ⟨key, none⟩ .llca ll
      insertLLCA ll v
      replyWithString "success") s := by
  refine .fresh (.llca createLLCAObject) id (by rintro s r s' ⟨⟩; exact ⟨rfl, rfl⟩) rfl
    (fun st hst => ?_) fun s₁ hs₁ => ?_
  · funext name
    simp only [bagView, hst.content_allocObj]
  have hfree₁ : s₁.2 ≠ some t := fun hheld => hfree (hs₁.lock.mp hheld)
  generalize hptr : s₁.1.next = ptr
  have hobj : (s₁.1.allocObj (.llca createLLCAObject)).heap ptr = some (.llca createLLCAObject) := by
    rw [← hptr]
    simp [Store.allocObj]
  refine View.Keeps.bindKey (c := .list createLLCAObject) rfl ?_ (fun s₂ hs₂ hallowed => hallowed key rfl)
    (fun hexcl => hexcl.elim) ?_
  · simp [Value.content, hobj]
  intro s₂ hs₂ habsent st hst hsound hcontent
  have habs : bagView.abs st = bagView.abs s₂.1 := by
    funext name
    simp only [bagView, hcontent]
    by_cases hname : name = key
    · subst hname
      simp [Store.content, habsent, Content.bag, LlcaObj.values, createLLCAObject]
    · simp [hname]
  refine ⟨.todo, by rw [habs]; exact .stay _ _, ?_⟩
  refine keeps_insertLLCA hp ?_ fun hheld => hfree₁ (hs₂.lock.mp hheld)
  rw [hst]
  simp [Store.setKey]

lemma bagSpec_of_not_list (name arg : RedisModuleString) {st : Store} {c : Content} (hc : st.content key = some c)
    (hlist : ∀ o, c ≠ .list o) :
    type.bagSpec [name, key, arg] (bagView.abs st) = (false, bagView.abs st) := by
  cases c with
  | list o => exact absurd rfl (hlist o)
  | set _ | other _ =>
    simp only [EventType.bagSpec, bagView, hc, Content.bag]
    cases StringToLongLong.parse arg <;> rfl

lemma bagSpec_of_absent {v : Int64} (htype : type.onBag v 0 = (false, 0)) {st : Store}
    (hp : StringToLongLong.parse arg = some v) (hc : st.content key = none) :
    type.bagSpec [name, key, arg] (bagView.abs st) = (false, bagView.abs st) := by
  have hbag : bagView.abs st key = some 0 := by simp [bagView, hc, Content.bag]
  rw [bagSpec_of_bag _ _ hp hbag, htype, ← hbag, Function.update_eq_self]

/-- What the three commands do with their third argument. -/
def llcaParsed (body : RedisModuleKey → KeyType → Int64 → RedisM RedisModuleString)
    (kp : RedisModuleKey) (type : KeyType) (arg : RedisModuleString) : RedisM RedisModuleString :=
  match StringToLongLong.parse arg with
  | none => return createString "wrong int type" 14
  | some value => body kp type value

/-- What the three commands do once they have opened their key. -/
def llcaOpened (body : RedisModuleKey → KeyType → Int64 → RedisM RedisModuleString)
    (kp : RedisModuleKey) : RedisM RedisModuleString := do
  threadSafeContextUnlock
  let type ← keyType kp
  if ← wrongType kp type .llca then return createString "wrong type" 10
  else llcaParsed body kp type (← argvAt 2)

section Opened

variable {body : RedisModuleKey → KeyType → Int64 → RedisM RedisModuleString}

lemma keeps_opened_otherType {w : Value}
    (hw : RedisModuleKey.moduleType ⟨key, some w⟩ ≠ some .llca) (argv : List RedisModuleString) :
    bagView.Keeps t type argv (.done false, none)
      (llcaOpened body ⟨key, some w⟩ >>= replyWithString) s := by
  simp only [llcaOpened, wrongType, Prog.lift_bind_eq, Prog.call_bind_eq]
  refine View.Keeps.unlock fun s₁ hs₁ => ?_
  refine View.Keeps.keyType fun s₂ hs₂ => ?_
  simp only [RedisModuleKey.keyType_other, ↓reduceIte, Prog.call_bind_eq]
  refine View.Keeps.moduleType fun s₃ hs₃ => ?_
  simp only [decide_eq_true hw, Prog.pure_eq, Prog.pure_bind_eq, ↓reduceIte]
  refine keeps_answer rfl (fun hheld => ?_) argv
  cases hs₂.lock.mp (hs₃.lock.mp hheld)

lemma keeps_opened_absent {q : Status Bool}
    (h : ∀ s₁ : Shared (Thread n), s₁.2 ≠ some t → bagView.Keeps t type [name, key, arg] (q, none)
      (llcaParsed body ⟨key, none⟩ .empty arg >>= replyWithString) s₁) :
    bagView.Keeps t type [name, key, arg] (q, none)
      (llcaOpened body ⟨key, none⟩ >>= replyWithString) s := by
  unfold llcaOpened wrongType
  refine View.Keeps.unlock fun s₁ hs₁ => ?_
  refine View.Keeps.keyType fun s₂ hs₂ => ?_
  refine View.Keeps.arg rfl fun s₃ hs₃ => ?_
  refine h s₃ fun hheld => ?_
  cases hs₂.lock.mp (hs₃.lock.mp hheld)

lemma keeps_opened_list {ptr : Ptr} (hk : s.1.keyspace key = some (.module .llca ptr))
    (h : ∀ s₁ : Shared (Thread n), s₁.1.keyspace key = some (.module .llca ptr) → s₁.2 ≠ some t →
      bagView.Keeps t type [name, key, arg] (.todo, none)
        (llcaParsed body ⟨key, some (.module .llca ptr)⟩ .module arg >>= replyWithString) s₁) :
    bagView.Keeps t type [name, key, arg] (.todo, none)
      (llcaOpened body ⟨key, some (.module .llca ptr)⟩ >>= replyWithString) s := by
  unfold llcaOpened wrongType
  refine View.Keeps.unlock fun s₁ hs₁ => ?_
  refine View.Keeps.keyType fun s₂ hs₂ => ?_
  refine View.Keeps.moduleType fun s₃ hs₃ => ?_
  refine View.Keeps.arg rfl fun s₄ hs₄ => ?_
  refine h s₄ ?_ fun hheld => ?_
  · exact hs₄.keys _ _ (hs₃.keys _ _ (hs₂.keys _ _ (hs₁.keys _ _ hk)))
  · cases hs₂.lock.mp (hs₃.lock.mp (hs₄.lock.mp hheld))

/-- The three commands, up to the state of the key. -/
lemma keeps_llcaRedisCommand
    (hlist : ∀ v ptr (s₁ : Shared (Thread n)), StringToLongLong.parse arg = some v →
      s₁.1.keyspace key = some (.module .llca ptr) → s₁.2 ≠ some t →
      bagView.Keeps t type [name, key, arg] (.todo, none)
        (body ⟨key, some (.module .llca ptr)⟩ .module v >>= replyWithString) s₁)
    (habsent : ∀ v, StringToLongLong.parse arg = some v → ∃ q : Status Bool,
      (∀ st : Store, st.content key = none → Status.Step (type.bagSpec [name, key, arg]) .todo
        (bagView.abs st) none q (bagView.abs st)) ∧
      ∀ s₁ : Shared (Thread n), s₁.2 ≠ some t → bagView.Keeps t type [name, key, arg] (q, none)
        (body ⟨key, none⟩ .empty v >>= replyWithString) s₁) :
    bagView.Keeps t type [name, key, arg] (.todo, none)
      (llcaEvent (llcaRedisCommand body) 3) s := by
  change bagView.Keeps t type [name, key, arg] (.todo, none) (do
    autoMemory
    threadSafeContextLock
    let kp ← openKey (← argvAt 1)
    llcaOpened body kp >>= replyWithString) s
  refine View.Keeps.read (c := .autoMemory) () (by rintro s r s' ⟨⟩; exact ⟨rfl, rfl⟩) rfl
    fun s₁ hs₁ => ?_
  refine View.Keeps.lock fun s₂ hs₂ _ => ?_
  refine View.Keeps.arg rfl fun s₃ hs₃ => ?_
  refine View.Keeps.openKey fun s₄ hs₄ => ?_
  cases hs₄.sound.keyState key with
  | absent hk hc =>
    rw [hk]
    cases hp : StringToLongLong.parse arg with
    | none =>
      refine ⟨.todo, .stay _ _, keeps_opened_absent fun s₅ hfree => ?_⟩
      rw [llcaParsed, hp]
      refine View.Keeps.refuse (fun β => by simp [bagView, EventType.bagSpec, hp, createString])
        fun s₆ hs₆ => ?_
      exact View.Keeps.done rfl fun _ hheld => hfree (hs₆.lock.mp hheld)
    | some v =>
      obtain ⟨q, hstep, hbody⟩ := habsent v hp
      refine ⟨q, hstep _ hc, keeps_opened_absent fun s₅ hfree => ?_⟩
      rw [llcaParsed, hp]
      exact hbody s₅ hfree
  | list ptr o hk hobj hc =>
    refine ⟨.todo, .stay _ _, ?_⟩
    rw [hk]
    refine keeps_opened_list hk fun s₅ hk₅ hfree => ?_
    unfold llcaParsed
    cases hp : StringToLongLong.parse arg with
    | none =>
      refine View.Keeps.refuse (fun β => by simp [bagView, EventType.bagSpec, hp, createString])
        fun s₆ hs₆ => ?_
      exact View.Keeps.done rfl fun _ hheld => hfree (hs₆.lock.mp hheld)
    | some v => exact hlist v ptr s₅ hp hk₅ hfree
  | set ptr sl hk hobj hc =>
    refine ⟨.done false, .effect_of (bagSpec_of_not_list name arg hc (by simp)), ?_⟩
    rw [hk]
    exact keeps_opened_otherType (by simp [RedisModuleKey.moduleType]) _
  | other w hk hw hc =>
    refine ⟨.done false, .effect_of (bagSpec_of_not_list name arg hc (by simp)), ?_⟩
    rw [hk]
    exact keeps_opened_otherType (RedisModuleKey.moduleType_other hw key).1 _

end Opened

theorem bagView_covers : bagView.Covers fun threadSafe type _ => threadSafe = false ∧ type.OnList := by
  rintro n t threadSafe type argv s ⟨rfl, honList⟩ ⟨_, _, hfree⟩
  by_cases hlen : argv.length = 3
  · obtain ⟨name, key, arg, rfl⟩ := List.length_eq_three.mp hlen
    cases type with
    | llcaInsert =>
      refine keeps_llcaRedisCommand (fun v ptr s₁ hp hk hfree₁ => ?_) fun v hp =>
        ⟨.todo, fun _ _ => .stay _ _, fun s₁ hfree₁ => keeps_create_insert hp hfree₁⟩
      refine View.Keeps.moduleValue fun s₂ hs₂ => ?_
      exact keeps_insertLLCA hp (hs₂.keys _ _ hk) fun hheld => hfree₁ (hs₂.lock.mp hheld)
    | llcaRemove =>
      refine keeps_llcaRedisCommand (fun v ptr s₁ hp hk hfree₁ => ?_) fun v hp =>
        ⟨.done false, fun st hc => .effect_of ?_, fun s₁ hfree₁ => keeps_answer rfl hfree₁ _⟩
      · refine View.Keeps.moduleValue fun s₂ hs₂ => ?_
        exact keeps_removeLLCA hp (hs₂.keys _ _ hk) fun hheld => hfree₁ (hs₂.lock.mp hheld)
      · exact bagSpec_of_absent rfl hp hc
    | llcaContains =>
      refine keeps_llcaRedisCommand (fun v ptr s₁ hp hk hfree₁ => ?_) fun v hp =>
        ⟨.done false, fun st hc => .effect_of ?_, fun s₁ hfree₁ => keeps_answer rfl hfree₁ _⟩
      · refine View.Keeps.moduleValue fun s₂ hs₂ => ?_
        exact keeps_containsLLCA hp (hs₂.keys _ _ hk) fun hheld => hfree₁ (hs₂.lock.mp hheld)
      · exact bagSpec_of_absent rfl hp hc
    | _ => cases honList
  · have hspec : ∀ β, bagView.spec type argv β = (false, β) := by
      intro β
      simp only [bagView, EventType.bagSpec]
      split
      · exact absurd rfl hlen
      · rfl
    cases type with
    | llcaInsert | llcaRemove | llcaContains =>
      simp only [EventType.execute, llcaEvent, llcaInsertRedisCommand, llcaRemoveRedisCommand,
        llcaContainsRedisCommand, llcaRedisCommand, ne_eq, hlen, not_false_eq_true, ↓reduceIte,
        Prog.pure_eq, Prog.lift_bind_eq, Prog.call_bind_eq, Prog.pure_bind_eq]
      refine View.Keeps.read (c := .autoMemory) () (by rintro s r s' ⟨⟩; exact ⟨rfl, rfl⟩) rfl
        fun s₁ hs₁ => ?_
      refine View.Keeps.refuse hspec fun s₂ hs₂ => ?_
      exact View.Keeps.done rfl fun _ hheld => hfree (hs₁.lock.mp (hs₂.lock.mp hheld))
    | _ => cases honList

def Invocation.Updates (type : EventType) (key : RedisModuleString) (v : Int64)
    (c : Invocation) : Prop :=
  c.name.event = type ∧ c.argv[1]? = some key ∧ c.argv[2]?.bind StringToLongLong.parse = some v

instance (type : EventType) (key : RedisModuleString) (v : Int64) (c : Invocation) :
    Decidable (c.Updates type key v) :=
  inferInstanceAs (Decidable (_ ∧ _ ∧ _))

/-- The updates of `v` under a key that were answered "success". -/
def answered (type : EventType) (key : RedisModuleString) (v : Int64) (history : List Entry) : Nat :=
  (invocations history).countP fun c =>
    c.Updates type key v ∧ repliesTo history c.id = [.string "success"]

/-- The updates of `v` under a key that succeed in a sequential run. -/
def applied (type : EventType) (key : RedisModuleString) (v : Int64)
    (order : List (Invocation × Bool)) : Nat :=
  order.countP fun x => x.1.Updates type key v ∧ x.2 = true

omit [StringToLongLong] in
lemma count_onBag (type : EventType) (v w : Int64) (m : Multiset Int64) :
    (type.onBag w m).2.count v +
        (if type = .llcaRemove ∧ w = v ∧ (type.onBag w m).1 = true then 1 else 0) =
      m.count v + (if type = .llcaInsert ∧ w = v ∧ (type.onBag w m).1 = true then 1 else 0) := by
  cases type with
  | llcaInsert =>
    by_cases hw : w = v
    · simp [EventType.onBag, hw]
    · simp [EventType.onBag, hw, Multiset.count_cons_of_ne (Ne.symm hw)]
  | llcaRemove =>
    by_cases hw : w = v
    · subst hw
      by_cases hmem : w ∈ m
      · have hpos : 0 < m.count w := Multiset.count_pos.mpr hmem
        simp only [EventType.onBag, Multiset.count_erase_self]
        simp [hmem]
        omega
      · simp [EventType.onBag, hmem]
    · simp [EventType.onBag, hw, Multiset.count_erase_of_ne (Ne.symm hw)]
  | _ => simp [EventType.onBag]

lemma bag_count_step (key : RedisModuleString) (v : Int64) (c : Invocation) (β : Bags) :
    (((bagView.cmd c β).2 key).getD 0).count v +
        applied .llcaRemove key v [(c, (bagView.cmd c β).1)] =
      ((β key).getD 0).count v + applied .llcaInsert key v [(c, (bagView.cmd c β).1)] := by
  have hcmd : bagView.cmd c β = c.name.event.bagSpec c.argv β := rfl
  rw [hcmd]
  rcases bagSpec_cases c.name.event c.argv β with hnone | ⟨cmdname, key', arg, w, m, hargv, hp, hm, heq⟩
  · simp [hnone, applied]
  · rw [heq]
    by_cases hkey : key' = key
    · subst hkey
      simpa [applied, Invocation.Updates, hargv, hp, hm, and_assoc] using
        count_onBag c.name.event v w m
    · simp [applied, Invocation.Updates, hargv, hkey, Ne.symm hkey]

lemma bag_count_legal (key : RedisModuleString) (v : Int64) {β β' : Bags}
    {order : List (Invocation × Bool)} (h : Legal bagView.cmd β order β') :
    ((β' key).getD 0).count v + applied .llcaRemove key v order =
      ((β key).getD 0).count v + applied .llcaInsert key v order := by
  induction order generalizing β with
  | nil =>
    rw [h]
    rfl
  | cons x order ih =>
    obtain ⟨c, r⟩ := x
    obtain ⟨rfl, hrest⟩ := h
    have hstep := bag_count_step key v c β
    have hrun := ih hrest
    have hsplit : ∀ type, applied type key v ((c, (bagView.cmd c β).1) :: order) =
        applied type key v [(c, (bagView.cmd c β).1)] + applied type key v order := by
      intro type
      exact @List.countP_append _ _ [_] order
    rw [hsplit, hsplit]
    omega

/-- What succeeded in the order is what was answered "success". -/
lemma applied_eq_answered {st : Store} {s : State n} {order : List (Invocation × Bool)}
    (h : bagView.Linearization st s order) (hnum : s.Numbered) (hdrained : s.Drained)
    (type : EventType) (key : RedisModuleString) (v : Int64) :
    applied type key v order = answered type key v s.redis.history := by
  have hreplies : ∀ c, (c, true) ∈ order → repliesTo s.redis.history c.id = [.string "success"] := by
    intro c hc
    rcases h.replies _ hc with hreply | ⟨_, hbusy⟩
    · obtain ⟨r, hr, hobs⟩ := List.map_eq_singleton_iff.mp hreply
      rw [hr, of_decide_eq_true hobs]
    · exact absurd hdrained hbusy
  have hinv : ∀ x ∈ order, x.1 ∈ invocations s.redis.history := fun x hx =>
    mem_invocations_of_call (h.linearizes.called x hx)
  have horder : (order.map Prod.fst).Nodup := by
    refine List.Nodup.of_map Invocation.id ?_
    rw [List.map_map]
    exact h.linearizes.nodup
  have hperm : ((order.filter fun x => x.1.Updates type key v ∧ x.2 = true).map Prod.fst).Perm
      ((invocations s.redis.history).filter fun c =>
        c.Updates type key v ∧ repliesTo s.redis.history c.id = [.string "success"]) := by
    refine (List.perm_ext_iff_of_nodup (horder.sublist (List.filter_sublist.map _))
      (hnum.nodup.of_map.filter _)).mpr fun c => ?_
    simp only [List.mem_map, List.mem_filter, decide_eq_true_eq]
    constructor
    · rintro ⟨⟨c, r⟩, ⟨hmem, hupdates, rfl⟩, rfl⟩
      exact ⟨hinv _ hmem, hupdates, hreplies _ hmem⟩
    · rintro ⟨hmem, hupdates, hreply⟩
      have hret : .ret c.id true ∈ actions bagView.obs s.redis.history :=
        ret_mem_actions bagView.obs (r := .string "success") (by simp [hreply])
      obtain ⟨c', hid, hmem'⟩ := h.linearizes.returned _ _ hret
      have heq : c' = c := List.inj_on_of_nodup_map hnum.nodup (hinv _ hmem') hmem hid
      subst heq
      exact ⟨(c', true), ⟨hmem', hupdates, rfl⟩, rfl⟩
  unfold applied answered
  rw [List.countP_eq_length_filter, List.countP_eq_length_filter, ← hperm.length_eq, List.length_map]

omit [StringToLongLong] in
lemma multiplicity_eq (st : Store) (key : RedisModuleString) (v : Int64) :
    st.multiplicity key v = ((Content.bag (st.content key)).getD 0).count v := by
  unfold Store.multiplicity
  cases st.content key with
  | none => simp [Content.bag]
  | some c => cases c <;> simp [Content.bag]

def Label.OnLists : Label n → Prop
  | .command name _ => name.event.OnList
  | .redis _ => False
  | .step _ => True

/-- A step that sets the value of a key finds the key absent. -/
def State.BindsAbsent (s : State n) (l : Label n) : Prop :=
  ∀ c ∈ s.call? l, c.BindsAbsent s.redis.store

/-- Once nothing is queued or executing, what is in a list and what was taken from it add up to
what was there first and what was put in, counting the updates that were answered "success". -/
theorem acknowledged_updates_balance {st : Store} (hst : st.Sound) {ls : List (Label n)}
    {s : State n} (hrun : Runs State.step (fun s l => l.OnLists ∧ s.BindsAbsent l)
      (State.init n st) ls s) (hdrained : s.Drained) (key : RedisModuleString) (v : Int64) :
    s.redis.store.multiplicity key v + answered .llcaRemove key v s.redis.history =
      st.multiplicity key v + answered .llcaInsert key v s.redis.history := by
  have hallows : ∀ (s : State n) (l : Label n), l.OnLists ∧ s.BindsAbsent l →
      bagView.Allows (fun threadSafe type _ => threadSafe = false ∧ type.OnList) s l := by
    rintro s l ⟨hl, hbinds⟩
    cases l with
    | command name argv =>
      refine ⟨⟨?_, hl⟩, nofun, fun _ _ _ _ h => nomatch h⟩
      cases name with
      | llcaTypeInsert | llcaTypeRemove | llcaTypeContains => rfl
      | _ => cases hl
    | redis c => cases hl
    | step t =>
      refine ⟨trivial, nofun, fun t' e c k heq hproc => ?_⟩
      cases heq
      exact hbinds c (by simp [State.call?, hproc, Proc.call?])
  obtain ⟨order, h⟩ := View.linearized bagView_covers hst hallows hrun
  have hnum : s.Numbered := (State.run_invariant (State.numbered_init st)
    (fun _ _ _ _ hnum _ hs => hnum.step hs) hrun).2
  have hcount := bag_count_legal key v h.linearizes.legal
  rw [applied_eq_answered h hnum hdrained, applied_eq_answered h hnum hdrained] at hcount
  rw [multiplicity_eq, multiplicity_eq]
  exact hcount

end Views

instance : (l : Label n) → Decidable l.OnLists
  | .command name _ => inferInstanceAs (Decidable name.event.OnList)
  | .redis _ => isFalse id
  | .step _ => isTrue trivial

instance (s : State n) (l : Label n) : Decidable (s.BindsAbsent l) :=
  inferInstanceAs (Decidable (∀ c ∈ s.call? l, ∀ key ∈ c.setKey?, s.redis.store.keyspace key = none))

/-- Two first insertions under one key. -/
theorem acknowledged_updates_lost : ¬∀ (n : Nat) (st : Store) (ls : List (Label n)) (s : State n),
    st.Sound → Runs (@State.step n decimalStrings) (labelled Label.OnLists) (State.init n st) ls s →
    s.Drained → ∀ key v,
    s.redis.store.multiplicity key v + @answered decimalStrings .llcaRemove key v s.redis.history =
      st.multiplicity key v + @answered decimalStrings .llcaInsert key v s.redis.history := by
  let _ := decimalStrings
  intro hall
  let insert : List (Label 2) := Label.queue .llcaTypeInsert ["llca_type.insert", "k", "5"]
  let labels : List (Label 2) := insert ++ insert ++ Label.turn (.worker 0) 6 ++ Label.turn (.worker 1) 6 ++
    Label.turn (.worker 0) 8 ++ Label.turn (.worker 1) 8
  obtain ⟨s, hrun, hs⟩ : ∃ s, Runs State.step anyStep (State.init 2 .empty) labels s ∧
      decide (s.Quiescent ∧ s.redis.store.multiplicity "k" 5 = 1 ∧
        answered .llcaInsert "k" 5 s.redis.history = 2 ∧
        answered .llcaRemove "k" 5 s.redis.history = 0) = true :=
    Runs.exists_of_follow _ (by decide +kernel)
  obtain ⟨hq, hone, htwo, hzero⟩ := of_decide_eq_true hs
  have hlabels : ∀ l ∈ labels, l.OnLists := by decide
  have hbalance := hall 2 .empty labels s Store.sound_empty (hrun.labelled_of hlabels) hq.drained "k" 5
  have hempty : Store.empty.multiplicity "k" 5 = 0 := rfl
  omega

/-- A list that one worker creates, another one adds to and the first one takes from. -/
theorem acknowledged_updates_balance_two : ∃ s : State 2, s.Drained ∧
    @answered decimalStrings .llcaInsert "k" 5 s.redis.history = 2 ∧
    s.redis.store.multiplicity "k" 5 + @answered decimalStrings .llcaRemove "k" 5 s.redis.history =
      Store.empty.multiplicity "k" 5 + @answered decimalStrings .llcaInsert "k" 5 s.redis.history := by
  let _ := decimalStrings
  let insert : List (Label 2) := Label.queue .llcaTypeInsert ["llca_type.insert", "k", "5"]
  let remove : List (Label 2) := Label.queue .llcaTypeRemove ["llca_type.remove", "k", "5"]
  let labels : List (Label 2) := insert ++ insert ++ remove ++ Label.turn (.worker 0) 10 ++
    Label.turn (.worker 1) 10 ++ Label.turn (.worker 0) 18 ++ Label.turn (.worker 1) 4
  obtain ⟨s, hrun, hs⟩ : ∃ s, Runs State.step (fun s l => l.OnLists ∧ s.BindsAbsent l)
      (State.init 2 .empty) labels s ∧
      decide (s.Quiescent ∧ answered .llcaInsert "k" 5 s.redis.history = 2) = true :=
    Runs.exists_of_guarded _ (by decide +kernel)
  obtain ⟨hq, htwo⟩ := of_decide_eq_true hs
  exact ⟨s, hq.drained, htwo, acknowledged_updates_balance Store.sound_empty hrun hq.drained "k" 5⟩

end RedPar
