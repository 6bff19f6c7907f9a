import RedPar.Lib.Interference
import RedPar.Lib.Linearization
import RedPar.Proofs.History
import RedPar.Proofs.Keyspace
import RedPar.Proofs.LifeCycle
import RedPar.Proofs.LockDiscipline

/-!
# Threads under interference

A thread relies on the others to leave alone what it owns: the bindings of keys, objects that it
has allocated and not yet bound, and what the lock protects. `View` says what is observed of the
store and of the replies; `View.linearized` puts events that keep to it together to a
linearization of the whole run.
-/

namespace RedPar
open Interleaved

/-! ## What threads guarantee to each other -/

/-- An object that no key is bound to. -/
def Store.Private (st : Store) (ptr : Ptr) : Prop := st.heap ptr ≠ none ∧ st.Unbound ptr

/-- What the threads share: the store and the global lock. -/
abbrev Shared (T : Type) := Store × Option T

def Shared.exec {T : Type} [DecidableEq T] (t : T) (argv : List RedisModuleString) :
    Exec Call Call.Res (Shared T) := fun c s => do
  let lock ← c.lockStep t s.2
  let (res, store) ← s.1.exec argv c
  some (res, (store, lock))

section Conditions

variable {T : Type} (excl : Prop) (t : T)

/-- What thread `t` relies on. It owns the object `own`; with `excl`, keys are bound under the
lock only. -/
structure Rely (own : Option Ptr) (s s' : Shared T) : Prop where
  sound : s'.1.Sound
  keys : ∀ name v, s.1.keyspace name = some v → s'.1.keyspace name = some v
  lock : s'.2 = some t ↔ s.2 = some t
  bindings : excl → s.2 = some t → s'.1.keyspace = s.1.keyspace
  own : ∀ ptr, own = some ptr → s'.1.heap ptr = s.1.heap ptr ∧ s'.1.Private ptr

/-- What thread `t` guarantees. -/
structure Guarantee (own own' : Option Ptr) (s s' : Shared T) : Prop where
  sound : s'.1.Sound
  keys : ∀ name v, s.1.keyspace name = some v → s'.1.keyspace name = some v
  bindings : excl → s.2 ≠ some t → s'.1.keyspace = s.1.keyspace
  others : ∀ ptr, s.1.Private ptr → own ≠ some ptr →
    s'.1.heap ptr = s.1.heap ptr ∧ s'.1.Unbound ptr
  own : ∀ ptr, own' = some ptr → s'.1.Private ptr ∧ (own = some ptr ∨ s.1.heap ptr = none)

variable {excl t} {own own' : Option Ptr} {s s₁ s₂ : Shared T}

lemma Rely.trans (h : Rely excl t own s s₁) (h' : Rely excl t own s₁ s₂) :
    Rely excl t own s s₂ where
  sound := h'.sound
  keys name v hk := h'.keys name v (h.keys name v hk)
  lock := h'.lock.trans h.lock
  bindings hexcl hlock := (h'.bindings hexcl (h.lock.mpr hlock)).trans (h.bindings hexcl hlock)
  own ptr hptr := by
    obtain ⟨hheap, _⟩ := h.own ptr hptr
    obtain ⟨hheap', hprivate⟩ := h'.own ptr hptr
    exact ⟨hheap'.trans hheap, hprivate⟩

lemma Guarantee.rely {t' : T} (h : Guarantee excl t own own' s s₁) (ht : t' ≠ t)
    (hlock : s₁.2 = some t' ↔ s.2 = some t') {own₁ : Option Ptr}
    (hown : ∀ ptr, own₁ = some ptr → s.1.Private ptr ∧ own ≠ some ptr) :
    Rely excl t' own₁ s s₁ where
  sound := h.sound
  keys := h.keys
  lock := hlock
  bindings hexcl hheld := h.bindings hexcl (by rw [hheld]; simpa using ht)
  own ptr hptr := by
    obtain ⟨hprivate, hne⟩ := hown ptr hptr
    obtain ⟨hheap, hunbound⟩ := h.others ptr hprivate hne
    exact ⟨hheap, by rw [hheap]; exact hprivate.1, hunbound⟩

lemma Rely.of_store (hsound : s.1.Sound) (hstore : s₁.1 = s.1)
    (hlock : s₁.2 = some t ↔ s.2 = some t) (hown : ∀ ptr, own = some ptr → s.1.Private ptr) :
    Rely excl t own s s₁ where
  sound := hstore ▸ hsound
  keys name v hk := by rwa [hstore]
  lock := hlock
  bindings _ _ := by rw [hstore]
  own ptr hptr := by
    rw [hstore]
    exact ⟨rfl, hown ptr hptr⟩

lemma Guarantee.of_store (hsound : s.1.Sound) (hstore : s₁.1 = s.1)
    (hown : ∀ ptr, own = some ptr → s.1.Private ptr) : Guarantee excl t own own s s₁ where
  sound := hstore ▸ hsound
  keys name v hk := by rwa [hstore]
  bindings _ _ := by rw [hstore]
  others ptr hprivate _ := by
    rw [hstore]
    exact ⟨rfl, hprivate.2⟩
  own ptr hptr := by
    rw [hstore]
    exact ⟨hown ptr hptr, .inl hptr⟩

lemma Guarantee.alloc (hsound : s.1.Sound) (obj : Obj) (hstore : s₁.1 = s.1.allocObj obj) :
    Guarantee excl t none (some s.1.next) s s₁ where
  sound := hstore ▸ hsound.allocObj obj
  keys name v hk := by rwa [hstore]
  bindings _ _ := by rw [hstore]; rfl
  others ptr hprivate _ := by
    rw [hstore]
    have hne : ptr ≠ s.1.next := fun heq => hprivate.1 (heq ▸ hsound.fresh _ le_rfl)
    exact ⟨by simp [Store.allocObj, hne], hprivate.2⟩
  own ptr hptr := by
    cases hptr
    rw [hstore]
    exact ⟨⟨by simp [Store.allocObj], hsound.next_unbound⟩, .inr (hsound.fresh _ le_rfl)⟩

lemma Guarantee.write_own (hsound : s.1.Sound) {ptr : Ptr} (hptr : s.1.Private ptr) (obj : Obj)
    (hstore : s₁.1 = s.1.setObj ptr (some obj)) :
    Guarantee excl t (some ptr) (some ptr) s s₁ where
  sound := hstore ▸ hsound.setObj_unbound _ hptr.2 hptr.1
  keys name v hk := by rwa [hstore]
  bindings _ _ := by rw [hstore]; rfl
  others ptr' hprivate hne := by
    rw [hstore]
    have hne' : ptr' ≠ ptr := fun heq => hne (heq ▸ rfl)
    exact ⟨by simp [Store.setObj, hne'], hprivate.2⟩
  own ptr' heq := by
    cases heq
    rw [hstore]
    exact ⟨⟨by simp [Store.setObj], hptr.2⟩, .inl rfl⟩

/-- A thread that owns nothing writes to the object of a key. -/
lemma Guarantee.write_bound (hsound : s.1.Sound) {key : RedisModuleString} {v : Value} {ptr : Ptr}
    {obj : Obj} {c : Content} (hk : s.1.keyspace key = some v) (hptr : v.ptr? = some ptr)
    (hc : v.content (Function.update s.1.heap ptr (some obj)) = some c)
    (hstore : s₁.1 = s.1.setObj ptr (some obj)) : Guarantee excl t none none s s₁ where
  sound := hstore ▸ hsound.setObj hk hptr hc
  keys name v hk := by rwa [hstore]
  bindings _ _ := by rw [hstore]; rfl
  others ptr' hprivate _ := by
    rw [hstore]
    have hne : ptr' ≠ ptr := fun heq => hprivate.2 key v hk (heq ▸ hptr)
    exact ⟨by simp [Store.setObj, hne], hprivate.2⟩
  own _ h := nomatch h

lemma Guarantee.bind_own (hsound : s.1.Sound) {key : RedisModuleString} {v : Value} {ptr : Ptr}
    {c : Content} (hptr : v.ptr? = some ptr) (hunbound : s.1.Unbound ptr)
    (hc : v.content s.1.heap = some c) (hk : s.1.keyspace key = none)
    (hlock : excl → s.2 = some t) (hstore : s₁.1 = s.1.setKey key (some v)) :
    Guarantee excl t (some ptr) none s s₁ where
  sound := hstore ▸ hsound.setKey_some hc fun p hp => by
    cases hptr.symm.trans hp
    exact hunbound
  keys name v' hk' := by
    have hne : name ≠ key := by
      rintro rfl
      cases hk.symm.trans hk'
    rw [hstore]
    simpa [Store.setKey, hne] using hk'
  bindings hexcl hne := absurd (hlock hexcl) hne
  others ptr' hprivate hne := by
    rw [hstore]
    refine ⟨rfl, fun name v' hk' hp => ?_⟩
    by_cases hname : name = key
    · subst hname
      have heq : v = v' := by simpa [Store.setKey] using hk'
      rw [← heq, hptr] at hp
      exact hne hp
    · exact hprivate.2 name v' (by simpa [Store.setKey, hname] using hk') hp
  own _ h := nomatch h

end Conditions

/-! ## Views -/

/-- The part of an entry that a linearization is about. -/
def Entry.action? {ρ : Type} (obs : Reply → ρ) : Entry → Option (Action Invocation Nat ρ)
  | .invoke id name argv => some (.call ⟨id, name, argv⟩)
  | .reply client r => some (.ret client (obs r))
  | _ => none

def actions {ρ : Type} (obs : Reply → ρ) (history : List Entry) : List (Action Invocation Nat ρ) :=
  history.filterMap (Entry.action? obs)

lemma actions_append {ρ : Type} (obs : Reply → ρ) (h es : List Entry) :
    actions obs (h ++ es) = actions obs h ++ actions obs es := List.filterMap_append

lemma actions_sent {ρ : Type} (obs : Reply → ρ) {e : Event} (he : e.ctx = ⟨some e.id⟩) (c : Call) :
    actions obs (Redis.sent e c) = (c.reply?.map obs).toList.map (.ret e.id) := by
  rw [sent_eq he]
  cases c.reply? <;> rfl

lemma actions_released {ρ : Type} (obs : Reply → ρ) {n : Nat} {s : State n} {e : Event}
    (he : e.Queued) : actions obs (s.released e) = [] := by
  unfold State.released
  rw [he.destroy]
  split <;> rfl

lemma call_mem_actions {ρ : Type} (obs : Reply → ρ) {inv : Invocation} {history : List Entry}
    (h : inv ∈ invocations history) : .call inv ∈ actions obs history := by
  obtain ⟨entry, hmem, hentry⟩ := List.mem_filterMap.mp h
  refine List.mem_filterMap.mpr ⟨entry, hmem, ?_⟩
  cases entry <;> cases hentry
  rfl

lemma mem_invocations_of_call {ρ : Type} {obs : Reply → ρ} {inv : Invocation}
    {history : List Entry} (h : .call inv ∈ actions obs history) : inv ∈ invocations history := by
  obtain ⟨entry, hmem, hentry⟩ := List.mem_filterMap.mp h
  refine List.mem_filterMap.mpr ⟨entry, hmem, ?_⟩
  cases entry <;> cases hentry
  rfl

lemma ret_mem_actions {ρ : Type} (obs : Reply → ρ) {client : Nat} {r : Reply}
    {history : List Entry} (h : r ∈ repliesTo history client) :
    .ret client (obs r) ∈ actions obs history := by
  obtain ⟨entry, hmem, hentry⟩ := List.mem_filterMap.mp h
  refine List.mem_filterMap.mpr ⟨entry, hmem, ?_⟩
  cases entry with
  | reply c r' =>
    simp only [Entry.replyTo?, Option.ite_none_right_eq_some] at hentry
    obtain ⟨rfl, heq⟩ := hentry
    cases heq
    rfl
  | _ => cases hentry

/-- What is observed of stores and replies, with its specification. Keys are bound under the lock
if `excl`; calls are only made where they are `allowed`. -/
structure View (ρ σ : Type) where
  abs : Store → σ
  obs : Reply → ρ
  spec : EventType → List RedisModuleString → σ → ρ × σ
  excl : Prop
  allowed : Call → Store → Prop

namespace View

variable {ρ σ : Type} (V : View ρ σ) {n : Nat}

def cmd (c : Invocation) : σ → ρ × σ := V.spec c.name.event c.argv

/-- A call of an event: it guarantees what the others rely on, and the event's operation makes at
most a step. -/
def Move (t : Thread n) (type : EventType) (argv : List RedisModuleString)
    (g : Status ρ × Option Ptr) (c : Call) (s s' : Shared (Thread n))
    (g' : Status ρ × Option Ptr) : Prop :=
  Guarantee V.excl t g.2 g'.2 s s' ∧
    Status.Step (V.spec type argv) g.1 (V.abs s.1) (c.reply?.map V.obs) g'.1 (V.abs s'.1)

/-- At its end an event has replied, and its worker holds nothing. -/
def Final (t : Thread n) (_ : Unit) (g : Status ρ × Option Ptr) (s : Shared (Thread n)) : Prop :=
  g = (.replied, none) ∧ (t ≠ .main → s.2 ≠ some t)

/-- The rest of an event keeps to the view. -/
def Keeps (t : Thread n) (type : EventType) (argv : List RedisModuleString)
    (g : Status ρ × Option Ptr) (rest : RedisM Unit) (s : Shared (Thread n)) : Prop :=
  Prog.Keeps (Shared.exec t argv) (fun c s => V.allowed c s.1) (fun g => Rely V.excl t g.2)
    (V.Move t type argv) (Final t) g rest s

/-- Where an event may start: a direct one on the main thread with the lock, a queued one on a
worker without it. -/
def Starts (t : Thread n) (threadSafe : Bool) (s : Shared (Thread n)) : Prop :=
  s.1.Sound ∧ if threadSafe then t = .main ∧ s.2 = some t else t ≠ .main ∧ s.2 ≠ some t

/-- Events of this kind keep to the view. -/
def Covers [StringToLongLong] (good : Bool → EventType → List RedisModuleString → Prop) : Prop :=
  ∀ (n : Nat) (t : Thread n) threadSafe type argv s, good threadSafe type argv →
    Starts t threadSafe s →
    V.Keeps t type argv (.todo, none) (type.execute argv.length threadSafe) s

variable {V} {t : Thread n} {type : EventType} {argv : List RedisModuleString}
  {g : Status ρ × Option Ptr} {rest : RedisM Unit} {s s' : Shared (Thread n)}

lemma Keeps.stable (h : V.Keeps t type argv g rest s) (hrely : Rely V.excl t g.2 s s') :
    V.Keeps t type argv g rest s' :=
  Prog.Keeps.stable h hrely Rely.trans fun _ hfinal =>
    ⟨hfinal.1, fun hne hlock => hfinal.2 hne (hrely.lock.mp hlock)⟩

lemma Keeps.query {c : Call} {k : c.Res → RedisM Unit} (res : Store → c.Res)
    (hexec : ∀ s r s', Shared.exec t argv c s = some (r, s') → r = res s.1 ∧ s' = s)
    (h : ∀ s₁, Rely V.excl t g.2 s s₁ → ∃ q',
      Status.Step (V.spec type argv) g.1 (V.abs s₁.1) (c.reply?.map V.obs) q' (V.abs s₁.1) ∧
        V.Keeps t type argv (q', g.2) (k (res s₁.1)) s₁) :
    V.Keeps t type argv g (.call c k) s := by
  intro s₁ hs₁ _ r s₂ hcall
  obtain ⟨rfl, rfl⟩ := hexec s₁ r s₂ hcall
  obtain ⟨q', hstep, hrest⟩ := h s₂ hs₁
  exact ⟨(q', g.2), ⟨.of_store hs₁.sound rfl fun ptr hptr => (hs₁.own ptr hptr).2, hstep⟩, hrest⟩

lemma Keeps.read {c : Call} {k : c.Res → RedisM Unit} (res : c.Res)
    (hexec : ∀ s r s', Shared.exec t argv c s = some (r, s') → r = res ∧ s' = s)
    (hreply : c.reply? = none)
    (h : ∀ s₁, Rely V.excl t g.2 s s₁ → V.Keeps t type argv g (k res) s₁) :
    V.Keeps t type argv g (.call c k) s :=
  .query (fun _ => res) hexec fun s₁ hs₁ => ⟨g.1, by rw [hreply]; exact .stay _ _, h s₁ hs₁⟩

lemma Keeps.lock {k : Unit → RedisM Unit}
    (h : ∀ s₁, Rely V.excl t g.2 s s₁ → s₁.2 = none →
      V.Keeps t type argv g (k ()) (s₁.1, some t)) :
    V.Keeps t type argv g (.call .threadSafeContextLock k) s := by
  intro s₁ hs₁ _ r s₂ hcall
  by_cases hfree : s₁.2 = none
  · have hs₂ : s₂ = (s₁.1, some t) := by
      simpa [Shared.exec, Call.lockStep, Store.exec, hfree, eq_comm] using hcall
    subst hs₂
    exact ⟨g, ⟨.of_store hs₁.sound rfl fun ptr hptr => (hs₁.own ptr hptr).2, .stay _ _⟩,
      h s₁ hs₁ hfree⟩
  · simp [Shared.exec, Call.lockStep, hfree] at hcall

lemma Keeps.unlock {k : Unit → RedisM Unit}
    (h : ∀ s₁, Rely V.excl t g.2 s s₁ → V.Keeps t type argv g (k ()) (s₁.1, none)) :
    V.Keeps t type argv g (.call .threadSafeContextUnlock k) s := by
  intro s₁ hs₁ _ r s₂ hcall
  by_cases hheld : s₁.2 = some t
  · have hs₂ : s₂ = (s₁.1, none) := by
      simpa [Shared.exec, Call.lockStep, Store.exec, hheld, eq_comm] using hcall
    subst hs₂
    exact ⟨g, ⟨.of_store hs₁.sound rfl fun ptr hptr => (hs₁.own ptr hptr).2, .stay _ _⟩, h s₁ hs₁⟩
  · simp [Shared.exec, Call.lockStep, hheld] at hcall

lemma Keeps.arg {i : Nat} {arg : RedisModuleString} {k : RedisModuleString → RedisM Unit}
    (harg : argv[i]? = some arg)
    (h : ∀ s₁, Rely V.excl t g.2 s s₁ → V.Keeps t type argv g (k arg) s₁) :
    V.Keeps t type argv g (.call (.argv i) k) s := by
  refine .read (c := .argv i) arg (fun s r s' hcall => ?_) rfl h
  simpa [Shared.exec, Call.lockStep, Store.exec, harg, eq_comm, Prod.ext_iff] using hcall

/-- The key may be what decides the outcome. -/
lemma Keeps.openKey {key : RedisModuleString} {k : RedisModuleKey → RedisM Unit}
    (h : ∀ s₁, Rely V.excl t g.2 s s₁ → ∃ q',
      Status.Step (V.spec type argv) g.1 (V.abs s₁.1) none q' (V.abs s₁.1) ∧
        V.Keeps t type argv (q', g.2) (k ⟨key, s₁.1.keyspace key⟩) s₁) :
    V.Keeps t type argv g (.call (.openKey key) k) s :=
  .query (fun st => ⟨key, st.keyspace key⟩) (by rintro s r s' ⟨⟩; exact ⟨rfl, rfl⟩) h

lemma Keeps.keyType {kp : RedisModuleKey} {k : KeyType → RedisM Unit}
    (h : ∀ s₁, Rely V.excl t g.2 s s₁ → V.Keeps t type argv g (k kp.keyType) s₁) :
    V.Keeps t type argv g (.call (.keyType kp) k) s :=
  .read (c := .keyType kp) kp.keyType (by rintro s r s' ⟨⟩; exact ⟨rfl, rfl⟩) rfl h

lemma Keeps.moduleType {kp : RedisModuleKey} {k : Option RedisModuleType → RedisM Unit}
    (h : ∀ s₁, Rely V.excl t g.2 s s₁ → V.Keeps t type argv g (k kp.moduleType) s₁) :
    V.Keeps t type argv g (.call (.moduleTypeGetType kp) k) s :=
  .read (c := .moduleTypeGetType kp) kp.moduleType (by rintro s r s' ⟨⟩; exact ⟨rfl, rfl⟩) rfl h

lemma Keeps.moduleValue {kp : RedisModuleKey} {k : Ptr → RedisM Unit}
    (h : ∀ s₁, Rely V.excl t g.2 s s₁ → V.Keeps t type argv g (k kp.moduleValue) s₁) :
    V.Keeps t type argv g (.call (.moduleTypeGetValue kp) k) s :=
  .read (c := .moduleTypeGetValue kp) kp.moduleValue (by rintro s r s' ⟨⟩; exact ⟨rfl, rfl⟩) rfl h

lemma Keeps.reply {r : Reply} {k : Unit → RedisM Unit} {own : Option Ptr}
    (h : ∀ s₁, Rely V.excl t own s s₁ → V.Keeps t type argv (.replied, own) (k ()) s₁) :
    V.Keeps t type argv (.done (V.obs r), own) (.call (.reply r) k) s :=
  .query (fun _ => ()) (by rintro s r s' ⟨⟩; exact ⟨rfl, rfl⟩) fun s₁ hs₁ =>
    ⟨.replied, .ret _ _, h s₁ hs₁⟩

/-- The reply of an event that does not depend on the store. -/
lemma Keeps.refuse {r : Reply} {k : Unit → RedisM Unit} {own : Option Ptr}
    (hspec : ∀ κ, V.spec type argv κ = (V.obs r, κ))
    (h : ∀ s₁, Rely V.excl t own s s₁ → V.Keeps t type argv (.replied, own) (k ()) s₁) :
    V.Keeps t type argv (.todo, own) (.call (.reply r) k) s :=
  .query (fun _ => ()) (by rintro s r s' ⟨⟩; exact ⟨rfl, rfl⟩) fun s₁ hs₁ =>
    ⟨.replied, .effectRet_of (hspec _), h s₁ hs₁⟩

lemma Keeps.fresh {c : Call} {k : c.Res → RedisM Unit} {q : Status ρ} (obj : Obj)
    (res : Ptr → c.Res)
    (hexec : ∀ s r s', Shared.exec t argv c s = some (r, s') →
      r = res s.1.next ∧ s' = (s.1.allocObj obj, s.2))
    (hreply : c.reply? = none)
    (habs : ∀ st : Store, st.Sound → V.abs (st.allocObj obj) = V.abs st)
    (h : ∀ s₁, Rely V.excl t none s s₁ → V.Keeps t type argv (q, some s₁.1.next)
      (k (res s₁.1.next)) (s₁.1.allocObj obj, s₁.2)) :
    V.Keeps t type argv (q, none) (.call c k) s := by
  intro s₁ hs₁ _ r s₂ hcall
  obtain ⟨rfl, rfl⟩ := hexec s₁ r s₂ hcall
  refine ⟨(q, some s₁.1.next), ⟨.alloc hs₁.sound obj rfl, ?_⟩, h s₁ hs₁⟩
  rw [habs s₁.1 hs₁.sound, hreply]
  exact .stay q _

lemma Keeps.construct {ptr : Ptr} {k : Unit → RedisM Unit} {q : Status ρ}
    (hraw : s.1.heap ptr = some .raw)
    (habs : ∀ (st : Store) obj, st.Unbound ptr → V.abs (st.setObj ptr obj) = V.abs st)
    (h : ∀ s₁, Rely V.excl t (some ptr) s s₁ → V.Keeps t type argv (q, some ptr) (k ())
      (s₁.1.setObj ptr (some (.llcaConc ∅)), s₁.2)) :
    V.Keeps t type argv (q, some ptr) (.call (.constructConc ptr) k) s := by
  intro s₁ hs₁ _ _ s₂ hcall
  obtain ⟨hheap, hprivate⟩ := hs₁.own ptr rfl
  have hs₂ : s₂ = (s₁.1.setObj ptr (some (.llcaConc ∅)), s₁.2) := by
    simpa [Shared.exec, Call.lockStep, Store.exec, hheap, hraw, eq_comm] using hcall
  subst hs₂
  refine ⟨(q, some ptr), ⟨.write_own hs₁.sound hprivate _ rfl, ?_⟩, h s₁ hs₁⟩
  rw [habs s₁.1 _ hprivate.2]
  exact .stay q _

lemma Keeps.bindKey {kp : RedisModuleKey} {mt : RedisModuleType} {ptr : Ptr}
    {k : Unit → RedisM Unit} {q : Status ρ} {c : Content}
    (hptr : (Value.module mt ptr).ptr? = some ptr)
    (hc : (Value.module mt ptr).content s.1.heap = some c)
    (hk : ∀ s₁, Rely V.excl t (some ptr) s s₁ →
      V.allowed (.moduleTypeSetValue kp mt ptr) s₁.1 → s₁.1.keyspace kp.name = none)
    (hlock : V.excl → s.2 = some t)
    (h : ∀ s₁, Rely V.excl t (some ptr) s s₁ → s₁.1.keyspace kp.name = none → ∀ st : Store,
      st = s₁.1.setKey kp.name (some (.module mt ptr)) → st.Sound →
      st.content = Function.update s₁.1.content kp.name (some c) →
      ∃ q', Status.Step (V.spec type argv) q (V.abs s₁.1) none q' (V.abs st) ∧
        V.Keeps t type argv (q', none) (k ()) (st, s₁.2)) :
    V.Keeps t type argv (q, some ptr) (.call (.moduleTypeSetValue kp mt ptr) k) s := by
  intro s₁ hs₁ hallowed _ s₂ hcall
  have habsent := hk s₁ hs₁ hallowed
  obtain ⟨hheap, hprivate⟩ := hs₁.own ptr rfl
  have hc₁ : (Value.module mt ptr).content s₁.1.heap = some c := by
    rw [← hc]
    refine Value.content_congr fun p hp => ?_
    cases hptr.symm.trans hp
    exact hheap
  have hs₂ : s₂ = (s₁.1.setKey kp.name (some (.module mt ptr)), s₁.2) := by
    simpa [Shared.exec, Call.lockStep, Store.exec, Store.dbOverwrite_absent _ habsent, eq_comm]
      using hcall
  subst hs₂
  have hguar : Guarantee V.excl t (some ptr) none s₁
      (s₁.1.setKey kp.name (some (.module mt ptr)), s₁.2) :=
    .bind_own hs₁.sound hptr hprivate.2 hc₁ habsent (fun hexcl => hs₁.lock.mpr (hlock hexcl)) rfl
  have hcontent : (s₁.1.setKey kp.name (some (.module mt ptr))).content =
      Function.update s₁.1.content kp.name (some c) := by
    rw [Store.content_setKey, Option.bind_some, hc₁]
  obtain ⟨q', hstep, hrest⟩ := h s₁ hs₁ habsent _ rfl hguar.sound hcontent
  exact ⟨(q', none), ⟨hguar, hstep⟩, hrest⟩

lemma Keeps.done {own : Option Ptr} {a : Unit} (hown : own = none)
    (hlock : t ≠ .main → s.2 ≠ some t) : V.Keeps t type argv (.replied, own) (.pure a) s :=
  ⟨by rw [hown], hlock⟩

end View

/-! ## The events at hand -/

namespace State

variable {n : Nat} {s : State n} {stage : Nat → Stage n}

/-- The numbers of the events that have not begun to execute. -/
def waiting (s : State n) : List Nat :=
  s.queue.map Event.id ++ (s.procs .main).coming.map Event.id

lemma executing_stage (h : Tracks s stage) {t : Thread n} {e : Event} {rest : RedisM Unit}
    (hproc : s.procs t = .execute e rest) :
    stage e.id = .direct ∨ ∃ w, stage e.id = .executing w := by
  cases t with
  | main => exact .inl (h.stage_of_proc hproc rfl)
  | worker w => exact .inr ⟨w, h.stage_of_proc hproc rfl⟩

lemma waiting_stage (h : Tracks s stage) {id : Nat} (hid : id ∈ s.waiting) :
    stage id = .queued ∨ stage id = .invoked ∨ stage id = .constructed := by
  rcases List.mem_append.mp hid with hqueue | hcoming
  · exact .inl ((h.queued id).mp hqueue)
  · obtain ⟨e, he, rfl⟩ := List.mem_map.mp hcoming
    cases hproc : s.procs .main with
    | construct id type argv =>
      rw [hproc] at he
      rw [List.mem_singleton.mp he]
      exact .inr (.inl (h.stage_of_proc hproc rfl))
    | enqueue e' =>
      rw [hproc] at he
      rw [List.mem_singleton.mp he]
      exact .inr (.inr (h.stage_of_proc hproc rfl))
    | _ =>
      rw [hproc] at he
      exact absurd he List.not_mem_nil

lemma executing_not_waiting (h : Tracks s stage) {t : Thread n} {e : Event} {rest : RedisM Unit}
    (hproc : s.procs t = .execute e rest) : e.id ∉ s.waiting := by
  intro hid
  have hwait := waiting_stage h hid
  rcases executing_stage h hproc with hstage | ⟨w, hstage⟩ <;> simp [hstage] at hwait

lemma executing_lt (h : Tracks s stage) {t : Thread n} {e : Event} {rest : RedisM Unit}
    (hproc : s.procs t = .execute e rest) : e.id < s.nextId := by
  by_contra hle
  have habsent := (h.fresh e.id).mpr (not_lt.mp hle)
  rcases executing_stage h hproc with hstage | ⟨w, hstage⟩ <;> simp [hstage] at habsent

def Ahead (s : State n) (id : Nat) : Prop := id ∈ s.waiting ∨ s.nextId ≤ id

lemma executing_not_ahead (h : Tracks s stage) {t : Thread n} {e : Event} {rest : RedisM Unit}
    (hproc : s.procs t = .execute e rest) : ¬s.Ahead e.id :=
  not_or.mpr ⟨executing_not_waiting h hproc, not_le.mpr (executing_lt h hproc)⟩

lemma executed_not_ahead (h : Tracks s stage) {id : Nat} (hid : .executed id ∈ s.redis.history) :
    ¬s.Ahead id := by
  obtain ⟨name, argv, _, hmem⟩ := h.mem_iff id
  have hin := (hmem (.executed id) rfl).mp hid
  rintro (hwaiting | hle)
  · rcases waiting_stage h hwaiting with hstage | hstage | hstage <;>
      simp [hstage, Stage.timeline, life] at hin
  · simp [(h.fresh id).mpr hle, Stage.timeline] at hin

lemma executed_not_executing (h : Tracks s stage) {id : Nat}
    (hid : .executed id ∈ s.redis.history) {t : Thread n} {e : Event} {rest : RedisM Unit}
    (hproc : s.procs t = .execute e rest) : e.id ≠ id := by
  rintro rfl
  obtain ⟨name, argv, _, hmem⟩ := h.mem_iff e.id
  have hin := (hmem (.executed e.id) rfl).mp hid
  rcases executing_stage h hproc with hstage | ⟨w, hstage⟩ <;>
    simp [hstage, Stage.timeline, life] at hin

end State

/-! ## The linearization of a run -/

section Linearized

variable {ρ σ : Type} {V : View ρ σ} {n : Nat}

/-- `order` linearizes the run so far, `status` says how far each event is, and `own` what each
thread owns. -/
structure Linearized (V : View ρ σ) (st : Store) (s : State n) (order : List (Invocation × ρ))
    (status : Nat → Status ρ) (own : Thread n → Option Ptr) : Prop where
  linearizes : Linearizes Invocation.id V.cmd (V.abs st) (actions V.obs s.redis.history)
    (V.abs s.redis.store) order
  shows : ∀ id, (status id).Shows Invocation.id order ((repliesTo s.redis.history id).map V.obs) id
  sound : s.redis.store.Sound
  owned : ∀ t ptr, own t = some ptr → s.redis.store.Private ptr
  distinct : ∀ t t' ptr, own t = some ptr → own t' = some ptr → t = t'
  working : ∀ t e rest, s.procs t = .execute e rest →
    V.Keeps t e.type e.argv (status e.id, own t) rest (s.redis.store, s.redis.lock)
  resting : ∀ t, (∀ e rest, s.procs t ≠ .execute e rest) →
    own t = none ∧ (t ≠ .main → s.redis.lock ≠ some t)
  ahead : ∀ id, s.Ahead id → status id = .todo
  finished : ∀ id, ¬s.Ahead id → (∀ t e rest, s.procs t = .execute e rest → e.id ≠ id) →
    status id = .replied

namespace Linearized

variable {st : Store} {s s' : State n} {order : List (Invocation × ρ)} {status : Nat → Status ρ}
  {own : Thread n → Option Ptr}

lemma init (hst : st.Sound) :
    Linearized V st (State.init n st) [] (fun _ => .todo) fun _ => none where
  linearizes := .nil _
  shows _ := ⟨List.not_mem_nil, rfl⟩
  sound := hst
  owned _ _ h := nomatch h
  distinct _ _ _ h := nomatch h
  working _ _ _ h := nomatch h
  resting _ _ := ⟨rfl, fun _ => nofun⟩
  ahead _ _ := rfl
  finished id h := absurd (.inr (Nat.zero_le id)) h

lemma move (h : Linearized V st s order status own) {t : Thread n} {p : Proc}
    (hprocs : s'.procs = Function.update s.procs t p)
    (hstore : s'.redis.store = s.redis.store)
    (hlock : ∀ t', t' ≠ t → (s'.redis.lock = some t' ↔ s.redis.lock = some t'))
    (horder : Linearizes Invocation.id V.cmd (V.abs st) (actions V.obs s'.redis.history)
      (V.abs s.redis.store) order)
    (hreplies : ∀ id, repliesTo s'.redis.history id = repliesTo s.redis.history id)
    (hworking : ∀ e rest, p = .execute e rest →
      V.Keeps t e.type e.argv (status e.id, own t) rest (s'.redis.store, s'.redis.lock))
    (hresting : (∀ e rest, p ≠ .execute e rest) →
      own t = none ∧ (t ≠ .main → s'.redis.lock ≠ some t))
    (hahead : ∀ id, s'.Ahead id → s.Ahead id)
    (hfinished : ∀ id, ¬s'.Ahead id → (∀ e rest, p = .execute e rest → e.id ≠ id) →
      status id = .replied ∨
        ¬s.Ahead id ∧ ∀ e rest, s.procs t = .execute e rest → e.id ≠ id) :
    Linearized V st s' order status own where
  linearizes := hstore ▸ horder
  shows id := by
    rw [hreplies]
    exact h.shows id
  sound := hstore ▸ h.sound
  owned t' ptr hptr := hstore ▸ h.owned t' ptr hptr
  distinct := h.distinct
  working t' e rest hproc := by
    by_cases ht : t' = t
    · subst ht
      rw [hprocs, Function.update_self] at hproc
      exact hworking e rest hproc
    · rw [hprocs, Function.update_of_ne ht] at hproc
      exact (h.working t' e rest hproc).stable
        (.of_store h.sound hstore (hlock t' ht) fun ptr => h.owned t' ptr)
  resting t' hrest := by
    by_cases ht : t' = t
    · subst ht
      rw [hprocs, Function.update_self] at hrest
      exact hresting hrest
    · rw [hprocs, Function.update_of_ne ht] at hrest
      obtain ⟨hown, hfree⟩ := h.resting t' hrest
      exact ⟨hown, fun hne hheld => hfree hne ((hlock t' ht).mp hheld)⟩
  ahead id hid := h.ahead id (hahead id hid)
  finished id hid hexec := by
    have hp : ∀ e rest, p = .execute e rest → e.id ≠ id := by
      intro e rest hp
      exact hexec t e rest (by rw [hprocs, Function.update_self, hp])
    rcases hfinished id hid hp with hreplied | ⟨hold, hid'⟩
    · exact hreplied
    · refine h.finished id hold fun t' e rest hproc => ?_
      by_cases ht : t' = t
      · subst ht
        exact hid' e rest hproc
      · exact hexec t' e rest (by rw [hprocs, Function.update_of_ne ht, hproc])

lemma call (h : Linearized V st s order status own) {stage : Nat → Stage n} (htracks : Tracks s stage)
    {t : Thread n} {e : Event} {c : Call} {k : c.Res → RedisM Unit}
    (hproc : s.procs t = .execute e (.call c k)) (hctx : e.ctx = ⟨some e.id⟩)
    {inv : Invocation} (hinv : inv ∈ invocations s.redis.history)
    (hevent : inv.id = e.id ∧ inv.name.event = e.type ∧ inv.argv = e.argv)
    (hallowed : V.allowed c s.redis.store) {res : c.Res} {redis : Redis (Thread n)}
    (hexec : s.redis.exec t e c = some (res, redis)) :
    ∃ order status own, Linearized V st ({ s with redis }.setProc t (.execute e (k res)))
      order status own := by
  obtain ⟨lock, store, hlock, hstore, rfl⟩ := Redis.exec_eq_some hexec
  have hshared : Shared.exec t e.argv c (s.redis.store, s.redis.lock) =
      some (res, (store, lock)) := by
    simp [Shared.exec, hlock, hstore]
  have hrefl : Rely V.excl t (own t) (s.redis.store, s.redis.lock)
      (s.redis.store, s.redis.lock) := .of_store h.sound rfl Iff.rfl (h.owned t)
  obtain ⟨⟨q', own'⟩, ⟨hguar, hstep⟩, hrest⟩ :=
    h.working t e _ hproc _ hrefl hallowed res _ hshared
  obtain ⟨hid, htype, hargv⟩ := hevent
  have hspec : V.spec e.type e.argv = V.cmd inv := by
    rw [View.cmd, htype, hargv]
  have hshows : (status inv.id).Shows Invocation.id order
      ((repliesTo s.redis.history inv.id).map V.obs) inv.id := h.shows inv.id
  rw [hspec, ← hid] at hstep
  obtain ⟨order', hlin, hself, hothers⟩ :=
    h.linearizes.step (call_mem_actions V.obs hinv) hshows hstep
  have hrely : ∀ t', t' ≠ t → Rely V.excl t' (own t') (s.redis.store, s.redis.lock) (store, lock) := by
    intro t' ht
    refine hguar.rely ht (lockStep_other hlock ht) fun ptr hptr => ⟨h.owned t' ptr hptr, ?_⟩
    exact fun hown => ht (h.distinct t' t ptr hptr hown)
  have hnew : ∀ ptr, own' = some ptr → ∀ t', t' ≠ t → own t' ≠ some ptr := by
    intro ptr hptr t' ht hptr'
    rcases (hguar.own ptr hptr).2 with hold | hfresh
    · exact ht (h.distinct t' t ptr hptr' hold)
    · exact (h.owned t' ptr hptr').1 hfresh
  have hreplies : ∀ id, repliesTo (s.redis.history ++ Redis.sent e c) id =
      repliesTo s.redis.history id ++ if id = e.id then c.reply?.toList else [] := by
    intro id
    rw [repliesTo_append, repliesTo_sent hctx]
  have hahead : ∀ id, ({ s with redis := ⟨store, lock, s.redis.history ++ Redis.sent e c⟩ }.setProc t
      (.execute e (k res)) : State n).Ahead id ↔ s.Ahead id := by
    intro id
    have hcoming : (Function.update s.procs t (.execute e (k res)) .main).coming =
        (s.procs .main).coming := by
      by_cases ht : .main = t
      · rw [← ht, Function.update_self, ht, hproc]
        rfl
      · rw [Function.update_of_ne ht]
    simp [State.Ahead, State.waiting, hcoming]
  have hne : ∀ id, s.Ahead id → id ≠ e.id := by
    rintro id hid rfl
    exact State.executing_not_ahead htracks hproc hid
  refine ⟨order', Function.update status e.id q', Function.update own t own', ?_⟩
  exact
    { linearizes := by
        rw [State.setProc_redis, actions_append, actions_sent V.obs hctx, ← hid]
        exact hlin
      shows := fun id => by
        rw [State.setProc_redis, hreplies, List.map_append]
        by_cases heq : id = e.id
        · subst heq
          rw [Function.update_self, if_pos rfl, ← hid]
          cases hreply : c.reply? <;> simpa [hreply] using hself
        · rw [Function.update_of_ne heq, if_neg heq, List.map_nil, List.append_nil]
          exact hothers id _ _ (hid ▸ heq) (h.shows id)
      sound := hguar.sound
      owned := fun t' ptr hptr => by
        by_cases ht : t' = t
        · subst ht
          rw [Function.update_self] at hptr
          exact (hguar.own ptr hptr).1
        · rw [Function.update_of_ne ht] at hptr
          exact ((hrely t' ht).own ptr hptr).2
      distinct := fun t' t'' ptr hptr hptr' => by
        by_cases ht : t' = t <;> by_cases ht' : t'' = t
        · rw [ht, ht']
        · rw [ht, Function.update_self] at hptr
          rw [Function.update_of_ne ht'] at hptr'
          exact absurd hptr' (hnew ptr hptr t'' ht')
        · rw [Function.update_of_ne ht] at hptr
          rw [ht', Function.update_self] at hptr'
          exact absurd hptr (hnew ptr hptr' t' ht)
        · rw [Function.update_of_ne ht] at hptr
          rw [Function.update_of_ne ht'] at hptr'
          exact h.distinct t' t'' ptr hptr hptr'
      working := fun t' e' rest hproc' => by
        by_cases ht : t' = t
        · subst ht
          rw [State.setProc_procs, Function.update_self] at hproc'
          cases hproc'
          rw [Function.update_self, Function.update_self]
          exact hrest
        · rw [State.setProc_procs, Function.update_of_ne ht] at hproc'
          have hid' : e'.id ≠ e.id := fun heq =>
            ht (htracks.executing_unique hproc' hproc heq)
          rw [Function.update_of_ne ht, Function.update_of_ne hid']
          exact (h.working t' e' rest hproc').stable (hrely t' ht)
      resting := fun t' hrest' => by
        by_cases ht : t' = t
        · subst ht
          exact absurd (by simp) (hrest' e (k res))
        · rw [State.setProc_procs, Function.update_of_ne ht] at hrest'
          obtain ⟨hown, hfree⟩ := h.resting t' hrest'
          rw [Function.update_of_ne ht]
          exact ⟨hown, fun hmain hheld => hfree hmain ((lockStep_other hlock ht).mp hheld)⟩
      ahead := fun id hid => by
        rw [hahead] at hid
        rw [Function.update_of_ne (hne id hid)]
        exact h.ahead id hid
      finished := fun id hid hexec' => by
        rw [hahead] at hid
        have hself : e.id ≠ id := hexec' t e (k res) (by simp)
        rw [Function.update_of_ne hself.symm]
        refine h.finished id hid fun t' e' rest hproc' => ?_
        by_cases ht : t' = t
        · subst ht
          cases hproc.symm.trans hproc'
          exact hself
        · exact hexec' t' e' rest (by simpa [ht] using hproc') }

lemma pass (h : Linearized V st s order status own) {t : Thread n} {p : Proc}
    (hprocs : s'.procs = Function.update s.procs t p)
    (hstore : s'.redis.store = s.redis.store)
    (hlock : ∀ t', t' ≠ .main → (s'.redis.lock = some t' ↔ s.redis.lock = some t'))
    (hlock' : t ≠ .main → s'.redis.lock = s.redis.lock)
    (es : List Entry) (hhistory : s'.redis.history = s.redis.history ++ es)
    (hes : actions V.obs es = []) (hreplies : ∀ id, repliesTo es id = [])
    (hold : ∀ e rest, s.procs t ≠ .execute e rest) (hnew : ∀ e rest, p ≠ .execute e rest)
    (hwaiting : s'.waiting = s.waiting) (hnext : s'.nextId = s.nextId) :
    Linearized V st s' order status own := by
  have hahead : ∀ id, s'.Ahead id ↔ s.Ahead id := fun id => by
    rw [State.Ahead, hwaiting, hnext, State.Ahead]
  obtain ⟨hown, hfree⟩ := h.resting t hold
  refine h.move hprocs hstore (fun t' ht => ?_) ?_ (fun id => ?_)
    (fun e rest hp => absurd hp (hnew e rest)) (fun _ => ⟨hown, fun hne hheld => ?_⟩)
    (fun id => (hahead id).mp) fun id hid _ => ?_
  · by_cases hmain : t' = .main
    · rw [hlock' (hmain ▸ ht.symm)]
    · exact hlock t' hmain
  · rw [hhistory, actions_append, hes, List.append_nil]
    exact h.linearizes
  · rw [hhistory, repliesTo_append, hreplies, List.append_nil]
  · exact hfree hne ((hlock t hne).mp hheld)
  · exact .inr ⟨(hahead id).not.mp hid, fun e rest hproc => absurd hproc (hold e rest)⟩

lemma start [StringToLongLong] (h : Linearized V st s order status own) {t : Thread n} {e : Event}
    (hprocs : s'.procs = Function.update s.procs t (.execute e e.execute))
    (hstore : s'.redis.store = s.redis.store)
    (hlock : ∀ t', t' ≠ t → (s'.redis.lock = some t' ↔ s.redis.lock = some t'))
    (horder : Linearizes Invocation.id V.cmd (V.abs st) (actions V.obs s'.redis.history)
      (V.abs s.redis.store) order)
    (hreplies : ∀ id, repliesTo s'.redis.history id = repliesTo s.redis.history id)
    (hidle : s.procs t = .idle) (htodo : s.Ahead e.id)
    {good : Bool → EventType → List RedisModuleString → Prop} (hcover : V.Covers good)
    (hgood : good e.threadSafe e.type e.argv)
    (hstarts : View.Starts t e.threadSafe (s.redis.store, s'.redis.lock))
    (hahead : ∀ id, s'.Ahead id → s.Ahead id)
    (hahead' : ∀ id, s.Ahead id → id ≠ e.id → s'.Ahead id) :
    Linearized V st s' order status own := by
  have hown : own t = none := (h.resting t (by simp [hidle])).1
  refine h.move hprocs hstore hlock horder hreplies (fun e' rest hp => ?_)
    (fun hne => absurd rfl (hne e e.execute)) hahead fun id hid hexec => ?_
  · cases hp
    rw [hown, h.ahead e.id htodo, hstore]
    exact hcover n t e.threadSafe e.type e.argv _ hgood hstarts
  · have hne : id ≠ e.id := (hexec e e.execute rfl).symm
    exact .inr ⟨fun hold => hid (hahead' id hold hne), by simp [hidle]⟩

lemma finish (h : Linearized V st s order status own) {t : Thread n} {e : Event} {a : Unit}
    {p : Proc} (hproc : s.procs t = .execute e (.pure a))
    (hprocs : s'.procs = Function.update s.procs t p)
    (hstore : s'.redis.store = s.redis.store)
    (hlock : ∀ t', t' ≠ t → (s'.redis.lock = some t' ↔ s.redis.lock = some t'))
    (hlock' : t ≠ .main → s'.redis.lock = s.redis.lock)
    (hhistory : s'.redis.history = s.redis.history ++ [.executed e.id])
    (hnew : ∀ e rest, p ≠ .execute e rest)
    (hahead : ∀ id, s'.Ahead id ↔ s.Ahead id) : Linearized V st s' order status own := by
  obtain ⟨hg, hfree⟩ : View.Final t a (status e.id, own t) (s.redis.store, s.redis.lock) :=
    h.working t e _ hproc
  obtain ⟨hreplied, hown⟩ := Prod.mk.inj hg
  refine h.move hprocs hstore hlock ?_ (fun id => ?_) (fun e rest hp => absurd hp (hnew e rest))
    (fun _ => ⟨hown, fun hne hheld => ?_⟩) (fun id => (hahead id).mp) fun id hid _ => ?_
  · have hes : actions V.obs [.executed e.id] = [] := rfl
    rw [hhistory, actions_append, hes, List.append_nil]
    exact h.linearizes
  · rw [hhistory, repliesTo_append]
    exact List.append_nil _
  · exact hfree hne (by rwa [hlock' hne] at hheld)
  · by_cases heq : id = e.id
    · exact .inl (heq ▸ hreplied)
    · refine .inr ⟨(hahead id).not.mp hid, fun e' rest hproc' => ?_⟩
      cases hproc.symm.trans hproc'
      exact Ne.symm heq

end Linearized

/-- The steps that a run may take: commands whose events satisfy `good`, and calls that are
`allowed`. -/
def View.Allows (V : View ρ σ) (good : Bool → EventType → List RedisModuleString → Prop)
    (s : State n) (l : Label n) : Prop :=
  l.Issues good ∧ (∀ c, l ≠ .redis c) ∧
    ∀ t e c k, l = .step t → s.procs t = .execute e (.call c k) → V.allowed c s.redis.store

variable [StringToLongLong] {good : Bool → EventType → List RedisModuleString → Prop}
  {s s' : State n}

namespace Linearized

variable {st : Store} {order : List (Invocation × ρ)} {status : Nat → Status ρ}
  {own : Thread n → Option Ptr}

theorem step (hcover : V.Covers good) (h : Linearized V st s order status own)
    {stage : Nat → Stage n} (htracks : Tracks s stage) (hmain : MainLock s)
    (hcarries : s.Carries (Issued good s.redis.history)) (hbuiltin : s.NoBuiltin) {l : Label n}
    (hl : V.Allows good s l) (hs : StepCase s l s') :
    ∃ order status own, Linearized V st s' order status own := by
  obtain ⟨hissues, hredis, hallowed⟩ := hl
  have hcalled : ∀ name argv, Linearizes Invocation.id V.cmd (V.abs st)
      (actions V.obs (s.redis.history ++ [.invoke s.nextId name argv])) (V.abs s.redis.store)
      order := by
    intro name argv
    rw [actions_append]
    refine h.linearizes.call fun hmem => ?_
    have htodo := h.shows s.nextId
    rw [h.ahead s.nextId (.inr le_rfl)] at htodo
    obtain ⟨x, hx, heq⟩ := List.mem_map.mp hmem
    exact htodo.1 (List.mem_map.mpr ⟨x, hx, by rw [heq]⟩)
  have hinvoke : ∀ name argv id, repliesTo (s.redis.history ++ [.invoke s.nextId name argv]) id =
      repliesTo s.redis.history id := by
    intro name argv id
    rw [repliesTo_append]
    exact List.append_nil _
  have hnone : s.procs .main ≠ .idle → ∀ t, t ≠ .main → s.redis.lock ≠ some t := by
    intro hbusy t ht hheld
    exact ht (Option.some.inj (hheld.symm.trans (hmain.busy hbusy)))
  cases hs with
  | conc name argv _ hidle hlock =>
    obtain ⟨hown, _⟩ := h.resting .main (by simp [hidle])
    have hwaiting : ∀ id, id ∈ s.waiting ++ [s.nextId] ∨ s.nextId + 1 ≤ id ↔ s.Ahead id := by
      intro id
      have hle : s.nextId ≤ id ↔ id = s.nextId ∨ s.nextId + 1 ≤ id := by omega
      rw [State.Ahead, hle, List.mem_append, List.mem_singleton, or_assoc]
    refine ⟨order, status, own, h.move rfl rfl (fun t ht => ?_) (hcalled name argv)
      (hinvoke name argv) (by simp) (fun _ => ⟨hown, absurd rfl⟩) (fun id hid => ?_)
      fun id hid _ => ?_⟩
    · simp [hlock, Ne.symm ht]
    · refine (hwaiting id).mp ?_
      simpa [State.Ahead, State.waiting, hidle, Proc.coming] using hid
    · refine .inr ⟨fun hold => hid ?_, by simp [hidle]⟩
      simpa [State.Ahead, State.waiting, hidle, Proc.coming] using (hwaiting id).mpr hold
  | seq name argv hseq hidle hlock e he =>
    have hgood : good e.threadSafe e.type e.argv := by
      have hissue : good (name.handler = .seq) name.event argv := hissues
      rw [decide_eq_true hseq] at hissue
      rw [he]
      exact hissue
    have hid : e.id = s.nextId := by rw [he]; rfl
    have hts : e.threadSafe = true := by rw [he]; rfl
    refine ⟨order, status, own, h.start rfl rfl (fun t ht => ?_) (hcalled name argv)
      (hinvoke name argv) hidle (.inr hid.ge) hcover hgood ?_ (fun id => ?_) fun id => ?_⟩
    · simp [hlock, Ne.symm ht]
    · rw [hts]
      exact ⟨h.sound, rfl, rfl⟩
    · intro hahead
      have hwaiting : id ∈ s.waiting ∨ s.nextId + 1 ≤ id := by
        simpa [State.Ahead, State.waiting, hidle, Proc.coming] using hahead
      exact hwaiting.imp_right (Nat.le_of_succ_le)
    · intro hahead hne
      have hwaiting : id ∈ s.waiting ∨ s.nextId + 1 ≤ id := hahead.imp_right fun hle => by omega
      simpa [State.Ahead, State.waiting, hidle, Proc.coming] using hwaiting
  | redis c => exact absurd rfl (hredis c)
  | construct id type argv hproc e he =>
    refine ⟨order, status, own, h.pass rfl rfl (fun _ _ => Iff.rfl) (fun _ => rfl) []
      (List.append_nil _).symm rfl (fun _ => rfl) (by simp [hproc]) (by simp) ?_ rfl⟩
    simp [State.waiting, hproc, Proc.coming, he]
  | enqueue e hproc =>
    refine ⟨order, status, own, h.pass rfl rfl (fun _ _ => Iff.rfl) (fun _ => rfl) _
      rfl rfl (fun _ => rfl) (by simp [hproc]) (by simp) ?_ rfl⟩
    simp [State.waiting, hproc, Proc.coming]
  | ret e hproc he =>
    refine ⟨order, status, own, h.pass (State.release_procs ..) (State.release_store ..)
      (fun t ht => ?_) (absurd rfl) _ (State.release_history ..) ?_ (repliesTo_released he)
      (by simp [hproc]) (by simp) ?_ (State.release_nextId ..)⟩
    · simp [hnone (by simp [hproc]) t ht]
    · exact actions_released V.obs he
    · simp [State.waiting, hproc, Proc.coming]
  | mainCall e c k hproc he res redis hexec =>
    obtain ⟨_, inv, hinv, hevent⟩ : Issued good s.redis.history e.id e.threadSafe e.type e.argv :=
      hcarries.of_proc hproc
    exact h.call htracks hproc he.ctx hinv hevent (hallowed _ e c k rfl hproc) hexec
  | seqReturn e hproc =>
    refine ⟨order, status, own, h.finish hproc rfl rfl (fun t ht => ?_) (absurd rfl) rfl
      (by simp) fun id => ?_⟩
    · simp [hnone (by simp [hproc]) t ht]
    · simp [State.Ahead, State.waiting, hproc, Proc.coming]
  | builtin c hproc => exact absurd hproc (hbuiltin c)
  | spin w => exact ⟨order, status, own, h⟩
  | dequeue w e queue hidle hqueue he =>
    have hmem : e ∈ s.queue := hqueue ▸ List.mem_cons_self
    obtain ⟨hgood, _⟩ := hcarries.queue e hmem
    obtain ⟨_, hfree⟩ := h.resting (.worker w) (by simp [hidle])
    refine ⟨order, status, own, h.start rfl rfl (fun t ht => Iff.rfl) ?_ (fun id => ?_) hidle
      (.inl ?_) hcover hgood ?_ (fun id => ?_) fun id => ?_⟩
    · have hes : actions V.obs [.dequeued e.id] = [] := rfl
      rw [State.record_history, actions_append, hes, List.append_nil]
      exact h.linearizes
    · rw [State.record_history, repliesTo_append]
      exact List.append_nil _
    · simp [State.waiting, hqueue]
    · rw [he.threadSafe]
      exact ⟨h.sound, nofun, hfree nofun⟩
    · refine Or.imp_left fun hid => ?_
      simp only [State.waiting, hqueue, List.map_cons, List.cons_append]
      exact List.mem_cons_of_mem _ (by simpa [State.waiting] using hid)
    · rintro (hid | hle) hne
      · refine .inl ?_
        simp only [State.waiting, hqueue, List.map_cons, List.cons_append] at hid
        simpa [State.waiting] using (List.mem_cons.mp hid).resolve_left hne
      · exact .inr hle
  | workerCall w e c k hproc he res redis hexec =>
    obtain ⟨_, inv, hinv, hevent⟩ : Issued good s.redis.history e.id e.threadSafe e.type e.argv :=
      hcarries.of_proc hproc
    exact h.call htracks hproc he.ctx hinv hevent (hallowed _ e c k rfl hproc) hexec
  | executed w e hproc =>
    refine ⟨order, status, own, h.finish hproc rfl rfl (fun _ _ => Iff.rfl) (fun _ => rfl) rfl
      (by simp) fun id => ?_⟩
    simp [State.Ahead, State.waiting]
  | drop w e hproc he =>
    refine ⟨order, status, own, h.pass (State.release_procs ..) (State.release_store ..)
      (fun t ht => by simp) (fun _ => by simp) ([.dropped e.id] ++ s.released e) ?_ ?_
      (fun id => ?_) (by simp [hproc]) (by simp) ?_ (State.release_nextId ..)⟩
    · rw [State.release_history, State.record_history, List.append_assoc]
      rfl
    · rw [actions_append, actions_released V.obs he]
      rfl
    · rw [repliesTo_append, repliesTo_released he]
      rfl
    · simp [State.waiting]

end Linearized

/-- The commands of a run that have taken effect, in a sequential order with their results. -/
structure View.Linearization (V : View ρ σ) (st : Store) (s : State n)
    (order : List (Invocation × ρ)) : Prop where
  linearizes : Linearizes Invocation.id V.cmd (V.abs st) (actions V.obs s.redis.history)
    (V.abs s.redis.store) order
  replies : ∀ x ∈ order, (repliesTo s.redis.history x.1.id).map V.obs = [x.2] ∨
    repliesTo s.redis.history x.1.id = [] ∧ ¬s.Drained
  executed : ∀ id, .executed id ∈ s.redis.history → ∃ x ∈ order, x.1.id = id ∧
    (repliesTo s.redis.history id).map V.obs = [x.2]

omit [StringToLongLong] in
lemma Linearized.linearization {st : Store} {order : List (Invocation × ρ)}
    {status : Nat → Status ρ} {own : Thread n → Option Ptr}
    (h : Linearized V st s order status own) {stage : Nat → Stage n} (htracks : Tracks s stage) :
    V.Linearization st s order where
  linearizes := h.linearizes
  replies := by
    rintro ⟨c, r⟩ hmem
    have hshows := h.shows c.id
    cases hstatus : status c.id with
    | todo =>
      rw [hstatus] at hshows
      exact absurd (List.mem_map.mpr ⟨(c, r), hmem, rfl⟩) hshows.1
    | done r' =>
      rw [hstatus] at hshows
      refine .inr ⟨List.map_eq_nil_iff.mp hshows.2, fun hdrained => ?_⟩
      have hahead : ¬s.Ahead c.id := fun hahead => by
        cases hstatus.symm.trans (h.ahead c.id hahead)
      have hreplied := h.finished c.id hahead fun t e rest hproc =>
        absurd hproc (hdrained.2 t e rest)
      cases hstatus.symm.trans hreplied
    | replied =>
      rw [hstatus] at hshows
      obtain ⟨c', r', hid, hmem', hreplies⟩ := hshows
      cases List.inj_on_of_nodup_map h.linearizes.nodup hmem hmem' hid.symm
      exact .inl hreplies
  executed id hid := by
    have hshows := h.shows id
    rw [h.finished id (State.executed_not_ahead htracks hid) fun t e rest hproc =>
      State.executed_not_executing htracks hid hproc] at hshows
    obtain ⟨c, r, hkey, hmem, hreplies⟩ := hshows
    exact ⟨(c, r), hmem, hkey, hreplies⟩

theorem View.linearized (hcover : V.Covers good) {st : Store} (hst : st.Sound)
    {ok : State n → Label n → Prop} (hok : ∀ s l, ok s l → V.Allows good s l)
    {ls : List (Label n)} (hrun : Runs State.step ok (State.init n st) ls s) :
    ∃ order, V.Linearization st s order := by
  have hinv := State.run_invariant
    (I := fun s => (∃ stage, Tracks s stage) ∧ MainLock s ∧
      s.Carries (Issued good s.redis.history) ∧ s.NoBuiltin ∧
      ∃ order status own, Linearized V st s order status own)
    ⟨⟨_, Tracks.init st⟩, .init st, State.carries_init st, nofun, _, _, _, .init hst⟩
    (fun s l s' _ ⟨⟨_, htracks⟩, hmain, hcarries, hbuiltin, _, _, _, h⟩ hl hs =>
      have hallows := hok s l hl
      ⟨htracks.step hs, hmain.step hs, issued_step hallows.1 hcarries hs,
        hbuiltin.step hallows.2.1 hs, h.step hcover htracks hmain hcarries hbuiltin hallows hs⟩)
    hrun
  obtain ⟨_, ⟨_, htracks⟩, _, _, _, order, status, own, h⟩ := hinv
  exact ⟨order, h.linearization htracks⟩

end Linearized

end RedPar
