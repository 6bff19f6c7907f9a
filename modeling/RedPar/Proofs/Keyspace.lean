import RedPar.Model.Commands

/-!
# Sound stores and what they contain

The abstract keyspace maps each key to nothing, to a list, to a set, or to a value of another
type. A store is sound when every key bound to an object of this module has an object
of its own, of the right kind; the lemmas say how allocation, writes to objects and changes of
bindings keep a store sound and what they do to its contents.
-/

namespace RedPar

inductive Content
  | list (o : LlcaObj)
  | set (sl : LlcaConcObj)
  | other (value : Value)
deriving DecidableEq

abbrev Keyspace := RedisModuleString → Option Content

namespace Value

/-- The address of the object, for the two data types of this module. -/
def ptr? : Value → Option Ptr
  | .module .llca ptr => some ptr
  | .module .llcaConc ptr => some ptr
  | _ => none

/-- `none` if the object does not exist or is of another kind. -/
def content (heap : Ptr → Option Obj) : Value → Option Content
  | .module .llca ptr =>
    match heap ptr with
    | some (.llca o) => some (.list o)
    | _ => none
  | .module .llcaConc ptr =>
    match heap ptr with
    | some (.llcaConc sl) => some (.set sl)
    | _ => none
  | v => some (.other v)

lemma content_congr {v : Value} {heap heap' : Ptr → Option Obj}
    (h : ∀ ptr, v.ptr? = some ptr → heap ptr = heap' ptr) : v.content heap = v.content heap' := by
  match v, h with
  | .module .llca ptr, h => simp only [content, h ptr rfl]
  | .module .llcaConc ptr, h => simp only [content, h ptr rfl]
  | .module (.foreign _) _, _ => rfl
  | .native _ _, _ => rfl

lemma content_ne_none {v : Value} {heap : Ptr → Option Obj} {ptr : Ptr} {c : Content}
    (hv : v.content heap = some c) (hptr : v.ptr? = some ptr) : heap ptr ≠ none := by
  intro hnone
  match v, hptr with
  | .module .llca ptr, rfl => simp [content, hnone] at hv
  | .module .llcaConc ptr, rfl => simp [content, hnone] at hv

end Value

namespace Store

def content (st : Store) : Keyspace := fun name => (st.keyspace name).bind (·.content st.heap)

/-- Every bound object exists, is of the kind its key says, and is bound to one key only. -/
structure Sound (st : Store) : Prop where
  typed : ∀ name v, st.keyspace name = some v → ∃ c, v.content st.heap = some c
  injective : ∀ name name' v v' ptr, st.keyspace name = some v → st.keyspace name' = some v' →
    v.ptr? = some ptr → v'.ptr? = some ptr → name = name'
  null : st.heap nullptr = none
  fresh : ∀ ptr, st.next ≤ ptr → st.heap ptr = none
  pos : nullptr < st.next

def Unbound (st : Store) (ptr : Ptr) : Prop :=
  ∀ name v, st.keyspace name = some v → v.ptr? ≠ some ptr

lemma content_of_keyspace {st : Store} {name : RedisModuleString} {v : Value}
    (h : st.keyspace name = some v) : st.content name = v.content st.heap := by
  simp only [content, h, Option.bind_some]

lemma content_heap_update {st : Store} {ptr : Ptr} {obj : Option Obj} (hptr : st.Unbound ptr)
    {name : RedisModuleString} {v : Value} (hk : st.keyspace name = some v) :
    v.content (Function.update st.heap ptr obj) = v.content st.heap :=
  Value.content_congr fun p hp => by
    have hne : p ≠ ptr := fun heq => hptr name v hk (heq ▸ hp)
    rw [Function.update_of_ne hne]

lemma content_setObj_unbound {st : Store} {ptr : Ptr} (obj : Option Obj) (hptr : st.Unbound ptr) :
    (st.setObj ptr obj).content = st.content := by
  funext name
  cases hk : st.keyspace name with
  | none => simp [content, setObj, hk]
  | some v =>
    have hk' : (st.setObj ptr obj).keyspace name = some v := hk
    rw [content_of_keyspace hk, content_of_keyspace hk']
    exact content_heap_update hptr hk

lemma content_setKey (st : Store) (key : RedisModuleString) (v : Option Value) :
    (st.setKey key v).content = Function.update st.content key (v.bind (·.content st.heap)) := by
  funext name
  by_cases hname : name = key
  · subst hname
    simp [content, setKey]
  · simp [content, setKey, hname]

lemma setObj_allocObj (st : Store) (obj obj' : Obj) :
    (st.allocObj obj).setObj st.next (some obj') = st.allocObj obj' := by
  simp [setObj, allocObj]

lemma sound_empty : empty.Sound where
  typed _ _ hk := absurd hk nofun
  injective _ _ _ _ _ hk := absurd hk nofun
  null := rfl
  fresh _ _ := rfl
  pos := Nat.zero_lt_one

lemma dbOverwrite_absent {st : Store} {name : RedisModuleString} (v : Value)
    (hk : st.keyspace name = none) : st.dbOverwrite name v = some (st.setKey name (some v)) := by
  simp [dbOverwrite, dbDelete, hk]

namespace Sound

variable {st : Store} (h : st.Sound)
include h

lemma bound_ne_none {name : RedisModuleString} {v : Value} {ptr : Ptr}
    (hk : st.keyspace name = some v) (hptr : v.ptr? = some ptr) : st.heap ptr ≠ none := by
  obtain ⟨c, hc⟩ := h.typed name v hk
  exact Value.content_ne_none hc hptr

lemma lt_next {ptr : Ptr} (hptr : st.heap ptr ≠ none) : ptr < st.next :=
  not_le.mp fun hle => hptr (h.fresh ptr hle)

lemma ne_null {ptr : Ptr} (hptr : st.heap ptr ≠ none) : ptr ≠ nullptr :=
  fun heq => hptr (heq ▸ h.null)

lemma next_unbound : st.Unbound st.next := fun _ _ hk hptr =>
  h.bound_ne_none hk hptr (h.fresh _ le_rfl)

lemma llca_of_content {name : RedisModuleString} {ptr : Ptr}
    (hk : st.keyspace name = some (.module .llca ptr)) :
    ∃ o, st.heap ptr = some (.llca o) ∧ st.content name = some (.list o) := by
  obtain ⟨c, hc⟩ := h.typed name _ hk
  rw [content_of_keyspace hk]
  simp only [Value.content] at hc ⊢
  split at hc
  · rename_i o ho
    exact ⟨o, ho, rfl⟩
  · cases hc

lemma conc_of_content {name : RedisModuleString} {ptr : Ptr}
    (hk : st.keyspace name = some (.module .llcaConc ptr)) :
    ∃ sl, st.heap ptr = some (.llcaConc sl) ∧ st.content name = some (.set sl) := by
  obtain ⟨c, hc⟩ := h.typed name _ hk
  rw [content_of_keyspace hk]
  simp only [Value.content] at hc ⊢
  split at hc
  · rename_i sl hsl
    exact ⟨sl, hsl, rfl⟩
  · cases hc

lemma content_allocObj (obj : Obj) : (st.allocObj obj).content = st.content := by
  funext name
  cases hk : st.keyspace name with
  | none => simp [content, allocObj, hk]
  | some v =>
    have hk' : (st.allocObj obj).keyspace name = some v := hk
    rw [content_of_keyspace hk, content_of_keyspace hk']
    exact content_heap_update h.next_unbound hk

lemma allocObj (obj : Obj) : (st.allocObj obj).Sound where
  typed name v hk := by
    obtain ⟨c, hc⟩ := h.typed name v hk
    exact ⟨c, (content_heap_update h.next_unbound hk).trans hc⟩
  injective := h.injective
  null := by
    have hne : nullptr ≠ st.next := h.pos.ne
    simpa [Store.allocObj, Function.update_of_ne hne] using h.null
  fresh ptr hle := by
    have hlt : st.next < ptr := hle
    simpa [Store.allocObj, Function.update_of_ne hlt.ne'] using h.fresh ptr hlt.le
  pos := h.pos.trans (Nat.lt_succ_self _)

lemma setObj_unbound {ptr : Ptr} (obj : Option Obj) (hptr : st.Unbound ptr)
    (hne : st.heap ptr ≠ none) : (st.setObj ptr obj).Sound where
  typed name v hk := by
    obtain ⟨c, hc⟩ := h.typed name v hk
    exact ⟨c, (content_heap_update hptr hk).trans hc⟩
  injective := h.injective
  null := by simpa [setObj, Function.update_of_ne (h.ne_null hne).symm] using h.null
  fresh p hle := by
    have hlt : ptr < p := (h.lt_next hne).trans_le hle
    simpa [setObj, Function.update_of_ne hlt.ne'] using h.fresh p hle
  pos := h.pos

lemma content_heap_update_of_ne {key name : RedisModuleString} {v v' : Value} {ptr : Ptr}
    {obj : Option Obj} (hk : st.keyspace key = some v) (hptr : v.ptr? = some ptr)
    (hk' : st.keyspace name = some v') (hne : name ≠ key) :
    v'.content (Function.update st.heap ptr obj) = v'.content st.heap :=
  Value.content_congr fun p hp => by
    have hpne : p ≠ ptr := fun heq => hne (h.injective name key v' v ptr hk' hk (heq ▸ hp) hptr)
    rw [Function.update_of_ne hpne]

lemma content_setObj {key : RedisModuleString} {v : Value} {ptr : Ptr} {obj : Obj} {c : Content}
    (hk : st.keyspace key = some v) (hptr : v.ptr? = some ptr)
    (hc : v.content (Function.update st.heap ptr (some obj)) = some c) :
    (st.setObj ptr (some obj)).content = Function.update st.content key (some c) := by
  funext name
  by_cases hname : name = key
  · subst hname
    have hk' : (st.setObj ptr (some obj)).keyspace name = some v := hk
    rw [content_of_keyspace hk', Function.update_self]
    exact hc
  · rw [Function.update_of_ne hname]
    cases hn : st.keyspace name with
    | none => simp [content, setObj, hn]
    | some v' =>
      have hn' : (st.setObj ptr (some obj)).keyspace name = some v' := hn
      rw [content_of_keyspace hn, content_of_keyspace hn']
      exact h.content_heap_update_of_ne hk hptr hn hname

lemma setObj {key : RedisModuleString} {v : Value} {ptr : Ptr} {obj : Obj} {c : Content}
    (hk : st.keyspace key = some v) (hptr : v.ptr? = some ptr)
    (hc : v.content (Function.update st.heap ptr (some obj)) = some c) :
    (st.setObj ptr (some obj)).Sound where
  typed name v' hn := by
    by_cases hname : name = key
    · subst hname
      have heq : v' = v := Option.some.inj (hn.symm.trans hk)
      exact ⟨c, heq ▸ hc⟩
    · obtain ⟨c', hc'⟩ := h.typed name v' hn
      exact ⟨c', (h.content_heap_update_of_ne hk hptr hn hname).trans hc'⟩
  injective := h.injective
  null := by
    have hne := (h.ne_null (h.bound_ne_none hk hptr)).symm
    simpa [Store.setObj, Function.update_of_ne hne] using h.null
  fresh p hle := by
    have hlt : ptr < p := (h.lt_next (h.bound_ne_none hk hptr)).trans_le hle
    simpa [Store.setObj, Function.update_of_ne hlt.ne'] using h.fresh p hle
  pos := h.pos

lemma setKey_none (key : RedisModuleString) : (st.setKey key none).Sound := by
  have hsub : ∀ name v, (st.setKey key none).keyspace name = some v →
      st.keyspace name = some v := by
    intro name v hk
    by_cases hname : name = key
    · subst hname
      simp [setKey] at hk
    · simpa [setKey, hname] using hk
  exact
    { typed := fun name v hk => h.typed name v (hsub name v hk)
      injective := fun name name' v v' ptr hk hk' =>
        h.injective name name' v v' ptr (hsub name v hk) (hsub name' v' hk')
      null := h.null
      fresh := h.fresh
      pos := h.pos }

lemma setKey_some {key : RedisModuleString} {v : Value} {c : Content}
    (hc : v.content st.heap = some c)
    (hown : ∀ ptr, v.ptr? = some ptr → st.Unbound ptr) : (st.setKey key (some v)).Sound where
  typed name v' hk := by
    by_cases hname : name = key
    · subst hname
      have heq : v = v' := by simpa [Store.setKey] using hk
      exact ⟨c, heq ▸ hc⟩
    · exact h.typed name v' (by simpa [Store.setKey, hname] using hk)
  injective name name' v₁ v₂ ptr hk hk' hp hp' := by
    by_cases hname : name = key <;> by_cases hname' : name' = key
    · rw [hname, hname']
    · have heq : v = v₁ := by simpa [Store.setKey, hname] using hk
      have hk₂ : st.keyspace name' = some v₂ := by simpa [Store.setKey, hname'] using hk'
      exact absurd hp' (hown ptr (heq ▸ hp) name' v₂ hk₂)
    · have heq : v = v₂ := by simpa [Store.setKey, hname'] using hk'
      have hk₁ : st.keyspace name = some v₁ := by simpa [Store.setKey, hname] using hk
      exact absurd hp (hown ptr (heq ▸ hp') name v₁ hk₁)
    · exact h.injective name name' v₁ v₂ ptr (by simpa [Store.setKey, hname] using hk)
        (by simpa [Store.setKey, hname'] using hk') hp hp'
  null := h.null
  fresh := h.fresh
  pos := h.pos

lemma unbound_setKey_none {key : RedisModuleString} {v : Value} {ptr : Ptr}
    (hk : st.keyspace key = some v) (hptr : v.ptr? = some ptr) :
    (st.setKey key none).Unbound ptr := by
  intro name v' hn hp
  by_cases hname : name = key
  · subst hname
    simp [setKey] at hn
  · have hn' : st.keyspace name = some v' := by simpa [setKey, hname] using hn
    exact hname (h.injective name key v' v ptr hn' hk hp hptr)

lemma setKey_setObj_none {key : RedisModuleString} {v : Value} {ptr : Ptr}
    (hk : st.keyspace key = some v) (hptr : v.ptr? = some ptr) :
    ((st.setObj ptr none).setKey key none).Sound ∧
      ((st.setObj ptr none).setKey key none).content = Function.update st.content key none := by
  have hunbound := h.unbound_setKey_none hk hptr
  have hcomm : (st.setObj ptr none).setKey key none = (st.setKey key none).setObj ptr none := rfl
  rw [hcomm]
  refine ⟨(h.setKey_none key).setObj_unbound none hunbound (h.bound_ne_none hk hptr), ?_⟩
  rw [content_setObj_unbound none hunbound, content_setKey, Option.bind_none]

end Sound

end Store

end RedPar
