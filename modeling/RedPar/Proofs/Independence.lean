import RedPar.Proofs.AofRewrite
import Mathlib.Data.Finset.Basic

/-!
# Commands that commute

Commands on different keys do not see each other. On the values of one list or set, commands for
different values commute: a list is the sorted arrangement of its values, so it is enough that
they commute on the bag.
-/

namespace RedPar
open Interleaved

/-- The events of `skip_list.cpp` on the values of a set. -/
def EventType.OnValues : EventType → Prop
  | llcaConcInsert | llcaConcRemove | llcaConcContains => True
  | _ => False

def EventType.onList (v : Int64) (o : LlcaObj) : EventType → String × LlcaObj
  | llcaRemove => (if v ∈ o.head then "success" else "failure", ⟨o.head.erase v, o.len⟩)
  | llcaContains => (if v ∈ o.head then "value present" else "value not present", o)
  | llcaInsert => ("success", ⟨o.head.orderedInsert (· ≤ ·) v, o.len + 1⟩)
  | _ => ("", o)

namespace EventType

variable {type type' : EventType} {v v' : Int64} {o : LlcaObj}

lemma keySpec_list (htype : type.OnList) (v : Int64) (o : LlcaObj) :
    type.keySpec (some v) (some (.list o)) =
      (.string (type.onList v o).1, some (.list (type.onList v o).2)) := by
  cases type with
  | llcaRemove | llcaContains | llcaInsert => rfl
  | _ => cases htype

lemma onList_sorted (h : o.Sorted) (v : Int64) : (type.onList v o).2.Sorted := by
  cases type with
  | llcaInsert => exact List.Pairwise.orderedInsert v o.head h
  | llcaRemove => exact h.sublist List.erase_sublist
  | _ => exact h

lemma onList_values (v : Int64) (o : LlcaObj) :
    (type.onList v o).2.values = (type.onBag v o.values).2 := by
  cases type with
  | llcaInsert =>
    have hvalues := llcaInsert_values o v
    rwa [llcaInsert_eq] at hvalues
  | _ => rfl

lemma onBag_comm (hne : v ≠ v') (m : Multiset Int64) :
    (type'.onBag v' (type.onBag v m).2).2 = (type.onBag v (type'.onBag v' m).2).2 := by
  cases type with
  | llcaInsert =>
    cases type' with
    | llcaInsert => exact Multiset.cons_swap v' v m
    | llcaRemove => exact Multiset.erase_cons_tail m hne
    | _ => rfl
  | llcaRemove =>
    cases type' with
    | llcaInsert => exact (Multiset.erase_cons_tail m hne.symm).symm
    | llcaRemove => exact Multiset.erase_comm m v v'
    | _ => rfl
  | _ => rfl

lemma onList_comm (h : o.Sorted) (hne : v ≠ v') :
    (type'.onList v' (type.onList v o).2).2 = (type.onList v (type'.onList v' o).2).2 := by
  have hlen : (type'.onList v' (type.onList v o).2).2.len =
      (type.onList v (type'.onList v' o).2).2.len := by
    cases type <;> cases type' <;> rfl
  have hhead : (type'.onList v' (type.onList v o).2).2.head =
      (type.onList v (type'.onList v' o).2).2.head := by
    refine LlcaObj.Sorted.head_eq (onList_sorted (onList_sorted h v) v')
      (onList_sorted (onList_sorted h v') v) ?_
    simp only [onList_values]
    exact onBag_comm hne o.values
  calc (type'.onList v' (type.onList v o).2).2
      = ⟨(type'.onList v' (type.onList v o).2).2.head, (type'.onList v' (type.onList v o).2).2.len⟩ :=
        rfl
    _ = (type.onList v (type'.onList v' o).2).2 := by rw [hhead, hlen]

lemma mem_onList (hne : v ≠ v') : v' ∈ (type.onList v o).2.head ↔ v' ∈ o.head := by
  cases type with
  | llcaInsert => simp [onList, List.mem_orderedInsert, Ne.symm hne]
  | llcaRemove => simp [onList, List.mem_erase_of_ne (Ne.symm hne)]
  | _ => rfl

lemma onList_reply (hne : v ≠ v') :
    (type'.onList v' (type.onList v o).2).1 = (type'.onList v' o).1 := by
  cases type' with
  | llcaRemove | llcaContains =>
    change (if v' ∈ (type.onList v o).2.head then _ else _) = if v' ∈ o.head then _ else _
    rw [if_congr (mem_onList hne) rfl rfl]
  | _ => rfl

end EventType

def EventType.onSet (v : Int64) (sl : LlcaConcObj) : EventType → String × LlcaConcObj
  | llcaConcRemove => (if v ∈ sl then "OK" else "ERR: value does not exist", sl.erase v)
  | llcaConcContains => (if v ∈ sl then "OK" else "ERR: value does not exist", sl)
  | llcaConcInsert => (if v ∈ sl then "ERR: value exists" else "OK", insert v sl)
  | _ => ("", sl)

namespace EventType

variable {type type' : EventType} {v v' : Int64} {sl : LlcaConcObj}

lemma keySpec_set (htype : type.OnValues) (v : Int64) (sl : LlcaConcObj) :
    type.keySpec (some v) (some (.set sl)) =
      (.simpleString (type.onSet v sl).1, some (.set (type.onSet v sl).2)) := by
  cases type with
  | llcaConcInsert | llcaConcRemove | llcaConcContains => simp [keySpec, concSetSpec, onSet]
  | _ => cases htype

lemma mem_onSet (hne : v ≠ v') : v' ∈ (type.onSet v sl).2 ↔ v' ∈ sl := by
  cases type <;> simp [onSet, Ne.symm hne]

lemma onSet_comm (hne : v ≠ v') :
    (type'.onSet v' (type.onSet v sl).2).2 = (type.onSet v (type'.onSet v' sl).2).2 := by
  cases type with
  | llcaConcInsert =>
    cases type' with
    | llcaConcInsert => exact Finset.insert_comm v' v sl
    | llcaConcRemove => exact Finset.erase_insert_of_ne hne
    | _ => rfl
  | llcaConcRemove =>
    cases type' with
    | llcaConcInsert => exact (Finset.erase_insert_of_ne hne.symm).symm
    | llcaConcRemove => exact Finset.erase_right_comm
    | _ => rfl
  | _ => rfl

lemma onSet_reply (hne : v ≠ v') :
    (type'.onSet v' (type.onSet v sl).2).1 = (type'.onSet v' sl).1 := by
  cases type' with
  | llcaConcRemove | llcaConcContains | llcaConcInsert =>
    change (if v' ∈ (type.onSet v sl).2 then _ else _) = if v' ∈ sl then _ else _
    rw [if_congr (mem_onSet hne) rfl rfl]
  | _ => rfl

end EventType

section Commands

variable [StringToLongLong]

/-- Commands for different keys, or for different values under a key that holds a list or a set. -/
inductive Independent (ks : Keyspace) (type : EventType) (argv : List RedisModuleString)
    (type' : EventType) (argv' : List RedisModuleString) : Prop
  | keys (h : ∀ key, argv[1]? = some key → argv'[1]? ≠ some key)
  | lists (key : RedisModuleString) (o : LlcaObj) (v v' : Int64) (htype : type.OnList)
      (htype' : type'.OnList) (hc : ks key = some (.list o)) (hkey : argv[1]? = some key)
      (hkey' : argv'[1]? = some key) (hv : argv[2]?.bind StringToLongLong.parse = some v)
      (hv' : argv'[2]?.bind StringToLongLong.parse = some v') (hne : v ≠ v')
  | sets (key : RedisModuleString) (sl : LlcaConcObj) (v v' : Int64) (htype : type.OnValues)
      (htype' : type'.OnValues) (hc : ks key = some (.set sl)) (hkey : argv[1]? = some key)
      (hkey' : argv'[1]? = some key) (hv : argv[2]?.bind StringToLongLong.parse = some v)
      (hv' : argv'[2]?.bind StringToLongLong.parse = some v') (hne : v ≠ v')

/-- The reply of the second event does not change, and both orders leave the same keyspace. -/
structure Commute (ks : Keyspace) (type : EventType) (argv : List RedisModuleString)
    (type' : EventType) (argv' : List RedisModuleString) : Prop where
  reply : (type'.spec argv' (type.spec argv ks).2).1 = (type'.spec argv' ks).1
  keyspace : (type'.spec argv' (type.spec argv ks).2).2 = (type.spec argv (type'.spec argv' ks).2).2

variable {ks : Keyspace} {type type' : EventType} {argv argv' : List RedisModuleString}

lemma Commute.of_arity (h : argv.length ≠ type.arity ∨ argv'.length ≠ type'.arity) :
    Commute ks type argv type' argv' := by
  rcases h with hlen | hlen
  · constructor <;> simp only [EventType.spec_of_arity hlen]
  · constructor <;> simp only [EventType.spec_of_arity hlen]

lemma Commute.of_key {key : RedisModuleString} (hkey : argv[1]? = some key)
    (hkey' : argv'[1]? = some key)
    (hreply : (type'.keySpec (type'.value argv') (type.keySpec (type.value argv) (ks key)).2).1 =
      (type'.keySpec (type'.value argv') (ks key)).1)
    (hcomm : (type'.keySpec (type'.value argv') (type.keySpec (type.value argv) (ks key)).2).2 =
      (type.keySpec (type.value argv) (type'.keySpec (type'.value argv') (ks key)).2).2) :
    Commute ks type argv type' argv' := by
  by_cases hlen : argv.length = type.arity
  · by_cases hlen' : argv'.length = type'.arity
    · constructor
      · simpa [EventType.spec, hkey, hkey', hlen, hlen'] using hreply
      · simp [EventType.spec, hkey, hkey', hlen, hlen', hcomm]
    · exact .of_arity (.inr hlen')
  · exact .of_arity (.inl hlen)

lemma Commute.of_keys (h : ∀ key, argv[1]? = some key → argv'[1]? ≠ some key) :
    Commute ks type argv type' argv' := by
  cases hkey : argv[1]? with
  | none => constructor <;> simp [EventType.spec, hkey]
  | some key =>
    cases hkey' : argv'[1]? with
    | none => constructor <;> simp [EventType.spec, hkey']
    | some key' =>
      have hne : key ≠ key' := fun heq => h key hkey (heq ▸ hkey')
      by_cases hlen : argv.length = type.arity
      · by_cases hlen' : argv'.length = type'.arity
        · constructor
          · simp [EventType.spec, hkey, hkey', hlen, hlen', Function.update_of_ne hne.symm]
          · simp [EventType.spec, hkey, hkey', hlen, hlen', Function.update_of_ne hne.symm,
              Function.update_of_ne hne, Function.update_comm hne]
        · exact .of_arity (.inr hlen')
      · exact .of_arity (.inl hlen)

lemma Independent.symm (h : Independent ks type argv type' argv') :
    Independent ks type' argv' type argv := by
  cases h with
  | keys h => exact .keys fun key hkey' hkey => h key hkey hkey'
  | lists key o v v' htype htype' hc hkey hkey' hv hv' hne =>
    exact .lists key o v' v htype' htype hc hkey' hkey hv' hv hne.symm
  | sets key sl v v' htype htype' hc hkey hkey' hv hv' hne =>
    exact .sets key sl v' v htype' htype hc hkey' hkey hv' hv hne.symm

lemma value_of_arity {v : Int64} (harity : type.arity = 3)
    (hv : argv[2]?.bind StringToLongLong.parse = some v) : type.value argv = some v := by
  simp [EventType.value, harity, hv]

lemma Independent.commute (hsorted : SortedLists ks) (h : Independent ks type argv type' argv') :
    Commute ks type argv type' argv' := by
  cases h with
  | keys h => exact .of_keys h
  | lists key o v v' htype htype' hc hkey hkey' hv hv' hne =>
    have harity : ∀ {type : EventType}, type.OnList → type.arity = 3 := by
      intro type htype
      cases type <;> first | rfl | cases htype
    have hvalue := value_of_arity (harity htype) hv
    have hvalue' := value_of_arity (harity htype') hv'
    apply Commute.of_key hkey hkey'
    · rw [hvalue, hvalue', hc, EventType.keySpec_list htype, EventType.keySpec_list htype',
        EventType.keySpec_list htype', EventType.onList_reply hne]
    · rw [hvalue, hvalue', hc, EventType.keySpec_list htype, EventType.keySpec_list htype',
        EventType.keySpec_list htype', EventType.keySpec_list htype,
        EventType.onList_comm (hsorted key o hc) hne]
  | sets key sl v v' htype htype' hc hkey hkey' hv hv' hne =>
    have harity : ∀ {type : EventType}, type.OnValues → type.arity = 3 := by
      intro type htype
      cases type <;> first | rfl | cases htype
    have hvalue := value_of_arity (harity htype) hv
    have hvalue' := value_of_arity (harity htype') hv'
    apply Commute.of_key hkey hkey'
    · rw [hvalue, hvalue', hc, EventType.keySpec_set htype, EventType.keySpec_set htype',
        EventType.keySpec_set htype', EventType.onSet_reply hne]
    · rw [hvalue, hvalue', hc, EventType.keySpec_set htype, EventType.keySpec_set htype',
        EventType.keySpec_set htype', EventType.keySpec_set htype, EventType.onSet_comm hne]

/-- Independent commands, run alone in either order, get the same replies and leave the same
keyspace. -/
theorem independent_commands_commute {name name' : CommandName} {st : Store} (hst : st.Sound)
    (hsorted : SortedLists st.content)
    (h : Independent st.content name.event argv name'.event argv') :
    ∃ st₁ st₂ r r', runCommands [(name, argv), (name', argv')] st = some (st₁, [[r], [r']]) ∧
      runCommands [(name', argv'), (name, argv)] st = some (st₂, [[r'], [r]]) ∧
      st₁.content = st₂.content := by
  have hcomm := h.commute hsorted
  have hcomm' := h.symm.commute hsorted
  obtain ⟨st₁, hrun₁, _, hcontent₁⟩ := runCommands_spec [(name, argv), (name', argv')] hst
  obtain ⟨st₂, hrun₂, _, hcontent₂⟩ := runCommands_spec [(name', argv'), (name, argv)] hst
  refine ⟨st₁, st₂, (name.event.spec argv st.content).1, (name'.event.spec argv' st.content).1,
    ?_, ?_, ?_⟩
  · rw [hrun₁]
    simp [specCommands, hcomm.reply]
  · rw [hrun₂]
    simp [specCommands, hcomm'.reply]
  · rw [hcontent₁, hcontent₂]
    exact hcomm.keyspace

end Commands

/-- An insertion and a removal next to each other in a list. -/
theorem independent_commands_commute_neighbours : ∃ st st₁ st₂ r r',
    st.content "k" = some (.list ⟨[3, 5], 2⟩) ∧
    @runCommands decimalStrings [(.llcaTypeInsert, ["llca_type.insert", "k", "4"]),
      (.llcaTypeRemove, ["llca_type.remove", "k", "5"])] st = some (st₁, [[r], [r']]) ∧
    @runCommands decimalStrings [(.llcaTypeRemove, ["llca_type.remove", "k", "5"]),
      (.llcaTypeInsert, ["llca_type.insert", "k", "4"])] st = some (st₂, [[r'], [r]]) ∧
    st₁.content = st₂.content := by
  let _ := decimalStrings
  obtain ⟨st, _, hsound, hcontent⟩ := runCommands_spec
    [(.llcaTypeInsert, ["llca_type.insert", "k", "5"]),
      (.llcaTypeInsert, ["llca_type.insert", "k", "3"])] Store.sound_empty
  have hk : st.content "k" = some (.list ⟨[3, 5], 2⟩) := by
    rw [hcontent]
    decide
  have hsorted : SortedLists st.content := by
    rw [hcontent]
    exact specCommands_sorted _ fun key o ho => nomatch ho
  have hind : Independent st.content (CommandName.event .llcaTypeInsert)
      ["llca_type.insert", "k", "4"] (CommandName.event .llcaTypeRemove)
      ["llca_type.remove", "k", "5"] :=
    .lists "k" ⟨[3, 5], 2⟩ 4 5 trivial trivial hk rfl rfl (by decide) (by decide) (by decide)
  obtain ⟨st₁, st₂, r, r', h⟩ := independent_commands_commute hsound hsorted hind
  exact ⟨st, st₁, st₂, r, r', hk, h⟩

end RedPar
