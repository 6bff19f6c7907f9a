import RedPar.Proofs.CommandSpec

/-!
# The command layer

Each command, run alone, replies once and reads only its own arguments. It changes at most the
key it names. There it does nothing when one of its checks refuses it, and what it was asked to
do otherwise.
-/

namespace RedPar
open Interleaved

def Content.Holds (v : Int64) : Content → Prop
  | .list o => v ∈ o.head
  | .set sl => v ∈ sl
  | .other _ => False

namespace EventType

/-- The key holds a value of the type that the event works on. -/
def Accepts : EventType → Content → Prop
  | llcaRemove, .list _ | llcaContains, .list _ | llcaInsert, .list _ => True
  | llcaConcCreate, .set _ | llcaConcDelete, .set _ => True
  | llcaConcRemove, .set _ | llcaConcContains, .set _ | llcaConcInsert, .set _ => True
  | _, _ => False

/-- The reasons to leave a key as it is: by the event, the integer that its argument spells,
and what the key holds. -/
inductive KeyRefused : EventType → Option Int64 → Option Content → Prop
  | notInteger {type : EventType} {c : Option Content} (htype : type.arity = 3) :
      KeyRefused type none c
  | otherType {type : EventType} {value : Option Int64} {c : Content} (hc : ¬type.Accepts c) :
      KeyRefused type value (some c)
  | absent {type : EventType} {value : Option Int64} (hcreate : type ≠ llcaConcCreate)
      (hinsert : type ≠ llcaInsert) : KeyRefused type value none
  | keyExists {value : Option Int64} {c : Content} : KeyRefused llcaConcCreate value (some c)
  | valueAbsent {type : EventType} {v : Int64} {c : Content}
      (htype : type = llcaRemove ∨ type = llcaConcRemove) (hv : ¬c.Holds v) :
      KeyRefused type (some v) (some c)
  | valuePresent {v : Int64} {c : Content} (hv : c.Holds v) :
      KeyRefused llcaConcInsert (some v) (some c)
  | isContains {type : EventType} {value : Option Int64} {c : Option Content}
      (htype : type = llcaContains ∨ type = llcaConcContains) : KeyRefused type value c

/-- What the events were asked to do: by the integer, and the contents before and after. -/
inductive Requested : EventType → Option Int64 → Option Content → Option Content → Prop
  | create : Requested llcaConcCreate none none (some (.set ∅))
  | delete (sl : LlcaConcObj) : Requested llcaConcDelete none (some (.set sl)) none
  | listCreate (v : Int64) (o : LlcaObj) (hvalues : o.values = {v}) :
      Requested llcaInsert (some v) none (some (.list o))
  | listInsert (v : Int64) (o o' : LlcaObj) (hvalues : o'.values = v ::ₘ o.values)
      (hsorted : o.Sorted → o'.Sorted) :
      Requested llcaInsert (some v) (some (.list o)) (some (.list o'))
  | listRemove (v : Int64) (o o' : LlcaObj) (hvalues : o.values = v ::ₘ o'.values)
      (hsorted : o.Sorted → o'.Sorted) :
      Requested llcaRemove (some v) (some (.list o)) (some (.list o'))
  | setInsert (v : Int64) (sl : LlcaConcObj) (hv : v ∉ sl) :
      Requested llcaConcInsert (some v) (some (.set sl)) (some (.set (insert v sl)))
  | setRemove (v : Int64) (sl : LlcaConcObj) (hv : v ∈ sl) :
      Requested llcaConcRemove (some v) (some (.set sl)) (some (.set (sl.erase v)))

lemma keySpec_refused {type : EventType} {value : Option Int64} {c : Option Content}
    (h : KeyRefused type value c) : (type.keySpec value c).2 = c := by
  cases h with
  | @notInteger _ c htype =>
    cases type <;> cases htype <;> rcases c with _ | _ | _ | _ <;> rfl
  | @otherType _ value c hc =>
    cases type <;> rcases c with _ | _ | _ <;> cases value <;>
      first | rfl | exact absurd trivial hc
  | @absent _ value hcreate hinsert =>
    cases type <;> cases value <;> first | rfl | contradiction
  | keyExists => rfl
  | @valueAbsent _ v c htype hv =>
    rcases htype with rfl | rfl <;> rcases c with o | sl | _ <;> try rfl
    · have hsame : o.head.erase v = o.head := List.erase_of_not_mem hv
      simp only [keySpec, llcaSpec, hsame]
    · have hsame : sl.erase v = sl := Finset.erase_eq_of_notMem hv
      simp only [keySpec, concSetSpec, hsame]
  | @valuePresent v c hv =>
    rcases c with o | sl | _ <;> try rfl
    have hsame : insert v sl = sl := Finset.insert_eq_self.mpr hv
    simp only [keySpec, concSetSpec, hsame]
  | @isContains _ value c htype =>
    rcases htype with rfl | rfl <;> rcases c with _ | _ | _ | _ <;> cases value <;> rfl

/-- A list, or nothing, that no check of `llca_insert` refuses. -/
lemma requested_llcaInsert {value : Option Int64} {c : Option Content}
    (h : ¬KeyRefused llcaInsert value c) :
    Requested llcaInsert value c (llcaInsert.keySpec value c).2 := by
  cases value with
  | none => exact absurd (.notInteger rfl) h
  | some v =>
    rcases c with _ | o | sl | other
    · exact .listCreate v ⟨[v], 1⟩ rfl
    · have heq : (llcaInsert.keySpec (some v) (some (.list o))).2 = some (.list (RedPar.llcaInsert o v)) := by
        simp only [keySpec, llcaSpec, llcaInsert_eq]
      rw [heq]
      exact .listInsert v o _ (llcaInsert_values o v) fun hsorted => llcaInsert_sorted hsorted v
    · exact absurd (.otherType id) h
    · exact absurd (.otherType id) h

lemma requested_llcaRemove {value : Option Int64} {c : Option Content}
    (h : ¬KeyRefused llcaRemove value c) :
    Requested llcaRemove value c (llcaRemove.keySpec value c).2 := by
  cases value with
  | none => exact absurd (.notInteger rfl) h
  | some v =>
    rcases c with _ | o | sl | other
    · exact absurd (.absent nofun nofun) h
    · have hv : v ∈ o.head := by
        by_contra hv
        exact h (.valueAbsent (.inl rfl) hv)
      refine .listRemove v o _ ?_ fun hsorted => hsorted.sublist List.erase_sublist
      exact (Multiset.cons_erase hv).symm
    · exact absurd (.otherType id) h
    · exact absurd (.otherType id) h

lemma keySpec_requested {type : EventType} {value : Option Int64} {c : Option Content}
    (hvalue : type.arity ≠ 3 → value = none) (h : ¬KeyRefused type value c) :
    Requested type value c (type.keySpec value c).2 := by
  cases type with
  | llcaInsert => exact requested_llcaInsert h
  | llcaRemove => exact requested_llcaRemove h
  | llcaContains | llcaConcContains => exact absurd (.isContains (by simp)) h
  | llcaConcCreate =>
    cases hvalue (by decide)
    cases c with
    | none => exact .create
    | some c => exact absurd .keyExists h
  | llcaConcDelete =>
    cases hvalue (by decide)
    rcases c with _ | o | sl | other
    · exact absurd (.absent nofun nofun) h
    · exact absurd (.otherType id) h
    · exact .delete sl
    · exact absurd (.otherType id) h
  | llcaConcRemove =>
    cases value with
    | none => exact absurd (.notInteger rfl) h
    | some v =>
      rcases c with _ | o | sl | other
      · exact absurd (.absent nofun nofun) h
      · exact absurd (.otherType id) h
      · exact .setRemove v sl (not_not.mp fun hv => h (.valueAbsent (.inr rfl) hv))
      · exact absurd (.otherType id) h
  | llcaConcInsert =>
    cases value with
    | none => exact absurd (.notInteger rfl) h
    | some v =>
      rcases c with _ | o | sl | other
      · exact absurd (.absent nofun nofun) h
      · exact absurd (.otherType id) h
      · exact .setInsert v sl fun hv => h (.valuePresent hv)
      · exact absurd (.otherType id) h

variable [StringToLongLong]

/-- The reasons to leave the whole keyspace as it is. -/
def Refused (type : EventType) (argv : List RedisModuleString) (ks : Keyspace) : Prop :=
  argv.length ≠ type.arity ∨
    ∃ key, argv[1]? = some key ∧ KeyRefused type (type.value argv) (ks key)

lemma spec_refused {type : EventType} {argv : List RedisModuleString} {ks : Keyspace}
    (h : type.Refused argv ks) : (type.spec argv ks).2 = ks := by
  unfold spec
  split
  · rename_i key hkey
    split
    · rename_i hlen
      rcases h with hne | ⟨key', hkey', hrefused⟩
      · exact absurd hlen hne
      · cases hkey.symm.trans hkey'
        simp only [keySpec_refused hrefused, Function.update_eq_self]
    · rfl
  · rfl

lemma spec_other {type : EventType} {argv : List RedisModuleString} {ks : Keyspace}
    {key : RedisModuleString} (h : argv[1]? ≠ some key) : (type.spec argv ks).2 key = ks key := by
  unfold spec
  split
  · rename_i key' hkey
    split
    · have hne : key ≠ key' := fun heq => h (heq ▸ hkey)
      exact Function.update_of_ne hne _ _
    · rfl
  · rfl

lemma spec_requested {type : EventType} {argv : List RedisModuleString} {ks : Keyspace}
    (h : ¬type.Refused argv ks) : ∃ key, argv[1]? = some key ∧
      Requested type (type.value argv) (ks key) ((type.spec argv ks).2 key) := by
  obtain ⟨hlen, hkey⟩ := not_or.mp h
  have hlen' : argv.length = type.arity := not_not.mp hlen
  have hlt : 1 < argv.length := by
    rw [hlen']
    cases type <;> decide
  have harg : argv[1]? = some argv[1] := List.getElem?_eq_getElem hlt
  have hnot : ¬KeyRefused type (type.value argv) (ks argv[1]) := fun hr => hkey ⟨_, harg, hr⟩
  have hspec : (type.spec argv ks).2 argv[1] =
      (type.keySpec (type.value argv) (ks argv[1])).2 := by
    simp [spec, harg, hlen']
  refine ⟨_, harg, ?_⟩
  rw [hspec]
  exact keySpec_requested (fun hne => if_neg hne) hnot

end EventType

section Alone

variable [StringToLongLong]

lemma runCommand_answers (name : CommandName) (argv : List RedisModuleString) {st : Store}
    (h : st.Sound) : ∃ st' calls, runCommand name argv st = some (st', calls) ∧
      Answers name.event argv st st' calls := by
  obtain ⟨_, st', calls, hrun, ha⟩ :=
    Prog.wp_iff_run.mp (wp_execute argv h name.event (name.handler = .seq))
  exact ⟨st', calls, by rw [runCommand, hrun]; rfl, ha⟩

/-- Each command, run alone on any sound store and any arguments, sends one reply, reads no
argument that is not there, leaves other keys as they are, leaves every key as it is when it is
refused, and else does what was requested. -/
theorem command_layer (name : CommandName) (argv : List RedisModuleString) (st : Store)
    (h : st.Sound) : ∃ st' calls r, runCommand name argv st = some (st', calls) ∧ st'.Sound ∧
      calls.filterMap Call.reply? = [r] ∧ (∀ i, .argv i ∈ calls → i < argv.length) ∧
      (∀ key, argv[1]? ≠ some key → st'.content key = st.content key) ∧
      (name.event.Refused argv st.content → st'.content = st.content) ∧
      (¬name.event.Refused argv st.content → ∃ key, argv[1]? = some key ∧
        name.event.Requested (name.event.value argv) (st.content key) (st'.content key)) := by
  obtain ⟨st', calls, hrun, ha⟩ := runCommand_answers name argv h
  refine ⟨st', calls, _, hrun, ha.sound, ha.replies, ha.inBounds, fun key hkey => ?_,
    fun hr => ?_, fun hr => ?_⟩ <;> rw [ha.content]
  · exact EventType.spec_other hkey
  · exact EventType.spec_refused hr
  · exact EventType.spec_requested hr

end Alone

/-- The first insertion creates the list of its key. -/
theorem command_layer_first_insert : ∃ st' calls r,
    @runCommand decimalStrings .llcaTypeInsert ["llca_type.insert", "k", "5"] .empty =
        some (st', calls) ∧
      calls.filterMap Call.reply? = [r] ∧
      ∃ key, ["llca_type.insert", "k", "5"][1]? = some key ∧
        EventType.llcaInsert.Requested (some 5) none (st'.content key) := by
  let _ := decimalStrings
  obtain ⟨st', calls, r, hrun, _, hreply, _, _, _, hrequested⟩ :=
    command_layer .llcaTypeInsert ["llca_type.insert", "k", "5"] .empty Store.sound_empty
  have hnot : ¬EventType.llcaInsert.Refused ["llca_type.insert", "k", "5"] Store.empty.content := by
    rintro (hlen | ⟨key, _, hrefused⟩)
    · exact hlen rfl
    · cases hrefused with
      | absent _ hinsert => exact hinsert rfl
      | isContains htype => simp at htype
  exact ⟨st', calls, r, hrun, hreply, hrequested hnot⟩

end RedPar
