import RedPar.Proofs.CommandLayer
import RedPar.Proofs.RdbRoundTrip

/-!
# Rewriting and replaying the append-only file

`llca_aof_rewrite` emits one insertion for each node. Replayed on an empty keyspace they rebuild
each list that has a node; a list that removals have emptied emits nothing, and its key is gone.
-/

namespace RedPar
open Interleaved

section Rewrite

variable [StringToLongLong]

/-- The specified keyspace and replies of a sequence of commands. -/
def specCommands : List (CommandName × List RedisModuleString) → Keyspace → Keyspace × List Reply
  | [], ks => (ks, [])
  | (name, argv) :: cmds, ks =>
    let r := name.event.spec argv ks
    let rest := specCommands cmds r.2
    (rest.1, r.1 :: rest.2)

/-- On a sound store the commands run to the end and do what is specified. -/
theorem runCommands_spec (cmds : List (CommandName × List RedisModuleString)) {st : Store}
    (h : st.Sound) : ∃ st', runCommands cmds st =
      some (st', (specCommands cmds st.content).2.map fun r => [r]) ∧ st'.Sound ∧
        st'.content = (specCommands cmds st.content).1 := by
  induction cmds generalizing st with
  | nil => exact ⟨st, rfl, h, rfl⟩
  | cons cmd cmds ih =>
    obtain ⟨name, argv⟩ := cmd
    obtain ⟨st₁, calls, hrun, ha⟩ := runCommand_answers name argv h
    obtain ⟨st', hrest, hsound, hcontent⟩ := ih ha.sound
    rw [ha.content] at hrest hcontent
    refine ⟨st', ?_, hsound, hcontent⟩
    simp only [runCommands, hrun, hrest, ha.replies, Option.bind_eq_bind, Option.bind_some]
    rfl

omit [StringToLongLong] in
lemma llcaAofRewriteLoop_eq (aof : List AofCommand) (key : RedisModuleString)
    (values : List Int64) : llcaAofRewriteLoop aof key values =
      aof ++ values.map fun value => ⟨"LLCA_TYPE.INSERT", [key, decimal value]⟩ := by
  induction values generalizing aof with
  | nil => simp [llcaAofRewriteLoop]
  | cons value values ih => simp [llcaAofRewriteLoop, ih, emitAOF]

lemma replay_append (aof aof' : List AofCommand) (st : Store) :
    replay (aof ++ aof') st = (replay aof st).bind (replay aof') := by
  induction aof generalizing st with
  | nil => rfl
  | cons cmd aof ih =>
    simp only [List.cons_append, replay, Option.bind_eq_bind, ih, Option.bind_assoc]

omit [StringToLongLong] in
lemma lookup_insert : CommandName.lookup "LLCA_TYPE.INSERT" = some .llcaTypeInsert := by
  decide

/-- The emitted insertions of one key. -/
def insertions (key : RedisModuleString) (values : List Int64) : List AofCommand :=
  values.map fun value => ⟨"LLCA_TYPE.INSERT", [key, decimal value]⟩

def listValues : Option Content → Option (List Int64)
  | some (.list o) => some o.head
  | _ => none

omit [StringToLongLong] in
lemma aofRewrite_cons {st : Store} (h : st.Sound) (key : RedisModuleString)
    (keys : List RedisModuleString) : aofRewrite st (key :: keys) =
      insertions key ((listValues (st.content key)).getD []) ++ aofRewrite st keys := by
  cases h.keyState key with
  | absent hk hc => simp [aofRewrite, hk, hc, listValues, insertions]
  | list ptr o hk hobj hc =>
    have ho : st.llcaAt ptr = some o := by simp [Store.llcaAt, hobj]
    simp [aofRewrite, hk, hc, ho, listValues, insertions, llcaAofRewrite, llcaAofRewriteLoop_eq]
  | set ptr sl hk hobj hc => simp [aofRewrite, hk, hc, listValues, insertions]
  | other v hk hv hc =>
    have hnot : ∀ ptr, v ≠ .module .llca ptr := by
      rintro ptr rfl
      cases hv
    simp [aofRewrite, hk, hc, listValues, insertions, hnot]

def insertAll (c : Option Content) (values : List Int64) : Option Content :=
  values.foldl (fun c v => (EventType.llcaInsert.keySpec (some v) c).2) c

omit [StringToLongLong] in
lemma insertAll_list (o : LlcaObj) (values : List Int64) :
    insertAll (some (.list o)) values = some (.list (values.foldl llcaInsert o)) := by
  induction values generalizing o with
  | nil => rfl
  | cons value values ih =>
    rw [List.foldl_cons, ← ih, llcaInsert_eq]
    rfl

omit [StringToLongLong] in
lemma insertAll_none {values : List Int64} (h : values ≠ []) :
    insertAll none values = some (.list (values.foldl llcaInsert createLLCAObject)) := by
  cases values with
  | nil => contradiction
  | cons value values => exact insertAll_list ⟨[value], 1⟩ values

/-- The integer argument of an emitted command is read back. -/
def ReadsDecimal : Prop := ∀ v : Int64, StringToLongLong.parse (decimal v) = some v

lemma replay_insertions (hdecimal : ReadsDecimal) (key : RedisModuleString) (values : List Int64)
    {st : Store} (h : st.Sound) : ∃ st', replay (insertions key values) st = some st' ∧ st'.Sound ∧
      st'.content = Function.update st.content key (insertAll (st.content key) values) := by
  induction values generalizing st with
  | nil => exact ⟨st, rfl, h, (Function.update_eq_self key st.content).symm⟩
  | cons v values ih =>
    obtain ⟨st₁, calls, hrun, ha⟩ :=
      runCommand_answers .llcaTypeInsert ["LLCA_TYPE.INSERT", key, decimal v] h
    have hcontent : st₁.content = Function.update st.content key
        (EventType.llcaInsert.keySpec (some v) (st.content key)).2 := by
      rw [ha.content, ← hdecimal v]
      rfl
    obtain ⟨st', hrest, hsound, hst'⟩ := ih ha.sound
    refine ⟨st', ?_, hsound, ?_⟩
    · change replay (⟨_, _⟩ :: insertions key values) st = some st'
      simp only [replay, lookup_insert, hrun, Option.bind_eq_bind, Option.bind_some, hrest]
    · rw [hst', hcontent, Function.update_idem, Function.update_self]
      rfl

/-- What a key holds after the replay. -/
def rebuilt (c : Option Content) : Option Content := insertAll none ((listValues c).getD [])

/-- The replay leaves in each key what was emitted for it. -/
lemma replay_aofRewrite (hdecimal : ReadsDecimal) {st : Store} (h : st.Sound)
    {keys : List RedisModuleString} (hnodup : keys.Nodup) {base : Store} (hbase : base.Sound)
    (habsent : ∀ key ∈ keys, base.content key = none) :
    ∃ st', replay (aofRewrite st keys) base = some st' ∧ st'.Sound ∧
      ∀ key, st'.content key = if key ∈ keys then rebuilt (st.content key) else base.content key := by
  induction keys generalizing base with
  | nil => exact ⟨base, rfl, hbase, fun key => by simp⟩
  | cons k keys ih =>
    obtain ⟨hk, hnodup'⟩ := List.nodup_cons.mp hnodup
    obtain ⟨st₁, hfirst, hsound₁, hcontent₁⟩ :=
      replay_insertions hdecimal k ((listValues (st.content k)).getD []) hbase
    rw [habsent k List.mem_cons_self] at hcontent₁
    have habsent₁ : ∀ key ∈ keys, st₁.content key = none := by
      intro key hkey
      have hne : key ≠ k := fun heq => hk (heq ▸ hkey)
      rw [hcontent₁, Function.update_of_ne hne]
      exact habsent key (List.mem_cons_of_mem _ hkey)
    obtain ⟨st', hrest, hsound, hcontent⟩ := ih hnodup' hsound₁ habsent₁
    refine ⟨st', by rw [aofRewrite_cons h, replay_append, hfirst, Option.bind_some, hrest],
      hsound, fun key => ?_⟩
    rw [hcontent, hcontent₁]
    by_cases hkey : key = k
    · subst hkey
      simp [hk, rebuilt]
    · simp [hkey]

/-- Nothing, or lists with the same values. -/
inductive Alike : Option Content → Option Content → Prop
  | absent : Alike none none
  | list {o o' : LlcaObj} (h : o.head = o'.head) : Alike (some (.list o)) (some (.list o'))

omit [StringToLongLong] in
lemma Alike.keySpec {c c' : Option Content} (h : Alike c c') {type : EventType}
    (htype : type.OnList) (v : Option Int64) :
    (type.keySpec v c).1 = (type.keySpec v c').1 ∧
      Alike (type.keySpec v c).2 (type.keySpec v c').2 := by
  cases h with
  | absent =>
    cases type <;> cases v <;> first | exact ⟨rfl, .absent⟩ | exact ⟨rfl, .list rfl⟩ | cases htype
  | list h =>
    cases type <;> cases v <;> first
      | exact ⟨rfl, .list h⟩
      | exact ⟨by simp [EventType.keySpec, EventType.llcaSpec, h],
          .list (by simp [h])⟩

/-- Each command is one of `llca.cpp` and does not name a key of another type. -/
def OnLists (ks : Keyspace) (cmds : List (CommandName × List RedisModuleString)) : Prop :=
  ∀ cmd ∈ cmds, cmd.1.event.OnList ∧
    ∀ key, cmd.2[1]? = some key → ks key = none ∨ ∃ o, ks key = some (.list o)

lemma spec_alike {type : EventType} (htype : type.OnList) {argv : List RedisModuleString}
    {ks ks' : Keyspace} (h : ∀ key, argv[1]? = some key → Alike (ks key) (ks' key)) :
    (type.spec argv ks).1 = (type.spec argv ks').1 ∧
      ∀ key, Alike (ks key) (ks' key) →
        Alike ((type.spec argv ks).2 key) ((type.spec argv ks').2 key) := by
  cases hkey : argv[1]? with
  | none => simp [EventType.spec, hkey]
  | some key =>
    by_cases hlen : argv.length = type.arity
    · obtain ⟨hreply, halike⟩ := (h key hkey).keySpec htype (type.value argv)
      simp only [EventType.spec, hkey, hlen, if_true]
      refine ⟨hreply, fun other hother => ?_⟩
      by_cases hne : other = key
      · subst hne
        simpa using halike
      · simpa [hne] using hother
    · simp [EventType.spec, hkey, hlen]

lemma specCommands_alike {cmds : List (CommandName × List RedisModuleString)} {ks ks' : Keyspace}
    (h : ∀ cmd ∈ cmds, cmd.1.event.OnList ∧
      ∀ key, cmd.2[1]? = some key → Alike (ks key) (ks' key)) :
    (specCommands cmds ks).2 = (specCommands cmds ks').2 := by
  induction cmds generalizing ks ks' with
  | nil => rfl
  | cons cmd cmds ih =>
    obtain ⟨htype, hkey⟩ := h cmd List.mem_cons_self
    obtain ⟨hreply, halike⟩ := spec_alike htype hkey
    have hrest := ih fun cmd' hcmd' =>
      let ⟨htype', hkey'⟩ := h cmd' (List.mem_cons_of_mem _ hcmd')
      ⟨htype', fun key hk => halike key (hkey' key hk)⟩
    simp only [specCommands, hreply, hrest]

omit [StringToLongLong] in
lemma listValues_eq_some {c : Option Content} {values : List Int64} (h : listValues c = some values) :
    ∃ o, c = some (.list o) ∧ o.head = values := by
  rcases c with _ | o | sl | v
  · cases h
  · exact ⟨o, rfl, Option.some.inj h⟩
  · cases h
  · cases h

def SortedLists (ks : Keyspace) : Prop := ∀ key o, ks key = some (.list o) → o.Sorted

omit [StringToLongLong] in
lemma keySpec_sorted {type : EventType} {v : Option Int64} {c : Option Content}
    (hv : type.arity ≠ 3 → v = none) (h : ∀ o, c = some (.list o) → o.Sorted) :
    ∀ o, (type.keySpec v c).2 = some (.list o) → o.Sorted := by
  by_cases hr : EventType.KeyRefused type v c
  · rwa [EventType.keySpec_refused hr]
  · have hrequested := EventType.keySpec_requested hv hr
    rintro o ho
    rw [ho] at hrequested
    cases hrequested with
    | listCreate v o hvalues =>
      have hhead : o.head = [v] := Multiset.coe_eq_singleton.mp hvalues
      simp [LlcaObj.Sorted, hhead]
    | listInsert v o _ hvalues hsorted => exact hsorted (h o rfl)
    | listRemove v o _ hvalues hsorted => exact hsorted (h o rfl)

lemma specCommands_other {cmds : List (CommandName × List RedisModuleString)} {ks : Keyspace}
    {key : RedisModuleString} (h : ∀ cmd ∈ cmds, cmd.2[1]? ≠ some key) :
    (specCommands cmds ks).1 key = ks key := by
  induction cmds generalizing ks with
  | nil => rfl
  | cons cmd cmds ih =>
    have hfirst : (cmd.1.event.spec cmd.2 ks).2 key = ks key :=
      EventType.spec_other (h cmd List.mem_cons_self)
    rw [← hfirst]
    exact ih fun cmd' hcmd' => h cmd' (List.mem_cons_of_mem _ hcmd')

lemma specCommands_sorted (cmds : List (CommandName × List RedisModuleString)) {ks : Keyspace}
    (h : SortedLists ks) : SortedLists (specCommands cmds ks).1 := by
  induction cmds generalizing ks with
  | nil => exact h
  | cons cmd cmds ih =>
    refine ih fun key o ho => ?_
    by_cases hkey : cmd.2[1]? = some key
    · by_cases hlen : cmd.2.length = cmd.1.event.arity
      · simp only [EventType.spec, hkey, hlen, if_true, Function.update_self] at ho
        exact keySpec_sorted (fun hne => if_neg hne) (fun o ho => h key o ho) o ho
      · simp only [EventType.spec, hkey, hlen, if_false] at ho
        exact h key o ho
    · rw [EventType.spec_other hkey] at ho
      exact h key o ho

omit [StringToLongLong] in
lemma listValues_rebuilt {c : Option Content} (h : ∀ o, c = some (.list o) → o.Sorted) :
    listValues (rebuilt c) = listValues c ↔ listValues c ≠ some [] := by
  by_cases hc : ∃ o, c = some (.list o)
  · obtain ⟨o, rfl⟩ := hc
    by_cases hempty : o.head = []
    · simp [rebuilt, listValues, hempty, insertAll]
    · have hhead := foldl_llcaInsert_head (h o rfl)
      simp [rebuilt, listValues, insertAll_none hempty, hempty, hhead]
  · have hnone : listValues c = none := by
      cases hl : listValues c with
      | none => rfl
      | some values =>
        obtain ⟨o, ho, _⟩ := listValues_eq_some hl
        exact absurd ⟨o, ho⟩ hc
    have hrebuilt : rebuilt c = none := by
      rw [rebuilt, hnone]
      rfl
    rw [hrebuilt, hnone]
    simp [listValues]

omit [StringToLongLong] in
/-- A key that holds a list or nothing is rebuilt alike. -/
lemma alike_rebuilt {c : Option Content} (hc : c = none ∨ ∃ o, c = some (.list o))
    (h : listValues (rebuilt c) = listValues c) : Alike c (rebuilt c) := by
  rcases hc with rfl | ⟨o, rfl⟩
  · exact .absent
  · obtain ⟨o', ho', hhead⟩ := listValues_eq_some h
    rw [ho']
    exact .list hhead.symm

def SameLists (st st' : Store) : Prop :=
  ∀ key, listValues (st.content key) = listValues (st'.content key)

/-- No later commands of `llca.cpp`, on the keys that are not of another type in `st`, get other
replies in `st'`. -/
def SameReplies (st st' : Store) : Prop :=
  ∀ later, OnLists st.content later →
    (runCommands later st).map Prod.snd = (runCommands later st').map Prod.snd

omit [StringToLongLong] in
lemma sameLists_iff {st st' : Store} (hsorted : SortedLists st.content)
    (hrebuilt : ∀ key, st'.content key = rebuilt (st.content key)) :
    SameLists st st' ↔ ∀ key, listValues (st.content key) ≠ some [] := by
  refine forall_congr' fun key => ?_
  rw [hrebuilt, eq_comm]
  exact listValues_rebuilt fun o ho => hsorted key o ho

/-- A lookup in an empty list tells it from an absent one. -/
lemma sameReplies_iff (hdecimal : ReadsDecimal) {st st' : Store} (h : st.Sound) (h' : st'.Sound)
    (hsorted : SortedLists st.content)
    (hrebuilt : ∀ key, st'.content key = rebuilt (st.content key)) :
    SameReplies st st' ↔ ∀ key, listValues (st.content key) ≠ some [] := by
  have hrun : ∀ later, (runCommands later st).map Prod.snd = (runCommands later st').map Prod.snd ↔
      (specCommands later st.content).2 = (specCommands later st'.content).2 := by
    intro later
    obtain ⟨st₁, hrun₁, _, _⟩ := runCommands_spec later h
    obtain ⟨st₂, hrun₂, _, _⟩ := runCommands_spec later h'
    rw [hrun₁, hrun₂, Option.map_some, Option.map_some, Option.some_inj]
    exact List.map_inj_right fun _ _ h => (List.cons.inj h).1
  constructor
  · intro hsame key hkey
    obtain ⟨o, ho, hhead⟩ := listValues_eq_some hkey
    have hreplies := (hrun [(.llcaTypeContains, ["", key, decimal 0])]).mp <| hsame _ <| by
      rintro cmd hcmd
      cases List.mem_singleton.mp hcmd
      refine ⟨trivial, fun key' hk => ?_⟩
      cases hk
      exact .inr ⟨o, ho⟩
    have hvalue : EventType.llcaContains.value ["", key, decimal 0] = some 0 := hdecimal 0
    have hnone : st'.content key = none := by
      rw [hrebuilt, rebuilt, hkey]
      rfl
    simp [specCommands, EventType.spec, CommandName.event, CommandName.registration,
      EventType.arity, EventType.keySpec, EventType.llcaSpec, hvalue, ho, hhead, hnone] at hreplies
  · intro hne later hlater
    refine (hrun later).mpr (specCommands_alike fun cmd hcmd => ?_)
    obtain ⟨htype, hkey⟩ := hlater cmd hcmd
    refine ⟨htype, fun key hk => ?_⟩
    rw [hrebuilt]
    exact alike_rebuilt (hkey key hk)
      ((listValues_rebuilt fun o ho => hsorted key o ho).mpr (hne key))

/-- Replayed on an empty keyspace, the rewrite of the lists that a run of commands has built gives
the same lists, and ones that get the same replies, exactly if none of the lists is empty. -/
theorem aof_rewrite_iff (hdecimal : ReadsDecimal)
    (cmds : List (CommandName × List RedisModuleString)) {st₀ st : Store} {replies : List (List Reply)}
    (h₀ : st₀.Sound) (hno : ∀ key, listValues (st₀.content key) = none)
    (hrun : runCommands cmds st₀ = some (st, replies)) {keys : List RedisModuleString}
    (hnodup : keys.Nodup) (hkeys : ∀ key, listValues (st.content key) ≠ none → key ∈ keys) :
    ∃ st', replay (aofRewrite st keys) .empty = some st' ∧
      (SameLists st st' ↔ ∀ key, listValues (st.content key) ≠ some []) ∧
      (SameReplies st st' ↔ ∀ key, listValues (st.content key) ≠ some []) := by
  obtain ⟨st₁, hrun₁, hsound, hcontent⟩ := runCommands_spec cmds h₀
  cases hrun.symm.trans hrun₁
  have hsorted : SortedLists st.content := by
    rw [hcontent]
    refine specCommands_sorted cmds fun key o ho => ?_
    have hnone := hno key
    rw [ho] at hnone
    cases hnone
  obtain ⟨st', hreplay, hsound', hst'⟩ :=
    replay_aofRewrite hdecimal hsound hnodup Store.sound_empty fun _ _ => rfl
  have hrebuilt : ∀ key, st'.content key = rebuilt (st.content key) := by
    intro key
    rw [hst']
    by_cases hkey : key ∈ keys
    · rw [if_pos hkey]
    · have hnone := not_not.mp fun hne => hkey (hkeys key hne)
      rw [if_neg hkey, rebuilt, hnone]
      rfl
  exact ⟨st', hreplay, sameLists_iff hsorted hrebuilt,
    sameReplies_iff hdecimal hsound hsound' hsorted hrebuilt⟩

end Rewrite

lemma decimalStrings_readsDecimal : @ReadsDecimal decimalStrings := by
  intro v
  have hvalue : decimalValue (decimal v) = v.toInt := by
    unfold decimalValue decimal
    cases v.toInt with
    | ofNat n =>
      have hdigits : (Int.repr (.ofNat n)).toList = Nat.toDigits 10 n := Nat.toList_repr
      rw [hdigits]
      split
      · rename_i digits hminus
        have hdigit : '-'.isDigit := Nat.isDigit_of_mem_toDigits (b := 10) (n := n) (by decide)
          (by decide) (by rw [hminus]; exact List.mem_cons_self)
        cases hdigit
      · rw [Nat.ofDigitChars_ten_toDigits]
        rfl
    | negSucc n =>
      have hdigits : (Int.repr (.negSucc n)).toList = '-' :: Nat.toDigits 10 (n + 1) := by
        simp [Int.repr, Nat.toList_repr]
      rw [hdigits]
      simp only [Nat.ofDigitChars_ten_toDigits]
      rfl
  change (if decimal (.ofInt (decimalValue (decimal v))) = decimal v then
    some (Int64.ofInt (decimalValue (decimal v))) else none) = some v
  rw [hvalue, Int64.ofInt_toInt, if_pos rfl]

/-- A list with two values. -/
theorem aof_rewrite_two_values : ∃ st replies st',
    @runCommands decimalStrings [(.llcaTypeInsert, ["llca_type.insert", "k", "7"]),
      (.llcaTypeInsert, ["llca_type.insert", "k", "5"])] .empty = some (st, replies) ∧
    @replay decimalStrings (aofRewrite st ["k"]) .empty = some st' ∧
    (SameLists st st' ↔ ∀ key, listValues (st.content key) ≠ some []) := by
  let _ := decimalStrings
  let cmds := [(CommandName.llcaTypeInsert, ["llca_type.insert", "k", "7"]),
    (CommandName.llcaTypeInsert, ["llca_type.insert", "k", "5"])]
  obtain ⟨st, hrun, _, hcontent⟩ := runCommands_spec cmds Store.sound_empty
  have hkeys : ∀ key, listValues (st.content key) ≠ none → key ∈ ["k"] := by
    intro key hkey
    by_contra hne
    refine hkey ?_
    rw [hcontent, specCommands_other]
    · rfl
    · simpa [cmds, eq_comm] using hne
  obtain ⟨st', hreplay, hlists, _⟩ := aof_rewrite_iff decimalStrings_readsDecimal cmds
    Store.sound_empty (fun _ => rfl) hrun (List.nodup_singleton "k") hkeys
  exact ⟨st, _, st', hrun, hreplay, hlists⟩

/-- A value that was inserted and removed leaves an empty list, and the replay leaves no key. -/
theorem aof_rewrite_fails :
    ¬∀ (cmds : List (CommandName × List RedisModuleString)) (st : Store) (replies : List (List Reply))
      (keys : List RedisModuleString), @runCommands decimalStrings cmds .empty = some (st, replies) →
      keys.Nodup → (∀ key, listValues (st.content key) ≠ none → key ∈ keys) →
      ∃ st', @replay decimalStrings (aofRewrite st keys) .empty = some st' ∧ SameLists st st' ∧
        @SameReplies decimalStrings st st' := by
  let _ := decimalStrings
  intro hall
  let cmds := [(CommandName.llcaTypeInsert, ["llca_type.insert", "k", "5"]),
    (CommandName.llcaTypeRemove, ["llca_type.remove", "k", "5"])]
  obtain ⟨st, hrun, hsound, hcontent⟩ := runCommands_spec cmds Store.sound_empty
  have hkeys : ∀ key, listValues (st.content key) ≠ none → key ∈ ["k"] := by
    intro key hkey
    by_contra hne
    refine hkey ?_
    rw [hcontent, specCommands_other]
    · rfl
    · simpa [cmds, eq_comm] using hne
  have hempty : listValues (st.content "k") = some [] := by
    rw [hcontent]
    decide
  obtain ⟨st', hreplay, hlists, _⟩ := hall cmds st _ ["k"] hrun (List.nodup_singleton "k") hkeys
  have haof : aofRewrite st ["k"] = [] := by
    rw [aofRewrite_cons hsound, hempty]
    rfl
  rw [haof] at hreplay
  cases hreplay
  have hsame := hlists "k"
  rw [hempty] at hsame
  cases hsame

end RedPar
