import RedPar.Proofs.LlcaList

/-!
# Saving and loading lists

`llca_rdb_save` writes the counter `len` and then one field for each node; `llca_rdb_load`
reads as many values as the counter says. The two agree exactly on the lists whose counter is
their length, and since `llca_remove` never writes `len`, these are the lists from which
nothing has been taken away.
-/

namespace RedPar
open Objects

lemma llcaRdbSaveLoop_eq (rdb : List RdbField) (values : List Int64) :
    llcaRdbSaveLoop rdb values = rdb ++ values.map .ofValue := by
  induction values generalizing rdb with
  | nil => simp [llcaRdbSaveLoop]
  | cons value values ih =>
    rw [llcaRdbSaveLoop, ih, saveSigned, List.append_assoc]
    rfl

lemma llcaRdbSave_eq (rdb : List RdbField) (o : LlcaObj) :
    llcaRdbSave rdb o = rdb ++ .word o.len :: o.head.map .ofValue := by
  rw [llcaRdbSave, llcaRdbSaveLoop_eq, saveUnsigned, List.append_assoc]
  rfl

/-- Rebuilding a sorted chain by insertions gives the same chain. -/
lemma foldl_llcaInsert_head {o : LlcaObj} (h : o.Sorted) :
    (o.head.foldl llcaInsert createLLCAObject).head = o.head :=
  (foldl_llcaInsert_sorted createLLCAObject_sorted o.head).head_eq h <| by
    rw [foldl_llcaInsert_values]
    exact Multiset.add_zero _

lemma foldl_llcaInsert_length (values : List Int64) :
    (values.foldl llcaInsert createLLCAObject).head.length = values.length := by
  have h := congrArg Multiset.card (foldl_llcaInsert_values createLLCAObject values)
  simpa [LlcaObj.values, createLLCAObject] using h

/-- The fields that `llca_rdb_save` wrote are loaded back, and nothing behind them is read. -/
def RoundTrips (o : LlcaObj) : Prop :=
  ∀ rest, ∃ o', llcaRdbLoad 0 (llcaRdbSave [] o ++ rest) = some (some o', rest) ∧ o'.head = o.head

lemma llcaRdbLoad_save {o : LlcaObj} (hlen : o.len.toNat = o.head.length) (rest : List RdbField) :
    llcaRdbLoad 0 (llcaRdbSave [] o ++ rest) =
      some (some (o.head.foldl llcaInsert createLLCAObject), rest) := by
  rw [llcaRdbSave_eq, List.nil_append, List.cons_append, llcaRdbLoad_word, hlen,
    llcaRdbLoadLoop_ofValues]
  rfl

/-- A load that gives the saved values back has read as many values as `len` says. -/
lemma len_eq_of_load {o o' : LlcaObj} {rdb rest : List RdbField}
    (h : llcaRdbLoad 0 (llcaRdbSave [] o ++ rdb) = some (some o', rest)) (ho : o'.head = o.head) :
    o.len.toNat = o.head.length := by
  rw [llcaRdbSave_eq] at h
  obtain ⟨w, values, hlen, heq, rfl⟩ := llcaRdbLoad_inv h
  have hw : o.len = w := by
    have hhead := (List.cons.inj heq).1
    injection hhead
  rw [hw, ← hlen, ← ho, foldl_llcaInsert_length]

lemma roundTrips_iff_len {o : LlcaObj} (h : o.Sorted) :
    RoundTrips o ↔ o.len.toNat = o.head.length := by
  constructor
  · intro hround
    obtain ⟨o', hload, ho⟩ := hround []
    exact len_eq_of_load hload ho
  · intro hlen rest
    exact ⟨_, llcaRdbLoad_save hlen rest, foldl_llcaInsert_head h⟩

def saveAll (os : List LlcaObj) : List RdbField := os.foldl llcaRdbSave []

def loadAll : Nat → List RdbField → Option (List LlcaObj × List RdbField)
  | 0, rdb => some ([], rdb)
  | count + 1, rdb =>
    match llcaRdbLoad 0 rdb with
    | some (some o, rdb) => (loadAll count rdb).map fun x => (o :: x.1, x.2)
    | _ => none

/-- The saved objects load back one after the other. -/
def ListRoundTrips (os : List LlcaObj) : Prop :=
  ∀ rest, ∃ os', loadAll os.length (saveAll os ++ rest) = some (os', rest) ∧
    os'.map LlcaObj.head = os.map LlcaObj.head

lemma saveAll_cons (o : LlcaObj) (os : List LlcaObj) :
    saveAll (o :: os) = llcaRdbSave [] o ++ saveAll os := by
  have hfold : ∀ (os : List LlcaObj) (rdb : List RdbField),
      os.foldl llcaRdbSave rdb = rdb ++ os.foldl llcaRdbSave [] := by
    intro os
    induction os with
    | nil => simp
    | cons o os ih =>
      intro rdb
      rw [List.foldl_cons, ih, List.foldl_cons, ih (llcaRdbSave [] o), llcaRdbSave_eq rdb,
        llcaRdbSave_eq [], List.nil_append, List.append_assoc]
  exact hfold os (llcaRdbSave [] o)

lemma listRoundTrips_iff_len {os : List LlcaObj} (h : ∀ o ∈ os, o.Sorted) :
    ListRoundTrips os ↔ ∀ o ∈ os, o.len.toNat = o.head.length := by
  induction os with
  | nil => exact ⟨fun _ o ho => absurd ho List.not_mem_nil, fun _ rest => ⟨[], rfl, rfl⟩⟩
  | cons o os ih =>
    have ih := ih fun o' ho' => h o' (List.mem_cons_of_mem o ho')
    rw [List.forall_mem_cons, ← ih]
    constructor
    · intro hround
      -- the first object loads back, so its counter is right and the others follow it
      have hfirst : ∀ rest, o.len.toNat = o.head.length ∧ ∃ os',
          loadAll os.length (saveAll os ++ rest) = some (os', rest) ∧
            os'.map LlcaObj.head = os.map LlcaObj.head := by
        intro rest
        obtain ⟨os', hload, hheads⟩ := hround rest
        rw [saveAll_cons, List.append_assoc, List.length_cons, loadAll] at hload
        split at hload
        · rename_i o' rdb hone
          obtain ⟨⟨os'', rest'⟩, htail, heq⟩ := Option.map_eq_some_iff.mp hload
          cases heq
          obtain ⟨hhead, htails⟩ := List.cons.inj hheads
          have hlen := len_eq_of_load hone hhead
          rw [llcaRdbLoad_save hlen] at hone
          cases hone
          exact ⟨hlen, os'', htail, htails⟩
        · cases hload
      exact ⟨(hfirst []).1, fun rest => (hfirst rest).2⟩
    · rintro ⟨hlen, hround⟩ rest
      obtain ⟨os', hload, hheads⟩ := hround rest
      refine ⟨o.head.foldl llcaInsert createLLCAObject :: os', ?_, ?_⟩
      · rw [saveAll_cons, List.append_assoc, List.length_cons, loadAll, llcaRdbLoad_save hlen]
        simp only [hload, Option.map_some]
      · rw [List.map_cons, List.map_cons, hheads, foldl_llcaInsert_head (h o List.mem_cons_self)]

/-- How a list came about. -/
structure History where
  origin : Origin
  ops : List LlcaOp

namespace History

/-- The object that a history leads to, if its origin is a stream that loads or no stream. -/
def object (h : History) : Option LlcaObj := h.origin.start.map fun o => after LlcaObj.step o h.ops

def isRemoval : LlcaOp × Option Bool → Bool
  | (.remove _, some true) => true
  | _ => false

/-- The number of removals that find their value, counted on the bag of values. -/
def removals (h : History) : Nat :=
  (outputs BagOp.spec (h.origin.announced : Multiset Int64) h.ops).countP isRemoval

/-- The values that are there in the end. -/
def remaining (h : History) : Multiset Int64 :=
  after BagOp.spec (h.origin.announced : Multiset Int64) h.ops

/-- No removal has found its value, as far as a 64-bit counter can tell. -/
def Uncut (h : History) : Prop := 2 ^ 64 ∣ h.removals ∧ h.remaining.card < 2 ^ 64

/-- `len` counts the nodes that were ever inserted, modulo `2 ^ 64`. -/
lemma len_step (o : LlcaObj) (op : LlcaOp) (r : Nat)
    (h : o.len.toNat = (o.head.length + r) % 2 ^ 64) :
    (o.step op).1.len.toNat =
      ((o.step op).1.head.length + (r + [(op, (o.step op).2)].countP isRemoval)) % 2 ^ 64 := by
  cases op with
  | insert val =>
    simp only [LlcaObj.step, llcaInsert_len, llcaInsert_head, List.orderedInsert_length,
      UInt64.toNat_add, h]
    simp [isRemoval]
    omega
  | remove val =>
    simp only [LlcaObj.step, llcaRemove_eq, h]
    by_cases hmem : val ∈ o.head
    · have hpos : 0 < o.head.length := List.length_pos_of_mem hmem
      simp [hmem, isRemoval, List.length_erase_of_mem hmem]
      omega
    · simp [hmem, isRemoval, List.erase_of_not_mem hmem]
  | contains val => simpa [LlcaObj.step, isRemoval] using h

lemma len_after (o : LlcaObj) (ops : List LlcaOp) (r : Nat)
    (h : o.len.toNat = (o.head.length + r) % 2 ^ 64) :
    (after LlcaObj.step o ops).len.toNat = ((after LlcaObj.step o ops).head.length +
      (r + (outputs LlcaObj.step o ops).countP isRemoval)) % 2 ^ 64 := by
  induction ops generalizing o r with
  | nil => exact h
  | cons op ops ih =>
    have hrest := ih (o.step op).1 _ (len_step o op r h)
    have hsplit : (outputs LlcaObj.step o (op :: ops)).countP isRemoval =
        [(op, (o.step op).2)].countP isRemoval +
          (outputs LlcaObj.step (o.step op).1 ops).countP isRemoval := by
      rw [← List.countP_append]
      rfl
    rw [hsplit, ← Nat.add_assoc r]
    exact hrest

lemma len_foldl_llcaInsert (o : LlcaObj) (values : List Int64)
    (h : o.len.toNat = o.head.length % 2 ^ 64) :
    (values.foldl llcaInsert o).len.toNat = (values.foldl llcaInsert o).head.length % 2 ^ 64 := by
  induction values generalizing o with
  | nil => exact h
  | cons value values ih =>
    refine ih _ ?_
    rw [llcaInsert_len, llcaInsert_head, List.orderedInsert_length, UInt64.toNat_add, h]
    simp

variable {h : History} {o : LlcaObj}

lemma object_sorted (ho : h.object = some o) : o.Sorted := by
  obtain ⟨o₀, hstart, rfl⟩ := Option.map_eq_some_iff.mp ho
  exact llca_refines_bag.inv_after (Origin.start_sorted hstart) h.ops

lemma object_values (ho : h.object = some o) : o.values = h.remaining := by
  obtain ⟨o₀, hstart, rfl⟩ := Option.map_eq_some_iff.mp ho
  rw [llca_refines_bag.abs_after (Origin.start_sorted hstart), Origin.start_values hstart]
  rfl

lemma object_len (ho : h.object = some o) :
    o.len.toNat = (o.head.length + h.removals) % 2 ^ 64 := by
  obtain ⟨o₀, hstart, rfl⟩ := Option.map_eq_some_iff.mp ho
  have hlen₀ : o₀.len.toNat = (o₀.head.length + 0) % 2 ^ 64 := by
    rw [(Origin.start_eq_some hstart).1]
    exact len_foldl_llcaInsert createLLCAObject _ rfl
  have hlen := len_after o₀ h.ops 0 hlen₀
  rw [llca_refines_bag.outputs_eq (Origin.start_sorted hstart), Origin.start_values hstart,
    Nat.zero_add] at hlen
  exact hlen

lemma len_eq_length_iff (ho : h.object = some o) : o.len.toNat = o.head.length ↔ h.Uncut := by
  have hcard : h.remaining.card = o.head.length := by
    rw [← object_values ho]
    rfl
  rw [object_len ho, Uncut, hcard]
  omega

/-- Each of the objects comes from one of the histories, and the other way round. -/
lemma forall_len_iff {hs : List History} {os : List LlcaObj}
    (hos : hs.map History.object = os.map some) :
    (∀ o ∈ os, o.Sorted) ∧
      ((∀ o ∈ os, o.len.toNat = o.head.length) ↔ ∀ h ∈ hs, h.Uncut) := by
  have hfrom : ∀ o ∈ os, ∃ h ∈ hs, h.object = some o := fun o ho =>
    List.mem_map.mp (hos ▸ List.mem_map_of_mem ho)
  have hto : ∀ h ∈ hs, ∃ o ∈ os, some o = h.object := fun h hh =>
    List.mem_map.mp (hos ▸ List.mem_map_of_mem hh)
  refine ⟨fun o ho => ?_, fun hlen h hh => ?_, fun huncut o ho => ?_⟩
  · obtain ⟨h, _, hobj⟩ := hfrom o ho
    exact object_sorted hobj
  · obtain ⟨o, ho, hobj⟩ := hto h hh
    exact (len_eq_length_iff hobj.symm).mp (hlen o ho)
  · obtain ⟨h, hh, hobj⟩ := hfrom o ho
    exact (len_eq_length_iff hobj).mpr (huncut h hh)

end History

/-- A list loads back as it was saved, with whatever follows it in the stream left alone,
exactly if none of the removals in its history found its value; and lists saved one after the
other load back exactly if this holds of each of them. -/
theorem rdb_round_trip_iff (hs : List History) (os : List LlcaObj)
    (hos : hs.map History.object = os.map some) :
    (∀ (h : History) (o : LlcaObj), h.object = some o → (RoundTrips o ↔ h.Uncut)) ∧
      (ListRoundTrips os ↔ ∀ h ∈ hs, h.Uncut) := by
  obtain ⟨hsorted, hlen⟩ := History.forall_len_iff hos
  refine ⟨fun h o ho => ?_, (listRoundTrips_iff_len hsorted).trans hlen⟩
  exact (roundTrips_iff_len (History.object_sorted ho)).trans (History.len_eq_length_iff ho)

/-- Two lists, one of them loaded, from which only values were removed that they did not hold. -/
theorem rdb_round_trip_iff_inserted : ListRoundTrips [⟨[3, 5, 5], 3⟩, ⟨[-1, 2, 8], 3⟩] := by
  let hs : List History := [⟨.create, [.insert 5, .insert 3, .remove 7, .insert 5]⟩,
    ⟨.load [.word 2, .ofValue 8, .ofValue (-1)], [.remove 4, .insert 2]⟩]
  have huncut : ∀ h ∈ hs, h.Uncut := by
    unfold History.Uncut
    decide
  exact (rdb_round_trip_iff hs [⟨[3, 5, 5], 3⟩, ⟨[-1, 2, 8], 3⟩] rfl).2.mpr huncut

/-- A value that was inserted and removed still counts: the empty list is saved with `len` 1,
and loading it reads past its end. -/
theorem rdb_round_trip_fails :
    ¬∀ (h : History) (o : LlcaObj), h.object = some o → RoundTrips o := by
  intro hall
  obtain ⟨o', hload, _⟩ := hall ⟨.create, [.insert 5, .remove 5]⟩ ⟨[], 1⟩ (by decide) []
  cases hload

end RedPar
