import RedPar.Model.Llca
import Mathlib.Algebra.Group.Nat.Defs
import Mathlib.Data.List.Sort
import Mathlib.Data.Multiset.AddSub
import Mathlib.Order.Defs.LinearOrder

/-!
# The llca list is a multiset

The loops of `llca.cpp` compute an ordered insertion, an erasure of the first occurrence and a
membership test. Seen as the multiset of its values, a list therefore follows the abstract
bag of `Objects.BagOp`, over histories of any length and from any start.
-/

namespace RedPar
open Objects

instance instLinearOrderInt64 : LinearOrder Int64 where
  le_refl := Int64.le_refl
  le_trans _ _ _ := Int64.le_trans
  le_antisymm _ _ := Int64.le_antisymm
  le_total := Int64.le_total
  lt_iff_le_not_ge _ _ := by
    rw [Int64.not_le]
    exact ⟨fun h => ⟨Int64.le_of_lt h, h⟩, fun h => h.2⟩
  toDecidableLE := inferInstance

lemma llcaInsertLoop_eq (val : Int64) (prev l : List Int64) :
    llcaInsertLoop val prev l =
      ((l.takeWhile (· < val)).reverse ++ prev, l.dropWhile (· < val)) := by
  induction l generalizing prev with
  | nil => rfl
  | cons value next ih =>
    by_cases h : value < val
    · simp [llcaInsertLoop, h, ih]
    · simp [llcaInsertLoop, h]

lemma llcaInsert_head (o : LlcaObj) (val : Int64) :
    (llcaInsert o val).head = o.head.orderedInsert (· ≤ ·) val := by
  rw [List.orderedInsert_eq_take_drop]
  simp only [not_le, llcaInsert, llcaInsertLoop_eq, List.append_nil]
  cases h : (o.head.takeWhile (· < val)).reverse with
  | nil => simp [List.reverse_eq_nil_iff.mp h]
  | cons node before =>
    have hw : o.head.takeWhile (· < val) = before.reverse ++ [node] := by
      rw [← List.reverse_reverse (o.head.takeWhile _), h, List.reverse_cons]
    simp [hw]

@[simp] lemma llcaInsert_len (o : LlcaObj) (val : Int64) : (llcaInsert o val).len = o.len + 1 := by
  unfold llcaInsert
  dsimp only
  split <;> rfl

lemma llcaInsert_eq (o : LlcaObj) (val : Int64) :
    llcaInsert o val = ⟨o.head.orderedInsert (· ≤ ·) val, o.len + 1⟩ := by
  rw [← llcaInsert_head, ← llcaInsert_len]

/-- Where the loop of `llca_remove` stops, if `val` is in the chain and if it is not. -/
lemma llcaRemoveLoop_eq (val : Int64) (prev : List Int64) (cur : Int64) (l : List Int64) :
    match llcaRemoveLoop val prev cur l with
    | (prev', cur', next) =>
      prev'.reverse ++ cur' :: next = prev.reverse ++ cur :: l ∧
        (next ≠ [] → cur' = val) ∧ ∃ walked, prev' = walked ++ prev ∧ val ∉ walked := by
  induction l generalizing prev cur with
  | nil => exact ⟨rfl, fun h => absurd rfl h, [], rfl, List.not_mem_nil⟩
  | cons value next ih =>
    by_cases h : cur = val
    · simp only [llcaRemoveLoop, h, ne_eq, not_true_eq_false, if_false]
      exact ⟨trivial, fun _ => trivial, [], rfl, List.not_mem_nil⟩
    · obtain ⟨hsame, hstop, walked, hwalked, hnot⟩ := ih (cur :: prev) value
      simp only [llcaRemoveLoop, ne_eq, h, not_false_eq_true, if_true]
      refine ⟨by rw [hsame]; simp, hstop, walked ++ [cur], by simp [hwalked], ?_⟩
      simp [hnot, Ne.symm h]

/-- `llca_remove` takes away the first occurrence of the value, and says whether there was one. -/
lemma llcaRemove_eq (o : LlcaObj) (val : Int64) :
    llcaRemove o val = (decide (val ∈ o.head), { o with head := o.head.erase val }) := by
  obtain ⟨head, len⟩ := o
  cases head with
  | nil => rfl
  | cons cur next =>
    by_cases hcur : cur = val
    · subst hcur
      simp [llcaRemove]
    · have hloop := llcaRemoveLoop_eq val [] cur next
      simp only [llcaRemove, hcur, if_false]
      generalize llcaRemoveLoop val [] cur next = found at hloop ⊢
      obtain ⟨prev', cur', next'⟩ := found
      obtain ⟨hsame, hstop, walked, rfl, hnot⟩ := hloop
      simp only [List.append_nil, List.reverse_nil, List.nil_append] at hsame
      have hnotrev : val ∉ walked.reverse := by simpa using hnot
      simp only [List.append_nil, ← hsame]
      cases next' with
      | nil =>
        -- the loop ran to the last node
        by_cases hlast : cur' = val
        · simp [hlast, List.erase_append_right _ hnotrev]
        · have habsent : val ∉ walked.reverse ++ [cur'] := by
            simp [hnot, Ne.symm hlast]
          simp [hlast, List.erase_of_not_mem habsent, hnot, Ne.symm hlast]
      | cons value rest =>
        have hfound : cur' = val := hstop (List.cons_ne_nil _ _)
        simp [hfound, List.erase_append_right _ hnotrev]

lemma llcaContains_eq (o : LlcaObj) (val : Int64) : llcaContains o val = decide (val ∈ o.head) := by
  unfold llcaContains
  induction o.head with
  | nil => rfl
  | cons value next ih =>
    by_cases h : value = val
    · simp [llcaContainsLoop, h]
    · simp [llcaContainsLoop, h, Ne.symm h, ih]

namespace LlcaObj

/-- The values of a list, without their order. -/
def values (o : LlcaObj) : Multiset Int64 := o.head

def Sorted (o : LlcaObj) : Prop := o.head.Pairwise (· ≤ ·)

end LlcaObj

lemma createLLCAObject_sorted : createLLCAObject.Sorted := List.Pairwise.nil

lemma llcaInsert_sorted {o : LlcaObj} (h : o.Sorted) (val : Int64) : (llcaInsert o val).Sorted := by
  unfold LlcaObj.Sorted
  rw [llcaInsert_head]
  exact List.Pairwise.orderedInsert val o.head h

lemma llcaInsert_values (o : LlcaObj) (val : Int64) :
    (llcaInsert o val).values = val ::ₘ o.values := by
  unfold LlcaObj.values
  rw [llcaInsert_head, Multiset.cons_coe, Multiset.coe_eq_coe]
  exact List.perm_orderedInsert _ val o.head

/-- Two sorted lists with the same values have the same chain. -/
lemma LlcaObj.Sorted.head_eq {o o' : LlcaObj} (h : o.Sorted) (h' : o'.Sorted)
    (hv : o.values = o'.values) : o.head = o'.head :=
  (Multiset.coe_eq_coe.mp hv).eq_of_pairwise (fun _ _ _ _ => le_antisymm) h h'

theorem llca_refines_bag :
    Refines LlcaObj.step BagOp.spec LlcaObj.values LlcaObj.Sorted where
  keeps o op h := by
    cases op with
    | insert val => exact llcaInsert_sorted h val
    | remove val =>
      change (llcaRemove o val).2.Sorted
      rw [llcaRemove_eq]
      exact List.Pairwise.sublist List.erase_sublist h
    | contains val => exact h
  state o op _ := by
    cases op with
    | insert val => exact llcaInsert_values o val
    | remove val =>
      change (llcaRemove o val).2.values = o.values.erase val
      rw [llcaRemove_eq]
      rfl
    | contains val => rfl
  output o op _ := by
    cases op with
    | insert val => rfl
    | remove val =>
      change some (llcaRemove o val).1 = some (decide (val ∈ o.values))
      rw [llcaRemove_eq]
      rfl
    | contains val =>
      change some (llcaContains o val) = some (decide (val ∈ o.values))
      rw [llcaContains_eq]
      rfl

def RdbField.ofValue (value : Int64) : RdbField := .word value.toUInt64

lemma loadSigned_ofValue (value : Int64) (rest : List RdbField) :
    loadSigned (.ofValue value :: rest) = some (value, rest) := by
  change some (value.toUInt64.toInt64, rest) = _
  rw [Int64.toInt64_toUInt64]

lemma loadSigned_inv {rdb rest : List RdbField} {value : Int64}
    (h : loadSigned rdb = some (value, rest)) : rdb = .ofValue value :: rest := by
  cases rdb with
  | nil => cases h
  | cons field fields =>
    cases field with
    | bytes data => cases h
    | word w =>
      cases h
      change _ = RdbField.word (w.toInt64.toUInt64) :: _
      rw [UInt64.toUInt64_toInt64]

lemma llcaRdbLoadLoop_succ (elements : Nat) (ll : LlcaObj) (rdb : List RdbField) :
    llcaRdbLoadLoop (elements + 1) ll rdb =
      (loadSigned rdb).bind fun x => llcaRdbLoadLoop elements (llcaInsert ll x.1) x.2 := rfl

lemma llcaRdbLoadLoop_ofValues (values : List Int64) (ll : LlcaObj) (rest : List RdbField) :
    llcaRdbLoadLoop values.length ll (values.map .ofValue ++ rest) =
      some (values.foldl llcaInsert ll, rest) := by
  induction values generalizing ll with
  | nil => rfl
  | cons value values ih =>
    rw [List.length_cons, llcaRdbLoadLoop_succ, List.map_cons, List.cons_append,
      loadSigned_ofValue]
    exact ih (llcaInsert ll value)

lemma llcaRdbLoadLoop_inv {elements : Nat} {ll o : LlcaObj} {rdb rest : List RdbField}
    (h : llcaRdbLoadLoop elements ll rdb = some (o, rest)) :
    ∃ values : List Int64, values.length = elements ∧ rdb = values.map .ofValue ++ rest ∧
      o = values.foldl llcaInsert ll := by
  induction elements generalizing ll rdb with
  | zero =>
    cases h
    exact ⟨[], rfl, rfl, rfl⟩
  | succ elements ih =>
    rw [llcaRdbLoadLoop_succ] at h
    obtain ⟨⟨value, fields⟩, hload, hrest⟩ := Option.bind_eq_some_iff.mp h
    obtain ⟨values, hlen, hfields, ho⟩ := ih hrest
    refine ⟨value :: values, by simp [hlen], ?_, ho⟩
    dsimp only at hfields
    rw [loadSigned_inv hload, hfields]
    rfl

lemma llcaRdbLoad_word (w : UInt64) (rdb : List RdbField) :
    llcaRdbLoad 0 (.word w :: rdb) =
      (llcaRdbLoadLoop w.toNat createLLCAObject rdb).map fun x => (some x.1, x.2) := by
  change (llcaRdbLoadLoop w.toNat createLLCAObject rdb).bind _ = _
  cases llcaRdbLoadLoop w.toNat createLLCAObject rdb <;> rfl

/-- A stream that loads is a count, that many values, and the rest. -/
lemma llcaRdbLoad_inv {rdb rest : List RdbField} {o : LlcaObj}
    (h : llcaRdbLoad 0 rdb = some (some o, rest)) :
    ∃ (w : UInt64) (values : List Int64), values.length = w.toNat ∧
      rdb = .word w :: (values.map .ofValue ++ rest) ∧
      o = values.foldl llcaInsert createLLCAObject := by
  cases rdb with
  | nil => cases h
  | cons field fields =>
    cases field with
    | bytes data => cases h
    | word w =>
      rw [llcaRdbLoad_word] at h
      obtain ⟨⟨o', rest'⟩, hloop, heq⟩ := Option.map_eq_some_iff.mp h
      cases heq
      obtain ⟨values, hlen, hfields, ho⟩ := llcaRdbLoadLoop_inv hloop
      exact ⟨w, values, hlen, by rw [hfields], ho⟩

lemma foldl_llcaInsert_sorted {o : LlcaObj} (h : o.Sorted) (values : List Int64) :
    (values.foldl llcaInsert o).Sorted := by
  induction values generalizing o with
  | nil => exact h
  | cons value values ih => exact ih (llcaInsert_sorted h value)

lemma foldl_llcaInsert_values (o : LlcaObj) (values : List Int64) :
    (values.foldl llcaInsert o).values = (values : Multiset Int64) + o.values := by
  induction values generalizing o with
  | nil => simp
  | cons value values ih =>
    rw [List.foldl_cons, ih, llcaInsert_values, ← Multiset.cons_coe, Multiset.cons_add,
      Multiset.add_cons]

/-- Where a list comes from. -/
inductive Origin
  | create
  | load (rdb : List RdbField)

namespace Origin

def start : Origin → Option LlcaObj
  | .create => some createLLCAObject
  | .load rdb => (llcaRdbLoad 0 rdb).bind Prod.fst

/-- The values that the origin announces: those that follow the count of a stream. -/
def announced : Origin → List Int64
  | .load (.word elements :: fields) => (fields.take elements.toNat).filterMap fun field =>
      match field with
      | .word w => some w.toInt64
      | .bytes _ => none
  | _ => []

lemma start_eq_some {origin : Origin} {o : LlcaObj} (h : origin.start = some o) :
    o = origin.announced.foldl llcaInsert createLLCAObject ∧ origin.announced.length < 2 ^ 64 := by
  cases origin with
  | create =>
    cases h
    exact ⟨rfl, by decide⟩
  | load rdb =>
    obtain ⟨⟨o', rest⟩, hload, ho'⟩ := Option.bind_eq_some_iff.mp h
    cases ho'
    obtain ⟨w, values, hlen, rfl, rfl⟩ := llcaRdbLoad_inv hload
    have hannounced : (Origin.load (.word w :: (values.map .ofValue ++ rest))).announced = values := by
      change List.filterMap _ (List.take _ (values.map RdbField.ofValue ++ rest)) = values
      rw [List.take_append_of_le_length (by simp [hlen]), List.take_of_length_le (by simp [hlen]),
        List.filterMap_map]
      refine (List.filterMap_congr fun value _ => ?_).trans List.filterMap_some
      change some value.toUInt64.toInt64 = some value
      rw [Int64.toInt64_toUInt64]
    rw [hannounced]
    exact ⟨rfl, hlen ▸ w.toNat_lt⟩

/-- A count and as many values load, whatever follows them. -/
lemma start_load (values : List Int64) (hlen : values.length < 2 ^ 64) (rest : List RdbField) :
    (load (.word (.ofNat values.length) :: (values.map .ofValue ++ rest))).start =
      some (values.foldl llcaInsert createLLCAObject) := by
  rw [start, llcaRdbLoad_word, UInt64.toNat_ofNat_of_lt' hlen, llcaRdbLoadLoop_ofValues]
  rfl

lemma start_sorted {origin : Origin} {o : LlcaObj} (h : origin.start = some o) : o.Sorted := by
  rw [(start_eq_some h).1]
  exact foldl_llcaInsert_sorted createLLCAObject_sorted _

lemma start_values {origin : Origin} {o : LlcaObj} (h : origin.start = some o) :
    o.values = origin.announced := by
  rw [(start_eq_some h).1, foldl_llcaInsert_values]
  exact Multiset.add_zero _

end Origin

open BagOp in
/-- Over any history, from an empty list or from any loaded one, the chain is sorted and the
multiplicity of each value balances; in each state so reached, `llca_remove` finds a value
exactly when it is there and takes away one occurrence, and `llca_contains` tells whether it is
there. -/
theorem llca_history_is_bag (origin : Origin) (o₀ : LlcaObj) (h : origin.start = some o₀)
    (ops : List LlcaOp) :
    let o := after LlcaObj.step o₀ ops
    let rs := outputs LlcaObj.step o₀ ops
    o.head.Pairwise (· ≤ ·) ∧
    (∀ v, o.head.count v + taken v rs = origin.announced.count v + put v rs) ∧
    ∀ v, ((llcaRemove o v).1 = true ↔ 0 < o.head.count v) ∧
      ((llcaRemove o v).1 = true → o.head.Perm (v :: (llcaRemove o v).2.head)) ∧
      ((llcaRemove o v).1 = false → (llcaRemove o v).2 = o) ∧
      (llcaContains o v = true ↔ 0 < o.head.count v) ∧
      (o.step (.contains v)).1 = o := by
  intro o rs
  refine ⟨llca_refines_bag.inv_after (Origin.start_sorted h) ops, fun v => ?_, fun v => ?_⟩
  · have hbalance := count_after o₀.values ops v
    rw [← llca_refines_bag.outputs_eq (Origin.start_sorted h),
      ← llca_refines_bag.abs_after (Origin.start_sorted h), Origin.start_values h] at hbalance
    simpa only [LlcaObj.values, Multiset.coe_count] using hbalance
  · rw [llcaRemove_eq, llcaContains_eq]
    simp only [decide_eq_true_eq, decide_eq_false_iff_not, List.count_pos_iff]
    exact ⟨trivial, List.perm_cons_erase, fun hv => by rw [List.erase_of_not_mem hv], trivial, rfl⟩

theorem llca_history_is_bag_loaded :
    (after LlcaObj.step (llcaInsert (llcaInsert createLLCAObject 7) 3)
      [.remove 7, .insert 3]).head.Pairwise (· ≤ ·) :=
  (llca_history_is_bag (.load [.word 2, .ofValue 7, .ofValue 3])
    (llcaInsert (llcaInsert createLLCAObject 7) 3)
    (Origin.start_load [7, 3] (by decide) []) [.remove 7, .insert 3]).1

end RedPar
