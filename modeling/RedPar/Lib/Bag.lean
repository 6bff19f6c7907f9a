import RedPar.Lib.Objects
import Mathlib.Data.Multiset.AddSub

/-!
# Bags

A bag is a multiset that is filled and emptied one element at a time. Over any sequence of
operations its contents balance: what is there and what was taken out add up to what was there
first and what was put in.
-/

namespace Objects

/-- The operations on a bag of `α`. -/
inductive BagOp (α : Type) where
  | insert (a : α)
  | remove (a : α)
  | contains (a : α)
deriving DecidableEq, Repr

namespace BagOp

variable {α : Type} [DecidableEq α]

/-- One operation on a bag. `remove` and `contains` answer whether the element was there. -/
def spec (m : Multiset α) : BagOp α → Multiset α × Option Bool
  | .insert a => (a ::ₘ m, none)
  | .remove a => (m.erase a, some (decide (a ∈ m)))
  | .contains a => (m, some (decide (a ∈ m)))

/-- The removals of `a` that found it. -/
def taken (a : α) (rs : List (BagOp α × Option Bool)) : Nat := rs.count (.remove a, some true)

/-- The insertions of `a`. -/
def put (a : α) (rs : List (BagOp α × Option Bool)) : Nat := rs.count (.insert a, none)

lemma count_step (m : Multiset α) (op : BagOp α) (a : α) :
    (spec m op).1.count a + taken a [(op, (spec m op).2)] =
      m.count a + put a [(op, (spec m op).2)] := by
  cases op with
  | insert b =>
    by_cases h : b = a
    · subst h
      simp [spec, taken, put]
    · simp [spec, taken, put, h, Ne.symm h]
  | remove b =>
    by_cases h : b = a
    · subst h
      by_cases hm : b ∈ m
      · have hpos : 0 < m.count b := Multiset.count_pos.mpr hm
        simp only [spec, taken, put, Multiset.count_erase_self, hm, decide_true,
          List.count_singleton_self, List.count_singleton]
        simp
        omega
      · simp [spec, taken, put, hm]
    · simp [spec, taken, put, h, Multiset.count_erase_of_ne (Ne.symm h)]
  | contains b => simp [spec, taken, put]

/-- The balance of a sequence of operations, for each element. -/
theorem count_after (m : Multiset α) (ops : List (BagOp α)) (a : α) :
    (after spec m ops).count a + taken a (outputs spec m ops) =
      m.count a + put a (outputs spec m ops) := by
  induction ops generalizing m with
  | nil => rfl
  | cons op ops ih =>
    have hstep := count_step m op a
    have hrest := ih (spec m op).1
    have hsplit : ∀ x : BagOp α × Option Bool, ((op, (spec m op).2) ::
        outputs spec (spec m op).1 ops).count x =
          [(op, (spec m op).2)].count x + (outputs spec (spec m op).1 ops).count x := by
      intro x
      rw [← List.count_append]
      rfl
    simp only [after, outputs, taken, put, hsplit] at *
    omega

end BagOp

end Objects
