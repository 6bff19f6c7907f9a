import RedPar.Lib.RelyGuarantee
import RedPar.Lib.SortedLinks
import RedPar.Model.SkipList
import Mathlib.Order.WithBot

/-!
# Worlds of the skip list

A world is a heap with what the heap alone does not show: on how many levels a node is linked
(`top`) and has ever been (`ever`), which operation still builds or links it, who owes it a
decrement of `m_nUnlink` or its `retire`, the set that the list stands for, and how far each
thread's operation is. A node leaves the set when it is unlinked at level 0: the eraser that has
marked it there (`erasing`) takes effect at that moment, whoever unlinks it.
-/

namespace RedPar.SkipList
open Interleaved

/-- Which operation works on a node: the one that allocated it, until it is linked at all levels
or has stopped. -/
inductive Phase (T : Type)
  | absent
  | built (t : T)
  | linking (t : T)
  | linked

/-- `t` has unlinked the node at some level and has not counted it, or has counted the last one
and has not retired the node. -/
inductive Debt (T : Type)
  | clear
  | unlinking (t : T)
  | unlinked (t : T)
  | retired

/-- How far an operation is. A `lost` one is an erase whose node has been marked by another. -/
inductive Progress
  | todo
  | done (r : Bool)
  | lost
deriving DecidableEq

structure World (T K : Type) where
  heap : Heap K
  top : NodePtr → Nat
  ever : NodePtr → Nat
  phase : NodePtr → Phase T
  debt : NodePtr → Debt T
  set : Finset K
  op : T → Option (Op K)
  status : T → Progress
  erasing : T → Option NodePtr

variable {T K : Type}

namespace Phase

def Of (t : T) : Phase T → Prop
  | built u | linking u => u = t
  | absent | linked => False

end Phase

namespace Debt

def Of (t : T) : Debt T → Prop
  | unlinking u | unlinked u => u = t
  | clear | retired => False

/-- Levels that have been unlinked and not been counted. -/
def owed : Debt T → Nat
  | unlinking _ => 1
  | _ => 0

end Debt

namespace Heap

/-- The value of a node; the head is below all values. -/
def rank (h : Heap K) (p : NodePtr) : WithBot K :=
  match (h.node p).bind Node.value with
  | some v => v
  | none => ⊥

/-- The pointers of one level. -/
def links (h : Heap K) (nLevel : Nat) (p : NodePtr) : Option NodePtr := (h.next p nLevel).ptr

lemma rank_eq {h : Heap K} {p : NodePtr} {v : K} (hv : (h.node p).bind Node.value = some v) :
    h.rank p = v := by
  simp only [rank, hv]

lemma rank_congr {h h' : Heap K} {p : NodePtr} (hnode : h'.node p = h.node p) :
    h'.rank p = h.rank p := by
  simp only [rank, hnode]

lemma hasLevel_of {h : Heap K} {p : NodePtr} {n : Node K} {nLevel : Nat} (hn : h.node p = some n)
    (hlt : nLevel < n.height) : h.hasLevel p nLevel = true := by
  simp [hasLevel, hn, hlt]

section SetNext

variable (h : Heap K) (p : NodePtr) (nLevel : Nat) (v : MarkedPtr)

@[simp] lemma setNext_node : (h.setNext p nLevel v).node = h.node := rfl
@[simp] lemma setNext_unlink : (h.setNext p nLevel v).unlink = h.unlink := rfl
@[simp] lemma setNext_nHeight : (h.setNext p nLevel v).nHeight = h.nHeight := rfl
@[simp] lemma setNext_fresh : (h.setNext p nLevel v).fresh = h.fresh := rfl
@[simp] lemma setNext_retired : (h.setNext p nLevel v).retired = h.retired := rfl
@[simp] lemma setNext_rank : (h.setNext p nLevel v).rank = h.rank := rfl

lemma setNext_next (q : NodePtr) (nLevel' : Nat) :
    (h.setNext p nLevel v).next q nLevel' =
      if q = p ∧ nLevel' = nLevel then v else h.next q nLevel' := by
  unfold setNext
  by_cases hq : q = p
  · subst hq
    by_cases hl : nLevel' = nLevel
    · subst hl
      simp
    · simp [hl]
  · simp [hq]

@[simp] lemma setNext_next_self : (h.setNext p nLevel v).next p nLevel = v := by
  rw [setNext_next, if_pos ⟨rfl, rfl⟩]

lemma setNext_next_of_ne {q : NodePtr} (hq : q ≠ p) (nLevel' : Nat) :
    (h.setNext p nLevel v).next q nLevel' = h.next q nLevel' := by
  rw [setNext_next, if_neg fun hand => hq hand.1]

lemma setNext_next_of_level {nLevel' : Nat} (hl : nLevel' ≠ nLevel) (q : NodePtr) :
    (h.setNext p nLevel v).next q nLevel' = h.next q nLevel' := by
  rw [setNext_next, if_neg fun hand => hl hand.2]

lemma setNext_links_self :
    (h.setNext p nLevel v).links nLevel = Function.update (h.links nLevel) p v.ptr := by
  funext q
  by_cases hq : q = p
  · subst hq
    simp [links]
  · rw [Function.update_of_ne hq]
    exact congrArg MarkedPtr.ptr (h.setNext_next_of_ne p nLevel v hq nLevel)

lemma setNext_links_of_level {nLevel' : Nat} (hl : nLevel' ≠ nLevel) :
    (h.setNext p nLevel v).links nLevel' = h.links nLevel' := by
  funext q
  exact congrArg MarkedPtr.ptr (h.setNext_next_of_level p nLevel v hl q)

/-- A mark leaves all pointers alone. -/
lemma setNext_links_of_ptr (hv : v.ptr = (h.next p nLevel).ptr) (nLevel' : Nat) :
    (h.setNext p nLevel v).links nLevel' = h.links nLevel' := by
  by_cases hl : nLevel' = nLevel
  · subst hl
    rw [setNext_links_self, hv]
    exact Function.update_eq_self p (h.links nLevel')
  · exact h.setNext_links_of_level p nLevel v hl

end SetNext

end Heap

/-- A node leaves the list only with a debt, and is counted out only once it has left. -/
def Debt.Fits (top : Nat) : Debt T → Prop
  | clear => 0 < top
  | unlinking _ => True
  | unlinked _ | retired => top = 0

/-- The life of a node: its phase and debt, the levels it is linked at and has been, what it is
made of, and its `m_nUnlink`. -/
inductive Life (x : NodePtr) : Phase T → Debt T → Nat → Nat → Option (Node K) → Nat → Prop
  | absent (unlink : Nat) : Life x .absent .clear 0 0 none unlink
  | built (t : T) (v : K) (height : Nat) (hpos : 0 < height) (hle : height ≤ maxHeight) :
      Life x (.built t) .clear 0 0 (some ⟨some v, height⟩) height
  | linking (t : T) (v : K) (height top : Nat) (hpos : 0 < top) (hlt : top < height)
      (hle : height ≤ maxHeight) : Life x (.linking t) .clear top top (some ⟨some v, height⟩) height
  | linked (debt : Debt T) (value : Option K) (height top ever : Nat) (hpos : 0 < ever)
      (htop : top ≤ ever) (hever : ever ≤ height) (hle : height ≤ maxHeight)
      (hcount : top + debt.owed ≤ height) (hfits : debt.Fits top)
      (hvalue : x ≠ head → value.isSome) :
      Life x .linked debt top ever (some ⟨value, height⟩) (top + debt.owed)

/-- Nothing but links has changed at a node. -/
structure SameAt (w w' : World T K) (x : NodePtr) : Prop where
  phase : w'.phase x = w.phase x
  debt : w'.debt x = w.debt x
  top : w'.top x = w.top x
  ever : w'.ever x = w.ever x
  node : w'.heap.node x = w.heap.node x
  unlink : w'.heap.unlink x = w.heap.unlink x

/-- Where a node is in its life. -/
def World.LifeOf (w : World T K) (x : NodePtr) : Prop :=
  Life x (w.phase x) (w.debt x) (w.top x) (w.ever x) (w.heap.node x) (w.heap.unlink x)

def World.members (w : World T K) (nLevel : Nat) : Set NodePtr := {x | nLevel < w.top x}

structure Lives (w : World T K) : Prop where
  life : ∀ x, w.LifeOf x
  head_node : w.heap.node head = some ⟨none, maxHeight⟩
  head_top : w.top head = maxHeight
  retired : ∀ x, x ∈ w.heap.retired ↔ w.debt x = .retired
  nodup : w.heap.retired.Nodup
  fresh : ∀ x, w.heap.fresh ≤ x → w.phase x = .absent

structure Shape [LinearOrder K] (w : World T K) : Prop where
  head_unmarked : ∀ nLevel, (w.heap.next head nLevel).bits = false
  sorted : ∀ nLevel, Sorted w.heap.rank (w.members nLevel) (w.heap.links nLevel)
  unmarked : ∀ x nLevel, nLevel < w.ever x → (w.heap.next x nLevel).bits = false →
    nLevel < w.top x
  height_pos : 0 < w.heap.nHeight
  height_le : w.heap.nHeight ≤ maxHeight

/-- The set, and who erases from it. -/
structure Stands [LinearOrder K] (w : World T K) : Prop where
  set : ∀ v : K, v ∈ w.set ↔ ∃ x, 0 < w.top x ∧ w.heap.rank x = v
  erasing : ∀ t x, w.erasing t = some x → 0 < w.top x ∧ (w.heap.next x 0).bits = true ∧
    w.status t = .todo ∧ ∃ v : K, w.op t = some (.erase v) ∧ w.heap.rank x = v
  eraser : ∀ x, 0 < w.top x → (w.heap.next x 0).bits = true → ∃ t, w.erasing t = some x
  sole : ∀ t u x, w.erasing t = some x → w.erasing u = some x → t = u

structure Inv [LinearOrder K] (w : World T K) : Prop where
  lives : Lives w
  shape : Shape w
  stands : Stands w

section Reading

variable {t u : T} {w w' : World T K}

lemma World.mem_zero {x : NodePtr} {nLevel : Nat} (hx : x ∈ w.members nLevel) :
    x ∈ w.members 0 := by
  have hlt : nLevel < w.top x := hx
  exact show 0 < w.top x by omega

namespace Life

variable {x : NodePtr} {phase : Phase T} {debt : Debt T} {top ever unlink : Nat}
  {node : Option (Node K)}

lemma top_le (h : Life x phase debt top ever node unlink) : top ≤ ever := by
  cases h <;> omega

lemma tower (h : Life x phase debt top ever node unlink) (hever : 0 < ever) :
    ∃ n, node = some n ∧ ever ≤ n.height ∧ n.height ≤ maxHeight ∧ (x ≠ head → n.value.isSome) := by
  cases h with
  | absent | built => exact absurd hever (lt_irrefl 0)
  | linking t v height top hpos hlt hle => exact ⟨_, rfl, hlt.le, hle, fun _ => rfl⟩
  | linked debt value height top ever hpos htop hever hle hcount hfits hvalue =>
    exact ⟨_, rfl, hever, hle, hvalue⟩

lemma of_absent (h : Life x .absent debt top ever node unlink) :
    debt = .clear ∧ top = 0 ∧ ever = 0 ∧ node = none := by
  cases h
  exact ⟨rfl, rfl, rfl, rfl⟩

lemma of_built (h : Life x (.built t) debt top ever node unlink) : debt = .clear ∧ top = 0 ∧
    ever = 0 ∧ ∃ v height, node = some ⟨some v, height⟩ ∧ 0 < height ∧ height ≤ maxHeight ∧
      unlink = height := by
  cases h with
  | built t v height hpos hle => exact ⟨rfl, rfl, rfl, v, _, rfl, hpos, hle, rfl⟩

lemma of_linking (h : Life x (.linking t) debt top ever node unlink) : debt = .clear ∧ 0 < top ∧
    ever = top ∧ ∃ v height, node = some ⟨some v, height⟩ ∧ top < height ∧ height ≤ maxHeight ∧
      unlink = height := by
  cases h with
  | linking t v height top hpos hlt hle => exact ⟨rfl, hpos, rfl, v, _, rfl, hlt, hle, rfl⟩

lemma of_linked (h : Life x .linked debt top ever node unlink) : 0 < ever ∧
    unlink = top + debt.owed ∧ debt.Fits top ∧ ∃ n, node = some n ∧ ever ≤ n.height ∧
      n.height ≤ maxHeight ∧ unlink ≤ n.height ∧ (x ≠ head → n.value.isSome) := by
  cases h with
  | linked debt value height top ever hpos htop hever hle hcount hfits hvalue =>
    exact ⟨hpos, rfl, hfits, _, rfl, hever, hle, hcount, hvalue⟩

end Life

namespace Lives

variable {x : NodePtr}

lemma top_le (h : Lives w) (x : NodePtr) : w.top x ≤ w.ever x := (h.life x).top_le

lemma ever_pos (h : Lives w) (hx : 0 < w.top x) : 0 < w.ever x := hx.trans_le (h.top_le x)

lemma tower (h : Lives w) (hx : 0 < w.ever x) : ∃ n, w.heap.node x = some n ∧
    w.ever x ≤ n.height ∧ n.height ≤ maxHeight ∧ (x ≠ head → n.value.isSome) :=
  (h.life x).tower hx

lemma ever_head (h : Lives w) : 0 < w.ever head := by
  refine h.ever_pos ?_
  rw [h.head_top]
  decide

/-- A level that a node has been linked at is in its tower. -/
lemma hasLevel (h : Lives w) {nLevel : Nat} (hx : nLevel < w.ever x) :
    w.heap.hasLevel x nLevel = true := by
  obtain ⟨n, hn, hle, _⟩ := h.tower (Nat.zero_lt_of_lt hx)
  exact Heap.hasLevel_of hn (hx.trans_le hle)

lemma value_of_ever (h : Lives w) (hx : 0 < w.ever x) (hne : x ≠ head) :
    ∃ v : K, (w.heap.node x).bind Node.value = some v ∧ w.heap.rank x = v := by
  obtain ⟨n, hn, _, _, hvalue⟩ := h.tower hx
  obtain ⟨v, hv⟩ := Option.isSome_iff_exists.mp (hvalue hne)
  have hbind : (w.heap.node x).bind Node.value = some v := by rw [hn]; exact hv
  exact ⟨v, hbind, Heap.rank_eq hbind⟩

lemma rank_head (h : Lives w) : w.heap.rank head = ⊥ := by
  simp [Heap.rank, h.head_node]

lemma of_absent (h : Lives w) (hx : w.phase x = .absent) :
    w.debt x = .clear ∧ w.top x = 0 ∧ w.ever x = 0 ∧ w.heap.node x = none := by
  have hlife := h.life x
  unfold World.LifeOf at hlife
  rw [hx] at hlife
  exact hlife.of_absent

lemma of_built (h : Lives w) (hx : w.phase x = .built t) : w.debt x = .clear ∧ w.top x = 0 ∧
    w.ever x = 0 ∧ ∃ v height, w.heap.node x = some ⟨some v, height⟩ ∧ 0 < height ∧
      height ≤ maxHeight ∧ w.heap.unlink x = height := by
  have hlife := h.life x
  unfold World.LifeOf at hlife
  rw [hx] at hlife
  exact hlife.of_built

lemma of_linking (h : Lives w) (hx : w.phase x = .linking t) : w.debt x = .clear ∧
    0 < w.top x ∧ w.ever x = w.top x ∧ ∃ v height, w.heap.node x = some ⟨some v, height⟩ ∧
      w.top x < height ∧ height ≤ maxHeight ∧ w.heap.unlink x = height := by
  have hlife := h.life x
  unfold World.LifeOf at hlife
  rw [hx] at hlife
  exact hlife.of_linking

lemma of_linked (h : Lives w) (hx : w.phase x = .linked) : 0 < w.ever x ∧
    w.heap.unlink x = w.top x + (w.debt x).owed ∧ (w.debt x).Fits (w.top x) ∧
      ∃ n, w.heap.node x = some n ∧ w.ever x ≤ n.height ∧ n.height ≤ maxHeight ∧
        w.heap.unlink x ≤ n.height ∧ (x ≠ head → n.value.isSome) := by
  have hlife := h.life x
  unfold World.LifeOf at hlife
  rw [hx] at hlife
  exact hlife.of_linked

lemma linked_of_debt (h : Lives w) (hx : w.debt x ≠ .clear) : w.phase x = .linked := by
  cases hphase : w.phase x with
  | absent => exact absurd (h.of_absent hphase).1 hx
  | built t => exact absurd (h.of_built hphase).1 hx
  | linking t => exact absurd (h.of_linking hphase).1 hx
  | linked => rfl

lemma ne_fresh (h : Lives w) (hx : w.phase x ≠ .absent) : x ≠ w.heap.fresh := by
  rintro rfl
  exact hx (h.fresh _ le_rfl)

lemma phase_of_ever (h : Lives w) (hx : 0 < w.ever x) :
    w.phase x = .linked ∨ ∃ t, w.phase x = .linking t := by
  cases hphase : w.phase x with
  | absent => exact absurd (h.of_absent hphase).2.2.1 hx.ne'
  | built t => exact absurd (h.of_built hphase).2.2.1 hx.ne'
  | linking t => exact .inr ⟨t, rfl⟩
  | linked => exact .inl rfl

lemma head_phase (h : Lives w) : w.phase head = .linked := by
  rcases h.phase_of_ever h.ever_head with hlinked | ⟨t, hlinking⟩
  · exact hlinked
  · obtain ⟨_, _, _, v, height, hnode, _⟩ := h.of_linking hlinking
    rw [h.head_node] at hnode
    cases hnode

lemma update (h : Lives w) {x : NodePtr} (hsame : ∀ y, y ≠ x → SameAt w w' y)
    (hx : w'.LifeOf x) (hne : x ≠ head)
    (hretired : ∀ y, y ∈ w'.heap.retired ↔ w'.debt y = .retired) (hnodup : w'.heap.retired.Nodup)
    (hfresh : ∀ y, w'.heap.fresh ≤ y → w'.phase y = .absent) : Lives w' where
  life y := by
    by_cases hy : y = x
    · subst hy
      exact hx
    · have heq := hsame y hy
      have hlife := h.life y
      unfold World.LifeOf at hlife ⊢
      rwa [heq.phase, heq.debt, heq.top, heq.ever, heq.node, heq.unlink]
  head_node := (hsame head hne.symm).node.trans h.head_node
  head_top := (hsame head hne.symm).top.trans h.head_top
  retired := hretired
  nodup := hnodup
  fresh := hfresh

end Lives

namespace Inv

variable [LinearOrder K]

/-- A node that has been linked at a level still is, while its link there is unmarked. -/
lemma member (h : Inv w) {p : NodePtr} {nLevel : Nat} (hp : nLevel < w.ever p)
    (hbits : (w.heap.next p nLevel).bits = false) : p ∈ w.members nLevel :=
  h.shape.unmarked p nLevel hp hbits

lemma next_member (h : Inv w) {p c : NodePtr} {nLevel : Nat} (hp : nLevel < w.ever p)
    (hnext : w.heap.next p nLevel = .of c) :
    c ∈ w.members nLevel ∧ w.heap.rank p < w.heap.rank c := by
  refine (h.shape.sorted nLevel).link p c (h.member hp (by rw [hnext]; rfl)) ?_
  rw [Heap.links, hnext]
  rfl

/-- A value is not in the set if a link at level 0 leads past it. -/
lemma not_mem_set (h : Inv w) {p : NodePtr} {v : K} (hp : 0 < w.ever p)
    (hbits : (w.heap.next p 0).bits = false) (hlt : w.heap.rank p < v)
    (hnext : ∀ c, (w.heap.next p 0).ptr = some c → (v : WithBot K) < w.heap.rank c) :
    v ∉ w.set := by
  intro hmem
  obtain ⟨x, hx, hrank⟩ := (h.stands.set v).mp hmem
  exact (h.shape.sorted 0).absent (h.member hp hbits) hlt hnext hx hrank

lemma mem_set (h : Inv w) {x : NodePtr} {v : K} {nLevel : Nat} (hx : x ∈ w.members nLevel)
    (hrank : w.heap.rank x = v) : v ∈ w.set :=
  (h.stands.set v).mpr ⟨x, World.mem_zero hx, hrank⟩

lemma ne_head_of_bits (h : Inv w) {x : NodePtr} {nLevel : Nat}
    (hbits : (w.heap.next x nLevel).bits = true) : x ≠ head := by
  rintro rfl
  rw [h.shape.head_unmarked] at hbits
  cases hbits

end Inv

end Reading

/-- What the other threads leave alone, apart from the debts on the nodes `S`. -/
structure RelyBut (t : T) (S : Set NodePtr) (w w' : World T K) : Prop where
  node : ∀ x, 0 < w.ever x ∨ w.phase x = .built t → w'.heap.node x = w.heap.node x
  ever : ∀ x, w.ever x ≤ w'.ever x
  marked : ∀ x nLevel, 0 < w.ever x → (w.heap.next x nLevel).bits = true →
    w'.heap.next x nLevel = w.heap.next x nLevel
  built : ∀ x, w.phase x = .built t → w'.heap.next x = w.heap.next x
  linking : ∀ x nLevel, w.phase x = .linking t → w.ever x ≤ nLevel →
    (w'.heap.next x nLevel).ptr = (w.heap.next x nLevel).ptr
  mine : ∀ x, (w.phase x).Of t ∨ (w'.phase x).Of t → w'.phase x = w.phase x ∧
    w'.top x = w.top x ∧ w'.ever x = w.ever x ∧ w'.heap.unlink x = w.heap.unlink x
  linked : ∀ x, w.phase x = .linked → w'.phase x = .linked ∧ w'.top x ≤ w.top x ∧
    w'.ever x = w.ever x
  unlink : ∀ x, 0 < w.ever x → w'.heap.unlink x ≤ w.heap.unlink x
  debt : ∀ x, x ∉ S → (w.debt x).Of t ∨ (w'.debt x).Of t →
    w'.debt x = w.debt x ∧ w'.top x = w.top x ∧ w'.heap.unlink x = w.heap.unlink x
  op : w'.op t = w.op t
  status : (w'.status t = w.status t ∧ w'.erasing t = w.erasing t) ∨
    ∃ x, w.erasing t = some x ∧ w'.erasing t = none ∧ w'.status t = .done true

abbrev Rely (t : T) (w w' : World T K) : Prop := RelyBut t ∅ w w'

namespace RelyBut

variable {t : T} {S : Set NodePtr} {w w₁ w₂ : World T K}

@[refl] lemma refl (t : T) (S : Set NodePtr) (w : World T K) : RelyBut t S w w where
  node _ _ := rfl
  ever _ := le_rfl
  marked _ _ _ _ := rfl
  built _ _ := rfl
  linking _ _ _ _ := rfl
  mine _ _ := ⟨rfl, rfl, rfl, rfl⟩
  linked _ h := ⟨h, le_rfl, rfl⟩
  unlink _ _ := le_rfl
  debt _ _ _ := ⟨rfl, rfl, rfl⟩
  op := rfl
  status := .inl ⟨rfl, rfl⟩

lemma phase_of (h : RelyBut t S w w₁) {x : NodePtr} (hx : (w.phase x).Of t) :
    w₁.phase x = w.phase x := (h.mine x (.inl hx)).1

lemma built_of (h : RelyBut t S w w₁) {x : NodePtr} (hx : w.phase x = .built t) :
    w₁.phase x = .built t := (h.phase_of (hx ▸ rfl)).trans hx

lemma linking_of (h : RelyBut t S w w₁) {x : NodePtr} (hx : w.phase x = .linking t) :
    w₁.phase x = .linking t := (h.phase_of (hx ▸ rfl)).trans hx

lemma debt_of (h : RelyBut t S w w₁) {x : NodePtr} (hxS : x ∉ S) (hx : (w.debt x).Of t) :
    w₁.debt x = w.debt x := (h.debt x hxS (.inl hx)).1

lemma ever_pos (h : RelyBut t S w w₁) {x : NodePtr} (hx : 0 < w.ever x) : 0 < w₁.ever x :=
  hx.trans_le (h.ever x)

lemma rank (h : RelyBut t S w w₁) {x : NodePtr} (hx : 0 < w.ever x) :
    w₁.heap.rank x = w.heap.rank x := Heap.rank_congr (h.node x (.inl hx))

@[trans] lemma trans (h : RelyBut t S w w₁) (h' : RelyBut t S w₁ w₂) : RelyBut t S w w₂ where
  node x hx := by
    have hx₁ : 0 < w₁.ever x ∨ w₁.phase x = .built t := hx.imp h.ever_pos h.built_of
    exact (h'.node x hx₁).trans (h.node x hx)
  ever x := (h.ever x).trans (h'.ever x)
  marked x nLevel hx hbits := by
    have heq := h.marked x nLevel hx hbits
    rw [← heq] at hbits
    exact (h'.marked x nLevel (h.ever_pos hx) hbits).trans heq
  built x hx := (h'.built x (h.built_of hx)).trans (h.built x hx)
  linking x nLevel hx hle := by
    obtain ⟨_, _, hever, _⟩ := h.mine x (.inl (hx ▸ rfl))
    exact (h'.linking x nLevel (h.linking_of hx) (hever ▸ hle)).trans (h.linking x nLevel hx hle)
  mine x hx := by
    have hx₁ : (w₁.phase x).Of t := by
      rcases hx with hx | hx
      · rwa [h.phase_of hx]
      · rwa [← (h'.mine x (.inr hx)).1]
    obtain ⟨hp, htop, hever, hunlink⟩ := h.mine x (.inr hx₁)
    obtain ⟨hp', htop', hever', hunlink'⟩ := h'.mine x (.inl hx₁)
    exact ⟨hp'.trans hp, htop'.trans htop, hever'.trans hever, hunlink'.trans hunlink⟩
  linked x hx := by
    obtain ⟨hx₁, htop, hever⟩ := h.linked x hx
    obtain ⟨hx₂, htop', hever'⟩ := h'.linked x hx₁
    exact ⟨hx₂, htop'.trans htop, hever'.trans hever⟩
  unlink x hx := (h'.unlink x (h.ever_pos hx)).trans (h.unlink x hx)
  debt x hxS hx := by
    have hx₁ : (w₁.debt x).Of t := by
      rcases hx with hx | hx
      · rwa [h.debt_of hxS hx]
      · rwa [← (h'.debt x hxS (.inr hx)).1]
    obtain ⟨hd, htop, hunlink⟩ := h.debt x hxS (.inr hx₁)
    obtain ⟨hd', htop', hunlink'⟩ := h'.debt x hxS (.inl hx₁)
    exact ⟨hd'.trans hd, htop'.trans htop, hunlink'.trans hunlink⟩
  op := h'.op.trans h.op
  status := by
    rcases h.status with ⟨hs, he⟩ | ⟨x, hx, hnone, hdone⟩
    · rcases h'.status with ⟨hs', he'⟩ | ⟨x, hx, hnone, hdone⟩
      · exact .inl ⟨hs'.trans hs, he'.trans he⟩
      · exact .inr ⟨x, he ▸ hx, hnone, hdone⟩
    · rcases h'.status with ⟨hs', he'⟩ | ⟨y, hy, _, _⟩
      · exact .inr ⟨x, hx, he'.trans hnone, hs'.trans hdone⟩
      · rw [hnone] at hy
        cases hy

lemma mono {S' : Set NodePtr} (h : RelyBut t S w w₁) (hS : S ⊆ S') : RelyBut t S' w w₁ :=
  { h with debt := fun x hx => h.debt x fun hxS => hx (hS hxS) }

lemma but (h : Rely t w w₁) : RelyBut t S w w₁ := h.mono (Set.empty_subset S)

/-- A debt that `t` takes on and pays is nothing in the end. -/
lemma paid {x : NodePtr} (h : RelyBut t {x} w w₁) (hx : ¬(w.debt x).Of t)
    (hx₁ : ¬(w₁.debt x).Of t) : Rely t w w₁ :=
  { h with
    debt := fun y _ hy => by
      by_cases hyx : y = x
      · subst hyx
        rcases hy with hy | hy
        · exact absurd hy hx
        · exact absurd hy hx₁
      · exact h.debt y hyx hy }

end RelyBut

end RedPar.SkipList
