import RedPar.Proofs.SkipListWorld

/-!
# What the operations do to a world

One definition for each kind of change: a node is allocated, prepared, linked at a level, marked,
unlinked, counted and retired. Each keeps the invariant and is within what the other threads rely
on, and the set changes exactly where an operation takes effect.
-/

namespace RedPar.SkipList
open Interleaved

variable {T K : Type} {t u : T} {w w' : World T K}

/-- Thread `t` changes at most the node `x` and the link of `p` at one level, and leaves alone what
the threads `O` have to themselves. -/
structure Change (t : T) (O : T → Prop) (x p : NodePtr) (nLevel : Nat) (w w' : World T K) : Prop where
  others : ∀ y, y ≠ x → SameAt w w' y
  node : 0 < w.ever x → w'.heap.node x = w.heap.node x
  ever : w.ever x ≤ w'.ever x
  phase : ∀ u, O u → ¬(w.phase x).Of u ∧ ¬(w'.phase x).Of u
  debt : ∀ u, u ≠ t → ¬(w.debt x).Of u ∧ ¬(w'.debt x).Of u
  linked : w.phase x = .linked → w'.phase x = .linked ∧ w'.top x ≤ w.top x ∧ w'.ever x = w.ever x
  unlink : 0 < w.ever x → w'.heap.unlink x ≤ w.heap.unlink x
  next : ∀ y l, ¬(y = p ∧ l = nLevel) → w'.heap.next y l = w.heap.next y l
  link : w'.heap.next p nLevel = w.heap.next p nLevel ∨
    ((w.heap.next p nLevel).bits = false ∨ w.ever p = 0) ∧ (∀ u, O u → w.phase p ≠ .built u) ∧
      (nLevel < w.ever p ∨ (∀ u, O u → w.phase p ≠ .linking u) ∨
        (w'.heap.next p nLevel).ptr = (w.heap.next p nLevel).ptr)
  op : w'.op = w.op
  status : ∀ u, O u → (w'.status u = w.status u ∧ w'.erasing u = w.erasing u) ∨
    ∃ y, w.erasing u = some y ∧ w'.erasing u = none ∧ w'.status u = .done true

/-- It is within what these threads rely on, apart from a debt on `x`. -/
theorem Change.relyBut {O : T → Prop} {x p : NodePtr} {nLevel : Nat}
    (h : Change t O x p nLevel w w') (hu : O u) : RelyBut u {x} w w' where
  node y hy := by
    by_cases hyx : y = x
    · subst hyx
      rcases hy with hy | hy
      · exact h.node hy
      · exact absurd (hy ▸ rfl) (h.phase u hu).1
    · exact (h.others y hyx).node
  ever y := by
    by_cases hyx : y = x
    · subst hyx
      exact h.ever
    · exact (h.others y hyx).ever.ge
  marked y l hy hbits := by
    by_cases hpl : y = p ∧ l = nLevel
    · obtain ⟨rfl, rfl⟩ := hpl
      rcases h.link with hsame | ⟨hunmarked | hever, _⟩
      · exact hsame
      · rw [hunmarked] at hbits
        cases hbits
      · exact absurd hever hy.ne'
    · exact h.next y l hpl
  built y hy := by
    funext l
    by_cases hpl : y = p ∧ l = nLevel
    · obtain ⟨rfl, rfl⟩ := hpl
      rcases h.link with hsame | ⟨_, hbuilt, _⟩
      · exact hsame
      · exact absurd hy (hbuilt u hu)
    · exact h.next y l hpl
  linking y l hy hle := by
    by_cases hpl : y = p ∧ l = nLevel
    · obtain ⟨rfl, rfl⟩ := hpl
      rcases h.link with hsame | ⟨_, _, hlt | hlinking | hptr⟩
      · rw [hsame]
      · exact absurd hlt (not_lt.mpr hle)
      · exact absurd hy (hlinking u hu)
      · exact hptr
    · rw [h.next y l hpl]
  mine y hy := by
    by_cases hyx : y = x
    · subst hyx
      rcases hy with hy | hy
      · exact absurd hy (h.phase u hu).1
      · exact absurd hy (h.phase u hu).2
    · have heq := h.others y hyx
      exact ⟨heq.phase, heq.top, heq.ever, heq.unlink⟩
  linked y hy := by
    by_cases hyx : y = x
    · subst hyx
      exact h.linked hy
    · have heq := h.others y hyx
      exact ⟨heq.phase.trans hy, heq.top.le, heq.ever⟩
  unlink y hy := by
    by_cases hyx : y = x
    · subst hyx
      exact h.unlink hy
    · exact (h.others y hyx).unlink.le
  debt y hyx _ := by
    have heq := h.others y hyx
    exact ⟨heq.debt, heq.top, heq.unlink⟩
  op := by rw [h.op]
  status := h.status u hu

theorem Change.rely {O : T → Prop} {x p : NodePtr} {nLevel : Nat}
    (h : Change t O x p nLevel w w') (hu : O u) (hne : u ≠ t) : Rely u w w' :=
  (h.relyBut hu).paid (h.debt u hne).1 (h.debt u hne).2

lemma Lives.frame (h : Lives w) (next : NodePtr → Nat → MarkedPtr) (nHeight : Nat)
    (set : Finset K) (op : T → Option (Op K)) (status : T → Progress)
    (erasing : T → Option NodePtr) :
    Lives ({ w with
      heap := { w.heap with next, nHeight }
      set, op, status, erasing } : World T K) where
  life := h.life
  head_node := h.head_node
  head_top := h.head_top
  retired := h.retired
  nodup := h.nodup
  fresh := h.fresh

lemma rank_setNode {x : NodePtr} {n : Option (Node K)} (h : Lives w) (hx : w.ever x = 0) {y : NodePtr} (hy : 0 < w.top y) :
    ({ w.heap with node := Function.update w.heap.node x n } : Heap K).rank y = w.heap.rank y := by
  refine Heap.rank_congr ?_
  have hne : y ≠ x := by
    rintro rfl
    have hle := h.top_le y
    omega
  exact Function.update_of_ne hne n w.heap.node

section Frames

variable [LinearOrder K]

lemma Shape.frame (h : Shape w) (unlink : NodePtr → Nat) (fresh : NodePtr)
    (retired : List NodePtr) (phase : NodePtr → Phase T) (debt : NodePtr → Debt T) (set : Finset K)
    (op : T → Option (Op K)) (status : T → Progress) (erasing : T → Option NodePtr) :
    Shape ({ w with
      heap := { w.heap with unlink, fresh, retired }
      phase, debt, set, op, status, erasing } : World T K) where
  head_unmarked := h.head_unmarked
  sorted := h.sorted
  unmarked := h.unmarked
  height_pos := h.height_pos
  height_le := h.height_le

lemma Stands.frame (h : Stands w) (unlink : NodePtr → Nat) (nHeight : Nat) (fresh : NodePtr)
    (retired : List NodePtr) (ever : NodePtr → Nat) (phase : NodePtr → Phase T)
    (debt : NodePtr → Debt T) :
    Stands ({ w with
      heap := { w.heap with unlink, nHeight, fresh, retired }
      ever, phase, debt } : World T K) where
  set := h.set
  erasing := h.erasing
  eraser := h.eraser
  sole := h.sole

section SetNode

variable {x : NodePtr} {n : Option (Node K)}

lemma Shape.setNode (h : Shape w) (hl : Lives w) (hx : w.ever x = 0) :
    Shape ({ w with heap := { w.heap with node := Function.update w.heap.node x n } } :
      World T K) where
  head_unmarked := h.head_unmarked
  sorted nLevel := (h.sorted nLevel).congr_rank fun _ hy =>
    rank_setNode hl hx (Nat.zero_lt_of_lt hy)
  unmarked := h.unmarked
  height_pos := h.height_pos
  height_le := h.height_le

lemma Stands.setNode (h : Stands w) (hl : Lives w) (hx : w.ever x = 0) :
    Stands ({ w with heap := { w.heap with node := Function.update w.heap.node x n } } :
      World T K) where
  set v := by
    refine (h.set v).trans (exists_congr fun y => and_congr_right fun hy => ?_)
    exact (Eq.congr_left (rank_setNode hl hx hy)).symm
  erasing t y hy := by
    obtain ⟨htop, hbits, hstatus, v, hop, hv⟩ := h.erasing t y hy
    exact ⟨htop, hbits, hstatus, v, hop, (rank_setNode hl hx htop).trans hv⟩
  eraser := h.eraser
  sole := h.sole

end SetNode

/-- The link of a node at a level that it is not linked at. -/
lemma Shape.setFree (h : Shape w) {x : NodePtr} {nLevel : Nat} (htop : w.top x ≤ nLevel)
    (hever : w.ever x ≤ nLevel) (hne : x ≠ head) (v : MarkedPtr) :
    Shape ({ w with heap := w.heap.setNext x nLevel v } : World T K) where
  head_unmarked l := by
    rw [Heap.setNext_next_of_ne _ _ _ _ hne.symm]
    exact h.head_unmarked l
  sorted l := by
    by_cases hl : l = nLevel
    · subst hl
      have hlinks := Heap.setNext_links_self w.heap x l v
      rw [hlinks]
      exact (h.sorted l).setLink (not_lt.mpr htop) v.ptr
    · rw [Heap.setNext_links_of_level _ _ _ _ hl]
      exact h.sorted l
  unmarked y l hl hbits := by
    by_cases hyl : y = x ∧ l = nLevel
    · obtain ⟨rfl, rfl⟩ := hyl
      exact absurd hl (not_lt.mpr hever)
    · rw [Heap.setNext_next, if_neg hyl] at hbits
      exact h.unmarked y l hl hbits
  height_pos := h.height_pos
  height_le := h.height_le

lemma Shape.setMark (h : Shape w) {x : NodePtr} (hne : x ≠ head) (nLevel : Nat) :
    Shape ({ w with heap := w.heap.setNext x nLevel (w.heap.next x nLevel).marked } :
      World T K) where
  head_unmarked l := by
    rw [Heap.setNext_next_of_ne _ _ _ _ hne.symm]
    exact h.head_unmarked l
  sorted l := by
    have hlinks := w.heap.setNext_links_of_ptr x nLevel (w.heap.next x nLevel).marked rfl l
    have hsorted := h.sorted l
    rwa [← hlinks] at hsorted
  unmarked y l hl hbits := by
    by_cases hyl : y = x ∧ l = nLevel
    · obtain ⟨rfl, rfl⟩ := hyl
      rw [Heap.setNext_next_self] at hbits
      cases hbits
    · rw [Heap.setNext_next, if_neg hyl] at hbits
      exact h.unmarked y l hl hbits
  height_pos := h.height_pos
  height_le := h.height_le

lemma members_update_of_lt {top : NodePtr → Nat} {x : NodePtr} {n l : Nat} (hl : l < n) :
    {y | l < Function.update top x n y} = Insert.insert x {y | l < top y} := by
  ext y
  by_cases hy : y = x
  · subst hy
    simp [hl]
  · simp [hy]

lemma members_update_of_le {top : NodePtr → Nat} {x : NodePtr} {n l : Nat} (hl : n ≤ l) :
    {y | l < Function.update top x n y} = {y | l < top y} \ {x} := by
  ext y
  by_cases hy : y = x
  · subst hy
    simp [hl]
  · simp [hy]

/-- A node is linked behind `pred`, at the level above those it is linked at. -/
lemma Shape.link (h : Shape w) {pred x : NodePtr} {nLevel : Nat} (hpred : nLevel < w.top pred)
    (htop : w.top x = nLevel) (hever : w.ever x = nLevel) (hne : x ≠ head)
    (hnext : (w.heap.next x nLevel).ptr = (w.heap.next pred nLevel).ptr)
    (hlt : w.heap.rank pred < w.heap.rank x)
    (hsucc : ∀ c, (w.heap.next pred nLevel).ptr = some c → w.heap.rank x < w.heap.rank c) :
    Shape ({ w with
      heap := w.heap.setNext pred nLevel (.of x)
      top := Function.update w.top x (nLevel + 1)
      ever := Function.update w.ever x (nLevel + 1) } : World T K) where
  head_unmarked l := by
    by_cases hpl : head = pred ∧ l = nLevel
    · obtain ⟨rfl, rfl⟩ := hpl
      rw [Heap.setNext_next_self]
      rfl
    · rw [Heap.setNext_next, if_neg hpl]
      exact h.head_unmarked l
  sorted l := by
    by_cases hl : l = nLevel
    · subst hl
      have hmembers : {y | l < Function.update w.top x (l + 1) y} =
          Insert.insert x {y | l < w.top y} := members_update_of_lt (Nat.lt_add_one l)
      have hlinks : (w.heap.setNext pred l (.of x)).links l =
          Function.update (w.heap.links l) pred (some x) := Heap.setNext_links_self ..
      have hx : x ∉ w.members l := not_lt.mpr htop.le
      have hsorted := (h.sorted l).insert hpred hx hnext hlt hsucc
      unfold World.members at hsorted
      rwa [← hmembers, ← hlinks] at hsorted
    · have hlinks := w.heap.setNext_links_of_level pred nLevel (.of x) hl
      have hmembers : {y | l < Function.update w.top x (nLevel + 1) y} = {y | l < w.top y} := by
        ext y
        by_cases hy : y = x
        · subst hy
          simp [htop]
          omega
        · simp [hy]
      have hsorted := h.sorted l
      unfold World.members at hsorted
      rwa [← hmembers, ← hlinks] at hsorted
  unmarked y l hl hbits := by
    have hl' : l < Function.update w.ever x (nLevel + 1) y := hl
    show l < Function.update w.top x (nLevel + 1) y
    by_cases hy : y = x
    · subst hy
      rw [Function.update_self] at hl' ⊢
      exact hl'
    · rw [Function.update_of_ne hy] at hl' ⊢
      by_cases hyl : y = pred ∧ l = nLevel
      · obtain ⟨rfl, rfl⟩ := hyl
        exact hpred
      · rw [Heap.setNext_next, if_neg hyl] at hbits
        exact h.unmarked y l hl' hbits
  height_pos := h.height_pos
  height_le := h.height_le

/-- A marked node is unlinked at the highest level that it is linked at. -/
lemma Shape.cut (h : Shape w) {pred x : NodePtr} {nLevel : Nat} (hpred : nLevel < w.top pred)
    (hnext : (w.heap.next pred nLevel).ptr = some x) (htop : w.top x = nLevel + 1)
    (hbits : (w.heap.next x nLevel).bits = true) :
    Shape ({ w with
      heap := w.heap.setNext pred nLevel ⟨(w.heap.next x nLevel).ptr, false⟩
      top := Function.update w.top x nLevel } : World T K) where
  head_unmarked l := by
    by_cases hpl : head = pred ∧ l = nLevel
    · obtain ⟨rfl, rfl⟩ := hpl
      rw [Heap.setNext_next_self]
    · rw [Heap.setNext_next, if_neg hpl]
      exact h.head_unmarked l
  sorted l := by
    by_cases hl : l = nLevel
    · subst hl
      have hmembers : {y | l < Function.update w.top x l y} = {y | l < w.top y} \ {x} :=
        members_update_of_le (le_refl l)
      have hlinks : (w.heap.setNext pred l ⟨(w.heap.next x l).ptr, false⟩).links l =
          Function.update (w.heap.links l) pred (w.heap.links l x) := Heap.setNext_links_self ..
      have hsorted := (h.sorted l).erase hpred hnext
      unfold World.members at hsorted
      rwa [← hmembers, ← hlinks] at hsorted
    · have hlinks := w.heap.setNext_links_of_level pred nLevel ⟨(w.heap.next x nLevel).ptr, false⟩ hl
      have hmembers : {y | l < Function.update w.top x nLevel y} = {y | l < w.top y} := by
        ext y
        by_cases hy : y = x
        · subst hy
          simp [htop]
          omega
        · simp [hy]
      have hsorted := h.sorted l
      unfold World.members at hsorted
      rwa [← hmembers, ← hlinks] at hsorted
  unmarked y l hl hunmarked := by
    show l < Function.update w.top x nLevel y
    have hne : pred ≠ x := by
      rintro rfl
      exact absurd ((h.sorted nLevel).link pred pred hpred hnext).2 (lt_irrefl _)
    by_cases hy : y = x
    · subst hy
      rw [Function.update_self]
      rw [Heap.setNext_next_of_ne _ _ _ _ hne.symm] at hunmarked
      have hlt := h.unmarked y l hl hunmarked
      have hl' : l ≠ nLevel := by
        rintro rfl
        rw [hunmarked] at hbits
        cases hbits
      omega
    · rw [Function.update_of_ne hy]
      by_cases hyl : y = pred ∧ l = nLevel
      · obtain ⟨rfl, rfl⟩ := hyl
        exact hpred
      · rw [Heap.setNext_next, if_neg hyl] at hunmarked
        exact h.unmarked y l hl hunmarked
  height_pos := h.height_pos
  height_le := h.height_le

/-- The marks of the nodes in the list stay the same at level 0. -/
lemma Stands.setNext (h : Stands w) (p : NodePtr) (nLevel : Nat) (v : MarkedPtr)
    (hv : 0 < nLevel ∨ w.top p = 0 ∨ v.bits = (w.heap.next p nLevel).bits) :
    Stands ({ w with heap := w.heap.setNext p nLevel v } : World T K) := by
  have hbits : ∀ x, 0 < w.top x →
      ((w.heap.setNext p nLevel v).next x 0).bits = (w.heap.next x 0).bits := by
    intro x hx
    by_cases hxl : x = p ∧ 0 = nLevel
    · obtain ⟨rfl, rfl⟩ := hxl
      rw [Heap.setNext_next_self]
      rcases hv with hv | hv | hv
      · exact absurd hv (lt_irrefl 0)
      · exact absurd hv hx.ne'
      · exact hv
    · rw [Heap.setNext_next, if_neg hxl]
  exact
    { set := h.set
      erasing := fun t x hx => by
        obtain ⟨htop, hmark, hrest⟩ := h.erasing t x hx
        exact ⟨htop, (hbits x htop).trans hmark, hrest⟩
      eraser := fun x hx hmark => h.eraser x hx ((hbits x hx).symm.trans hmark)
      sole := h.sole }

/-- A node is linked or unlinked at an upper level. -/
lemma Stands.setTop (h : Stands w) (x : NodePtr) (top : Nat) (htop : 0 < top ↔ 0 < w.top x) :
    Stands ({ w with top := Function.update w.top x top } : World T K) := by
  have hiff : ∀ y, 0 < Function.update w.top x top y ↔ 0 < w.top y := by
    intro y
    by_cases hy : y = x
    · subst hy
      rw [Function.update_self]
      exact htop
    · rw [Function.update_of_ne hy]
  exact
    { set := fun v => (h.set v).trans (exists_congr fun y => and_congr_left fun _ => (hiff y).symm)
      erasing := fun t y hy => by
        obtain ⟨hpos, hrest⟩ := h.erasing t y hy
        exact ⟨(hiff y).mpr hpos, hrest⟩
      eraser := fun y hy => h.eraser y ((hiff y).mp hy)
      sole := h.sole }

lemma Stands.enter (h : Stands w) {x : NodePtr} {v : K} {top : Nat} (hpos : 0 < top)
    (htop : w.top x = 0) (hrank : w.heap.rank x = v) (hbits : (w.heap.next x 0).bits = false) :
    Stands ({ w with
      top := Function.update w.top x top
      set := Insert.insert v w.set } : World T K) where
  set v' := by
    show v' ∈ Insert.insert v w.set ↔ ∃ y, 0 < Function.update w.top x top y ∧ w.heap.rank y = v'
    rw [Finset.mem_insert, h.set v']
    constructor
    · rintro (rfl | ⟨y, hy, hv'⟩)
      · exact ⟨x, by rwa [Function.update_self], hrank⟩
      · have hyx : y ≠ x := by
          rintro rfl
          omega
        exact ⟨y, by rwa [Function.update_of_ne hyx], hv'⟩
    · rintro ⟨y, hy, hv'⟩
      by_cases hyx : y = x
      · subst hyx
        exact .inl (WithBot.coe_injective (hv'.symm.trans hrank))
      · rw [Function.update_of_ne hyx] at hy
        exact .inr ⟨y, hy, hv'⟩
  erasing u y hy := by
    obtain ⟨hpos', hmark, hrest⟩ := h.erasing u y hy
    have hyx : y ≠ x := by
      rintro rfl
      omega
    exact ⟨hpos'.trans_eq (Function.update_of_ne hyx _ _).symm, hmark, hrest⟩
  eraser y hy hmark := by
    by_cases hyx : y = x
    · subst hyx
      rw [hbits] at hmark
      cases hmark
    · have hy' : 0 < Function.update w.top x top y := hy
      rw [Function.update_of_ne hyx] at hy'
      exact h.eraser y hy' hmark
  sole := h.sole

variable [DecidableEq T]

/-- An operation other than an erase that has marked its node makes progress. -/
lemma Stands.setStatus (h : Stands w) (herasing : w.erasing t = none) (q : Progress) :
    Stands ({ w with status := Function.update w.status t q } : World T K) where
  set := h.set
  erasing u x hx := by
    obtain ⟨htop, hmark, htodo, hop⟩ := h.erasing u x hx
    have hu : u ≠ t := by
      rintro rfl
      rw [herasing] at hx
      cases hx
    exact ⟨htop, hmark, (Function.update_of_ne hu _ _).trans htodo, hop⟩
  eraser := h.eraser
  sole := h.sole

/-- A node leaves the list, and its value the set: its eraser takes effect. -/
lemma Stands.leave (h : Stands w) {e : T} {x : NodePtr} {v : K} (he : w.erasing e = some x)
    (hrank : w.heap.rank x = v)
    (hinj : ∀ y, 0 < w.top y → w.heap.rank y = w.heap.rank x → y = x) :
    Stands ({ w with
      top := Function.update w.top x 0
      set := w.set.erase v
      status := Function.update w.status e (.done true)
      erasing := Function.update w.erasing e none } : World T K) where
  set v' := by
    show v' ∈ w.set.erase v ↔ ∃ y, 0 < Function.update w.top x 0 y ∧ w.heap.rank y = v'
    rw [Finset.mem_erase, h.set v']
    constructor
    · rintro ⟨hne, y, hy, hv'⟩
      have hyx : y ≠ x := by
        rintro rfl
        exact hne (WithBot.coe_injective (hv'.symm.trans hrank))
      exact ⟨y, by rwa [Function.update_of_ne hyx], hv'⟩
    · rintro ⟨y, hy, hv'⟩
      by_cases hyx : y = x
      · subst hyx
        rw [Function.update_self] at hy
        exact absurd hy (lt_irrefl 0)
      · rw [Function.update_of_ne hyx] at hy
        refine ⟨?_, y, hy, hv'⟩
        rintro rfl
        exact hyx (hinj y hy (hv'.trans hrank.symm))
  erasing u y hy := by
    have hy' : Function.update w.erasing e none u = some y := hy
    by_cases hu : u = e
    · subst hu
      rw [Function.update_self] at hy'
      cases hy'
    · rw [Function.update_of_ne hu] at hy'
      obtain ⟨hpos, hmark, htodo, hop⟩ := h.erasing u y hy'
      have hyx : y ≠ x := by
        rintro rfl
        exact hu (h.sole u e y hy' he)
      exact ⟨hpos.trans_eq (Function.update_of_ne hyx _ _).symm, hmark,
        (Function.update_of_ne hu _ _).trans htodo, hop⟩
  eraser y hy hmark := by
    have hy' : 0 < Function.update w.top x 0 y := hy
    by_cases hyx : y = x
    · subst hyx
      rw [Function.update_self] at hy'
      exact absurd hy' (lt_irrefl 0)
    · rw [Function.update_of_ne hyx] at hy'
      obtain ⟨u, hu⟩ := h.eraser y hy' hmark
      have hne : u ≠ e := by
        rintro rfl
        rw [he] at hu
        exact hyx (Option.some.inj hu).symm
      exact ⟨u, (Function.update_of_ne hne _ _).trans hu⟩
  sole u u' y hu hu' := by
    have hold : ∀ t, Function.update w.erasing e none t = some y → w.erasing t = some y := by
      intro t ht
      by_cases hte : t = e
      · subst hte
        rw [Function.update_self] at ht
        cases ht
      · rwa [Function.update_of_ne hte] at ht
    exact h.sole u u' y (hold u hu) (hold u' hu')

lemma Stands.condemn (h : Stands w) {x : NodePtr} {v : K} (htop : 0 < w.top x)
    (hbits : (w.heap.next x 0).bits = false) (htodo : w.status t = .todo)
    (herasing : w.erasing t = none) (hop : w.op t = some (.erase v)) (hrank : w.heap.rank x = v) :
    Stands ({ w with
      heap := w.heap.setNext x 0 (w.heap.next x 0).marked
      erasing := Function.update w.erasing t (some x) } : World T K) := by
  have hne : ∀ u y, w.erasing u = some y → y ≠ x := by
    rintro u y hy rfl
    have hmark := (h.erasing u y hy).2.1
    rw [hbits] at hmark
    cases hmark
  have hnext : ∀ y, y ≠ x → (w.heap.setNext x 0 (w.heap.next x 0).marked).next y 0 =
      w.heap.next y 0 := fun y hy => w.heap.setNext_next_of_ne x 0 _ hy 0
  exact
    { set := h.set
      erasing := fun u y hy => by
        have hy' : Function.update w.erasing t (some x) u = some y := hy
        by_cases hu : u = t
        · subst hu
          rw [Function.update_self] at hy'
          cases hy'
          exact ⟨htop, congrArg MarkedPtr.bits (w.heap.setNext_next_self x 0 _), htodo, v, hop,
            hrank⟩
        · rw [Function.update_of_ne hu] at hy'
          obtain ⟨hpos, hmark, hrest⟩ := h.erasing u y hy'
          exact ⟨hpos, (congrArg MarkedPtr.bits (hnext y (hne u y hy'))).trans hmark, hrest⟩
      eraser := fun y hy hmark => by
        by_cases hyx : y = x
        · subst hyx
          exact ⟨t, Function.update_self ..⟩
        · obtain ⟨u, hu⟩ := h.eraser y hy ((congrArg MarkedPtr.bits (hnext y hyx)).symm.trans hmark)
          have hut : u ≠ t := by
            rintro rfl
            rw [herasing] at hu
            cases hu
          exact ⟨u, (Function.update_of_ne hut _ _).trans hu⟩
      sole := fun u u' y hu hu' => by
        have hu₁ : Function.update w.erasing t (some x) u = some y := hu
        have hu₂ : Function.update w.erasing t (some x) u' = some y := hu'
        by_cases h₁ : u = t
        · by_cases h₂ : u' = t
          · exact h₁.trans h₂.symm
          · subst h₁
            rw [Function.update_self] at hu₁
            rw [Function.update_of_ne h₂] at hu₂
            cases hu₁
            exact absurd rfl (hne u' x hu₂)
        · rw [Function.update_of_ne h₁] at hu₁
          by_cases h₂ : u' = t
          · subst h₂
            rw [Function.update_self] at hu₂
            cases hu₂
            exact absurd rfl (hne u x hu₁)
          · rw [Function.update_of_ne h₂] at hu₂
            exact h.sole u u' y hu₁ hu₂ }

end Frames

end RedPar.SkipList
