import RedPar.Proofs.SkipListActions

/-!
# The moves of the skip list

One definition for each kind of step that changes a world. Each keeps the invariant, and is a
change that the other threads can rely on.
-/

namespace RedPar.SkipList
open Interleaved

variable {T K : Type} [LinearOrder K] {t : T} {w : World T K} {x p : NodePtr}
  {nLevel : Nat}

namespace World

omit [LinearOrder K]

def allocate (w : World T K) (t : T) (nHeight : Nat) (v : K) : World T K :=
  { w with
    heap := { w.heap with
      node := Function.update w.heap.node w.heap.fresh (some ⟨some v, nHeight⟩)
      unlink := Function.update w.heap.unlink w.heap.fresh nHeight
      fresh := w.heap.fresh + 1 }
    phase := Function.update w.phase w.heap.fresh (.built t) }

/-- A node that was never linked is deleted. -/
def dispose (w : World T K) (x : NodePtr) : World T K :=
  { w with
    heap := { w.heap with node := Function.update w.heap.node x none }
    phase := Function.update w.phase x .absent }

/-- A link is written that leads nowhere yet. -/
def put (w : World T K) (x : NodePtr) (nLevel : Nat) (v : MarkedPtr) : World T K :=
  { w with heap := w.heap.setNext x nLevel v }

/-- `t` links its node of height `nHeight` behind `pred` at one more level. -/
def link (w : World T K) (t : T) (pred x : NodePtr) (nLevel nHeight : Nat) : World T K :=
  { w with
    heap := w.heap.setNext pred nLevel (.of x)
    top := Function.update w.top x (nLevel + 1)
    ever := Function.update w.ever x (nLevel + 1)
    phase := Function.update w.phase x (if nLevel + 1 = nHeight then .linked else .linking t) }

def stop (w : World T K) (x : NodePtr) : World T K :=
  { w with
    heap := { w.heap with unlink := Function.update w.heap.unlink x (w.top x) }
    phase := Function.update w.phase x .linked }

/-- `t` unlinks a node at the highest level that it is linked at. -/
def cut (w : World T K) (t : T) (pred x : NodePtr) (nLevel : Nat) : World T K :=
  { w with
    heap := w.heap.setNext pred nLevel ⟨(w.heap.next x nLevel).ptr, false⟩
    top := Function.update w.top x nLevel
    debt := Function.update w.debt x (.unlinking t) }

def pay (w : World T K) (t : T) (x : NodePtr) : World T K :=
  { w with
    heap := { w.heap with unlink := Function.update w.heap.unlink x (w.heap.unlink x - 1) }
    debt := Function.update w.debt x (if w.heap.unlink x = 1 then .unlinked t else .clear) }

def retire (w : World T K) (x : NodePtr) : World T K :=
  { w with
    heap := { w.heap with retired := x :: w.heap.retired }
    debt := Function.update w.debt x .retired }

def raise (w : World T K) (nHeight : Nat) : World T K :=
  { w with heap := { w.heap with nHeight } }

variable [DecidableEq T]

/-- The node is linked at level 0, and its insertion takes effect. -/
def enter [DecidableEq K] (w : World T K) (t : T) (pred x : NodePtr) (nHeight : Nat) (v : K) : World T K :=
  { w.link t pred x 0 nHeight with
    set := Insert.insert v w.set
    status := Function.update w.status t (.done true) }

/-- An eraser marks its node at level 0. -/
def condemn (w : World T K) (t : T) (x : NodePtr) : World T K :=
  { w with
    heap := w.heap.setNext x 0 (w.heap.next x 0).marked
    erasing := Function.update w.erasing t (some x) }

/-- The node is unlinked at level 0, and its eraser takes effect. -/
def drop [DecidableEq K] (w : World T K) (t : T) (pred x : NodePtr) (e : T) (v : K) : World T K :=
  { w.cut t pred x 0 with
    set := w.set.erase v
    status := Function.update w.status e (.done true)
    erasing := Function.update w.erasing e none }

/-- The operation of `t` takes effect without a change of the set, or has lost its node. -/
def settle (w : World T K) (t : T) (q : Progress) : World T K :=
  { w with status := Function.update w.status t q }

end World

/-! ## A node that is not in the list -/

lemma Inv.allocate (h : Inv w) {nHeight : Nat} (hpos : 0 < nHeight) (hle : nHeight ≤ maxHeight)
    (v : K) : Inv (w.allocate t nHeight v) := by
  have habsent := h.lives.fresh w.heap.fresh le_rfl
  obtain ⟨hdebt, htop, hever, _⟩ := h.lives.of_absent habsent
  exact
    { lives := by
        refine h.lives.update (x := w.heap.fresh) (fun y hy => ?_) ?_ ?_ h.lives.retired
          h.lives.nodup fun y hy => ?_
        · exact ⟨Function.update_of_ne hy _ _, rfl, rfl, rfl, Function.update_of_ne hy _ _,
            Function.update_of_ne hy _ _⟩
        · have hlife : Life w.heap.fresh (.built t) .clear 0 0 (some ⟨some v, nHeight⟩) nHeight :=
            .built t v nHeight hpos hle
          simpa [World.LifeOf, World.allocate, hdebt, htop, hever] using hlife
        · refine (h.lives.ne_fresh ?_).symm
          rw [h.lives.head_phase]
          nofun
        · have hlt : w.heap.fresh < y := hy
          exact (Function.update_of_ne hlt.ne' _ _).trans (h.lives.fresh y hlt.le)
      shape := (h.shape.setNode h.lives hever).frame _ _ _ _ _ _ _ _ _
      stands := (h.stands.setNode h.lives hever).frame _ _ _ _ _ _ _ }

lemma change_allocate (h : Inv w) {nHeight : Nat} {v : K} :
    Change t (· ≠ t) w.heap.fresh head 0 w (w.allocate t nHeight v) := by
  have habsent := h.lives.fresh w.heap.fresh le_rfl
  obtain ⟨hdebt, _, hever, _⟩ := h.lives.of_absent habsent
  exact
    { others := fun y hy => ⟨Function.update_of_ne hy _ _, rfl, rfl, rfl,
        Function.update_of_ne hy _ _, Function.update_of_ne hy _ _⟩
      node := fun hpos => absurd hever hpos.ne'
      ever := le_rfl
      phase := fun u hu => by
        have hphase : (w.allocate t nHeight v).phase w.heap.fresh = .built t :=
          Function.update_self ..
        rw [habsent, hphase]
        exact ⟨id, hu.symm⟩
      debt := fun u _ => by
        have hdebt' : (w.allocate t nHeight v).debt w.heap.fresh = .clear := hdebt
        rw [hdebt, hdebt']
        exact ⟨id, id⟩
      linked := fun hlinked => by
        rw [habsent] at hlinked
        cases hlinked
      unlink := fun hpos => absurd hever hpos.ne'
      next := fun _ _ _ => rfl
      link := .inl rfl
      op := rfl
      status := fun _ _ => .inl ⟨rfl, rfl⟩ }

lemma Inv.dispose (h : Inv w) (hx : w.phase x = .built t) : Inv (w.dispose x) := by
  obtain ⟨hdebt, htop, hever, _⟩ := h.lives.of_built hx
  have hne : x ≠ head := by
    rintro rfl
    rw [h.lives.head_phase] at hx
    cases hx
  exact
    { lives := by
        refine h.lives.update (x := x) (fun y hy => ?_) ?_ hne h.lives.retired h.lives.nodup
          fun y hy => ?_
        · exact ⟨Function.update_of_ne hy _ _, rfl, rfl, rfl, Function.update_of_ne hy _ _, rfl⟩
        · have hlife : Life x (T := T) (K := K) .absent .clear 0 0 none (w.heap.unlink x) :=
            .absent _
          simpa [World.LifeOf, World.dispose, hdebt, htop, hever] using hlife
        · by_cases hyx : y = x
          · subst hyx
            exact Function.update_self ..
          · exact (Function.update_of_ne hyx _ _).trans (h.lives.fresh y hy)
      shape := (h.shape.setNode h.lives hever).frame _ _ _ _ _ _ _ _ _
      stands := (h.stands.setNode h.lives hever).frame _ _ _ _ _ _ _ }

lemma change_dispose (h : Inv w) (hx : w.phase x = .built t) :
    Change t (· ≠ t) x head 0 w (w.dispose x) := by
  obtain ⟨hdebt, _, hever, _⟩ := h.lives.of_built hx
  exact
    { others := fun y hy => ⟨Function.update_of_ne hy _ _, rfl, rfl, rfl,
        Function.update_of_ne hy _ _, rfl⟩
      node := fun hpos => absurd hever hpos.ne'
      ever := le_rfl
      phase := fun u hu => by
        have hphase : (w.dispose x).phase x = .absent := Function.update_self ..
        rw [hx, hphase]
        exact ⟨hu.symm, id⟩
      debt := fun u _ => by
        have hdebt' : (w.dispose x).debt x = .clear := hdebt
        rw [hdebt, hdebt']
        exact ⟨id, id⟩
      linked := fun hlinked => by
        rw [hx] at hlinked
        cases hlinked
      unlink := fun hpos => absurd hever hpos.ne'
      next := fun _ _ _ => rfl
      link := .inl rfl
      op := rfl
      status := fun _ _ => .inl ⟨rfl, rfl⟩ }

/-! ## Links -/

omit [LinearOrder K] in
lemma sameAt_put {v : MarkedPtr} (y : NodePtr) : SameAt w (w.put x nLevel v) y :=
  ⟨rfl, rfl, rfl, rfl, rfl, rfl⟩

omit [LinearOrder K] in
lemma change_put {v : MarkedPtr} (hbits : (w.heap.next x nLevel).bits = false ∨ w.ever x = 0)
    (hx : (w.phase x).Of t) (hdebt : w.debt x = .clear) :
    Change t (· ≠ t) x x nLevel w (w.put x nLevel v) where
  others y _ := sameAt_put y
  node _ := rfl
  ever := le_rfl
  phase u hu := by
    have hnot : ¬(w.phase x).Of u := by
      intro hu'
      cases hphase : w.phase x with
      | absent | linked =>
        rw [hphase] at hx
        exact hx
      | built t' | linking t' =>
        rw [hphase] at hx hu'
        exact hu (hu'.symm.trans hx)
    exact ⟨hnot, hnot⟩
  debt u _ := by
    have hnot : ¬(w.debt x).Of u := by
      rw [hdebt]
      exact id
    exact ⟨hnot, hnot⟩
  linked hlinked := ⟨hlinked, le_rfl, rfl⟩
  unlink _ := le_rfl
  next y l hyl := by
    show (w.heap.setNext x nLevel v).next y l = _
    rw [Heap.setNext_next, if_neg hyl]
  link := by
    refine .inr ⟨hbits, fun u hu hbuilt => ?_, .inr (.inl fun u hu hlinking => ?_)⟩
    · rw [hbuilt] at hx
      exact hu hx
    · rw [hlinking] at hx
      exact hu hx
  op := rfl
  status _ _ := .inl ⟨rfl, rfl⟩

lemma Inv.put_built (h : Inv w) (hx : w.phase x = .built t) (v : MarkedPtr) :
    Inv (w.put x nLevel v) := by
  obtain ⟨_, htop, hever, _⟩ := h.lives.of_built hx
  have hne : x ≠ head := by
    rintro rfl
    rw [h.lives.head_phase] at hx
    cases hx
  exact
    { lives := h.lives.frame _ _ _ _ _ _
      shape := h.shape.setFree (htop.trans_le (Nat.zero_le _)) (hever.trans_le (Nat.zero_le _)) hne v
      stands := h.stands.setNext _ _ _ (.inr (.inl htop)) }

lemma Inv.put_linking (h : Inv w) (hx : w.phase x = .linking t) (hlevel : w.top x = nLevel)
    (v : MarkedPtr) : Inv (w.put x nLevel v) := by
  obtain ⟨_, hpos, hever, _⟩ := h.lives.of_linking hx
  have hne : x ≠ head := by
    rintro rfl
    rw [h.lives.head_phase] at hx
    cases hx
  exact
    { lives := h.lives.frame _ _ _ _ _ _
      shape := h.shape.setFree hlevel.le (hever.trans hlevel).le hne v
      stands := h.stands.setNext _ _ _ (.inl (hlevel ▸ hpos)) }

lemma Inv.put_mark (h : Inv w) (hne : x ≠ head) (hlevel : 0 < nLevel) :
    Inv (w.put x nLevel (w.heap.next x nLevel).marked) where
  lives := h.lives.frame _ _ _ _ _ _
  shape := h.shape.setMark hne nLevel
  stands := h.stands.setNext _ _ _ (.inl hlevel)

lemma change_mark (h : Inv w) {v : MarkedPtr} (hever : 0 < w.ever x)
    (hbits : (w.heap.next x nLevel).bits = false) (hv : v.ptr = (w.heap.next x nLevel).ptr) :
    Change t (fun _ => True) w.heap.fresh x nLevel w (w.put x nLevel v) := by
  have habsent := h.lives.fresh w.heap.fresh le_rfl
  obtain ⟨hdebt, _, hfresh, _⟩ := h.lives.of_absent habsent
  exact
    { others := fun y _ => sameAt_put y
      node := fun _ => rfl
      ever := le_rfl
      phase := fun u _ => by
        have hphase : (w.put x nLevel v).phase w.heap.fresh = .absent := habsent
        rw [habsent, hphase]
        exact ⟨id, id⟩
      debt := fun u _ => by
        have hdebt' : (w.put x nLevel v).debt w.heap.fresh = .clear := hdebt
        rw [hdebt, hdebt']
        exact ⟨id, id⟩
      linked := fun hlinked => ⟨hlinked, le_rfl, rfl⟩
      unlink := fun _ => le_rfl
      next := fun y l hyl => by
        show (w.heap.setNext x nLevel v).next y l = _
        rw [Heap.setNext_next, if_neg hyl]
      link := by
        refine .inr ⟨.inl hbits, fun u _ hbuilt => ?_, .inr (.inr ?_)⟩
        · exact absurd (h.lives.of_built hbuilt).2.2.1 hever.ne'
        · show ((w.heap.setNext x nLevel v).next x nLevel).ptr = _
          rw [Heap.setNext_next_self, hv]
      op := rfl
      status := fun _ _ => .inl ⟨rfl, rfl⟩ }

/-! ## Linking -/

/-- What a node of `t` needs to be linked at its next level. -/
structure Linkable (w : World T K) (t : T) (x : NodePtr) (nLevel nHeight : Nat) (v : K) : Prop where
  phase : w.phase x = .built t ∨ w.phase x = .linking t
  node : w.heap.node x = some ⟨some v, nHeight⟩
  top : w.top x = nLevel
  lt : nLevel < nHeight

/-- `pred` and its successor are around `v`. -/
structure Around (w : World T K) (pred : NodePtr) (succ : Option NodePtr) (nLevel : Nat) (v : K) :
    Prop where
  reached : nLevel < w.ever pred
  pred_lt : w.heap.rank pred < v
  succ_lt : ∀ c, succ = some c → 0 < w.ever c ∧ (v : WithBot K) < w.heap.rank c

namespace Linkable

variable {nHeight : Nat} {v : K}

lemma facts (h : Linkable w t x nLevel nHeight v) (hinv : Inv w) : w.debt x = .clear ∧
    w.ever x = nLevel ∧ nHeight ≤ maxHeight ∧ w.heap.unlink x = nHeight := by
  have htop := h.top
  rcases h.phase with hx | hx
  · obtain ⟨hdebt, htop', hever, v', height, hnode, _, hle, hunlink⟩ := hinv.lives.of_built hx
    cases hnode.symm.trans h.node
    exact ⟨hdebt, by omega, hle, hunlink⟩
  · obtain ⟨hdebt, _, hever, v', height, hnode, _, hle, hunlink⟩ := hinv.lives.of_linking hx
    cases hnode.symm.trans h.node
    exact ⟨hdebt, by omega, hle, hunlink⟩

omit [LinearOrder K] in
lemma rank (h : Linkable w t x nLevel nHeight v) : w.heap.rank x = v := by
  refine Heap.rank_eq ?_
  rw [h.node]
  rfl

lemma ne_head (h : Linkable w t x nLevel nHeight v) (hinv : Inv w) : x ≠ head := by
  rintro rfl
  have hhead := hinv.lives.head_phase
  rcases h.phase with hx | hx <;> rw [hx] at hhead <;> cases hhead

lemma lives (h : Linkable w t x nLevel nHeight v) (hinv : Inv w) (pred : NodePtr) :
    Lives (w.link t pred x nLevel nHeight) := by
  obtain ⟨hdebt, _, hle, hunlink⟩ := h.facts hinv
  have hlt := h.lt
  refine hinv.lives.update (x := x) (fun y hy => ?_) ?_ (h.ne_head hinv) hinv.lives.retired
    hinv.lives.nodup fun y hy => ?_
  · exact ⟨Function.update_of_ne hy _ _, rfl, Function.update_of_ne hy _ _,
      Function.update_of_ne hy _ _, rfl, rfl⟩
  · unfold World.LifeOf World.link
    simp only [Function.update_self, Heap.setNext_node, Heap.setNext_unlink, hdebt, h.node, hunlink]
    by_cases hlast : nLevel + 1 = nHeight
    · rw [if_pos hlast]
      have hlife : Life x (T := T) .linked .clear (nLevel + 1) (nLevel + 1)
          (some ⟨some v, nHeight⟩) (nLevel + 1 + 0) :=
        .linked .clear (some v) nHeight (nLevel + 1) (nLevel + 1) (Nat.succ_pos _) le_rfl hlast.le hle
          hlast.le (Nat.succ_pos _) fun _ => rfl
      rwa [Nat.add_zero, hlast] at hlife ⊢
    · rw [if_neg hlast]
      exact .linking t v nHeight (nLevel + 1) (Nat.succ_pos _) (by omega) hle
  · have hyx : y ≠ x := by
      rintro rfl
      have habsent := hinv.lives.fresh y hy
      rcases h.phase with hx | hx <;> rw [hx] at habsent <;> cases habsent
    exact (Function.update_of_ne hyx _ _).trans (hinv.lives.fresh y hy)

lemma shape (h : Linkable w t x nLevel nHeight v) (hinv : Inv w) {pred : NodePtr}
    {succ : Option NodePtr} (haround : Around w pred succ nLevel v)
    (hpred : w.heap.next pred nLevel = ⟨succ, false⟩)
    (hnext : (w.heap.next x nLevel).ptr = succ) : Shape (w.link t pred x nLevel nHeight) := by
  obtain ⟨_, hever, _⟩ := h.facts hinv
  have hshape := hinv.shape.link (hinv.member haround.reached (by rw [hpred])) h.top hever
    (h.ne_head hinv) (by rw [hnext, hpred]) (by rw [h.rank]; exact haround.pred_lt)
    (fun c hc => by
      rw [h.rank]
      rw [hpred] at hc
      exact (haround.succ_lt c hc).2)
  exact hshape.frame _ _ _ _ _ _ _ _ _

lemma change (h : Linkable w t x nLevel nHeight v) (hinv : Inv w) {pred : NodePtr}
    (hpred : nLevel < w.ever pred) (hbits : (w.heap.next pred nLevel).bits = false) :
    Change t (· ≠ t) x pred nLevel w (w.link t pred x nLevel nHeight) := by
  obtain ⟨hdebt, hever, hle, hunlink⟩ := h.facts hinv
  exact
    { others := fun y hy => ⟨Function.update_of_ne hy _ _, rfl, Function.update_of_ne hy _ _,
        Function.update_of_ne hy _ _, rfl, rfl⟩
      node := fun _ => rfl
      ever := by
        have hever' : (w.link t pred x nLevel nHeight).ever x = nLevel + 1 :=
          Function.update_self ..
        omega
      phase := fun u hu => by
        have hphase : (w.link t pred x nLevel nHeight).phase x =
            if nLevel + 1 = nHeight then .linked else .linking t := Function.update_self ..
        rw [hphase]
        refine ⟨?_, ?_⟩
        · rcases h.phase with hx | hx <;> rw [hx] <;> exact hu.symm
        · split
          · exact id
          · exact hu.symm
      debt := fun u _ => by
        have hdebt' : (w.link t pred x nLevel nHeight).debt x = .clear := hdebt
        rw [hdebt, hdebt']
        exact ⟨id, id⟩
      linked := fun hlinked => by
        rcases h.phase with hx | hx <;> rw [hlinked] at hx <;> cases hx
      unlink := fun _ => le_rfl
      next := fun y l hyl => by
        show (w.heap.setNext pred nLevel (.of x)).next y l = _
        rw [Heap.setNext_next, if_neg hyl]
      link := by
        refine .inr ⟨.inl hbits, fun u _ hbuilt => ?_, .inl hpred⟩
        have hzero := (hinv.lives.of_built hbuilt).2.2.1
        omega
      op := rfl
      status := fun _ _ => .inl ⟨rfl, rfl⟩ }

end Linkable

lemma Inv.link (hinv : Inv w) {nHeight : Nat} {v : K} (h : Linkable w t x nLevel nHeight v)
    {pred : NodePtr} {succ : Option NodePtr} (haround : Around w pred succ nLevel v)
    (hpred : w.heap.next pred nLevel = ⟨succ, false⟩)
    (hnext : (w.heap.next x nLevel).ptr = succ) (hlevel : 0 < nLevel) :
    Inv (w.link t pred x nLevel nHeight) where
  lives := h.lives hinv pred
  shape := h.shape hinv haround hpred hnext
  stands := by
    have hstands := (hinv.stands.setNext pred nLevel (.of x) (.inl hlevel)).setTop x (nLevel + 1)
      ⟨fun _ => h.top.symm ▸ hlevel, fun _ => Nat.succ_pos _⟩
    exact hstands.frame _ _ _ _ _ _ _

section Decidable

variable [DecidableEq T]

lemma Inv.enter (hinv : Inv w) {nHeight : Nat} {v : K} (h : Linkable w t x 0 nHeight v)
    {pred : NodePtr} {succ : Option NodePtr} (haround : Around w pred succ 0 v)
    (hpred : w.heap.next pred 0 = ⟨succ, false⟩) (hnext : w.heap.next x 0 = ⟨succ, false⟩)
    (herasing : w.erasing t = none) : Inv (w.enter t pred x nHeight v) := by
  have hpredx : pred ≠ x := by
    rintro rfl
    have hlt := haround.pred_lt
    rw [h.rank] at hlt
    exact absurd hlt (lt_irrefl _)
  have hbits : ((w.heap.setNext pred 0 (.of x)).next x 0).bits = false := by
    rw [Heap.setNext_next_of_ne _ _ _ _ hpredx.symm, hnext]
  have hstands := hinv.stands.setNext pred 0 (.of x)
    (.inr (.inr (by rw [hpred]; rfl)))
  exact
    { lives := (h.lives hinv pred).frame _ _ _ _ _ _
      shape := (h.shape hinv haround hpred (by rw [hnext])).frame _ _ _ _ _ _ _ _ _
      stands := ((hstands.enter (Nat.succ_pos 0) h.top h.rank hbits).setStatus herasing _).frame
        _ _ _ _ _ _ _ }

lemma Linkable.change_enter {nHeight : Nat} {v : K} (h : Linkable w t x 0 nHeight v) (hinv : Inv w)
    {pred : NodePtr} (hpred : 0 < w.ever pred) (hbits : (w.heap.next pred 0).bits = false) :
    Change t (· ≠ t) x pred 0 w (w.enter t pred x nHeight v) :=
  { h.change hinv hpred hbits with
    others := fun y hy => ⟨((h.change hinv hpred hbits).others y hy).phase,
      ((h.change hinv hpred hbits).others y hy).debt, ((h.change hinv hpred hbits).others y hy).top,
      ((h.change hinv hpred hbits).others y hy).ever, rfl, rfl⟩
    status := fun _ hu => .inl ⟨Function.update_of_ne hu _ _, rfl⟩ }

end Decidable

/-- `t` stops linking its node, which counts the levels that it is not linked at. -/
lemma Inv.stop (h : Inv w) (hx : w.phase x = .linking t) : Inv (w.stop x) := by
  obtain ⟨hdebt, hpos, hever, v, height, hnode, hlt, hle, hunlink⟩ := h.lives.of_linking hx
  have hne : x ≠ head := by
    rintro rfl
    rw [h.lives.head_phase] at hx
    cases hx
  exact
    { lives := by
        refine h.lives.update (x := x) (fun y hy => ?_) ?_ hne h.lives.retired h.lives.nodup
          fun y hy => ?_
        · exact ⟨Function.update_of_ne hy _ _, rfl, rfl, rfl, rfl, Function.update_of_ne hy _ _⟩
        · unfold World.LifeOf World.stop
          simp only [Function.update_self, hdebt, hever, hnode]
          exact .linked .clear (some v) height (w.top x) (w.top x) hpos le_rfl hlt.le hle hlt.le hpos
            fun _ => rfl
        · have hyx : y ≠ x := by
            rintro rfl
            rw [h.lives.fresh y hy] at hx
            cases hx
          exact (Function.update_of_ne hyx _ _).trans (h.lives.fresh y hy)
      shape := h.shape.frame _ _ _ _ _ _ _ _ _
      stands := h.stands.frame _ _ _ _ _ _ _ }

lemma change_stop (h : Inv w) (hx : w.phase x = .linking t) : Change t (· ≠ t) x head 0 w (w.stop x) := by
  obtain ⟨hdebt, _, _, v, height, _, hlt, _, hunlink⟩ := h.lives.of_linking hx
  exact
    { others := fun y hy => ⟨Function.update_of_ne hy _ _, rfl, rfl, rfl, rfl,
        Function.update_of_ne hy _ _⟩
      node := fun _ => rfl
      ever := le_rfl
      phase := fun u hu => by
        have hphase : (w.stop x).phase x = .linked := Function.update_self ..
        rw [hx, hphase]
        exact ⟨hu.symm, id⟩
      debt := fun u _ => by
        have hdebt' : (w.stop x).debt x = .clear := hdebt
        rw [hdebt, hdebt']
        exact ⟨id, id⟩
      linked := fun hlinked => by
        rw [hx] at hlinked
        cases hlinked
      unlink := fun _ => by
        have hunlink' : (w.stop x).heap.unlink x = w.top x := Function.update_self ..
        omega
      next := fun _ _ _ => rfl
      link := .inl rfl
      op := rfl
      status := fun _ _ => .inl ⟨rfl, rfl⟩ }

/-! ## Unlinking -/

/-- What a node needs to be unlinked by a thread that has seen `m_nUnlink` at `nLevel + 1`. -/
structure Cuttable (w : World T K) (pred x : NodePtr) (nLevel : Nat) : Prop where
  reached : nLevel < w.ever pred
  next : w.heap.next pred nLevel = .of x
  marked : (w.heap.next x nLevel).bits = true
  unlink : w.heap.unlink x ≤ nLevel + 1

namespace Cuttable

variable {pred : NodePtr}

/-- The node is linked up to that level exactly, and all levels above have been counted. -/
lemma facts (h : Cuttable w pred x nLevel) (hinv : Inv w) : w.phase x = .linked ∧
    w.debt x = .clear ∧ w.top x = nLevel + 1 ∧ w.heap.unlink x = nLevel + 1 := by
  obtain ⟨hmem, _⟩ := hinv.next_member h.reached h.next
  have htop : nLevel < w.top x := hmem
  have hunlink := h.unlink
  rcases hinv.lives.phase_of_ever (hinv.lives.ever_pos (Nat.zero_lt_of_lt htop)) with hx | ⟨t, hx⟩
  · obtain ⟨_, hcount, hfits, _⟩ := hinv.lives.of_linked hx
    cases hdebt : w.debt x with
    | clear =>
      simp only [hdebt, Debt.owed, Nat.add_zero] at hcount
      exact ⟨hx, rfl, by omega, by omega⟩
    | unlinking t =>
      simp only [hdebt, Debt.owed] at hcount
      omega
    | unlinked t | retired =>
      simp only [hdebt, Debt.Fits] at hfits
      omega
  · obtain ⟨_, _, _, v, height, _, hlt, _, hheight⟩ := hinv.lives.of_linking hx
    omega

lemma lives (h : Cuttable w pred x nLevel) (hinv : Inv w) (t : T) :
    Lives (w.cut t pred x nLevel) := by
  obtain ⟨hphase, hdebt, htop, hunlink⟩ := h.facts hinv
  obtain ⟨hpos, _, _, n, hnode, hever, hle, hcount, hvalue⟩ := hinv.lives.of_linked hphase
  have htopever := hinv.lives.top_le x
  refine hinv.lives.update (x := x) (fun y hy => ?_) ?_ (hinv.ne_head_of_bits h.marked)
    (fun y => ?_) hinv.lives.nodup hinv.lives.fresh
  · exact ⟨rfl, Function.update_of_ne hy _ _, Function.update_of_ne hy _ _, rfl, rfl, rfl⟩
  · unfold World.LifeOf World.cut
    simp only [Function.update_self, Heap.setNext_node, Heap.setNext_unlink, hphase, hnode, hunlink]
    exact .linked (.unlinking t) n.value n.height nLevel (w.ever x) hpos (by omega) hever hle
      (by simp only [Debt.owed]; omega) trivial hvalue
  · show y ∈ w.heap.retired ↔ Function.update w.debt x (.unlinking t) y = .retired
    by_cases hy : y = x
    · subst hy
      rw [hinv.lives.retired y, Function.update_self, hdebt]
      exact ⟨nofun, nofun⟩
    · rw [Function.update_of_ne hy]
      exact hinv.lives.retired y

lemma shape (h : Cuttable w pred x nLevel) (hinv : Inv w) (t : T) :
    Shape (w.cut t pred x nLevel) := by
  obtain ⟨_, _, htop, _⟩ := h.facts hinv
  have hbits : (w.heap.next pred nLevel).bits = false := by
    rw [h.next]
    rfl
  have hptr : (w.heap.next pred nLevel).ptr = some x := by
    rw [h.next]
    rfl
  have hshape := hinv.shape.cut (hinv.member h.reached hbits) hptr htop h.marked
  exact hshape.frame _ _ _ _ _ _ _ _ _

lemma change (h : Cuttable w pred x nLevel) (hinv : Inv w) (t : T) :
    Change t (fun _ => True) x pred nLevel w (w.cut t pred x nLevel) := by
  obtain ⟨hphase, hdebt, htop, _⟩ := h.facts hinv
  exact
    { others := fun y hy => ⟨rfl, Function.update_of_ne hy _ _, Function.update_of_ne hy _ _, rfl,
        rfl, rfl⟩
      node := fun _ => rfl
      ever := le_rfl
      phase := fun u _ => by
        have hphase' : (w.cut t pred x nLevel).phase x = .linked := hphase
        rw [hphase, hphase']
        exact ⟨id, id⟩
      debt := fun u hu => by
        have hdebt' : (w.cut t pred x nLevel).debt x = .unlinking t := Function.update_self ..
        rw [hdebt, hdebt']
        exact ⟨id, hu.symm⟩
      linked := fun hlinked => by
        have htop' : (w.cut t pred x nLevel).top x = nLevel := Function.update_self ..
        exact ⟨hlinked, by omega, rfl⟩
      unlink := fun _ => le_rfl
      next := fun y l hyl => by
        show (w.heap.setNext pred nLevel ⟨(w.heap.next x nLevel).ptr, false⟩).next y l = _
        rw [Heap.setNext_next, if_neg hyl]
      link := by
        refine .inr ⟨.inl (by rw [h.next]; rfl), fun u _ hbuilt => ?_, .inl h.reached⟩
        have hreached := h.reached
        have hzero := (hinv.lives.of_built hbuilt).2.2.1
        omega
      op := rfl
      status := fun _ _ => .inl ⟨rfl, rfl⟩ }

end Cuttable

lemma Inv.cut (hinv : Inv w) {pred : NodePtr} (h : Cuttable w pred x nLevel) (hlevel : 0 < nLevel)
    (t : T) : Inv (w.cut t pred x nLevel) where
  lives := h.lives hinv t
  shape := h.shape hinv t
  stands := by
    obtain ⟨_, _, htop, _⟩ := h.facts hinv
    have hstands := (hinv.stands.setNext pred nLevel ⟨(w.heap.next x nLevel).ptr, false⟩
      (.inl hlevel)).setTop x nLevel
        ⟨fun _ => htop.symm ▸ Nat.succ_pos _, fun _ => hlevel⟩
    exact hstands.frame _ _ _ _ _ _ _

section Decidable

variable [DecidableEq T]

lemma Inv.drop (hinv : Inv w) {pred : NodePtr} (h : Cuttable w pred x 0) (t : T) {e : T} {v : K}
    (he : w.erasing e = some x) (hrank : w.heap.rank x = v) : Inv (w.drop t pred x e v) := by
  obtain ⟨_, _, htop, _⟩ := h.facts hinv
  have hx : 0 < w.top x := by omega
  have hinj : ∀ y, 0 < w.top y → w.heap.rank y = w.heap.rank x → y = x :=
    fun y hy heq => (hinv.shape.sorted 0).inj y x hy hx heq
  have hstands := hinv.stands.setNext pred 0 ⟨(w.heap.next x 0).ptr, false⟩
    (.inr (.inr (by rw [h.next]; rfl)))
  exact
    { lives := (h.lives hinv t).frame _ _ _ _ _ _
      shape := (h.shape hinv t).frame _ _ _ _ _ _ _ _ _
      stands := (hstands.leave he hrank hinj).frame _ _ _ _ _ _ _ }

lemma Cuttable.change_drop {pred : NodePtr} (h : Cuttable w pred x 0) (hinv : Inv w) (t : T) {e : T}
    {v : K} (he : w.erasing e = some x) : Change t (fun _ => True) x pred 0 w (w.drop t pred x e v) :=
  { h.change hinv t with
    others := fun y hy => ⟨rfl, ((h.change hinv t).others y hy).debt,
      ((h.change hinv t).others y hy).top, rfl, rfl, rfl⟩
    status := fun u _ => by
      by_cases hu : u = e
      · subst hu
        exact .inr ⟨x, he, Function.update_self .., Function.update_self ..⟩
      · exact .inl ⟨Function.update_of_ne hu _ _, Function.update_of_ne hu _ _⟩ }

lemma Inv.condemn (h : Inv w) {v : K} (hx : 0 < w.ever x) (hne : x ≠ head)
    (hbits : (w.heap.next x 0).bits = false) (htodo : w.status t = .todo)
    (herasing : w.erasing t = none) (hop : w.op t = some (.erase v)) (hrank : w.heap.rank x = v) :
    Inv (w.condemn t x) where
  lives := h.lives.frame _ _ _ _ _ _
  shape := (h.shape.setMark hne 0).frame _ _ _ _ _ _ _ _ _
  stands := h.stands.condemn (h.member hx hbits) hbits htodo herasing hop hrank

lemma change_condemn (h : Inv w) (hx : 0 < w.ever x) (hbits : (w.heap.next x 0).bits = false) :
    Change t (· ≠ t) w.heap.fresh x 0 w (w.condemn t x) := by
  have hmark := change_mark (t := t) (v := (w.heap.next x 0).marked) h hx hbits rfl
  exact
    { others := fun y hy => ⟨rfl, rfl, rfl, rfl, rfl, rfl⟩
      node := hmark.node
      ever := hmark.ever
      phase := fun u _ => hmark.phase u trivial
      debt := hmark.debt
      linked := hmark.linked
      unlink := hmark.unlink
      next := hmark.next
      link := by
        refine .inr ⟨.inl hbits, fun u _ hbuilt => ?_, .inr (.inr ?_)⟩
        · exact absurd (h.lives.of_built hbuilt).2.2.1 hx.ne'
        · show ((w.heap.setNext x 0 (w.heap.next x 0).marked).next x 0).ptr = _
          rw [Heap.setNext_next_self]
          rfl
      op := rfl
      status := fun _ hu => .inl ⟨rfl, Function.update_of_ne hu _ _⟩ }

end Decidable

/-! ## Counting out -/

lemma Inv.pay (h : Inv w) (hx : w.debt x = .unlinking t) : Inv (w.pay t x) := by
  have hphase := h.lives.linked_of_debt (x := x) (by rw [hx]; nofun)
  obtain ⟨hpos, hunlink, _, n, hnode, hever, hle, hcount, hvalue⟩ := h.lives.of_linked hphase
  have htop := h.lives.top_le x
  rw [hx] at hunlink
  have hunlink' : w.heap.unlink x = w.top x + 1 := hunlink
  have hne : x ≠ head := by
    rintro rfl
    have hhead := h.lives.head_top
    rw [h.lives.head_node] at hnode
    cases hnode
    simp only at hcount
    omega
  exact
    { lives := by
        refine h.lives.update (x := x) (fun y hy => ?_) ?_ hne (fun y => ?_) h.lives.nodup
          h.lives.fresh
        · exact ⟨rfl, Function.update_of_ne hy _ _, rfl, rfl, rfl, Function.update_of_ne hy _ _⟩
        · unfold World.LifeOf World.pay
          simp only [Function.update_self, hphase, hnode, hunlink', Nat.add_sub_cancel]
          by_cases hlast : w.top x + 1 = 1
          · rw [if_pos hlast]
            exact .linked (.unlinked t) n.value n.height (w.top x) (w.ever x) hpos htop hever hle
              (by simp only [Debt.owed]; omega) (Nat.succ.inj hlast) hvalue
          · rw [if_neg hlast]
            exact .linked .clear n.value n.height (w.top x) (w.ever x) hpos htop hever hle
              (by simp only [Debt.owed]; omega) (by simp only [Debt.Fits]; omega) hvalue
        · show y ∈ w.heap.retired ↔
            Function.update w.debt x (if w.heap.unlink x = 1 then .unlinked t else .clear) y = .retired
          by_cases hy : y = x
          · subst hy
            rw [h.lives.retired y, Function.update_self, hx]
            split <;> exact ⟨nofun, nofun⟩
          · rw [Function.update_of_ne hy]
            exact h.lives.retired y
      shape := h.shape.frame _ _ _ _ _ _ _ _ _
      stands := h.stands.frame _ _ _ _ _ _ _ }

lemma change_pay (h : Inv w) (hx : w.debt x = .unlinking t) : Change t (fun _ => True) x head 0 w (w.pay t x) where
  others y hy := ⟨rfl, Function.update_of_ne hy _ _, rfl, rfl, rfl, Function.update_of_ne hy _ _⟩
  node _ := rfl
  ever := le_rfl
  phase u _ := by
    have hphase := h.lives.linked_of_debt (x := x) (by rw [hx]; nofun)
    have hphase' : (w.pay t x).phase x = .linked := hphase
    rw [hphase, hphase']
    exact ⟨id, id⟩
  debt u hu := by
    have hdebt' : (w.pay t x).debt x = if w.heap.unlink x = 1 then .unlinked t else .clear :=
      Function.update_self ..
    rw [hx, hdebt']
    refine ⟨hu.symm, ?_⟩
    split
    · exact hu.symm
    · exact id
  linked hlinked := ⟨hlinked, le_rfl, rfl⟩
  unlink _ := by
    have hunlink : (w.pay t x).heap.unlink x = w.heap.unlink x - 1 := Function.update_self ..
    omega
  next _ _ _ := rfl
  link := .inl rfl
  op := rfl
  status _ _ := .inl ⟨rfl, rfl⟩

lemma Inv.retire (h : Inv w) (hx : w.debt x = .unlinked t) : Inv (w.retire x) := by
  have hphase := h.lives.linked_of_debt (x := x) (by rw [hx]; nofun)
  obtain ⟨hpos, hunlink, hfits, n, hnode, hever, hle, hcount, hvalue⟩ := h.lives.of_linked hphase
  rw [hx] at hunlink hfits
  have htop : w.top x = 0 := hfits
  have hne : x ≠ head := by
    rintro rfl
    rw [h.lives.head_top] at htop
    cases htop
  exact
    { lives := by
        refine h.lives.update (x := x) (fun y hy => ?_) ?_ hne (fun y => ?_) ?_ h.lives.fresh
        · exact ⟨rfl, Function.update_of_ne hy _ _, rfl, rfl, rfl, rfl⟩
        · unfold World.LifeOf World.retire
          simp only [Function.update_self, hphase, hnode, hunlink]
          exact .linked .retired n.value n.height (w.top x) (w.ever x) hpos (h.lives.top_le x) hever hle
            (by simp only [Debt.owed]; omega) htop hvalue
        · show y ∈ x :: w.heap.retired ↔ Function.update w.debt x .retired y = .retired
          by_cases hy : y = x
          · subst hy
            simp
          · rw [Function.update_of_ne hy, List.mem_cons, or_iff_right hy]
            exact h.lives.retired y
        · refine List.nodup_cons.mpr ⟨?_, h.lives.nodup⟩
          rw [h.lives.retired x, hx]
          nofun
      shape := h.shape.frame _ _ _ _ _ _ _ _ _
      stands := h.stands.frame _ _ _ _ _ _ _ }

lemma change_retire (h : Inv w) (hx : w.debt x = .unlinked t) :
    Change t (fun _ => True) x head 0 w (w.retire x) where
  others y hy := ⟨rfl, Function.update_of_ne hy _ _, rfl, rfl, rfl, rfl⟩
  node _ := rfl
  ever := le_rfl
  phase u _ := by
    have hphase := h.lives.linked_of_debt (x := x) (by rw [hx]; nofun)
    have hphase' : (w.retire x).phase x = .linked := hphase
    rw [hphase, hphase']
    exact ⟨id, id⟩
  debt u hu := by
    have hdebt' : (w.retire x).debt x = .retired := Function.update_self ..
    rw [hx, hdebt']
    exact ⟨hu.symm, id⟩
  linked hlinked := ⟨hlinked, le_rfl, rfl⟩
  unlink _ := le_rfl
  next _ _ _ := rfl
  link := .inl rfl
  op := rfl
  status _ _ := .inl ⟨rfl, rfl⟩

/-! ## No change of the list -/

lemma Inv.raise (h : Inv w) {nHeight : Nat} (hpos : 0 < nHeight) (hle : nHeight ≤ maxHeight) :
    Inv (w.raise nHeight) where
  lives := h.lives.frame _ _ _ _ _ _
  shape :=
    { head_unmarked := h.shape.head_unmarked
      sorted := h.shape.sorted
      unmarked := h.shape.unmarked
      height_pos := hpos
      height_le := hle }
  stands := h.stands.frame _ _ _ _ _ _ _

lemma change_none {w' : World T K} (h : Inv w) (hsame : ∀ y, SameAt w w' y)
    (hnext : w'.heap.next = w.heap.next) (hop : w'.op = w.op)
    (hstatus : ∀ u, u ≠ t → w'.status u = w.status u) (herasing : w'.erasing = w.erasing) :
    Change t (· ≠ t) w.heap.fresh head 0 w w' := by
  have habsent := h.lives.fresh w.heap.fresh le_rfl
  obtain ⟨hdebt, _, hever, _⟩ := h.lives.of_absent habsent
  have hfresh := hsame w.heap.fresh
  exact
    { others := fun y _ => hsame y
      node := fun _ => hfresh.node
      ever := hfresh.ever.ge
      phase := fun u _ => by
        rw [hfresh.phase, habsent]
        exact ⟨id, id⟩
      debt := fun u _ => by
        rw [hfresh.debt, hdebt]
        exact ⟨id, id⟩
      linked := fun hlinked => ⟨hfresh.phase.trans hlinked, hfresh.top.le, hfresh.ever⟩
      unlink := fun _ => hfresh.unlink.le
      next := fun y l _ => by rw [hnext]
      link := .inl (by rw [hnext])
      op := hop
      status := fun u hu => .inl ⟨hstatus u hu, by rw [herasing]⟩ }

lemma Inv.settle [DecidableEq T] (h : Inv w) (herasing : w.erasing t = none) (q : Progress) :
    Inv (w.settle t q) where
  lives := h.lives.frame _ _ _ _ _ _
  shape := h.shape.frame _ _ _ _ _ _ _ _ _
  stands := h.stands.setStatus herasing q

end RedPar.SkipList
