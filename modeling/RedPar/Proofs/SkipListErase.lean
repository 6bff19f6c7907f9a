import RedPar.Proofs.SkipListInsert

/-!
# Deletion from the skip list

An `erase` marks the levels of its node from the top. The one that marks level 0 erases the node,
and the value leaves the set when the node is unlinked there, by the erase or by a search that
helps. An erase that finds level 0 marked gives up.
-/

namespace RedPar.SkipList
open Interleaved

variable {T K : Type} {t : T} {w w₁ w' : World T K} {x : NodePtr} {v : K}
  {nHeight nLevel fuel : Nat} {pos : Position} {S : Set NodePtr}

structure Target (x : NodePtr) (v : K) (nHeight : Nat) (pos : Position) (w : World T K) : Prop where
  ever : 0 < w.ever x
  rank : w.heap.rank x = v
  height : ∃ n, w.heap.node x = some n ∧ n.height = nHeight
  le_max : nHeight ≤ maxHeight
  reached : ∀ l < nHeight, l < w.ever (pos.pPrev l)
  rooted : Rooted w

namespace Target

lemma rely (h : Target x v nHeight pos w) (hrely : RelyBut t S w w') :
    Target x v nHeight pos w' where
  ever := hrely.ever_pos h.ever
  rank := (hrely.rank h.ever).trans h.rank
  height := by
    rw [hrely.node x (.inl h.ever)]
    exact h.height
  le_max := h.le_max
  reached l hl := (h.reached l hl).trans_le (hrely.ever (pos.pPrev l))
  rooted := h.rooted.grows hrely.grows

lemma ne_head (h : Target x v nHeight pos w) : x ≠ head := by
  rintro rfl
  have hrank := h.rooted.rank.symm.trans h.rank
  exact WithBot.bot_ne_coe hrank

lemma hasLevel (h : Target x v nHeight pos w) (hlt : nLevel < nHeight) :
    w.heap.hasLevel x nLevel = true := by
  obtain ⟨n, hn, hheight⟩ := h.height
  exact Heap.hasLevel_of hn (hheight ▸ hlt)

end Target

def Marked (x : NodePtr) (levels : Nat → Prop) (w : World T K) : Prop :=
  ∀ l, levels l → (w.heap.next x l).bits = true

lemma Marked.rely {levels : Nat → Prop} (h : Marked x levels w) (hx : 0 < w.ever x)
    (hrely : RelyBut t S w w') : Marked x levels w' := by
  intro l hl
  rw [hrely.marked x l hx (h l hl)]
  exact h l hl

/-- An erase that has marked its node at level 0 takes effect when it is unlinked there. -/
def Erasing (t : T) (x : NodePtr) (w : World T K) : Prop :=
  (w.status t = .todo ∧ w.erasing t = some x) ∨ Done t true w

lemma Erasing.rely (h : Erasing t x w) (hrely : RelyBut t S w w') : Erasing t x w' := by
  rcases h with ⟨htodo, herasing⟩ | hdone
  · rcases hrely.status with ⟨hstatus, heq⟩ | ⟨_, _, hnone, hdone⟩
    · exact .inl ⟨hstatus.trans htodo, heq.trans herasing⟩
    · exact .inr ⟨hdone, hnone⟩
  · exact .inr (hdone.rely hrely)

lemma Lives.unlink_le (h : Lives w) (hx : 0 < w.ever x) :
    ∃ n, w.heap.node x = some n ∧ w.heap.unlink x ≤ n.height ∧ 0 < n.height := by
  rcases h.phase_of_ever hx with hphase | ⟨u, hphase⟩
  · obtain ⟨_, _, _, n, hn, hever, _, hunlink, _⟩ := h.of_linked hphase
    exact ⟨n, hn, hunlink, hx.trans_le hever⟩
  · obtain ⟨_, _, _, v, height, hn, hlt, _, hunlink⟩ := h.of_linking hphase
    exact ⟨_, hn, hunlink.le, Nat.zero_lt_of_lt hlt⟩

variable [LinearOrder K]

lemma Erasing.done (h : Erasing t x w) (hinv : Inv w) (htop : w.top x = 0) : Done t true w := by
  rcases h with ⟨_, herasing⟩ | hdone
  · exact absurd htop (hinv.stands.erasing t x herasing).1.ne'
  · exact hdone

/-- A mark is something that `t` itself can rely on. -/
lemma rely_mark (hinv : Inv w) {p : MarkedPtr} (hever : 0 < w.ever x)
    (hbits : (w.heap.next x nLevel).bits = false) (hp : p.ptr = (w.heap.next x nLevel).ptr) :
    Rely t w (w.put x nLevel p) := by
  have hchange : Change t (fun _ => True) w.heap.fresh x nLevel w (w.put x nLevel p) :=
    change_mark hinv hever hbits hp
  have hclear := (hinv.lives.of_absent (hinv.lives.fresh _ le_rfl)).1
  have hnot : ¬(w.debt w.heap.fresh).Of t := by
    rw [hclear]
    exact id
  exact (hchange.relyBut trivial).paid hnot hnot

variable [DecidableEq T]

lemma secures_markLevel {p : MarkedPtr} (h : Target x v nHeight pos w) (hpos : 0 < nLevel)
    (hlt : nLevel < nHeight) (hp : p.bits = false) :
    Secures t (fun r w' => r = some () → Rely t w w' ∧ (w'.heap.next x nLevel).bits = true)
      (markLevel x nLevel fuel p) w := by
  induction fuel generalizing p w with
  | zero => exact nofun
  | succ fuel ih =>
    refine secures_compareExchange (fun w₁ _ h₁ => (h.rely h₁).hasLevel hlt)
      (fun w₁ hinv₁ h₁ heq => ?_) fun w₁ _ h₁ _ => ?_
    · have hat₁ := h.rely h₁
      have hbits : (w₁.heap.next x nLevel).bits = false := heq ▸ hp
      have hmark : Rely t w₁ (w₁.put x nLevel p.marked) :=
        rely_mark hinv₁ hat₁.ever hbits (by rw [heq]; rfl)
      have hchange : Change t (fun _ => True) w₁.heap.fresh x nLevel w₁
          (w₁.put x nLevel p.marked) := change_mark hinv₁ hat₁.ever hbits (by rw [heq]; rfl)
      refine ⟨w₁.put x nLevel p.marked, rfl, heq ▸ hinv₁.put_mark hat₁.ne_head hpos,
        ⟨fun u hu => hchange.rely trivial hu, rfl, .stay nofun rfl rfl⟩, fun _ => ?_⟩
      exact ⟨h₁.trans hmark, congrArg MarkedPtr.bits (w₁.heap.setNext_next_self x nLevel p.marked)⟩
    · by_cases hbits : (w₁.heap.next x nLevel).bits = true
      · rw [if_pos (by rw [hbits]; rfl)]
        exact fun _ => ⟨h₁, hbits⟩
      · have hunmarked := eq_false_of_ne_true hbits
        rw [if_neg (by rw [hunmarked]; nofun)]
        refine (ih (h.rely h₁) hunmarked).mono fun r w₂ hr hsome => ?_
        obtain ⟨h₂, hmarked⟩ := hr hsome
        exact ⟨h₁.trans h₂, hmarked⟩

lemma secures_markLevels (h : Target x v nHeight pos w) (hlt : nLevel < nHeight) :
    Secures t (fun r w' => r = some () → Rely t w w' ∧ Marked x (fun l => 0 < l ∧ l ≤ nLevel) w')
      (markLevels fuel x nLevel) w := by
  induction nLevel generalizing w with
  | zero =>
    exact fun _ => ⟨.refl t ∅ w, fun l hl => absurd hl.1 (not_lt.mpr hl.2)⟩
  | succ nLevel ih =>
    -- the levels below, once this one is marked
    have hrest : ∀ w₁, Rely t w w₁ → (w₁.heap.next x (nLevel + 1)).bits = true →
        Secures t (fun r w' => r = some () → Rely t w w' ∧
          Marked x (fun l => 0 < l ∧ l ≤ nLevel + 1) w') (markLevels fuel x nLevel) w₁ := by
      intro w₁ h₁ hbits
      have hat₁ := h.rely h₁
      refine (ih hat₁ (by omega)).mono fun r w₂ hr hsome => ?_
      obtain ⟨h₂, hmarked⟩ := hr hsome
      refine ⟨h₁.trans h₂, fun l hl => ?_⟩
      by_cases heq : l = nLevel + 1
      · subst heq
        rw [h₂.marked x _ hat₁.ever hbits]
        exact hbits
      · exact hmarked l ⟨hl.1, by omega⟩
    refine secures_loadTower (fun w₁ _ h₁ => (h.rely h₁).hasLevel hlt) fun w₁ _ h₁ =>
      ⟨w₁, .not, ?_⟩
    by_cases hbits : (w₁.heap.next x (nLevel + 1)).bits = true
    · rw [if_pos hbits]
      exact hrest w₁ h₁ hbits
    · rw [if_neg hbits]
      refine ((secures_markLevel (h.rely h₁) (Nat.succ_pos nLevel) hlt
        (eq_false_of_ne_true hbits)).mono fun r w₂ hr => ?_).bind
      rcases r with _ | _
      · exact nofun
      · obtain ⟨h₂, hmarked⟩ := hr rfl
        exact hrest w₂ (h₁.trans h₂) hmarked

/-- What an erase that has taken effect returns. -/
def Removed (t : T) (r : Option Bool) (w : World T K) : Prop :=
  ∀ b, r = some b → b = true ∧ Free t ∅ w ∧ Done t true w

/-- What an erase knows when it has unlinked its node down to `nLevels`. -/
structure Unlinking (t : T) (x : NodePtr) (v : K) (nHeight : Nat) (pos : Position) (nLevels : Nat)
    (w : World T K) : Prop where
  target : Target x v nHeight pos w
  marked : Marked x (· < nHeight) w
  erasing : Erasing t x w
  free : Free t {x} w
  phase : ¬(w.phase x).Of t
  debt : if nLevels = 0 then w.debt x = .unlinked t else ¬(w.debt x).Of t
  unlink : w.heap.unlink x ≤ nLevels
  le : nLevels ≤ nHeight
  pos : 0 < nHeight

omit [DecidableEq T] [LinearOrder K] in
lemma Unlinking.rely {nLevels : Nat} (h : Unlinking t x v nHeight pos nLevels w)
    (hrely : Rely t w w') : Unlinking t x v nHeight pos nLevels w' where
  target := h.target.rely hrely
  marked := h.marked.rely h.target.ever hrely
  erasing := h.erasing.rely hrely
  free := h.free.rely hrely.but
  phase hof := by
    rw [(hrely.mine x (.inr hof)).1] at hof
    exact h.phase hof
  debt := by
    have hdebt := h.debt
    by_cases hlast : nLevels = 0
    · rw [if_pos hlast] at hdebt ⊢
      exact (hrely.debt_of (Set.notMem_empty x) (hdebt ▸ rfl)).trans hdebt
    · rw [if_neg hlast] at hdebt ⊢
      intro hof
      rw [(hrely.debt x (Set.notMem_empty x) (.inr hof)).1] at hof
      exact hdebt hof
  unlink := (hrely.unlink x h.target.ever).trans h.unlink
  le := h.le
  pos := h.pos

omit [DecidableEq T] in
lemma Inv.top_eq_zero (h : Inv w) {v : K} (hx : w.heap.rank x = v) (hmem : v ∉ w.set) :
    w.top x = 0 := by
  by_contra htop
  have hlinked : x ∈ w.members 0 := Nat.pos_of_ne_zero htop
  exact hmem (h.mem_set hlinked hx)

/-- A search after which an erase knows that its node has left the list. -/
def Hooks.leave (t : T) (w : World T K) (x : NodePtr) {val : K} (hx : w.heap.rank x = val)
    (hever : 0 < w.ever x) (herasing : Erasing t x w) : Hooks t w val false where
  found := Rely t w
  missed w' := Rely t w w' ∧ Done t true w'
  found_stable := Rely.stable t w
  missed_stable _ _ h hmissed := ⟨hmissed.1.trans h, hmissed.2.rely h⟩
  settle_found hstop := absurd hstop Bool.false_ne_true
  settle_missed w₁ hinv₁ h₁ hmem :=
    ⟨w₁, .not, h₁, (herasing.rely h₁).done hinv₁ (hinv₁.top_eq_zero ((h₁.rank hever).trans hx) hmem)⟩

/-- The slow erase: a search unlinks the node, or finds that others have. -/
lemma secures_slowErase {nLevels : Nat} (h : Unlinking t x v nHeight pos (nLevels + 1) w) :
    Secures t (Removed t) (do
      match ← findPosition fuel v pos false with
      | none => return none
      | some (true, pos) =>
        assert (pos.pCur ≠ some x)
        return some true
      | some (false, _) => return some true) w := by
  have htarget := h.target
  have hfree : Free t ∅ w := h.free.finish h.phase (by simpa using h.debt)
  refine ((secures_findPosition htarget.rooted
    (.leave t w x htarget.rank htarget.ever h.erasing) fuel pos).mono fun r w₁ hr => ?_).bind
  rcases r with _ | ⟨_ | _, pos₁⟩
  · exact nofun
  · obtain ⟨⟨h₁, hdone⟩, _⟩ := hr
    rintro b ⟨⟩
    exact ⟨rfl, hfree.rely h₁, hdone⟩
  · obtain ⟨c, hcur, _, _, _, hpassed⟩ := hr
    obtain ⟨hmet, _⟩ := hpassed rfl
    -- a node with the key that is not marked is another one, so this one has left the list
    have hne : c ≠ x := by
      rintro rfl
      obtain ⟨w₀, h₀, _, hunmarked⟩ := hmet.unmarked
      rw [(h.marked.rely htarget.ever h₀) 0 h.pos] at hunmarked
      cases hunmarked
    have hdone : Done t true w₁ := by
      obtain ⟨w₀, hinv₀, h₀, h₀₁, hmem⟩ := hmet.seen
      refine ((h.erasing.rely h₀).done hinv₀ ?_).rely h₀₁
      by_contra htop
      have hmem' : x ∈ w₀.members 0 := Nat.pos_of_ne_zero htop
      have hrank := (h₀₁.rank (hinv₀.lives.ever_pos hmem)).symm.trans hmet.rank
      exact hne ((hinv₀.shape.sorted 0).inj c x hmem hmem'
        (hrank.trans (htarget.rely h₀).rank.symm))
    refine secures_assert ?_ fun w₂ _ h₂ => ?_
    · rw [hcur]
      exact decide_eq_true fun heq => hne (Option.some.inj heq)
    · rintro b ⟨⟩
      exact ⟨rfl, (hfree.rely hmet.rely).rely h₂, hdone.rely h₂⟩

lemma secures_unlinkLevels {nLevels : Nat} (h : Unlinking t x v nHeight pos nLevels w) :
    Secures t (Removed t) (unlinkLevels fuel v x pos nLevels) w := by
  induction nLevels generalizing w with
  | zero =>
    refine secures_retire h.debt fun w₁ hinv₁ h₁ => ?_
    have hat₁ := h.rely h₁
    have hdebt : w₁.debt x = .unlinked t := hat₁.debt
    have hphase := hinv₁.lives.linked_of_debt (x := x) (by rw [hdebt]; nofun)
    obtain ⟨_, _, hfits, _⟩ := hinv₁.lives.of_linked hphase
    rw [hdebt] at hfits
    have hdone := hat₁.erasing.done hinv₁ hfits
    have hretired : RelyBut t {x} w₁ (w₁.retire x) :=
      (change_retire hinv₁ hdebt).relyBut trivial
    rintro b ⟨⟩
    refine ⟨rfl, (hat₁.free.rely hretired).finish hat₁.phase ?_, hdone.rely hretired⟩
    rw [debt_retire]
    exact id
  | succ nLevel ih =>
    have hlt : nLevel < nHeight := h.le
    refine secures_loadTower (fun w₁ _ h₁ => (h.rely h₁).target.hasLevel hlt) fun w₁ _ h₁ =>
      ⟨w₁, .not, ?_⟩
    have hat₁ := h.rely h₁
    have hmark₁ := hat₁.marked nLevel hlt
    refine secures_compareExchange
      (fun w₂ hinv₂ h₂ => hinv₂.lives.hasLevel ((hat₁.rely h₂).target.reached nLevel hlt))
      (fun w₂ hinv₂ h₂ heq => ?_) fun w₂ _ h₂ _ => secures_slowErase (hat₁.rely h₂)
    have hat₂ := hat₁.rely h₂
    have hmark := h₂.marked x nLevel hat₁.target.ever hmark₁
    have hcut : Cuttable w₂ (pos.pPrev nLevel) x nLevel :=
      ⟨hat₂.target.reached nLevel hlt, heq, hmark ▸ hmark₁, hat₂.unlink⟩
    obtain ⟨w₃, hheap, hinv₃, hmove, h₃, hdebt, _⟩ := hcut.unlinks (t := t)
      (c := .compareExchange (pos.pPrev nLevel) nLevel (.of x) ⟨(w₁.heap.next x nLevel).ptr, false⟩)
      hinv₂ nofun
    rw [hmark] at hheap
    refine ⟨w₃, hheap, hinv₃, hmove, secures_pay hdebt fun w₄ hinv₄ h₄ => ih ?_⟩
    have hdebt₄ : w₄.debt x = .unlinking t :=
      (h₄.debt_of (Set.notMem_empty x) (hdebt ▸ rfl)).trans hdebt
    have hpaid : RelyBut t {x} w₂ (w₄.pay t x) :=
      (h₃.trans h₄.but).trans ((change_pay hinv₄ hdebt₄).relyBut trivial)
    have hcount : w₄.heap.unlink x = nLevel + 1 := by
      have hsame : w₃.heap.unlink x = w₂.heap.unlink x := by rw [hheap]; rfl
      rw [(h₄.debt x (Set.notMem_empty x) (.inl (hdebt ▸ rfl))).2.2, hsame]
      exact (hcut.facts hinv₂).2.2.2
    exact
      { target := hat₂.target.rely hpaid
        marked := hat₂.marked.rely hat₂.target.ever hpaid
        erasing := hat₂.erasing.rely hpaid
        free := hat₂.free.rely hpaid
        phase := fun hof => by
          rw [(hpaid.mine x (.inr hof)).1] at hof
          exact hat₂.phase hof
        debt := by
          rw [debt_pay, hcount]
          by_cases hzero : nLevel = 0
          · rw [if_pos hzero, if_pos (by omega)]
          · rw [if_neg hzero, if_neg (by omega)]
            exact id
        unlink := by
          have hunlink : (w₄.pay t x).heap.unlink x = w₄.heap.unlink x - 1 :=
            Function.update_self ..
          omega
        le := hlt.le
        pos := h.pos }

omit [DecidableEq T] [LinearOrder K] in
lemma Removed.ended {r : Option Bool} (h : Removed t r w) : Ended t r w := by
  cases r with
  | none => trivial
  | some b =>
    obtain ⟨rfl, hfree, hdone⟩ := h b rfl
    exact ⟨hfree, hdone.erasing, .inl hdone.status⟩

lemma secures_markBottom {p : MarkedPtr} (h : Target x v nHeight pos w)
    (hmarked : Marked x (fun l => 0 < l ∧ l < nHeight) w) (hfree : Free t ∅ w)
    (hpending : Pending t (.erase v) w) (hp : p.bits = false) (hpos : 0 < nHeight) :
    Secures t (Ended t) (markBottom v x nHeight pos fuel p) w := by
  induction fuel generalizing p w with
  | zero => trivial
  | succ fuel ih =>
    refine secures_compareExchange (fun w₁ _ h₁ => (h.rely h₁).hasLevel hpos)
      (fun w₁ hinv₁ h₁ heq => ?_) fun w₁ _ h₁ _ => ?_
    · have hat₁ := h.rely h₁
      have hfree₁ := hfree.rely h₁
      have hpending₁ := hpending.rely h₁
      have hbits : (w₁.heap.next x 0).bits = false := heq ▸ hp
      obtain ⟨n, hn, hunlink, _⟩ := hinv₁.lives.unlink_le hat₁.ever
      obtain ⟨n', hn', hheight⟩ := hat₁.height
      obtain rfl : n = n' := Option.some.inj (hn.symm.trans hn')
      have hlevels : Marked x (· < nHeight) (w₁.condemn t x) := by
        intro l hl
        by_cases hzero : l = 0
        · subst hzero
          exact congrArg MarkedPtr.bits (w₁.heap.setNext_next_self x 0 _)
        · have hnext := w₁.heap.setNext_next_of_level x 0 (w₁.heap.next x 0).marked hzero x
          refine (congrArg MarkedPtr.bits hnext).trans ?_
          exact (hmarked.rely h.ever h₁) l ⟨Nat.pos_of_ne_zero hzero, hl⟩
      have hunlinking : Unlinking t x v nHeight pos nHeight (w₁.condemn t x) :=
        { target := ⟨hat₁.ever, hat₁.rank, hat₁.height, hat₁.le_max, hat₁.reached,
            ⟨hat₁.rooted.ever, hat₁.rooted.rank⟩⟩
          marked := hlevels
          erasing := .inl ⟨hpending₁.todo, Function.update_self ..⟩
          free := ⟨fun y _ => hfree₁.phase y (Set.notMem_empty y),
            fun y _ => hfree₁.debt y (Set.notMem_empty y)⟩
          phase := hfree₁.phase x (Set.notMem_empty x)
          debt := by
            rw [if_neg hpos.ne']
            exact hfree₁.debt x (Set.notMem_empty x)
          unlink := hunlink.trans hheight.le
          le := le_rfl
          pos := hpos }
      refine ⟨w₁.condemn t x, by rw [← heq]; rfl, hinv₁.condemn hat₁.ever hat₁.ne_head hbits
        hpending₁.todo hpending₁.erasing hpending₁.op hat₁.rank,
        .of_change nofun (change_condemn hinv₁ hat₁.ever hbits) rfl rfl, ?_⟩
      exact (secures_unlinkLevels hunlinking).mono fun _ _ hr => hr.ended
    · rw [if_neg Bool.false_ne_true]
      have hpending₁ := hpending.rely h₁
      by_cases hbits : (w₁.heap.next x 0).bits = true
      · rw [if_pos hbits]
        refine secures_onEraseContention hpending₁.op hpending₁.todo hpending₁.erasing
          fun w₂ _ h₂ => ?_
        have hfree₂ := (hfree.rely h₁).rely h₂
        exact ⟨⟨hfree₂.phase, hfree₂.debt⟩, (hpending₁.rely h₂).erasing,
          .inr ⟨Function.update_self .., rfl⟩⟩
      · rw [if_neg hbits]
        exact ih (h.rely h₁) (hmarked.rely h.ever h₁) (hfree.rely h₁) hpending₁
          (eq_false_of_ne_true hbits)

lemma secures_tryRemoveAt (hever : 0 < w.ever x) (hrank : w.heap.rank x = v)
    (hreached : ∀ l < maxHeight, l < w.ever (pos.pPrev l)) (hw : Rooted w) (hfree : Free t ∅ w)
    (hpending : Pending t (.erase v) w) :
    Secures t (Ended t) (tryRemoveAt fuel x pos) w := by
  refine secures_height (.inl hever) fun w₁ n hinv₁ h₁ hn => ?_
  obtain ⟨n', hn', hle, hmax, _⟩ := hinv₁.lives.tower (h₁.ever_pos hever)
  obtain rfl : n = n' := Option.some.inj (hn.symm.trans hn')
  have hpos : 0 < n.height := (h₁.ever_pos hever).trans_le hle
  have hat₁ : Target x v n.height pos w₁ :=
    { ever := h₁.ever_pos hever
      rank := (h₁.rank hever).trans hrank
      height := ⟨n, hn, rfl⟩
      le_max := hmax
      reached := fun l hl => (hreached l (hl.trans_le hmax)).trans_le (h₁.ever (pos.pPrev l))
      rooted := hw.grows h₁.grows }
  refine ((secures_markLevels hat₁ (Nat.sub_lt hpos Nat.one_pos)).mono fun r w₂ hr => ?_).bind
  rcases r with _ | _
  · trivial
  · obtain ⟨h₂, hmarked⟩ := hr rfl
    have hat₂ := hat₁.rely h₂
    have hmarked₂ : Marked x (fun l => 0 < l ∧ l < n.height) w₂ :=
      fun l hl => hmarked l ⟨hl.1, Nat.le_sub_one_of_lt hl.2⟩
    refine secures_loadTower (fun w₃ _ h₃ => (hat₂.rely h₃).hasLevel hpos) fun w₃ _ h₃ =>
      ⟨w₃, .not, ?_⟩
    have hat₃ := hat₂.rely h₃
    refine secures_value hat₃.ever hat₃.ne_head fun w₄ v' _ h₄ hv => ?_
    have hat₄ := hat₃.rely h₄
    obtain rfl : v = v' := WithBot.coe_injective (hat₄.rank.symm.trans hv)
    have h₀₄ := ((h₁.trans h₂).trans h₃).trans h₄
    exact secures_markBottom hat₄ (hmarked₂.rely hat₂.ever (h₃.trans h₄)) (hfree.rely h₀₄)
      (hpending.rely h₀₄) rfl hpos

theorem secures_erase (hw : Rooted w) (hfree : Free t ∅ w) (hpending : Pending t (.erase v) w) :
    Secures t (Ended t) (erase fuel v) w := by
  refine ((secures_findPosition hw (.erase hpending) fuel .unset).mono fun r w₁ hr => ?_).bind
  rcases r with _ | ⟨_ | _, pos⟩
  · trivial
  · have hdone := hr.1.done hpending.erasing
    exact ⟨hr.1.free hfree, hdone.erasing, .inl hdone.status⟩
  · obtain ⟨c, hcur, hever, hrank, _, hpassed⟩ := hr
    obtain ⟨hmet, hbetween⟩ := hpassed rfl
    have hw₁ := hw.grows hmet.rely.grows
    have hne : c ≠ head := by
      rintro rfl
      exact WithBot.bot_ne_coe (hw₁.rank.symm.trans hrank)
    dsimp only
    rw [hcur]
    refine secures_value hever hne fun w₂ v' _ h₂ hv => ?_
    obtain rfl : v = v' := WithBot.coe_injective (((h₂.rank hever).trans hrank).symm.trans hv)
    refine secures_assert (decide_eq_true (cmp_self_eq_eq v)) fun w₃ _ h₃ => ?_
    have h₁₃ := h₂.trans h₃
    exact secures_tryRemoveAt (h₁₃.ever_pos hever) ((h₁₃.rank hever).trans hrank)
      (fun l hl => (hbetween l hl).reached.trans_le (h₁₃.ever (pos.pPrev l)))
      (hw₁.grows h₁₃.grows) (hfree.rely (hmet.rely.trans h₁₃))
      (hpending.rely (hmet.rely.trans h₁₃))

end RedPar.SkipList
