import RedPar.Proofs.SkipListSearch

/-!
# Insertion into the skip list

An `insert` prepares a node, links it at level 0, where it takes effect, and then links it level by
level. It stops where the node has been marked meanwhile, and counts the levels that are missing.
-/

namespace RedPar.SkipList
open Interleaved

variable {T K : Type} {t : T} {w w₁ w' : World T K} {x : NodePtr}
  {v : K} {o : Op K} {nHeight nLevel fuel : Nat} {pos : Position}

/-- What holds when an operation of `t` returns; a lost erase returns `false`. -/
def Ended (t : T) : Option Bool → World T K → Prop
  | none, _ => True
  | some r, w => Free t ∅ w ∧ w.erasing t = none ∧
      (w.status t = .done r ∨ w.status t = .lost ∧ r = false)

/-- Links to the same node differ in the mark only. -/
lemma MarkedPtr.bits_of_ne {a b : MarkedPtr} (hne : a ≠ b) (hptr : a.ptr = b.ptr)
    (hb : b.bits = false) : a.bits = true := by
  by_contra ha
  refine hne ?_
  cases a
  cases b
  exact congrArg₂ MarkedPtr.mk hptr ((eq_false_of_ne_true ha).trans hb.symm)

/-- What `t` knows of its node when it has linked it on `nLevel` levels. -/
structure Linking (t : T) (x : NodePtr) (v : K) (nHeight nLevel : Nat) (w : World T K) : Prop where
  phase : w.phase x = if nLevel = nHeight then .linked else .linking t
  node : w.heap.node x = some ⟨some v, nHeight⟩
  top : nLevel < nHeight → w.top x = nLevel
  ever : w.ever x = nLevel
  null : ∀ l, nLevel < l → l < nHeight → (w.heap.next x l).ptr = none
  pos : 0 < nLevel
  le_height : nLevel ≤ nHeight
  le_max : nHeight ≤ maxHeight
  done : Done t true w
  free : Free t {x} w
  debt : ¬(w.debt x).Of t
  rooted : Rooted w

def Inserted (t : T) (r : Option Bool) (w : World T K) : Prop :=
  ∀ b, r = some b → b = true ∧ Free t ∅ w ∧ Done t true w

namespace Linking

lemma linking (h : Linking t x v nHeight nLevel w) (hlt : nLevel < nHeight) :
    w.phase x = .linking t := by
  rw [h.phase, if_neg hlt.ne]

lemma ever_pos (h : Linking t x v nHeight nLevel w) : 0 < w.ever x := h.ever.symm ▸ h.pos

lemma rely (h : Linking t x v nHeight nLevel w) (hrely : Rely t w w') :
    Linking t x v nHeight nLevel w' := by
  have hnode := (hrely.node x (.inl h.ever_pos)).trans h.node
  have hgrows := hrely.grows
  have hdebt : ¬(w'.debt x).Of t := by
    intro hof
    rw [(hrely.debt x (Set.notMem_empty x) (.inr hof)).1] at hof
    exact h.debt hof
  rcases h.le_height.lt_or_eq with hlt | heq
  · have hlinking := h.linking hlt
    obtain ⟨hphase, htop, hever, _⟩ := hrely.mine x (.inl (by rw [hlinking]; rfl))
    refine ⟨hphase.trans h.phase, hnode, fun _ => htop.trans (h.top hlt), hever.trans h.ever,
      fun l hl hlh => ?_, h.pos, h.le_height, h.le_max, h.done.rely hrely, h.free.rely hrely.but,
      hdebt, h.rooted.grows hgrows⟩
    have hle : w.ever x ≤ l := h.ever.trans_le hl.le
    rw [hrely.linking x l hlinking hle]
    exact h.null l hl hlh
  · have hlinked : w.phase x = .linked := by rw [h.phase, if_pos heq]
    obtain ⟨hphase, _, hever⟩ := hrely.linked x hlinked
    exact ⟨by rw [hphase, if_pos heq], hnode, fun hlt => absurd heq hlt.ne, hever.trans h.ever,
      fun l hl hlh => absurd hlh (by omega), h.pos, h.le_height, h.le_max, h.done.rely hrely,
      h.free.rely hrely.but, hdebt, h.rooted.grows hgrows⟩

lemma put (h : Linking t x v nHeight nLevel w) (p : MarkedPtr) :
    Linking t x v nHeight nLevel (w.put x nLevel p) where
  phase := h.phase
  node := h.node
  top := h.top
  ever := h.ever
  null l hl hlh := by
    have hnext : (w.put x nLevel p).heap.next x l = w.heap.next x l :=
      w.heap.setNext_next_of_level x nLevel p hl.ne' x
    rw [hnext]
    exact h.null l hl hlh
  pos := h.pos
  le_height := h.le_height
  le_max := h.le_max
  done := ⟨h.done.status, h.done.erasing⟩
  free := ⟨h.free.phase, h.free.debt⟩
  debt := h.debt
  rooted := ⟨h.rooted.ever, h.rooted.rank⟩

lemma linkable (h : Linking t x v nHeight nLevel w) (hlt : nLevel < nHeight) :
    Linkable w t x nLevel nHeight v := ⟨.inr (h.linking hlt), h.node, h.top hlt, hlt⟩

end Linking

variable [LinearOrder K]

lemma Around.grows {pred : NodePtr} {succ : Option NodePtr} (h : Around w pred succ nLevel v)
    (hgrows : Grows w w') : Around w' pred succ nLevel v where
  reached := h.reached.trans_le (hgrows.ever pred)
  pred_lt := by
    rw [hgrows.rank pred (Nat.zero_lt_of_lt h.reached)]
    exact h.pred_lt
  succ_lt c hc := by
    obtain ⟨hever, hlt⟩ := h.succ_lt c hc
    rw [hgrows.rank c hever]
    exact ⟨hever.trans_le (hgrows.ever c), hlt⟩

/-- A search that stops at the key has a larger node behind it, if it has not stopped. -/
lemma Between.around {pPred : NodePtr} {pSucc : Option NodePtr}
    (h : Between t w v true nLevel pPred pSucc w') : Around w' pPred pSucc nLevel v where
  reached := h.reached
  pred_lt := h.pred_lt
  succ_lt c hc := by
    obtain ⟨hever, hrank⟩ := h.succ c hc
    exact ⟨hever, hrank.resolve_right fun hhit => Bool.false_ne_true hhit.1.symm⟩

/-- A position that is good for the levels from `nLevel` on. -/
def Placed (pos : Position) (v : K) (nLevel nHeight : Nat) (w : World T K) : Prop :=
  ∀ l, nLevel ≤ l → l < nHeight → Around w (pos.pPrev l) (pos.pSucc l) l v

lemma Placed.grows (h : Placed pos v nLevel nHeight w) (hgrows : Grows w w') :
    Placed pos v nLevel nHeight w' := fun l hle hlt => (h l hle hlt).grows hgrows

lemma Linking.link (h : Linking t x v nHeight nLevel w) (hlt : nLevel < nHeight) (hinv : Inv w)
    {pred : NodePtr} (hpred : nLevel < w.ever pred)
    (hbits : (w.heap.next pred nLevel).bits = false) :
    Linking t x v nHeight (nLevel + 1) (w.link t pred x nLevel nHeight) := by
  have hchange := (h.linkable hlt).change hinv hpred hbits
  exact
    { phase := Function.update_self ..
      node := h.node
      top := fun _ => Function.update_self ..
      ever := Function.update_self ..
      null := fun l hl hlh => by
        have hnext : (w.link t pred x nLevel nHeight).heap.next x l = w.heap.next x l :=
          w.heap.setNext_next_of_level pred nLevel (.of x) (by omega) x
        rw [hnext]
        exact h.null l (by omega) hlh
      pos := Nat.succ_pos nLevel
      le_height := hlt
      le_max := h.le_max
      done := ⟨h.done.status, h.done.erasing⟩
      free := h.free.change hchange
      debt := h.debt
      rooted := h.rooted.grows hchange.grows }

/-- A renewed position is good for the levels that the node is not linked at yet. -/
lemma Linking.placed (h : Linking t x v nHeight nLevel w) (hlt : nLevel < nHeight)
    (hbetween : ∀ l < maxHeight, Between t w v false l (pos.pPrev l) (pos.pSucc l) w') :
    Placed pos v nLevel nHeight w' := by
  intro l hle hlh
  have hl := hbetween l (hlh.trans_le h.le_max)
  refine ⟨hl.reached, hl.pred_lt, fun c hc => ?_⟩
  obtain ⟨hever, hrank⟩ := hl.succ c hc
  refine ⟨hever, hrank.resolve_right fun hhit => ?_⟩
  -- a node with the key would be the new one, which is not linked this high
  obtain ⟨w₀, hinv₀, h₀, hmem, hrank₀⟩ := hhit.2.member
  have hat₀ := h.rely h₀
  have htop := hat₀.top hlt
  have hx : x ∈ w₀.members 0 := show 0 < w₀.top x from htop.symm ▸ h.pos
  have heq := (hinv₀.shape.sorted 0).inj c x (World.mem_zero hmem) hx
    (hrank₀.trans (hat₀.linkable hlt).rank.symm)
  subst heq
  have hlt' : l < w₀.top c := hmem
  omega

variable [DecidableEq T]

lemma Finds.idle {val : K} {found : Bool}
    (h : Finds (.idle t w val false) (some (found, pos)) w') : Rely t w w' := by
  cases found with
  | false => exact h.1
  | true =>
    obtain ⟨_, _, _, _, _, hrely⟩ := h
    exact (hrely rfl).1.rely

lemma secures_stopInserting (h : Linking t x v nHeight nLevel w) (hlt : nLevel < nHeight) :
    Secures t (Inserted t) (stopInserting fuel v x nHeight nLevel pos) w := by
  refine secures_stop (h.linking hlt) h.node (h.top hlt) fun w₁ hinv₁ h₁ => ?_
  have hat₁ := h.rely h₁
  have hlinking := hat₁.linking hlt
  have hchange := change_stop hinv₁ hlinking
  have hfree : Free t ∅ (w₁.stop x) := by
    refine (hat₁.free.change hchange).finish ?_ hat₁.debt
    have hphase : (w₁.stop x).phase x = .linked := Function.update_self ..
    rw [hphase]
    exact id
  have hdone : Done t true (w₁.stop x) := ⟨hat₁.done.status, hat₁.done.erasing⟩
  refine secures_assert rfl fun w₂ _ h₂ => ?_
  have hrooted := (hat₁.rooted.grows hchange.grows).grows h₂.grows
  refine ((secures_findPosition hrooted (.idle t w₂ v false) fuel pos).mono fun r w₃ hr => ?_).bind
  rcases r with _ | ⟨found, pos'⟩
  · exact nofun
  · rintro b ⟨⟩
    have h₃ := hr.idle
    exact ⟨rfl, (hfree.rely h₂).rely h₃, (hdone.rely h₂).rely h₃⟩

theorem secures_linkLevels {p : MarkedPtr} (h : Linking t x v nHeight nLevel w)
    (hp : p.bits = false) (hlink : nLevel < nHeight → (w.heap.next x nLevel).ptr = p.ptr)
    (hpos : Placed pos v nLevel nHeight w) :
    Secures t (Inserted t) (linkLevels v x nHeight fuel nLevel p pos) w := by
  induction fuel generalizing nLevel p pos w with
  | zero => exact nofun
  | succ fuel ih =>
    unfold linkLevels
    by_cases hlt : nLevel < nHeight
    · rw [if_pos hlt]
      have hlevel : ∀ w₁, Rely t w w₁ → w₁.heap.hasLevel x nLevel = true :=
        fun w₁ h₁ => Heap.hasLevel_of (h.rely h₁).node hlt
      have hptr : ∀ w₁, Rely t w w₁ → (w₁.heap.next x nLevel).ptr = p.ptr := by
        intro w₁ h₁
        rw [h₁.linking x nLevel (h.linking hlt) h.ever.le]
        exact hlink hlt
      refine secures_compareExchange (fun w₁ _ h₁ => hlevel w₁ h₁) (fun w₁ hinv₁ h₁ heq => ?_)
        fun w₁ _ h₁ hne => ?_
      · have hat₁ := h.rely h₁
        have hlinking := hat₁.linking hlt
        have hchange := change_put (v := ⟨pos.pSucc nLevel, false⟩) (.inl (heq ▸ hp))
          (by rw [hlinking]; rfl) (hinv₁.lives.of_linking hlinking).1
        refine ⟨w₁.put x nLevel ⟨pos.pSucc nLevel, false⟩, rfl,
          hinv₁.put_linking hlinking (hat₁.top hlt) _, .of_change nofun hchange rfl rfl, ?_⟩
        have hat₂ := hat₁.put ⟨pos.pSucc nLevel, false⟩
        have hpos₂ := (hpos.grows h₁.grows).grows hchange.grows
        have hnext : ((w₁.put x nLevel ⟨pos.pSucc nLevel, false⟩).heap.next x nLevel) =
            ⟨pos.pSucc nLevel, false⟩ := w₁.heap.setNext_next_self x nLevel _
        generalize w₁.put x nLevel ⟨pos.pSucc nLevel, false⟩ = w₂ at *
        have hnext' : ∀ w₃, Rely t w₂ w₃ → (w₃.heap.next x nLevel).ptr = pos.pSucc nLevel := by
          intro w₃ h₃
          rw [h₃.linking x nLevel (hat₂.linking hlt) hat₂.ever.le, hnext]
        have haround : ∀ w₃, Rely t w₂ w₃ →
            Around w₃ (pos.pPrev nLevel) (pos.pSucc nLevel) nLevel v :=
          fun w₃ h₃ => (hpos₂ nLevel le_rfl hlt).grows h₃.grows
        refine secures_compareExchange
          (fun w₃ hinv₃ h₃ => hinv₃.lives.hasLevel (haround w₃ h₃).reached)
          (fun w₃ hinv₃ h₃ heq₃ => ?_) fun w₃ hinv₃ h₃ _ => ?_
        · have hat₃ := hat₂.rely h₃
          have hbits : (w₃.heap.next (pos.pPrev nLevel) nLevel).bits = false := by rw [heq₃]
          have hlinked := (hat₃.linkable hlt).change hinv₃ (haround w₃ h₃).reached hbits
          have hnull : nLevel + 1 < nHeight → ((w₃.link t (pos.pPrev nLevel) x nLevel
              nHeight).heap.next x (nLevel + 1)).ptr = MarkedPtr.null.ptr := by
            intro hlt'
            have hnext₃ := w₃.heap.setNext_next_of_level (pos.pPrev nLevel) nLevel (.of x)
              (Nat.succ_ne_self nLevel) x
            exact (congrArg MarkedPtr.ptr hnext₃).trans (hat₃.null (nLevel + 1) (by omega) hlt')
          refine ⟨w₃.link t (pos.pPrev nLevel) x nLevel nHeight, rfl,
            hinv₃.link (hat₃.linkable hlt) (haround w₃ h₃) heq₃ (hnext' w₃ h₃) h.pos,
            .of_change nofun hlinked rfl rfl,
            ih (hat₃.link hlt hinv₃ (haround w₃ h₃).reached hbits) rfl hnull ?_⟩
          exact fun l hle hlh => (((hpos₂ l (by omega) hlh).grows h₃.grows).grows hlinked.grows)
        · have hat₃ := hat₂.rely h₃
          refine ((secures_renewInsertPosition hat₃.rooted fuel v x pos).mono
            fun r w₄ hr => ?_).bind
          rcases r with _ | ⟨again, pos'⟩
          · exact nofun
          · obtain ⟨h₄, hbetween⟩ := hr again pos' rfl
            have hat₄ := hat₃.rely h₄
            cases again with
            | false => exact secures_stopInserting hat₄ hlt
            | true =>
              exact ih hat₄ rfl (fun _ => hnext' w₄ (h₃.trans h₄)) (hat₃.placed hlt (hbetween rfl))
      · -- only a mark makes it differ from what `t` has written there
        refine secures_assert (MarkedPtr.bits_of_ne hne (hptr w₁ h₁) hp) fun w₂ _ h₂ => ?_
        exact secures_stopInserting ((h.rely h₁).rely h₂) hlt
    · rw [if_neg hlt]
      rintro b ⟨⟩
      have heq : nLevel = nHeight := le_antisymm h.le_height (not_lt.mp hlt)
      refine ⟨rfl, h.free.finish ?_ h.debt, h.done⟩
      rw [h.phase, if_pos heq]
      exact id

/-- What `t` knows of its node before it has linked it. -/
structure Building (t : T) (x : NodePtr) (v : K) (nHeight : Nat) (o : Op K) (w : World T K) :
    Prop where
  phase : w.phase x = .built t
  node : w.heap.node x = some ⟨some v, nHeight⟩
  pos : 0 < nHeight
  le_max : nHeight ≤ maxHeight
  pending : Pending t o w
  free : Free t {x} w
  debt : ¬(w.debt x).Of t
  rooted : Rooted w

namespace Building

omit [DecidableEq T] [LinearOrder K]

lemma rely (h : Building t x v nHeight o w) (hrely : Rely t w w') : Building t x v nHeight o w' where
  phase := hrely.built_of h.phase
  node := (hrely.node x (.inr h.phase)).trans h.node
  pos := h.pos
  le_max := h.le_max
  pending := h.pending.rely hrely
  free := h.free.rely hrely.but
  debt hof := by
    rw [(hrely.debt x (Set.notMem_empty x) (.inr hof)).1] at hof
    exact h.debt hof
  rooted := h.rooted.grows hrely.grows

lemma put (h : Building t x v nHeight o w) (p : MarkedPtr) :
    Building t x v nHeight o (w.put x nLevel p) :=
  { h with
    pending := ⟨h.pending.op, h.pending.todo, h.pending.erasing⟩
    free := ⟨h.free.phase, h.free.debt⟩
    rooted := ⟨h.rooted.ever, h.rooted.rank⟩ }

end Building

omit [DecidableEq T] in
lemma Placed.put {l : Nat} {p : MarkedPtr} (h : Placed pos v nLevel nHeight w) :
    Placed pos v nLevel nHeight (w.put x l p) := fun l hle hlt =>
  ⟨(h l hle hlt).reached, (h l hle hlt).pred_lt, (h l hle hlt).succ_lt⟩

lemma secures_clearLevels {count : Nat} (h : Building t x v nHeight o w)
    (hpos : Placed pos v 0 nHeight w) (hle : nLevel + count ≤ nHeight)
    (hnull : ∀ l, 1 ≤ l → l < nLevel → w.heap.next x l = .null) :
    Secures t (fun _ w' => Building t x v nHeight o w' ∧ Placed pos v 0 nHeight w' ∧
      ∀ l, 1 ≤ l → l < nLevel + count → w'.heap.next x l = .null) (clearLevels x nLevel count) w := by
  induction count generalizing nLevel w with
  | zero => exact ⟨h, hpos, hnull⟩
  | succ count ih =>
    refine secures_store h.phase h.node (show nLevel < nHeight by omega) fun w₁ _ h₁ => ?_
    have hnull₁ : ∀ l, 1 ≤ l → l < nLevel + 1 →
        (w₁.put x nLevel .null).heap.next x l = .null := by
      intro l hl hlt
      by_cases heq : l = nLevel
      · subst heq
        exact w₁.heap.setNext_next_self x l .null
      · have hnext := w₁.heap.setNext_next_of_level x nLevel .null heq x
        refine hnext.trans ?_
        rw [h₁.built x h.phase]
        exact hnull l hl (by omega)
    have hrest := ih ((h.rely h₁).put .null) (hpos.grows h₁.grows).put (by omega) hnull₁
    rwa [show nLevel + 1 + count = nLevel + (count + 1) by omega] at hrest

/-- What `insert_at_position` knows in the end: the node is as it was, or it has been inserted. -/
def Tried (t : T) (x : NodePtr) (v : K) (nHeight : Nat) (o : Op K) (r : Option Bool)
    (w : World T K) : Prop :=
  ∀ b, r = some b → if b then Free t ∅ w ∧ Done t true w else Building t x v nHeight o w

lemma secures_insertAtPosition {random : Fin maxHeight}
    (h : Building t x v nHeight (.insert v random) w) (hpos : Placed pos v 0 nHeight w) :
    Secures t (Tried t x v nHeight (.insert v random)) (insertAtPosition fuel v x pos) w := by
  refine secures_height (.inr h.phase) fun w₁ n _ h₁ hn => ?_
  have hat₁ := h.rely h₁
  obtain rfl : (⟨some v, nHeight⟩ : Node K) = n := Option.some.inj (hat₁.node.symm.trans hn)
  have hcount : 1 + (nHeight - 1) ≤ nHeight := by have := h.pos; omega
  refine ((secures_clearLevels hat₁ (hpos.grows h₁.grows) hcount fun l hl hlt =>
    absurd hlt (by omega)).mono fun _ w₂ h₂ => ?_).bind
  obtain ⟨hat₂, hpos₂, hnull₂⟩ := h₂
  refine secures_store hat₂.phase hat₂.node h.pos fun w₃ _ h₃ => ?_
  have hat₃ : Building t x v nHeight (.insert v random) (w₃.put x 0 ⟨pos.pSucc 0, false⟩) :=
    (hat₂.rely h₃).put _
  have hpos₃ := (hpos₂.grows h₃.grows).put (x := x) (l := 0) (p := ⟨pos.pSucc 0, false⟩)
  have hbottom : (w₃.put x 0 ⟨pos.pSucc 0, false⟩).heap.next x 0 = ⟨pos.pSucc 0, false⟩ :=
    w₃.heap.setNext_next_self x 0 _
  have hnull₃ : ∀ l, 1 ≤ l → l < nHeight →
      (w₃.put x 0 ⟨pos.pSucc 0, false⟩).heap.next x l = .null := by
    intro l hl hlt
    have hnext := w₃.heap.setNext_next_of_level x 0 ⟨pos.pSucc 0, false⟩ (show l ≠ 0 by omega) x
    refine hnext.trans ?_
    rw [h₃.built x hat₂.phase]
    exact hnull₂ l hl (by omega)
  generalize w₃.put x 0 ⟨pos.pSucc 0, false⟩ = w₄ at *
  refine secures_compareExchange
    (fun w₅ hinv₅ h₅ => hinv₅.lives.hasLevel ((hpos₃ 0 le_rfl h.pos).grows h₅.grows).reached)
    (fun w₅ hinv₅ h₅ heq => ?_) fun w₅ _ h₅ _ => ?_
  · have hat₅ := hat₃.rely h₅
    have haround := (hpos₃ 0 le_rfl h.pos).grows h₅.grows
    have hsame := h₅.built x hat₃.phase
    obtain ⟨_, htop, _⟩ := hinv₅.lives.of_built hat₅.phase
    have hlinkable : Linkable w₅ t x 0 nHeight v := ⟨.inl hat₅.phase, hat₅.node, htop, h.pos⟩
    have hbits : (w₅.heap.next (pos.pPrev 0) 0).bits = false := by rw [heq]
    have hchange := hlinkable.change_enter hinv₅ haround.reached hbits
    have hmem : v ∉ w₅.set := by
      refine hinv₅.not_mem_set haround.reached hbits haround.pred_lt fun c hc => ?_
      rw [heq] at hc
      exact (haround.succ_lt c hc).2
    have hpending := hat₅.pending
    refine ⟨w₅.enter t (pos.pPrev 0) x nHeight v, rfl,
      hinv₅.enter hlinkable haround heq (by rw [hsame, hbottom]) hpending.erasing,
      ⟨fun u hu => hchange.rely hu hu, rfl,
        .effect nofun t (.insert v random) hpending.op hpending.todo rfl ?_⟩, ?_⟩
    · simp only [Op.spec, decide_eq_true hmem]
      rfl
    · have hlinked : Linking t x v nHeight 1 (w₅.enter t (pos.pPrev 0) x nHeight v) :=
        { phase := Function.update_self ..
          node := hat₅.node
          top := fun _ => Function.update_self ..
          ever := Function.update_self ..
          null := fun l hl hlh => by
            have hnext := w₅.heap.setNext_next_of_level (pos.pPrev 0) 0 (.of x)
              (show l ≠ 0 by omega) x
            refine (congrArg MarkedPtr.ptr hnext).trans ?_
            rw [hsame, hnull₃ l (by omega) hlh]
            rfl
          pos := Nat.one_pos
          le_height := h.pos
          le_max := h.le_max
          done := ⟨Function.update_self .., hpending.erasing⟩
          free := hat₅.free.change hchange
          debt := hat₅.debt
          rooted := hat₅.rooted.grows hchange.grows }
      have hone : 1 < nHeight → ((w₅.enter t (pos.pPrev 0) x nHeight v).heap.next x 1).ptr =
          MarkedPtr.null.ptr := by
        intro hlt
        have hnext := w₅.heap.setNext_next_of_level (pos.pPrev 0) 0 (.of x) Nat.one_ne_zero x
        refine (congrArg MarkedPtr.ptr hnext).trans ?_
        rw [hsame, hnull₃ 1 le_rfl hlt]
      refine (secures_linkLevels hlinked rfl hone fun l hle hlh =>
        ((hpos₃ l (Nat.zero_le l) hlh).grows h₅.grows).grows hchange.grows).mono fun r w₆ hr => ?_
      intro b hb
      obtain ⟨rfl, hfree, hdone⟩ := hr b hb
      exact ⟨hfree, hdone⟩
  · rintro b ⟨⟩
    exact hat₃.rely h₅

lemma secures_increaseHeight (hpos : 0 < nHeight) (hle : nHeight ≤ maxHeight) :
    Secures t (fun _ w' => Rely t w w') (increaseHeight nHeight) w := by
  refine secures_loadHeight fun w₁ _ h₁ => ?_
  by_cases hlt : w₁.heap.nHeight < nHeight
  · rw [if_pos hlt]
    exact secures_exchangeHeight hpos hle fun w₂ w₃ _ h₂ h₃ => (h₁.trans h₂).trans h₃
  · rw [if_neg hlt]
    exact h₁

/-- What the intrusive `insert` knows in the end: it has failed and keeps the node, or the node has
been inserted. -/
def Attempted (t : T) (x : NodePtr) (r : Option Bool) (w : World T K) : Prop :=
  ∀ b, r = some b → Done t b w ∧
    if b then Free t ∅ w else w.phase x = .built t ∧ Free t {x} w

lemma secures_insertLoop {random : Fin maxHeight}
    (h : Building t x v nHeight (.insert v random) w) :
    Secures t (Attempted t x) (insertLoop v x nHeight fuel pos) w := by
  induction fuel generalizing w pos with
  | zero => exact nofun
  | succ fuel ih =>
    refine ((secures_findPosition h.rooted (.insert h.pending) fuel pos).mono fun r w₁ hr => ?_).bind
    rcases r with _ | ⟨_ | _, pos₁⟩
    · exact nofun
    · obtain ⟨h₁, hbetween⟩ := hr
      have hat₁ := h.rely h₁
      have hpos₁ : Placed pos₁ v 0 nHeight w₁ := fun l _ hlt =>
        (hbetween l (hlt.trans_le h.le_max)).around
      refine ((secures_insertAtPosition hat₁ hpos₁).mono fun r w₂ hr => ?_).bind
      rcases r with _ | _ | _
      · exact nofun
      · exact ih (hr false rfl)
      · obtain ⟨hfree, hdone⟩ := hr true rfl
        refine ((secures_increaseHeight h.pos h.le_max).mono fun _ w₃ h₃ => ?_).bind
        rintro b ⟨⟩
        exact ⟨hdone.rely h₃, hfree.rely h₃⟩
    · obtain ⟨_, _, _, _, hfound, _⟩ := hr
      have hsettled := hfound rfl
      rintro b ⟨⟩
      exact ⟨hsettled.done h.pending.erasing, hsettled.built h.phase, hsettled.free h.free⟩

theorem secures_insert {random : Fin maxHeight} (hw : Rooted w) (hfree : Free t ∅ w)
    (hpending : Pending t (.insert v random) w) :
    Secures t (Ended t) (insert fuel v random) w := by
  refine secures_new (Nat.succ_pos _) random.isLt fun w₁ hinv₁ h₁ => ?_
  have hchange : Change t (· ≠ t) w₁.heap.fresh head 0 w₁ (w₁.allocate t (random.val + 1) v) :=
    change_allocate hinv₁
  have hpending₁ := hpending.rely h₁
  have hbuilding : Building t w₁.heap.fresh v (random.val + 1) (.insert v random)
      (w₁.allocate t (random.val + 1) v) :=
    { phase := Function.update_self ..
      node := Function.update_self ..
      pos := Nat.succ_pos _
      le_max := random.isLt
      pending := ⟨hpending₁.op, hpending₁.todo, hpending₁.erasing⟩
      free := (hfree.rely h₁).of_empty.change hchange
      debt := by
        have hdebt : (w₁.allocate t (random.val + 1) v).debt w₁.heap.fresh = .clear :=
          (hinv₁.lives.of_absent (hinv₁.lives.fresh _ le_rfl)).1
        rw [hdebt]
        exact id
      rooted := (hw.grows h₁.grows).grows hchange.grows }
  refine ((secures_insertLoop hbuilding).mono fun r w₂ hr => ?_).bind
  rcases r with _ | _ | _
  · trivial
  · obtain ⟨hdone, hbuilt, hfree₂⟩ := hr false rfl
    refine secures_delete hbuilt fun w₃ hinv₃ h₃ => ?_
    have hdone₃ := hdone.rely h₃
    have hbuilt₃ := h₃.built_of hbuilt
    have hfree₃ : Free t ∅ (w₃.dispose w₁.heap.fresh) := by
      refine ((hfree₂.rely h₃.but).change (change_dispose hinv₃ hbuilt₃)).finish ?_ ?_
      · have hphase : (w₃.dispose w₁.heap.fresh).phase w₁.heap.fresh = .absent :=
          Function.update_self ..
        rw [hphase]
        exact id
      · have hdebt : (w₃.dispose w₁.heap.fresh).debt w₁.heap.fresh = .clear :=
          (hinv₃.lives.of_built hbuilt₃).1
        rw [hdebt]
        exact id
    exact ⟨hfree₃, hdone₃.erasing, .inl hdone₃.status⟩
  · obtain ⟨hdone, hfree₂⟩ := hr true rfl
    exact ⟨hfree₂, hdone.erasing, .inl hdone.status⟩

end RedPar.SkipList
