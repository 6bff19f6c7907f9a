import RedPar.Proofs.SkipListRules

/-!
# Searches of the skip list

What `help_remove`, `find_position` and `renew_insert_position` do. A search helps to unlink the
marked nodes that it meets, and in the end knows on each level a node before the key and one
behind it. Where it stops at the key, or finds at the bottom that the key is missing, the
operation that searches may take effect.
-/

namespace RedPar.SkipList
open Interleaved

variable {T K : Type} {t : T} {w w₁ w' : World T K} {nLevel : Nat}

/-- Nodes keep their values, and the levels that they have been linked at. -/
structure Grows (w w' : World T K) : Prop where
  ever : ∀ x, w.ever x ≤ w'.ever x
  rank : ∀ x, 0 < w.ever x → w'.heap.rank x = w.heap.rank x

structure Rooted (w : World T K) : Prop where
  ever : maxHeight ≤ w.ever head
  rank : w.heap.rank head = ⊥

structure Pending (t : T) (o : Op K) (w : World T K) : Prop where
  op : w.op t = some o
  todo : w.status t = .todo
  erasing : w.erasing t = none

structure Done (t : T) (r : Bool) (w : World T K) : Prop where
  status : w.status t = .done r
  erasing : w.erasing t = none

/-- `t` has nothing to do at the nodes outside `S`. -/
structure Free (t : T) (S : Set NodePtr) (w : World T K) : Prop where
  phase : ∀ x, x ∉ S → ¬(w.phase x).Of t
  debt : ∀ x, x ∉ S → ¬(w.debt x).Of t

variable {o : Op K} {r : Bool} {S : Set NodePtr}

lemma Pending.rely (h : Pending t o w) (hrely : RelyBut t S w w') : Pending t o w' := by
  rcases hrely.status with ⟨hstatus, herasing⟩ | ⟨x, hx, _⟩
  · exact ⟨hrely.op.trans h.op, hstatus.trans h.todo, herasing.trans h.erasing⟩
  · rw [h.erasing] at hx
    cases hx

lemma Done.rely (h : Done t r w) (hrely : RelyBut t S w w') : Done t r w' := by
  rcases hrely.status with ⟨hstatus, herasing⟩ | ⟨x, hx, _⟩
  · exact ⟨hstatus.trans h.status, herasing.trans h.erasing⟩
  · rw [h.erasing] at hx
    cases hx

lemma Free.rely (h : Free t S w) (hrely : RelyBut t S w w') : Free t S w' where
  phase x hx hof := by
    have heq := (hrely.mine x (.inr hof)).1
    rw [heq] at hof
    exact h.phase x hx hof
  debt x hx hof := by
    have heq := (hrely.debt x hx (.inr hof)).1
    rw [heq] at hof
    exact h.debt x hx hof

lemma Free.of_empty (h : Free t ∅ w) : Free t S w where
  phase x _ := h.phase x (Set.notMem_empty x)
  debt x _ := h.debt x (Set.notMem_empty x)

lemma Free.finish {x : NodePtr} (h : Free t {x} w) (hphase : ¬(w.phase x).Of t)
    (hdebt : ¬(w.debt x).Of t) : Free t ∅ w where
  phase y _ := by
    by_cases hy : y = x
    · subst hy
      exact hphase
    · exact h.phase y hy
  debt y _ := by
    by_cases hy : y = x
    · subst hy
      exact hdebt
    · exact h.debt y hy

lemma RelyBut.grows (h : RelyBut t S w w') : Grows w w' := ⟨h.ever, fun _ hx => h.rank hx⟩

lemma Change.grows {O : T → Prop} {x p : NodePtr} (h : Change t O x p nLevel w w') :
    Grows w w' where
  ever y := by
    by_cases hy : y = x
    · subst hy
      exact h.ever
    · exact (h.others y hy).ever.ge
  rank y hpos := by
    refine Heap.rank_congr ?_
    by_cases hy : y = x
    · subst hy
      exact h.node hpos
    · exact (h.others y hy).node

lemma Rooted.grows (h : Rooted w) (hgrows : Grows w w') : Rooted w' where
  ever := h.ever.trans (hgrows.ever head)
  rank := (hgrows.rank head ((show 0 < maxHeight by decide).trans_le h.ever)).trans h.rank

/-- What `t` has to do at the other nodes stays the same when it changes one. -/
lemma Free.change {O : T → Prop} {x p : NodePtr} (h : Free t {x} w)
    (hchange : Change t O x p nLevel w w') : Free t {x} w' where
  phase y hy := by
    rw [(hchange.others y hy).phase]
    exact h.phase y hy
  debt y hy := by
    rw [(hchange.others y hy).debt]
    exact h.debt y hy

variable [DecidableEq T]

/-- After `w` the operation of `t` has taken effect, at a step that changes nothing. -/
def Settled (t : T) (r : Bool) (w w' : World T K) : Prop :=
  ∃ w₁, Rely t w w₁ ∧ Rely t (w₁.settle t (.done r)) w'

lemma Settled.done (h : Settled t r w w') (herasing : w.erasing t = none) : Done t r w' := by
  obtain ⟨w₁, h₁, h'⟩ := h
  have hdone : Done t r (w₁.settle t (.done r)) := by
    rcases h₁.status with ⟨_, heq⟩ | ⟨x, hx, _⟩
    · exact ⟨Function.update_self .., heq.trans herasing⟩
    · rw [herasing] at hx
      cases hx
  exact hdone.rely h'

lemma Settled.free (h : Settled t r w w') (hfree : Free t S w) : Free t S w' := by
  obtain ⟨w₁, h₁, h'⟩ := h
  have hfree₁ := hfree.rely h₁.but
  have hsettled : Free t S (w₁.settle t (.done r)) := ⟨hfree₁.phase, hfree₁.debt⟩
  exact hsettled.rely h'.but

lemma Settled.built (h : Settled t r w w') {x : NodePtr} (hx : w.phase x = .built t) :
    w'.phase x = .built t := by
  obtain ⟨w₁, h₁, h'⟩ := h
  have hx₁ : (w₁.settle t (.done r)).phase x = .built t := h₁.built_of hx
  exact h'.built_of hx₁

lemma Settled.rooted (h : Settled t r w w') (hw : Rooted w) : Rooted w' := by
  obtain ⟨w₁, h₁, h'⟩ := h
  have hw₁ := hw.grows h₁.grows
  have hsettled : Rooted (w₁.settle t (.done r)) := ⟨hw₁.ever, hw₁.rank⟩
  exact hsettled.grows h'.grows

lemma Settled.rely (h : Settled t r w w₁) (hrely : Rely t w₁ w') : Settled t r w w' := by
  obtain ⟨w₂, h₂, h'⟩ := h
  exact ⟨w₂, h₂, h'.trans hrely⟩

variable [LinearOrder K]

lemma Settles.grows (h : Settles t w w') : Grows w w' where
  ever x := by rw [h.ever]
  rank x _ := by rw [h.heap]

omit [DecidableEq T] in
lemma Inv.rooted (h : Inv w) : Rooted w where
  ever := h.lives.head_top.ge.trans (h.lives.top_le head)
  rank := h.lives.rank_head

lemma Pending.settles (h : Pending t o w) (hrely : Rely t w w₁)
    (hspec : o.spec w₁.set = (r, w₁.set)) : ∃ w₂, Settles t w₁ w₂ ∧ Settled t r w w₂ := by
  have h₁ := h.rely hrely
  exact ⟨w₁.settle t (.done r), .effect o r h₁.op h₁.todo h₁.erasing hspec, w₁, hrely,
    .refl t ∅ _⟩

/-- A compare-exchange unlinks a marked node; at level 0 its eraser takes effect. -/
lemma Cuttable.unlinks {pred x : NodePtr} (h : Cuttable w pred x nLevel) (hinv : Inv w)
    {c : Access K} (hc : c ≠ .onEraseContention) :
    ∃ w', w'.heap = w.heap.setNext pred nLevel ⟨(w.heap.next x nLevel).ptr, false⟩ ∧ Inv w' ∧
      Move t c w w' ∧ RelyBut t {x} w w' ∧ w'.debt x = .unlinking t ∧ w'.top x = nLevel := by
  have hchange := h.change hinv t
  by_cases hlevel : nLevel = 0
  · subst hlevel
    obtain ⟨_, _, htop, _⟩ := h.facts hinv
    obtain ⟨e, he⟩ := hinv.stands.eraser x (by omega) h.marked
    obtain ⟨hx, _, htodo, v, hop, hrank⟩ := hinv.stands.erasing e x he
    have hmem : v ∈ w.set := (hinv.stands.set v).mpr ⟨x, hx, hrank⟩
    have hdrop := h.change_drop hinv t (v := v) he
    have hmove : Move t c w (w.drop t pred x e v) := by
      refine ⟨fun u hu => hdrop.rely trivial hu, rfl, .effect hc e (.erase v) hop htodo rfl ?_⟩
      simp only [Op.spec, decide_eq_true hmem]
      rfl
    exact ⟨w.drop t pred x e v, rfl, hinv.drop h t he hrank, hmove, hdrop.relyBut trivial,
      Function.update_self .., Function.update_self ..⟩
  · have hmove : Move t c w (w.cut t pred x nLevel) :=
      ⟨fun u hu => hchange.rely trivial hu, rfl, .stay hc rfl rfl⟩
    exact ⟨w.cut t pred x nLevel, rfl, hinv.cut h (Nat.pos_of_ne_zero hlevel) t, hmove,
      hchange.relyBut trivial, Function.update_self .., Function.update_self ..⟩

omit [DecidableEq T] [LinearOrder K] in
lemma debt_pay (t : T) (w : World T K) (x : NodePtr) :
    (w.pay t x).debt x = if w.heap.unlink x = 1 then .unlinked t else .clear :=
  Function.update_self ..

omit [DecidableEq T] [LinearOrder K] in
lemma debt_retire (w : World T K) (x : NodePtr) : (w.retire x).debt x = .retired :=
  Function.update_self ..

/-- Who has unlinked a node at some level counts it, and retires the node with the last one. -/
lemma secures_countOut {x : NodePtr} (hx : w₁.debt x = .unlinking t) (hw : ¬(w.debt x).Of t)
    (h : RelyBut t {x} w w₁) :
    Secures t (fun _ w' => Rely t w w')
      (do if ← levelUnlinked x 1 then retire x else return ()) w₁ := by
  refine secures_pay hx fun w₂ hinv₂ h₂ => ?_
  have hdebt₂ : w₂.debt x = .unlinking t :=
    (h₂.debt_of (Set.notMem_empty x) (hx ▸ rfl)).trans hx
  have hpaid : RelyBut t {x} w (w₂.pay t x) :=
    (h.trans h₂.but).trans ((change_pay hinv₂ hdebt₂).relyBut trivial)
  have hdebt := debt_pay t w₂ x
  by_cases hlast : w₂.heap.unlink x = 1
  · rw [if_pos (decide_eq_true hlast)]
    rw [if_pos hlast] at hdebt
    refine secures_retire hdebt fun w₃ hinv₃ h₃ => ?_
    have hdebt₃ : w₃.debt x = .unlinked t :=
      (h₃.debt_of (Set.notMem_empty x) (hdebt ▸ rfl)).trans hdebt
    have hretired : RelyBut t {x} w (w₃.retire x) :=
      (hpaid.trans h₃.but).trans ((change_retire hinv₃ hdebt₃).relyBut trivial)
    refine hretired.paid hw ?_
    rw [debt_retire]
    exact id
  · rw [if_neg (by rw [decide_eq_false hlast]; nofun)]
    rw [if_neg hlast] at hdebt
    refine hpaid.paid hw ?_
    rw [hdebt]
    exact id

/-- Helping an eraser leaves nothing behind. -/
lemma secures_helpRemove {pPred pCur : NodePtr} (hpred : nLevel < w.ever pPred)
    (hcur : nLevel < w.ever pCur) :
    Secures t (fun _ w' => Rely t w w') (helpRemove nLevel pPred pCur) w := by
  refine secures_isUpperLevel (Nat.zero_lt_of_lt hcur) fun w₁ _ h₁ => ?_
  by_cases hcount : w₁.heap.unlink pCur = nLevel + 1
  · rw [if_pos (decide_eq_true hcount)]
    have hcur₁ : nLevel < w₁.ever pCur := hcur.trans_le (h₁.ever pCur)
    refine secures_load hcur₁ fun w₂ _ h₂ => ⟨w₂, .not, ?_⟩
    have hcur₂ : 0 < w₂.ever pCur := h₂.ever_pos (Nat.zero_lt_of_lt hcur₁)
    by_cases hbits : (w₂.heap.next pCur nLevel).bits = true
    · rw [if_pos hbits]
      have hpred₃ : ∀ w₃, Rely t w₂ w₃ → nLevel < w₃.ever pPred := fun w₃ h₃ =>
        hpred.trans_le (((h₁.trans h₂).trans h₃).ever pPred)
      refine secures_compareExchange (fun w₃ hinv₃ h₃ => hinv₃.lives.hasLevel (hpred₃ w₃ h₃))
        (fun w₃ hinv₃ h₃ heq => ?_) fun w₃ _ h₃ _ => (h₁.trans h₂).trans h₃
      -- the node is still marked, and its count is not larger than before
      have hmark := h₃.marked pCur nLevel hcur₂ hbits
      have hle := (h₂.trans h₃).unlink pCur (Nat.zero_lt_of_lt hcur₁)
      have hcut : Cuttable w₃ pPred pCur nLevel :=
        ⟨hpred₃ w₃ h₃, heq, hmark ▸ hbits, hle.trans hcount.le⟩
      obtain ⟨w₄, hheap, hinv₄, hmove, hrely₄, hdebt, _⟩ := hcut.unlinks (t := t)
        (c := .compareExchange pPred nLevel (.of pCur) ⟨(w₂.heap.next pCur nLevel).ptr, false⟩) hinv₃
        nofun
      rw [hmark] at hheap
      refine ⟨w₄, hheap, hinv₄, hmove, secures_countOut hdebt (fun hof => ?_)
        (((h₁.trans h₂).trans h₃).but.trans hrely₄)⟩
      have hclear := ((h₁.trans h₂).trans h₃).debt_of (Set.notMem_empty pCur) hof
      rw [← hclear, (hcut.facts hinv₃).2.1] at hof
      exact hof
    · rw [if_neg hbits]
      exact h₁.trans h₂
  · rw [if_neg (by rw [decide_eq_false hcount]; nofun)]
    exact h₁

/-- What the operation of `t` does where a search for `val` from `w` ends: it may take effect where
the search stops at the key, and where it finds that the key is missing. -/
structure Hooks (t : T) (w : World T K) (val : K) (stop : Bool) where
  found : World T K → Prop
  missed : World T K → Prop
  found_stable : ∀ w₁ w₂, Rely t w₁ w₂ → found w₁ → found w₂
  missed_stable : ∀ w₁ w₂, Rely t w₁ w₂ → missed w₁ → missed w₂
  settle_found : stop = true → ∀ w₁, Inv w₁ → Rely t w w₁ → val ∈ w₁.set →
    ∃ w₂, Settles t w₁ w₂ ∧ found w₂
  settle_missed : ∀ w₁, Inv w₁ → Rely t w w₁ → val ∉ w₁.set → ∃ w₂, Settles t w₁ w₂ ∧ missed w₂

section Hooks

variable {val : K}

omit [DecidableEq T] [LinearOrder K] in
lemma Rely.stable (t : T) (w w₁ w₂ : World T K) (h : Rely t w₁ w₂) (hw : Rely t w w₁) :
    Rely t w w₂ := hw.trans h

/-- A search that is not for the operation itself. -/
def Hooks.idle (t : T) (w : World T K) (val : K) (stop : Bool) : Hooks t w val stop where
  found := Rely t w
  missed := Rely t w
  found_stable := Rely.stable t w
  missed_stable := Rely.stable t w
  settle_found _ w₁ _ h₁ _ := ⟨w₁, .not, h₁⟩
  settle_missed w₁ _ h₁ _ := ⟨w₁, .not, h₁⟩

/-- An insertion fails where its search stops at the key. -/
def Hooks.insert {random : Fin maxHeight} (h : Pending t (.insert val random) w) :
    Hooks t w val true where
  found := Settled t false w
  missed := Rely t w
  found_stable _ _ h hfound := hfound.rely h
  missed_stable := Rely.stable t w
  settle_found _ w₁ _ h₁ hmem := h.settles h₁ (by simp [Op.spec, hmem])
  settle_missed w₁ _ h₁ _ := ⟨w₁, .not, h₁⟩

/-- An erase fails where its search misses the key. -/
def Hooks.erase (h : Pending t (.erase val) w) : Hooks t w val false where
  found := Rely t w
  missed := Settled t false w
  found_stable := Rely.stable t w
  missed_stable _ _ h hmissed := hmissed.rely h
  settle_found hstop := nomatch hstop
  settle_missed w₁ _ h₁ hmem := h.settles h₁ (by simp [Op.spec, hmem])

def Hooks.contains (h : Pending t (.contains val) w) : Hooks t w val true where
  found := Settled t true w
  missed := Settled t false w
  found_stable _ _ h hfound := hfound.rely h
  missed_stable _ _ h hmissed := hmissed.rely h
  settle_found _ w₁ _ h₁ hmem := h.settles h₁ (by simp [Op.spec, hmem])
  settle_missed w₁ _ h₁ hmem := h.settles h₁ (by simp [Op.spec, hmem])

end Hooks

/-- A node with the key that a search from `w` has met at a level. -/
structure Hit (t : T) (w : World T K) (val : K) (nLevel : Nat) (c : NodePtr) (w' : World T K) :
    Prop where
  ever : 0 < w'.ever c
  rank : w'.heap.rank c = val
  member : ∃ w₀, Inv w₀ ∧ Rely t w w₀ ∧ c ∈ w₀.members nLevel ∧ w₀.heap.rank c = val

/-- A node with the key that a search from `w` has met at level 0 and passed. -/
structure Met (t : T) (w : World T K) (val : K) (c : NodePtr) (w' : World T K) : Prop where
  rely : Rely t w w'
  ever : 0 < w'.ever c
  rank : w'.heap.rank c = val
  seen : ∃ w₀, Inv w₀ ∧ Rely t w w₀ ∧ Rely t w₀ w' ∧ c ∈ w₀.members 0
  unmarked : ∃ w₀, Rely t w w₀ ∧ 0 < w₀.ever c ∧ (w₀.heap.next c 0).bits = false

/-- The place of the key at a level, as a search from `w` has seen it. -/
structure Between (t : T) (w : World T K) (val : K) (stop : Bool) (nLevel : Nat)
    (pPred : NodePtr) (pSucc : Option NodePtr) (w' : World T K) : Prop where
  reached : nLevel < w'.ever pPred
  pred_lt : w'.heap.rank pPred < val
  succ : ∀ c, pSucc = some c → 0 < w'.ever c ∧
    ((val : WithBot K) < w'.heap.rank c ∨ stop = false ∧ Hit t w val nLevel c w')

section Search

variable {val : K} {stop : Bool}

omit [DecidableEq T] in
lemma Hit.grows {c : NodePtr} (h : Hit t w val nLevel c w₁) (hgrows : Grows w₁ w') :
    Hit t w val nLevel c w' :=
  { h with
    ever := h.ever.trans_le (hgrows.ever c)
    rank := (hgrows.rank c h.ever).trans h.rank }

omit [DecidableEq T] in
lemma Between.grows {pPred : NodePtr} {pSucc : Option NodePtr}
    (h : Between t w val stop nLevel pPred pSucc w₁) (hgrows : Grows w₁ w') :
    Between t w val stop nLevel pPred pSucc w' where
  reached := h.reached.trans_le (hgrows.ever pPred)
  pred_lt := by
    rw [hgrows.rank pPred (Nat.zero_lt_of_lt h.reached)]
    exact h.pred_lt
  succ c hc := by
    obtain ⟨hever, hrank⟩ := h.succ c hc
    refine ⟨hever.trans_le (hgrows.ever c),
      hrank.imp (fun hlt => ?_) fun hhit => ⟨hhit.1, hhit.2.grows hgrows⟩⟩
    rwa [hgrows.rank c hever]

variable (hooks : Hooks t w val stop)

/-- The bottom of a search: the key is missing, or it has been met and passed. -/
inductive Ends (pCur : Option NodePtr) (nCmp : Ordering) (w' : World T K) : Prop
  | missed (hmissed : hooks.missed w') (hcur : pCur = none ∨ nCmp ≠ .eq)
  | met (c : NodePtr) (hstop : stop = false) (hcur : pCur = some c) (hcmp : nCmp = .eq)
      (hmet : Met t w val c w')

/-- What a search knows before a turn of its loop. -/
structure Looping (nLevels : Nat) (pPred : NodePtr) (pCur : Option NodePtr) (nCmp : Ordering)
    (pos : Position) (w' : World T K) : Prop where
  above : ∀ l, nLevels ≤ l → l < maxHeight →
    Between t w val stop l (pos.pPrev l) (pos.pSucc l) w'
  pred : 0 < nLevels → Rely t w w' ∧ nLevels ≤ w'.ever pPred ∧ w'.heap.rank pPred < val
  ends : nLevels = 0 → Ends hooks pCur nCmp w'

/-- What a search knows in the end. -/
def Searched (pNode : Option NodePtr) : Option (Search × Position) → World T K → Prop
  | none, _ => True
  | some (.removing, _), w' => pNode.isSome ∧ Rely t w w'
  | some (.found c, _), w' => stop = true ∧ hooks.found w' ∧ 0 < w'.ever c ∧ w'.heap.rank c = val
  | some (.bottom pCur nCmp, pos), w' => Ends hooks pCur nCmp w' ∧
      ∀ l < maxHeight, Between t w val stop l (pos.pPrev l) (pos.pSucc l) w'

variable {hooks}

lemma Looping.restart (hw : Rooted w') (hrely : Rely t w w') (pCur : Option NodePtr)
    (nCmp : Ordering) (pos : Position) : Looping hooks maxHeight head pCur nCmp pos w' where
  above _ hle hlt := absurd hlt (not_lt.mpr hle)
  pred _ := ⟨hrely, hw.ever, by rw [hw.rank]; exact WithBot.bot_lt_coe val⟩
  ends h := absurd h (by decide)

lemma Looping.descend {pPred : NodePtr} {pCur : Option NodePtr} {nCmp : Ordering} {pos : Position}
    (hrely : 0 < nLevel → Rely t w w') (hends : nLevel = 0 → Ends hooks pCur nCmp w')
    (hhere : Between t w val stop nLevel pPred pCur w')
    (habove : ∀ l, nLevel + 1 ≤ l → l < maxHeight →
      Between t w val stop l (pos.pPrev l) (pos.pSucc l) w') :
    Looping hooks nLevel pPred pCur nCmp (pos.set nLevel pPred pCur) w' where
  above l hle hlt := by
    by_cases hl : l = nLevel
    · subst hl
      simpa only [Position.set, Function.update_self] using hhere
    · simpa only [Position.set, Function.update_of_ne hl] using habove l (by omega) hlt
  pred hpos := ⟨hrely hpos, hhere.reached.le, hhere.pred_lt⟩
  ends := hends

lemma Looping.bottom {pPred : NodePtr} {pCur : Option NodePtr} {nCmp : Ordering} {pos : Position}
    (h : Looping hooks 0 pPred pCur nCmp pos w') (pNode : Option NodePtr) :
    Searched hooks pNode (some (.bottom pCur nCmp, pos)) w' :=
  ⟨h.ends rfl, fun l hl => h.above l (Nat.zero_le l) hl⟩

/-- Below the lowest level the search has missed the key. -/
lemma Hooks.pass (hooks : Hooks t w val stop) (nLevel : Nat) (hinv : Inv w₁) (hrely : Rely t w w₁)
    (hmissed : nLevel = 0 → val ∉ w₁.set) : ∃ w₂, Settles t w₁ w₂ ∧
      (0 < nLevel → Rely t w w₂) ∧ (nLevel = 0 → hooks.missed w₂) := by
  by_cases hlevel : nLevel = 0
  · obtain ⟨w₂, hsettles, hmissed₂⟩ := hooks.settle_missed w₁ hinv hrely (hmissed hlevel)
    exact ⟨w₂, hsettles, fun hpos => absurd hlevel hpos.ne', fun _ => hmissed₂⟩
  · exact ⟨w₁, .not, fun _ => hrely, fun hzero => absurd hzero hlevel⟩

/-- The value that a node will be found to have is known before. -/
lemma secures_valueOf {α : Type} {final : α → World T K → Prop} {cur : NodePtr} {v : K}
    {k : K → SkipM K α} (hsettles : Settles t w w₁) (hcur : 0 < w.ever cur) (hne : cur ≠ head)
    (hv : w.heap.rank cur = v) (h : ∀ w₂, Inv w₂ → Rely t w₁ w₂ → Secures t final (k v) w₂) :
    Secures t final (value cur >>= k) w₁ := by
  have hcur₁ : 0 < w₁.ever cur := by rwa [hsettles.ever]
  refine secures_value hcur₁ hne fun w₂ v' hinv₂ h₂ hv' => ?_
  rw [h₂.rank hcur₁, hsettles.heap, hv] at hv'
  obtain rfl : v = v' := WithBot.coe_injective hv'
  exact h w₂ hinv₂ h₂

variable (hooks) in
theorem secures_searchLoop (hw : Rooted w) (pNode : Option NodePtr) {fuel nLevels : Nat}
    {pPred : NodePtr} {pCur : Option NodePtr} {nCmp : Ordering} {pos : Position}
    (h : Looping hooks nLevels pPred pCur nCmp pos w') :
    Secures t (Searched hooks pNode)
      (searchLoop val pNode stop fuel nLevels pPred pCur nCmp pos) w' := by
  induction fuel generalizing nLevels pPred pCur nCmp pos w' with
  | zero =>
    cases nLevels with
    | zero => exact h.bottom pNode
    | succ nLevel => trivial
  | succ fuel ih =>
    cases nLevels with
    | zero => exact h.bottom pNode
    | succ nLevel =>
      obtain ⟨hrely, hreached, hlt⟩ := h.pred (Nat.succ_pos nLevel)
      have hrestart : ∀ w₁, Rely t w' w₁ → Secures t (Searched hooks pNode)
          (searchLoop val pNode stop fuel maxHeight head none .gt pos) w₁ := by
        intro w₁ h₁
        exact ih (.restart (hw.grows (hrely.trans h₁).grows) (hrely.trans h₁) none .gt pos)
      have habove : ∀ w₁, Rely t w' w₁ → ∀ l, nLevel + 1 ≤ l → l < maxHeight →
          Between t w val stop l (pos.pPrev l) (pos.pSucc l) w₁ :=
        fun w₁ h₁ l hle hl => (h.above l hle hl).grows h₁.grows
      have hreached' : ∀ w₁, Rely t w' w₁ → nLevel < w₁.ever pPred :=
        fun w₁ h₁ => Nat.lt_of_lt_of_le hreached (h₁.ever pPred)
      have hlt' : ∀ w₁, Rely t w' w₁ → w₁.heap.rank pPred < val := by
        intro w₁ h₁
        rw [h₁.rank (Nat.zero_lt_of_lt hreached)]
        exact hlt
      refine secures_load hreached fun w₁ hinv₁ h₁ => ?_
      by_cases hbits : (w₁.heap.next pPred nLevel).bits = true
      · rw [if_pos hbits]
        exact ⟨w₁, .not, hrestart w₁ h₁⟩
      rw [if_neg hbits]
      have hunmarked : (w₁.heap.next pPred nLevel).bits = false := eq_false_of_ne_true hbits
      cases hptr : (w₁.heap.next pPred nLevel).ptr with
      | none =>
        obtain ⟨w₂, hsettles, hrely₂, hmissed⟩ := hooks.pass nLevel hinv₁
          (hrely.trans h₁) fun hzero => by
            subst hzero
            exact hinv₁.not_mem_set (hreached' w₁ h₁) hunmarked (hlt' w₁ h₁) (by rw [hptr]; nofun)
        have hhere : Between t w val stop nLevel pPred none w₁ :=
          ⟨hreached' w₁ h₁, hlt' w₁ h₁, nofun⟩
        refine ⟨w₂, hsettles, ih (.descend hrely₂ (fun hzero => ?_) (hhere.grows hsettles.grows) ?_)⟩
        · exact .missed (hmissed hzero) (.inl rfl)
        · exact fun l hle hl => (habove w₁ h₁ l hle hl).grows hsettles.grows
      | some cur =>
        have hnext₁ : w₁.heap.next pPred nLevel = .of cur := by
          rw [MarkedPtr.of, ← hptr, ← hunmarked]
        obtain ⟨hmem₁, _⟩ := hinv₁.next_member (hreached' w₁ h₁) hnext₁
        have hcur₁ : nLevel < w₁.ever cur := Nat.lt_of_lt_of_le hmem₁ (hinv₁.lives.top_le cur)
        refine ⟨w₁, .not, secures_load hcur₁ fun w₂ hinv₂ h₂ => ⟨w₂, .not, ?_⟩⟩
        have h₀₂ := h₁.trans h₂
        have hcur₂ : nLevel < w₂.ever cur := hcur₁.trans_le (h₂.ever cur)
        refine secures_load (hreached' w₂ h₀₂) fun w₃ hinv₃ h₃ => ?_
        have h₀₃ := h₀₂.trans h₃
        by_cases hagain : w₃.heap.next pPred nLevel = .of cur
        · rw [if_neg (not_not.mpr hagain)]
          have hcur₃ : nLevel < w₃.ever cur := hcur₂.trans_le (h₃.ever cur)
          by_cases hmark : (w₂.heap.next cur nLevel).bits = true
          · rw [if_pos hmark]
            refine ⟨w₃, .not, ?_⟩
            by_cases hnode : pNode = some cur
            · rw [if_pos hnode]
              exact ⟨by rw [hnode]; rfl, hrely.trans h₀₃⟩
            · rw [if_neg hnode]
              exact ((secures_helpRemove (hreached' w₃ h₀₃) hcur₃).mono fun _ w₄ h₄ =>
                hrestart w₄ (h₀₃.trans h₄)).bind
          · rw [if_neg hmark]
            obtain ⟨hmem₃, hlt₃⟩ := hinv₃.next_member (hreached' w₃ h₀₃) hagain
            have hne : cur ≠ head := by
              rintro rfl
              rw [hinv₃.lives.rank_head] at hlt₃
              exact not_lt_bot hlt₃
            have hpos₃ : 0 < w₃.ever cur := Nat.zero_lt_of_lt hcur₃
            obtain ⟨v, _, hv⟩ := hinv₃.lives.value_of_ever hpos₃ hne
            rcases lt_trichotomy v val with hcmp | rfl | hcmp
            · refine ⟨w₃, .not, secures_valueOf .not hpos₃ hne hv fun w₄ _ h₄ => ?_⟩
              have h₀₄ := h₀₃.trans h₄
              rw [if_pos ((cmp_eq_lt_iff v val).mpr hcmp)]
              refine ih ⟨habove w₄ h₀₄, fun _ => ⟨hrely.trans h₀₄, hcur₃.trans_le (h₄.ever cur), ?_⟩,
                nofun⟩
              rw [h₄.rank hpos₃, hv]
              exact WithBot.coe_lt_coe.mpr hcmp
            · have hcmp : cmp v v ≠ .lt := by rw [cmp_self_eq_eq]; nofun
              by_cases hstop : stop = true
              · obtain ⟨w₄, hsettles, hfound⟩ := hooks.settle_found hstop w₃ hinv₃ (hrely.trans h₀₃)
                  (hinv₃.mem_set hmem₃ hv)
                refine ⟨w₄, hsettles, secures_valueOf hsettles hpos₃ hne hv fun w₅ _ h₅ => ?_⟩
                have hpos₄ : 0 < w₄.ever cur := by rwa [hsettles.ever]
                rw [if_neg hcmp, if_pos ⟨cmp_self_eq_eq v, hstop⟩]
                refine ⟨hstop, hooks.found_stable w₄ w₅ h₅ hfound, h₅.ever_pos hpos₄, ?_⟩
                rw [h₅.rank hpos₄, hsettles.heap, hv]
              · have hhit : Hit t w v nLevel cur w₃ := ⟨hpos₃, hv, w₃, hinv₃, hrely.trans h₀₃, hmem₃, hv⟩
                have hstop' : stop = false := eq_false_of_ne_true hstop
                refine ⟨w₃, .not, secures_valueOf .not hpos₃ hne hv fun w₄ _ h₄ => ?_⟩
                have h₀₄ := h₀₃.trans h₄
                rw [if_neg hcmp, if_neg fun hand => hstop hand.2]
                have hhere : Between t w v stop nLevel pPred (some cur) w₄ := by
                  refine ⟨hreached' w₄ h₀₄, hlt' w₄ h₀₄, ?_⟩
                  rintro _ ⟨⟩
                  exact ⟨h₄.ever_pos hpos₃, .inr ⟨hstop', hhit.grows h₄.grows⟩⟩
                refine ih (.descend (fun _ => hrely.trans h₀₄) (fun hzero => ?_) hhere (habove w₄ h₀₄))
                subst hzero
                refine .met cur hstop' rfl (cmp_self_eq_eq v) ⟨hrely.trans h₀₄, h₄.ever_pos hpos₃,
                  (h₄.rank hpos₃).trans hv, ⟨w₃, hinv₃, hrely.trans h₀₃, h₄, hmem₃⟩, ?_⟩
                exact ⟨w₂, hrely.trans h₀₂, hcur₂, eq_false_of_ne_true hmark⟩
            · have hbehind : w₃.heap.rank pPred < val ∧ (val : WithBot K) < w₃.heap.rank cur := by
                refine ⟨hlt' w₃ h₀₃, ?_⟩
                rw [hv]
                exact WithBot.coe_lt_coe.mpr hcmp
              have hhere : Between t w val stop nLevel pPred (some cur) w₃ := by
                refine ⟨hreached' w₃ h₀₃, hbehind.1, ?_⟩
                rintro _ ⟨⟩
                exact ⟨hpos₃, .inl hbehind.2⟩
              obtain ⟨w₄, hsettles, hrely₄, hmissed⟩ := hooks.pass nLevel hinv₃
                (hrely.trans h₀₃) fun hzero => by
                  subst hzero
                  refine hinv₃.not_mem_set (hreached' w₃ h₀₃) (by rw [hagain]; rfl) hbehind.1 ?_
                  rw [hagain]
                  rintro _ ⟨⟩
                  exact hbehind.2
              refine ⟨w₄, hsettles, secures_valueOf hsettles hpos₃ hne hv fun w₅ _ h₅ => ?_⟩
              have hgt : cmp v val = .gt := (cmp_eq_gt_iff v val).mpr hcmp
              rw [if_neg (by rw [hgt]; nofun), if_neg (by rw [hgt]; nofun)]
              refine ih (.descend (fun hpos => (hrely₄ hpos).trans h₅) (fun hzero => ?_)
                ((hhere.grows hsettles.grows).grows h₅.grows) fun l hle hl => ?_)
              · exact .missed (hooks.missed_stable w₄ w₅ h₅ (hmissed hzero)) (.inr (by rw [hgt]; nofun))
              · exact ((habove w₃ h₀₃ l hle hl).grows hsettles.grows).grows h₅.grows
        · rw [if_pos hagain]
          exact ⟨w₃, .not, hrestart w₃ h₀₃⟩

/-- What `find_position` knows when it returns. -/
def Finds (hooks : Hooks t w val stop) : Option (Bool × Position) → World T K → Prop
  | none, _ => True
  | some (false, pos), w' => hooks.missed w' ∧
      ∀ l < maxHeight, Between t w val stop l (pos.pPrev l) (pos.pSucc l) w'
  | some (true, pos), w' => ∃ c, pos.pCur = some c ∧ 0 < w'.ever c ∧ w'.heap.rank c = val ∧
      (stop = true → hooks.found w') ∧ (stop = false → Met t w val c w' ∧
        ∀ l < maxHeight, Between t w val stop l (pos.pPrev l) (pos.pSucc l) w')

theorem secures_findPosition (hw : Rooted w) (hooks : Hooks t w val stop) (fuel : Nat)
    (pos : Position) : Secures t (Finds hooks) (findPosition fuel val pos stop) w := by
  refine ((secures_searchLoop hooks hw none (.restart hw (.refl t ∅ w) none .gt pos)).mono
    fun r w' hr => ?_).bind
  rcases r with _ | ⟨_ | c | ⟨pCur, nCmp⟩, pos⟩
  · trivial
  · exact absurd hr.1 Bool.false_ne_true
  · obtain ⟨hstop, hfound, hever, hrank⟩ := hr
    exact ⟨c, rfl, hever, hrank, fun _ => hfound, fun hstop' => by
      rw [hstop] at hstop'
      cases hstop'⟩
  · obtain ⟨hends, hbetween⟩ := hr
    dsimp only
    cases hends with
    | missed hmissed hcur =>
      by_cases hcmp : nCmp = .eq
      · rw [if_neg (not_not.mpr hcmp), hcur.resolve_right (not_not.mpr hcmp)]
        exact ⟨hmissed, hbetween⟩
      · rw [if_pos hcmp]
        exact ⟨hmissed, hbetween⟩
    | met c hstop hcur hcmp hmet =>
      rw [if_neg (not_not.mpr hcmp), hcur]
      refine ⟨c, rfl, hmet.ever, hmet.rank, fun hstop' => ?_, fun _ => ⟨hmet, hbetween⟩⟩
      rw [hstop] at hstop'
      cases hstop'

/-- What a renewed position knows is as good as that of a first search. -/
theorem secures_renewInsertPosition (hw : Rooted w) (fuel : Nat) (val : K) (pNode : NodePtr)
    (pos : Position) : Secures t
      (fun r w' => ∀ again pos', r = some (again, pos') → Rely t w w' ∧ (again = true →
        ∀ l < maxHeight, Between t w val false l (pos'.pPrev l) (pos'.pSucc l) w'))
      (renewInsertPosition fuel val pNode pos) w := by
  refine ((secures_searchLoop (.idle t w val false) hw (some pNode)
    (.restart hw (.refl t ∅ w) none .gt pos)).mono fun r w' hr => ?_).bind
  rcases r with _ | ⟨_ | c | ⟨pCur, nCmp⟩, pos'⟩
  · exact nofun
  · rintro again pos' ⟨⟩
    exact ⟨hr.2, nofun⟩
  · exact absurd hr.1 Bool.false_ne_true
  · rintro again pos' ⟨⟩
    obtain ⟨hends, hbetween⟩ := hr
    cases hends with
    | missed hmissed => exact ⟨hmissed, fun _ => hbetween⟩
    | met _ _ _ _ hmet => exact ⟨hmet.rely, fun _ => hbetween⟩

end Search

end RedPar.SkipList
