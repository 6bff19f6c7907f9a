import RedPar.Proofs.SkipListMoves

/-!
# Rules for the accesses

The protocol that the threads of a skip list keep to, and one rule for each access: what a thread
has to know to make it, and what it knows afterwards.
-/

namespace RedPar.SkipList
open Interleaved

variable {T K : Type} [DecidableEq T] [LinearOrder K]

/-- What a step does to the set and to the operations: nothing, one operation takes effect on the
set, or an erase finds its node marked by another. -/
inductive Effect (t : T) (c : Access K) (w w' : World T K) : Prop
  | stay (hc : c ≠ .onEraseContention) (hset : w'.set = w.set) (hstatus : w'.status = w.status)
  | effect (hc : c ≠ .onEraseContention) (u : T) (o : Op K) (hop : w.op u = some o)
      (htodo : w.status u = .todo) (hset : w'.set = (o.spec w.set).2)
      (hstatus : w'.status = Function.update w.status u (.done (o.spec w.set).1))
  | lost (hc : c = .onEraseContention) (v : K) (hop : w.op t = some (.erase v))
      (htodo : w.status t = .todo) (hset : w'.set = w.set)
      (hstatus : w'.status = Function.update w.status t .lost)

structure Move (t : T) (c : Access K) (w w' : World T K) : Prop where
  others : ∀ u, u ≠ t → Rely u w w'
  op : w'.op = w.op
  effect : Effect t c w w'

def protocol (T K : Type) [DecidableEq T] [LinearOrder K] :
    Protocol T (Access K) Access.Res (Heap K) (World T K) where
  exec := Heap.exec
  state := World.heap
  inv := Inv
  rely := Rely
  move := Move
  rely_refl t w := .refl t ∅ w
  rely_trans _ _ _ _ := RelyBut.trans
  rely_of_move _ u _ _ _ h hu := h.others u hu

/-- Every access of the program has an answer and keeps to the protocol. -/
abbrev Secures {α : Type} (t : T) (final : α → World T K → Prop) (p : SkipM K α) (w : World T K) :
    Prop := (protocol T K).Secures t final p w

variable {α : Type} {t : T} {final : α → World T K → Prop} {w w₁ w₂ : World T K} {p : NodePtr}
  {nLevel : Nat}

lemma Move.of_change {c : Access K} {x : NodePtr} (hc : c ≠ .onEraseContention)
    (h : Change t (· ≠ t) x p nLevel w w₁) (hset : w₁.set = w.set) (hstatus : w₁.status = w.status) :
    Move t c w w₁ where
  others _ hu := h.rely hu hu
  op := h.op
  effect := .stay hc hset hstatus

lemma secures_access {c : Access K} {k : Access.Res c → SkipM K α}
    (h : ∀ w₁, Inv w₁ → Rely t w w₁ → ∃ r w₂, w₁.heap.exec c = some (r, w₂.heap) ∧ Inv w₂ ∧
      Move t c w₁ w₂ ∧ Secures t final (k r) w₂) : Secures t final (access c >>= k) w := h

lemma Move.refl {c : Access K} (hc : c ≠ .onEraseContention) (w : World T K) : Move t c w w where
  others u _ := .refl u ∅ w
  op := rfl
  effect := .stay hc rfl rfl

lemma secures_read {c : Access K} (hc : c ≠ .onEraseContention) {k : Access.Res c → SkipM K α}
    (h : ∀ w₁, Inv w₁ → Rely t w w₁ →
      ∃ r, w₁.heap.exec c = some (r, w₁.heap) ∧ Secures t final (k r) w₁) :
    Secures t final (access c >>= k) w := by
  refine secures_access fun w₁ hinv hrely => ?_
  obtain ⟨r, hexec, hrest⟩ := h w₁ hinv hrely
  exact ⟨r, w₁, hexec, hinv, .refl hc w₁, hrest⟩

/-- The operation of `t` takes effect at a step that changes nothing, or not yet. -/
inductive Settles (t : T) (w : World T K) : World T K → Prop
  | not : Settles t w w
  | effect (o : Op K) (r : Bool) (hop : w.op t = some o) (htodo : w.status t = .todo)
      (herasing : w.erasing t = none) (hspec : o.spec w.set = (r, w.set)) :
      Settles t w (w.settle t (.done r))

lemma change_settle (h : Inv w) (q : Progress) :
    Change t (· ≠ t) w.heap.fresh head 0 w (w.settle t q) :=
  change_none h (fun _ => ⟨rfl, rfl, rfl, rfl, rfl, rfl⟩) rfl rfl
    (fun _ hu => Function.update_of_ne hu _ _) rfl

namespace Settles

lemma heap (h : Settles t w w₁) : w₁.heap = w.heap := by
  cases h <;> rfl

lemma ever (h : Settles t w w₁) : w₁.ever = w.ever := by
  cases h <;> rfl

lemma inv (h : Settles t w w₁) (hinv : Inv w) : Inv w₁ := by
  cases h with
  | not => exact hinv
  | effect o r hop htodo herasing hspec => exact hinv.settle herasing _

lemma move (h : Settles t w w₁) (hinv : Inv w) {c : Access K} (hc : c ≠ .onEraseContention) :
    Move t c w w₁ := by
  cases h with
  | not => exact .refl hc w
  | effect o r hop htodo herasing hspec =>
    refine ⟨fun u hu => (change_settle hinv _).rely hu hu, rfl, .effect hc t o hop htodo ?_ ?_⟩
    · rw [hspec]
      rfl
    · rw [hspec]
      rfl

end Settles

/-- A load of a link in the tower; the operation may take effect at it. -/
lemma secures_loadTower {k : MarkedPtr → SkipM K α}
    (hlevel : ∀ w₁, Inv w₁ → Rely t w w₁ → w₁.heap.hasLevel p nLevel = true)
    (h : ∀ w₁, Inv w₁ → Rely t w w₁ → ∃ w₂, Settles t w₁ w₂ ∧
      Secures t final (k (w₁.heap.next p nLevel)) w₂) :
    Secures t final (load p nLevel >>= k) w := by
  refine secures_access fun w₁ hinv hrely => ?_
  obtain ⟨w₂, hsettles, hrest⟩ := h w₁ hinv hrely
  refine ⟨w₁.heap.next p nLevel, w₂, ?_, hsettles.inv hinv, hsettles.move hinv nofun, hrest⟩
  rw [hsettles.heap]
  exact if_pos (hlevel w₁ hinv hrely)

/-- A load of a link at a level that the node has been linked at. -/
lemma secures_load {k : MarkedPtr → SkipM K α} (hp : nLevel < w.ever p)
    (h : ∀ w₁, Inv w₁ → Rely t w w₁ → ∃ w₂, Settles t w₁ w₂ ∧
      Secures t final (k (w₁.heap.next p nLevel)) w₂) :
    Secures t final (load p nLevel >>= k) w :=
  secures_loadTower (fun _ hinv hrely => hinv.lives.hasLevel (hp.trans_le (hrely.ever p))) h

lemma secures_value {k : K → SkipM K α} (hp : 0 < w.ever p) (hne : p ≠ head)
    (h : ∀ w₁ (v : K), Inv w₁ → Rely t w w₁ → w₁.heap.rank p = v →
      Secures t final (k v) w₁) : Secures t final (value p >>= k) w := by
  refine secures_read (c := .value p) nofun fun w₁ hinv hrely => ?_
  obtain ⟨v, hv, hrank⟩ := hinv.lives.value_of_ever (hrely.ever_pos hp) hne
  refine ⟨v, ?_, h w₁ v hinv hrely hrank⟩
  have hexec : w₁.heap.exec (.value p) =
      ((w₁.heap.node p).bind Node.value).map fun v => (v, w₁.heap) := rfl
  rw [hexec, hv]
  rfl

lemma secures_height {k : Nat → SkipM K α} (hp : 0 < w.ever p ∨ w.phase p = .built t)
    (h : ∀ w₁ n, Inv w₁ → Rely t w w₁ → w₁.heap.node p = some n → Secures t final (k n.height) w₁) :
    Secures t final (height p >>= k) w := by
  refine secures_read (c := .height p) nofun fun w₁ hinv hrely => ?_
  obtain ⟨n, hn⟩ : ∃ n, w₁.heap.node p = some n := by
    rcases hp with hp | hp
    · obtain ⟨n, hn, _⟩ := hinv.lives.tower (hrely.ever_pos hp)
      exact ⟨n, hn⟩
    · obtain ⟨_, _, _, v, height, hn, _⟩ := hinv.lives.of_built (hrely.built_of hp)
      exact ⟨_, hn⟩
  refine ⟨n.height, ?_, h w₁ n hinv hrely hn⟩
  have hexec : w₁.heap.exec (.height p) =
      (w₁.heap.node p).map fun n => (n.height, w₁.heap) := rfl
  rw [hexec, hn]
  rfl

lemma secures_isUpperLevel {k : Bool → SkipM K α} (hp : 0 < w.ever p)
    (h : ∀ w₁, Inv w₁ → Rely t w w₁ →
      Secures t final (k (decide (w₁.heap.unlink p = nLevel + 1))) w₁) :
    Secures t final (isUpperLevel p nLevel >>= k) w := by
  refine secures_read (c := .isUpperLevel p nLevel) nofun fun w₁ hinv hrely => ?_
  obtain ⟨n, hn, _⟩ := hinv.lives.tower (hrely.ever_pos hp)
  refine ⟨decide (w₁.heap.unlink p = nLevel + 1), ?_, h w₁ hinv hrely⟩
  have hexec : w₁.heap.exec (.isUpperLevel p nLevel) = (w₁.heap.node p).map fun _ =>
      (decide (w₁.heap.unlink p = nLevel + 1), w₁.heap) := rfl
  rw [hexec, hn]
  rfl

lemma secures_loadHeight {k : Nat → SkipM K α}
    (h : ∀ w₁, Inv w₁ → Rely t w w₁ → Secures t final (k w₁.heap.nHeight) w₁) :
    Secures t final (loadHeight >>= k) w :=
  secures_read (c := .loadHeight) nofun fun w₁ hinv hrely => ⟨w₁.heap.nHeight, rfl, h w₁ hinv hrely⟩

lemma secures_assert {k : Unit → SkipM K α} {holds : Bool} (hholds : holds = true)
    (h : ∀ w₁, Inv w₁ → Rely t w w₁ → Secures t final (k ()) w₁) :
    Secures t final (assert holds >>= k) w :=
  secures_read (c := .assert holds) nofun fun w₁ hinv hrely => ⟨(), if_pos hholds, h w₁ hinv hrely⟩

/-- A compare-exchange that fails is a load. -/
lemma secures_compareExchange {k : Bool × MarkedPtr → SkipM K α} {expected desired : MarkedPtr}
    (hlevel : ∀ w₁, Inv w₁ → Rely t w w₁ → w₁.heap.hasLevel p nLevel = true)
    (hok : ∀ w₁, Inv w₁ → Rely t w w₁ → w₁.heap.next p nLevel = expected →
      ∃ w₂, w₂.heap = w₁.heap.setNext p nLevel desired ∧ Inv w₂ ∧
        Move t (.compareExchange p nLevel expected desired) w₁ w₂ ∧
        Secures t final (k (true, expected)) w₂)
    (hfail : ∀ w₁, Inv w₁ → Rely t w w₁ → w₁.heap.next p nLevel ≠ expected →
      Secures t final (k (false, w₁.heap.next p nLevel)) w₁) :
    Secures t final (compareExchange p nLevel expected desired >>= k) w := by
  refine secures_access fun w₁ hinv hrely => ?_
  have hp := hlevel w₁ hinv hrely
  by_cases heq : w₁.heap.next p nLevel = expected
  · obtain ⟨w₂, hheap, hinv₂, hmove, hrest⟩ := hok w₁ hinv hrely heq
    refine ⟨(true, expected), w₂, ?_, hinv₂, hmove, hrest⟩
    simp only [Heap.exec, if_pos hp, if_pos heq, hheap]
  · have hc : Access.compareExchange (K := K) p nLevel expected desired ≠ .onEraseContention := nofun
    refine ⟨(false, w₁.heap.next p nLevel), w₁, ?_, hinv, .refl hc w₁, hfail w₁ hinv hrely heq⟩
    simp only [Heap.exec, if_pos hp, if_neg heq]

lemma secures_new {k : NodePtr → SkipM K α} {nHeight : Nat} {v : K} (hpos : 0 < nHeight)
    (hle : nHeight ≤ maxHeight)
    (h : ∀ w₁, Inv w₁ → Rely t w w₁ →
      Secures t final (k w₁.heap.fresh) (w₁.allocate t nHeight v)) :
    Secures t final (new nHeight v >>= k) w := by
  refine secures_access fun w₁ hinv hrely => ?_
  exact ⟨w₁.heap.fresh, w₁.allocate t nHeight v, rfl, hinv.allocate hpos hle v,
    .of_change nofun (change_allocate hinv) rfl rfl, h w₁ hinv hrely⟩

lemma secures_delete {k : Unit → SkipM K α} (hp : w.phase p = .built t)
    (h : ∀ w₁, Inv w₁ → Rely t w w₁ → Secures t final (k ()) (w₁.dispose p)) :
    Secures t final (delete p >>= k) w := by
  refine secures_access fun w₁ hinv hrely => ?_
  have hbuilt := hrely.built_of hp
  obtain ⟨_, _, _, v, height, hn, _⟩ := hinv.lives.of_built hbuilt
  refine ⟨(), w₁.dispose p, ?_, hinv.dispose hbuilt,
    .of_change nofun (change_dispose hinv hbuilt) rfl rfl, h w₁ hinv hrely⟩
  exact if_pos (by rw [hn]; rfl)

lemma secures_store {k : Unit → SkipM K α} {v : MarkedPtr} {n : Node K} (hp : w.phase p = .built t)
    (hn : w.heap.node p = some n) (hlevel : nLevel < n.height)
    (h : ∀ w₁, Inv w₁ → Rely t w w₁ → Secures t final (k ()) (w₁.put p nLevel v)) :
    Secures t final (store p nLevel v >>= k) w := by
  refine secures_access fun w₁ hinv hrely => ?_
  have hbuilt := hrely.built_of hp
  have hn₁ := (hrely.node p (.inr hp)).trans hn
  obtain ⟨hdebt, _, hever, _⟩ := hinv.lives.of_built hbuilt
  refine ⟨(), w₁.put p nLevel v, ?_, hinv.put_built hbuilt v,
    .of_change nofun (change_put (.inr hever) (by rw [hbuilt]; rfl) hdebt) rfl rfl, h w₁ hinv hrely⟩
  exact if_pos (Heap.hasLevel_of hn₁ hlevel)

lemma secures_pay {k : Bool → SkipM K α} (hp : w.debt p = .unlinking t)
    (h : ∀ w₁, Inv w₁ → Rely t w w₁ →
      Secures t final (k (decide (w₁.heap.unlink p = 1))) (w₁.pay t p)) :
    Secures t final (levelUnlinked p 1 >>= k) w := by
  refine secures_access fun w₁ hinv hrely => ?_
  have hdebt : w₁.debt p = .unlinking t :=
    (hrely.debt_of (Set.notMem_empty p) (hp ▸ rfl)).trans hp
  have hphase := hinv.lives.linked_of_debt (x := p) (by rw [hdebt]; nofun)
  obtain ⟨_, hunlink, _, n, hn, _⟩ := hinv.lives.of_linked hphase
  rw [hdebt] at hunlink
  have hle : 1 ≤ w₁.heap.unlink p := hunlink ▸ Nat.le_add_left 1 _
  refine ⟨_, w₁.pay t p, ?_, hinv.pay hdebt, ⟨fun u hu => (change_pay hinv hdebt).rely trivial hu,
    rfl, .stay nofun rfl rfl⟩, h w₁ hinv hrely⟩
  exact if_pos ⟨by rw [hn]; rfl, hle⟩

/-- `t` stops linking its node, which it has linked on `nLevel` levels. -/
lemma secures_stop {k : Bool → SkipM K α} {n : Node K} (hp : w.phase p = .linking t)
    (hn : w.heap.node p = some n) (htop : w.top p = nLevel)
    (h : ∀ w₁, Inv w₁ → Rely t w w₁ → Secures t final (k false) (w₁.stop p)) :
    Secures t final (levelUnlinked p (n.height - nLevel) >>= k) w := by
  refine secures_access fun w₁ hinv hrely => ?_
  have hlinking := hrely.linking_of hp
  obtain ⟨_, htop₁, hever₁, _⟩ := hrely.mine p (.inl (hp ▸ rfl))
  obtain ⟨_, hpos, hever, v, height, hn₁, hlt, _, hunlink⟩ := hinv.lives.of_linking hlinking
  have hsame := hrely.node p (.inl (by omega))
  rw [hn₁, hn] at hsame
  obtain rfl : (⟨some v, height⟩ : Node K) = n := Option.some.inj hsame
  refine ⟨false, w₁.stop p, ?_, hinv.stop hlinking,
    .of_change nofun (change_stop hinv hlinking) rfl rfl, h w₁ hinv hrely⟩
  simp only [Heap.exec, hn₁, hunlink]
  rw [if_pos ⟨rfl, Nat.sub_le _ _⟩]
  have hone : decide (height = 1) = false := decide_eq_false (by omega)
  have hsub : height - (height - nLevel) = w₁.top p := by omega
  rw [hone, hsub]
  rfl

lemma secures_retire {k : Unit → SkipM K α} (hp : w.debt p = .unlinked t)
    (h : ∀ w₁, Inv w₁ → Rely t w w₁ → Secures t final (k ()) (w₁.retire p)) :
    Secures t final (retire p >>= k) w := by
  refine secures_access fun w₁ hinv hrely => ?_
  have hdebt : w₁.debt p = .unlinked t :=
    (hrely.debt_of (Set.notMem_empty p) (hp ▸ rfl)).trans hp
  have hphase := hinv.lives.linked_of_debt (x := p) (by rw [hdebt]; nofun)
  obtain ⟨_, _, _, n, hn, _⟩ := hinv.lives.of_linked hphase
  refine ⟨(), w₁.retire p, ?_, hinv.retire hdebt,
    ⟨fun u hu => (change_retire hinv hdebt).rely trivial hu, rfl, .stay nofun rfl rfl⟩,
    h w₁ hinv hrely⟩
  refine if_pos ⟨by rw [hn]; rfl, ?_⟩
  rw [hinv.lives.retired p, hdebt]
  nofun

lemma secures_exchangeHeight {k : Unit → SkipM K α} {expected desired : Nat} (hpos : 0 < desired)
    (hle : desired ≤ maxHeight)
    (h : ∀ w₁ w₂, Inv w₂ → Rely t w w₁ → Rely t w₁ w₂ → Secures t final (k ()) w₂) :
    Secures t final (exchangeHeight expected desired >>= k) w := by
  refine secures_access fun w₁ hinv hrely => ?_
  by_cases heq : w₁.heap.nHeight = expected
  · have hsame : ∀ y, SameAt w₁ (w₁.raise desired) y := fun y => ⟨rfl, rfl, rfl, rfl, rfl, rfl⟩
    have hinv₂ := hinv.raise hpos hle
    refine ⟨(), w₁.raise desired, if_pos heq, hinv₂,
      .of_change nofun (change_none hinv hsame rfl rfl (fun _ _ => rfl) rfl) rfl rfl,
      h w₁ _ hinv₂ hrely { RelyBut.refl t ∅ w₁ with }⟩
  · have hc : Access.exchangeHeight (K := K) expected desired ≠ .onEraseContention := nofun
    exact ⟨(), w₁, if_neg heq, hinv, .refl hc w₁, h w₁ w₁ hinv hrely (.refl t ∅ w₁)⟩

/-- An erase whose node has been marked by another gives up. -/
lemma secures_onEraseContention {k : Unit → SkipM K α} {v : K} (hop : w.op t = some (.erase v))
    (htodo : w.status t = .todo) (herasing : w.erasing t = none)
    (h : ∀ w₁, Inv w₁ → Rely t w w₁ → Secures t final (k ()) (w₁.settle t .lost)) :
    Secures t final (onEraseContention >>= k) w := by
  refine secures_access fun w₁ hinv hrely => ?_
  have hstatus : w₁.status t = .todo ∧ w₁.erasing t = none := by
    rcases hrely.status with ⟨hs, he⟩ | ⟨x, hx, _⟩
    · exact ⟨hs.trans htodo, he.trans herasing⟩
    · rw [herasing] at hx
      cases hx
  exact ⟨(), w₁.settle t .lost, rfl, hinv.settle hstatus.2 _,
    ⟨fun u hu => (change_settle hinv _).rely hu hu, rfl,
      .lost rfl v (hrely.op.trans hop) hstatus.1 rfl rfl⟩, h w₁ hinv hrely⟩

end RedPar.SkipList
