import RedPar.Lib.Linearization
import RedPar.Lib.Runs
import RedPar.Proofs.SkipListContains

/-!
# Runs of the skip list

Threads that call the operations of one skip list: every reachable state has a world that keeps
the invariant and in which each running operation is secure. What the structure of the list, the
absence of faults and the retirement of nodes owe to it is read off here.
-/

namespace RedPar.SkipList
open Interleaved

variable {T K : Type} [DecidableEq T] {t : T} {w : World T K} {s s' : System T K}

/-- A thread between two operations owns nothing. -/
structure Idle (t : T) (w : World T K) : Prop where
  free : Free t ∅ w
  erasing : w.erasing t = none
  op : w.op t = none

namespace World

/-- `t` begins an operation, or has returned from one. -/
def become (w : World T K) (t : T) (o : Option (Op K)) (q : Progress) : World T K :=
  { w with
    op := Function.update w.op t o
    status := Function.update w.status t q }

/-- Nothing but the head. -/
def init : World T K where
  heap := .init
  top := Function.update (fun _ => 0) head maxHeight
  ever := Function.update (fun _ => 0) head maxHeight
  phase := Function.update (fun _ => .absent) head .linked
  debt _ := .clear
  set := ∅
  op _ := none
  status _ := .todo
  erasing _ := none

end World

omit [DecidableEq T] in
lemma lives_init : Lives (World.init : World T K) where
  life x := by
    by_cases hx : x = head
    · subst hx
      have hlife : Life head (T := T) .linked .clear maxHeight maxHeight
          (some ⟨(none : Option K), maxHeight⟩) (maxHeight + 0) :=
        .linked .clear none maxHeight maxHeight maxHeight (by decide) le_rfl le_rfl le_rfl le_rfl
          (show 0 < maxHeight by decide) (absurd rfl)
      simpa [World.LifeOf, World.init, Heap.init] using hlife
    · have hlife : Life x (T := T) (K := K) .absent .clear 0 0 none 0 := .absent 0
      simpa [World.LifeOf, World.init, Heap.init, hx] using hlife
  head_node := by simp [World.init, Heap.init]
  head_top := by simp [World.init]
  retired x := ⟨nofun, nofun⟩
  nodup := List.nodup_nil
  fresh x hx := by
    have hne : x ≠ head := by
      rintro rfl
      exact absurd hx (show ¬head + 1 ≤ head by decide)
    simp [World.init, hne]

omit [DecidableEq T] in
lemma members_init {x : NodePtr} {nLevel : Nat} :
    x ∈ (World.init : World T K).members nLevel ↔ x = head ∧ nLevel < maxHeight := by
  unfold World.members World.init
  by_cases hx : x = head
  · subst hx
    simp
  · simp [hx]

variable [LinearOrder K]

omit [DecidableEq T] in
lemma inv_init : Inv (World.init : World T K) where
  lives := lives_init
  shape :=
    { head_unmarked := fun _ => rfl
      sorted := fun nLevel =>
        { link := nofun
          skip := fun r c hr hc hlt => by
            rw [(members_init.mp hr).1, (members_init.mp hc).1] at hlt
            exact absurd hlt (lt_irrefl _)
          inj := fun r c hr hc _ => (members_init.mp hr).1.trans (members_init.mp hc).1.symm }
      unmarked := fun _ _ h _ => h
      height_pos := show 0 < minHeight by decide
      height_le := show minHeight ≤ maxHeight by decide }
  stands :=
    { set := fun v => by
        refine ⟨fun h => absurd h (Finset.notMem_empty v), ?_⟩
        rintro ⟨x, hx, hrank⟩
        have hmem : x ∈ (World.init : World T K).members 0 := hx
        obtain rfl := (members_init.mp hmem).1
        rw [lives_init.rank_head] at hrank
        exact absurd hrank WithBot.bot_ne_coe
      erasing := nofun
      eraser := nofun
      sole := nofun }

lemma Inv.become (h : Inv w) (herasing : w.erasing t = none) (o : Option (Op K)) (q : Progress) :
    Inv (w.become t o q) where
  lives := h.lives.frame _ _ _ _ _ _
  shape := h.shape.frame _ _ _ _ _ _ _ _ _
  stands :=
    { set := h.stands.set
      erasing := fun u x hx => by
        obtain ⟨htop, hmark, htodo, v, hop, hrank⟩ := h.stands.erasing u x hx
        have hu : u ≠ t := by
          rintro rfl
          cases herasing.symm.trans hx
        exact ⟨htop, hmark, (Function.update_of_ne hu _ _).trans htodo, v,
          (Function.update_of_ne hu _ _).trans hop, hrank⟩
      eraser := h.stands.eraser
      sole := h.stands.sole }

omit [LinearOrder K] in
lemma rely_become {u : T} (hu : u ≠ t) (o : Option (Op K)) (q : Progress) :
    Rely u w (w.become t o q) :=
  { RelyBut.refl u ∅ w with
    op := Function.update_of_ne hu _ _
    status := .inl ⟨Function.update_of_ne hu _ _, rfl⟩ }

/-! ## Threads and worlds -/

/-- What is left of the operation of a thread, if it runs one. -/
def rest : Option (Running K) → SkipM K (Option Bool)
  | none => .pure none
  | some p => p.rest

/-- What a thread leaves behind at the end of its operation. -/
def Leaves (t : T) : Option (Running K) → Option Bool → World T K → Prop
  | none, _, w => Idle t w
  | some _, r, w => Ended t r w

structure Follows (s : System T K) (w : World T K) : Prop where
  heap : w.heap = s.heap
  inv : Inv w
  op : ∀ t p, s.procs t = some p → w.op t = some p.op
  secures : ∀ t, Secures t (Leaves t (s.procs t)) (rest (s.procs t)) w

omit [DecidableEq T] [LinearOrder K] in
lemma Idle.rely (h : Idle t w) {w' : World T K} (hrely : Rely t w w') : Idle t w' where
  free := h.free.rely hrely
  erasing := by
    rcases hrely.status with ⟨_, heq⟩ | ⟨x, hx, _⟩
    · exact heq.trans h.erasing
    · cases h.erasing.symm.trans hx
  op := hrely.op.trans h.op

omit [DecidableEq T] [LinearOrder K] in
lemma Ended.rely {r : Option Bool} (h : Ended t r w) {w' : World T K} (hrely : Rely t w w') :
    Ended t r w' := by
  cases r with
  | none => trivial
  | some b =>
    obtain ⟨hfree, herasing, hstatus⟩ := h
    rcases hrely.status with ⟨hsame, heq⟩ | ⟨x, hx, _⟩
    · exact ⟨hfree.rely hrely, heq.trans herasing, by rwa [hsame]⟩
    · cases herasing.symm.trans hx

omit [DecidableEq T] [LinearOrder K] in
lemma Leaves.rely {p : Option (Running K)} {r : Option Bool} (h : Leaves t p r w)
    {w' : World T K} (hrely : Rely t w w') : Leaves t p r w' := by
  cases p with
  | none => exact Idle.rely h hrely
  | some p => exact Ended.rely h hrely

namespace Follows

lemma idle (h : Follows s w) (ht : s.procs t = none) : Idle t w := by
  have hsecures := h.secures t
  rw [ht] at hsecures
  exact hsecures

lemma running (h : Follows s w) {p : Running K} (ht : s.procs t = some p) :
    Secures t (Ended t) p.rest w := by
  have hsecures := h.secures t
  rw [ht] at hsecures
  exact hsecures

lemma init : Follows (System.init : System T K) World.init where
  heap := rfl
  inv := inv_init
  op := nofun
  secures t := ⟨⟨fun x _ => by
    unfold World.init
    by_cases hx : x = head
    · subst hx
      simp [Phase.Of]
    · simp [hx, Phase.Of], fun _ _ => id⟩, rfl, rfl⟩

/-- What a thread other than `t` knows, when `t` begins or ends an operation. -/
lemma secures_other (h : Follows s w) {u : T} (hu : u ≠ t) (p : Option (Running K))
    (o : Option (Op K)) (q : Progress) :
    Secures u (Leaves u (Function.update s.procs t p u)) (rest (Function.update s.procs t p u))
      (w.become t o q) := by
  rw [Function.update_of_ne hu]
  have hrely := rely_become (w := w) hu o q
  exact (h.secures u).stable hrely fun _ hleaves => hleaves.rely hrely

lemma call (h : Follows s w) (ht : s.procs t = none) (op : Op K) (fuel : Nat) (id nextId : Nat)
    (history : List (Entry K)) :
    Follows { s with
      procs := Function.update s.procs t (some ⟨id, op, op.run fuel⟩)
      history, nextId } (w.become t (some op) .todo) where
  heap := h.heap
  inv := h.inv.become (h.idle ht).erasing _ _
  op u p hp := by
    by_cases hu : u = t
    · subst hu
      have hp' : Function.update s.procs u (some ⟨id, op, op.run fuel⟩) u = some p := hp
      rw [Function.update_self] at hp'
      cases hp'
      exact Function.update_self ..
    · have hp' : Function.update s.procs t (some ⟨id, op, op.run fuel⟩) u = some p := hp
      rw [Function.update_of_ne hu] at hp'
      exact (Function.update_of_ne hu _ _).trans (h.op u p hp')
  secures u := by
    by_cases hu : u = t
    · subst hu
      have hidle := h.idle ht
      have hfree : Free u ∅ (w.become u (some op) .todo) := ⟨hidle.free.phase, hidle.free.debt⟩
      have hrooted : Rooted (w.become u (some op) .todo) :=
        ⟨h.inv.rooted.ever, h.inv.rooted.rank⟩
      have hpending : Pending u op (w.become u (some op) .todo) :=
        ⟨Function.update_self .., Function.update_self .., hidle.erasing⟩
      dsimp only
      rw [Function.update_self]
      cases op with
      | insert val random => exact secures_insert hrooted hfree hpending
      | erase val => exact secures_erase hrooted hfree hpending
      | contains val => exact secures_contains hrooted hpending hfree
    · exact h.secures_other hu _ _ _

lemma ret (h : Follows s w) {id : Nat} {op : Op K} {r : Bool}
    (ht : s.procs t = some ⟨id, op, .pure (some r)⟩) (nextId : Nat) (history : List (Entry K)) :
    Follows { s with procs := Function.update s.procs t none, history, nextId }
      (w.become t none .todo) := by
  have hended : Ended t (some r) w := h.running ht
  obtain ⟨hfree, herasing, _⟩ := hended
  exact
    { heap := h.heap
      inv := h.inv.become herasing _ _
      op := fun u p hp => by
        have hp' : Function.update s.procs t none u = some p := hp
        by_cases hu : u = t
        · subst hu
          rw [Function.update_self] at hp'
          cases hp'
        · rw [Function.update_of_ne hu] at hp'
          exact (Function.update_of_ne hu _ _).trans (h.op u p hp')
      secures := fun u => by
        by_cases hu : u = t
        · subst hu
          dsimp only
          rw [Function.update_self]
          exact ⟨⟨hfree.phase, hfree.debt⟩, herasing, Function.update_self ..⟩
        · exact h.secures_other hu _ _ _ }

lemma access (h : Follows s w) {id : Nat} {op : Op K} {c : Access K}
    {k : c.Res → SkipM K (Option Bool)} (ht : s.procs t = some ⟨id, op, .call c k⟩) :
    ∃ r w', s.heap.exec c = some (r, w'.heap) ∧ Move t c w w' ∧
      ∀ nextId history, Follows { s with
        heap := w'.heap
        procs := Function.update s.procs t (some ⟨id, op, k r⟩)
        history, nextId } w' := by
  have hthread : rest (s.procs t) = .call c k := by rw [ht]; rfl
  obtain ⟨r, w', hexec, hinv', hmove, hsecures⟩ := Protocol.step h.inv h.secures
    (fun u a w₁ w₂ hrely hleaves => Leaves.rely hleaves hrely) hthread
  rw [← h.heap]
  refine ⟨r, w', hexec, hmove, fun nextId history => ⟨rfl, hinv', fun u p hp => ?_, fun u => ?_⟩⟩
  · have hp' : Function.update s.procs t (some ⟨id, op, k r⟩) u = some p := hp
    have hop : w'.op u = w.op u := congrFun hmove.op u
    by_cases hu : u = t
    · subst hu
      rw [Function.update_self] at hp'
      cases hp'
      have hold : w.op u = some op := h.op u _ ht
      exact hop.trans hold
    · rw [Function.update_of_ne hu] at hp'
      exact hop.trans (h.op u p hp')
  · have hu' := hsecures u
    by_cases hu : u = t
    · subst hu
      dsimp only at hu' ⊢
      rw [Function.update_self, ht] at hu'
      rw [Function.update_self]
      exact hu'
    · dsimp only at hu' ⊢
      rw [Function.update_of_ne hu] at hu'
      rw [Function.update_of_ne hu]
      exact hu'

end Follows

/-! ## Histories -/

def Entry.id : Entry K → Nat
  | call id _ | ret id _ | contention id => id

def lost (history : List (Entry K)) (id : Nat) : Bool := decide (.contention id ∈ history)

/-- An entry as an action; a lost erase does not count as returned. -/
def Entry.action? (lost : Nat → Bool) : Entry K → Option (Action (Nat × Op K) Nat Bool)
  | call id op => some (.call (id, op))
  | ret id r => if lost id then none else some (.ret id r)
  | contention _ => none

/-- The calls and returns of a history, without the returns of lost erases. -/
def settled (history : List (Entry K)) : List (Action (Nat × Op K) Nat Bool) :=
  history.filterMap (Entry.action? (lost history))

section Settled

variable {history : List (Entry K)} {id : Nat} {op : Op K} {r : Bool}

omit [LinearOrder K] in
lemma mem_concat_iff {e e' : Entry K} (hne : e ≠ e') : e ∈ history ++ [e'] ↔ e ∈ history := by
  rw [List.mem_append, List.mem_singleton]
  exact or_iff_left hne

omit [LinearOrder K] in
lemma mem_of_mem_concat {e e' : Entry K} (h : e ∈ history ++ [e']) (hne : e ≠ e') : e ∈ history :=
  (mem_concat_iff hne).mp h

lemma lost_append {e : Entry K} (he : ∀ id, e ≠ .contention id) :
    lost (history ++ [e]) = lost history := by
  funext id
  exact decide_eq_decide.mpr (mem_concat_iff (he id).symm)

lemma settled_append {e : Entry K} (he : ∀ id, e ≠ .contention id) :
    settled (history ++ [e]) = settled history ++ (e.action? (lost history)).toList := by
  unfold settled
  rw [lost_append he, List.filterMap_append]
  refine congrArg _ ?_
  cases haction : e.action? (lost history) <;> simp [haction]

lemma settled_call : settled (history ++ [.call id op]) = settled history ++ [.call (id, op)] :=
  settled_append nofun

lemma settled_ret (h : .contention id ∉ history) :
    settled (history ++ [.ret id r]) = settled history ++ [.ret id r] := by
  rw [settled_append (e := .ret id r) nofun]
  simp [Entry.action?, lost, h]

lemma settled_ret_of_contention (h : .contention id ∈ history) :
    settled (history ++ [.ret id r]) = settled history := by
  rw [settled_append (e := .ret id r) nofun]
  simp [Entry.action?, lost, h]

lemma settled_contention (h : ∀ r, .ret id r ∉ history) :
    settled (history ++ [.contention id]) = settled history := by
  unfold settled
  rw [List.filterMap_append]
  have hlast : List.filterMap (Entry.action? (lost (history ++ [.contention id])))
      [(.contention id : Entry K)] = [] := rfl
  rw [hlast, List.append_nil]
  refine List.filterMap_congr fun x hx => ?_
  cases x with
  | call | contention => rfl
  | ret id' r =>
    have hne : id' ≠ id := by
      rintro rfl
      exact h r hx
    simp [Entry.action?, lost, hne]

lemma mem_settled_call : .call (id, op) ∈ settled history ↔ .call id op ∈ history := by
  unfold settled
  rw [List.mem_filterMap]
  constructor
  · rintro ⟨x, hx, heq⟩
    cases x with
    | call id' op' =>
      cases heq
      exact hx
    | ret id' r =>
      unfold Entry.action? at heq
      by_cases hlost : lost history id' = true <;> simp [hlost] at heq
    | contention => cases heq
  · intro hmem
    exact ⟨_, hmem, rfl⟩

end Settled

/-! ## Runs -/

/-- What the order of effects and the history show of a running operation. -/
def Shows (order : List ((Nat × Op K) × Bool)) (history : List (Entry K)) (p : Running K) :
    Progress → Prop
  | .todo => p.id ∉ order.map (fun x => x.1.1) ∧ .contention p.id ∉ history
  | .done r => ((p.id, p.op), r) ∈ order ∧ .contention p.id ∉ history
  | .lost => .contention p.id ∈ history

/-- An operation that has reported contention: an erase that never takes effect, and that returns
`false` if it returns. -/
structure Forgone (history : List (Entry K)) (order : List ((Nat × Op K) × Bool)) (id : Nat) :
    Prop where
  erase : ∃ v : K, ∀ op, .call id op ∈ history ↔ op = .erase v
  never : id ∉ order.map fun x => x.1.1
  returned : ∀ r, .ret id r ∈ history → r = false

namespace Forgone

omit [LinearOrder K]

variable {history : List (Entry K)} {order : List ((Nat × Op K) × Bool)} {id : Nat}

lemma append (h : Forgone history order id) {e : Entry K}
    (he : e.id = id → e = .ret id false ∨ e = .contention id) :
    Forgone (history ++ [e]) order id where
  erase := by
    obtain ⟨v, hv⟩ := h.erase
    refine ⟨v, fun op => ?_⟩
    rw [← hv op]
    refine mem_concat_iff ?_
    rintro rfl
    rcases he rfl with heq | heq <;> cases heq
  never := h.never
  returned r hr := by
    rcases List.mem_append.mp hr with hold | hlast
    · exact h.returned r hold
    · obtain rfl := List.mem_singleton.mp hlast
      rcases he rfl with heq | heq <;> cases heq
      rfl

lemma concat (h : Forgone history order id) {x : (Nat × Op K) × Bool} (hx : id ≠ x.1.1) :
    Forgone history (order ++ [x]) id where
  erase := h.erase
  never := by simpa [hx] using h.never
  returned := h.returned

end Forgone

/-- The history of a state with a world. -/
structure Shown (s : System T K) (w : World T K) (order : List ((Nat × Op K) × Bool)) : Prop where
  linearizes : Linearizes Prod.fst (fun o => o.2.spec) ∅ (settled s.history) w.set order
  fresh : ∀ e ∈ s.history, e.id < s.nextId
  called : ∀ t p, s.procs t = some p → .call p.id p.op ∈ s.history
  once : ∀ id op op', .call id op ∈ s.history → .call id op' ∈ s.history → op = op'
  sole : ∀ t u p q, s.procs t = some p → s.procs u = some q → p.id = q.id → t = u
  unreturned : ∀ t p, s.procs t = some p → ∀ r, .ret p.id r ∉ s.history
  shows : ∀ t p, s.procs t = some p → Shows order s.history p (w.status t)
  forgone : ∀ id, .contention id ∈ s.history → Forgone s.history order id

namespace Shown

variable {order : List ((Nat × Op K) × Bool)}

omit [DecidableEq T] in
lemma not_mem (h : Shown s w order) {e : Entry K} (he : e.id = s.nextId) : e ∉ s.history := by
  intro hmem
  exact absurd (h.fresh e hmem) (by rw [he]; exact lt_irrefl _)

omit [LinearOrder K] in
lemma shows_append {history : List (Entry K)} {p : Running K} {q : Progress} {e : Entry K}
    (h : Shows order history p q) (he : e ≠ .contention p.id) :
    Shows order (history ++ [e]) p q := by
  have hmem : .contention p.id ∈ history ++ [e] ↔ .contention p.id ∈ history :=
    mem_concat_iff he.symm
  cases q with
  | todo => exact ⟨h.1, fun hin => h.2 (hmem.mp hin)⟩
  | done r => exact ⟨h.1, fun hin => h.2 (hmem.mp hin)⟩
  | lost => exact hmem.mpr h

omit [LinearOrder K] in
lemma shows_concat {history : List (Entry K)} {p : Running K} {q : Progress}
    {x : (Nat × Op K) × Bool} (h : Shows order history p q) (hx : p.id ≠ x.1.1) :
    Shows (order ++ [x]) history p q := by
  cases q with
  | todo => exact ⟨by simpa [hx] using h.1, h.2⟩
  | done r => exact ⟨List.mem_append_left _ h.1, h.2⟩
  | lost => exact h

omit [LinearOrder K] in
lemma shows_congr {history : List (Entry K)} {p p₀ : Running K} {q : Progress}
    (h : Shows order history p₀ q) (hid : p.id = p₀.id) (hop : p.op = p₀.op) :
    Shows order history p q := by
  obtain ⟨id, op, _⟩ := p
  cases hid
  cases hop
  cases q <;> exact h

omit [DecidableEq T] in
lemma init : Shown (System.init : System T K) World.init [] where
  linearizes := .nil ∅
  fresh := nofun
  called := nofun
  once := nofun
  sole := nofun
  unreturned := nofun
  shows := nofun
  forgone := nofun

lemma call (h : Shown s w order) (ht : s.procs t = none) (op : Op K) (fuel : Nat) :
    Shown { s with
      procs := Function.update s.procs t (some ⟨s.nextId, op, op.run fuel⟩)
      history := s.history ++ [.call s.nextId op]
      nextId := s.nextId + 1 } (w.become t (some op) .todo) order := by
  have hnew : s.nextId ∉ order.map fun x => x.1.1 := by
    intro hmem
    obtain ⟨x, hx, hid⟩ := List.mem_map.mp hmem
    have hcall := mem_settled_call.mp (h.linearizes.called x hx)
    exact h.not_mem (e := .call x.1.1 x.1.2) hid hcall
  have hold : ∀ u p, Function.update s.procs t (some ⟨s.nextId, op, op.run fuel⟩) u = some p →
      u = t ∧ p = ⟨s.nextId, op, op.run fuel⟩ ∨ u ≠ t ∧ s.procs u = some p ∧ p.id ≠ s.nextId := by
    intro u p hp
    by_cases hu : u = t
    · subst hu
      rw [Function.update_self] at hp
      exact .inl ⟨rfl, (Option.some.inj hp).symm⟩
    · rw [Function.update_of_ne hu] at hp
      refine .inr ⟨hu, hp, fun hid => ?_⟩
      exact h.not_mem (e := .call p.id p.op) hid (h.called u p hp)
  exact
    { linearizes := by
        rw [settled_call]
        refine h.linearizes.call fun hmem => hnew ?_
        obtain ⟨x, hx, heq⟩ := List.mem_map.mp hmem
        exact List.mem_map.mpr ⟨x, hx, congrArg Prod.fst heq⟩
      fresh := fun e he => by
        rcases List.mem_append.mp he with hmem | hlast
        · exact Nat.lt_succ_of_lt (h.fresh e hmem)
        · rw [List.mem_singleton.mp hlast]
          exact Nat.lt_succ_self _
      called := fun u p hp => by
        rcases hold u p hp with ⟨_, rfl⟩ | ⟨_, hp', _⟩
        · exact List.mem_append_right _ (List.mem_singleton.mpr rfl)
        · exact List.mem_append_left _ (h.called u p hp')
      once := fun id o o' ho ho' => by
        rcases List.mem_append.mp ho with ho | ho <;> rcases List.mem_append.mp ho' with ho' | ho'
        · exact h.once id o o' ho ho'
        · cases List.mem_singleton.mp ho'
          exact absurd ho (h.not_mem rfl)
        · cases List.mem_singleton.mp ho
          exact absurd ho' (h.not_mem rfl)
        · cases List.mem_singleton.mp ho
          cases List.mem_singleton.mp ho'
          rfl
      sole := fun u u' p q hp hq hid => by
        rcases hold u p hp with ⟨rfl, rfl⟩ | ⟨_, hp', hne⟩
        · rcases hold u' q hq with ⟨rfl, _⟩ | ⟨_, _, hne'⟩
          · rfl
          · exact absurd hid.symm hne'
        · rcases hold u' q hq with ⟨_, rfl⟩ | ⟨_, hq', _⟩
          · exact absurd hid hne
          · exact h.sole u u' p q hp' hq' hid
      unreturned := fun u p hp r hmem => by
        have hin : .ret p.id r ∈ s.history := mem_of_mem_concat hmem nofun
        rcases hold u p hp with ⟨_, rfl⟩ | ⟨_, hp', _⟩
        · exact h.not_mem rfl hin
        · exact h.unreturned u p hp' r hin
      shows := fun u p hp => by
        rcases hold u p hp with ⟨rfl, rfl⟩ | ⟨hu, hp', _⟩
        · have hstatus : (w.become u (some op) .todo).status u = .todo := Function.update_self ..
          rw [hstatus]
          exact ⟨hnew, fun hmem => h.not_mem rfl (mem_of_mem_concat hmem nofun)⟩
        · have hstatus : (w.become t (some op) .todo).status u = w.status u :=
            Function.update_of_ne hu _ _
          rw [hstatus]
          exact shows_append (h.shows u p hp') nofun
      forgone := fun id hid => by
        have hin : .contention id ∈ s.history := mem_of_mem_concat hid nofun
        refine (h.forgone id hin).append fun hnext => ?_
        exact absurd hin (h.not_mem hnext.symm) }

lemma ret (h : Shown s w order) {id : Nat} {op : Op K} {r : Bool}
    (ht : s.procs t = some ⟨id, op, .pure (some r)⟩) (hended : Ended t (some r) w) :
    Shown { s with
      procs := Function.update s.procs t none
      history := s.history ++ [.ret id r] } (w.become t none .todo) order := by
  have hold : ∀ u p, Function.update s.procs t none u = some p → u ≠ t ∧ s.procs u = some p := by
    intro u p hp
    by_cases hu : u = t
    · subst hu
      rw [Function.update_self] at hp
      cases hp
    · rw [Function.update_of_ne hu] at hp
      exact ⟨hu, hp⟩
  have hshows := h.shows t _ ht
  exact
    { linearizes := by
        obtain ⟨_, _, hdone | ⟨hlost, rfl⟩⟩ := hended
        · rw [hdone] at hshows
          obtain ⟨hmem, hno⟩ := hshows
          rw [settled_ret hno]
          exact Linearizes.ret h.linearizes hmem
        · rw [hlost] at hshows
          rw [settled_ret_of_contention hshows]
          exact h.linearizes
      fresh := fun e he => by
        rcases List.mem_append.mp he with hmem | hlast
        · exact h.fresh e hmem
        · rw [List.mem_singleton.mp hlast]
          exact h.fresh (.call id op) (h.called t _ ht)
      called := fun u p hp => List.mem_append_left _ (h.called u p (hold u p hp).2)
      once := fun id' o o' ho ho' => by
        have hin : .call id' o ∈ s.history := mem_of_mem_concat ho nofun
        have hin' : .call id' o' ∈ s.history := mem_of_mem_concat ho' nofun
        exact h.once id' o o' hin hin'
      sole := fun u u' p q hp hq => h.sole u u' p q (hold u p hp).2 (hold u' q hq).2
      unreturned := fun u p hp r' hmem => by
        obtain ⟨hu, hp'⟩ := hold u p hp
        rcases List.mem_append.mp hmem with hmem | hlast
        · exact h.unreturned u p hp' r' hmem
        · have hid : p.id = id := by
            cases List.mem_singleton.mp hlast
            rfl
          exact hu (h.sole u t p _ hp' ht hid)
      shows := fun u p hp => by
        obtain ⟨hu, hp'⟩ := hold u p hp
        have hstatus : (w.become t none .todo).status u = w.status u :=
          Function.update_of_ne hu _ _
        rw [hstatus]
        exact shows_append (h.shows u p hp') nofun
      forgone := fun id' hid' => by
        have hin : .contention id' ∈ s.history := mem_of_mem_concat hid' nofun
        refine (h.forgone id' hin).append ?_
        rintro rfl
        obtain ⟨_, _, hdone | ⟨_, rfl⟩⟩ := hended
        · rw [hdone] at hshows
          exact absurd hin hshows.2
        · exact .inl rfl }

omit [LinearOrder K] in
lemma entries_eq_nil {c : Access K} (hc : c ≠ .onEraseContention) (id : Nat) :
    c.entries id = [] := by
  cases c <;> first | rfl | exact absurd rfl hc

lemma access (h : Shown s w order) {id : Nat} {op : Op K} {c : Access K}
    {k : c.Res → SkipM K (Option Bool)} (ht : s.procs t = some ⟨id, op, .call c k⟩)
    {history : List (Entry K)} {w' : World T K} {order' : List ((Nat × Op K) × Bool)}
    (hlin : Linearizes Prod.fst (fun o => o.2.spec) ∅ (settled history) w'.set order')
    (hhistory : ∀ e, e ∈ history ↔ e ∈ s.history ∨ e ∈ c.entries id)
    (hshows : ∀ u p, s.procs u = some p → Shows order' history p (w'.status u))
    (hforgone : ∀ id', .contention id' ∈ history → Forgone history order' id') (r : c.Res)
    (heap : Heap K) :
    Shown { s with
      heap
      procs := Function.update s.procs t (some ⟨id, op, k r⟩)
      history } w' order' := by
  have hold : ∀ u p, Function.update s.procs t (some ⟨id, op, k r⟩) u = some p →
      ∃ p₀, s.procs u = some p₀ ∧ p.id = p₀.id ∧ p.op = p₀.op := by
    intro u p hp
    by_cases hu : u = t
    · subst hu
      rw [Function.update_self] at hp
      cases hp
      exact ⟨_, ht, rfl, rfl⟩
    · rw [Function.update_of_ne hu] at hp
      exact ⟨p, hp, rfl, rfl⟩
  exact
    { linearizes := hlin
      fresh := fun e he => by
        rcases (hhistory e).mp he with hmem | hlast
        · exact h.fresh e hmem
        · have hid : e.id = id := by
            cases c <;> simp only [Access.entries, List.mem_singleton, List.not_mem_nil] at hlast
            rw [hlast]
            rfl
          rw [hid]
          exact h.fresh (.call id op) (h.called t _ ht)
      called := fun u p hp => by
        obtain ⟨p₀, hp₀, hid, hop⟩ := hold u p hp
        rw [hid, hop]
        exact (hhistory _).mpr (.inl (h.called u p₀ hp₀))
      once := fun id' o o' ho ho' => by
        have hin : ∀ o, .call id' o ∈ history → .call id' o ∈ s.history := fun o ho =>
          ((hhistory _).mp ho).resolve_right fun hlast => by cases c <;> simp [Access.entries] at hlast
        exact h.once id' o o' (hin o ho) (hin o' ho')
      sole := fun u u' p q hp hq hid => by
        obtain ⟨p₀, hp₀, hpid, _⟩ := hold u p hp
        obtain ⟨q₀, hq₀, hqid, _⟩ := hold u' q hq
        exact h.sole u u' p₀ q₀ hp₀ hq₀ (hpid.symm.trans (hid.trans hqid))
      unreturned := fun u p hp r' hmem => by
        obtain ⟨p₀, hp₀, hid, _⟩ := hold u p hp
        rw [hid] at hmem
        rcases (hhistory _).mp hmem with hmem | hlast
        · exact h.unreturned u p₀ hp₀ r' hmem
        · cases c <;> simp [Access.entries] at hlast
      shows := fun u p hp => by
        obtain ⟨p₀, hp₀, hid, hop⟩ := hold u p hp
        exact shows_congr (hshows u p₀ hp₀) hid hop
      forgone := hforgone }

end Shown

/-- A reachable state has a world, and its history is in order. -/
def Good (s : System T K) : Prop := ∃ w order, Follows s w ∧ Shown s w order

lemma Good.access (h : Good s) {id : Nat} {op : Op K} {c : Access K}
    {k : c.Res → SkipM K (Option Bool)} (ht : s.procs t = some ⟨id, op, .call c k⟩) :
    ∃ r heap, s.heap.exec c = some (r, heap) ∧ Good { s with
      heap
      procs := Function.update s.procs t (some ⟨id, op, k r⟩)
      history := s.history ++ c.entries id } := by
  obtain ⟨w, order, hfollows, hshown⟩ := h
  obtain ⟨r, w', hexec, hmove, hfollows'⟩ := hfollows.access ht
  refine ⟨r, w'.heap, hexec, w', ?_⟩
  cases hmove.effect with
  | stay hc hset hstatus =>
    have hentries := Shown.entries_eq_nil hc id
    refine ⟨order, hfollows' _ _, hshown.access ht ?_ (fun e => by simp) (fun u p hp => ?_) ?_ r _⟩
    · rw [hentries, List.append_nil, hset]
      exact hshown.linearizes
    · rw [hentries, List.append_nil, hstatus]
      exact hshown.shows u p hp
    · rw [hentries, List.append_nil]
      exact hshown.forgone
  | effect hc u o hop htodo hset hstatus =>
    have hentries := Shown.entries_eq_nil hc id
    -- only a running operation can take effect
    obtain ⟨p, hp⟩ : ∃ p, s.procs u = some p := by
      cases hprocs : s.procs u with
      | none => cases (hfollows.idle hprocs).op.symm.trans hop
      | some p => exact ⟨p, rfl⟩
    obtain rfl : p.op = o := Option.some.inj ((hfollows.op u p hp).symm.trans hop)
    have hshows := hshown.shows u p hp
    rw [htodo] at hshows
    refine ⟨order ++ [((p.id, p.op), (p.op.spec w.set).1)], hfollows' _ _,
      hshown.access ht ?_ (fun e => by simp) (fun u' q hq => ?_) (fun id' hid' => ?_) r _⟩
    · rw [hentries, List.append_nil, hset]
      exact Linearizes.effect hshown.linearizes
        (mem_settled_call.mpr (hshown.called u p hp)) hshows.1
    · rw [hentries, List.append_nil, hstatus]
      by_cases hu : u' = u
      · subst hu
        obtain rfl : p = q := Option.some.inj (hp.symm.trans hq)
        rw [Function.update_self]
        exact ⟨by simp, hshows.2⟩
      · rw [Function.update_of_ne hu]
        refine Shown.shows_concat (hshown.shows u' q hq) fun hid => hu ?_
        exact hshown.sole u' u q p hq hp hid
    · rw [hentries, List.append_nil] at hid' ⊢
      refine (hshown.forgone id' hid').concat ?_
      rintro rfl
      exact hshows.2 hid'
  | lost hc v hop htodo hset hstatus =>
    subst hc
    have hop' : op = .erase v := Option.some.inj ((hfollows.op t _ ht).symm.trans hop)
    have hshows := hshown.shows t _ ht
    rw [htodo] at hshows
    refine ⟨order, hfollows' _ _, hshown.access ht ?_ (fun e => List.mem_append)
      (fun u p hp => ?_) (fun id' hid' => ?_) r _⟩
    · have hsettled := settled_contention (hshown.unreturned t _ ht)
      rw [hset]
      exact hsettled.symm ▸ hshown.linearizes
    · rw [hstatus]
      by_cases hu : u = t
      · subst hu
        obtain rfl := Option.some.inj (ht.symm.trans hp)
        rw [Function.update_self]
        exact List.mem_append_right _ (List.mem_singleton.mpr rfl)
      · rw [Function.update_of_ne hu]
        refine Shown.shows_append (hshown.shows u p hp) fun heq => hu ?_
        refine hshown.sole u t p _ hp ht ?_
        cases heq
        rfl
    · rcases List.mem_append.mp hid' with hold | hnew
      · refine (hshown.forgone id' hold).append ?_
        rintro rfl
        exact .inr rfl
      · cases List.mem_singleton.mp hnew
        have hcalled : .call id op ∈ s.history := hshown.called t _ ht
        exact
          { erase := by
              refine ⟨v, fun o => ⟨fun ho => ?_, ?_⟩⟩
              · have hin : .call id o ∈ s.history := mem_of_mem_concat ho nofun
                exact (hshown.once id o op hin hcalled).trans hop'
              · rintro rfl
                exact List.mem_append_left _ (hop' ▸ hcalled)
            never := hshows.1
            returned := fun r' hr' => by
              have hin : .ret id r' ∈ s.history := mem_of_mem_concat hr' nofun
              exact absurd hin (hshown.unreturned t _ ht r') }

theorem Good.step {l : Label T K} (h : Good s) (hstep : s.step l = some s') : Good s' := by
  cases l with
  | call t op fuel =>
    unfold System.step at hstep
    cases ht : s.procs t with
    | some p => simp [ht] at hstep
    | none =>
      simp only [ht] at hstep
      cases hstep
      obtain ⟨w, order, hfollows, hshown⟩ := h
      exact ⟨_, order, hfollows.call ht op fuel _ _ _, hshown.call ht op fuel⟩
  | step t =>
    unfold System.step at hstep
    cases ht : s.procs t with
    | none => simp [ht] at hstep
    | some p =>
      obtain ⟨id, op, ⟨_ | r⟩ | ⟨c, k⟩⟩ := p
      · simp [ht] at hstep
      · simp only [ht] at hstep
        cases hstep
        obtain ⟨w, order, hfollows, hshown⟩ := h
        exact ⟨_, order, hfollows.ret ht _ _, hshown.ret ht (hfollows.running ht)⟩
      · simp only [ht] at hstep
        obtain ⟨r, heap, hexec, hgood⟩ := h.access ht
        rw [hexec] at hstep
        cases hstep
        exact hgood

theorem good_of_run {ls : List (Label T K)}
    (hrun : Runs System.step anyStep System.init ls s) : Good s :=
  hrun.invariant (fun _ _ _ h _ hstep => h.step hstep) ⟨_, [], Follows.init, Shown.init⟩

end RedPar.SkipList
