import RedPar.Proofs.SkipListRuns

/-!
# What holds of the skip list in every run

The operations are linearizable, apart from the results of the erases that report contention; the
links are those of a skip list; no operation faults; and every node that has left the list is
retired once.
-/

namespace RedPar.SkipList
open Interleaved

/-- The nodes that the links of a level lead to from the head. -/
def Heap.Linked {K : Type} (h : Heap K) (nLevel : Nat) (x : NodePtr) : Prop :=
  Sorted.Reach (h.links nLevel) head x

variable {T K : Type} [DecidableEq T] [LinearOrder K] {w : World T K} {s : System T K}
  {ls : List (Label T K)} {nLevel : Nat} {x : NodePtr}

omit [DecidableEq T] in
/-- The members of a level are the nodes that its links lead to. -/
lemma Inv.linked_iff (h : Inv w) (hlt : nLevel < maxHeight) :
    w.heap.Linked nLevel x ↔ x ∈ w.members nLevel := by
  have hhead : head ∈ w.members nLevel := show nLevel < w.top head from h.lives.head_top.symm ▸ hlt
  have hfinite : (w.members nLevel).Finite := by
    refine (Set.finite_lt_nat w.heap.fresh).subset fun y hy => ?_
    by_contra hfresh
    have htop := (h.lives.of_absent (h.lives.fresh y (not_lt.mp hfresh))).2.1
    have hy' : nLevel < w.top y := hy
    omega
  refine ((h.shape.sorted nLevel).mem_iff_reach hfinite hhead fun c _ => ?_).symm
  rw [h.lives.rank_head]
  exact bot_le

/-- In every run, the operations that have taken effect form a sequential run over sets, from the
empty one to the values that are linked at level 0 now. It respects the order in which operations
return and are called, and all results that are returned are its results, except those of the
operations that reported contention: these are erases that take no effect and return `false`. -/
theorem set_linearizable (hrun : Runs System.step anyStep System.init ls s) :
    ∃ (set : Finset K) (order : List ((Nat × Op K) × Bool)),
      Linearizes Prod.fst (fun o => o.2.spec) ∅ (settled s.history) set order ∧
        (∀ v : K, v ∈ set ↔ ∃ x, s.heap.Linked 0 x ∧ s.heap.rank x = v) ∧
          ∀ id, .contention id ∈ s.history → Forgone s.history order id := by
  obtain ⟨w, order, hfollows, hshown⟩ := good_of_run hrun
  refine ⟨w.set, order, hshown.linearizes, fun v => ?_, hshown.forgone⟩
  rw [hfollows.inv.stands.set v, ← hfollows.heap]
  refine exists_congr fun x => and_congr_left fun _ => ?_
  exact (hfollows.inv.linked_iff (by decide)).symm

/-- The first steps of a run: a value is inserted, and two threads have found it to erase it. -/
def twoErases : List (Label Bool Nat) :=
  .call false (.insert 1 ⟨0, by decide⟩) 40 :: List.replicate 38 (.step false) ++
    .call false (.erase 1) 40 :: .call true (.erase 1) 40 :: List.replicate 34 (.step true)

/-- The second thread finds the value marked, and its erase is lost. -/
def lostErase : List (Label Bool Nat) :=
  twoErases ++ List.replicate 46 (.step false) ++ List.replicate 9 (.step true)

theorem set_linearizable_lost : ∃ s : System Bool Nat,
    s.history = [.call 0 (.insert 1 ⟨0, by decide⟩), .ret 0 true, .call 1 (.erase 1),
      .call 2 (.erase 1), .ret 1 true, .contention 2, .ret 2 false] ∧
    ∃ (set : Finset Nat) (order : List ((Nat × Op Nat) × Bool)),
      Linearizes Prod.fst (fun o => o.2.spec) ∅ (settled s.history) set order ∧
        (∀ v : Nat, v ∈ set ↔ ∃ x, s.heap.Linked 0 x ∧ s.heap.rank x = v) ∧
          ∀ id, .contention id ∈ s.history → Forgone s.history order id := by
  obtain ⟨s, hrun, hs⟩ : ∃ s, Runs System.step anyStep (System.init : System Bool Nat) lostErase s ∧
      decide (s.history = [.call 0 (.insert 1 ⟨0, by decide⟩), .ret 0 true, .call 1 (.erase 1),
        .call 2 (.erase 1), .ret 1 true, .contention 2, .ret 2 false]) = true :=
    Runs.exists_of_follow _ (by decide +kernel)
  exact ⟨s, of_decide_eq_true hs, set_linearizable hrun⟩

lemma erases_miss {l : List ((Nat × Op Nat) × Bool)} {s s' : Finset Nat}
    (h : Legal (fun o : Nat × Op Nat => o.2.spec) s l s') (hs : 1 ∉ s)
    (hops : ∀ x ∈ l, x.1.2 = .erase 1 ∨ x.1.2 = .contains 1) : ∀ x ∈ l, x.2 = false := by
  induction l generalizing s with
  | nil => exact nofun
  | cons y l ih =>
    obtain ⟨⟨id, op⟩, r⟩ := y
    obtain ⟨hr, hrest⟩ := h
    have hspec : (op.spec s).1 = false ∧ 1 ∉ (op.spec s).2 := by
      rcases hops _ List.mem_cons_self with rfl | rfl <;> simp [Op.spec, hs]
    intro x hx
    rcases List.mem_cons.mp hx with rfl | hx
    · exact hr.symm.trans hspec.1
    · exact ih hrest hspec.2 (fun x hx => hops x (List.mem_cons_of_mem _ hx)) x hx

/-- In a list without repetitions, what comes before an element is in front of it. -/
lemma mem_of_pair_sublist {a b : Nat} {l l' : List Nat} (hnodup : (l ++ b :: l').Nodup)
    (h : [a, b].Sublist (l ++ b :: l')) : a ∈ l := by
  obtain ⟨l₁, l₂, heq, h₁, h₂⟩ := List.sublist_append_iff.mp h
  have hb : b ∉ l' := (List.nodup_cons.mp (List.nodup_append.mp hnodup).2.1).1
  cases l₁ with
  | nil =>
    rw [List.nil_append] at heq
    subst heq
    have htail : [b].Sublist l' := by
      cases h₂ with
      | cons _ h₂ => exact (List.sublist_cons_self a [b]).trans h₂
      | cons_cons _ h₂ => exact h₂
    exact absurd (htail.subset List.mem_cons_self) hb
  | cons x l₁ =>
    obtain ⟨rfl, _⟩ := List.cons_eq_cons.mp heq
    exact h₁.subset List.mem_cons_self

/-- The returns of the lost erases are no results of any sequential run: the value may still be
found after such a return. -/
theorem lost_erases_count_not : ¬∀ (ls : List (Label Bool Nat)) (s : System Bool Nat),
    Runs System.step anyStep System.init ls s → ∃ (set : Finset Nat) (order : _),
      Linearizes Prod.fst (fun o : Nat × Op Nat => o.2.spec) ∅
        (s.history.filterMap (Entry.action? fun _ => false)) set order := by
  intro hall
  let labels := twoErases ++ List.replicate 41 (.step false) ++ List.replicate 9 (.step true) ++
    .call true (.contains 1) 40 :: List.replicate 8 (.step true)
  obtain ⟨s, hrun, hs⟩ : ∃ s, Runs System.step anyStep (System.init : System Bool Nat) labels s ∧
      decide (s.history = [.call 0 (.insert 1 ⟨0, by decide⟩), .ret 0 true, .call 1 (.erase 1),
        .call 2 (.erase 1), .contention 2, .ret 2 false, .call 3 (.contains 1), .ret 3 true]) =
        true :=
    Runs.exists_of_follow _ (by decide +kernel)
  obtain ⟨set, order, h⟩ := hall labels s hrun
  rw [of_decide_eq_true hs] at h
  have hops : ∀ x ∈ order, x.1 = (0, .insert 1 ⟨0, by decide⟩) ∨ x.1 = (1, .erase 1) ∨
      x.1 = (2, .erase 1) ∨ (3, .contains 1) = x.1 := fun x hx => by
    simpa [Entry.action?] using h.called x hx
  have hmem₂ : ((2, .erase 1), false) ∈ order := by
    obtain ⟨op, hkey, hmem⟩ := h.returned 2 false (by simp [Entry.action?])
    rcases hops _ hmem with rfl | rfl | rfl | rfl <;> first | exact hmem | cases hkey
  have hmem₃ : ((3, .contains 1), true) ∈ order := by
    obtain ⟨op, hkey, hmem⟩ := h.returned 3 true (by simp [Entry.action?])
    rcases hops _ hmem with rfl | rfl | rfl | rfl <;> first | exact hmem | cases hkey
  have h02 := h.realTime 0 true (2, .erase 1)
    (.cons _ (.cons_cons _ (.cons _ (.cons_cons _ (List.nil_sublist _)))))
    (List.mem_map_of_mem hmem₂)
  have h23 := h.realTime 2 false (3, .contains 1)
    (.cons _ (.cons _ (.cons _ (.cons _ (.cons_cons _ (.cons_cons _ (List.nil_sublist _)))))))
    (List.mem_map_of_mem hmem₃)
  have hnodup := h.nodup
  obtain ⟨l, l', rfl⟩ := List.append_of_mem hmem₂
  -- the insertion is before the lost erase, and the lookup behind it
  have h3 : ((3, .contains 1), true) ∈ l' := by
    rcases List.mem_append.mp hmem₃ with hin | hin
    · obtain ⟨m, m', rfl⟩ := List.append_of_mem hin
      simp only [List.append_assoc, List.cons_append, List.map_append, List.map_cons] at h23 hnodup
      have h2 := mem_of_pair_sublist hnodup h23
      have hdisjoint := (List.nodup_append.mp hnodup).2.2 2 h2 2 (by simp)
      exact absurd rfl hdisjoint
    · rcases List.mem_cons.mp hin with heq | hin
      · cases heq
      · exact hin
  simp only [List.map_append, List.map_cons] at h02 hnodup
  have h0 := mem_of_pair_sublist hnodup h02
  have hrest : ∀ x ∈ l', x.1.2 = .erase 1 ∨ x.1.2 = .contains 1 := by
    intro x hx
    rcases hops x (by simp [hx]) with heq | heq | heq | heq
    · have hkey : x.1.1 = 0 := by rw [heq]
      have hin : 0 ∈ (2 : Nat) :: l'.map fun x => x.1.1 :=
        List.mem_cons_of_mem _ (List.mem_map.mpr ⟨x, hx, hkey⟩)
      exact absurd rfl ((List.nodup_append.mp hnodup).2.2 0 h0 0 hin)
    · exact .inl (by rw [heq])
    · exact .inl (by rw [heq])
    · exact .inr (by rw [← heq])
  obtain ⟨s₁, _, hlast⟩ := h.legal.append
  obtain ⟨hmiss, hafter⟩ := hlast
  have hgone : 1 ∉ (Op.spec (.erase 1) s₁).2 := by simp [Op.spec]
  cases erases_miss hafter hgone hrest _ h3

/-- The links of a skip list: sorted at every level, each level a part of the one below, through
towers that exist and have not been retired. -/
structure WellLinked (h : Heap K) : Prop where
  tower : ∀ l x, l < maxHeight → h.Linked l x → x ∉ h.retired ∧
    ∃ n, h.node x = some n ∧ l < n.height ∧ n.height ≤ maxHeight ∧ (x ≠ head → n.value.isSome)
  below : ∀ l l' x, l ≤ l' → l' < maxHeight → h.Linked l' x → h.Linked l x
  ascending : ∀ l x c, l < maxHeight → h.Linked l x → h.links l x = some c → h.rank x < h.rank c
  distinct : ∀ x c, h.Linked 0 x → h.Linked 0 c → h.rank x = h.rank c → x = c
  height : 0 < h.nHeight ∧ h.nHeight ≤ maxHeight

/-- In every reachable state the list is well linked. -/
theorem well_linked (hrun : Runs System.step anyStep System.init ls s) : WellLinked s.heap := by
  obtain ⟨w, _, hfollows, _⟩ := good_of_run hrun
  have hinv := hfollows.inv
  rw [← hfollows.heap]
  exact
    { tower := fun l x hl hx => by
        have hmem := (hinv.linked_iff hl).mp hx
        have htop : l < w.top x := hmem
        have hle := hinv.lives.top_le x
        obtain ⟨n, hn, hever, hmax, hvalue⟩ := hinv.lives.tower (x := x) (by omega)
        refine ⟨fun hretired => ?_, n, hn, by omega, hmax, hvalue⟩
        have hdebt := (hinv.lives.retired x).mp hretired
        have hphase := hinv.lives.linked_of_debt (x := x) (by rw [hdebt]; nofun)
        obtain ⟨_, _, hfits, _⟩ := hinv.lives.of_linked hphase
        rw [hdebt] at hfits
        have hzero : w.top x = 0 := hfits
        omega
      below := fun l l' x hle hl' hx => by
        have hmem : l' < w.top x := (hinv.linked_iff hl').mp hx
        exact (hinv.linked_iff (hle.trans_lt hl')).mpr (show l < w.top x by omega)
      ascending := fun l x c hl hx hc =>
        ((hinv.shape.sorted l).link x c ((hinv.linked_iff hl).mp hx) hc).2
      distinct := fun x c hx hc heq => (hinv.shape.sorted 0).inj x c
        ((hinv.linked_iff (by decide)).mp hx) ((hinv.linked_iff (by decide)).mp hc) heq
      height := ⟨hinv.shape.height_pos, hinv.shape.height_le⟩ }

theorem well_linked_found : ∃ s : System Bool Nat, s.heap.links 0 head = some 1 ∧
    WellLinked s.heap := by
  obtain ⟨s, hrun, hs⟩ : ∃ s, Runs System.step anyStep (System.init : System Bool Nat) twoErases s ∧
      decide (s.heap.links 0 head = some 1) = true := Runs.exists_of_follow _ (by decide +kernel)
  exact ⟨s, of_decide_eq_true hs, well_linked hrun⟩

/-- In every reachable state a thread is only stuck if it runs no operation or is out of fuel: no
access is past a tower or to a deleted node, no assertion fails, no counter becomes negative and
no node is retired twice. -/
theorem never_stuck (hrun : Runs System.step anyStep System.init ls s) (t : T) :
    s.step (.step t) = none ↔
      s.procs t = none ∨ ∃ p, s.procs t = some p ∧ p.rest = .pure none := by
  have hgood := good_of_run hrun
  unfold System.step
  cases ht : s.procs t with
  | none => simp [ht]
  | some p =>
    obtain ⟨id, op, ⟨_ | r⟩ | ⟨c, k⟩⟩ := p
    · simp [ht]
    · simp [ht]
    · obtain ⟨r, heap, hexec, _⟩ := hgood.access ht
      simp [ht, hexec]

theorem never_stuck_found : ∃ s : System Bool Nat, (s.procs true).isSome = true ∧
    (s.step (.step true) = none ↔
      s.procs true = none ∨ ∃ p, s.procs true = some p ∧ p.rest = .pure none) := by
  obtain ⟨s, hrun, hs⟩ : ∃ s, Runs System.step anyStep (System.init : System Bool Nat) twoErases s ∧
      (s.procs true).isSome = true := Runs.exists_of_follow _ (by decide +kernel)
  exact ⟨s, hs, never_stuck hrun true⟩

/-- Where the nodes are when no operation runs: in the list, linked unmarked at as many levels as
`m_nUnlink` says, or retired. -/
def Accounted (h : Heap K) : Prop :=
  ∀ x, x ≠ head → (h.node x).isSome →
    (x ∉ h.retired ∧ h.Linked 0 x ∧ (h.next x 0).bits = false ∧
      ∀ l < maxHeight, h.Linked l x ↔ l < h.unlink x) ∨
    (x ∈ h.retired ∧ h.unlink x = 0 ∧ ∀ l < maxHeight, ¬h.Linked l x)

/-- In every reachable state no node has been retired twice, and a retired node is linked at no
level. When no operation runs, every node that exists is in the list or has been retired. -/
theorem nodes_accounted (hrun : Runs System.step anyStep System.init ls s) :
    s.heap.retired.Nodup ∧ (∀ x ∈ s.heap.retired, ∀ l < maxHeight, ¬s.heap.Linked l x) ∧
      ((∀ t, s.procs t = none) → Accounted s.heap) := by
  obtain ⟨w, _, hfollows, _⟩ := good_of_run hrun
  have hinv := hfollows.inv
  have hretired : ∀ x ∈ w.heap.retired, w.top x = 0 ∧ w.heap.unlink x = 0 := by
    intro x hx
    have hdebt := (hinv.lives.retired x).mp hx
    have hphase := hinv.lives.linked_of_debt (x := x) (by rw [hdebt]; nofun)
    obtain ⟨_, hunlink, hfits, _⟩ := hinv.lives.of_linked hphase
    rw [hdebt] at hfits hunlink
    have hzero : w.top x = 0 := hfits
    exact ⟨hzero, by rw [hunlink, hzero]; rfl⟩
  have hnowhere : ∀ x ∈ w.heap.retired, ∀ l < maxHeight, ¬w.heap.Linked l x := by
    intro x hx l hl hlinked
    have hmem : l < w.top x := (hinv.linked_iff hl).mp hlinked
    have hzero := (hretired x hx).1
    omega
  rw [← hfollows.heap]
  refine ⟨hinv.lives.nodup, hnowhere, fun hquiet x hne hnode => ?_⟩
  have hidle : ∀ t, Idle t w := fun t => hfollows.idle (hquiet t)
  have hphase : w.phase x = .linked := by
    cases hphase : w.phase x with
    | absent =>
      rw [(hinv.lives.of_absent hphase).2.2.2] at hnode
      cases hnode
    | built t | linking t =>
      exact absurd (by rw [hphase]; rfl) ((hidle t).free.phase x (Set.notMem_empty x))
    | linked => rfl
  obtain ⟨_, hunlink, hfits, _⟩ := hinv.lives.of_linked hphase
  cases hdebt : w.debt x with
  | clear =>
    rw [hdebt] at hunlink hfits
    have hpos : 0 < w.top x := hfits
    have hcount : w.heap.unlink x = w.top x := hunlink
    refine .inl ⟨fun hx => ?_, (hinv.linked_iff (by decide)).mpr hpos, ?_, fun l hl => ?_⟩
    · have hzero := (hretired x hx).1
      omega
    · by_contra hmark
      obtain ⟨t, ht⟩ := hinv.stands.eraser x hpos (eq_true_of_ne_false hmark)
      cases (hidle t).erasing.symm.trans ht
    · rw [hinv.linked_iff hl, hcount]
      exact Iff.rfl
  | unlinking t | unlinked t =>
    exact absurd (by rw [hdebt]; rfl) ((hidle t).free.debt x (Set.notMem_empty x))
  | retired =>
    have hx := (hinv.lives.retired x).mpr hdebt
    exact .inr ⟨hx, (hretired x hx).2, hnowhere x hx⟩

theorem nodes_accounted_lost : ∃ s : System Bool Nat, s.heap.retired = [1] ∧ s.heap.retired.Nodup ∧
    (∀ x ∈ s.heap.retired, ∀ l < maxHeight, ¬s.heap.Linked l x) ∧ Accounted s.heap := by
  obtain ⟨s, hrun, hs⟩ : ∃ s, Runs System.step anyStep (System.init : System Bool Nat) lostErase s ∧
      decide (s.heap.retired = [1] ∧ s.procs false = none ∧ s.procs true = none) = true :=
    Runs.exists_of_follow _ (by decide +kernel)
  obtain ⟨hretired, hfalse, htrue⟩ := of_decide_eq_true hs
  obtain ⟨hnodup, hnowhere, haccounted⟩ := nodes_accounted hrun
  exact ⟨s, hretired, hnodup, hnowhere, haccounted (Bool.forall_bool.mpr ⟨hfalse, htrue⟩)⟩

end RedPar.SkipList
