import RedPar.Proofs.SkipListErase

/-!
# Lookup in the skip list

The fast path of `contains` follows the links without writing. It answers from the last link that
it has loaded, and takes effect at that load.
-/

namespace RedPar.SkipList
open Interleaved

variable {T K : Type} [DecidableEq T] [LinearOrder K] {t : T} {w w₁ w' : World T K} {val : K}
  {nLevel fuel : Nat} {pPred : NodePtr}

/-- What the fast path knows when it has passed a level: at the bottom the key is missing. -/
def Passed (t : T) (w : World T K) (nLevels : Nat) (w' : World T K) : Prop :=
  if nLevels = 0 then Settled t false w w' else Rely t w w'

omit [LinearOrder K] in
lemma Passed.rely {nLevels : Nat} (h : Passed t w nLevels w₁) (hrely : Rely t w₁ w') :
    Passed t w nLevels w' := by
  unfold Passed at h ⊢
  by_cases hzero : nLevels = 0
  · rw [if_pos hzero] at h ⊢
    exact Settled.rely h hrely
  · rw [if_neg hzero] at h ⊢
    exact RelyBut.trans h hrely

/-- What the fast path knows of a link that it has loaded. -/
structure Loaded (t : T) (w : World T K) (val : K) (nLevel : Nat) (link : MarkedPtr)
    (w' : World T K) : Prop where
  marked : link.bits = true → Rely t w w'
  cur : link.bits = false → ∀ c, link.ptr = some c → nLevel < w'.ever c ∧ c ≠ head
  before : link.bits = false → ∀ c, link.ptr = some c → w'.heap.rank c < val → Rely t w w'
  equal : link.bits = false → ∀ c, link.ptr = some c → w'.heap.rank c = val → Settled t true w w'
  behind : link.bits = false →
    (∀ c, link.ptr = some c → (val : WithBot K) < w'.heap.rank c) → Passed t w nLevel w'

lemma Loaded.rely {link : MarkedPtr} (h : Loaded t w val nLevel link w₁) (hrely : Rely t w₁ w') :
    Loaded t w val nLevel link w' := by
  have hrank : link.bits = false → ∀ c, link.ptr = some c → w'.heap.rank c = w₁.heap.rank c :=
    fun hbits c hc => hrely.rank (Nat.zero_lt_of_lt (h.cur hbits c hc).1)
  exact
    { marked := fun hbits => (h.marked hbits).trans hrely
      cur := fun hbits c hc =>
        ⟨(h.cur hbits c hc).1.trans_le (hrely.ever c), (h.cur hbits c hc).2⟩
      before := fun hbits c hc hlt => (h.before hbits c hc (hrank hbits c hc ▸ hlt)).trans hrely
      equal := fun hbits c hc heq => (h.equal hbits c hc (hrank hbits c hc ▸ heq)).rely hrely
      behind := fun hbits hall =>
        (h.behind hbits fun c hc => hrank hbits c hc ▸ hall c hc).rely hrely }

/-- A lookup takes effect at the load that shows its result. -/
lemma secures_fastLoad {α : Type} {final : α → World T K → Prop} {k : MarkedPtr → SkipM K α}
    (hpending : Pending t (.contains val) w) (hrely : Rely t w w') (hpred : nLevel < w'.ever pPred)
    (hlt : w'.heap.rank pPred < val) (h : ∀ link w₂, Loaded t w val nLevel link w₂ →
      nLevel < w₂.ever pPred → w₂.heap.rank pPred < val → Secures t final (k link) w₂) :
    Secures t final (load pPred nLevel >>= k) w' := by
  refine secures_load hpred fun w₁ hinv₁ h₁ => ?_
  have h₀₁ := hrely.trans h₁
  have hpred₁ := hpred.trans_le (h₁.ever pPred)
  have hlt₁ : w₁.heap.rank pPred < val := by rwa [h₁.rank (Nat.zero_lt_of_lt hpred)]
  by_cases hbits : (w₁.heap.next pPred nLevel).bits = true
  · have hmarked : (w₁.heap.next pPred nLevel).bits ≠ false := by rw [hbits]; nofun
    exact ⟨w₁, .not, h _ w₁ ⟨fun _ => h₀₁, fun h => absurd h hmarked, fun h => absurd h hmarked,
      fun h => absurd h hmarked, fun h => absurd h hmarked⟩ hpred₁ hlt₁⟩
  have hunmarked := eq_false_of_ne_true hbits
  have hmem : ∀ c, (w₁.heap.next pPred nLevel).ptr = some c → c ∈ w₁.members nLevel ∧
      w₁.heap.rank pPred < w₁.heap.rank c := by
    intro c hc
    refine hinv₁.next_member hpred₁ ?_
    rw [MarkedPtr.of, ← hc, ← hunmarked]
  have hcur : ∀ c, (w₁.heap.next pPred nLevel).ptr = some c → nLevel < w₁.ever c ∧ c ≠ head := by
    intro c hc
    obtain ⟨hc, hrank⟩ := hmem c hc
    refine ⟨Nat.lt_of_lt_of_le hc (hinv₁.lives.top_le c), ?_⟩
    rintro rfl
    rw [hinv₁.lives.rank_head] at hrank
    exact not_lt_bot hrank
  by_cases hequal : ∃ c, (w₁.heap.next pPred nLevel).ptr = some c ∧ w₁.heap.rank c = val
  · obtain ⟨c, hc, heq⟩ := hequal
    have hset : val ∈ w₁.set := hinv₁.mem_set (hmem c hc).1 heq
    obtain ⟨w₂, hsettles, hsettled⟩ := hpending.settles (r := true) h₀₁ (by simp [Op.spec, hset])
    have hsame : ∀ c', (w₁.heap.next pPred nLevel).ptr = some c' → w₂.heap.rank c' = val := by
      intro c' hc'
      cases hc.symm.trans hc'
      rw [hsettles.heap, heq]
    refine ⟨w₂, hsettles, h _ w₂ ⟨fun hbits' => absurd hbits' hbits, fun _ c' hc' => ?_,
      fun _ c' hc' hlt' => ?_, fun _ _ _ _ => hsettled, fun _ hall => ?_⟩ ?_ ?_⟩
    · rw [hsettles.ever]
      exact hcur c' hc'
    · exact absurd (hsame c' hc') hlt'.ne
    · exact absurd (hsame c hc) (hall c hc).ne'
    · rwa [hsettles.ever]
    · rwa [hsettles.heap]
  · by_cases hbehind : nLevel = 0 ∧ ∀ c, (w₁.heap.next pPred nLevel).ptr = some c →
        (val : WithBot K) < w₁.heap.rank c
    · obtain ⟨rfl, hall⟩ := hbehind
      have hset : val ∉ w₁.set := hinv₁.not_mem_set hpred₁ hunmarked hlt₁ hall
      obtain ⟨w₂, hsettles, hsettled⟩ := hpending.settles (r := false) h₀₁ (by simp [Op.spec, hset])
      have hall₂ : ∀ c, (w₁.heap.next pPred 0).ptr = some c →
          (val : WithBot K) < w₂.heap.rank c := by
        rw [hsettles.heap]
        exact hall
      refine ⟨w₂, hsettles, h _ w₂ ⟨fun hbits' => absurd hbits' hbits, fun _ c' hc' => ?_,
        fun _ c' hc' hlt' => ?_, fun _ c' hc' heq => ?_, fun _ _ => ?_⟩ ?_ ?_⟩
      · rw [hsettles.ever]
        exact hcur c' hc'
      · exact absurd hlt' (hall₂ c' hc').not_gt
      · exact absurd heq (hall₂ c' hc').ne'
      · exact hsettled
      · rwa [hsettles.ever]
      · rwa [hsettles.heap]
    · refine ⟨w₁, .not, h _ w₁ ⟨fun _ => h₀₁, fun _ => hcur, fun _ _ _ _ => h₀₁,
        fun _ c hc heq => absurd ⟨c, hc, heq⟩ hequal, fun _ hall => ?_⟩ hpred₁ hlt₁⟩
      unfold Passed
      by_cases hzero : nLevel = 0
      · exact absurd ⟨hzero, hall⟩ hbehind
      · rwa [if_neg hzero]

def FastResult (t : T) (w : World T K) : FindFastpathResult → World T K → Prop
  | .found, w' => Settled t true w w'
  | .notFound, w' => Settled t false w w'
  | .abort, w' => Rely t w w'

/-- What the fast path knows at the end of a level. -/
def FastLevel (t : T) (w : World T K) (val : K) (nLevel : Nat) :
    Option (NodePtr ⊕ FindFastpathResult) → World T K → Prop
  | none, _ => True
  | some (.inl pPred), w' => Passed t w nLevel w' ∧ nLevel < w'.ever pPred ∧
      w'.heap.rank pPred < val
  | some (.inr result), w' => FastResult t w result w'

lemma secures_fastpathLevel {pCur : MarkedPtr} (hpending : Pending t (.contains val) w)
    (hloaded : Loaded t w val nLevel pCur w') (hpred : nLevel < w'.ever pPred)
    (hlt : w'.heap.rank pPred < val) :
    Secures t (FastLevel t w val nLevel) (fastpathLevel val nLevel fuel pPred pCur) w' := by
  induction fuel generalizing pPred pCur w' with
  | zero => trivial
  | succ fuel ih =>
    change Secures t _ (ite (pCur.bits = true) _ _) w'
    by_cases hbits : pCur.bits = true
    · rw [if_pos hbits]
      exact hloaded.marked hbits
    rw [if_neg hbits]
    have hunmarked := eq_false_of_ne_true hbits
    cases hptr : pCur.ptr with
    | none => exact ⟨hloaded.behind hunmarked (by rw [hptr]; nofun), hpred, hlt⟩
    | some cur =>
      obtain ⟨hcur, hne⟩ := hloaded.cur hunmarked cur hptr
      refine secures_value (Nat.zero_lt_of_lt hcur) hne fun w₁ v _ h₁ hv => ?_
      have hloaded₁ := hloaded.rely h₁
      have hpred₁ := hpred.trans_le (h₁.ever pPred)
      have hlt₁ : w₁.heap.rank pPred < val := by rwa [h₁.rank (Nat.zero_lt_of_lt hpred)]
      rcases lt_trichotomy v val with hcmp | rfl | hcmp
      · have hbefore : w₁.heap.rank cur < val := by
          rw [hv]
          exact WithBot.coe_lt_coe.mpr hcmp
        rw [if_pos ((cmp_eq_lt_iff v val).mpr hcmp)]
        exact secures_fastLoad hpending (hloaded₁.before hunmarked cur hptr hbefore)
          (hcur.trans_le (h₁.ever cur)) hbefore fun link w₂ hlink hcur₂ hlt₂ => ih hlink hcur₂ hlt₂
      · rw [if_neg (ne_of_eq_of_ne (cmp_self_eq_eq v) (by decide)), if_pos (cmp_self_eq_eq v)]
        exact hloaded₁.equal hunmarked cur hptr hv
      · have hgt : cmp v val = .gt := (cmp_eq_gt_iff v val).mpr hcmp
        rw [if_neg (ne_of_eq_of_ne hgt (by decide)), if_neg (ne_of_eq_of_ne hgt (by decide))]
        refine ⟨hloaded₁.behind hunmarked fun c hc => ?_, hpred₁, hlt₁⟩
        cases hptr.symm.trans hc
        rw [hv]
        exact WithBot.coe_lt_coe.mpr hcmp

lemma secures_fastpathLevels {nLevels : Nat} (hpending : Pending t (.contains val) w)
    (hpassed : Passed t w nLevels w') (hpred : nLevels ≤ w'.ever pPred) (hpos : 0 < w'.ever pPred)
    (hlt : w'.heap.rank pPred < val) :
    Secures t (fun r w' => ∀ result, r = some result → FastResult t w result w')
      (fastpathLevels fuel val nLevels pPred) w' := by
  induction nLevels generalizing pPred w' with
  | zero =>
    rintro _ ⟨⟩
    exact hpassed
  | succ nLevel ih =>
    refine secures_fastLoad hpending hpassed hpred hlt fun link w₁ hloaded hpred₁ hlt₁ => ?_
    refine ((secures_fastpathLevel hpending hloaded hpred₁ hlt₁).mono fun r w₂ hr => ?_).bind
    rcases r with _ | pPred' | result
    · exact nofun
    · obtain ⟨hpassed₂, hpred₂, hlt₂⟩ := hr
      exact ih hpassed₂ hpred₂.le (Nat.zero_lt_of_lt hpred₂) hlt₂
    · rintro _ ⟨⟩
      exact hr

lemma secures_findFastpath {attempts : Nat} (hw : Rooted w) (hpending : Pending t (.contains val) w)
    (hrely : Rely t w w') :
    Secures t (fun r w' => ∀ result, r = some result → FastResult t w result w')
      (findFastpath fuel val attempts) w' := by
  induction attempts generalizing w' with
  | zero =>
    rintro _ ⟨⟩
    exact hrely
  | succ attempts ih =>
    refine secures_loadHeight fun w₁ hinv₁ h₁ => ?_
    have h₀₁ := hrely.trans h₁
    have hw₁ := hw.grows h₀₁.grows
    have hpassed : Passed t w w₁.heap.nHeight w₁ := by
      unfold Passed
      rwa [if_neg hinv₁.shape.height_pos.ne']
    have hlt : w₁.heap.rank head < val := by
      rw [hw₁.rank]
      exact WithBot.bot_lt_coe val
    have hle := hinv₁.shape.height_le.trans hw₁.ever
    refine ((secures_fastpathLevels hpending hpassed hle (hinv₁.shape.height_pos.trans_le hle)
      hlt).mono fun r w₂ hr => ?_).bind
    rcases r with _ | _ | _ | _
    · exact nofun
    · exact hr
    · exact hr
    · exact ih (hr _ rfl)

lemma secures_findSlowpath (hw : Rooted w) (hpending : Pending t (.contains val) w)
    (hfree : Free t ∅ w) : Secures t (Ended t) (findSlowpath fuel val) w := by
  refine ((secures_findPosition hw (.contains hpending) fuel .unset).mono fun r w₁ hr => ?_).bind
  rcases r with _ | ⟨_ | _, pos⟩
  · trivial
  · have hdone := hr.1.done hpending.erasing
    exact ⟨hr.1.free hfree, hdone.erasing, .inl hdone.status⟩
  · obtain ⟨c, hcur, hever, hrank, hfound, _⟩ := hr
    have hsettled := hfound rfl
    have hne : c ≠ head := by
      rintro rfl
      exact WithBot.bot_ne_coe ((hsettled.rooted hw).rank.symm.trans hrank)
    dsimp only
    rw [hcur]
    refine secures_value hever hne fun w₂ v _ h₂ hv => ?_
    obtain rfl : val = v := WithBot.coe_injective (((h₂.rank hever).trans hrank).symm.trans hv)
    refine secures_assert (decide_eq_true (cmp_self_eq_eq val)) fun w₃ _ h₃ => ?_
    have hdone := (hsettled.done hpending.erasing).rely (h₂.trans h₃)
    exact ⟨(hsettled.free hfree).rely (h₂.trans h₃), hdone.erasing, .inl hdone.status⟩

theorem secures_contains (hw : Rooted w) (hpending : Pending t (.contains val) w)
    (hfree : Free t ∅ w) : Secures t (Ended t) (contains fuel val) w := by
  refine ((secures_findFastpath hw hpending (.refl t ∅ w)).mono fun r w₁ hr => ?_).bind
  rcases r with _ | _ | _ | _
  · trivial
  · have hsettled : Settled t true w w₁ := hr _ rfl
    have hdone := hsettled.done hpending.erasing
    exact ⟨hsettled.free hfree, hdone.erasing, .inl hdone.status⟩
  · have hsettled : Settled t false w w₁ := hr _ rfl
    have hdone := hsettled.done hpending.erasing
    exact ⟨hsettled.free hfree, hdone.erasing, .inl hdone.status⟩
  · have h₁ : Rely t w w₁ := hr _ rfl
    exact secures_findSlowpath (hw.grows h₁.grows) (hpending.rely h₁) (hfree.rely h₁)

end RedPar.SkipList
