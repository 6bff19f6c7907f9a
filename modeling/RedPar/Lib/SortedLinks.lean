import Mathlib.Data.Set.Card
import Mathlib.Data.Set.Finite.Lemmas
import Mathlib.Order.Basic
import Mathlib.Logic.Function.Basic
import Mathlib.Logic.Relation

/-!
# Sorted linked lists

A linked list is a set of members, each with a rank and a link to the next one. `Sorted` says
that the links lead upwards and skip no member. A new member is linked in by pointing its
predecessor at it, and a member is unlinked by pointing its predecessor past it. The links of
nodes that are not members do not matter.
-/

namespace Interleaved

variable {ι β : Type} [LinearOrder β]

/-- The links of the members lead to the next member by rank. -/
structure Sorted (rank : ι → β) (members : Set ι) (next : ι → Option ι) : Prop where
  link : ∀ r b, r ∈ members → next r = some b → b ∈ members ∧ rank r < rank b
  skip : ∀ r c, r ∈ members → c ∈ members → rank r < rank c →
    ∃ b, next r = some b ∧ rank b ≤ rank c
  inj : ∀ r c, r ∈ members → c ∈ members → rank r = rank c → r = c

namespace Sorted

variable {rank : ι → β} {members : Set ι} {next : ι → Option ι}

/-- Between a member and the next one there is no other rank. -/
lemma absent (h : Sorted rank members next) {r : ι} {v : β} (hr : r ∈ members) (hv : rank r < v)
    (hnext : ∀ b, next r = some b → v < rank b) {c : ι} (hc : c ∈ members) : rank c ≠ v := by
  intro heq
  subst heq
  obtain ⟨b, hb, hle⟩ := h.skip r c hr hc hv
  exact absurd (hnext b hb) (not_lt.mpr hle)

lemma congr_rank (h : Sorted rank members next) {rank' : ι → β}
    (hrank : ∀ r ∈ members, rank' r = rank r) : Sorted rank' members next where
  link r b hr hb := by
    obtain ⟨hmem, hlt⟩ := h.link r b hr hb
    rw [hrank r hr, hrank b hmem]
    exact ⟨hmem, hlt⟩
  skip r c hr hc hlt := by
    rw [hrank r hr, hrank c hc] at hlt
    obtain ⟨b, hb, hle⟩ := h.skip r c hr hc hlt
    refine ⟨b, hb, ?_⟩
    rwa [hrank c hc, hrank b (h.link r b hr hb).1]
  inj r c hr hc heq := by
    rw [hrank r hr, hrank c hc] at heq
    exact h.inj r c hr hc heq

variable [DecidableEq ι]

/-- The link of a node that is not a member does not matter. -/
lemma setLink (h : Sorted rank members next) {x : ι} (hx : x ∉ members) (link : Option ι) :
    Sorted rank members (Function.update next x link) where
  link r b hr hb := by
    have hne : r ≠ x := ne_of_mem_of_not_mem hr hx
    rw [Function.update_of_ne hne] at hb
    exact h.link r b hr hb
  skip r c hr hc hlt := by
    have hne : r ≠ x := ne_of_mem_of_not_mem hr hx
    rw [Function.update_of_ne hne]
    exact h.skip r c hr hc hlt
  inj := h.inj

/-- A node that points at the next member is linked in between. -/
lemma insert (h : Sorted rank members next) {pred x : ι} (hpred : pred ∈ members)
    (hx : x ∉ members) (hnext : next x = next pred) (hlt : rank pred < rank x)
    (hsucc : ∀ b, next pred = some b → rank x < rank b) :
    Sorted rank (Insert.insert x members) (Function.update next pred (some x)) where
  link r b hr hb := by
    by_cases heq : r = pred
    · subst heq
      rw [Function.update_self] at hb
      cases hb
      exact ⟨Set.mem_insert x members, hlt⟩
    · rw [Function.update_of_ne heq] at hb
      rcases hr with rfl | hr
      · rw [hnext] at hb
        exact ⟨.inr (h.link pred b hpred hb).1, hsucc b hb⟩
      · obtain ⟨hmem, hrank⟩ := h.link r b hr hb
        exact ⟨.inr hmem, hrank⟩
  skip r c hr hc hrc := by
    by_cases heq : r = pred
    · subst heq
      rw [Function.update_self]
      refine ⟨x, rfl, ?_⟩
      rcases hc with rfl | hc
      · exact le_rfl
      · obtain ⟨b, hb, hle⟩ := h.skip r c hpred hc hrc
        exact (hsucc b hb).le.trans hle
    · rw [Function.update_of_ne heq]
      rcases hr with rfl | hr
      · rcases hc with rfl | hc
        · exact absurd hrc (lt_irrefl _)
        · obtain ⟨b, hb, hle⟩ := h.skip pred c hpred hc (hlt.trans hrc)
          exact ⟨b, hnext.trans hb, hle⟩
      · rcases hc with rfl | hc
        · -- the next member of `r` is not behind `pred`
          rcases lt_trichotomy (rank r) (rank pred) with hrp | hrp | hrp
          · obtain ⟨b, hb, hle⟩ := h.skip r pred hr hpred hrp
            exact ⟨b, hb, hle.trans hlt.le⟩
          · exact absurd (h.inj r pred hr hpred hrp) heq
          · obtain ⟨b, hb, hle⟩ := h.skip pred r hpred hr hrp
            exact absurd (hrc.trans (hsucc b hb)) (not_lt.mpr hle)
        · exact h.skip r c hr hc hrc
  inj r c hr hc hrc := by
    have hold : ∀ c ∈ members, rank c ≠ rank x := fun c hc => h.absent hpred hlt hsucc hc
    rcases hr with rfl | hr
    · rcases hc with rfl | hc
      · rfl
      · exact absurd hrc.symm (hold c hc)
    · rcases hc with rfl | hc
      · exact absurd hrc (hold r hr)
      · exact h.inj r c hr hc hrc

/-- A member is unlinked by linking its predecessor to its successor. -/
lemma erase (h : Sorted rank members next) {pred x : ι} (hpred : pred ∈ members)
    (hx : next pred = some x) :
    Sorted rank (members \ {x}) (Function.update next pred (next x)) := by
  obtain ⟨hmem, hlt⟩ := h.link pred x hpred hx
  have hne : ∀ r b, r ∈ members → r ≠ pred → next r = some b → b ≠ x := by
    intro r b hr hrp hb heq
    subst heq
    -- two members cannot both precede `x`
    rcases lt_trichotomy (rank r) (rank pred) with hrank | hrank | hrank
    · obtain ⟨b', hb', hle⟩ := h.skip r pred hr hpred hrank
      cases hb.symm.trans hb'
      exact absurd hlt (not_lt.mpr hle)
    · exact hrp (h.inj r pred hr hpred hrank)
    · obtain ⟨b', hb', hle⟩ := h.skip pred r hpred hr hrank
      cases hx.symm.trans hb'
      exact absurd (h.link r b hr hb).2 (not_lt.mpr hle)
  exact
    { link := fun r b hr hb => by
        by_cases heq : r = pred
        · subst heq
          rw [Function.update_self] at hb
          obtain ⟨hmem', hlt'⟩ := h.link x b hmem hb
          refine ⟨⟨hmem', ?_⟩, hlt.trans hlt'⟩
          rintro rfl
          exact absurd hlt' (lt_irrefl _)
        · rw [Function.update_of_ne heq] at hb
          obtain ⟨hmem', hlt'⟩ := h.link r b hr.1 hb
          exact ⟨⟨hmem', hne r b hr.1 heq hb⟩, hlt'⟩
      skip := fun r c hr hc hrc => by
        by_cases heq : r = pred
        · subst heq
          rw [Function.update_self]
          obtain ⟨b, hb, hle⟩ := h.skip r c hpred hc.1 hrc
          cases hx.symm.trans hb
          have hxc : rank x ≠ rank c := fun heq' => hc.2 (h.inj x c hmem hc.1 heq').symm
          exact h.skip x c hmem hc.1 (lt_of_le_of_ne hle hxc)
        · rw [Function.update_of_ne heq]
          exact h.skip r c hr.1 hc.1 hrc
      inj := fun r c hr hc => h.inj r c hr.1 hc.1 }

omit [DecidableEq ι]

/-- What the links lead to. -/
def Reach (next : ι → Option ι) : ι → ι → Prop :=
  Relation.ReflTransGen fun r b => next r = some b

lemma mem_of_reach (h : Sorted rank members next) {r c : ι} (hr : r ∈ members)
    (hreach : Reach next r c) : c ∈ members ∧ rank r ≤ rank c := by
  induction hreach with
  | refl => exact ⟨hr, le_rfl⟩
  | tail _ hnext ih =>
    obtain ⟨hmem, hlt⟩ := h.link _ _ ih.1 hnext
    exact ⟨hmem, ih.2.trans hlt.le⟩

/-- From the smallest member the links lead to all members, if there are finitely many. -/
theorem mem_iff_reach (h : Sorted rank members next) (hfin : members.Finite) {r : ι}
    (hr : r ∈ members) (hmin : ∀ c ∈ members, rank r ≤ rank c) {c : ι} :
    c ∈ members ↔ Reach next r c := by
  constructor
  · intro hc
    -- downwards from `c`, by the number of members below it
    generalize hn : (members ∩ {b | rank b < rank c}).ncard = n
    induction n using Nat.strong_induction_on generalizing c with
    | _ n ih =>
      by_cases heq : c = r
      · subst heq
        exact .refl
      · have hlt : rank r < rank c :=
          lt_of_le_of_ne (hmin c hc) fun hrank => heq (h.inj r c hr hc hrank).symm
        have hbelow : (members ∩ {b | rank b < rank c}).Finite := hfin.subset Set.inter_subset_left
        obtain ⟨p, hp, hmax⟩ := Set.exists_max_image _ rank hbelow ⟨r, hr, hlt⟩
        obtain ⟨b, hb, hle⟩ := h.skip p c hp.1 hc hp.2
        obtain ⟨hbmem, hpb⟩ := h.link p b hp.1 hb
        have hbc : rank b = rank c := by
          by_contra hne
          exact absurd (hmax b ⟨hbmem, lt_of_le_of_ne hle hne⟩) (not_le.mpr hpb)
        have hcb := h.inj b c hbmem hc hbc
        subst hcb
        refine .tail (ih _ ?_ hp.1 rfl) hb
        rw [← hn]
        refine Set.ncard_lt_ncard ⟨fun a ha => ⟨ha.1, lt_trans ha.2 hp.2⟩, fun hsub => ?_⟩ hbelow
        exact absurd (hsub ⟨hp.1, hp.2⟩).2 (lt_irrefl _)
  · intro hreach
    exact (h.mem_of_reach hr hreach).1

end Sorted

end Interleaved
