/-
  LanTalk.Lib.Interleave — parties that take steps on one state, each having a part of it
  that only its own steps read and write. However the steps of the parties come to be
  interleaved, a party ends with what it would have had alone.
-/

import LanTalk.Lib.Machine

namespace LanTalk.Lib.Machine

variable {σ ℓ ι : Type}

/-- `same i s t`: party `i` has the same of both states. What it has decides what its own
    steps can do and make of it, and no other party's step changes it. -/
structure Parted (step : σ → ℓ → Option σ) (owner : ℓ → ι) (good : σ → Prop) (same : ι → σ → σ → Prop) :
    Prop where
  equiv : ∀ i, Equivalence (same i)
  keep : ∀ {s s' : σ} {l : ℓ}, good s → step s l = some s' → good s'
  own : ∀ {s t s' : σ} {l : ℓ}, good s → good t → same (owner l) s t → step s l = some s' →
    ∃ t', step t l = some t' ∧ same (owner l) s' t'
  other : ∀ {s s' : σ} {l : ℓ} {i : ι}, good s → owner l ≠ i → step s l = some s' → same i s s'

/-- The steps of one party. -/
def ownSteps [DecidableEq ι] (owner : ℓ → ι) (i : ι) (ls : List ℓ) : List ℓ := ls.filter fun l => owner l == i

variable {step : σ → ℓ → Option σ} {owner : ℓ → ι} {good : σ → Prop} {same : ι → σ → σ → Prop}

theorem Parted.kept (hp : Parted step owner good same) {ls : List ℓ} :
    ∀ {s s' : σ}, good s → run step s ls = some s' → good s' := by
  induction ls with
  | nil =>
    intro s s' hs hr
    cases hr
    exact hs
  | cons l ls ih =>
    intro s s' hs hr
    obtain ⟨s1, h1, h2⟩ := Option.bind_eq_some_iff.mp (show (step s l).bind (run step · ls) = some s' from hr)
    exact ih (hp.keep hs h1) h2

variable [DecidableEq ι]

/-- A party has after a run what its own steps alone would have given it. -/
theorem Parted.alone (hp : Parted step owner good same) (i : ι) {ls : List ℓ} :
    ∀ {s t s' : σ}, good s → good t → same i s t → run step s ls = some s' →
      ∃ t', run step t (ownSteps owner i ls) = some t' ∧ same i s' t' := by
  induction ls with
  | nil =>
    intro s t s' _ _ hst hr
    cases hr
    exact ⟨t, rfl, hst⟩
  | cons l ls ih =>
    intro s t s' hs ht hst hr
    obtain ⟨s1, h1, h2⟩ := Option.bind_eq_some_iff.mp (show (step s l).bind (run step · ls) = some s' from hr)
    by_cases hl : owner l = i
    · subst hl
      obtain ⟨t1, ht1, hst1⟩ := hp.own hs ht hst h1
      obtain ⟨t', hr', hst'⟩ := ih (hp.keep hs h1) (hp.keep ht ht1) hst1 h2
      refine ⟨t', ?_, hst'⟩
      rw [ownSteps, List.filter_cons, if_pos (beq_self_eq_true _)]
      show (step t l).bind (run step · (ownSteps owner (owner l) ls)) = some t'
      rw [ht1]
      exact hr'
    · have hst1 : same i s1 t := (hp.equiv i).trans ((hp.equiv i).symm (hp.other hs hl h1)) hst
      obtain ⟨t', hr', hst'⟩ := ih (hp.keep hs h1) ht hst1 h2
      refine ⟨t', ?_, hst'⟩
      rw [ownSteps, List.filter_cons, if_neg (by rwa [beq_iff_eq])]
      exact hr'

/-- Two interleavings in which a party takes the same steps leave it the same. -/
theorem Parted.agree (hp : Parted step owner good same) {i : ι} {s a b : σ} {xs ys : List ℓ} (hs : good s)
    (he : ownSteps owner i xs = ownSteps owner i ys) (hx : run step s xs = some a)
    (hy : run step s ys = some b) : same i a b := by
  obtain ⟨t, ht, hat⟩ := hp.alone i hs hs ((hp.equiv i).refl s) hx
  obtain ⟨t', ht', hbt⟩ := hp.alone i hs hs ((hp.equiv i).refl s) hy
  rw [he, ht'] at ht
  cases ht
  exact (hp.equiv i).trans hat ((hp.equiv i).symm hbt)

end LanTalk.Lib.Machine
