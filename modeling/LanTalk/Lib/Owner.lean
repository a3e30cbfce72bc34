/-
  LanTalk.Lib.Owner — resources and who holds them. `Balanced held live`: nothing is held
  twice, and what is held is what is live. Acquiring, transferring and disposing of a
  resource keep it.
-/

import Mathlib

namespace LanTalk.Lib

open Function

variable {ι ρ : Type} [DecidableEq ι]

structure Balanced (held : ι → Option ρ) (live : ρ → Bool) : Prop where
  single : ∀ i j r, held i = some r → held j = some r → i = j
  live_iff : ∀ r, live r = true ↔ ∃ i, held i = some r

namespace Balanced

variable {held : ι → Option ρ} {live : ρ → Bool} {i j : ι} {r : ρ}

/-- What `i` holds goes to `j`, which holds nothing. -/
theorem transfer (h : Balanced held live) (hj : held j = none) :
    Balanced (update (update held i none) j (held i)) live := by
  -- who holds something afterwards held it before, but for the two
  have hto : ∀ a s, update (update held i none) j (held i) a = some s →
      a = j ∧ held i = some s ∨ a ≠ i ∧ a ≠ j ∧ held a = some s := by
    intro a s ha
    by_cases haj : a = j
    · rw [haj, update_self] at ha
      exact Or.inl ⟨haj, ha⟩
    · rw [update_of_ne haj] at ha
      by_cases hai : a = i
      · rw [hai, update_self] at ha
        cases ha
      · rw [update_of_ne hai] at ha
        exact Or.inr ⟨hai, haj, ha⟩
  refine ⟨fun a b s ha hb => ?_, fun s => ?_⟩
  · rcases hto a s ha with ⟨ha, hs⟩ | ⟨hai, -, hs⟩ <;> rcases hto b s hb with ⟨hb, hs'⟩ | ⟨hbi, -, hs'⟩
    · rw [ha, hb]
    · exact absurd (h.single b i s hs' hs) hbi
    · exact absurd (h.single a i s hs hs') hai
    · exact h.single a b s hs hs'
  · rw [h.live_iff]
    constructor
    · rintro ⟨a, ha⟩
      by_cases hai : a = i
      · exact ⟨j, by rw [update_self, ← hai, ha]⟩
      · have haj : a ≠ j := fun e => by rw [e, hj] at ha; cases ha
        exact ⟨a, by rw [update_of_ne haj, update_of_ne hai, ha]⟩
    · rintro ⟨a, ha⟩
      rcases hto a s ha with ⟨-, ha⟩ | ⟨-, -, ha⟩
      · exact ⟨i, ha⟩
      · exact ⟨a, ha⟩

variable [DecidableEq ρ]

theorem acquire (h : Balanced held live) (hi : held i = none) (hr : live r = false) :
    Balanced (update held i (some r)) (update live r true) := by
  have hfree : ∀ j, held j ≠ some r := by
    intro j hj
    rw [(h.live_iff r).mpr ⟨j, hj⟩] at hr
    cases hr
  refine ⟨fun a b s ha hb => ?_, fun s => ?_⟩
  · rw [update_apply] at ha hb
    split at ha <;> split at hb
    · rename_i ha' hb'
      rw [ha', hb']
    · cases ha
      exact absurd hb (hfree b)
    · cases hb
      exact absurd ha (hfree a)
    · exact h.single a b s ha hb
  · rw [update_apply]
    split
    · rename_i hs
      exact ⟨fun _ => ⟨i, by rw [update_self, hs]⟩, fun _ => rfl⟩
    · rename_i hs
      rw [h.live_iff]
      constructor
      · rintro ⟨j, hj⟩
        refine ⟨j, ?_⟩
        rwa [update_of_ne fun e => by rw [e, hi] at hj; cases hj]
      · rintro ⟨j, hj⟩
        rw [update_apply] at hj
        split at hj
        · exact absurd (Option.some.inj hj).symm hs
        · exact ⟨j, hj⟩

theorem dispose (h : Balanced held live) (hi : held i = some r) :
    Balanced (update held i none) (update live r false) := by
  refine ⟨fun a b s ha hb => ?_, fun s => ?_⟩
  · rw [update_apply] at ha hb
    split at ha
    · cases ha
    · split at hb
      · cases hb
      · exact h.single a b s ha hb
  · rw [update_apply]
    split
    · rename_i hs
      refine ⟨nofun, fun ⟨j, hj⟩ => ?_⟩
      rw [update_apply] at hj
      split at hj
      · cases hj
      · rename_i hne
        exact absurd (h.single j i s hj (by rw [hi, hs])) hne
    · rename_i hs
      rw [h.live_iff]
      constructor
      · rintro ⟨j, hj⟩
        refine ⟨j, ?_⟩
        rwa [update_of_ne fun e => hs (by rw [e, hi] at hj; exact (Option.some.inj hj).symm)]
      · rintro ⟨j, hj⟩
        rw [update_apply] at hj
        split at hj
        · cases hj
        · exact ⟨j, hj⟩

end Balanced

end LanTalk.Lib
