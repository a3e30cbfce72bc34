/-
  LanTalk.Lib.Machine — step machines: the states a run reaches, the invariant rule, the
  variant rule for what a run can still come to, runs given as lists of labels, and what a
  history kept newest first says about its order.
-/

import Mathlib

namespace LanTalk.Lib.Machine

variable {σ ℓ α : Type}

section
variable (step : σ → ℓ → Option σ) (allowed : σ → ℓ → Prop) (init : σ)

/-- The states reached from `init` by steps that `allowed` lets through. -/
inductive Reach : σ → Prop where
  | init : Reach init
  | step {s s' : σ} {l : ℓ} : Reach s → allowed s l → step s l = some s' → Reach s'

/-- Take the steps of a list in order. -/
def run : σ → List ℓ → Option σ
  | s, [] => some s
  | s, l :: ls => (step s l).bind (run · ls)

/-- The steps that pass a check. -/
def checked (check : σ → ℓ → Bool) (s : σ) (l : ℓ) : Option σ := if check s l then step s l else none

end

variable {step : σ → ℓ → Option σ} {allowed : σ → ℓ → Prop} {init : σ}

/-- What holds at first and is kept by every step holds of every state reached. -/
theorem Reach.invariant {I : σ → Prop} (h0 : I init)
    (hs : ∀ s l s', I s → allowed s l → step s l = some s' → I s')
    {s : σ} (h : Reach step allowed init s) : I s := by
  induction h with
  | init => exact h0
  | step _ ha hst ih => exact hs _ _ _ ih ha hst

/-- A run whose steps pass a check, from a reached state, reaches its last state, if the
    check is at least as strict as `allowed`. -/
theorem Reach.run {check : σ → ℓ → Bool} {ls : List ℓ} : ∀ {s s' : σ}, Reach step allowed init s →
    (∀ l ∈ ls, ∀ x, check x l = true → allowed x l) → run (checked step check) s ls = some s' →
    Reach step allowed init s' := by
  induction ls with
  | nil =>
    intro s s' h _ hr
    simp only [Machine.run, Option.some.injEq] at hr
    exact hr ▸ h
  | cons l ls ih =>
    intro s s' h hl hr
    simp only [Machine.run] at hr
    obtain ⟨s1, h1, h2⟩ := Option.bind_eq_some_iff.mp hr
    unfold checked at h1
    split at h1
    · rename_i hc
      exact ih (h.step (hl l List.mem_cons_self s hc) h1) (fun l' hl' => hl l' (List.mem_cons_of_mem _ hl')) h2
    · cases h1

/-- A checked run that ends in a state where a test passes reaches such a state. -/
theorem reach_of_run {check : σ → ℓ → Bool} {ls : List ℓ} {p : σ → Bool}
    (hl : ∀ l ∈ ls, ∀ x, check x l = true → allowed x l)
    (h : ((run (checked step check) init ls).map p) = some true) :
    ∃ s, Reach step allowed init s ∧ p s = true := by
  obtain ⟨s, hs, hp⟩ := Option.map_eq_some_iff.mp h
  exact ⟨s, Reach.init.run hl hs, hp⟩

/-- What holds of a state and the labels that led to it, and is kept by every step, holds where a
    run ends. -/
theorem run_invariant {I : List ℓ → σ → Prop}
    (hs : ∀ past s l s', I past s → step s l = some s' → I (past ++ [l]) s') {ls : List ℓ} :
    ∀ {past : List ℓ} {s s' : σ}, I past s → run step s ls = some s' → I (past ++ ls) s' := by
  induction ls with
  | nil =>
    intro past s s' h hr
    simp only [Machine.run, Option.some.injEq] at hr
    rw [List.append_nil]
    exact hr ▸ h
  | cons l ls ih =>
    intro past s s' h hr
    simp only [Machine.run] at hr
    obtain ⟨s1, h1, h2⟩ := Option.bind_eq_some_iff.mp hr
    have h' := ih (hs _ _ _ _ h h1) h2
    rwa [List.append_assoc] at h'

/-! ## Going on -/

theorem Reach.one {s s' : σ} {l : ℓ} (ha : allowed s l) (hs : step s l = some s') : Reach step allowed s s' :=
  Reach.init.step ha hs

theorem Reach.trans {s t u : σ} (h : Reach step allowed s t) (h' : Reach step allowed t u) :
    Reach step allowed s u := by
  induction h' with
  | init => exact h
  | step _ ha hs ih => exact ih.step ha hs

theorem Reach.mono {allowed' : σ → ℓ → Prop} (hm : ∀ s l, allowed s l → allowed' s l) {s : σ}
    (h : Reach step allowed init s) : Reach step allowed' init s := by
  induction h with
  | init => exact .init
  | step _ ha hs ih => exact ih.step (hm _ _ ha) hs

/-- If from every state of `P` short of the goal one can go on to a state of `P` of less
    weight, the goal can be reached. -/
theorem Reach.variant {P goal : σ → Prop} (weight : σ → Nat)
    (h : ∀ s, P s → goal s ∨ ∃ s', Reach step allowed s s' ∧ P s' ∧ weight s' < weight s) {s : σ} (hs : P s) :
    ∃ s', Reach step allowed s s' ∧ P s' ∧ goal s' := by
  induction hn : weight s using Nat.strongRecOn generalizing s with
  | ind n ih =>
    rcases h s hs with hg | ⟨s', hr, hs', hw⟩
    · exact ⟨s, .init, hs, hg⟩
    · obtain ⟨u, hu, hPu, hgu⟩ := ih (weight s') (by omega) hs' rfl
      exact ⟨u, hr.trans hu, hPu, hgu⟩

/-! ## Histories -/

/-- Every entry of a history, newest first, is justified by the older ones. -/
def Justified (ok : α → List α → Prop) : List α → Prop
  | [] => True
  | e :: older => ok e older ∧ Justified ok older

theorem Justified.entry {ok : α → List α → Prop} {newer older : List α} {e : α}
    (h : Justified ok (newer ++ e :: older)) : ok e older := by
  induction newer with
  | nil => exact h.1
  | cons x newer ih => exact ih h.2

theorem justified_iff {ok : α → List α → Prop} {l : List α} :
    Justified ok l ↔ ∀ newer e older, l = newer ++ e :: older → ok e older := by
  constructor
  · rintro h newer e older rfl
    exact h.entry
  · induction l with
    | nil => intro _; trivial
    | cons x l ih =>
      intro h
      refine ⟨h [] x l rfl, ih fun newer e older hl => h (x :: newer) e older ?_⟩
      rw [hl, List.cons_append]

/-- Entries may be put on top of a history if each is justified by what is below it. -/
theorem Justified.append {ok : α → List α → Prop} {l : List α} (h : Justified ok l) :
    ∀ {es : List α}, (∀ newer e older, es = newer ++ e :: older → ok e (older ++ l)) → Justified ok (es ++ l) := by
  intro es
  induction es with
  | nil => intro _; exact h
  | cons x es ih =>
    intro he
    refine ⟨he [] x es rfl, ih fun newer e older hl => he (x :: newer) e older ?_⟩
    rw [hl, List.cons_append]

/-- Entries justified by a history may be put on top of it together. -/
theorem Justified.push {ok : α → List α → Prop} (hm : ∀ e x l, ok e l → ok e (x :: l)) {l : List α}
    (h : Justified ok l) {es : List α} (he : ∀ e ∈ es, ok e l) : Justified ok (es ++ l) := by
  have hw : ∀ (es' : List α) (e : α), ok e l → ok e (es' ++ l) := by
    intro es' e hl
    induction es' with
    | nil => exact hl
    | cons x es' ih => exact hm e x _ ih
  refine h.append fun newer e older hes => hw older e (he e ?_)
  rw [hes]
  exact List.mem_append_right _ List.mem_cons_self

end LanTalk.Lib.Machine
