/-
  LanTalk.Lib.Reader — incremental readers: a state with a buffer, `push` to append to
  the buffer, and `turn`, one turn of the loop that decodes from it. A turn waits for
  more input, fails, or goes on with a new state and at most one item.

  Proved: `Feeds.invariant`, what every turn keeps a run keeps; `Drains.sim`, related readers
  have one outcome; and for a reader whose turns do not depend on input that has not arrived
  yet (`Stable`):
  - `Drains.unique`: the loop has one outcome.
  - `Drains.push_ok` / `Drains.push_fail`: draining, pushing and draining again is
    draining once with everything pushed; a failure stays where it was.
  - `Drains.part`: the start of an input that does not fail yields the first of its items.
  - `Drains.again`: where a turn that failed fails again, so does the loop, whatever is pushed.
  - `Feeds.flatten`: feeding chunk by chunk is feeding their concatenation at once.
  - `cut_independent`: so two ways of cutting one input have one outcome.
-/

import Mathlib

namespace LanTalk.Lib.Reader

/-- What one turn of the loop does. -/
inductive Next (σ β ε : Type) where
  | wait
  | fail (e : ε) (s : σ)
  | go (s : σ) (out : Option β)

variable {σ α β ε : Type} {turn : σ → Next σ β ε} {push : σ → List α → σ}

/-- The loop from `s`: the items it decodes, the failure that ends it if one does, and
    the state it leaves. -/
inductive Drains (turn : σ → Next σ β ε) : σ → List β → Option ε → σ → Prop
  | wait {s : σ} : turn s = .wait → Drains turn s [] none s
  | fail {s s' : σ} {e : ε} : turn s = .fail e s' → Drains turn s [] (some e) s'
  | go {s s' t : σ} {o : Option β} {os : List β} {e : Option ε} :
      turn s = .go s' o → Drains turn s' os e t → Drains turn s (o.toList ++ os) e t

/-- Chunk after chunk, until one fails. -/
inductive Feeds (turn : σ → Next σ β ε) (push : σ → List α → σ) :
    σ → List (List α) → List β → Option ε → σ → Prop
  | nil (s : σ) : Feeds turn push s [] [] none s
  | ok {s t u : σ} {a : List α} {as : List (List α)} {os os' : List β} {e : Option ε} :
      Drains turn (push s a) os none t → Feeds turn push t as os' e u →
        Feeds turn push s (a :: as) (os ++ os') e u
  | fail {s t : σ} {a : List α} {as : List (List α)} {os : List β} {e : ε} :
      Drains turn (push s a) os (some e) t → Feeds turn push s (a :: as) os (some e) t

/-- A turn that does not wait does the same with more input behind it. -/
structure Stable (turn : σ → Next σ β ε) (push : σ → List α → σ) : Prop where
  push_nil : ∀ s, push s [] = s
  push_push : ∀ s a b, push (push s a) b = push s (a ++ b)
  go : ∀ {s s' o} a, turn s = .go s' o → turn (push s a) = .go (push s' a) o
  fail : ∀ {s s' e} a, turn s = .fail e s' → turn (push s a) = .fail e (push s' a)

/-! ## One loop -/

theorem Drains.unique {s t t' : σ} {os os' : List β} {e e' : Option ε} (h : Drains turn s os e t)
    (h' : Drains turn s os' e' t') : os = os' ∧ e = e' ∧ t = t' := by
  induction h generalizing os' with
  | wait hw =>
    cases h' with
    | wait _ => exact ⟨rfl, rfl, rfl⟩
    | fail hf => rw [hw] at hf; cases hf
    | go hg _ => rw [hw] at hg; cases hg
  | fail hf =>
    cases h' with
    | wait hw => rw [hf] at hw; cases hw
    | fail hf' => rw [hf] at hf'; cases hf'; exact ⟨rfl, rfl, rfl⟩
    | go hg _ => rw [hf] at hg; cases hg
  | go hg _ ih =>
    cases h' with
    | wait hw => rw [hg] at hw; cases hw
    | fail hf => rw [hg] at hf; cases hf
    | go hg' hd =>
      rw [hg] at hg'; cases hg'
      obtain ⟨rfl, he, ht⟩ := ih hd
      exact ⟨rfl, he, ht⟩

/-- A loop that ends without failing ends waiting. -/
theorem Drains.waits {s t : σ} {os : List β} {e : Option ε} (h : Drains turn s os e t) (he : e = none) :
    turn t = .wait := by
  induction h with
  | wait hw => exact hw
  | fail _ => cases he
  | go _ _ ih => exact ih he

/-- What every turn keeps, the loop keeps, and every item has what each turn gives its own. -/
theorem Drains.invariant {I : σ → Prop} {P : β → Prop}
    (hgo : ∀ {s s' : σ} {o : Option β}, I s → turn s = .go s' o → I s' ∧ ∀ b ∈ o, P b) {s t : σ} {os : List β}
    {e : Option ε} (h : Drains turn s os e t) (hs : I s) : (e = none → I t) ∧ ∀ b ∈ os, P b := by
  induction h with
  | wait _ => exact ⟨fun _ => hs, by simp⟩
  | fail _ => exact ⟨fun he => (by cases he), by simp⟩
  | go hg _ ih =>
    obtain ⟨hs', ho⟩ := hgo hs hg
    obtain ⟨ht, hos⟩ := ih hs'
    refine ⟨ht, fun b hb => ?_⟩
    rcases List.mem_append.mp hb with hb | hb
    · exact ho b (Option.mem_toList.mp hb)
    · exact hos b hb

/-- What more input does after a loop that ended waiting, it does from the start. -/
theorem Drains.push_ok (hs : Stable turn push) {s t u : σ} {os os' : List β} {e e' : Option ε} {a : List α}
    (h : Drains turn s os e t) (he : e = none) (h' : Drains turn (push t a) os' e' u) :
    Drains turn (push s a) (os ++ os') e' u := by
  induction h with
  | wait _ => simpa using h'
  | fail _ => cases he
  | go hg _ ih =>
    rw [List.append_assoc]
    exact .go (hs.go a hg) (ih he h')

/-- Input behind a failure does not change it. -/
theorem Drains.push_fail (hs : Stable turn push) {s t : σ} {os : List β} {e : Option ε} (a : List α)
    (h : Drains turn s os e t) (he : e ≠ none) : Drains turn (push s a) os e (push t a) := by
  induction h with
  | wait _ => exact absurd rfl he
  | fail hf => exact .fail (hs.fail a hf)
  | go hg _ ih => exact .go (hs.go a hg) (ih he)

/-- A part of an input that is decoded whole does not fail, and yields the first of its items. -/
theorem Drains.part (hs : Stable turn push) {s t u : σ} {os os' : List β} {e : Option ε} {a : List α}
    (h : Drains turn s os e t) (h' : Drains turn (push s a) os' none u) : e = none ∧ os <+: os' := by
  induction h generalizing os' with
  | wait _ => exact ⟨rfl, List.nil_prefix⟩
  | fail hf => cases (h'.unique (.fail (hs.fail a hf))).2.1
  | go hg _ ih =>
    have hga := hs.go a hg
    cases h' with
    | wait hw => rw [hga] at hw; cases hw
    | go hg' hd =>
      rw [hga] at hg'
      cases hg'
      obtain ⟨he, hos⟩ := ih hd
      exact ⟨he, List.prefix_append_right_inj _ |>.mpr hos⟩

/-- A loop that fails does so in one of its turns. -/
theorem Drains.failed {s t : σ} {os : List β} {e : ε} (h : Drains turn s os (some e) t) : ∃ s', turn s' = .fail e t := by
  generalize he : some e = e' at h
  induction h with
  | wait _ => cases he
  | fail hf =>
    cases he
    exact ⟨_, hf⟩
  | go _ _ ih => exact ih he

/-- If a turn that failed fails again, so does the loop, whatever is pushed. -/
theorem Drains.again (hs : Stable turn push) (hagain : ∀ {s s' : σ} {e : ε}, turn s = .fail e s' → turn s' = .fail e s')
    {s t : σ} {os : List β} {e : ε} (h : Drains turn s os (some e) t) (a : List α) :
    Drains turn (push t a) [] (some e) (push t a) := by
  obtain ⟨s', hf⟩ := h.failed
  exact .fail (hs.fail a (hagain hf))

/-! ## Two readers -/

/-- Turns that do the same, to related states. -/
inductive Next.Related {τ : Type} (R : σ → τ → Prop) : Next σ β ε → Next τ β ε → Prop
  | wait : Related R .wait .wait
  | fail {s : σ} {t : τ} (e : ε) (h : R s t) : Related R (.fail e s) (.fail e t)
  | go {s : σ} {t : τ} (o : Option β) (h : R s t) : Related R (.go s o) (.go t o)

/-- Loops from related states have one outcome, and leave related states. -/
theorem Drains.sim {τ : Type} {turn' : τ → Next τ β ε} {R : σ → τ → Prop}
    (hR : ∀ {s t}, R s t → Next.Related R (turn s) (turn' t)) {s s' : σ} {os : List β} {e : Option ε}
    (h : Drains turn s os e s') {t : τ} (hst : R s t) : ∃ t', R s' t' ∧ Drains turn' t os e t' := by
  induction h generalizing t with
  | @wait s hw =>
    have hn := hR hst
    rw [hw] at hn
    generalize ht : turn' t = n at hn
    cases hn
    exact ⟨t, hst, .wait ht⟩
  | @fail s s' e hf =>
    have hn := hR hst
    rw [hf] at hn
    generalize ht : turn' t = n at hn
    cases hn with
    | fail e h => exact ⟨_, h, .fail ht⟩
  | @go s s1 s2 o os e hg _ ih =>
    have hn := hR hst
    rw [hg] at hn
    generalize ht : turn' t = n at hn
    cases hn with
    | go o h =>
      obtain ⟨t', ht', hd⟩ := ih h
      exact ⟨t', ht', .go ht hd⟩

/-! ## Chunks -/

/-- Feeding the chunks is draining their concatenation: the same items and failure,
    and without a failure the same state. -/
theorem Feeds.flatten (hs : Stable turn push) {s u : σ} {as : List (List α)} {os : List β} {e : Option ε}
    (h : Feeds turn push s as os e u) (hw : turn s = .wait) :
    ∃ u', Drains turn (push s as.flatten) os e u' ∧ (e = none → u' = u) := by
  induction h with
  | nil s =>
    refine ⟨s, ?_, fun _ => rfl⟩
    rw [List.flatten_nil, hs.push_nil]
    exact .wait hw
  | @ok s t u a as os os' e hd _ ih =>
    obtain ⟨u', hd', hu⟩ := ih (hd.waits rfl)
    refine ⟨u', ?_, hu⟩
    rw [List.flatten_cons, ← hs.push_push]
    exact hd.push_ok hs rfl hd'
  | @fail s t a as os e hd =>
    refine ⟨push t as.flatten, ?_, fun he => by cases he⟩
    rw [List.flatten_cons, ← hs.push_push]
    exact hd.push_fail hs _ (by simp)

/-- A run of chunks that does not fail ends waiting. -/
theorem Feeds.waits {s u : σ} {as : List (List α)} {os : List β} {e : Option ε} (h : Feeds turn push s as os e u)
    (he : e = none) (hw : turn s = .wait) : turn u = .wait := by
  induction h with
  | nil _ => exact hw
  | ok hd _ ih => exact ih he (hd.waits rfl)
  | fail _ => cases he

/-- The rule of `Drains.invariant` over chunks. -/
theorem Feeds.invariant {I : σ → Prop} {P : β → Prop} (hpush : ∀ {s : σ} (a : List α), I s → I (push s a))
    (hgo : ∀ {s s' : σ} {o : Option β}, I s → turn s = .go s' o → I s' ∧ ∀ b ∈ o, P b) {s u : σ}
    {as : List (List α)} {os : List β} {e : Option ε} (h : Feeds turn push s as os e u) (hs : I s) :
    (e = none → I u) ∧ ∀ b ∈ os, P b := by
  induction h with
  | nil _ => exact ⟨fun _ => hs, by simp⟩
  | ok hd _ ih =>
    obtain ⟨ht, hos⟩ := hd.invariant hgo (hpush _ hs)
    obtain ⟨hu, hos'⟩ := ih (ht rfl)
    refine ⟨hu, fun b hb => ?_⟩
    rcases List.mem_append.mp hb with hb | hb
    · exact hos b hb
    · exact hos' b hb
  | fail hd =>
    obtain ⟨-, hos⟩ := hd.invariant hgo (hpush _ hs)
    exact ⟨fun he => (by cases he), hos⟩

/-- Two ways of cutting one input have one outcome: the same items and failure, and
    without a failure the same state. -/
theorem cut_independent (hs : Stable turn push) {s u u' : σ} {as bs : List (List α)} {os os' : List β}
    {e e' : Option ε} (hw : turn s = .wait) (hab : as.flatten = bs.flatten) (h : Feeds turn push s as os e u)
    (h' : Feeds turn push s bs os' e' u') : os = os' ∧ e = e' ∧ (e = none → u = u') := by
  obtain ⟨v, hd, hv⟩ := h.flatten hs hw
  obtain ⟨v', hd', hv'⟩ := h'.flatten hs hw
  rw [hab] at hd
  obtain ⟨ho, he, hvv⟩ := hd.unique hd'
  exact ⟨ho, he, fun hn => by rw [← hv hn, hvv, hv' (he ▸ hn)]⟩

end LanTalk.Lib.Reader
