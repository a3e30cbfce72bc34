/-
  LanTalk.Lib.Condition — condition variables: the threads that wait on one, and those that
  are woken and have not looked at their predicate again. A notification wakes a thread of
  the scheduler's choice, and is lost where none waits; a thread that is woken goes, or
  finds its predicate false and waits again.

  `Covered n c` says that no wake-up is lost: while a thread waits, at least as many are
  woken as there are things to go for (`n`).

  Proved: what each operation does to `Covered`. One notification covers one thing more
  (`Covered.notifyOne`), `notifyAll` covers any number, a thread that goes takes one thing
  with it (`Covered.leave`), and a thread that waits while there is nothing leaves nothing
  uncovered (`Covered.nothing`).
-/

import Mathlib

namespace LanTalk.Lib

structure Condition (τ : Type) where
  waiting : List τ := []
  woken : List τ := []

namespace Condition

variable {τ : Type} {c c' : Condition τ} {n m : Nat}

def block (c : Condition τ) (t : τ) : Condition τ := { c with waiting := c.waiting ++ [t] }

/-- The `i`-th of the waiting threads is woken, if any waits. -/
def notifyOne (c : Condition τ) (i : Nat) : Option (Condition τ) :=
  if c.waiting = [] then some c
  else c.waiting[i]?.map fun t => { waiting := c.waiting.eraseIdx i, woken := c.woken ++ [t] }

def notifyAll (c : Condition τ) : Condition τ := { waiting := [], woken := c.woken ++ c.waiting }

section
variable [DecidableEq τ]

/-- A thread is woken without a notification. -/
def wake (c : Condition τ) (t : τ) : Condition τ := { waiting := c.waiting.erase t, woken := c.woken ++ [t] }

/-- A woken thread waits again. -/
def again (c : Condition τ) (t : τ) : Condition τ := { waiting := c.waiting ++ [t], woken := c.woken.erase t }

/-- A thread does not come back. -/
def leave (c : Condition τ) (t : τ) : Condition τ := { waiting := c.waiting.erase t, woken := c.woken.erase t }

end

/-- The threads that have not left. -/
def threads (c : Condition τ) : List τ := c.waiting ++ c.woken

def Covered (n : Nat) (c : Condition τ) : Prop := c.waiting ≠ [] → n ≤ c.woken.length

theorem Covered.nothing (c : Condition τ) : Covered 0 c := fun _ => Nat.zero_le _

theorem Covered.fewer (h : Covered n c) (hm : m ≤ n) : Covered m c := fun hw => hm.trans (h hw)

theorem Covered.notifyOne (h : Covered n c) {i : Nat} (hc : c.notifyOne i = some c') : Covered (n + 1) c' := by
  unfold Condition.notifyOne at hc
  split at hc
  · rename_i hnone
    cases hc
    exact fun hw => absurd hnone hw
  · rename_i hsome
    obtain ⟨t, -, rfl⟩ := Option.map_eq_some_iff.mp hc
    intro _
    have hle := h hsome
    show n + 1 ≤ (c.woken ++ [t]).length
    rw [List.length_append, List.length_singleton]
    omega

theorem Covered.notifyAll (n : Nat) (c : Condition τ) : Covered n c.notifyAll := fun hw => absurd rfl hw

variable [DecidableEq τ]

theorem Covered.wake (h : Covered n c) (t : τ) : Covered n (c.wake t) := by
  intro hw
  have hwait : c.waiting ≠ [] := fun e => hw (by rw [Condition.wake, e]; rfl)
  show n ≤ (c.woken ++ [t]).length
  rw [List.length_append]
  exact (h hwait).trans (Nat.le_add_right _ _)

theorem Covered.leave (h : Covered (n + 1) c) (t : τ) : Covered n (c.leave t) := by
  intro hw
  have hwait : c.waiting ≠ [] := fun e => hw (by rw [Condition.leave, e]; rfl)
  have hle := h hwait
  show n ≤ (c.woken.erase t).length
  rw [List.length_erase]
  split
  · omega
  · omega

end Condition

end LanTalk.Lib
