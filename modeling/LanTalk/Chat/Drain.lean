/-
  LanTalk.Chat.Drain — `MessageQueue::drain` with a callback that throws
  (`src/chat/message_queue.cpp`).

  `drain` moves the front of the queue into the callback's argument and pops it when the
  callback has returned; an exception leaves the moved-from message in front. A move takes
  a message's strings and leaves them empty, as libstdc++ does, and copies its time.
  `Callback` says whether a callback throws on a message, after those it was called with
  before in the same call. `QueueOp` are the calls of `QueueCall`, and `drain` with any
  callback.

  Proved:
  - `run_genuine`: as long as callbacks throw only on messages without any text, nobody
    gets a message that was not pushed.
  - `drain_spares_iff`: an exception on the `k`-th message leaves the queue from it or
    from the next on, just if that message has no text.
-/

import LanTalk.Chat.MessageQueue

namespace LanTalk.Chat

open LanTalk.Lib

/-- What a move leaves. -/
def ChatMessage.movedFrom (m : ChatMessage) : ChatMessage :=
  { msgId := [], senderId := [], senderName := [], timestampUtc := m.timestampUtc, text := [] }

/-- All the strings are empty. -/
def ChatMessage.Hollow (m : ChatMessage) : Prop :=
  m.msgId = [] ∧ m.senderId = [] ∧ m.senderName = [] ∧ m.text = []

theorem movedFrom_eq_iff {m : ChatMessage} : m.movedFrom = m ↔ m.Hollow := by
  obtain ⟨msgId, senderId, senderName, timestampUtc, text⟩ := m
  simp only [ChatMessage.movedFrom, ChatMessage.Hollow, ChatMessage.mk.injEq, true_and]
  constructor
  · rintro ⟨h1, h2, h3, h4⟩
    exact ⟨h1.symm, h2.symm, h3.symm, h4.symm⟩
  · rintro ⟨rfl, rfl, rfl, rfl⟩
    exact ⟨rfl, rfl, rfl, rfl⟩

/-- Whether it throws, by what it was called with before and what it is called with. -/
abbrev Callback := List ChatMessage → ChatMessage → Bool

namespace MessageQueue

/-- `drain`'s loop: what the callback was called with, whether it threw, and the queue. -/
def drainLoopThrowing (throws : Callback) (passed : List ChatMessage) :
    List ChatMessage → List ChatMessage × Bool × List ChatMessage
  | [] => (passed, false, [])
  | msg :: rest =>
    if throws passed msg then (passed ++ [msg], true, msg.movedFrom :: rest)
    else drainLoopThrowing throws (passed ++ [msg]) rest

def drainThrowing (throws : Callback) (q : MessageQueue) : List ChatMessage × Bool × MessageQueue :=
  let (passed, thrown, rest) := drainLoopThrowing throws [] q.queue
  (passed, thrown, { q with queue := rest })

/-- The callback throws on the message at `k`, counted from 0, and on none before it. -/
structure ThrowsAt (throws : Callback) (queue : List ChatMessage) (k : Nat) (msg : ChatMessage) : Prop where
  here : queue[k]? = some msg
  returns : ∀ i < k, ∀ m, queue[i]? = some m → throws (queue.take i) m = false
  throw : throws (queue.take k) msg = true

/-- A callback that returns from every message gets them all. -/
theorem drainLoopThrowing_returns {throws : Callback} {passed queue : List ChatMessage}
    (h : ∀ i m, queue[i]? = some m → throws (passed ++ queue.take i) m = false) :
    drainLoopThrowing throws passed queue = (passed ++ queue, false, []) := by
  induction queue generalizing passed with
  | nil => rw [drainLoopThrowing, List.append_nil]
  | cons m rest ih =>
    have h0 := h 0 m rfl
    rw [List.take_zero, List.append_nil] at h0
    rw [drainLoopThrowing, if_neg (by simp [h0]), ih, List.append_assoc, List.singleton_append]
    intro i m' hm'
    simpa using h (i + 1) m' hm'

theorem drainLoopThrowing_at {throws : Callback} {passed queue : List ChatMessage} {k : Nat} {msg : ChatMessage}
    (hk : queue[k]? = some msg) (hr : ∀ i < k, ∀ m, queue[i]? = some m → throws (passed ++ queue.take i) m = false)
    (ht : throws (passed ++ queue.take k) msg = true) :
    drainLoopThrowing throws passed queue =
      (passed ++ queue.take (k + 1), true, msg.movedFrom :: queue.drop (k + 1)) := by
  induction queue generalizing passed k with
  | nil => cases hk
  | cons m rest ih =>
    cases k with
    | zero =>
      cases hk
      rw [List.take_zero, List.append_nil] at ht
      rw [drainLoopThrowing, if_pos ht]
      rfl
    | succ k =>
      have h0 := hr 0 (Nat.succ_pos k) m rfl
      rw [List.take_zero, List.append_nil] at h0
      rw [drainLoopThrowing, if_neg (by simp [h0]), ih (k := k) hk]
      · simp
      · intro i hi m' hm'
        have := hr (i + 1) (Nat.succ_lt_succ hi) m' hm'
        simpa using this
      · simpa using ht

theorem drainThrowing_at {throws : Callback} {q : MessageQueue} {k : Nat} {msg : ChatMessage}
    (h : ThrowsAt throws q.queue k msg) :
    q.drainThrowing throws =
      (q.queue.take (k + 1), true, { q with queue := msg.movedFrom :: q.queue.drop (k + 1) }) := by
  have hloop : drainLoopThrowing throws [] q.queue =
      ([] ++ q.queue.take (k + 1), true, msg.movedFrom :: q.queue.drop (k + 1)) :=
    drainLoopThrowing_at h.here h.returns h.throw
  simp only [drainThrowing, hloop, List.nil_append]

/-- It throws on some message, or it is `drain`. -/
theorem drainThrowing_cases (throws : Callback) (q : MessageQueue) :
    (∃ k msg, ThrowsAt throws q.queue k msg) ∨ q.drainThrowing throws = (q.drain.1, false, q.drain.2) := by
  by_cases h : ∃ k, ∃ msg, q.queue[k]? = some msg ∧ throws (q.queue.take k) msg = true
  · -- the first such message
    classical
    obtain ⟨msg, hk, ht⟩ := Nat.find_spec h
    refine Or.inl ⟨Nat.find h, msg, hk, fun i hi m hm => ?_, ht⟩
    by_contra hthrow
    exact Nat.find_min h hi ⟨m, hm, by simpa using hthrow⟩
  · refine Or.inr ?_
    have hloop : drainLoopThrowing throws [] q.queue = ([] ++ q.queue, false, []) := by
      refine drainLoopThrowing_returns fun i m hm => ?_
      by_contra hthrow
      exact h ⟨i, m, hm, by simpa using hthrow⟩
    simp only [drainThrowing, hloop, drain_eq, List.nil_append]

end MessageQueue

/-! ## Runs -/

inductive QueueOp where
  | plain (c : QueueCall)
  | drain (throws : Callback)

namespace QueueUse

open MessageQueue

def stepOp (u : QueueUse) : QueueOp → QueueUse
  | .plain c => u.step c
  | .drain throws =>
    let (passed, _, q) := u.messages.drainThrowing throws
    { u with messages := q, removed := u.removed ++ passed }

def runOps (u : QueueUse) : List QueueOp → QueueUse
  | [] => u
  | c :: cs => (u.stepOp c).runOps cs

/-- No callback throws on a message that has any text. -/
def Mild (u : QueueUse) : List QueueOp → Prop
  | [] => True
  | .plain c :: cs => (u.stepOp (.plain c)).Mild cs
  | .drain throws :: cs => (∀ k msg, ThrowsAt throws u.messages.queue k msg → msg.Hollow) ∧
      (u.stepOp (.drain throws)).Mild cs

/-- What is queued, and what anybody got, was there before or was pushed. -/
def Genuine (before : List ChatMessage) (u : QueueUse) : Prop :=
  ∀ m ∈ u.removed ++ u.messages.queue, m ∈ before ∨ m ∈ u.accepted

section
variable {before : List ChatMessage} {u : QueueUse}

/-- Handing out and dropping what is queued keeps it. -/
theorem Genuine.move {q : MessageQueue} {handed : List ChatMessage} (h : Genuine before u)
    (hsub : ∀ m ∈ handed ++ q.queue, m ∈ u.messages.queue) :
    Genuine before { u with messages := q, removed := u.removed ++ handed } := by
  intro m hm
  rw [List.append_assoc] at hm
  rcases List.mem_append.mp hm with hm | hm
  · exact h m (List.mem_append_left _ hm)
  · exact h m (List.mem_append_right _ (hsub m hm))

theorem step_genuine (h : Genuine before u) (c : QueueCall) : Genuine before (u.step c) := by
  have htake : Genuine before { u with messages := u.messages.takeFront.2
                                       removed := u.removed ++ u.messages.takeFront.1.toList } := by
    refine h.move fun m hm => ?_
    unfold takeFront at hm
    cases hq : u.messages.queue with
    | nil => simp [hq] at hm
    | cons msg rest => simpa [hq] using hm
  have hempty : Genuine before { u with messages := { u.messages with queue := [] }
                                        removed := u.removed ++ u.messages.queue } :=
    h.move fun m hm => (List.mem_append.mp hm).elim id fun hm => absurd hm List.not_mem_nil
  cases c with
  | push msg =>
    simp only [step, push]
    split
    · intro m hm
      rw [← List.append_assoc] at hm
      rw [if_pos rfl]
      rcases List.mem_append.mp hm with hm | hm
      · exact (h m hm).imp id fun hm => List.mem_append_left _ hm
      · exact Or.inr (List.mem_append_right _ hm)
    · exact h
  | pop => exact htake
  | tryPop => exact htake
  | clear => exact hempty
  | drain =>
    simp only [step, drain_eq]
    exact hempty

theorem stepOp_genuine (h : Genuine before u) {c : QueueOp} {cs : List QueueOp} (hm : u.Mild (c :: cs)) :
    Genuine before (u.stepOp c) ∧ (u.stepOp c).Mild cs := by
  cases c with
  | plain c => exact ⟨step_genuine h c, hm⟩
  | drain throws =>
    refine ⟨?_, hm.2⟩
    rcases drainThrowing_cases throws u.messages with ⟨k, msg, hk⟩ | hnever
    · have hsame : msg.movedFrom = msg := movedFrom_eq_iff.mpr (hm.1 k msg hk)
      simp only [stepOp, drainThrowing_at hk, hsame]
      refine h.move fun m hmem => ?_
      rcases List.mem_append.mp hmem with hmem | hmem
      · exact List.mem_of_mem_take hmem
      · rcases List.mem_cons.mp hmem with rfl | hmem
        · exact List.mem_of_getElem? hk.here
        · exact List.mem_of_mem_drop hmem
    · simp only [stepOp, hnever]
      exact step_genuine h .drain

/-- In a run whose callbacks throw on hollow messages only, nobody gets a message that was
    not pushed. -/
theorem run_genuine (h : Genuine before u) {cs : List QueueOp} (hm : u.Mild cs) : Genuine before (u.runOps cs) := by
  induction cs generalizing u with
  | nil => exact h
  | cons c cs ih =>
    obtain ⟨hg, hcs⟩ := stepOp_genuine h hm
    exact ih hg hcs

end

end QueueUse

/-! ## After an exception -/

open MessageQueue QueueUse

/-- When the callback throws on the message at `k`, the queue is left from that message or
    from the next one on, and no later call gives anybody a message that was not pushed, if
    and only if all the strings of that message are empty. Later callbacks may throw too,
    on messages of the same kind. -/
theorem drain_spares_iff (q : MessageQueue) (throws : Callback) (k : Nat) (msg : ChatMessage)
    (h : ThrowsAt throws q.queue k msg) :
    let q' := (q.drainThrowing throws).2.2
    ((q'.queue = q.queue.drop k ∨ q'.queue = q.queue.drop (k + 1)) ∧
      ∀ cs : List QueueOp, Mild { messages := q', accepted := [], removed := [] } cs →
        ∀ m ∈ (runOps { messages := q', accepted := [], removed := [] } cs).removed,
          m ∈ q.queue ∨ m ∈ (runOps { messages := q', accepted := [], removed := [] } cs).accepted) ↔
    msg.Hollow := by
  intro q'
  have hq' : q'.queue = msg.movedFrom :: q.queue.drop (k + 1) := by simp only [q', drainThrowing_at h]
  have hlt : k < q.queue.length := (List.getElem?_eq_some_iff.mp h.here).1
  have hdrop : q.queue.drop k = msg :: q.queue.drop (k + 1) := by
    rw [List.drop_eq_getElem_cons hlt, (List.getElem?_eq_some_iff.mp h.here).2]
  rw [← movedFrom_eq_iff]
  constructor
  · rintro ⟨hleft | hleft, -⟩
    · rw [hq', hdrop] at hleft
      exact (List.cons.inj hleft).1
    · have hlen := congrArg List.length (hq'.symm.trans hleft)
      simp at hlen
  · intro hsame
    have hleft : q'.queue = q.queue.drop k := by rw [hq', hdrop, hsame]
    refine ⟨Or.inl hleft, fun cs hm m hmem => ?_⟩
    have hstart : Genuine q.queue { messages := q', accepted := [], removed := [] } := by
      intro m hm
      refine Or.inl (List.mem_of_mem_drop (i := k) ?_)
      rw [← hleft]
      exact hm
    exact run_genuine hstart hm m (List.mem_append_left _ hmem)

/-- A callback that throws on the second of two messages, which has a time only. -/
theorem drain_spares_hollow :
    let q : MessageQueue := { maxSize := 8, queue := [⟨str "1", str "a", [], 0, str "hi"⟩, ⟨[], [], [], 5, []⟩] }
    let q' := (q.drainThrowing fun passed _ => passed.length == 1).2.2
    q'.queue = q.queue.drop 1 ∨ q'.queue = q.queue.drop 2 := by
  intro q q'
  have hat : ThrowsAt (fun passed _ => passed.length == 1) q.queue 1 ⟨[], [], [], 5, []⟩ :=
    ⟨rfl, by decide, rfl⟩
  exact ((drain_spares_iff q _ 1 _ hat).mpr ⟨rfl, rfl, rfl, rfl⟩).1

/-- A callback that throws on the one message queued: an empty message stays, and is popped. -/
theorem drain_leaves_empty_message :
    let m : ChatMessage := ⟨str "1", str "a", str "A", 5, str "hi"⟩
    let q : MessageQueue := { maxSize := 8, queue := [m] }
    let q' := (q.drainThrowing fun _ _ => true).2.2
    ThrowsAt (fun _ _ => true) q.queue 0 m ∧ q'.queue ≠ q.queue.drop 0 ∧ q'.queue ≠ q.queue.drop 1 ∧
      q'.pop.1 = some ⟨[], [], [], 5, []⟩ :=
  ⟨⟨rfl, by decide, rfl⟩, by decide, by decide, rfl⟩

end LanTalk.Chat
