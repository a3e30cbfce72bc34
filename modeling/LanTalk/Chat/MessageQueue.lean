/-
  LanTalk.Chat.MessageQueue — the bounded queue of chat messages
  (`src/chat/message_queue.cpp`).

  Every call holds the queue's mutex but while it waits, and `wait_for` comes back with
  the mutex and with what its predicate is then. So a call is one step, taken when it
  returns: `push` fails if there is no room at that moment, `pop` if there is nothing to
  take. A run is any sequence of calls, by any threads. `accepted` and `removed` are what
  the callers saw, in order: the messages whose push returned true, and those that `pop`
  and `tryPop` returned, `drain` handed to its callback and `clear` dropped. The callback
  does not throw.

  Proved, over every run and for every `maxSize`:
  - `fifo`: the queue never holds more than `maxSize`, a push fails only on a full queue
    and leaves it as it is, and what was accepted is what was removed followed by what is
    still queued.
-/

import LanTalk.Chat.Message

namespace LanTalk.Chat

structure MessageQueue where
  maxSize : Nat
  queue : List ChatMessage
  deriving DecidableEq, Repr

namespace MessageQueue

def new (maxSize : Nat) : MessageQueue := { maxSize := maxSize, queue := [] }

/-- Whether the message was taken, and the queue after the call. -/
def push (q : MessageQueue) (msg : ChatMessage) : Bool × MessageQueue :=
  if q.queue.length < q.maxSize then (true, { q with queue := q.queue ++ [msg] }) else (false, q)

/-- The front of the queue, if there is one. -/
def takeFront (q : MessageQueue) : Option ChatMessage × MessageQueue :=
  match q.queue with
  | [] => (none, q)
  | msg :: rest => (some msg, { q with queue := rest })

def pop (q : MessageQueue) : Option ChatMessage × MessageQueue := q.takeFront

def tryPop (q : MessageQueue) : Option ChatMessage × MessageQueue := q.takeFront

/-- The messages that were swapped out, and the queue. -/
def clear (q : MessageQueue) : List ChatMessage × MessageQueue := (q.queue, { q with queue := [] })

/-- `drain`'s loop: `passed` are the messages its callback was called with. -/
def drainLoop (passed : List ChatMessage) : List ChatMessage → List ChatMessage × List ChatMessage
  | [] => (passed, [])
  | msg :: rest => drainLoop (passed ++ [msg]) rest

def drain (q : MessageQueue) : List ChatMessage × MessageQueue :=
  let (passed, rest) := drainLoop [] q.queue
  (passed, { q with queue := rest })

theorem push_false {q : MessageQueue} {msg : ChatMessage} (h : (q.push msg).1 = false) :
    q.maxSize ≤ q.queue.length ∧ (q.push msg).2 = q := by
  unfold push at h ⊢
  split at h
  · cases h
  · rename_i hfull
    rw [if_neg hfull]
    exact ⟨Nat.not_lt.mp hfull, rfl⟩

theorem drainLoop_eq (passed queue : List ChatMessage) : drainLoop passed queue = (passed ++ queue, []) := by
  induction queue generalizing passed with
  | nil => rw [drainLoop, List.append_nil]
  | cons msg rest ih => rw [drainLoop, ih, List.append_assoc, List.singleton_append]

theorem drain_eq (q : MessageQueue) : q.drain = (q.queue, { q with queue := [] }) := by
  simp only [drain, drainLoop_eq, List.nil_append]

end MessageQueue

/-! ## Runs -/

inductive QueueCall where
  | push (msg : ChatMessage)
  | pop
  | tryPop
  | clear
  | drain
  deriving DecidableEq, Repr

/-- The queue, and what its callers saw of it. -/
structure QueueUse where
  messages : MessageQueue
  accepted : List ChatMessage
  removed : List ChatMessage

namespace QueueUse

def start (maxSize : Nat) : QueueUse := { messages := .new maxSize, accepted := [], removed := [] }

def step (u : QueueUse) : QueueCall → QueueUse
  | .push msg =>
    let (taken, q) := u.messages.push msg
    { u with messages := q, accepted := if taken then u.accepted ++ [msg] else u.accepted }
  | .pop =>
    let (msg, q) := u.messages.pop
    { u with messages := q, removed := u.removed ++ msg.toList }
  | .tryPop =>
    let (msg, q) := u.messages.tryPop
    { u with messages := q, removed := u.removed ++ msg.toList }
  | .clear =>
    let (dropped, q) := u.messages.clear
    { u with messages := q, removed := u.removed ++ dropped }
  | .drain =>
    let (passed, q) := u.messages.drain
    { u with messages := q, removed := u.removed ++ passed }

def run (u : QueueUse) : List QueueCall → QueueUse
  | [] => u
  | c :: cs => (u.step c).run cs

/-- What every call keeps. -/
structure Inv (maxSize : Nat) (u : QueueUse) : Prop where
  maxSize_eq : u.messages.maxSize = maxSize
  bounded : u.messages.queue.length ≤ maxSize
  conserved : u.accepted = u.removed ++ u.messages.queue

theorem start_inv (maxSize : Nat) : Inv maxSize (start maxSize) := ⟨rfl, Nat.zero_le _, rfl⟩

/-- Taking the front of the queue, and noting it, keeps the invariant. -/
theorem takeFront_inv {maxSize : Nat} {u : QueueUse} (h : Inv maxSize u) :
    Inv maxSize { u with messages := u.messages.takeFront.2
                         removed := u.removed ++ u.messages.takeFront.1.toList } := by
  obtain ⟨hm, hb, hc⟩ := h
  unfold MessageQueue.takeFront
  cases hq : u.messages.queue with
  | nil =>
    rw [hq] at hc
    exact ⟨hm, hb, by simpa [hq] using hc⟩
  | cons msg rest =>
    rw [hq, List.length_cons] at hb
    rw [hq] at hc
    have hlen : rest.length ≤ maxSize := by omega
    exact ⟨hm, hlen, by simpa using hc⟩

theorem step_inv {maxSize : Nat} {u : QueueUse} (h : Inv maxSize u) (c : QueueCall) : Inv maxSize (u.step c) := by
  obtain ⟨hm, hb, hc⟩ := h
  -- emptying the queue at once, with all of it noted
  have hempty : Inv maxSize { u with messages := { u.messages with queue := [] }
                                     removed := u.removed ++ u.messages.queue } :=
    ⟨hm, Nat.zero_le _, by rw [List.append_nil]; exact hc⟩
  cases c with
  | push msg =>
    simp only [step, MessageQueue.push]
    split
    · rename_i hroom
      have hlen : (u.messages.queue ++ [msg]).length ≤ maxSize := by
        rw [List.length_append, List.length_singleton]
        omega
      exact ⟨hm, hlen, by rw [if_pos rfl, hc, List.append_assoc]⟩
    · exact ⟨hm, hb, hc⟩
  | pop => exact takeFront_inv ⟨hm, hb, hc⟩
  | tryPop => exact takeFront_inv ⟨hm, hb, hc⟩
  | clear => exact hempty
  | drain =>
    simp only [step, MessageQueue.drain_eq]
    exact hempty

theorem run_inv {maxSize : Nat} {u : QueueUse} (h : Inv maxSize u) (cs : List QueueCall) :
    Inv maxSize (u.run cs) := by
  induction cs generalizing u with
  | nil => exact h
  | cons c cs ih => exact ih (step_inv h c)

/-- After any calls: the queue is within its bound; a push that fails finds it full and
    leaves it as it is; and the accepted messages are the removed ones, in order, and then
    the queued ones. -/
theorem fifo (maxSize : Nat) (cs : List QueueCall) :
    let u := (start maxSize).run cs
    u.messages.queue.length ≤ maxSize ∧
    (∀ msg, (u.messages.push msg).1 = false →
      u.messages.queue.length = maxSize ∧ (u.messages.push msg).2 = u.messages) ∧
    u.accepted = u.removed ++ u.messages.queue := by
  intro u
  obtain ⟨hm, hb, hc⟩ := run_inv (start_inv maxSize) cs
  refine ⟨hb, fun msg hf => ?_, hc⟩
  obtain ⟨hfull, hsame⟩ := MessageQueue.push_false hf
  have hge : maxSize ≤ u.messages.queue.length := le_of_eq_of_le hm.symm hfull
  exact ⟨Nat.le_antisymm hb hge, hsame⟩

end QueueUse

end LanTalk.Chat
