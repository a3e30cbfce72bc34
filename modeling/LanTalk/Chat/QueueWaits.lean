/-
  LanTalk.Chat.QueueWaits — the message queue with its two condition variables
  (`src/chat/message_queue.cpp`). `push` waits on `notFull` while the queue is full and
  `pop` on `notEmpty` while it is empty, each for a time at most; `wait_for` looks at the
  predicate before it waits, each time it is woken, and once more when the time is up.

  A step is what a thread does in one hold of the mutex. `push`, `pop`, `tryPop`, `clear`
  and `drain` are calls; a call that waits ends with a later `pushAgain` or `popAgain`,
  which may find the predicate false and wait again unless its time is up. A wait also
  ends without a notification (`wakePush`, `wakePop`). The scheduler chooses which waiter a
  `notify_one` wakes. `done` are the calls that have returned, with what they returned. A
  callback of `drain` does not call the queue.

  Proved, over every run and for every `maxSize`:
  - `calls_are_steps`: the calls return what they would return one after the other, each a
    single step taken when it returns.
  - `no_wakeup_lost`: while a thread waits to pop, as many are woken as messages are queued.
    So it is with the threads that wait to push and the free places, as long as no callback
    throws after the first message of its drain.
-/

import LanTalk.Chat.Drain
import LanTalk.Lib.Condition
import LanTalk.Lib.Machine

namespace LanTalk.Chat

open LanTalk.Lib LanTalk.Lib.Machine

/-! ## One call after the other -/

/-- What a call returns. Of `clear` and `drain` it is what they took out, and whether
    `drain` threw. -/
inductive QueueAnswer where
  | pushed (taken : Bool)
  | popped (msg : Option ChatMessage)
  | cleared (dropped : List ChatMessage)
  | drained (passed : List ChatMessage) (thrown : Bool)
  deriving DecidableEq

/-- A call on the queue, by itself: what it returns, and the queue. -/
def MessageQueue.apply (q : MessageQueue) : QueueOp → QueueAnswer × MessageQueue
  | .plain (.push msg) => (.pushed (q.push msg).1, (q.push msg).2)
  | .plain .pop => (.popped q.pop.1, q.pop.2)
  | .plain .tryPop => (.popped q.tryPop.1, q.tryPop.2)
  | .plain .clear => (.cleared q.clear.1, q.clear.2)
  | .plain .drain => (.drained q.drain.1 false, q.drain.2)
  | .drain throws =>
    let (passed, thrown, q') := q.drainThrowing throws
    (.drained passed thrown, q')

namespace QueueUse

/-- What the calls return, taken one after the other. -/
def answers (u : QueueUse) : List QueueOp → List QueueAnswer
  | [] => []
  | op :: ops => (u.messages.apply op).1 :: (u.stepOp op).answers ops

theorem stepOp_messages (u : QueueUse) (op : QueueOp) : (u.stepOp op).messages = (u.messages.apply op).2 := by
  cases op with
  | plain c => cases c <;> rfl
  | drain throws => rfl

theorem runOps_append (u : QueueUse) (ops ops' : List QueueOp) :
    u.runOps (ops ++ ops') = (u.runOps ops).runOps ops' := by
  induction ops generalizing u with
  | nil => rfl
  | cons op ops ih => exact ih (u.stepOp op)

theorem answers_append (u : QueueUse) (ops ops' : List QueueOp) :
    u.answers (ops ++ ops') = u.answers ops ++ (u.runOps ops).answers ops' := by
  induction ops generalizing u with
  | nil => rfl
  | cons op ops ih => exact congrArg ((u.messages.apply op).1 :: ·) (ih (u.stepOp op))

end QueueUse

/-! ## Calls that wait -/

/-- The queue and the threads that wait on it: in `push` each with its message. -/
structure WaitingQueue where
  messages : MessageQueue
  notEmpty : Condition Nat := {}
  notFull : Condition (Nat × ChatMessage) := {}
  done : List (QueueOp × QueueAnswer) := []

/-- `pick` is the waiter that the call's `notify_one` wakes. -/
inductive QueueEvent where
  | push (t : Nat) (msg : ChatMessage) (pick : Nat)
  | pushAgain (t : Nat) (msg : ChatMessage) (expired : Bool) (pick : Nat)
  | wakePush (t : Nat) (msg : ChatMessage)
  | pop (t : Nat) (pick : Nat)
  | popAgain (t : Nat) (expired : Bool) (pick : Nat)
  | wakePop (t : Nat)
  | tryPop (t : Nat) (pick : Nat)
  | clear (t : Nat)
  | drain (t : Nat) (throws : Callback)

namespace WaitingQueue

def start (maxSize : Nat) : WaitingQueue := { messages := .new maxSize }

/-- `push`'s predicate. -/
def room (S : WaitingQueue) : Bool := decide (S.messages.queue.length < S.messages.maxSize)

/-- `pop`'s predicate. -/
def filled (S : WaitingQueue) : Bool := !S.messages.queue.isEmpty

def returns (S : WaitingQueue) (op : QueueOp) (answer : QueueAnswer) : WaitingQueue :=
  { S with done := S.done ++ [(op, answer)] }

/-- The rest of `push` when its wait has returned true. -/
def put (S : WaitingQueue) (msg : ChatMessage) (pick : Nat) : Option WaitingQueue :=
  (S.notEmpty.notifyOne pick).map fun c =>
    { S with messages := { S.messages with queue := S.messages.queue ++ [msg] }, notEmpty := c }.returns
      (.plain (.push msg)) (.pushed true)

/-- The rest of `pop` and of `tryPop` when the queue is not empty. -/
def take (S : WaitingQueue) (op : QueueCall) (pick : Nat) : Option WaitingQueue :=
  match S.messages.queue with
  | [] => none
  | msg :: rest => (S.notFull.notifyOne pick).map fun c =>
      { S with messages := { S.messages with queue := rest }, notFull := c }.returns (.plain op) (.popped (some msg))

/-- The thread is in a call that waits. -/
def inCall (S : WaitingQueue) (t : Nat) : Bool :=
  S.notEmpty.threads.contains t || (S.notFull.threads.map Prod.fst).contains t

/-- The thread runs on when it is woken, and when its time is up. -/
def returnsFrom {τ : Type} [DecidableEq τ] (c : Condition τ) (t : τ) (expired : Bool) : Bool :=
  c.woken.contains t || expired && c.waiting.contains t

def call (S : WaitingQueue) (t : Nat) (after : Option WaitingQueue) : Option WaitingQueue :=
  if S.inCall t then none else after

def step (S : WaitingQueue) : QueueEvent → Option WaitingQueue
  | .push t msg pick => S.call t <|
      if S.room then S.put msg pick else some { S with notFull := S.notFull.block (t, msg) }
  | .pushAgain t msg expired pick =>
      if returnsFrom S.notFull (t, msg) expired then
        if S.room then { S with notFull := S.notFull.leave (t, msg) }.put msg pick
        else if expired then
          some ({ S with notFull := S.notFull.leave (t, msg) }.returns (.plain (.push msg)) (.pushed false))
        else some { S with notFull := S.notFull.again (t, msg) }
      else none
  | .wakePush t msg =>
      if S.notFull.waiting.contains (t, msg) then some { S with notFull := S.notFull.wake (t, msg) } else none
  | .pop t pick => S.call t <|
      if S.filled then S.take .pop pick else some { S with notEmpty := S.notEmpty.block t }
  | .popAgain t expired pick =>
      if returnsFrom S.notEmpty t expired then
        if S.filled then { S with notEmpty := S.notEmpty.leave t }.take .pop pick
        else if expired then
          some ({ S with notEmpty := S.notEmpty.leave t }.returns (.plain .pop) (.popped none))
        else some { S with notEmpty := S.notEmpty.again t }
      else none
  | .wakePop t => if S.notEmpty.waiting.contains t then some { S with notEmpty := S.notEmpty.wake t } else none
  | .tryPop t pick => S.call t <|
      if S.filled then S.take .tryPop pick else some (S.returns (.plain .tryPop) (.popped none))
  | .clear t => S.call t <|
      some ({ S with messages := S.messages.clear.2, notFull := S.notFull.notifyAll }.returns
        (.plain .clear) (.cleared S.messages.clear.1))
  | .drain t throws => S.call t <|
      -- an exception leaves `drain` before it notifies anybody
      let (passed, thrown, q) := S.messages.drainThrowing throws
      some ({ S with messages := q, notFull := if thrown then S.notFull else S.notFull.notifyAll }.returns
        (.drain throws) (.drained passed thrown))

/-! ## What a step does -/

variable {S S' : WaitingQueue} {e : QueueEvent}

/-- By what it finds: there is room, there is a message, the queue is full, it is empty, or
    the step does not look. -/
inductive Acts (S : WaitingQueue) : QueueEvent → WaitingQueue → Prop
  | put {e : QueueEvent} {S' : WaitingQueue} {c : Condition (Nat × ChatMessage)} {msg : ChatMessage} {pick : Nat} :
      S.room = true → (c = S.notFull ∨ ∃ x, c = S.notFull.leave x) →
      { S with notFull := c }.put msg pick = some S' → Acts S e S'
  | take {e : QueueEvent} {S' : WaitingQueue} {c : Condition Nat} {op : QueueCall} {pick : Nat} :
      op = .pop ∨ op = .tryPop → (c = S.notEmpty ∨ ∃ t, c = S.notEmpty.leave t) →
      { S with notEmpty := c }.take op pick = some S' → Acts S e S'
  | full {e : QueueEvent} (c : Condition (Nat × ChatMessage)) : S.room = false → Acts S e { S with notFull := c }
  | fullReturns {e : QueueEvent} (c : Condition (Nat × ChatMessage)) (msg : ChatMessage) : S.room = false →
      Acts S e ({ S with notFull := c }.returns (.plain (.push msg)) (.pushed false))
  | empty {e : QueueEvent} (c : Condition Nat) : S.filled = false → Acts S e { S with notEmpty := c }
  | emptyReturns {e : QueueEvent} (c : Condition Nat) {op : QueueCall} : op = .pop ∨ op = .tryPop → S.filled = false →
      Acts S e ({ S with notEmpty := c }.returns (.plain op) (.popped none))
  | wakePush {e : QueueEvent} (x : Nat × ChatMessage) : Acts S e { S with notFull := S.notFull.wake x }
  | wakePop {e : QueueEvent} (t : Nat) : Acts S e { S with notEmpty := S.notEmpty.wake t }
  | clear {e : QueueEvent} :
      Acts S e ({ S with messages := S.messages.clear.2, notFull := S.notFull.notifyAll }.returns
        (.plain .clear) (.cleared S.messages.clear.1))
  | drain (t : Nat) (throws : Callback) {passed : List ChatMessage} {thrown : Bool} {q : MessageQueue} :
      S.messages.drainThrowing throws = (passed, thrown, q) →
      Acts S (.drain t throws) ({ S with
        messages := q, notFull := if thrown then S.notFull else S.notFull.notifyAll }.returns
        (.drain throws) (.drained passed thrown))

theorem call_some {t : Nat} {after : Option WaitingQueue} (h : S.call t after = some S') : after = some S' := by
  unfold call at h
  split at h
  · cases h
  · exact h

theorem step_acts (h : S.step e = some S') : Acts S e S' := by
  cases e with
  | push t msg pick =>
    have h := call_some h
    split at h
    · exact .put ‹_› (Or.inl rfl) h
    · cases h
      exact .full _ (Bool.not_eq_true _ ▸ ‹_›)
  | pushAgain t msg expired pick =>
    simp only [step] at h
    split at h
    · split at h
      · exact .put ‹_› (Or.inr ⟨_, rfl⟩) h
      · rename_i hfull
        rw [Bool.not_eq_true] at hfull
        split at h
        · cases h
          exact .fullReturns _ msg hfull
        · cases h
          exact .full _ hfull
    · cases h
  | wakePush t msg =>
    simp only [step] at h
    split at h
    · cases h
      exact .wakePush _
    · cases h
  | pop t pick =>
    have h := call_some h
    split at h
    · exact .take (Or.inl rfl) (Or.inl rfl) h
    · cases h
      exact .empty _ (Bool.not_eq_true _ ▸ ‹_›)
  | popAgain t expired pick =>
    simp only [step] at h
    split at h
    · split at h
      · exact .take (Or.inl rfl) (Or.inr ⟨_, rfl⟩) h
      · rename_i hempty
        rw [Bool.not_eq_true] at hempty
        split at h
        · cases h
          exact .emptyReturns _ (Or.inl rfl) hempty
        · cases h
          exact .empty _ hempty
    · cases h
  | wakePop t =>
    simp only [step] at h
    split at h
    · cases h
      exact .wakePop _
    · cases h
  | tryPop t pick =>
    have h := call_some h
    split at h
    · exact .take (Or.inr rfl) (Or.inl rfl) h
    · rename_i hempty
      cases h
      exact .emptyReturns S.notEmpty (Or.inr rfl) (by rwa [Bool.not_eq_true] at hempty)
  | clear t =>
    have h := call_some h
    cases h
    exact .clear
  | drain t throws =>
    have h := call_some h
    cases h
    exact .drain t throws rfl

/-! ## The calls are steps of the queue -/

/-- A step returns from no call and leaves the queue, or it is a call on the queue. -/
def Single (S S' : WaitingQueue) : Prop :=
  (S'.done = S.done ∧ S'.messages = S.messages) ∨
  ∃ op, S'.done = S.done ++ [(op, (S.messages.apply op).1)] ∧ S'.messages = (S.messages.apply op).2

theorem single_returns {op : QueueOp} {answer : QueueAnswer} {q : MessageQueue}
    (happly : S.messages.apply op = (answer, q)) (hdone : S'.done = S.done) (hmessages : S'.messages = q) :
    Single S (S'.returns op answer) := by
  refine Or.inr ⟨op, ?_, ?_⟩
  · show S'.done ++ [(op, answer)] = _
    rw [hdone, happly]
  · show S'.messages = _
    rw [hmessages, happly]

theorem apply_pop {op : QueueCall} (hop : op = .pop ∨ op = .tryPop) :
    S.messages.apply (.plain op) = (.popped S.messages.takeFront.1, S.messages.takeFront.2) := by
  rcases hop with rfl | rfl
  · rfl
  · rfl

theorem Acts.single (h : Acts S e S') : Single S S' := by
  cases h with
  | put hroom _ hput =>
    obtain ⟨c', -, rfl⟩ := Option.map_eq_some_iff.mp hput
    have hlt : S.messages.queue.length < S.messages.maxSize := of_decide_eq_true hroom
    refine single_returns ?_ rfl rfl
    rw [MessageQueue.apply, MessageQueue.push, if_pos hlt]
  | take hop _ htake =>
    unfold WaitingQueue.take at htake
    split at htake
    · cases htake
    · rename_i msg rest hqueue
      obtain ⟨c', -, rfl⟩ := Option.map_eq_some_iff.mp htake
      refine single_returns ?_ rfl rfl
      have hfront : S.messages.takeFront = (some msg, { S.messages with queue := rest }) := by
        rw [MessageQueue.takeFront, show S.messages.queue = msg :: rest from hqueue]
      rw [apply_pop hop, hfront]
  | full c hfull => exact Or.inl ⟨rfl, rfl⟩
  | fullReturns c msg hfull =>
    have hge : ¬S.messages.queue.length < S.messages.maxSize := of_decide_eq_false hfull
    refine single_returns ?_ rfl rfl
    rw [MessageQueue.apply, MessageQueue.push, if_neg hge]
  | empty c hempty => exact Or.inl ⟨rfl, rfl⟩
  | emptyReturns c hop hempty =>
    refine single_returns ?_ rfl rfl
    have hqueue : S.messages.queue = [] := by simpa [filled] using hempty
    rw [apply_pop hop, MessageQueue.takeFront, hqueue]
  | wakePush x => exact Or.inl ⟨rfl, rfl⟩
  | wakePop t => exact Or.inl ⟨rfl, rfl⟩
  | clear => exact single_returns rfl rfl rfl
  | drain t throws hdrain =>
    refine single_returns ?_ rfl rfl
    rw [MessageQueue.apply, hdrain]

/-- The calls that have returned, one after the other, give what they returned and this
    queue. -/
def Played (maxSize : Nat) (S : WaitingQueue) : Prop :=
  S.done.map Prod.snd = (QueueUse.start maxSize).answers (S.done.map Prod.fst) ∧
  S.messages = ((QueueUse.start maxSize).runOps (S.done.map Prod.fst)).messages

theorem Single.played {maxSize : Nat} (hs : Single S S') (h : Played maxSize S) : Played maxSize S' := by
  obtain ⟨hanswers, hmessages⟩ := h
  rcases hs with ⟨hdone, hsame⟩ | ⟨op, hdone, happly⟩
  · refine ⟨?_, ?_⟩
    · rw [hdone, hanswers]
    · rw [hsame, hdone, hmessages]
  · refine ⟨?_, ?_⟩
    · rw [hdone, List.map_append, List.map_append, QueueUse.answers_append, hanswers, hmessages]
      rfl
    · rw [hdone, List.map_append, QueueUse.runOps_append, happly, hmessages]
      exact (QueueUse.stepOp_messages _ op).symm

/-- However the calls of the threads wait and are woken, those that have returned returned
    what they would have returned one after the other, in the order in which they returned,
    and left the queue that they would have left. -/
theorem calls_are_steps (maxSize : Nat) (S : WaitingQueue)
    (h : Reach step (fun _ _ => True) (start maxSize) S) :
    S.done.map Prod.snd = (QueueUse.start maxSize).answers (S.done.map Prod.fst) ∧
    S.messages = ((QueueUse.start maxSize).runOps (S.done.map Prod.fst)).messages :=
  Reach.invariant (I := Played maxSize) ⟨rfl, rfl⟩ (fun _ _ _ hI _ hstep => (step_acts hstep).single.played hI) h

def note (n : Int64) : ChatMessage := ⟨[], [], [], n, str "hi"⟩

/-- Two pushes wait for the one place; the second takes it from the first, which was woken
    for it and whose time is up when it comes back. -/
def contended : List QueueEvent :=
  [.push 1 (note 1) 0, .push 2 (note 2) 0, .push 3 (note 3) 0, .pop 4 0, .tryPop 5 0, .wakePush 3 (note 3),
    .pushAgain 3 (note 3) false 0, .pushAgain 2 (note 2) true 0]

def undrained : QueueEvent → Bool
  | .drain _ _ => false
  | _ => true

theorem calls_are_steps_contended :
    ∃ S : WaitingQueue,
      S.done.map Prod.snd = [.pushed true, .popped (some (note 1)), .popped none, .pushed true, .pushed false] ∧
      S.done.map Prod.snd = (QueueUse.start 1).answers (S.done.map Prod.fst) := by
  have hrun : ((run (checked step fun _ e => undrained e) (start 1) contended).map fun S =>
      S.done.map Prod.snd == [.pushed true, .popped (some (note 1)), .popped none, .pushed true, .pushed false]) =
        some true := by decide
  obtain ⟨S, hS, hp⟩ := reach_of_run (fun _ _ _ _ => trivial) hrun
  exact ⟨S, beq_iff_eq.mp hp, (calls_are_steps 1 S hS).1⟩

/-! ## No wake-up is lost -/

/-- If the callback throws, it is on the first message. -/
def Spares (S : WaitingQueue) : QueueEvent → Prop
  | .drain _ throws => ∀ k msg, MessageQueue.ThrowsAt throws S.messages.queue k msg → k = 0
  | _ => True

/-- `spared` is whether the second part is claimed. -/
structure Awake (maxSize : Nat) (spared : Prop) (S : WaitingQueue) : Prop where
  maxSize_eq : S.messages.maxSize = maxSize
  pop : S.notEmpty.Covered S.messages.queue.length
  push : spared → S.notFull.Covered (maxSize - S.messages.queue.length)

section
variable {maxSize : Nat} {spared : Prop}

theorem put_awake {msg : ChatMessage} {pick : Nat} (hm : S.messages.maxSize = maxSize)
    (hpop : S.notEmpty.Covered S.messages.queue.length)
    (hpush : spared → S.notFull.Covered (maxSize - (S.messages.queue.length + 1)))
    (h : S.put msg pick = some S') : Awake maxSize spared S' := by
  obtain ⟨c, hc, rfl⟩ := Option.map_eq_some_iff.mp h
  have hlen : (S.messages.queue ++ [msg]).length = S.messages.queue.length + 1 := List.length_append
  refine ⟨hm, ?_, fun hs => ?_⟩
  · show c.Covered (S.messages.queue ++ [msg]).length
    rw [hlen]
    exact hpop.notifyOne hc
  · show S.notFull.Covered (maxSize - (S.messages.queue ++ [msg]).length)
    rw [hlen]
    exact hpush hs

theorem take_awake {op : QueueCall} {pick : Nat} (hm : S.messages.maxSize = maxSize)
    (hpop : S.notEmpty.Covered (S.messages.queue.length - 1))
    (hpush : spared → S.notFull.Covered (maxSize - S.messages.queue.length))
    (h : S.take op pick = some S') : Awake maxSize spared S' := by
  unfold WaitingQueue.take at h
  split at h
  · cases h
  · rename_i msg rest hqueue
    obtain ⟨c, hc, rfl⟩ := Option.map_eq_some_iff.mp h
    rw [hqueue, List.length_cons] at hpop hpush
    refine ⟨hm, hpop, fun hs => ?_⟩
    -- one place more
    exact ((hpush hs).notifyOne hc).fewer (by show maxSize - rest.length ≤ _; omega)

/-- A drain takes messages away. It takes none if the callback throws on the first one. -/
theorem drain_length {q q' : MessageQueue} {throws : Callback} {passed : List ChatMessage} {thrown : Bool}
    (h : q.drainThrowing throws = (passed, thrown, q')) :
    q'.maxSize = q.maxSize ∧ q'.queue.length ≤ q.queue.length ∧
    ((∀ k msg, MessageQueue.ThrowsAt throws q.queue k msg → k = 0) → thrown = true →
      q'.queue.length = q.queue.length) := by
  rcases MessageQueue.drainThrowing_cases throws q with ⟨k, msg, hk⟩ | hnever
  · have hlt : k < q.queue.length := (List.getElem?_eq_some_iff.mp hk.here).1
    rw [MessageQueue.drainThrowing_at hk] at h
    cases h
    have hlen : (msg.movedFrom :: q.queue.drop (k + 1)).length = q.queue.length - k := by
      rw [List.length_cons, List.length_drop]
      omega
    refine ⟨rfl, by rw [hlen]; omega, fun hfirst _ => ?_⟩
    rw [hlen, hfirst k msg hk, Nat.sub_zero]
  · rw [hnever, MessageQueue.drain_eq] at h
    cases h
    exact ⟨rfl, Nat.zero_le _, fun _ => nofun⟩

theorem Acts.awake (h : Acts S e S') (hi : Awake maxSize spared S) (hs : spared → Spares S e) :
    Awake maxSize spared S' := by
  obtain ⟨hm, hpop, hpush⟩ := hi
  -- what a full queue and an empty one leave to go for
  have hnoRoom : ∀ c : Condition (Nat × ChatMessage), S.room = false →
      c.Covered (maxSize - S.messages.queue.length) := by
    intro c hfull
    have hge : ¬S.messages.queue.length < S.messages.maxSize := of_decide_eq_false hfull
    exact Condition.Covered.fewer (.nothing c) (by omega)
  have hnoMsg : ∀ c : Condition Nat, S.filled = false → c.Covered S.messages.queue.length := by
    intro c hempty
    have hqueue : S.messages.queue = [] := by simpa [filled] using hempty
    rw [hqueue]
    exact .nothing c
  cases h with
  | put hroom hc hput =>
    refine put_awake ?_ ?_ (fun hsp => ?_) hput
    · exact hm
    · exact hpop
    have hlt : S.messages.queue.length < S.messages.maxSize := of_decide_eq_true hroom
    rcases hc with rfl | ⟨x, rfl⟩
    · exact (hpush hsp).fewer (by show maxSize - (S.messages.queue.length + 1) ≤ _; omega)
    · exact ((hpush hsp).fewer (by show maxSize - (S.messages.queue.length + 1) + 1 ≤ _; omega)).leave x
  | take _ hc htake =>
    refine take_awake ?_ ?_ ?_ htake
    · exact hm
    rotate_left
    · exact hpush
    rcases hc with rfl | ⟨t, rfl⟩
    · exact hpop.fewer (Nat.sub_le _ _)
    · show (S.notEmpty.leave t).Covered (S.messages.queue.length - 1)
      cases hqueue : S.messages.queue.length with
      | zero => exact .nothing _
      | succ n =>
        rw [hqueue] at hpop
        exact hpop.leave t
  | full c hfull => exact ⟨hm, hpop, fun _ => hnoRoom c hfull⟩
  | fullReturns c msg hfull => exact ⟨hm, hpop, fun _ => hnoRoom c hfull⟩
  | empty c hempty => exact ⟨hm, hnoMsg c hempty, hpush⟩
  | emptyReturns c _ hempty => exact ⟨hm, hnoMsg c hempty, hpush⟩
  | wakePush x => exact ⟨hm, hpop, fun hsp => (hpush hsp).wake x⟩
  | wakePop t => exact ⟨hm, hpop.wake t, hpush⟩
  | clear => exact ⟨hm, hpop.fewer (Nat.zero_le _), fun _ => .notifyAll _ _⟩
  | @drain t throws passed thrown q hdrain =>
    obtain ⟨hsize, hle, hfirst⟩ := drain_length hdrain
    refine ⟨hsize.trans hm, hpop.fewer hle, fun hsp => ?_⟩
    show (if thrown then S.notFull else S.notFull.notifyAll).Covered (maxSize - q.queue.length)
    split
    · rename_i hthrown
      rw [hfirst (hs hsp) hthrown]
      exact hpush hsp
    · exact .notifyAll _ _

end

theorem start_awake (maxSize : Nat) (spared : Prop) : Awake maxSize spared (start maxSize) :=
  ⟨rfl, .nothing _, fun _ hw => absurd rfl hw⟩

/-- While a thread waits to pop, at least as many are woken, and not yet back, as messages
    are queued; and while one waits to push, as many as places are free, if no callback
    has thrown after the first message of its drain. So nobody waits beside what it waits
    for, unless others are on their way to it. -/
theorem no_wakeup_lost (maxSize : Nat) (S : WaitingQueue)
    (h : Reach step (fun _ _ => True) (start maxSize) S) :
    (S.notEmpty.waiting ≠ [] → S.messages.queue.length ≤ S.notEmpty.woken.length) ∧
    (Reach step Spares (start maxSize) S →
      S.notFull.waiting ≠ [] → maxSize - S.messages.queue.length ≤ S.notFull.woken.length) := by
  have hstep : ∀ (spared : Prop) (S : WaitingQueue) (e : QueueEvent) (S' : WaitingQueue), Awake maxSize spared S →
      (spared → Spares S e) → step S e = some S' → Awake maxSize spared S' :=
    fun _ _ _ _ hI hs hst => (step_acts hst).awake hI hs
  refine ⟨?_, fun hsp => ?_⟩
  · exact (h.invariant (start_awake maxSize False) fun S e S' hI _ => hstep False S e S' hI nofun).pop
  · exact (hsp.invariant (start_awake maxSize True) fun S e S' hI ha => hstep True S e S' hI fun _ => ha).push trivial

theorem undrained_spares {S : WaitingQueue} {e : QueueEvent} (h : undrained e = true) : Spares S e := by
  cases e with
  | drain t throws => cases h
  | _ => trivial

/-- After the fifth step of `contended` the first push has been woken for the place. -/
theorem no_wakeup_lost_contended :
    ∃ S : WaitingQueue, S.notFull.waiting = [(3, note 3)] ∧ 1 - S.messages.queue.length = 1 ∧
      1 - S.messages.queue.length ≤ S.notFull.woken.length := by
  have hrun : ((run (checked step fun _ e => undrained e) (start 1) (contended.take 5)).map fun S : WaitingQueue =>
      S.notFull.waiting == [(3, note 3)] && 1 - S.messages.queue.length == 1) = some true := by decide
  obtain ⟨S, hS, hp⟩ := reach_of_run (fun _ _ _ hc => undrained_spares hc) hrun
  simp only [Bool.and_eq_true, beq_iff_eq] at hp
  have hwait : S.notFull.waiting ≠ [] := by rw [hp.1]; exact List.cons_ne_nil _ _
  exact ⟨S, hp.1, hp.2, (no_wakeup_lost 1 S (hS.mono fun _ _ _ => trivial)).2 hS hwait⟩

/-- A callback that throws on the second of two messages: a push goes on waiting, with
    nobody woken, beside a free place. -/
example : ((run step (start 2) [.push 1 (note 1) 0, .push 2 (note 2) 0, .push 3 (note 3) 0,
      .drain 4 fun passed _ => passed.length == 1]).map fun S : WaitingQueue =>
    (S.messages.queue.length, S.notFull.waiting, S.notFull.woken)) = some (1, [(3, note 3)], []) := by decide

end WaitingQueue

end LanTalk.Chat
