/-
  LanTalk.Chat.Runs — a session in use. `Sys` is a session, the pieces each of its threads
  has still to run, and what was seen so far; `step` lets any thread go on, so a run is any
  interleaving. Application threads call the session (`call`), the receive thread of a
  connection reads its socket (`poll`, `read`: `recv` may return long after it was entered),
  and every thread runs what it has to do one piece at a time (`run`).

  `Wiring` is what whoever made a connection put in its callbacks: the ids it passes to
  `onFrame` and `onDisconnect`.

  A connection is destroyed when its last `shared_ptr` goes (`Session.release`): the one in
  `connections_`, or one of a call that still uses it (`held`). That the destructor waits for
  the receive thread is left out, so threads may go on here where they would wait.

  Proved: `Reachable.rule`, the invariant rule of all runs. An invariant of the maps and the
  log, with one of the pieces still to run, is shown once for each piece.
-/

import LanTalk.Chat.SessionProofs
import LanTalk.Lib.Machine

namespace LanTalk.Chat

open LanTalk.Lib LanTalk.Network LanTalk.Config

/-! ## Connection ids -/

/-- What `makeConnId` makes an id of: eight random bytes, or the clock where `RAND_bytes` fails. -/
inductive IdSource where
  | bytes (b : Vector UInt8 8)
  | clock (ts : Int64)
  deriving DecidableEq

def makeConnId : IdSource → ConnId
  | .bytes b => b.toList.flatMap fun x => [hexDigit (x.toNat / 16), hexDigit (x.toNat % 16)]
  | .clock ts => str "conn" ++ intText ts.toInt

/-- No connection is registered under the empty id. -/
theorem makeConnId_ne_nil (r : IdSource) : makeConnId r ≠ [] := by
  cases r with
  | bytes b =>
    intro h
    have hl : b.toList.length = 8 := b.length_toList
    cases hb : b.toList with
    | nil => rw [hb] at hl; cases hl
    | cons x xs => simp [makeConnId, hb] at h
  | clock ts => simp [makeConnId, show str "conn" ≠ [] by decide]

/-! ## Threads -/

inductive Tid where
  | app (n : Nat)
  | recv (h : Handle)
  deriving DecidableEq

structure Sys where
  s : Session := {}
  todo : Tid → List Act := fun _ => []
  /-- The `shared_ptr`s of the calls under way. -/
  held : List Handle := []
  /-- The receive threads that have entered `recv`. -/
  reading : Handle → Bool := fun _ => false
  /-- What was seen, and which thread did it; newest first. -/
  log : List (Tid × Out) := []

/-- The ids a connection's callbacks pass on. -/
structure Wiring where
  frameId : Handle → ConnId
  lostId : Handle → ConnId

/-- The calls a session takes from outside. -/
inductive Op where
  | start
  | addConnection
  | sendTo (peerId msgId : Bytes) (timestampUtc : Int64) (text : Bytes)
  | broadcast (msgId : Bytes) (timestampUtc : Int64) (text : Bytes)
  | pingSweep
  | stop
  | onFrame (c : ConnId) (f : Frame)
  | onDisconnect (c : ConnId) (reason : Bytes)
  deriving DecidableEq

inductive Label where
  | call (n : Nat) (op : Op)
  | poll (h : Handle)
  /-- `recv` returns: bytes, or none where there are no more; and whether a second has passed. -/
  | read (h : Handle) (data : Option Bytes) (elapsed : Bool)
  | run (t : Tid) (net : Handle → Frame → Bool)

section
variable (config : AppConfig) (ids : Handle → ConnId) (w : Wiring)

/-- The calls that are not a connection's: its frames and its closure come from its own
    receive thread. -/
def Op.FromUser : Op → Prop
  | .onFrame _ _ | .onDisconnect _ _ => False
  | _ => True

/-- What a call has its thread do; `h` is the connection `addConnection` is given. -/
def Op.acts (h : Handle) : Op → List Act
  | .start => [.startSession]
  | .addConnection => [.register h]
  | .sendTo peerId msgId timestampUtc text => [.pick peerId (newMessage config msgId timestampUtc text)]
  | .broadcast msgId timestampUtc text => [.broadcast (newMessage config msgId timestampUtc text).toJson]
  | .pingSweep => [.sweep]
  | .stop => [.stop]
  | .onFrame c f => [.frame c f]
  | .onDisconnect c reason => [.drop c reason]

/-- The caller of `addConnection` makes the connection. -/
def Op.enter (s : Session) : Op → Session
  | .addConnection => { s with next := s.next + 1 }
  | _ => s

/-- The connection that the call with this piece to run holds until it has run it. -/
def Act.holds : Act → Option Handle
  | .register h | .sendHello h _ | .chat _ h _ => some h
  | _ => none

/-- Of the connections `hs`, those that neither `connections_` nor a call holds any more are
    destroyed. -/
def Session.release (s : Session) (held hs : List Handle) : Session :=
  { s with objs := fun h =>
      if h ∈ hs ∧ h ∉ held ∧ h ∉ s.connections.values then (s.objs h).destroyed else s.objs h }

def connectionClosed : Bytes := str "Connection closed"

/-- `recvLoop` from where `recv` returns to the end of the loop: the connection then, and
    what is left to do. -/
def received (h : Handle) (conn : Connection) (elapsed : Bool) : Option Bytes → Connection × List Act
  | none => if conn.running then (conn.lost, [.drop (w.lostId h) connectionClosed]) else (conn, [])
  | some data =>
    match conn.decode data with
    | (.ok frames, conn') =>
      (conn', frames.map (fun f => .frame (w.frameId h) f) ++ if elapsed then [.limit h] else [])
    | (.error reason, conn') => (conn', [.refuse h reason])

def step (S : Sys) : Label → Option Sys
  | .call n op =>
    if S.todo (.app n) = [] then
      let acts := op.acts config S.s.next
      some { S with s := op.enter S.s, todo := Function.update S.todo (.app n) acts
                    held := acts.filterMap Act.holds ++ S.held }
    else none
  | .poll h =>
    if S.todo (.recv h) = [] ∧ S.reading h = false ∧ (S.s.objs h).running = true then
      some { S with reading := Function.update S.reading h true }
    else none
  | .read h data elapsed =>
    if S.reading h then
      let r := received w h (S.s.objs h) elapsed data
      some { S with s := { S.s with objs := Function.update S.s.objs h r.1 }
                    todo := Function.update S.todo (.recv h) r.2, reading := Function.update S.reading h false }
    else none
  | .run t net =>
    match S.todo t with
    | [] => none
    | a :: rest =>
      let p := exec config ids net S.s a
      let held := p.rest.filterMap Act.holds ++ a.holds.elim S.held (S.held.erase ·)
      some { S with s := p.s.release held (a.holds.toList ++ S.s.connections.values)
                    todo := Function.update S.todo t (p.rest ++ rest), held := held
                    log := (p.out.map fun o => (t, o)).reverse ++ S.log }

/-- A call, if it is one, is one that `ops` lets through. -/
def Label.Calls (ops : Op → Prop) : Label → Prop
  | .call _ op => ops op
  | _ => True

/-- The runs of some calls only, in which a piece is run only where `acts` holds of it. -/
def Allowed (ops : Op → Prop) (acts : Session → List (Tid × Out) → Act → Prop) (S : Sys) : Label → Prop
  | .call _ op => ops op
  | .run t _ => ∀ a ∈ (S.todo t).head?, acts S.s S.log a
  | _ => True

def Reachable (ops : Op → Prop) (acts : Session → List (Tid × Out) → Act → Prop) : Sys → Prop :=
  Machine.Reach (step config ids w) (Allowed ops acts) {}

end

/-! ## The invariant rule -/

section
variable {config : AppConfig} {ids : Handle → ConnId} {w : Wiring}

/-- What a receive thread is given to do once `recv` has returned. -/
theorem mem_received {h : Handle} {conn : Connection} {elapsed : Bool} {data : Option Bytes} {a : Act}
    (ha : a ∈ (received w h conn elapsed data).2) :
    (∃ f, a = .frame (w.frameId h) f) ∨ (∃ reason, a = .drop (w.lostId h) reason) ∨ a = .limit h ∨
      ∃ reason, a = .refuse h reason := by
  unfold received at ha
  split at ha
  · split at ha
    · exact .inr (.inl ⟨_, List.mem_singleton.mp ha⟩)
    · cases ha
  · split at ha
    · rcases List.mem_append.mp ha with ha | ha
      · obtain ⟨f, -, rfl⟩ := List.mem_map.mp ha
        exact .inl ⟨f, rfl⟩
      · split at ha
        · exact .inr (.inr (.inl (List.mem_singleton.mp ha)))
        · cases ha
    · exact .inr (.inr (.inr ⟨_, List.mem_singleton.mp ha⟩))

/-- What running a thread's next piece does, but for the connections it destroys. -/
structure Ran (config : AppConfig) (ids : Handle → ConnId) (S S' : Sys) (t : Tid) (net : Handle → Frame → Bool)
    (a : Act) (rest : List Act) : Prop where
  before : S.todo t = a :: rest
  todo : S'.todo = Function.update S.todo t ((exec config ids net S.s a).rest ++ rest)
  log : S'.log = ((exec config ids net S.s a).out.map fun o => (t, o)).reverse ++ S.log
  peers : S'.s.peers = (exec config ids net S.s a).s.peers
  reading : S'.reading = S.reading

theorem step_run {S S' : Sys} {t : Tid} {net : Handle → Frame → Bool}
    (h : step config ids w S (.run t net) = some S') : ∃ a rest, Ran config ids S S' t net a rest := by
  simp only [Chat.step] at h
  split at h
  · cases h
  · rename_i a rest ht
    cases h
    exact ⟨a, rest, ht, rfl, rfl, rfl, rfl⟩

/-- An invariant of the maps and the log, and one of the pieces still to run. -/
structure Rule (config : AppConfig) (ids : Handle → ConnId) (w : Wiring) (ops : Op → Prop)
    (acts : Session → List (Tid × Out) → Act → Prop) (I : Session → List (Tid × Out) → Prop)
    (A : List (Tid × Out) → Act → Prop) : Prop where
  init : I {} []
  maps : ∀ {s s' log}, s'.connections = s.connections → s'.peers = s.peers → I s log → I s' log
  older : ∀ {log a} e, A log a → A (e :: log) a
  call : ∀ {op} h log, ops op → ∀ a ∈ op.acts config h, A log a
  frame : ∀ h f log, A log (.frame (w.frameId h) f)
  drop : ∀ h reason log, A log (.drop (w.lostId h) reason)
  limit : ∀ h log, A log (.limit h)
  refuse : ∀ h reason log, A log (.refuse h reason)
  exec : ∀ {s log a} t net, acts s log a → I s log → A log a →
    let p := exec config ids net s a
    let log' := (p.out.map fun o => (t, o)).reverse ++ log
    I p.s log' ∧ ∀ b ∈ p.rest, A log' b

/-- A rule's two invariants hold of every state a run reaches. -/
theorem Reachable.rule {ops : Op → Prop} {acts : Session → List (Tid × Out) → Act → Prop}
    {I : Session → List (Tid × Out) → Prop} {A : List (Tid × Out) → Act → Prop}
    (r : Rule config ids w ops acts I A)
    {S : Sys} (h : Reachable config ids w ops acts S) : I S.s S.log ∧ ∀ t, ∀ a ∈ S.todo t, A S.log a := by
  refine Machine.Reach.invariant (I := fun S => I S.s S.log ∧ ∀ t, ∀ a ∈ S.todo t, A S.log a) ?_ ?_ h
  · exact ⟨r.init, fun t a ha => by cases ha⟩
  · rintro S l S' ⟨hI, hA⟩ hl hs
    cases l with
    | call n op =>
      simp only [Chat.step] at hs
      split at hs
      · cases hs
        refine ⟨?_, ?_⟩
        · refine r.maps ?_ ?_ hI <;> cases op <;> rfl
        · intro t a ha
          by_cases ht : t = .app n
          · subst ht
            exact r.call S.s.next S.log hl a (by simpa only [Function.update_self] using ha)
          · exact hA t a (by simpa only [Function.update_of_ne ht] using ha)
      · cases hs
    | poll h =>
      simp only [Chat.step] at hs
      split at hs
      · cases hs; exact ⟨hI, hA⟩
      · cases hs
    | read h data elapsed =>
      simp only [Chat.step] at hs
      split at hs
      · cases hs
        refine ⟨r.maps (s := S.s) rfl rfl hI, ?_⟩
        intro t a ha
        by_cases ht : t = .recv h
        · subst ht
          have ha : a ∈ (received w h (S.s.objs h) elapsed data).2 := by
            simpa only [Function.update_self] using ha
          rcases mem_received ha with ⟨f, rfl⟩ | ⟨reason, rfl⟩ | rfl | ⟨reason, rfl⟩
          · exact r.frame h f _
          · exact r.drop h reason _
          · exact r.limit h _
          · exact r.refuse h reason _
        · exact hA t a (by simpa only [Function.update_of_ne ht] using ha)
      · cases hs
    | run t net =>
      simp only [Chat.step] at hs
      split at hs
      · cases hs
      · rename_i a rest ht
        cases hs
        have hold : ∀ (es : List (Tid × Out)) b, A S.log b → A (es ++ S.log) b := by
          intro es b hb
          induction es with
          | nil => exact hb
          | cons e es ih => exact r.older e ih
        have ha : A S.log a := hA t a (by rw [ht]; exact List.mem_cons_self)
        obtain ⟨h1, h2⟩ := r.exec t net (hl a (by rw [ht]; rfl)) hI ha
        refine ⟨r.maps (s := (exec config ids net S.s a).s) rfl rfl h1, ?_⟩
        intro t' b hb
        by_cases he : t' = t
        · subst he
          rcases List.mem_append.mp (by simpa only [Function.update_self] using hb) with hb | hb
          · exact h2 b hb
          · exact hold _ b (hA _ b (by rw [ht]; exact List.mem_cons_of_mem _ hb))
        · exact hold _ b (hA t' b (by simpa only [Function.update_of_ne he] using hb))

/-- A run of the calls `ops` lets through, all of whose steps pass a check that `acts`
    follows from, reaches its last state. -/
theorem Reachable.of_run {ops : Op → Prop} {acts : Session → List (Tid × Out) → Act → Prop} {ls : List Label}
    {check : Sys → Label → Bool} {p : Sys → Bool} (hops : ∀ l ∈ ls, l.Calls ops)
    (hacts : ∀ S t net, check S (.run t net) = true → ∀ a ∈ (S.todo t).head?, acts S.s S.log a)
    (h : ((Machine.run (Machine.checked (step config ids w) check) {} ls).map p) = some true) :
    ∃ S, Reachable config ids w ops acts S ∧ p S = true := by
  refine Machine.reach_of_run (fun l hm S hc => ?_) h
  have := hops l hm
  cases l with
  | call n op => exact this
  | run t net => exact hacts S t net hc
  | _ => trivial

/-- A step runs its piece only where `acts` holds of it. -/
def passes (acts : Session → List (Tid × Out) → Act → Prop) [∀ s log a, Decidable (acts s log a)] (S : Sys) :
    Label → Bool
  | .run t _ => (S.todo t).head?.all fun a => decide (acts S.s S.log a)
  | _ => true

theorem Reachable.of_passing {ops : Op → Prop} {acts : Session → List (Tid × Out) → Act → Prop}
    [∀ s log a, Decidable (acts s log a)] {ls : List Label} {p : Sys → Bool} (hops : ∀ l ∈ ls, l.Calls ops)
    (h : ((Machine.run (Machine.checked (step config ids w) (passes acts)) {} ls).map p) = some true) :
    ∃ S, Reachable config ids w ops acts S ∧ p S = true := by
  refine Reachable.of_run hops (fun S t net hc a ha => ?_) h
  simp only [passes, Option.all_eq_true, decide_eq_true_eq] at hc
  exact hc a ha

end

end LanTalk.Chat
