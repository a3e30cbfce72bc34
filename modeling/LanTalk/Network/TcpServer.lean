/-
  LanTalk.Network.TcpServer — a listening socket and the thread that accepts on it
  (`src/network/tcp_server.cpp`).

  One thread owns the server and calls `start` and `stop`; the accept thread runs
  `acceptLoop`; each callback runs in a thread of its own, which nobody joins, with the
  socket it was given. A step is one access to `running_` or `listenSocket_`, or one call
  of the system; `start` is one step, since there is no accept thread then. What a step does
  with sockets are operations of `LanTalk.Network.Sockets`: object 0 is `listenSocket_`, 1
  the temporary it is assigned from, `n + 2` the socket of the `n`-th callback.
  `listenSocket_`'s handle is read and written by both threads without a lock; each access
  is taken as one. There is a callback.

  Proved, over every interleaving:
  - `accepted_once`: every accepted socket is handed to one callback, or closed, or just at
    hand; no other handle is without an object, and none is closed twice.
  - `stop_ends_serving`: once `running_` is cleared, and until the next `start`, at most one
    more socket is accepted or handed out; when `stop` has returned, the accept thread is gone
    and the listening socket closed.
-/

import LanTalk.Network.Sockets

namespace LanTalk.Network

open LanTalk.Lib LanTalk.Lib.Machine Function

/-- Where the accept thread is, if there is one to join. -/
inductive AcceptThread where
  | none
  /-- At the loop's condition. -/
  | check
  /-- Past it: `accept` is about to be called. -/
  | calling
  | accepting (listening : Option SocketHandle)
  | got (client : SocketHandle)
  /-- Past the test of `running_`. -/
  | handing (client : SocketHandle)
  | dropping (client : SocketHandle)
  | ended
  deriving DecidableEq

/-- Where its owner is in `stop`. -/
inductive StopCall where
  | idle
  | closing
  | joining
  deriving DecidableEq

structure TcpServer where
  sockets : Sockets
  running : Bool := false
  acceptThread : AcceptThread := .none
  stopCall : StopCall := .idle
  accepted : List SocketHandle := []
  handed : List SocketHandle := []
  dropped : List SocketHandle := []

/-- What the system calls of `start` come to. -/
inductive StartCalls where
  | noSocket
  | noBind (h : SocketHandle)
  | noListen (h : SocketHandle)
  | listening (h : SocketHandle)
  deriving DecidableEq

inductive AcceptCall where
  | client (h : SocketHandle)
  | interrupted
  | failed
  deriving DecidableEq

inductive ServerEvent where
  | start (calls : StartCalls)
  | stop
  | closeListen
  | join
  | check
  | call
  | accept (call : AcceptCall)
  | test
  | hand
  | drop
  /-- The `n`-th callback is done with its socket. -/
  | finish (n : Nat)
  deriving DecidableEq

namespace TcpServer

/-- `TcpServer::TcpServer`. -/
def new : TcpServer := { sockets := { objs := update (fun _ => none) 0 (some {}) } }

def doing (S : TcpServer) (ops : List SocketOp) (after : TcpServer → TcpServer) : Option TcpServer :=
  (run Sockets.step S.sockets ops).map fun k => after { S with sockets := k }

/-- `listenSocket_ = TcpSocket(h)`. -/
def listenOn (h : SocketHandle) : List SocketOp := [.opens h, .construct 1 h, .assign 0 1, .destroy 1]

def listenHandle (S : TcpServer) : Option SocketHandle := (S.sockets.objs 0).bind (·.handle)

def step (S : TcpServer) : ServerEvent → Option TcpServer
  | .start calls =>
    if S.stopCall = .idle then
      if S.running then some S
      else match calls with
        | .noSocket => some S
        | .noBind h | .noListen h => S.doing (listenOn h ++ [.close 0]) id
        | .listening h => S.doing (listenOn h) fun S => { S with running := true, acceptThread := .check }
    else none
  | .stop =>
    if S.stopCall = .idle then
      if S.running then some { S with running := false, stopCall := .closing } else some S
    else none
  | .closeListen =>
    if S.stopCall = .closing then S.doing [.close 0] fun S => { S with stopCall := .joining } else none
  | .join =>
    if S.stopCall = .joining ∧ (S.acceptThread = .none ∨ S.acceptThread = .ended) then
      some { S with acceptThread := .none, stopCall := .idle }
    else none
  | .check =>
    if S.acceptThread = .check then
      some { S with acceptThread := if S.running then .calling else .ended }
    else none
  | .call =>
    if S.acceptThread = .calling then some { S with acceptThread := .accepting S.listenHandle } else none
  | .accept call =>
    match S.acceptThread, call with
    | .accepting (some _), .client h =>
      S.doing [.opens h] fun S => { S with acceptThread := .got h, accepted := S.accepted ++ [h] }
    | .accepting _, .interrupted => some { S with acceptThread := .check }
    | .accepting _, .failed => some { S with acceptThread := .ended }
    | _, _ => none
  | .test =>
    match S.acceptThread with
    | .got h => some { S with acceptThread := if S.running then .handing h else .dropping h }
    | _ => none
  | .hand =>
    match S.acceptThread with
    | .handing h => S.doing [.construct (S.handed.length + 2) h] fun S =>
        { S with acceptThread := .check, handed := S.handed ++ [h] }
    | _ => none
  | .drop =>
    match S.acceptThread with
    | .dropping h => S.doing [.closeRaw h] fun S => { S with acceptThread := .check, dropped := S.dropped ++ [h] }
    | _ => none
  | .finish n => if n < S.handed.length then S.doing [.destroy (n + 2)] id else none

/-! ## What a step does with sockets -/

section
variable {s s' : Sockets} {S S' : TcpServer} {ops : List SocketOp} {h : SocketHandle}

theorem run_cons {op : SocketOp} (hr : run Sockets.step s (op :: ops) = some s') :
    ∃ t, Sockets.step s op = some t ∧ run Sockets.step t ops = some s' := Option.bind_eq_some_iff.mp hr

theorem run_one {op : SocketOp} (hr : run Sockets.step s [op] = some s') : Sockets.step s op = some s' := by
  obtain ⟨t, ht, he⟩ := run_cons hr
  cases he
  exact ht

theorem reach_run (hs : Reach Sockets.step (fun _ _ => True) {} s) (hr : run Sockets.step s ops = some s') :
    Reach Sockets.step (fun _ _ => True) {} s' := by
  induction ops generalizing s with
  | nil =>
    cases hr
    exact hs
  | cons op ops ih =>
    obtain ⟨t, ht, hr⟩ := run_cons hr
    exact ih (hs.step trivial ht) hr

theorem step_opens (hr : Sockets.step s (.opens h) = some s') : s'.objs = s.objs ∧ s'.raw = update s.raw h true := by
  simp only [Sockets.step] at hr
  split at hr
  · cases hr
  · cases hr
    exact ⟨rfl, rfl⟩

theorem step_construct {o : Nat} (hr : Sockets.step s (.construct o h) = some s') :
    s'.objs = update s.objs o (some { handle := some h }) ∧ s'.raw = update s.raw h false := by
  simp only [Sockets.step] at hr
  split at hr
  · cases hr
    exact ⟨rfl, rfl⟩
  · cases hr

theorem step_closeRaw (hr : Sockets.step s (.closeRaw h) = some s') :
    s'.objs = s.objs ∧ s'.raw = update s.raw h false := by
  simp only [Sockets.step] at hr
  split at hr
  · cases hr
    exact ⟨rfl, rfl⟩
  · cases hr

theorem step_close {o : Nat} (hr : Sockets.step s (.close o) = some s') :
    s'.objs = update s.objs o (some {}) ∧ s'.raw = s.raw := by
  obtain ⟨t, -, rfl⟩ := Option.map_eq_some_iff.mp hr
  refine ⟨?_, rfl⟩
  show update s.objs o (some (TcpSocket.close s.kernel t).2) = _
  rw [show (TcpSocket.close s.kernel t).2 = {} from
    congrArg TcpSocket.mk (Sockets.close_leaves_none s.kernel t)]

theorem step_destroy {o : Nat} (hr : Sockets.step s (.destroy o) = some s') :
    s'.objs = update s.objs o none ∧ s'.raw = s.raw := by
  obtain ⟨t, -, rfl⟩ := Option.map_eq_some_iff.mp hr
  exact ⟨rfl, rfl⟩

theorem step_assign {o other : Nat} {t : TcpSocket} (hne : o ≠ other) (ht : s.objs other = some t)
    (hr : Sockets.step s (.assign o other) = some s') :
    s'.objs = update (update s.objs other (some {})) o (some t) ∧ s'.raw = s.raw := by
  obtain ⟨this, -, hr⟩ := Option.bind_eq_some_iff.mp hr
  rw [ht, Option.map_some, if_neg hne] at hr
  cases hr
  exact ⟨rfl, rfl⟩

/-- The listening socket is the new one, and the other objects are as they were. -/
theorem run_listenOn (htemp : s.objs 1 = none) (hr : run Sockets.step s (listenOn h ++ ops) = some s') :
    ∃ t, t.objs = update s.objs 0 (some { handle := some h }) ∧ (∀ fd, t.raw fd = true → s.raw fd = true) ∧
      run Sockets.step t ops = some s' := by
  have hr : run Sockets.step s (.opens h :: .construct 1 h :: .assign 0 1 :: .destroy 1 :: ops) = some s' := hr
  obtain ⟨s1, h1, hr⟩ := run_cons hr
  obtain ⟨s2, h2, hr⟩ := run_cons hr
  obtain ⟨s3, h3, hr⟩ := run_cons hr
  obtain ⟨s4, h4, hr⟩ := run_cons hr
  obtain ⟨ho1, hr1⟩ := step_opens h1
  obtain ⟨ho2, hr2⟩ := step_construct h2
  have hnew : s2.objs 1 = some { handle := some h } := by rw [ho2, update_self]
  obtain ⟨ho3, hr3⟩ := step_assign (by decide) hnew h3
  obtain ⟨ho4, hr4⟩ := step_destroy h4
  refine ⟨s4, ?_, fun fd hfd => ?_, hr⟩
  · funext n
    rw [ho4, ho3, ho2, ho1]
    rcases Nat.lt_or_ge n 2 with hn | hn
    · interval_cases n
      · rfl
      · exact htemp.symm
    · have h0 : n ≠ 0 := by omega
      have h1 : n ≠ 1 := by omega
      rw [update_of_ne h1, update_of_ne h0, update_of_ne h1, update_of_ne h1, update_of_ne h0]
  · rw [hr4, hr3, hr2, hr1, update_apply] at hfd
    split at hfd
    · cases hfd
    · rename_i hne
      rwa [update_of_ne hne] at hfd

end

/-! ## The invariant -/

/-- The socket that was accepted and is neither handed out nor closed. -/
def atHand : AcceptThread → List SocketHandle
  | .got h | .handing h | .dropping h => [h]
  | _ => []

structure Inv (S : TcpServer) : Prop where
  sockets : Reach Sockets.step (fun _ _ => True) {} S.sockets
  accounted : S.accepted.Perm (S.handed ++ S.dropped ++ atHand S.acceptThread)
  raw : ∀ fd, S.sockets.raw fd = true ↔ fd ∈ atHand S.acceptThread
  /-- `listenSocket_` is there, and has a handle while the server runs or `stop` has not closed it. -/
  listen : ∃ s : TcpSocket, S.sockets.objs 0 = some s ∧ s.isValid = (S.running || S.stopCall == .closing)
  temp : S.sockets.objs 1 = none
  later : ∀ n, S.handed.length ≤ n → S.sockets.objs (n + 2) = none
  /-- There is a thread to join while the server runs or is being stopped. -/
  thread : S.acceptThread = .none ↔ S.running = false ∧ S.stopCall = .idle
  stopped : S.stopCall ≠ .idle → S.running = false

variable {S S' : TcpServer} {e : ServerEvent}

theorem doing_some {ops : List SocketOp} {after : TcpServer → TcpServer} (h : S.doing ops after = some S') :
    ∃ k, run Sockets.step S.sockets ops = some k ∧ S' = after { S with sockets := k } := by
  obtain ⟨k, hk, rfl⟩ := Option.map_eq_some_iff.mp h
  exact ⟨k, hk, rfl⟩

theorem new_inv : Inv new where
  sockets := Reach.init.step (l := .empty 0) trivial rfl
  accounted := .refl _
  raw := fun fd => ⟨nofun, nofun⟩
  listen := ⟨{}, rfl, rfl⟩
  temp := rfl
  later := fun n _ => by
    show update (fun _ => none) 0 (some {}) (n + 2) = none
    rw [update_of_ne (by omega)]
  thread := ⟨fun _ => ⟨rfl, rfl⟩, fun _ => rfl⟩
  stopped := fun h => absurd rfl h

theorem start_inv (hi : Inv S) {calls : StartCalls} (h : S.step (.start calls) = some S') : Inv S' := by
  simp only [step] at h
  split at h
  · rename_i hidle
    split at h
    · cases h
      exact hi
    · rename_i hrun
      rw [Bool.not_eq_true] at hrun
      -- there is no accept thread, and no handle without an object
      have hnone := hi.thread.mpr ⟨hrun, hidle⟩
      have hraw : ∀ fd, S.sockets.raw fd = false := fun fd => by
        have hfd := hi.raw fd
        rw [hnone] at hfd
        simpa [atHand] using hfd
      have hfail : ∀ fd, S.doing (listenOn fd ++ [.close 0]) id = some S' → Inv S' := by
        intro fd h
        obtain ⟨k, hk, rfl⟩ := doing_some h
        obtain ⟨t, hobjs, htraw, hr⟩ := run_listenOn hi.temp hk
        obtain ⟨ho, hr'⟩ := step_close (run_one hr)
        have hkraw : ∀ fd', k.raw fd' = false := fun fd' => by
          rw [← Bool.not_eq_true, hr']
          exact fun hfd => absurd (htraw fd' hfd) (by rw [hraw]; nofun)
        refine ⟨reach_run hi.sockets hk, hi.accounted, fun fd' => ?_, ⟨{}, ?_, ?_⟩, ?_, fun n hn => ?_, hi.thread,
          hi.stopped⟩
        · show k.raw fd' = true ↔ fd' ∈ atHand S.acceptThread
          rw [hkraw, hnone]
          exact ⟨nofun, nofun⟩
        · show k.objs 0 = some {}
          rw [ho, update_self]
        · show false = (S.running || S.stopCall == .closing)
          rw [hrun, hidle]
          rfl
        · show k.objs 1 = none
          rw [ho, hobjs, update_of_ne (by decide), update_of_ne (by decide)]
          exact hi.temp
        · show k.objs (n + 2) = none
          rw [ho, hobjs, update_of_ne (by omega), update_of_ne (by omega)]
          exact hi.later n hn
      cases calls with
      | noSocket =>
        cases h
        exact hi
      | noBind fd => exact hfail fd h
      | noListen fd => exact hfail fd h
      | listening fd =>
        obtain ⟨k, hk, rfl⟩ := doing_some h
        have hk' : run Sockets.step S.sockets (listenOn fd ++ []) = some k := by rwa [List.append_nil]
        obtain ⟨t, hobjs, htraw, hr⟩ := run_listenOn hi.temp hk'
        cases hr
        have hatHand : atHand S.acceptThread = [] := by rw [hnone]; rfl
        refine ⟨reach_run hi.sockets hk, ?_, fun fd' => ?_, ⟨{ handle := some fd }, ?_, rfl⟩, ?_, fun n hn => ?_,
          ⟨nofun, fun h => (by cases h.1)⟩, fun h => absurd hidle h⟩
        · have hacc := hi.accounted
          rwa [hatHand] at hacc
        · show k.raw fd' = true ↔ fd' ∈ []
          exact ⟨fun hfd => absurd (htraw fd' hfd) (by rw [hraw]; nofun), nofun⟩
        · show k.objs 0 = some { handle := some fd }
          rw [hobjs, update_self]
        · show k.objs 1 = none
          rw [hobjs, update_of_ne (by decide)]
          exact hi.temp
        · show k.objs (n + 2) = none
          rw [hobjs, update_of_ne (by omega)]
          exact hi.later n hn
  · cases h

theorem stop_inv (hi : Inv S) (h : S.step .stop = some S') : Inv S' := by
  simp only [step] at h
  split at h
  · rename_i hidle
    split at h
    · rename_i hrun
      cases h
      have hthread : S.acceptThread ≠ .none := fun e => by
        rw [(hi.thread.mp e).1] at hrun
        cases hrun
      obtain ⟨s, hs, hvalid⟩ := hi.listen
      refine ⟨hi.sockets, hi.accounted, hi.raw, ⟨s, hs, ?_⟩, hi.temp, hi.later, ⟨fun e => absurd e hthread, nofun⟩,
        fun _ => rfl⟩
      rw [hvalid, hrun]
      rfl
    · cases h
      exact hi
  · cases h

theorem closeListen_inv (hi : Inv S) (h : S.step .closeListen = some S') : Inv S' := by
  simp only [step] at h
  split at h
  · rename_i hclosing
    obtain ⟨k, hk, rfl⟩ := doing_some h
    obtain ⟨ho, hraw⟩ := step_close (run_one hk)
    have hrun : S.running = false := hi.stopped (by rw [hclosing]; nofun)
    refine ⟨reach_run hi.sockets hk, hi.accounted, fun fd => ?_, ⟨{}, ?_, ?_⟩, ?_, fun n hn => ?_, ?_, fun _ => hrun⟩
    · show k.raw fd = true ↔ _
      rw [hraw]
      exact hi.raw fd
    · show k.objs 0 = some {}
      rw [ho, update_self]
    · show false = (S.running || StopCall.joining == .closing)
      rw [hrun]
      rfl
    · show k.objs 1 = none
      rw [ho, update_of_ne (by decide)]
      exact hi.temp
    · show k.objs (n + 2) = none
      rw [ho, update_of_ne (by omega)]
      exact hi.later n hn
    · have hne : S.acceptThread ≠ .none := fun e => by
        have hidle := (hi.thread.mp e).2
        rw [hclosing] at hidle
        cases hidle
      exact ⟨fun e => absurd e hne, fun e => (by cases e.2)⟩
  · cases h

theorem join_inv (hi : Inv S) (h : S.step .join = some S') : Inv S' := by
  simp only [step] at h
  split at h
  · rename_i hjoin
    cases h
    have hrun : S.running = false := hi.stopped (by rw [hjoin.1]; nofun)
    have hatHand : atHand S.acceptThread = atHand .none := by
      rcases hjoin.2 with e | e
      · rw [e]
      · rw [e]
        rfl
    obtain ⟨s, hs, hvalid⟩ := hi.listen
    refine ⟨hi.sockets, ?_, ?_, ⟨s, hs, ?_⟩, hi.temp, hi.later, ⟨fun _ => ⟨hrun, rfl⟩, fun _ => rfl⟩, fun _ => hrun⟩
    · show S.accepted.Perm (S.handed ++ S.dropped ++ atHand .none)
      rw [← hatHand]
      exact hi.accounted
    · show ∀ fd, S.sockets.raw fd = true ↔ fd ∈ atHand .none
      rw [← hatHand]
      exact hi.raw
    · rw [hvalid, hrun, hjoin.1]
      rfl
  · cases h

/-- The accept thread goes on, with the same at hand. -/
theorem Inv.goes (hi : Inv S) {t : AcceptThread} (hthread : S.acceptThread ≠ .none) (ht : t ≠ .none)
    (hatHand : atHand t = atHand S.acceptThread) : Inv { S with acceptThread := t } := by
  refine ⟨hi.sockets, ?_, ?_, hi.listen, hi.temp, hi.later, ⟨fun e => absurd e ht, fun e => ?_⟩, hi.stopped⟩
  · show S.accepted.Perm (S.handed ++ S.dropped ++ atHand t)
    rw [hatHand]
    exact hi.accounted
  · show ∀ fd, S.sockets.raw fd = true ↔ fd ∈ atHand t
    rw [hatHand]
    exact hi.raw
  · exact absurd (hi.thread.mpr e) hthread

theorem check_inv (hi : Inv S) (h : S.step .check = some S') : Inv S' := by
  simp only [step] at h
  split at h
  · rename_i hcheck
    cases h
    refine hi.goes (by rw [hcheck]; nofun) ?_ ?_
    · split
      · nofun
      · nofun
    · rw [hcheck]
      split
      · rfl
      · rfl
  · cases h

theorem call_inv (hi : Inv S) (h : S.step .call = some S') : Inv S' := by
  simp only [step] at h
  split at h
  · rename_i hcalling
    cases h
    exact hi.goes (by rw [hcalling]; nofun) nofun (by rw [hcalling]; rfl)
  · cases h

theorem accept_inv (hi : Inv S) {call : AcceptCall} (h : S.step (.accept call) = some S') : Inv S' := by
  simp only [step] at h
  split at h
  · rename_i listening fd hthread
    obtain ⟨k, hk, rfl⟩ := doing_some h
    obtain ⟨hobjs, hraw⟩ := step_opens (run_one hk)
    have hnone : ∀ fd', S.sockets.raw fd' = false := fun fd' => by
      have hfd := hi.raw fd'
      rw [hthread] at hfd
      simpa [atHand] using hfd
    refine ⟨reach_run hi.sockets hk, ?_, fun fd' => ?_, ?_, ?_, fun n hn => ?_, ⟨nofun, fun e => ?_⟩, hi.stopped⟩
    · have hacc := hi.accounted
      rw [hthread, show atHand (.accepting (some listening)) = [] from rfl, List.append_nil] at hacc
      exact hacc.append_right [fd]
    · show k.raw fd' = true ↔ fd' ∈ [fd]
      rw [hraw, update_apply, hnone, List.mem_singleton]
      split
      · exact ⟨fun _ => ‹_›, fun _ => rfl⟩
      · exact ⟨nofun, fun e => absurd e ‹_›⟩
    · show ∃ s : TcpSocket, k.objs 0 = some s ∧ _
      rw [hobjs]
      exact hi.listen
    · show k.objs 1 = none
      rw [hobjs]
      exact hi.temp
    · show k.objs (n + 2) = none
      rw [hobjs]
      exact hi.later n hn
    · rw [hi.thread.mpr e] at hthread
      cases hthread
  · rename_i listening hthread
    cases h
    exact hi.goes (by rw [hthread]; nofun) nofun (by rw [hthread]; rfl)
  · rename_i listening hthread
    cases h
    exact hi.goes (by rw [hthread]; nofun) nofun (by rw [hthread]; rfl)
  · cases h

theorem test_inv (hi : Inv S) (h : S.step .test = some S') : Inv S' := by
  simp only [step] at h
  split at h
  · rename_i fd hthread
    cases h
    refine hi.goes (by rw [hthread]; nofun) ?_ ?_
    · split
      · nofun
      · nofun
    · rw [hthread]
      split
      · rfl
      · rfl
  · cases h

theorem hand_inv (hi : Inv S) (h : S.step .hand = some S') : Inv S' := by
  simp only [step] at h
  split at h
  · rename_i fd hthread
    obtain ⟨k, hk, rfl⟩ := doing_some h
    obtain ⟨hobjs, hraw⟩ := step_construct (run_one hk)
    refine ⟨reach_run hi.sockets hk, ?_, fun fd' => ?_, ?_, ?_, fun n hn => ?_, ⟨nofun, fun e => ?_⟩, hi.stopped⟩
    · have hacc := hi.accounted
      rw [hthread, show atHand (.handing fd) = [fd] from rfl] at hacc
      show S.accepted.Perm (S.handed ++ [fd] ++ S.dropped ++ [])
      rw [List.append_nil, List.append_assoc]
      rw [List.append_assoc] at hacc
      exact hacc.trans (List.perm_append_comm.append_left S.handed)
    · show k.raw fd' = true ↔ fd' ∈ []
      rw [hraw, update_apply]
      split
      · exact ⟨nofun, nofun⟩
      · rename_i hne
        rw [hi.raw, hthread]
        exact ⟨fun hm => absurd (List.mem_singleton.mp hm) hne, nofun⟩
    · show ∃ s : TcpSocket, k.objs 0 = some s ∧ _
      rw [hobjs, update_of_ne (by omega)]
      exact hi.listen
    · show k.objs 1 = none
      rw [hobjs, update_of_ne (by omega)]
      exact hi.temp
    · have hle : (S.handed ++ [fd]).length ≤ n := hn
      rw [List.length_append, List.length_singleton] at hle
      show k.objs (n + 2) = none
      rw [hobjs, update_of_ne (by omega)]
      exact hi.later n (by omega)
    · rw [hi.thread.mpr e] at hthread
      cases hthread
  · cases h

theorem drop_inv (hi : Inv S) (h : S.step .drop = some S') : Inv S' := by
  simp only [step] at h
  split at h
  · rename_i fd hthread
    obtain ⟨k, hk, rfl⟩ := doing_some h
    obtain ⟨hobjs, hraw⟩ := step_closeRaw (run_one hk)
    refine ⟨reach_run hi.sockets hk, ?_, fun fd' => ?_, ?_, ?_, fun n hn => ?_, ⟨nofun, fun e => ?_⟩, hi.stopped⟩
    · have hacc := hi.accounted
      rw [hthread, show atHand (.dropping fd) = [fd] from rfl] at hacc
      show S.accepted.Perm (S.handed ++ (S.dropped ++ [fd]) ++ [])
      rw [List.append_nil, ← List.append_assoc]
      exact hacc
    · show k.raw fd' = true ↔ fd' ∈ []
      rw [hraw, update_apply]
      split
      · exact ⟨nofun, nofun⟩
      · rename_i hne
        rw [hi.raw, hthread]
        exact ⟨fun hm => absurd (List.mem_singleton.mp hm) hne, nofun⟩
    · show ∃ s : TcpSocket, k.objs 0 = some s ∧ _
      rw [hobjs]
      exact hi.listen
    · show k.objs 1 = none
      rw [hobjs]
      exact hi.temp
    · show k.objs (n + 2) = none
      rw [hobjs]
      exact hi.later n hn
    · rw [hi.thread.mpr e] at hthread
      cases hthread
  · cases h

theorem finish_inv (hi : Inv S) {n : Nat} (h : S.step (.finish n) = some S') : Inv S' := by
  simp only [step] at h
  split at h
  · rename_i hlt
    obtain ⟨k, hk, rfl⟩ := doing_some h
    obtain ⟨hobjs, hraw⟩ := step_destroy (run_one hk)
    refine ⟨reach_run hi.sockets hk, hi.accounted, fun fd => ?_, ?_, ?_, fun m hm => ?_, hi.thread, hi.stopped⟩
    · show k.raw fd = true ↔ _
      rw [hraw]
      exact hi.raw fd
    · show ∃ s : TcpSocket, k.objs 0 = some s ∧ _
      rw [hobjs, update_of_ne (by omega)]
      exact hi.listen
    · show k.objs 1 = none
      rw [hobjs, update_of_ne (by omega)]
      exact hi.temp
    · have hle : S.handed.length ≤ m := hm
      show k.objs (m + 2) = none
      rw [hobjs, update_of_ne (by omega)]
      exact hi.later m hle
  · cases h

theorem step_inv (hi : Inv S) (h : S.step e = some S') : Inv S' := by
  cases e with
  | start calls => exact start_inv hi h
  | stop => exact stop_inv hi h
  | closeListen => exact closeListen_inv hi h
  | join => exact join_inv hi h
  | check => exact check_inv hi h
  | call => exact call_inv hi h
  | accept call => exact accept_inv hi h
  | test => exact test_inv hi h
  | hand => exact hand_inv hi h
  | drop => exact drop_inv hi h
  | finish n => exact finish_inv hi h

theorem reach_inv (h : Reach step (fun _ _ => True) new S) : Inv S :=
  h.invariant new_inv fun _ _ _ hi _ hstep => step_inv hi hstep

/-! ## Every socket that is accepted -/

/-- In every state: no handle was closed that was not open; every accepted socket was handed
    to a callback, or closed, or is at hand; and every handle that is open is the listening
    socket's, the one at hand, or that of one of the callbacks. -/
theorem accepted_once (S : TcpServer) (h : Reach step (fun _ _ => True) new S) :
    S.sockets.kernel.misclosed = [] ∧
    S.accepted.Perm (S.handed ++ S.dropped ++ atHand S.acceptThread) ∧
    ∀ fd, S.sockets.kernel.opened fd = true → S.listenHandle = some fd ∨ fd ∈ atHand S.acceptThread ∨
      ∃ n < S.handed.length, S.sockets.objs (n + 2) = some { handle := some fd } := by
  have hi := reach_inv h
  obtain ⟨hk, hb⟩ := Sockets.reach_owned hi.sockets
  refine ⟨hk, hi.accounted, fun fd hopen => ?_⟩
  obtain ⟨i, hheld⟩ := (hb.live_iff fd).mp hopen
  cases i with
  | code fd' =>
    simp only [Sockets.held, Sockets.holders, Option.ite_none_right_eq_some, Option.some.injEq] at hheld
    obtain ⟨hraw, rfl⟩ := hheld
    exact Or.inr (Or.inl ((hi.raw fd').mp hraw))
  | object o =>
    have hheld : (S.sockets.objs o).bind (·.handle) = some fd := hheld
    rcases o with - | - | n
    · exact Or.inl hheld
    · rw [hi.temp] at hheld
      cases hheld
    · obtain ⟨⟨_⟩, hobj, rfl⟩ := Option.bind_eq_some_iff.mp hheld
      refine Or.inr (Or.inr ⟨n, ?_, hobj⟩)
      by_contra hlt
      rw [hi.later n (by omega)] at hobj
      cases hobj

/-- The second client is accepted while the server is being stopped. -/
def twoClients : List ServerEvent :=
  [.start (.listening 3), .check, .call, .accept (.client 4), .test, .hand, .check, .call, .accept .interrupted, .check,
    .call, .stop, .accept (.client 5), .test, .closeListen]

theorem accepted_once_twoClients :
    ∃ S : TcpServer, S.accepted = [4, 5] ∧ S.handed = [4] ∧ S.acceptThread = .dropping 5 ∧
      S.sockets.kernel.misclosed = [] := by
  have hrun : ((run (checked step fun _ _ => true) new twoClients).map fun S : TcpServer =>
      S.accepted == [4, 5] && S.handed == [4] && S.acceptThread == .dropping 5) = some true := by decide
  obtain ⟨S, hS, hp⟩ := reach_of_run (fun _ _ _ _ => trivial) hrun
  simp only [Bool.and_eq_true, beq_iff_eq] at hp
  exact ⟨S, hp.1.1, hp.1.2, hp.2, (accepted_once S hS).1⟩

/-- After an error of `accept` nobody accepts, and `start` does nothing as long as nobody
    stops the server. -/
example : ((run step new [.start (.listening 3), .check, .call, .accept .failed, .start (.listening 4)]).map fun S =>
    (S.running, S.acceptThread, S.listenHandle)) = some (true, .ended, some 3) := by decide

/-! ## After `stop` -/

/-- How many sockets the accept thread may still accept or hand out once the server does not run. -/
def mayServe : AcceptThread → Nat
  | .calling | .accepting _ | .handing _ => 1
  | _ => 0

/-- A server that does not run, and has served no more than `n` times. -/
def Stopping (n : Nat) (S : TcpServer) : Prop :=
  S.running = false ∧ S.accepted.length + S.handed.length + mayServe S.acceptThread ≤ n

theorem step_stopping {n : Nat} (hS : Stopping n S) (he : ∀ calls, e ≠ .start calls) (h : S.step e = some S') :
    Stopping n S' := by
  obtain ⟨hrun, hn⟩ := hS
  cases e with
  | start calls => exact absurd rfl (he calls)
  | stop =>
    simp only [step, hrun] at h
    split at h
    · cases h
      exact ⟨hrun, hn⟩
    · cases h
  | closeListen =>
    simp only [step] at h
    split at h
    · obtain ⟨k, -, rfl⟩ := doing_some h
      exact ⟨hrun, hn⟩
    · cases h
  | join =>
    simp only [step] at h
    split at h
    · cases h
      exact ⟨hrun, (Nat.add_le_add_left (Nat.zero_le _) _).trans hn⟩
    · cases h
  | check =>
    simp only [step, hrun] at h
    split at h
    · cases h
      exact ⟨rfl, (Nat.add_le_add_left (Nat.zero_le _) _).trans hn⟩
    · cases h
  | call =>
    simp only [step] at h
    split at h
    · rename_i hcalling
      cases h
      rw [hcalling] at hn
      exact ⟨hrun, hn⟩
    · cases h
  | accept call =>
    simp only [step] at h
    split at h
    · rename_i hthread
      obtain ⟨k, -, rfl⟩ := doing_some h
      rw [hthread] at hn
      refine ⟨hrun, ?_⟩
      show (S.accepted ++ [_]).length + S.handed.length + 0 ≤ n
      have hn : S.accepted.length + S.handed.length + 1 ≤ n := hn
      rw [List.length_append, List.length_singleton]
      omega
    · cases h
      exact ⟨hrun, (Nat.add_le_add_left (Nat.zero_le _) _).trans hn⟩
    · cases h
      exact ⟨hrun, (Nat.add_le_add_left (Nat.zero_le _) _).trans hn⟩
    · cases h
  | test =>
    simp only [step, hrun] at h
    split at h
    · cases h
      exact ⟨rfl, (Nat.add_le_add_left (Nat.zero_le _) _).trans hn⟩
    · cases h
  | hand =>
    simp only [step] at h
    split at h
    · rename_i hthread
      obtain ⟨k, -, rfl⟩ := doing_some h
      rw [hthread] at hn
      refine ⟨hrun, ?_⟩
      show S.accepted.length + (S.handed ++ [_]).length + 0 ≤ n
      have hn : S.accepted.length + S.handed.length + 1 ≤ n := hn
      rw [List.length_append, List.length_singleton]
      omega
    · cases h
  | drop =>
    simp only [step] at h
    split at h
    · obtain ⟨k, -, rfl⟩ := doing_some h
      exact ⟨hrun, (Nat.add_le_add_left (Nat.zero_le _) _).trans hn⟩
    · cases h
  | finish m =>
    simp only [step] at h
    split at h
    · obtain ⟨k, -, rfl⟩ := doing_some h
      exact ⟨hrun, hn⟩
    · cases h

/-- From a state in which the server does not run, without another `start`: one socket at
    most is accepted or handed out from there on. And when no `stop` is under way there is no
    accept thread and no listening socket, nor a socket at hand. -/
theorem stop_ends_serving (S S' : TcpServer) (h : Reach step (fun _ _ => True) new S) (hrun : S.running = false)
    (h' : Reach step (fun _ e => ∀ calls, e ≠ .start calls) S S') :
    S'.accepted.length + S'.handed.length ≤ S.accepted.length + S.handed.length + 1 ∧
    (S'.stopCall = .idle →
      S'.acceptThread = .none ∧ S'.listenHandle = none ∧ ∀ fd, S'.sockets.raw fd = false) := by
  have hmay : mayServe S.acceptThread ≤ 1 := by
    cases S.acceptThread <;> simp [mayServe]
  obtain ⟨hrun', hle⟩ : Stopping (S.accepted.length + S.handed.length + 1) S' :=
    h'.invariant ⟨hrun, by omega⟩ fun _ _ _ hI he hstep => step_stopping hI he hstep
  have hi := reach_inv (h.trans (h'.mono fun _ _ _ => trivial))
  refine ⟨by omega, fun hidle => ?_⟩
  have hnone := hi.thread.mpr ⟨hrun', hidle⟩
  obtain ⟨s, hs, hvalid⟩ := hi.listen
  rw [hrun', hidle] at hvalid
  refine ⟨hnone, ?_, fun fd => ?_⟩
  · have hclosed : s.handle.isSome = false := hvalid
    rw [listenHandle, hs, Option.bind_some]
    simpa using hclosed
  · have hfd := hi.raw fd
    rw [hnone] at hfd
    simpa [atHand] using hfd

def noStart : ServerEvent → Bool
  | .start _ => false
  | _ => true

/-- `stop` while the second client of `twoClients` comes in, to its end. -/
def stopped : List ServerEvent := [.accept (.client 5), .test, .closeListen, .drop, .check, .join]

theorem stop_ends_serving_twoClients :
    ∃ S S' : TcpServer, S.accepted = [4] ∧ S'.accepted = [4, 5] ∧ S'.handed = [4] ∧ S'.acceptThread = .none := by
  have hrun : ((run (checked step fun _ _ => true) new (twoClients.take 12)).bind fun S =>
      (run (checked step fun _ e => noStart e) S stopped).map fun S' =>
        S.accepted == [4] && !S.running && S'.accepted == [4, 5] && S'.handed == [4] && S'.stopCall == .idle) =
          some true := by decide
  obtain ⟨S, hS, hstopped⟩ := Option.bind_eq_some_iff.mp hrun
  have hreach := Reach.init.run (fun _ _ _ _ => trivial) hS
  have hno : ∀ l ∈ stopped, ∀ x : TcpServer, noStart l = true → ∀ calls, l ≠ .start calls := by
    rintro l - x hl calls rfl
    cases hl
  obtain ⟨S', hS', hp⟩ := reach_of_run hno hstopped
  simp only [Bool.and_eq_true, beq_iff_eq, Bool.not_eq_true'] at hp
  obtain ⟨⟨⟨⟨hacc, hrunning⟩, hacc'⟩, hhanded⟩, hidle⟩ := hp
  exact ⟨S, S', hacc, hacc', hhanded, ((stop_ends_serving S S' hreach hrunning hS').2 hidle).1⟩

end TcpServer

end LanTalk.Network
