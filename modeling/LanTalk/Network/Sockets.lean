/-
  LanTalk.Network.Sockets — who closes a socket (`src/network/tcp_socket.cpp`).

  A `TcpSocket` has a handle or none (`kInvalidSocket`). Its operations move the handle, give
  it away and close it; `Sockets` are the objects of a program, by number, with the handles
  the program has and no object. A handle comes from the system (`socket`, `accept`), any
  that is not open, and again after it was closed. The program puts a handle it has into one
  object and closes it itself at most once (`closeRaw`).

  Proved, over every run:
  - `closes_once`: whatever is constructed, moved, assigned, released and destroyed in
    whatever order, no handle is closed that is not open, and each that is open belongs to
    one object, or to the program.
-/

import LanTalk.Lib.Machine
import LanTalk.Lib.Owner

namespace LanTalk.Network

open LanTalk.Lib LanTalk.Lib.Machine Function

abbrev SocketHandle := Nat

/-- What the system has open, and what it was told to close that was not. -/
structure Kernel where
  opened : SocketHandle → Bool := fun _ => false
  misclosed : List SocketHandle := []

def Kernel.close (k : Kernel) (h : SocketHandle) : Kernel :=
  if k.opened h then { k with opened := update k.opened h false } else { k with misclosed := k.misclosed ++ [h] }

structure TcpSocket where
  handle : Option SocketHandle := none
  deriving DecidableEq

namespace TcpSocket

def isValid (s : TcpSocket) : Bool := s.handle.isSome

def close (k : Kernel) (s : TcpSocket) : Kernel × TcpSocket :=
  match s.handle with
  | some h => (k.close h, {})
  | none => (k, s)

/-- `TcpSocket(TcpSocket&&)`: the new object and the other one. -/
def moved (other : TcpSocket) : TcpSocket × TcpSocket := ({ handle := other.handle }, {})

/-- `operator=` between two objects. -/
def assign (k : Kernel) (this other : TcpSocket) : Kernel × TcpSocket × TcpSocket :=
  let (k, _) := close k this
  (k, { handle := other.handle }, {})

def release (s : TcpSocket) : Option SocketHandle × TcpSocket := (s.handle, {})

end TcpSocket

structure Sockets where
  kernel : Kernel := {}
  raw : SocketHandle → Bool := fun _ => false
  objs : Nat → Option TcpSocket := fun _ => none

inductive SocketOp where
  | opens (h : SocketHandle)
  | closeRaw (h : SocketHandle)
  | construct (o : Nat) (h : SocketHandle)
  | empty (o : Nat)
  | moveConstruct (o other : Nat)
  | assign (o other : Nat)
  | close (o : Nat)
  | release (o : Nat)
  | destroy (o : Nat)
  deriving DecidableEq

namespace Sockets

def step (S : Sockets) : SocketOp → Option Sockets
  | .opens h =>
    if S.kernel.opened h then none
    else some { S with kernel := { S.kernel with opened := update S.kernel.opened h true }, raw := update S.raw h true }
  | .closeRaw h => if S.raw h then some { S with kernel := S.kernel.close h, raw := update S.raw h false } else none
  | .construct o h =>
    if S.objs o = none ∧ S.raw h then
      some { S with raw := update S.raw h false, objs := update S.objs o (some { handle := some h }) }
    else none
  | .empty o => if S.objs o = none then some { S with objs := update S.objs o (some {}) } else none
  | .moveConstruct o other =>
    if S.objs o = none then
      (S.objs other).map fun s =>
        { S with objs := update (update S.objs other (some s.moved.2)) o (some s.moved.1) }
    else none
  | .assign o other =>
    (S.objs o).bind fun this => (S.objs other).map fun s =>
      if o = other then S
      else
        let (k, this', s') := TcpSocket.assign S.kernel this s
        { S with kernel := k, objs := update (update S.objs other (some s')) o (some this') }
  | .close o =>
    (S.objs o).map fun s =>
      let (k, s') := TcpSocket.close S.kernel s
      { S with kernel := k, objs := update S.objs o (some s') }
  | .release o =>
    (S.objs o).map fun s =>
      let (h, s') := s.release
      { S with raw := h.elim S.raw fun h => update S.raw h true, objs := update S.objs o (some s') }
  | .destroy o =>
    (S.objs o).map fun s => { S with kernel := (TcpSocket.close S.kernel s).1, objs := update S.objs o none }

/-! ## Ownership -/

/-- The program, of a handle it has itself, or an object. -/
inductive Owner where
  | code (h : SocketHandle)
  | object (o : Nat)
  deriving DecidableEq

def holders (raw : SocketHandle → Bool) (objs : Nat → Option TcpSocket) : Owner → Option SocketHandle
  | .code h => if raw h then some h else none
  | .object o => (objs o).bind (·.handle)

def held (S : Sockets) : Owner → Option SocketHandle := holders S.raw S.objs

/-- Nothing was closed that was not open, and what is open is held once. -/
structure Owned (S : Sockets) : Prop where
  right : S.kernel.misclosed = []
  balanced : Balanced S.held S.kernel.opened

section
variable {S S' : Sockets} {k : Kernel} {raw : SocketHandle → Bool} {objs : Nat → Option TcpSocket} {op : SocketOp}

theorem holders_raw (h : SocketHandle) (v : Bool) :
    holders (update raw h v) objs = update (holders raw objs) (.code h) (if v then some h else none) := by
  funext i
  rw [update_apply]
  cases i with
  | code h' =>
    by_cases e : h' = h
    · subst e
      simp [holders]
    · simp [holders, e]
  | object o => simp [holders]

theorem holders_objs (o : Nat) (s : Option TcpSocket) :
    holders raw (update objs o s) = update (holders raw objs) (.object o) (s.bind (·.handle)) := by
  funext i
  rw [update_apply]
  cases i with
  | code h => simp [holders]
  | object o' =>
    by_cases e : o' = o
    · subst e
      simp [holders]
    · simp [holders, e]

theorem held_object {o : Nat} {s : TcpSocket} (ho : S.objs o = some s) : S.held (.object o) = s.handle := by
  rw [held, holders, ho, Option.bind_some]

theorem held_absent {o : Nat} (ho : S.objs o = none) : S.held (.object o) = none := by
  rw [held, holders, ho, Option.bind_none]

theorem held_code {h : SocketHandle} (hr : S.raw h = true) : S.held (.code h) = some h := if_pos hr

/-- Closing what is held closes an open handle. -/
theorem close_held {held : Owner → Option SocketHandle} {i : Owner} {h : SocketHandle} (hk : k.misclosed = [])
    (hb : Balanced held k.opened) (hi : held i = some h) :
    (k.close h).misclosed = [] ∧ Balanced (update held i none) (k.close h).opened := by
  rw [Kernel.close, if_pos ((hb.live_iff h).mpr ⟨i, hi⟩)]
  exact ⟨hk, hb.dispose hi⟩

theorem close_socket {held : Owner → Option SocketHandle} {i : Owner} {s : TcpSocket} (hk : k.misclosed = [])
    (hb : Balanced held k.opened) (hi : held i = s.handle) :
    (TcpSocket.close k s).1.misclosed = [] ∧ Balanced (update held i none) (TcpSocket.close k s).1.opened := by
  unfold TcpSocket.close
  split
  · rename_i h hs
    exact close_held hk hb (hi.trans hs)
  · rename_i hs
    rw [← hi.trans hs, update_eq_self]
    exact ⟨hk, hb⟩

theorem close_leaves_none (k : Kernel) (s : TcpSocket) : (TcpSocket.close k s).2.handle = none := by
  unfold TcpSocket.close
  split
  · rfl
  · assumption

theorem step_owned (hS : S.Owned) (hstep : S.step op = some S') : S'.Owned := by
  obtain ⟨hk, hb⟩ := hS
  cases op with
  | opens h =>
    simp only [step] at hstep
    split at hstep
    · cases hstep
    · rename_i hclosed
      rw [Bool.not_eq_true] at hclosed
      cases hstep
      have hraw : S.held (.code h) = none := by
        cases hr : S.held (.code h) with
        | none => rfl
        | some h' =>
          have hr' := hr
          simp only [held, holders, Option.ite_none_right_eq_some] at hr'
          rw [(hb.live_iff h).mpr ⟨_, held_code hr'.1⟩] at hclosed
          cases hclosed
      refine ⟨hk, ?_⟩
      rw [held, holders_raw, if_pos rfl]
      exact hb.acquire hraw hclosed
  | closeRaw h =>
    simp only [step] at hstep
    split at hstep
    · rename_i hraw
      cases hstep
      obtain ⟨hk', hb'⟩ := close_held hk hb (held_code hraw)
      refine ⟨hk', ?_⟩
      rw [held, holders_raw]
      exact hb'
    · cases hstep
  | construct o h =>
    simp only [step] at hstep
    split at hstep
    · rename_i hnew
      cases hstep
      refine ⟨hk, ?_⟩
      rw [held, holders_objs, holders_raw]
      have ht := hb.transfer (i := .code h) (held_absent hnew.1)
      rwa [held_code hnew.2] at ht
    · cases hstep
  | empty o =>
    simp only [step] at hstep
    split at hstep
    · rename_i hnew
      cases hstep
      refine ⟨hk, ?_⟩
      rw [held, holders_objs]
      have hsame : holders S.raw S.objs (.object o) = none := held_absent hnew
      rw [Option.bind_some, ← hsame, update_eq_self]
      exact hb
    · cases hstep
  | moveConstruct o other =>
    simp only [step] at hstep
    split at hstep
    · rename_i hnew
      obtain ⟨s, hs, rfl⟩ := Option.map_eq_some_iff.mp hstep
      refine ⟨hk, ?_⟩
      rw [held, holders_objs, holders_objs]
      have ht := hb.transfer (i := .object other) (held_absent hnew)
      rwa [held_object hs] at ht
    · cases hstep
  | assign o other =>
    simp only [step] at hstep
    obtain ⟨this, hthis, hstep⟩ := Option.bind_eq_some_iff.mp hstep
    obtain ⟨s, hs, rfl⟩ := Option.map_eq_some_iff.mp hstep
    split
    · exact ⟨hk, hb⟩
    · rename_i hne
      -- this object's handle is closed first, then it takes the other one's
      obtain ⟨hk', hb'⟩ := close_socket hk hb (held_object hthis)
      refine ⟨hk', ?_⟩
      rw [held, holders_objs, holders_objs]
      have hother : update S.held (.object o) none (.object other) = s.handle := by
        rw [update_of_ne fun e => hne (Owner.object.inj e).symm, held_object hs]
      have hnone : update S.held (.object o) none (.object o) = none := by rw [update_self]
      have ht := hb'.transfer (i := .object other) hnone
      rw [hother, update_comm (fun e => hne (Owner.object.inj e)), update_idem] at ht
      exact ht
  | close o =>
    simp only [step] at hstep
    obtain ⟨s, hs, rfl⟩ := Option.map_eq_some_iff.mp hstep
    obtain ⟨hk', hb'⟩ := close_socket hk hb (held_object hs)
    refine ⟨hk', ?_⟩
    rw [held, holders_objs, Option.bind_some, close_leaves_none]
    exact hb'
  | release o =>
    simp only [step] at hstep
    obtain ⟨s, hs, rfl⟩ := Option.map_eq_some_iff.mp hstep
    refine ⟨hk, ?_⟩
    rw [held, holders_objs]
    cases hh : s.handle with
    | none =>
      have hsame : holders S.raw S.objs (.object o) = none := (held_object hs).trans hh
      simp only [TcpSocket.release, hh, Option.elim_none, Option.bind_some]
      rw [← hsame, update_eq_self]
      exact hb
    | some h =>
      have hraw : S.held (.code h) = none := by
        cases hr : S.held (.code h) with
        | none => rfl
        | some h' =>
          have hr' := hr
          simp only [held, holders, Option.ite_none_right_eq_some] at hr'
          cases hb.single _ _ h (held_code hr'.1) ((held_object hs).trans hh)
      have ht := hb.transfer (i := .object o) hraw
      simp only [TcpSocket.release, hh, Option.elim_some, Option.bind_some]
      have hne : Owner.code h ≠ Owner.object o := nofun
      rw [holders_raw, if_pos rfl, update_comm hne]
      rwa [held_object hs, hh] at ht
  | destroy o =>
    simp only [step] at hstep
    obtain ⟨s, hs, rfl⟩ := Option.map_eq_some_iff.mp hstep
    obtain ⟨hk', hb'⟩ := close_socket hk hb (held_object hs)
    refine ⟨hk', ?_⟩
    rw [held, holders_objs]
    exact hb'

theorem owned_init : Owned {} := ⟨rfl, ⟨nofun, fun _ => ⟨nofun, fun ⟨i, hi⟩ => (by cases i <;> cases hi)⟩⟩⟩

theorem reach_owned (h : Reach step (fun _ _ => True) {} S) : S.Owned :=
  h.invariant owned_init fun _ _ _ hS _ hstep => step_owned hS hstep

end

/-- However the sockets of a program are made, moved, assigned, released, closed and
    destroyed: every handle that was closed was open, and every handle that is open belongs
    to the program or to one object, and to one of them only. -/
theorem closes_once (S : Sockets) (h : Reach step (fun _ _ => True) {} S) :
    S.kernel.misclosed = [] ∧
    (∀ fd, S.kernel.opened fd = true ↔ S.raw fd = true ∨ ∃ o, S.objs o = some { handle := some fd }) ∧
    (∀ o o' fd, S.objs o = some { handle := some fd } → S.objs o' = some { handle := some fd } → o = o') ∧
    ∀ o fd, S.objs o = some { handle := some fd } → S.raw fd = false := by
  obtain ⟨hk, hb⟩ := reach_owned h
  have hobj : ∀ o fd, S.objs o = some { handle := some fd } ↔ S.held (.object o) = some fd := by
    intro o fd
    simp only [held, holders, Option.bind_eq_some_iff]
    constructor
    · intro ho
      exact ⟨_, ho, rfl⟩
    · rintro ⟨⟨_⟩, ho, rfl⟩
      exact ho
  have hcode : ∀ fd, S.raw fd = true ↔ S.held (.code fd) = some fd := by
    intro fd
    simp [held, holders]
  refine ⟨hk, fun fd => ?_, fun o o' fd ho ho' => ?_, fun o fd ho => ?_⟩
  · rw [hb.live_iff]
    constructor
    · rintro ⟨i, hi⟩
      cases i with
      | code fd' =>
        have hi' := hi
        simp only [held, holders, Option.ite_none_right_eq_some, Option.some.injEq] at hi'
        obtain ⟨hraw, rfl⟩ := hi'
        exact Or.inl hraw
      | object o => exact Or.inr ⟨o, (hobj o fd).mpr hi⟩
    · rintro (hraw | ⟨o, ho⟩)
      · exact ⟨_, (hcode fd).mp hraw⟩
      · exact ⟨_, (hobj o fd).mp ho⟩
  · exact Owner.object.inj (hb.single _ _ fd ((hobj o fd).mp ho) ((hobj o' fd).mp ho'))
  · rw [← Bool.not_eq_true]
    intro hraw
    cases hb.single _ _ fd ((hcode fd).mp hraw) ((hobj o fd).mp ho)

/-- A socket that is moved and assigned over while its number is given out again. -/
def handedOn : List SocketOp :=
  [.opens 3, .construct 0 3, .moveConstruct 1 0, .opens 4, .construct 2 4, .assign 1 2, .opens 3, .destroy 0,
    .assign 1 1]

theorem closes_once_handedOn :
    ∃ S : Sockets, S.kernel.opened 3 = true ∧ S.objs 1 = some { handle := some 4 } ∧ S.kernel.misclosed = [] ∧
      S.raw 4 = false := by
  have hrun : ((run (checked step fun _ _ => true) {} handedOn).map fun S : Sockets =>
      S.kernel.opened 3 && S.objs 1 == some { handle := some 4 }) = some true := by decide
  obtain ⟨S, hS, hp⟩ := reach_of_run (fun _ _ _ _ => trivial) hrun
  simp only [Bool.and_eq_true, beq_iff_eq] at hp
  obtain ⟨hmis, -, -, hraw⟩ := closes_once S hS
  exact ⟨S, hp.1, hp.2, hmis, hraw 1 4 hp.2⟩

end Sockets

end LanTalk.Network
