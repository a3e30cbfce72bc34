/-
  LanTalk.Chat.Independence — connections that report their frames and their closures under
  the ids they are registered under, each from its own receive thread. `Sys.calling` has
  every thread with its calls before it, and a schedule is a list of `Slice`s: whose piece
  runs next, and what the kernel makes of the frames it sends.

  Proved: `order_independent`. Schedules in which every id's threads get the same slices
  leave the same maps, the same frames on every connection and the same callbacks.
-/

import LanTalk.Chat.Apart
import LanTalk.Chat.Closed
import LanTalk.Lib.Interleave

namespace LanTalk.Chat

open LanTalk.Lib LanTalk.Network LanTalk.Config

/-! ## Schedules -/

/-- A call that a connection makes through its callbacks. -/
inductive Report where
  | frame (f : Frame)
  | lost (reason : Bytes)

def Report.act (c : ConnId) : Report → Act
  | .frame f => .frame c f
  | .lost reason => .drop c reason

/-- The session of `S`, about to be called by the receive threads and nobody else: that of
    connection `h` has the calls `calls h` to make. -/
def Sys.calling (S : Sys) (ids : Handle → ConnId) (calls : Handle → List Report) : Sys where
  s := S.s
  todo
    | .recv h => (calls h).map (Report.act (ids h))
    | .app _ => []
  held := S.held
  reading := S.reading

/-- The receive thread of a connection runs its next piece; and the kernel's part in it. -/
abbrev Slice := Handle × (Handle → Frame → Bool)

def slice (config : AppConfig) (ids : Handle → ConnId) (w : Wiring) (S : Sys) (l : Slice) : Option Sys :=
  step config ids w S (.run (.recv l.1) l.2)

/-- The slices of the connections with id `c`. -/
def slicesOf (ids : Handle → ConnId) (c : ConnId) (ls : List Slice) : List Slice :=
  Machine.ownSteps (fun l => ids l.1) c ls

/-- The frames sent on a connection, oldest first, and whether all of each was written. -/
def sentOn (h : Handle) (log : List (Tid × Out)) : List (Frame × Bool) :=
  (log.filterMap fun e => match e.2 with
    | .sent _ k f ok => if k = h then some (f, ok) else none
    | _ => none).reverse

def Out.isCallback : Out → Bool
  | .message _ _ | .peerEvent _ _ _ => true
  | _ => false

/-- The callbacks a connection caused, oldest first. -/
def callbacksOf (h : Handle) (log : List (Tid × Out)) : List Out :=
  ((log.filter fun e => e.1 == .recv h && e.2.isCallback).map (·.2)).reverse

/-- Two schedules came to the same. -/
structure SameOutcome (A B : Sys) : Prop where
  connections : A.s.connections = B.s.connections
  peers : A.s.peers = B.s.peers
  sent : ∀ h, sentOn h A.log = sentOn h B.log
  callbacks : ∀ h, callbacksOf h A.log = callbacksOf h B.log
  /-- What the threads have still to do. -/
  left : ∀ h, A.todo (.recv h) = B.todo (.recv h)

section
variable {config : AppConfig} {ids : Handle → ConnId} {w : Wiring} {net : Handle → Frame → Bool} {c : ConnId}
  {s s' : Session} {A A' B : Sys}

/-! ## A thread's pieces -/

/-- What the thread of a connection with id `c` may have to do. -/
def Act.Of (c : ConnId) : Act → Prop
  | .frame k _ | .drop k _ | .emit (.message k _) | .emit (.peerEvent k _ _) => k = c
  | _ => False

theorem Report.act_of (c : ConnId) (r : Report) : (r.act c).Of c := by
  cases r <;> rfl

theorem Act.Of.holds {a : Act} (ha : a.Of c) : a.holds = none := by
  cases a with
  | frame k f => rfl
  | drop k reason => rfl
  | emit o => rfl
  | _ => exact ha.elim

/-- A report leaves callbacks to make, and a callback nothing. -/
theorem Act.Of.rest {a b : Act} (ha : a.Of c) (hb : b ∈ (exec config ids net s a).rest) : b.Of c := by
  cases a with
  | frame k f =>
    cases ha
    obtain ⟨o, ho, rfl⟩ := List.mem_map.mp hb
    simp only [onFrame_after, callbacks] at ho
    split at ho
    · cases List.mem_singleton.mp ho; rfl
    · split at ho
      · obtain ⟨m, -, rfl⟩ := List.mem_map.mp (by simpa only [Option.toList_map] using ho)
        rfl
      · cases ho
  | drop k reason =>
    cases ha
    obtain ⟨o, ho, rfl⟩ := List.mem_map.mp hb
    simp only [onDisconnect] at ho
    split at ho
    · split at ho
      · cases List.mem_singleton.mp ho; rfl
      · cases ho
    · cases ho
  | emit o => cases hb
  | _ => exact ha.elim

/-- What it sends, it sends on its own connections. -/
theorem Act.Of.sent {a : Act} (ha : a.Of c) (hO : OwnIds ids s) {k : ConnId} {h : Handle} {f : Frame}
    {ok : Bool} (ho : .sent k h f ok ∈ (exec config ids net s a).out) : ids h = c := by
  cases a with
  | frame k' f' =>
    cases ha
    rcases List.mem_cons.mp ho with ho | ho
    · cases ho
    · obtain ⟨-, hc, -⟩ := mem_onFrame_sent config net ho
      exact hO _ h hc
  | drop k' reason => cases ho
  | emit o =>
    cases List.mem_singleton.mp ho
    exact ha.elim
  | _ => exact ha.elim

/-- What a piece of `c` does is decided by what the session has of `c`. -/
theorem Act.Of.same (config : AppConfig) (net : Handle → Frame → Bool) {a : Act} (ha : a.Of c)
    (hA : SameAt ids c s s') (hO : OwnIds ids s) :
    SameAt ids c (exec config ids net s a).s (exec config ids net s' a).s ∧
      (exec config ids net s' a).out = (exec config ids net s a).out ∧
      (exec config ids net s' a).rest = (exec config ids net s a).rest := by
  cases a with
  | frame k f =>
    cases ha
    obtain ⟨h1, h2, h3⟩ := onFrame_same config net hA hO f
    simp only [exec, h2, h3, hA.connection]
    exact ⟨h1, trivial, trivial⟩
  | drop k reason =>
    cases ha
    refine ⟨⟨?_, ?_, hA.objs⟩, rfl, ?_⟩
    · simp only [exec, Eff.piece, onDisconnect, find_erase, if_pos]
    · simp only [exec, Eff.piece, onDisconnect, find_erase, if_pos]
    · simp only [exec, Eff.piece, onDisconnect, hA.peer]
  | emit o => exact ⟨hA, rfl, rfl⟩
  | _ => exact ha.elim

/-- A piece of another id leaves what the session has of `c`. -/
theorem Act.Of.elsewhere {a : Act} {k : ConnId} (ha : a.Of k) (hk : k ≠ c) (hO : OwnIds ids s) :
    SameAt ids c s (exec config ids net s a).s := by
  cases a with
  | frame k' f =>
    cases ha
    exact (onFrame_elsewhere config net hO hk f).1.sameAt
  | drop k' reason =>
    cases ha
    refine ⟨?_, ?_, fun _ _ => rfl⟩
    · simp only [exec, Eff.piece, onDisconnect, find_erase, if_neg hk]
    · simp only [exec, Eff.piece, onDisconnect, find_erase, if_neg hk]
  | emit o => exact ⟨rfl, rfl, fun _ _ => rfl⟩
  | _ => exact ha.elim

/-! ## Slices -/

/-- Where a slice leaves the system, the thread having had `a` and then `rest` to do. -/
def Sys.sliced (config : AppConfig) (ids : Handle → ConnId) (A : Sys) (l : Slice) (a : Act) (rest : List Act) :
    Sys :=
  let p := exec config ids l.2 A.s a
  { A with s := p.s.release A.held A.s.connections.values
           todo := Function.update A.todo (.recv l.1) (p.rest ++ rest)
           log := (p.out.map fun o => (.recv l.1, o)).reverse ++ A.log }

/-- The states in which the threads have reports and callbacks to do. -/
structure Calling (ids : Handle → ConnId) (A : Sys) : Prop where
  own : OwnIds ids A.s
  todo : ∀ h, ∀ a ∈ A.todo (.recv h), a.Of (ids h)
  sent : ∀ t k h f ok, (t, .sent k h f ok) ∈ A.log → ∃ j, t = .recv j ∧ ids j = ids h

theorem Calling.slice_iff (hA : Calling ids A) {l : Slice} :
    slice config ids w A l = some A' ↔
      ∃ a rest, A.todo (.recv l.1) = a :: rest ∧ A' = A.sliced config ids l a rest := by
  unfold slice step
  dsimp only
  cases ht : A.todo (.recv l.1) with
  | nil => simp
  | cons a rest =>
    have ha : a.Of (ids l.1) := hA.todo l.1 a (by rw [ht]; exact List.mem_cons_self)
    have hrest : (exec config ids l.2 A.s a).rest.filterMap Act.holds = [] :=
      List.filterMap_eq_nil_iff.mpr fun b hb => (ha.rest hb).holds
    simp only [ha.holds, hrest, Option.elim_none, Option.toList_none, List.nil_append]
    constructor
    · intro h
      cases h
      exact ⟨a, rest, rfl, rfl⟩
    · intro h
      obtain ⟨a', rest', he, rfl⟩ := h
      cases he
      rfl

theorem Calling.slice (hA : Calling ids A) {l : Slice} (h : slice config ids w A l = some A') :
    Calling ids A' := by
  obtain ⟨a, rest, ht, rfl⟩ := hA.slice_iff.mp h
  have ha : a.Of (ids l.1) := hA.todo l.1 a (by rw [ht]; exact List.mem_cons_self)
  refine ⟨hA.own.exec config l.2 a, ?_, ?_⟩
  · intro k b hb
    simp only [Sys.sliced] at hb
    by_cases hk : k = l.1
    · subst hk
      rw [Function.update_self] at hb
      rcases List.mem_append.mp hb with hb | hb
      · exact ha.rest hb
      · exact hA.todo l.1 b (by rw [ht]; exact List.mem_cons_of_mem _ hb)
    · rw [Function.update_of_ne (by rintro ⟨⟩; exact hk rfl)] at hb
      exact hA.todo k b hb
  · intro t k h' f ok hm
    rcases List.mem_append.mp hm with hm | hm
    · obtain ⟨o, ho, heq⟩ := List.mem_map.mp (List.mem_reverse.mp hm)
      cases heq
      exact ⟨l.1, rfl, (ha.sent hA.own ho).symm⟩
    · exact hA.sent t k h' f ok hm

/-- Whether an entry of the log is by a connection of `c`. -/
def byId (ids : Handle → ConnId) (c : ConnId) (e : Tid × Out) : Bool :=
  match e.1 with
  | .recv h => ids h == c
  | .app _ => false

/-- What the connections of `c` have of the system: the session's share, what they have to
    do, and what they did. -/
structure SameFor (ids : Handle → ConnId) (c : ConnId) (A B : Sys) : Prop where
  session : SameAt ids c A.s B.s
  held : B.held = A.held
  todo : ∀ h, ids h = c → B.todo (.recv h) = A.todo (.recv h)
  log : B.log.filter (byId ids c) = A.log.filter (byId ids c)

theorem SameFor.equivalence (ids : Handle → ConnId) (c : ConnId) : Equivalence (SameFor ids c) where
  refl _ := ⟨⟨rfl, rfl, fun _ _ => rfl⟩, rfl, fun _ _ => rfl, rfl⟩
  symm h := ⟨h.session.symm, h.held.symm, fun k hk => (h.todo k hk).symm, h.log.symm⟩
  trans h h' := ⟨h.session.trans h'.session, h'.held.trans h.held,
    fun k hk => (h'.todo k hk).trans (h.todo k hk), h'.log.trans h.log⟩

/-- The destruction of connections goes by what each has of the session. -/
theorem SameAt.release (hs : SameAt ids c s s') {t t' : Session} (ht : SameAt ids c t t') (hO : OwnIds ids s)
    (hO' : OwnIds ids s') (hOt : OwnIds ids t) (hOt' : OwnIds ids t') (held : List Handle) :
    SameAt ids c (t.release held s.connections.values) (t'.release held s'.connections.values) := by
  refine ⟨ht.connection, ht.peer, ?_⟩
  intro k hk
  simp only [Session.release, hO.mem_values, hO'.mem_values, hOt.mem_values, hOt'.mem_values, hk, hs.connection,
    ht.connection, ht.objs k hk]

/-- A connection that stays registered is not destroyed. -/
theorem SameAt.kept (hs : SameAt ids c s s') (hO : OwnIds ids s) (hO' : OwnIds ids s') (held : List Handle) :
    SameAt ids c s (s'.release held s.connections.values) := by
  refine ⟨hs.connection, hs.peer, ?_⟩
  intro k hk
  simp only [Session.release, hO.mem_values, hO'.mem_values, hk, hs.connection]
  rw [if_neg (by rintro ⟨h1, -, h2⟩; exact h2 h1), hs.objs k hk]

theorem filter_byId (h : Handle) (outs : List Out) :
    ((outs.map fun o => (Tid.recv h, o)).reverse).filter (byId ids c) =
      if ids h = c then (outs.map fun o => (Tid.recv h, o)).reverse else [] := by
  split
  · rename_i hc
    apply List.filter_eq_self.mpr
    intro e he
    obtain ⟨o, -, rfl⟩ := List.mem_map.mp (List.mem_reverse.mp he)
    exact beq_iff_eq.mpr hc
  · rename_i hc
    apply List.filter_eq_nil_iff.mpr
    intro e he
    obtain ⟨o, -, rfl⟩ := List.mem_map.mp (List.mem_reverse.mp he)
    show ¬ (ids h == c) = true
    rwa [beq_iff_eq]

/-- Each id's connections are a party of their own. -/
theorem parted (config : AppConfig) (ids : Handle → ConnId) (w : Wiring) :
    Machine.Parted (slice config ids w) (fun l => ids l.1) (Calling ids) (SameFor ids) where
  equiv := SameFor.equivalence ids
  keep := fun hA h => hA.slice h
  own := by
    intro A B A' l hA hB hS h
    obtain ⟨a, rest, ht, rfl⟩ := hA.slice_iff.mp h
    have ha : a.Of (ids l.1) := hA.todo l.1 a (by rw [ht]; exact List.mem_cons_self)
    refine ⟨B.sliced config ids l a rest, hB.slice_iff.mpr ⟨a, rest, by rw [hS.todo l.1 rfl, ht], rfl⟩, ?_⟩
    obtain ⟨h1, h2, h3⟩ := ha.same config l.2 hS.session hA.own
    refine ⟨?_, hS.held, ?_, ?_⟩
    · simp only [Sys.sliced, hS.held]
      exact hS.session.release h1 hA.own hB.own (hA.own.exec config l.2 a) (hB.own.exec config l.2 a) A.held
    · intro k hk
      simp only [Sys.sliced, h3]
      by_cases he : k = l.1
      · subst he
        rw [Function.update_self, Function.update_self]
      · rw [Function.update_of_ne (by rintro ⟨⟩; exact he rfl),
          Function.update_of_ne (by rintro ⟨⟩; exact he rfl),
          hS.todo k hk]
    · simp only [Sys.sliced, h2, List.filter_append, hS.log]
  other := by
    intro A A' l c hA hc h
    obtain ⟨a, rest, ht, rfl⟩ := hA.slice_iff.mp h
    have ha : a.Of (ids l.1) := hA.todo l.1 a (by rw [ht]; exact List.mem_cons_self)
    refine ⟨?_, rfl, ?_, ?_⟩
    · exact (ha.elsewhere hc hA.own).kept hA.own (hA.own.exec config l.2 a) A.held
    · intro k hk
      exact Function.update_of_ne (by rintro ⟨⟩; exact hc hk) _ _
    · simp only [Sys.sliced, List.filter_append, filter_byId, if_neg hc, List.nil_append]

/-! ## Outcomes -/

theorem ownIds_rule (ops : Op → Prop) (acts : Session → List (Tid × Out) → Act → Prop) :
    Rule config ids w ops acts (fun s _ => OwnIds ids s) (fun _ _ => True) where
  init := by
    intro c k hc
    rw [find_empty] at hc
    cases hc
  maps := by
    intro s s' log hc _ hO c k hk
    rw [hc] at hk
    exact hO c k hk
  older := fun _ _ => trivial
  call := fun _ _ _ _ _ => trivial
  frame := fun _ _ _ => trivial
  drop := fun _ _ _ => trivial
  limit := fun _ _ => trivial
  refuse := fun _ _ _ => trivial
  exec := fun _ net _ hI _ => ⟨hI.exec config net _, fun _ _ => trivial⟩

theorem Calling.of_own {S : Sys} (hO : OwnIds ids S.s) (calls : Handle → List Report) :
    Calling ids (S.calling ids calls) where
  own := hO
  todo := by
    intro h a ha
    obtain ⟨r, -, rfl⟩ := List.mem_map.mp ha
    exact r.act_of (ids h)
  sent := fun t k h f ok hm => by cases hm

/-- What was sent on a connection is in the part of the log that its id's threads wrote. -/
theorem Calling.sentOn (hA : Calling ids A) (h : Handle) :
    sentOn h A.log = sentOn h (A.log.filter (byId ids (ids h))) := by
  unfold Chat.sentOn
  rw [List.filterMap_filter]
  congr 1
  apply List.filterMap_congr
  rintro ⟨t, o⟩ he
  cases o with
  | sent k j f ok =>
    by_cases hj : j = h
    · subst hj
      obtain ⟨i, rfl, hi⟩ := hA.sent t k j f ok he
      simp only [byId, hi, beq_self_eq_true, if_true]
    · simp only [if_neg hj, ite_self]
  | _ => simp only [ite_self]

theorem callbacksOf_byId (h : Handle) (log : List (Tid × Out)) :
    callbacksOf h log = callbacksOf h (log.filter (byId ids (ids h))) := by
  unfold callbacksOf
  rw [List.filter_filter]
  congr 2
  apply List.filter_congr
  rintro ⟨t, o⟩ -
  by_cases ht : t = .recv h
  · subst ht
    simp only [byId, beq_self_eq_true, Bool.and_true]
  · simp only [beq_eq_false_iff_ne.mpr ht, Bool.false_and]

/-- Whatever state the receive threads find the session in, and in whatever order their
    pieces then run: if each id's get the same slices, the outcome is the same. -/
theorem order_independent {ops : Op → Prop} {acts : Session → List (Tid × Out) → Act → Prop} {S : Sys}
    (hS : Reachable config ids w ops acts S) (calls : Handle → List Report) {xs ys : List Slice}
    (he : ∀ c, slicesOf ids c xs = slicesOf ids c ys)
    (hx : Machine.run (slice config ids w) (S.calling ids calls) xs = some A)
    (hy : Machine.run (slice config ids w) (S.calling ids calls) ys = some B) : SameOutcome A B := by
  have hC : Calling ids (S.calling ids calls) :=
    Calling.of_own (Reachable.rule (ownIds_rule ops acts) hS).1 calls
  have hP := parted config ids w
  have hsame : ∀ c, SameFor ids c B A := fun c => hP.agree hC (he c).symm hy hx
  have hA : Calling ids A := hP.kept hC hx
  have hB : Calling ids B := hP.kept hC hy
  refine ⟨?_, ?_, ?_, ?_, ?_⟩
  · exact Std.ExtTreeMap.ext_getElem? fun c => (hsame c).session.connection
  · exact Std.ExtTreeMap.ext_getElem? fun c => (hsame c).session.peer
  · intro h
    rw [hA.sentOn, hB.sentOn, (hsame (ids h)).log]
  · intro h
    rw [callbacksOf_byId h A.log, callbacksOf_byId h B.log, (hsame (ids h)).log]
  · intro h
    exact (hsame (ids h)).todo h rfl

end

def pairIds : Handle → ConnId
  | 0 => str "a"
  | _ => str "b"

/-- Two connections are added. -/
def addTwo : List Label :=
  let net := fun _ _ => true
  let add := .call 0 .addConnection :: List.replicate 3 (.run (.app 0) net)
  .call 0 .start :: .run (.app 0) net :: (add ++ add)

/-- The first connection says HELLO and is lost, the second says HELLO and something. -/
def pairCalls : Handle → List Report
  | 0 => [.frame hello, .lost []]
  | 1 => [.frame hello, .frame chat]
  | _ => []

def inTurn (hs : List Handle) : List Slice := hs.map fun h => (h, fun _ _ => true)

/-- A connection's calls one after the other, and call by call. -/
theorem order_independent_pair :
    ∃ S A B, Reachable {} pairIds (registeredWiring pairIds) Op.FromUser (fun _ _ _ => True) S ∧
      (callbacksOf 0 A.log).length = 2 ∧ (callbacksOf 1 A.log).length = 2 ∧
      Machine.run (slice {} pairIds (registeredWiring pairIds)) (S.calling pairIds pairCalls)
        (inTurn [0, 0, 0, 0, 1, 1, 1, 1]) = some A ∧
      Machine.run (slice {} pairIds (registeredWiring pairIds)) (S.calling pairIds pairCalls)
        (inTurn [1, 0, 1, 0, 0, 1, 0, 1]) = some B ∧ SameOutcome A B := by
  let ends := fun (S : Sys) hs =>
    Machine.run (slice {} pairIds (registeredWiring pairIds)) (S.calling pairIds pairCalls) (inTurn hs)
  have hrun : ((Machine.run (Machine.checked (step {} pairIds (registeredWiring pairIds)) fun _ _ => true) {}
      addTwo).map fun S =>
        (ends S [0, 0, 0, 0, 1, 1, 1, 1]).any (fun A =>
          (callbacksOf 0 A.log).length == 2 && (callbacksOf 1 A.log).length == 2) &&
        (ends S [1, 0, 1, 0, 0, 1, 0, 1]).isSome) = some true := by decide +kernel
  obtain ⟨S, hS, hp⟩ :
      ∃ S, Reachable {} pairIds (registeredWiring pairIds) Op.FromUser (fun _ _ _ => True) S ∧ _ := by
    refine Reachable.of_run ?_ (fun _ _ _ _ _ _ => trivial) hrun
    intro l hl
    simp only [addTwo, List.replicate, List.cons_append, List.nil_append, List.mem_cons, List.not_mem_nil,
      or_false] at hl
    rcases hl with rfl | rfl | rfl | rfl | rfl | rfl | rfl | rfl | rfl | rfl <;> trivial
  simp only [Bool.and_eq_true, Option.any_eq_true, beq_iff_eq] at hp
  obtain ⟨⟨A, hA, h0, h1⟩, hB⟩ := hp
  obtain ⟨B, hB⟩ := Option.isSome_iff_exists.mp hB
  refine ⟨S, A, B, hS, h0, h1, hA, hB, order_independent hS pairCalls ?_ hA hB⟩
  intro c
  simp only [slicesOf, Machine.ownSteps, inTurn, List.filter_map]
  congr 1
  by_cases ha : str "a" = c
  · have hb : str "b" ≠ c := by rw [← ha]; decide
    simp [pairIds, ha, hb]
  · simp [List.filter_cons, pairIds, ha]

end LanTalk.Chat
