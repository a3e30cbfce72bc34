/-
  LanTalk.Chat.Balance — the peer events of a connection id. `onDisconnect` reports one only
  if the entry it erases is AUTHENTICATED. `handleHello` and `handleAuthResponse` report a
  connected peer without looking what the entry was, so whoever says HELLO twice is
  connected twice (`connected_twice`); a HELLO that asks for authentication takes an
  AUTHENTICATED entry back and reports nothing, and `addConnection` overwrites one. All
  callbacks are made after the mutex is released, so events of one id that two threads
  decide on may come in either order.

  Proved: `events_balanced`. In every run in which no frame and no `addConnection` finds its
  id AUTHENTICATED already, and none decides on an event while one is still to be made,
  the events of every id alternate, and when `onDisconnect` returns they are balanced.
-/

import LanTalk.Chat.Closed

namespace LanTalk.Chat

open LanTalk.Lib LanTalk.Network LanTalk.Config

/-! ## Events -/

/-- Whether a callback tells of `c`, and then of its coming or going. -/
def Out.eventOf (c : ConnId) : Out → Option Bool
  | .peerEvent k _ up => if k = c then some up else none
  | _ => none

/-- The events of a connection id, newest first. -/
def events (c : ConnId) (log : List (Tid × Out)) : List Bool := log.filterMap fun e => e.2.eventOf c

/-- The last event of a connection id was a connected one. -/
def told (log : List (Tid × Out)) (c : ConnId) : Bool := (events c log).headD false

/-- Each event is the opposite of the one before; the oldest is a connected one. -/
def Alternating (l : List Bool) : Prop := Machine.Justified (fun up older => up = !older.headD false) l

theorem Alternating.count {l : List Bool} (h : Alternating l) :
    l.count true = l.count false + (l.headD false).toNat := by
  induction l with
  | nil => rfl
  | cons up l ih =>
    have hl := ih h.2
    have hup : up = !l.headD false := h.1
    cases hd : l.headD false <;> rw [hd] at hl hup <;> subst hup
    · simp only [Bool.toNat_false] at hl
      simp [hl]
    · simp only [Bool.toNat_true] at hl
      simp [hl]

/-- Nothing but a connected event is outstanding. -/
theorem Alternating.balanced {l : List Bool} (h : Alternating l) (hd : l.headD false = false) :
    l.count true = l.count false := by
  rw [h.count, hd]
  rfl

/-- The calls of a session that is not stopped. -/
def Op.NotStop : Op → Prop
  | .stop => False
  | _ => True

/-- A piece decides on an event only when all that were decided on have been made, and no
    frame or `addConnection` finds its id AUTHENTICATED. -/
def InStep (config : AppConfig) (ids : Handle → ConnId) (s : Session) (log : List (Tid × Out)) : Act → Prop
  | .frame c f =>
    (grants config s c f = true → s.authenticated c = false ∧ told log c = false) ∧
      (challenges config f = true → s.authenticated c = false)
  | .register h => s.running = true → s.authenticated (ids h) = false
  | .drop c _ => told log c = s.authenticated c
  | _ => True

instance (config : AppConfig) (ids : Handle → ConnId) (s : Session) (log : List (Tid × Out)) :
    (a : Act) → Decidable (InStep config ids s log a)
  | .frame _ _ => inferInstanceAs (Decidable ((_ = true → _ = false ∧ _ = false) ∧ (_ = true → _ = false)))
  | .register _ => inferInstanceAs (Decidable (_ = true → _ = false))
  | .drop _ _ => inferInstanceAs (Decidable (_ = _))
  | .startSession | .start _ | .sendHello _ _ | .pick _ _ | .chat _ _ _ | .broadcast _ | .sweep | .stop | .stopAll
  | .limit _ | .refuse _ _ | .emit _ => inferInstanceAs (Decidable True)

/-- The piece is the last of an `onDisconnect(c)`. -/
def EndsDisconnect (s : Session) (c : ConnId) : Act → Prop
  | .drop k _ => k = c ∧ (onDisconnect s c).after = []
  | .emit (.peerEvent k _ up) => k = c ∧ up = false
  | _ => False

/-! ## What a piece decides on and what it tells -/

def Act.eventOf (c : ConnId) : Act → Option Bool
  | .emit o => o.eventOf c
  | _ => none

/-- The events of `c` that a thread has still to make. -/
def waiting (c : ConnId) (todo : List Act) : List Bool := todo.filterMap (Act.eventOf c)

theorem waiting_append (c : ConnId) (as bs : List Act) : waiting c (as ++ bs) = waiting c as ++ waiting c bs :=
  List.filterMap_append

theorem waiting_eq_nil {c : ConnId} {as : List Act} (h : ∀ a ∈ as, a.eventOf c = none) : waiting c as = [] :=
  List.filterMap_eq_nil_iff.mpr h

/-- What a piece does for the events of `c`. -/
inductive EventStep (c : ConnId) (s : Session) (log : List (Tid × Out)) (a : Act) (p : Piece) : Prop where
  | quiet : a.eventOf c = none → waiting c p.rest = [] → p.s.authenticated c = s.authenticated c →
      p.out.filterMap (Out.eventOf c) = [] → EventStep c s log a p
  /-- It changes whether `c` is AUTHENTICATED, and leaves its thread an event to make. -/
  | decides : a.eventOf c = none → told log c = s.authenticated c → p.s.authenticated c = (!s.authenticated c) →
      waiting c p.rest = [p.s.authenticated c] → p.out.filterMap (Out.eventOf c) = [] → EventStep c s log a p
  | tells (up : Bool) : a.eventOf c = some up → p.rest = [] → p.s.authenticated c = s.authenticated c →
      p.out.filterMap (Out.eventOf c) = [up] → EventStep c s log a p

section
variable {config : AppConfig} {ids : Handle → ConnId} {w : Wiring} {net : Handle → Frame → Bool} {c : ConnId}
  {s : Session} {log : List (Tid × Out)}

/-- Only callbacks tell. -/
theorem out_tells_nothing (config : AppConfig) (ids : Handle → ConnId) (net : Handle → Frame → Bool) (s : Session)
    {a : Act} (ha : a.eventOf c = none) : (exec config ids net s a).out.filterMap (Out.eventOf c) = [] := by
  apply List.filterMap_eq_nil_iff.mpr
  intro o ho
  cases o with
  | peerEvent k info up =>
    have he : a = .emit (.peerEvent k info up) := exec_origin config ids net ho
    rw [he] at ha
    exact ha
  | _ => rfl

/-- Frames and closures leave callbacks to make, and nothing else does; only `stop` leaves
    the connections to be closed. -/
theorem mem_rest {a b : Act} (hb : b ∈ (exec config ids net s a).rest) :
    (∃ o, b = .emit o) ∧ ((∃ k f, a = .frame k f) ∨ ∃ k reason, a = .drop k reason) ∨
      (∀ o, b ≠ .emit o) ∧ (b = .stopAll → a = .stop) := by
  cases a with
  | frame k f =>
    obtain ⟨o, -, rfl⟩ := List.mem_map.mp hb
    exact .inl ⟨⟨o, rfl⟩, .inl ⟨k, f, rfl⟩⟩
  | drop k reason =>
    obtain ⟨o, -, rfl⟩ := List.mem_map.mp hb
    exact .inl ⟨⟨o, rfl⟩, .inr ⟨k, reason, rfl⟩⟩
  | register h =>
    simp only [exec] at hb
    split at hb
    · rcases List.mem_cons.mp hb with rfl | hb
      · exact .inr ⟨by simp, by simp⟩
      · cases List.mem_singleton.mp hb; exact .inr ⟨by simp, by simp⟩
    · cases hb
  | pick peerId msg =>
    simp only [exec] at hb
    split at hb
    · cases List.mem_singleton.mp hb; exact .inr ⟨by simp, by simp⟩
    · cases hb
  | sweep =>
    simp only [exec] at hb
    split at hb
    · obtain ⟨e, -, rfl⟩ := List.mem_map.mp hb
      exact .inr ⟨by simp, by simp⟩
    · cases hb
  | stop =>
    simp only [exec] at hb
    split at hb
    · cases List.mem_singleton.mp hb; exact .inr ⟨by simp, fun _ => rfl⟩
    · cases hb
  | limit h =>
    simp only [exec] at hb
    split at hb <;> cases hb
  | _ => cases hb

theorem eventOf_none {a : Act} (ha : ∀ o, a ≠ .emit o) : a.eventOf c = none := by
  cases a with
  | emit o => exact absurd rfl (ha o)
  | _ => rfl

/-- A granted frame has a connected event to make; no other frame has any. -/
theorem callbacks_events (s : Session) (k : ConnId) (f : Frame) :
    waiting c ((callbacks config s k f).map .emit) = if k = c ∧ grants config s k f = true then [true] else [] := by
  unfold callbacks
  by_cases hg : grants config s k f = true
  · rw [if_pos hg]
    by_cases hk : k = c
    · subst hk
      simp [waiting, Act.eventOf, Out.eventOf, hg]
    · simp [waiting, Act.eventOf, Out.eventOf, hk]
  · rw [if_neg hg, if_neg (show ¬ (k = c ∧ grants config s k f = true) from fun h => hg h.2)]
    apply waiting_eq_nil
    intro a ha
    obtain ⟨o, ho, rfl⟩ := List.mem_map.mp ha
    split at ho
    · obtain ⟨m, -, rfl⟩ := List.mem_map.mp (by simpa only [Option.toList_map] using ho)
      rfl
    · cases ho

theorem frame_events (net : Handle → Frame → Bool) {k : ConnId} {f : Frame}
    (h : InStep config ids s log (.frame k f)) :
    EventStep c s log (.frame k f) (exec config ids net s (.frame k f)) := by
  have hout := out_tells_nothing config ids net s (show (Act.frame k f).eventOf c = none from rfl)
  have hrest : waiting c (exec config ids net s (.frame k f)).rest =
      if k = c ∧ grants config s k f = true then [true] else [] := by
    rw [← callbacks_events, ← onFrame_after config net s k f]
    rfl
  by_cases hk : k = c
  · subst hk
    have ha : (exec config ids net s (.frame k f)).s.authenticated k =
        (grants config s k f || !challenges config f && s.authenticated k) := onFrame_authenticated config net s k f
    by_cases hg : grants config s k f = true
    · obtain ⟨h1, h2⟩ := h.1 hg
      rw [hg, Bool.true_or] at ha
      refine .decides rfl (by rw [h1, h2]) (by rw [ha, h1]; rfl) ?_ hout
      rw [hrest, ha, if_pos ⟨rfl, hg⟩]
    · refine .quiet rfl (by rw [hrest, if_neg fun h => hg h.2]) ?_ hout
      rw [Bool.not_eq_true] at hg
      rw [ha, hg, Bool.false_or]
      cases hc : challenges config f with
      | true => rw [h.2 hc]; rfl
      | false => rfl
  · refine .quiet rfl ?_ (onFrame_authenticated_other config net s f hk) hout
    rw [hrest, if_neg fun h => hk h.1]

theorem onDisconnect_authenticated (s : Session) (k : ConnId) :
    (onDisconnect s k).s.authenticated c = if k = c then false else s.authenticated c := by
  have hp : (onDisconnect s k).s.peers[c]? = if k = c then none else s.peers[c]? := find_erase s.peers k c
  split
  · rename_i hk
    rw [if_pos hk] at hp
    unfold Session.authenticated
    rw [hp]
  · rename_i hk
    rw [if_neg hk] at hp
    exact authenticated_congr hp

/-- `onDisconnect` reports the entry it erases just if that is AUTHENTICATED. -/
theorem onDisconnect_after (s : Session) (k : ConnId) :
    (onDisconnect s k).after = if s.authenticated k then [.peerEvent k (s.peers[k]?.getD {}) false] else [] := by
  unfold onDisconnect Session.authenticated
  cases s.peers[k]? with
  | none => rfl
  | some peer =>
    by_cases hp : peer.state = .AUTHENTICATED
    · simp [hp]
    · simp [hp]

theorem onDisconnect_events (s : Session) (k : ConnId) :
    waiting c ((onDisconnect s k).after.map .emit) = if k = c ∧ s.authenticated k = true then [false] else [] := by
  rw [onDisconnect_after]
  cases hs : s.authenticated k with
  | true => by_cases hk : k = c <;> simp [waiting, Act.eventOf, Out.eventOf, hk]
  | false => simp [waiting]

theorem drop_events (net : Handle → Frame → Bool) {k : ConnId} {reason : Bytes}
    (h : InStep config ids s log (.drop k reason)) :
    EventStep c s log (.drop k reason) (exec config ids net s (.drop k reason)) := by
  have hout := out_tells_nothing config ids net s (show (Act.drop k reason).eventOf c = none from rfl)
  have hrest : waiting c (exec config ids net s (.drop k reason)).rest =
      if k = c ∧ s.authenticated k = true then [false] else [] := onDisconnect_events s k
  have ha : (exec config ids net s (.drop k reason)).s.authenticated c =
      if k = c then false else s.authenticated c := onDisconnect_authenticated s k
  by_cases hk : k = c
  · subst hk
    rw [if_pos rfl] at ha
    cases hs : s.authenticated k with
    | true =>
      refine .decides rfl h (by rw [ha, hs]; rfl) ?_ hout
      rw [hrest, ha, if_pos ⟨rfl, hs⟩]
    | false =>
      refine .quiet rfl ?_ (by rw [ha, hs]) hout
      rw [hrest, hs, if_neg (by simp)]
  · refine .quiet rfl ?_ (by rw [ha, if_neg hk]) hout
    rw [hrest, if_neg fun h => hk h.1]

/-- Whatever piece a run may take, for every id it is one of three kinds. -/
theorem exec_events (net : Handle → Frame → Bool) {a : Act} (h : InStep config ids s log a) (hs : a ≠ .stopAll)
    (c : ConnId) : EventStep c s log a (exec config ids net s a) := by
  by_cases hf : ∃ k f, a = .frame k f
  · obtain ⟨k, f, rfl⟩ := hf
    exact frame_events net h
  by_cases hd : ∃ k reason, a = .drop k reason
  · obtain ⟨k, reason, rfl⟩ := hd
    exact drop_events net h
  have hrest : waiting c (exec config ids net s a).rest = [] := by
    apply waiting_eq_nil
    intro b hb
    rcases mem_rest hb with ⟨-, hl⟩ | ⟨hb, -⟩
    · exact absurd hl (not_or.mpr ⟨hf, hd⟩)
    · exact eventOf_none hb
  simp only [not_exists] at hf hd
  have ha : (exec config ids net s a).s.authenticated c = s.authenticated c := by
    have hm := exec_maps config ids net s a
    cases a with
    | frame k f => exact absurd rfl (hf k f)
    | drop k reason => exact absurd rfl (hd k reason)
    | stopAll => exact absurd rfl hs
    | register r =>
      rcases hm with ⟨hr, -, hp⟩ | ⟨-, hp⟩
      · by_cases hc : ids r = c
        · subst hc
          rw [h hr]
          unfold Session.authenticated
          rw [hp, find_insert, if_pos rfl]
          rfl
        · apply authenticated_congr
          rw [hp, find_insert, if_neg hc]
      · exact authenticated_congr (by rw [hp])
    | _ => exact authenticated_congr (by rw [hm.2])
  cases he : a.eventOf c with
  | none => exact .quiet he hrest ha (out_tells_nothing config ids net s he)
  | some up =>
    cases a with
    | emit o =>
      refine .tells up he rfl ha ?_
      show [o].filterMap (Out.eventOf c) = [up]
      rw [List.filterMap_cons, show o.eventOf c = some up from he, List.filterMap_nil]
    | _ => cases he

/-! ## Runs -/

/-- No thread is to stop the session, a thread that has entered `recv` has nothing else to
    do, and for each id at most one event is still to be made: the one that tells what its
    entry has become. -/
structure Steady (S : Sys) : Prop where
  unstopped : ∀ t, ∀ a ∈ S.todo t, a ≠ .stop ∧ a ≠ .stopAll
  reading : ∀ h, S.reading h = true → S.todo (.recv h) = []
  pending : ∀ c, ∃ d : Option Tid, d.isSome = (told S.log c != S.s.authenticated c) ∧
    ∀ t, waiting c (S.todo t) = if d = some t then [S.s.authenticated c] else []
  alternating : ∀ c, Alternating (events c S.log)

theorem Steady.init : Steady {} where
  unstopped := fun t a ha => by cases ha
  reading := fun h hr => by cases hr
  pending := fun c => ⟨none, by simp [told, events, Session.authenticated], fun t => rfl⟩
  alternating := fun c => trivial

/-- A thread that had nothing to do may be given pieces that are no events. -/
theorem Steady.retask {S S' : Sys} (h : Steady S) (hp : S'.s.peers = S.s.peers) (hl : S'.log = S.log) {t : Tid}
    {acts : List Act} (ht : S.todo t = []) (htodo : S'.todo = Function.update S.todo t acts)
    (hacts : ∀ a ∈ acts, (∀ o, a ≠ .emit o) ∧ a ≠ .stop ∧ a ≠ .stopAll)
    (hr : ∀ k, S'.reading k = true → S.reading k = true ∧ Tid.recv k ≠ t) : Steady S' := by
  refine ⟨?_, ?_, ?_, ?_⟩
  · intro t' a ha
    rw [htodo] at ha
    by_cases he : t' = t
    · subst he
      rw [Function.update_self] at ha
      exact (hacts a ha).2
    · rw [Function.update_of_ne he] at ha
      exact h.unstopped t' a ha
  · intro k hk
    rw [htodo, Function.update_of_ne (hr k hk).2]
    exact h.reading k (hr k hk).1
  · intro c
    obtain ⟨d, hd, hw⟩ := h.pending c
    have ha : S'.s.authenticated c = S.s.authenticated c := authenticated_congr (by rw [hp])
    refine ⟨d, by rw [hl, ha, hd], ?_⟩
    intro t'
    rw [ha, htodo]
    by_cases he : t' = t
    · subst he
      have hnil : waiting c acts = [] := waiting_eq_nil fun a ha => eventOf_none (hacts a ha).1
      have hold := hw t'
      rw [ht] at hold
      rw [Function.update_self, hnil, ← hold]
      rfl
    · rw [Function.update_of_ne he]
      exact hw t'
  · intro c
    rw [hl]
    exact h.alternating c

theorem events_pushed (c : ConnId) (t : Tid) (outs : List Out) (log : List (Tid × Out)) :
    events c ((outs.map fun o => (t, o)).reverse ++ log) =
      (outs.filterMap (Out.eventOf c)).reverse ++ events c log := by
  rw [events, List.filterMap_append, List.filterMap_reverse, List.filterMap_map]
  rfl

/-- One id's share of a step: how its events and what is left to make of them go on. -/
theorem pending_run {S : Sys} {t : Tid} {a : Act} {rest : List Act} {p : Piece} (ht : S.todo t = a :: rest)
    (hE : EventStep c S.s S.log a p)
    (hpend : ∃ d : Option Tid, d.isSome = (told S.log c != S.s.authenticated c) ∧
      ∀ t, waiting c (S.todo t) = if d = some t then [S.s.authenticated c] else [])
    (hA : Alternating (events c S.log)) :
    let log' := (p.out.map fun o => (t, o)).reverse ++ S.log
    (∃ d : Option Tid, d.isSome = (told log' c != p.s.authenticated c) ∧
      ∀ t', waiting c (Function.update S.todo t (p.rest ++ rest) t') =
        if d = some t' then [p.s.authenticated c] else []) ∧
      Alternating (events c log') := by
  intro log'
  obtain ⟨d, hd, hw⟩ := hpend
  have hev : events c log' = (p.out.filterMap (Out.eventOf c)).reverse ++ events c S.log :=
    events_pushed c t p.out S.log
  have hhead : waiting c [a] ++ waiting c rest = if d = some t then [S.s.authenticated c] else [] := by
    rw [← hw t, ht, ← waiting_append]
    rfl
  cases hE with
  | quiet ha hrest hs hout =>
    rw [hout] at hev
    have htold : told log' c = told S.log c := congrArg (·.headD false) hev
    refine ⟨⟨d, by rw [htold, hs, hd], ?_⟩, by rw [hev]; exact hA⟩
    intro t'
    rw [hs]
    by_cases he : t' = t
    · subst he
      have hone : waiting c [a] = [] := by simp [waiting, ha]
      rw [Function.update_self, waiting_append, hrest, List.nil_append, ← hhead, hone, List.nil_append]
    · rw [Function.update_of_ne he]
      exact hw t'
  | decides ha htl hs hrest hout =>
    rw [hout] at hev
    have htold : told log' c = told S.log c := congrArg (·.headD false) hev
    have hnone : d = none := by simpa [htl] using hd
    subst hnone
    refine ⟨⟨some t, by rw [htold, htl, hs]; cases S.s.authenticated c <;> rfl, ?_⟩, by rw [hev]; exact hA⟩
    intro t'
    by_cases he : t' = t
    · subst he
      have hr : waiting c rest = [] := (List.append_eq_nil_iff.mp hhead).2
      rw [Function.update_self, waiting_append, hrest, hr, if_pos rfl]
      rfl
    · rw [Function.update_of_ne he, hw t', if_neg (by simp), if_neg fun h => he (Option.some.inj h).symm]
  | tells up ha hrest hs hout =>
    rw [hout] at hev
    have htold : told log' c = up := congrArg (·.headD false) hev
    have hdt : d = some t ∧ up = S.s.authenticated c ∧ waiting c rest = [] := by
      have hone : waiting c [a] = [up] := by simp [waiting, ha]
      rw [hone] at hhead
      split at hhead
      · rename_i h
        simp only [List.cons_append, List.nil_append, List.cons.injEq] at hhead
        exact ⟨h, hhead.1, hhead.2⟩
      · cases hhead
    obtain ⟨rfl, rfl, hr⟩ := hdt
    refine ⟨⟨none, by rw [htold, hs]; simp, ?_⟩, ?_⟩
    · intro t'
      by_cases he : t' = t
      · subst he
        rw [Function.update_self, hrest, List.nil_append, hr, if_neg (by simp)]
      · rw [Function.update_of_ne he, hw t', if_neg fun h => he (Option.some.inj h).symm, if_neg (by simp)]
    · rw [hev]
      refine ⟨?_, hA⟩
      have hne : told S.log c ≠ S.s.authenticated c := by simpa using hd.symm
      show S.s.authenticated c = !told S.log c
      cases hb : S.s.authenticated c <;> cases hb' : told S.log c <;> simp_all

theorem Steady.run {S S' : Sys} (h : Steady S) {t : Tid} {net : Handle → Frame → Bool}
    (hl : ∀ a ∈ (S.todo t).head?, InStep config ids S.s S.log a)
    (hs : step config ids w S (.run t net) = some S') : Steady S' := by
  obtain ⟨a, rest, hr⟩ := step_run hs
  have hmem : ∀ b ∈ a :: rest, b ≠ .stop ∧ b ≠ .stopAll := by
    intro b hb
    exact h.unstopped t b (by rw [hr.before]; exact hb)
  have hin : InStep config ids S.s S.log a := hl a (by rw [hr.before]; rfl)
  have hE := fun c => pending_run hr.before (exec_events net hin (hmem a List.mem_cons_self).2 c) (h.pending c)
    (h.alternating c)
  have hauth : ∀ c, S'.s.authenticated c = (exec config ids net S.s a).s.authenticated c :=
    fun c => authenticated_congr (by rw [hr.peers])
  refine ⟨?_, ?_, ?_, ?_⟩
  · intro t' b hb
    rw [hr.todo] at hb
    by_cases he : t' = t
    · subst he
      rw [Function.update_self] at hb
      rcases List.mem_append.mp hb with hb | hb
      · refine ⟨?_, ?_⟩
        · intro he
          subst he
          exact mem_exec_rest config ids net hb
        · intro he
          subst he
          rcases mem_rest hb with ⟨⟨o, ho⟩, -⟩ | ⟨-, hst⟩
          · cases ho
          · exact (hmem a List.mem_cons_self).1 (hst rfl)
      · exact hmem b (List.mem_cons_of_mem _ hb)
    · rw [Function.update_of_ne he] at hb
      exact h.unstopped t' b hb
  · intro k hk
    rw [hr.reading] at hk
    have hnil := h.reading k hk
    have hne : Tid.recv k ≠ t := by
      intro he
      subst he
      have := hr.before
      rw [hnil] at this
      cases this
    rw [hr.todo, Function.update_of_ne hne]
    exact hnil
  · intro c
    rw [hr.log, hauth c, hr.todo]
    exact (hE c).1
  · intro c
    rw [hr.log]
    exact (hE c).2

theorem received_plain {h : Handle} {conn : Connection} {elapsed : Bool} {data : Option Bytes} {a : Act}
    (ha : a ∈ (received w h conn elapsed data).2) : (∀ o, a ≠ .emit o) ∧ a ≠ .stop ∧ a ≠ .stopAll := by
  rcases mem_received ha with ⟨f, rfl⟩ | ⟨reason, rfl⟩ | rfl | ⟨reason, rfl⟩ <;> exact ⟨by simp, by simp, by simp⟩

/-- Every state of a run that keeps in step is steady. -/
theorem Steady.of_reachable {S : Sys} (h : Reachable config ids w Op.NotStop (InStep config ids) S) : Steady S := by
  refine Machine.Reach.invariant Steady.init ?_ h
  intro S l S' hS hl hs
  cases l with
  | call n op =>
    simp only [Chat.step] at hs
    split at hs
    · rename_i ht
      cases hs
      refine hS.retask (by cases op <;> rfl) rfl ht rfl ?_ ?_
      · intro a ha
        cases op with
        | stop => exact absurd hl id
        | _ => cases List.mem_singleton.mp ha; exact ⟨by simp, by simp, by simp⟩
      · exact fun k hk => ⟨hk, by simp⟩
    · cases hs
  | poll h =>
    simp only [Chat.step] at hs
    split at hs
    · rename_i ht
      cases hs
      refine ⟨hS.unstopped, ?_, hS.pending, hS.alternating⟩
      intro k hk
      by_cases he : k = h
      · subst he
        exact ht.1
      · exact hS.reading k (by simpa only [Function.update_of_ne he] using hk)
    · cases hs
  | read h data elapsed =>
    simp only [Chat.step] at hs
    split at hs
    · rename_i hr
      cases hs
      refine hS.retask rfl rfl (hS.reading h hr) rfl (fun a ha => received_plain ha) ?_
      intro k hk
      by_cases he : k = h
      · subst he
        cases (show Function.update S.reading k false k = true from hk).symm.trans (Function.update_self ..)
      · refine ⟨?_, by rintro ⟨⟩; exact he rfl⟩
        exact (Function.update_of_ne he false S.reading).symm.trans hk
    · cases hs
  | run t net => exact hS.run hl hs

/-- In every run that keeps in step the events of every id alternate, and wherever an
    `onDisconnect(c)` returns, `c` has had as many connected events as disconnected ones. -/
theorem events_balanced {S : Sys} (h : Reachable config ids w Op.NotStop (InStep config ids) S) :
    (∀ c, Alternating (events c S.log)) ∧
      ∀ t net a S' c, (S.todo t).head? = some a → EndsDisconnect S.s c a → InStep config ids S.s S.log a →
        step config ids w S (.run t net) = some S' →
          (events c S'.log).count true = (events c S'.log).count false := by
  have hS := Steady.of_reachable h
  refine ⟨hS.alternating, ?_⟩
  intro t net a S' c hhead hend hin hs
  have hrun : ∀ b ∈ (S.todo t).head?, InStep config ids S.s S.log b := by
    intro b hb
    rw [hhead] at hb
    cases hb
    exact hin
  refine ((hS.run hrun hs).alternating c).balanced ?_
  obtain ⟨a', rest, hr⟩ := step_run hs
  have ha : a' = a := Option.some.inj ((congrArg List.head? hr.before).symm.trans hhead)
  subst ha
  rw [hr.log, events_pushed]
  cases a' with
  | drop k reason =>
    obtain ⟨rfl, hnil⟩ := hend
    have hfalse : S.s.authenticated k = false := by
      rw [onDisconnect_after] at hnil
      by_contra hne
      rw [if_pos (by simpa using hne)] at hnil
      cases hnil
    show told S.log k = false
    rw [← hfalse]
    exact hin
  | emit o =>
    cases o with
    | peerEvent k info up =>
      obtain ⟨rfl, rfl⟩ := hend
      show (([Out.peerEvent k info false].filterMap (Out.eventOf k)).reverse ++ events k S.log).headD false = false
      simp [Out.eventOf]
    | _ => exact hend.elim
  | _ => exact hend.elim

end

theorem oneRead_notStop (fs : List Frame) (pieces : Nat) : ∀ l ∈ oneRead fs pieces, l.Calls Op.NotStop := by
  intro l hl
  have h := oneRead_fromUser fs pieces l hl
  cases l with
  | call n op =>
    cases op with
    | stop => simp [oneRead, List.mem_replicate] at hl
    | _ => trivial
  | _ => trivial

/-- A peer that says HELLO twice is connected twice. -/
theorem connected_twice :
    ∃ S, Reachable {} (fun _ => str "c") (registeredWiring fun _ => str "c") Op.NotStop (fun _ _ _ => True) S ∧
      ¬ Alternating (events (str "c") S.log) := by
  have hrun : ((Machine.run (Machine.checked (step {} (fun _ => str "c") (registeredWiring fun _ => str "c"))
      fun _ _ => true) {} (oneRead [hello, hello] 4)).map fun S => events (str "c") S.log == [true, true]) =
      some true := by decide +kernel
  obtain ⟨S, hS, hp⟩ :
      ∃ S, Reachable {} (fun _ => str "c") (registeredWiring fun _ => str "c") Op.NotStop
        (fun _ _ _ => True) S ∧ _ :=
    Reachable.of_run (oneRead_notStop _ _) (fun _ _ _ _ _ _ => trivial) hrun
  refine ⟨S, hS, ?_⟩
  rw [beq_iff_eq.mp hp]
  intro h
  cases (show true = false from h.1)

/-- A peer says HELLO, and its connection is dropped twice. -/
def helloAndGone : List Label :=
  let net := fun _ _ => true
  oneRead [hello] 2 ++ [.call 1 (.onDisconnect (str "c") []), .run (.app 1) net, .run (.app 1) net,
    .call 1 (.onDisconnect (str "c") []), .run (.app 1) net]

theorem events_balanced_gone :
    ∃ S, Reachable {} (fun _ => str "c") (registeredWiring fun _ => str "c") Op.NotStop
        (InStep {} fun _ => str "c") S ∧
      events (str "c") S.log = [false, true] ∧ (∀ c, Alternating (events c S.log)) ∧
      ∀ t net a S' c, (S.todo t).head? = some a → EndsDisconnect S.s c a →
        InStep {} (fun _ => str "c") S.s S.log a →
        step {} (fun _ => str "c") (registeredWiring fun _ => str "c") S (.run t net) = some S' →
        (events c S'.log).count true = (events c S'.log).count false := by
  have hrun : ((Machine.run (Machine.checked (step {} (fun _ => str "c") (registeredWiring fun _ => str "c"))
      (passes (InStep {} fun _ => str "c"))) {} helloAndGone).map fun S =>
        events (str "c") S.log == [false, true]) = some true := by decide +kernel
  have hops : ∀ l ∈ helloAndGone, l.Calls Op.NotStop := by
    intro l hl
    rcases List.mem_append.mp hl with hl | hl
    · exact oneRead_notStop _ _ l hl
    · simp only [List.mem_cons, List.not_mem_nil, or_false] at hl
      rcases hl with rfl | rfl | rfl | rfl | rfl <;> trivial
  obtain ⟨S, hS, hp⟩ := Reachable.of_passing hops hrun
  obtain ⟨h1, h2⟩ := events_balanced hS
  exact ⟨S, hS, beq_iff_eq.mp hp, h1, h2⟩

end LanTalk.Chat
