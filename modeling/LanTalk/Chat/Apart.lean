/-
  LanTalk.Chat.Apart — what a session has of one connection id: whether it is running, what
  is registered, the id's own `peers_` entry and its own connections. `Alike` relates
  sessions that have this in common, `SameAt` those that have in common what is `c`'s alone.

  Proved: a frame on another id changes none of it and writes nothing to the id's
  connections (`onFrame_elsewhere`); its own frames, and whatever else a session does, keep
  sessions alike and write the same to its connections (`onFrame_alike`, `exec_alike`).
-/

import LanTalk.Chat.SessionProofs

namespace LanTalk.Chat

open LanTalk.Lib LanTalk.Network LanTalk.Config

/-- Sessions that connection id `c` cannot tell apart. -/
structure Alike (ids : Handle → ConnId) (c : ConnId) (s s' : Session) : Prop where
  running : s'.running = s.running
  connections : s'.connections = s.connections
  peer : s'.peers[c]? = s.peers[c]?
  objs : ∀ k, ids k = c → s'.objs k = s.objs k

/-- Sessions that have the same of connection id `c`, whatever the others are. -/
structure SameAt (ids : Handle → ConnId) (c : ConnId) (s s' : Session) : Prop where
  connection : s'.connections[c]? = s.connections[c]?
  peer : s'.peers[c]? = s.peers[c]?
  objs : ∀ k, ids k = c → s'.objs k = s.objs k

/-- Every connection is registered under the id drawn for it. -/
def OwnIds (ids : Handle → ConnId) (s : Session) : Prop := ∀ c k, s.connections[c]? = some k → ids k = c

theorem Alike.refl (ids : Handle → ConnId) (c : ConnId) (s : Session) : Alike ids c s s :=
  ⟨rfl, rfl, rfl, fun _ _ => rfl⟩

section
variable {config : AppConfig} {ids : Handle → ConnId} {net : Handle → Frame → Bool} {c : ConnId} {h : Handle}
  {s s' s'' : Session}

theorem Alike.symm (hA : Alike ids c s s') : Alike ids c s' s :=
  ⟨hA.running.symm, hA.connections.symm, hA.peer.symm, fun k hk => (hA.objs k hk).symm⟩

theorem Alike.trans (hA : Alike ids c s s') (hB : Alike ids c s' s'') : Alike ids c s s'' :=
  ⟨hB.running.trans hA.running, hB.connections.trans hA.connections, hB.peer.trans hA.peer,
    fun k hk => (hB.objs k hk).trans (hA.objs k hk)⟩

theorem Alike.sameAt (hA : Alike ids c s s') : SameAt ids c s s' := ⟨by rw [hA.connections], hA.peer, hA.objs⟩

theorem SameAt.symm (hA : SameAt ids c s s') : SameAt ids c s' s :=
  ⟨hA.connection.symm, hA.peer.symm, fun k hk => (hA.objs k hk).symm⟩

theorem SameAt.trans (hA : SameAt ids c s s') (hB : SameAt ids c s' s'') : SameAt ids c s s'' :=
  ⟨hB.connection.trans hA.connection, hB.peer.trans hA.peer,
    fun k hk => (hB.objs k hk).trans (hA.objs k hk)⟩

theorem OwnIds.exec (config : AppConfig) (net : Handle → Frame → Bool) (hO : OwnIds ids s) (a : Act) :
    OwnIds ids (exec config ids net s a).s := by
  intro c k hc
  have hm := exec_maps config ids net s a
  cases a with
  | register r =>
    rcases hm with ⟨-, hm, -⟩ | ⟨hm, -⟩ <;> rw [hm] at hc
    · rw [find_insert] at hc
      split at hc
      · rename_i he; cases hc; exact he
      · exact hO c k hc
    · exact hO c k hc
  | drop c' reason =>
    rw [hm.1, find_erase] at hc
    split at hc
    · cases hc
    · exact hO c k hc
  | stopAll => rw [hm.1, find_empty] at hc; cases hc
  | _ => rw [hm.1] at hc; exact hO c k hc

/-- A connection that some id holds is held by its own. -/
theorem OwnIds.mem_values (hO : OwnIds ids s) (k : Handle) :
    k ∈ s.connections.values ↔ s.connections[ids k]? = some k := by
  rw [Chat.mem_values]
  constructor
  · intro h
    obtain ⟨e, he⟩ := h
    rw [hO e k he]
    exact he
  · intro h
    exact ⟨ids k, h⟩

/-! ## What reaches a connection -/

theorem reaching_append (outs outs' : List Out) :
    reaching h (outs ++ outs') = reaching h outs ++ reaching h outs' :=
  List.filterMap_append

theorem reaching_flatMap {α : Type} (l : List α) (g : α → List Out) :
    reaching h (l.flatMap g) = l.flatMap fun e => reaching h (g e) :=
  List.filterMap_flatMap

theorem reaching_eq_nil {outs : List Out} (ho : ∀ c k f ok, Out.sent c k f ok ∈ outs → k ≠ h) :
    reaching h outs = [] := by
  apply List.filterMap_eq_nil_iff.mpr
  intro o hm
  cases o with
  | sent c k f ok => exact if_neg fun he => ho c k f ok hm he.1
  | _ => rfl

theorem send_congr {k : Handle} (hk : s'.objs k = s.objs k) (e : ConnId) (type : MessageType)
    (payload : Bytes) :
    s'.send net e k type payload = s.send net e k type payload := by
  simp only [Session.send, hk]

theorem Alike.reaching_send (hA : Alike ids c s s') (hh : ids h = c) (e : ConnId) (k : Handle)
    (type : MessageType) (payload : Bytes) :
    reaching h (s'.send net e k type payload).2 = reaching h (s.send net e k type payload).2 := by
  by_cases hk : k = h
  · rw [send_congr (hA.objs k (hk ▸ hh))]
  · have hnil : ∀ x : Session, reaching h (x.send net e k type payload).2 = [] := by
      intro x
      apply reaching_eq_nil
      intro c' k' f ok ho
      cases (mem_send net ho).1
      exact hk
    rw [hnil, hnil]

/-- `disconnect` treats each connection by itself. -/
theorem disconnect_objs (e : ConnId) (k : Handle) (reason : Bytes) {j : Handle} (hj : s'.objs j = s.objs j) :
    (s'.disconnect net e k reason).1.objs j = (s.disconnect net e k reason).1.objs j := by
  unfold Session.disconnect
  by_cases hk : j = k
  · subst hk
    rw [hj]
    split
    · exact hj
    · simp only [Function.update_self]
  · split <;> split <;> simp only [Function.update_of_ne hk, hj]

theorem Alike.disconnect (hA : Alike ids c s s') (net : Handle → Frame → Bool) (e : ConnId) (k : Handle)
    (reason : Bytes) :
    Alike ids c (s.disconnect net e k reason).1 (s'.disconnect net e k reason).1 := by
  obtain ⟨h1, h2, h3, -⟩ := disconnect_frame net s e k reason
  obtain ⟨h1', h2', h3', -⟩ := disconnect_frame net s' e k reason
  refine ⟨?_, ?_, ?_, fun j hj => disconnect_objs e k reason (hA.objs j hj)⟩
  · rw [h3, h3', hA.running]
  · rw [h1, h1', hA.connections]
  · rw [h2, h2', hA.peer]

theorem disconnect_congr {k : Handle} (hk : s'.objs k = s.objs k) (e : ConnId) (reason : Bytes) :
    (s'.disconnect net e k reason).2 = (s.disconnect net e k reason).2 := by
  simp only [Session.disconnect, hk, send_congr hk]
  split <;> rfl

theorem Alike.reaching_disconnect (hA : Alike ids c s s') (hh : ids h = c) (e : ConnId) (k : Handle)
    (reason : Bytes) :
    reaching h (s'.disconnect net e k reason).2 = reaching h (s.disconnect net e k reason).2 := by
  by_cases hk : k = h
  · rw [disconnect_congr (hA.objs k (hk ▸ hh))]
  · have hnil : ∀ x : Session, reaching h (x.disconnect net e k reason).2 = [] := by
      intro x
      apply reaching_eq_nil
      intro c' k' f ok ho
      rcases mem_disconnect net ho with he | ⟨ok', he, -⟩ <;> cases he
      exact hk
    rw [hnil, hnil]

theorem Alike.disconnectAll (hA : Alike ids c s s') (net : Handle → Frame → Bool) (hh : ids h = c)
    (es : List (ConnId × Handle)) :
    Alike ids c (disconnectAll net s es).1 (disconnectAll net s' es).1 ∧
      reaching h (Chat.disconnectAll net s' es).2 = reaching h (Chat.disconnectAll net s es).2 := by
  induction es generalizing s s' with
  | nil => exact ⟨hA, rfl⟩
  | cons e es ih =>
    obtain ⟨h1, h2⟩ := ih (hA.disconnect net e.1 e.2 sessionStopped)
    refine ⟨h1, ?_⟩
    simp only [Chat.disconnectAll, reaching_append, hA.reaching_disconnect hh, h2]

/-! ## Frames -/

theorem onFrame_objs_other {f : Frame} {j : Handle} (hj : s.connections[c]? ≠ some j) :
    (onFrame config net s c f).s.objs j = s.objs j := by
  have hdis : ∀ k reason, s.connections[c]? = some k → (s.disconnect net c k reason).1.objs j = s.objs j := by
    intro k reason hk
    have hne : j ≠ k := fun he => hj (he ▸ hk)
    unfold Session.disconnect
    split
    · rfl
    · exact Function.update_of_ne hne _ _
  have hang : ∀ reason, (s.hangUp net c reason).s.objs j = s.objs j := by
    intro reason
    unfold Session.hangUp
    split
    · rename_i k hk; exact hdis k reason hk
    · rfl
  unfold onFrame
  cases f.header.type with
  | HELLO =>
    unfold handleHello
    by_cases hd : extractStr f.payloadAsString (str "device_id") = []
    · simp only [hd, if_true]; exact hang _
    · cases hr : config.requireAuth <;> simp [hd]
  | AUTH_RESPONSE =>
    show (handleAuthResponse config net s c f.payloadAsString).s.objs j = s.objs j
    unfold handleAuthResponse
    split
    · rfl
    · rename_i k hk
      split
      · rfl
      · exact hdis k _ hk
  | CHAT_MESSAGE => simp only [handleChatMessage_after]
  | DISCONNECT => exact hang _
  | _ => rfl

/-- A frame on another connection id is none of `c`'s business. -/
theorem onFrame_elsewhere (config : AppConfig) (net : Handle → Frame → Bool) (hO : OwnIds ids s)
    {k : ConnId} (hk : k ≠ c) (f : Frame) :
    Alike ids c s (onFrame config net s k f).s ∧ ∀ h, ids h = c →
      reaching h (onFrame config net s k f).out = [] := by
  obtain ⟨h1, -, h3, -, -⟩ := onFrame_spec config net s k f
  refine ⟨⟨h3, h1, onFrame_peers_other config net s f hk, fun j hj => onFrame_objs_other fun hc => ?_⟩,
    fun h hh => ?_⟩
  · exact hk ((hO k j hc).symm.trans hj)
  · apply reaching_eq_nil
    intro c' k' f' ok ho he
    rcases mem_onFrame_out config net ho with ⟨k'', f'', ok', heq, -, hc⟩ | ⟨k'', reason, heq, -⟩ <;> cases heq
    rw [he] at hc
    exact hk ((hO k h hc).symm.trans hh)

theorem SameAt.own (hA : SameAt ids c s s') (hO : OwnIds ids s) {k : Handle} (hk : s.connections[c]? = some k) :
    s'.objs k = s.objs k :=
  hA.objs k (hO c k hk)

/-- A handler's answer does not depend on what it has made of `peers_`. -/
theorem SameAt.reply (hA : SameAt ids c s s') (hO : OwnIds ids s) (p p' : ConnMap PeerInfo) (type : MessageType)
    (payload : Bytes) :
    ({ s' with peers := p' } : Session).reply net c type payload =
      ({ s with peers := p } : Session).reply net c type payload := by
  simp only [Session.reply, hA.connection]
  split
  · rename_i k hk; simp only [Session.send, hA.own hO hk]
  · rfl

theorem SameAt.hangUp (hA : SameAt ids c s s') (hO : OwnIds ids s) (reason : Bytes) :
    (∀ j, ids j = c → (s'.hangUp net c reason).s.objs j = (s.hangUp net c reason).s.objs j) ∧
      (s'.hangUp net c reason).out = (s.hangUp net c reason).out := by
  simp only [Session.hangUp, hA.connection]
  split
  · rename_i k hk
    exact ⟨fun j hj => disconnect_objs c k reason (hA.objs j hj), disconnect_congr (hA.own hO hk) c reason⟩
  · exact ⟨hA.objs, rfl⟩

theorem SameAt.grants (hA : SameAt ids c s s') (f : Frame) : grants config s' c f = grants config s c f := by
  simp only [Chat.grants, hA.connection]

theorem SameAt.granted (hA : SameAt ids c s s') (f : Frame) : granted s' c f = granted s c f := by
  simp only [Chat.granted, helloPeer, hA.peer]

theorem SameAt.peersAfter (hA : SameAt ids c s s') (f : Frame) :
    (peersAfter config s' c f)[c]? = (peersAfter config s c f)[c]? := by
  have hp : helloPeer s' c f.payloadAsString = helloPeer s c f.payloadAsString := by
    simp only [helloPeer, hA.peer]
  unfold Chat.peersAfter
  rw [hA.grants, hA.granted, hp]
  split
  · rw [find_insert, find_insert, if_pos rfl, if_pos rfl]
  · split
    · rw [find_insert, find_insert, if_pos rfl, if_pos rfl]
    · exact hA.peer

theorem SameAt.callbacks (hA : SameAt ids c s s') (f : Frame) :
    callbacks config s' c f = callbacks config s c f := by
  unfold Chat.callbacks
  rw [hA.grants, hA.granted, authenticated_congr hA.peer]

/-- All that a session does with a frame of `c` is decided by what it has of `c`. -/
theorem onFrame_same (config : AppConfig) (net : Handle → Frame → Bool) (hA : SameAt ids c s s')
    (hO : OwnIds ids s) (f : Frame) :
    SameAt ids c (onFrame config net s c f).s (onFrame config net s' c f).s ∧
      (onFrame config net s' c f).out = (onFrame config net s c f).out ∧
      (onFrame config net s' c f).after = (onFrame config net s c f).after := by
  obtain ⟨h1, h2, -, -, h5⟩ := onFrame_spec config net s c f
  obtain ⟨h1', h2', -, -, h5'⟩ := onFrame_spec config net s' c f
  suffices h : (∀ j, ids j = c → (onFrame config net s' c f).s.objs j = (onFrame config net s c f).s.objs j) ∧
      (onFrame config net s' c f).out = (onFrame config net s c f).out by
    refine ⟨⟨?_, ?_, h.1⟩, h.2, ?_⟩
    · rw [h1, h1', hA.connection]
    · rw [h2, h2', hA.peersAfter]
    · rw [h5, h5', hA.callbacks]
  unfold onFrame
  cases f.header.type with
  | HELLO =>
    unfold handleHello
    by_cases hd : extractStr f.payloadAsString (str "device_id") = []
    · simp only [hd, if_true]; exact hA.hangUp hO _
    · cases hr : config.requireAuth
      · simp only [hd, if_false, Bool.false_eq_true]; exact ⟨hA.objs, trivial⟩
      · simp only [hd, if_false, if_true]; exact ⟨hA.objs, hA.reply hO _ _ _ _⟩
  | AUTH_REQUEST => exact ⟨hA.objs, hA.reply hO _ _ _ _⟩
  | AUTH_RESPONSE =>
    simp only [handleAuthResponse, hA.connection]
    cases hc : s.connections[c]? with
    | none => exact ⟨hA.objs, rfl⟩
    | some k =>
      have hk := hA.own hO hc
      cases ha : accepted config f.payloadAsString with
      | true => exact ⟨hA.objs, by simp only [if_true, send_congr hk]⟩
      | false =>
        refine ⟨fun j hj => disconnect_objs c k _ (hA.objs j hj), ?_⟩
        simp only [Bool.false_eq_true, if_false, send_congr hk, disconnect_congr hk]
  | CHAT_MESSAGE => simp only [handleChatMessage_after]; exact ⟨hA.objs, trivial⟩
  | PING => exact ⟨hA.objs, hA.reply hO _ _ _ _⟩
  | DISCONNECT => exact hA.hangUp hO _
  | _ => exact ⟨hA.objs, rfl⟩

/-- Sessions that `c` cannot tell apart do the same with its frames. -/
theorem onFrame_alike (hA : Alike ids c s s') (hO : OwnIds ids s) (f : Frame) :
    Alike ids c (onFrame config net s c f).s (onFrame config net s' c f).s ∧
      (onFrame config net s' c f).out = (onFrame config net s c f).out := by
  obtain ⟨h1, -, h3, -, -⟩ := onFrame_spec config net s c f
  obtain ⟨h1', -, h3', -, -⟩ := onFrame_spec config net s' c f
  obtain ⟨hS, hout, -⟩ := onFrame_same config net hA.sameAt hO f
  exact ⟨⟨by rw [h3, h3', hA.running], by rw [h1, h1', hA.connections], hS.peer, hS.objs⟩, hout⟩

/-! ## The other pieces -/

/-- One connection's new state. -/
theorem Alike.update (hA : Alike ids c s s') (k : Handle) {o o' : Connection} (ho : ids k = c → o' = o) :
    Alike ids c { s with objs := Function.update s.objs k o }
      { s' with objs := Function.update s'.objs k o' } := by
  refine ⟨hA.running, hA.connections, hA.peer, ?_⟩
  intro j hj
  by_cases hk : j = k
  · subst hk
    simp only [Function.update_self, ho hj]
  · simp only [Function.update_of_ne hk, hA.objs j hj]

theorem Alike.limit (hA : Alike ids c s s') (k : Handle) :
    Alike ids c (exec config ids net s (.limit k)).s (exec config ids net s' (.limit k)).s := by
  by_cases hk : ids k = c
  · simp only [exec, hA.objs k hk]
    split
    · exact hA.disconnect _ _ _ _
    · exact hA.update k fun _ => rfl
  · -- the two may count differently, but neither touches a connection of `c`
    have hne : ∀ j, ids j = c → j ≠ k := fun j hj he => hk (by rw [← he, hj])
    have hown : ∀ x : Session, Alike ids c x (exec config ids net x (.limit k)).s := by
      intro x
      simp only [exec]
      split
      · obtain ⟨h1, h2, h3, -⟩ := disconnect_frame net x [] k rateLimitExceeded
        refine ⟨h3, h1, by rw [h2], ?_⟩
        intro j hj
        unfold Session.disconnect
        split
        · rfl
        · exact Function.update_of_ne (hne j hj) _ _
      · exact ⟨rfl, rfl, rfl, fun j hj => Function.update_of_ne (hne j hj) _ _⟩
    exact ((hown s).symm.trans hA).trans (hown s')

/-- Whatever a session does but handle a frame, it does alike, and writes the same to the
    connections of `c`. -/
theorem exec_alike (hA : Alike ids c s s') (hO : OwnIds ids s) (hh : ids h = c) {a : Act}
    (ha : ∀ k f, a ≠ .frame k f) :
    Alike ids c (exec config ids net s a).s (exec config ids net s' a).s ∧
      reaching h (exec config ids net s' a).out = reaching h (exec config ids net s a).out := by
  have hsend : ∀ e k type payload,
      reaching h (s'.send net e k type payload).2 = reaching h (s.send net e k type payload).2 :=
    fun e k type payload => hA.reaching_send hh e k type payload
  cases a with
  | frame k f => exact absurd rfl (ha k f)
  | startSession => exact ⟨⟨rfl, hA.connections, hA.peer, hA.objs⟩, rfl⟩
  | register k =>
    simp only [exec, hA.running]
    split
    · refine ⟨⟨rfl, by simp only [hA.connections], ?_, hA.objs⟩, rfl⟩
      simp only [find_insert, hA.peer]
    · exact ⟨hA, rfl⟩
  | start k => exact ⟨hA.update k fun hk => by rw [hA.objs k hk], rfl⟩
  | sendHello k e =>
    refine ⟨hA, ?_⟩
    simp only [exec, Session.reply, hA.connections]
    split
    · exact hsend _ _ _ _
    · rfl
  | drop e reason => exact ⟨⟨hA.running, by simp only [exec, Eff.piece, onDisconnect, hA.connections],
      by simp only [exec, Eff.piece, onDisconnect, find_erase, hA.peer], hA.objs⟩, rfl⟩
  | pick peerId msg =>
    simp only [exec]
    split <;> split <;> exact ⟨hA, rfl⟩
  | chat e k json => exact ⟨hA, hsend e k _ _⟩
  | broadcast json =>
    refine ⟨hA, ?_⟩
    simp only [exec, broadcastOut, hA.connections, reaching_flatMap]
    apply List.flatMap_congr
    intro e he
    by_cases hk : e.2 = h
    · have hc : e.1 = c := by rw [← hO e.1 e.2 ((mem_toList _ _).mp he), hk, hh]
      rw [authenticated_congr (show s'.peers[e.1]? = s.peers[e.1]? by rw [hc]; exact hA.peer)]
      split
      · exact hsend _ _ _ _
      · rfl
    · have hnil : ∀ (x : Session) (p : Bool),
          reaching h (if p = true then (x.send net e.1 e.2 .CHAT_MESSAGE json).2 else []) = [] := by
        intro x p
        apply reaching_eq_nil
        intro c' k' f ok ho
        split at ho
        · cases (mem_send net ho).1; exact hk
        · cases ho
      rw [hnil, hnil]
  | sweep =>
    simp only [exec, hA.running, hA.connections]
    split
    · refine ⟨hA, ?_⟩
      simp only [reaching_flatMap, hsend]
    · exact ⟨hA, rfl⟩
  | stop =>
    simp only [exec, hA.running]
    split
    · exact ⟨⟨rfl, hA.connections, hA.peer, hA.objs⟩, rfl⟩
    · exact ⟨hA, rfl⟩
  | stopAll =>
    obtain ⟨h1, h2⟩ := hA.disconnectAll net hh s.connections.toList
    simp only [exec, hA.connections]
    exact ⟨⟨h1.running, rfl, rfl, h1.objs⟩, h2⟩
  | limit k =>
    refine ⟨hA.limit k, ?_⟩
    simp only [exec]
    split <;> split <;> rfl
  | refuse k reason => exact ⟨hA.disconnect _ _ _ _, rfl⟩
  | emit o => exact ⟨hA, rfl⟩

end

end LanTalk.Chat
