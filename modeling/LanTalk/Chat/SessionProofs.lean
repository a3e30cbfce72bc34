/-
  LanTalk.Chat.SessionProofs — what one frame does to a session, said once: which frames
  open the gate of a connection id (`grants`), which challenge its peer (`challenges`) and
  which make the session disconnect it (`closes`), and from these the two maps, the
  callbacks and the frames sent, for every session and every frame.
-/

import LanTalk.Chat.Session

namespace LanTalk.Chat

open LanTalk.Lib LanTalk.Network LanTalk.Config

/-! ## The maps -/

theorem find_insert {α : Type} (m : ConnMap α) (k k' : ConnId) (v : α) :
    (m.insert k v)[k']? = if k = k' then some v else m[k']? := by
  simp [Std.ExtTreeMap.getElem?_insert]

theorem find_erase {α : Type} (m : ConnMap α) (k k' : ConnId) :
    (m.erase k)[k']? = if k = k' then none else m[k']? := by
  simp [Std.ExtTreeMap.getElem?_erase]

theorem find_empty {α : Type} (k : ConnId) : (∅ : ConnMap α)[k]? = none := by simp

theorem mem_toList {α : Type} (m : ConnMap α) (e : ConnId × α) : e ∈ m.toList ↔ m[e.1]? = some e.2 :=
  Std.ExtTreeMap.mem_toList_iff_getElem?_eq_some

theorem values_eq_map {α : Type} (m : ConnMap α) : m.values = m.toList.map (·.2) := by
  obtain ⟨⟨q⟩⟩ := m
  induction q using Quotient.ind with
  | _ t =>
    show t.inner.values = (Std.DTreeMap.Internal.Impl.Const.toList t.inner).map (·.2)
    rw [Std.DTreeMap.Internal.Impl.values_eq_map_snd, Std.DTreeMap.Internal.Impl.Const.toList_eq_toListModel_map,
      List.map_map]
    rfl

theorem mem_values {α : Type} (m : ConnMap α) (v : α) : v ∈ m.values ↔ ∃ k : ConnId, m[k]? = some v := by
  rw [values_eq_map, List.mem_map]
  constructor
  · intro h
    obtain ⟨e, he, rfl⟩ := h
    exact ⟨e.1, (mem_toList m e).mp he⟩
  · intro h
    obtain ⟨k, hk⟩ := h
    exact ⟨(k, v), (mem_toList m _).mpr hk, rfl⟩

/-- Erasing an id that is not there changes nothing. -/
theorem erase_absent {α : Type} {m : ConnMap α} {k : ConnId} (h : m[k]? = none) : m.erase k = m := by
  apply Std.ExtTreeMap.ext_getElem?
  intro k'
  rw [find_erase]
  split
  · rename_i e; rw [← e, h]
  · rfl

/-- Whether an entry's connection is AUTHENTICATED. -/
theorem authenticated_iff (s : Session) (c : ConnId) :
    s.authenticated c = true ↔ ∃ peer, s.peers[c]? = some peer ∧ peer.state = .AUTHENTICATED := by
  unfold Session.authenticated
  split
  · rename_i peer he; simp [he]
  · rename_i he; simp [he]

/-- Sessions with the same entry of `c` agree on whether it is AUTHENTICATED. -/
theorem authenticated_congr {s s' : Session} {c : ConnId} (h : s'.peers[c]? = s.peers[c]?) :
    s'.authenticated c = s.authenticated c := by
  unfold Session.authenticated
  rw [h]

/-- `peerCount()` is the length of what `peers()` returns. -/
theorem peerCount_eq (s : Session) : s.peerCount = s.peerList.length := by
  rw [Session.peerCount, Session.peerList, ← List.countP_eq_length_filter, List.countP_map]
  rfl

section
variable (config : AppConfig) (ids : Handle → ConnId) (net : Handle → Frame → Bool)

/-! ## Sending and disconnecting -/

/-- All a send does is write its own frame. -/
theorem mem_send {s : Session} {c : ConnId} {h : Handle} {type : MessageType} {payload : Bytes} {o : Out}
    (ho : o ∈ (s.send net c h type payload).2) :
    o = .sent c h (Frame.create type payload) (net h (Frame.create type payload)) ∧
      (s.objs h).writable = true := by
  unfold Session.send at ho
  split at ho
  · rename_i hw; exact ⟨List.mem_singleton.mp ho, hw⟩
  · cases ho

theorem mem_reply {s : Session} {c : ConnId} {type : MessageType} {payload : Bytes} {o : Out}
    (ho : o ∈ s.reply net c type payload) :
    ∃ h, s.connections[c]? = some h ∧ (s.objs h).writable = true ∧
      o = .sent c h (Frame.create type payload) (net h (Frame.create type payload)) := by
  unfold Session.reply at ho
  split at ho
  · rename_i h he
    obtain ⟨hs, hw⟩ := mem_send net ho
    exact ⟨h, he, hw, hs⟩
  · cases ho

/-- `disconnect` changes the connection and nothing else of the session. -/
theorem disconnect_frame (s : Session) (c : ConnId) (h : Handle) (reason : Bytes) :
    let s' := (s.disconnect net c h reason).1
    s'.connections = s.connections ∧ s'.peers = s.peers ∧ s'.running = s.running ∧ s'.next = s.next := by
  unfold Session.disconnect
  split <;> exact ⟨rfl, rfl, rfl, rfl⟩

theorem mem_disconnect {s : Session} {c : ConnId} {h : Handle} {reason : Bytes} {o : Out}
    (ho : o ∈ (s.disconnect net c h reason).2) :
    o = .disconnect c h reason ∨
      ∃ ok, o = .sent c h (Frame.create .DISCONNECT reason) ok ∧ (s.objs h).writable = true := by
  unfold Session.disconnect at ho
  split at ho
  · exact .inl (List.mem_singleton.mp ho)
  · rcases List.mem_cons.mp ho with ho | ho
    · exact .inl ho
    · exact .inr ⟨_, mem_send net ho⟩

theorem disconnect_logged (s : Session) (c : ConnId) (h : Handle) (reason : Bytes) :
    .disconnect c h reason ∈ (s.disconnect net c h reason).2 := by
  unfold Session.disconnect
  split <;> exact List.mem_cons_self

theorem mem_hangUp {s : Session} {c : ConnId} {reason : Bytes} {o : Out} (ho : o ∈ (s.hangUp net c reason).out) :
    ∃ h, s.connections[c]? = some h ∧ (o = .disconnect c h reason ∨
      ∃ ok, o = .sent c h (Frame.create .DISCONNECT reason) ok ∧ (s.objs h).writable = true) := by
  unfold Session.hangUp at ho
  split at ho
  · rename_i h he
    exact ⟨h, he, mem_disconnect net ho⟩
  · cases ho

theorem hangUp_frame (s : Session) (c : ConnId) (reason : Bytes) :
    let e := s.hangUp net c reason
    e.s.connections = s.connections ∧ e.s.peers = s.peers ∧ e.s.running = s.running ∧ e.s.next = s.next ∧
      e.after = [] := by
  unfold Session.hangUp
  split
  · rename_i h _
    obtain ⟨h1, h2, h3, h4⟩ := disconnect_frame net s c h reason
    exact ⟨h1, h2, h3, h4, rfl⟩
  · exact ⟨rfl, rfl, rfl, rfl, rfl⟩

/-! ## What a frame does -/

/-- A HELLO that names its device. -/
def saysHello (f : Frame) : Bool :=
  f.header.type == .HELLO && extractStr f.payloadAsString (str "device_id") != []

/-- The frames that leave their connection id AUTHENTICATED and fire a connected event. -/
def grants (s : Session) (c : ConnId) (f : Frame) : Bool :=
  saysHello f && !config.requireAuth ||
    f.header.type == .AUTH_RESPONSE && s.connections[c]?.isSome && accepted config f.payloadAsString

/-- The frames whose sender is asked to authenticate, however it stood before. -/
def challenges (f : Frame) : Bool := saysHello f && config.requireAuth

/-- The frames for which the session disconnects their connection. -/
def closes (s : Session) (c : ConnId) (f : Frame) : Bool :=
  s.connections[c]?.isSome &&
    match f.header.type with
    | .HELLO => extractStr f.payloadAsString (str "device_id") == []
    | .DISCONNECT => true
    | .AUTH_RESPONSE => !accepted config f.payloadAsString
    | _ => false

/-- The entry a granting frame leaves. -/
def granted (s : Session) (c : ConnId) (f : Frame) : PeerInfo :=
  { (if f.header.type = .HELLO then helloPeer s c f.payloadAsString else s.peers[c]?.getD {}) with
    state := .AUTHENTICATED }

/-- What `peers_` is after a frame. -/
def peersAfter (s : Session) (c : ConnId) (f : Frame) : ConnMap PeerInfo :=
  if grants config s c f then s.peers.insert c (granted s c f)
  else if challenges config f then
    s.peers.insert c { helloPeer s c f.payloadAsString with state := .AUTHENTICATING }
  else s.peers

/-- The callbacks a frame leads to. -/
def callbacks (s : Session) (c : ConnId) (f : Frame) : List Out :=
  if grants config s c f then [.peerEvent c (granted s c f) true]
  else if f.header.type = .CHAT_MESSAGE ∧ s.authenticated c = true then
    ((ChatMessage.fromJson f.payloadAsString).map (Out.message c)).toList
  else []

theorem handleChatMessage_after (s : Session) (c : ConnId) (payload : Bytes) :
    handleChatMessage s c payload =
      { s := s
        after := if s.authenticated c then ((ChatMessage.fromJson payload).map (Out.message c)).toList else [] } := by
  unfold handleChatMessage Session.authenticated
  cases hp : s.peers[c]? with
  | none => rfl
  | some peer =>
    by_cases hs : peer.state = .AUTHENTICATED
    · simp only [hs, if_true, beq_self_eq_true]
      cases ChatMessage.fromJson payload <;> rfl
    · simp only [hs, if_false, beq_iff_eq]

/-- The maps and the callbacks, for every frame. -/
theorem onFrame_spec (s : Session) (c : ConnId) (f : Frame) :
    let e := onFrame config net s c f
    e.s.connections = s.connections ∧ e.s.peers = peersAfter config s c f ∧
      e.s.running = s.running ∧ e.s.next = s.next ∧ e.after = callbacks config s c f := by
  unfold onFrame peersAfter callbacks grants challenges saysHello granted
  cases ht : f.header.type with
  | HELLO =>
    unfold handleHello
    by_cases hd : extractStr f.payloadAsString (str "device_id") = []
    · obtain ⟨h1, h2, h3, h4, h5⟩ := hangUp_frame net s c invalidHello
      simp [hd, h1, h2, h3, h4, h5]
    · cases hr : config.requireAuth <;> simp [hd]
  | AUTH_RESPONSE =>
    unfold handleAuthResponse
    cases hc : s.connections[c]? with
    | none => simp
    | some h =>
      cases ha : accepted config f.payloadAsString with
      | true => simp
      | false =>
        obtain ⟨h1, h2, h3, h4⟩ := disconnect_frame net s c h authenticationFailed
        simp [h1, h2, h3, h4]
  | CHAT_MESSAGE => simp [handleChatMessage_after]
  | DISCONNECT =>
    unfold handleDisconnect
    obtain ⟨h1, h2, h3, h4, h5⟩ := hangUp_frame net s c peerRequestedDisconnect
    simp [h1, h2, h3, h4, h5]
  | _ => simp [handleAuthRequest, handlePing]

theorem onFrame_connections (s : Session) (c : ConnId) (f : Frame) :
    (onFrame config net s c f).s.connections = s.connections := (onFrame_spec config net s c f).1

theorem onFrame_peers (s : Session) (c : ConnId) (f : Frame) :
    (onFrame config net s c f).s.peers = peersAfter config s c f := (onFrame_spec config net s c f).2.1

theorem onFrame_after (s : Session) (c : ConnId) (f : Frame) :
    (onFrame config net s c f).after = callbacks config s c f := (onFrame_spec config net s c f).2.2.2.2

/-- A frame leads to the message callback. -/
def Handed (s : Session) (c : ConnId) (f : Frame) : Prop :=
  ∃ m, Out.message c m ∈ (onFrame config net s c f).after

theorem handed_iff (s : Session) (c : ConnId) (f : Frame) :
    Handed config net s c f ↔
      f.header.type = .CHAT_MESSAGE ∧ s.authenticated c = true ∧
        (ChatMessage.fromJson f.payloadAsString).isSome = true := by
  unfold Handed
  rw [onFrame_after]
  unfold callbacks
  by_cases hg : grants config s c f = true
  · have hne : f.header.type ≠ .CHAT_MESSAGE := by
      intro ht
      simp [grants, saysHello, ht] at hg
    simp [hg, hne]
  · rw [if_neg hg]
    by_cases hc : f.header.type = .CHAT_MESSAGE ∧ s.authenticated c = true
    · rw [if_pos hc]
      cases ChatMessage.fromJson f.payloadAsString <;> simp [hc]
    · rw [if_neg hc]
      simp only [List.not_mem_nil, exists_false, false_iff]
      exact fun h => hc ⟨h.1, h.2.1⟩

/-- The entries after a frame: the old ones, and the one that a granting or a challenging
    frame leaves on its own connection id. -/
theorem peersAfter_some {s : Session} {c k : ConnId} {f : Frame} {peer : PeerInfo}
    (h : (peersAfter config s c f)[k]? = some peer) :
    s.peers[k]? = some peer ∧ (k = c → grants config s c f = false ∧ challenges config f = false) ∨
      k = c ∧ (grants config s c f = true ∧ peer = granted s c f ∨
        challenges config f = true ∧ peer = { helloPeer s c f.payloadAsString with state := .AUTHENTICATING }) := by
  unfold peersAfter at h
  by_cases hk : c = k
  · subst hk
    cases hg : grants config s c f
    · cases hc : challenges config f
      · rw [hg, hc] at h
        exact .inl ⟨h, fun _ => ⟨rfl, rfl⟩⟩
      · rw [hg, hc] at h
        simp only [Bool.false_eq_true, if_false, if_true, find_insert, Option.some.injEq] at h
        exact .inr ⟨rfl, .inr ⟨rfl, h.symm⟩⟩
    · rw [hg] at h
      simp only [if_true, find_insert, Option.some.injEq] at h
      exact .inr ⟨rfl, .inl ⟨rfl, h.symm⟩⟩
  · refine .inl ⟨?_, fun he => absurd he.symm hk⟩
    split at h
    · rwa [find_insert, if_neg hk] at h
    · split at h
      · rwa [find_insert, if_neg hk] at h
      · exact h

/-- A frame touches the entry of its own connection id only. -/
theorem onFrame_peers_other (s : Session) {c c' : ConnId} (f : Frame) (h : c ≠ c') :
    (onFrame config net s c f).s.peers[c']? = s.peers[c']? := by
  rw [onFrame_peers]
  unfold peersAfter
  split
  · rw [find_insert, if_neg h]
  · split
    · rw [find_insert, if_neg h]
    · rfl

/-- After a frame its connection id is AUTHENTICATED if the frame granted it, or if it was
    before and the frame did not challenge it. -/
theorem onFrame_authenticated (s : Session) (c : ConnId) (f : Frame) :
    (onFrame config net s c f).s.authenticated c =
      (grants config s c f || !challenges config f && s.authenticated c) := by
  unfold Session.authenticated
  rw [onFrame_peers]
  unfold peersAfter
  cases hg : grants config s c f
  · cases hc : challenges config f
    · simp
    · simp
  · simp [granted]

theorem onFrame_authenticated_other (s : Session) {c c' : ConnId} (f : Frame) (h : c ≠ c') :
    (onFrame config net s c f).s.authenticated c' = s.authenticated c' :=
  authenticated_congr (onFrame_peers_other config net s f h)

/-- What a session answers a frame with on the frame's own connection. -/
def answers (f : Frame) : List Frame :=
  match f.header.type with
  | .HELLO =>
    if config.requireAuth then
      [Frame.create .AUTH_REQUEST (authRequestPayload config (extractStr f.payloadAsString (str "device_id")))]
    else []
  | .AUTH_REQUEST => [Frame.create .AUTH_RESPONSE (authResponsePayload config)]
  | .AUTH_RESPONSE => [Frame.create .AUTH_OK (str "{}")]
  | .PING => [Frame.create .PONG (str "{}")]
  | _ => []

/-- An answer to the frame or a farewell, on its own connection; or that this is disconnected,
    if the frame closes it. -/
def Reacts (s : Session) (c : ConnId) (f : Frame) (o : Out) : Prop :=
  (∃ h f' ok, o = .sent c h f' ok ∧ s.connections[c]? = some h ∧ (s.objs h).writable = true ∧
    (f'.header.type = .AUTH_FAIL ∨ f'.header.type = .DISCONNECT ∨
      f' ∈ answers config f ∧ (f.header.type = .AUTH_RESPONSE → accepted config f.payloadAsString = true))) ∨
  ∃ h reason, o = .disconnect c h reason ∧
    reason ∈ [invalidHello, peerRequestedDisconnect, authenticationFailed] ∧ closes config s c f = true

/-- What a handler does before its callbacks. -/
theorem mem_onFrame {s : Session} {c : ConnId} {f : Frame} {o : Out} (ho : o ∈ (onFrame config net s c f).out) :
    Reacts config s c f o := by
  have hreply : ∀ {s' : Session} {type payload}, s'.connections = s.connections → s'.objs = s.objs →
      Frame.create type payload ∈ answers config f → f.header.type ≠ .AUTH_RESPONSE →
      o ∈ s'.reply net c type payload → Reacts config s c f o := by
    intro s' type payload hcs hos ha hf ho
    obtain ⟨h, hc, hw, ho⟩ := mem_reply net ho
    exact Or.inl ⟨h, _, _, ho, hcs ▸ hc, hos ▸ hw, .inr (.inr ⟨ha, fun hr => absurd hr hf⟩)⟩
  have hang : ∀ {reason}, reason ∈ [invalidHello, peerRequestedDisconnect, authenticationFailed] →
      (s.connections[c]?.isSome = true → closes config s c f = true) → o ∈ (s.hangUp net c reason).out →
      Reacts config s c f o := by
    intro reason hr hcl ho
    obtain ⟨h, hc, rfl | ⟨ok, rfl, hw⟩⟩ := mem_hangUp net ho
    · exact Or.inr ⟨h, reason, rfl, hr, hcl (by simp [hc])⟩
    · exact Or.inl ⟨h, _, ok, rfl, hc, hw, .inr (.inl rfl)⟩
  unfold onFrame at ho
  cases ht : f.header.type <;> simp only [ht] at ho
  case HELLO =>
    unfold handleHello at ho
    by_cases hd : extractStr f.payloadAsString (str "device_id") = []
    · simp only [hd, if_true] at ho
      exact hang (by simp) (fun hc => by simp [closes, ht, hc, hd]) ho
    · cases hr : config.requireAuth
      · simp [hd, hr] at ho
      · simp only [hd, hr, if_false, if_true] at ho
        exact hreply rfl rfl (by simp [answers, ht, hr]) (by simp [ht]) ho
  case AUTH_REQUEST => exact hreply rfl rfl (by simp [answers, ht]) (by simp [ht]) ho
  case AUTH_RESPONSE =>
    unfold handleAuthResponse at ho
    split at ho
    · cases ho
    · rename_i h hc
      split at ho
      · rename_i ha
        obtain ⟨ho, hw⟩ := mem_send net ho
        exact Or.inl ⟨h, _, _, ho, hc, hw, .inr (.inr ⟨by simp [answers, ht], fun _ => ha⟩)⟩
      · rename_i ha
        rcases List.mem_append.mp ho with ho | ho
        · obtain ⟨ho, hw⟩ := mem_send net ho
          exact Or.inl ⟨h, _, _, ho, hc, hw, .inl rfl⟩
        · rcases mem_disconnect net ho with ho | ⟨ok, ho, hw⟩
          · exact Or.inr ⟨h, _, ho, by simp, by simp [closes, ht, hc, ha]⟩
          · exact Or.inl ⟨h, _, ok, ho, hc, hw, .inr (.inl rfl)⟩
  case CHAT_MESSAGE => rw [handleChatMessage_after] at ho; cases ho
  case PING => exact hreply rfl rfl (by simp [answers, ht]) (by simp [ht]) ho
  case DISCONNECT => exact hang (by simp) (fun hc => by simp [closes, ht, hc]) ho
  all_goals cases ho

theorem answers_type {f f' : Frame} (hf : f' ∈ answers config f) : f'.header.type ≠ .CHAT_MESSAGE := by
  unfold answers at hf
  split at hf
  · split at hf
    · cases List.mem_singleton.mp hf; simp [Frame.create]
    · cases hf
  all_goals first | (cases List.mem_singleton.mp hf; simp [Frame.create]) | cases hf

/-- No handler sends a chat message. -/
theorem mem_onFrame_out {s : Session} {c : ConnId} {f : Frame} {o : Out}
    (ho : o ∈ (onFrame config net s c f).out) :
    (∃ h f' ok, o = .sent c h f' ok ∧ f'.header.type ≠ .CHAT_MESSAGE ∧ s.connections[c]? = some h) ∨
      (∃ h reason, o = .disconnect c h reason ∧
        reason ∈ [invalidHello, peerRequestedDisconnect, authenticationFailed] ∧
          closes config s c f = true) := by
  rcases mem_onFrame config net ho with ⟨h, f', ok, ho, hc, -, hf⟩ | ho
  · refine .inl ⟨h, f', ok, ho, ?_, hc⟩
    rcases hf with hf | hf | ⟨hf, -⟩
    · simp [hf]
    · simp [hf]
    · exact answers_type config hf
  · exact .inr ho

/-- The frames a handler sends: the answer to the frame, or a farewell, on the frame's own
    connection. -/
theorem mem_onFrame_sent {s : Session} {c k : ConnId} {f f' : Frame} {h : Handle} {ok : Bool}
    (ho : .sent k h f' ok ∈ (onFrame config net s c f).out) :
    k = c ∧ s.connections[c]? = some h ∧ (s.objs h).writable = true ∧
      (f'.header.type = .AUTH_FAIL ∨ f'.header.type = .DISCONNECT ∨
        f' ∈ answers config f ∧ (f.header.type = .AUTH_RESPONSE → accepted config f.payloadAsString = true)) := by
  rcases mem_onFrame config net ho with ⟨h', f'', ok', he, hout⟩ | ⟨h', reason, he, -⟩
  · cases he
    exact ⟨rfl, hout⟩
  · cases he

/-- A frame that closes its connection id is logged as doing so. -/
theorem closes_logged {s : Session} {c : ConnId} {f : Frame} (h : closes config s c f = true) :
    ∃ k reason, .disconnect c k reason ∈ (onFrame config net s c f).out ∧
      reason ∈ [invalidHello, peerRequestedDisconnect, authenticationFailed] := by
  unfold closes at h
  simp only [Bool.and_eq_true] at h
  obtain ⟨hc, h⟩ := h
  obtain ⟨k, hk⟩ := Option.isSome_iff_exists.mp hc
  unfold onFrame
  cases ht : f.header.type <;> simp only [ht] at h ⊢
  case HELLO =>
    rw [beq_iff_eq] at h
    refine ⟨k, invalidHello, ?_, by simp⟩
    simpa only [handleHello, h, if_true, Session.hangUp, hk] using disconnect_logged net s c k invalidHello
  case AUTH_RESPONSE =>
    rw [Bool.not_eq_true'] at h
    refine ⟨k, authenticationFailed, ?_, by simp⟩
    simp only [handleAuthResponse, hk, h]
    exact List.mem_append_right _ (disconnect_logged net s c k authenticationFailed)
  case DISCONNECT =>
    refine ⟨k, peerRequestedDisconnect, ?_, by simp⟩
    simpa only [handleDisconnect, Session.hangUp, hk] using disconnect_logged net s c k peerRequestedDisconnect
  all_goals cases h

/-- A frame that closes its connection id neither grants nor challenges it. -/
theorem closes_grants {s : Session} {c : ConnId} {f : Frame} (h : closes config s c f = true) :
    grants config s c f = false ∧ challenges config f = false := by
  unfold closes at h
  simp only [Bool.and_eq_true] at h
  obtain ⟨-, h⟩ := h
  cases ht : f.header.type <;> simp only [ht] at h
  case HELLO => simp [grants, challenges, saysHello, ht, beq_iff_eq.mp h]
  case AUTH_RESPONSE =>
    rw [Bool.not_eq_true'] at h
    simp [grants, challenges, saysHello, ht, h]
  case DISCONNECT => simp [grants, challenges, saysHello, ht]
  all_goals cases h

/-- All that a frame does which does not close its connection, where that connection is up
    and takes every byte. -/
theorem onFrame_up {s : Session} {c : ConnId} {h : Handle} {f : Frame} (hc : s.connections[c]? = some h)
    (hw : (s.objs h).writable = true) (hcl : closes config s c f = false) :
    onFrame config (fun _ _ => true) s c f =
      { s := { s with peers := peersAfter config s c f }
        out := (answers config f).map fun f' => .sent c h f' true
        after := callbacks config s c f } := by
  have hsend : ∀ (s' : Session) (type : MessageType) (payload : Bytes), s'.objs = s.objs →
      (s'.send (fun _ _ => true) c h type payload).2 = [.sent c h (Frame.create type payload) true] := by
    intro s' type payload ho
    simp only [Session.send, ho, hw, if_true]
  unfold onFrame peersAfter callbacks grants challenges saysHello granted answers
  cases ht : f.header.type with
  | HELLO =>
    have hd : extractStr f.payloadAsString (str "device_id") ≠ [] := by
      simpa [closes, hc, ht] using hcl
    cases hr : config.requireAuth <;> simp [handleHello, hd, hr, Session.reply, hc, hsend]
  | AUTH_RESPONSE =>
    have ha : accepted config f.payloadAsString = true := by
      simpa [closes, hc, ht] using hcl
    simp [handleAuthResponse, hc, ha, hsend]
  | CHAT_MESSAGE => simp [handleChatMessage_after]
  | DISCONNECT => simp [closes, hc, ht] at hcl
  | _ => simp [handleAuthRequest, handlePing, Session.reply, hc, hsend]

/-! ## What the other pieces do -/

/-- `sendTo` chooses an AUTHENTICATED entry. -/
theorem pick_authenticated {s : Session} {peerId : Bytes} {c : ConnId} {h : Handle}
    (hp : s.pick peerId = some (c, h)) :
    s.authenticated c = true ∧ s.connections[c]? = some h := by
  unfold Session.pick at hp
  split at hp
  · rename_i e he
    obtain ⟨h', hc, heq⟩ := Option.map_eq_some_iff.mp hp
    cases heq
    have hmem := (mem_toList s.peers e).mp (List.mem_of_find?_eq_some he)
    have hst := List.find?_some he
    simp only [Bool.and_eq_true, beq_iff_eq] at hst
    exact ⟨(authenticated_iff s e.1).mpr ⟨e.2, hmem, hst.2⟩, hc⟩
  · cases hp

/-- The connections a broadcast sends on. -/
def Session.targets (s : Session) : List (ConnId × Handle) :=
  s.connections.toList.filter fun e => s.authenticated e.1

theorem mem_targets {s : Session} {e : ConnId × Handle} :
    e ∈ s.targets ↔ s.connections[e.1]? = some e.2 ∧ s.authenticated e.1 = true := by
  rw [Session.targets, List.mem_filter, mem_toList]

theorem broadcastOut_targets (s : Session) (json : Bytes) :
    broadcastOut net s json = s.targets.flatMap fun e => (s.send net e.1 e.2 .CHAT_MESSAGE json).2 := by
  unfold broadcastOut Session.targets
  induction s.connections.toList with
  | nil => rfl
  | cons e es ih =>
    rw [List.flatMap_cons, ih, List.filter_cons]
    split
    · rw [List.flatMap_cons]
    · rw [List.nil_append]

/-- `broadcast` writes to the registered connections of AUTHENTICATED entries. -/
theorem mem_broadcastOut {s : Session} {json : Bytes} {o : Out} (ho : o ∈ broadcastOut net s json) :
    ∃ c h ok, o = .sent c h (Frame.create .CHAT_MESSAGE json) ok ∧ s.authenticated c = true ∧
      s.connections[c]? = some h := by
  rw [broadcastOut_targets] at ho
  obtain ⟨e, he, ho⟩ := List.mem_flatMap.mp ho
  obtain ⟨hc, ha⟩ := mem_targets.mp he
  exact ⟨e.1, e.2, _, (mem_send net ho).1, ha, hc⟩

theorem mem_disconnectAll {s : Session} {es : List (ConnId × Handle)} {o : Out}
    (ho : o ∈ (disconnectAll net s es).2) :
    ∃ e ∈ es, o = .disconnect e.1 e.2 sessionStopped ∨
      ∃ ok, o = .sent e.1 e.2 (Frame.create .DISCONNECT sessionStopped) ok := by
  induction es generalizing s with
  | nil => cases ho
  | cons e es ih =>
    rcases List.mem_append.mp ho with ho | ho
    · rcases mem_disconnect net ho with ho | ⟨ok, ho, -⟩
      · exact ⟨e, List.mem_cons_self, .inl ho⟩
      · exact ⟨e, List.mem_cons_self, .inr ⟨ok, ho⟩⟩
    · obtain ⟨e', he, h⟩ := ih ho
      exact ⟨e', List.mem_cons_of_mem _ he, h⟩

/-- The two maps after a piece. Every piece but these leaves them alone. -/
theorem exec_maps (s : Session) (a : Act) :
    let s' := (exec config ids net s a).s
    match a with
    | .register h =>
      s.running = true ∧ s'.connections = s.connections.insert (ids h) h ∧
        s'.peers = s.peers.insert (ids h) {} ∨
        s'.connections = s.connections ∧ s'.peers = s.peers
    | .frame c f => s'.connections = s.connections ∧ s'.peers = peersAfter config s c f
    | .drop c _ => s'.connections = s.connections.erase c ∧ s'.peers = s.peers.erase c
    | .stopAll => s'.connections = ∅ ∧ s'.peers = ∅
    | _ => s'.connections = s.connections ∧ s'.peers = s.peers := by
  cases a with
  | register h =>
    by_cases hr : s.running = true
    · exact .inl (by simp [exec, hr])
    · exact .inr (by simp [exec, hr])
  | frame c f => exact ⟨onFrame_connections config net s c f, onFrame_peers config net s c f⟩
  | pick peerId msg => simp only [exec]; split <;> exact ⟨rfl, rfl⟩
  | sweep => simp only [exec]; split <;> exact ⟨rfl, rfl⟩
  | stop => simp only [exec]; split <;> exact ⟨rfl, rfl⟩
  | limit h =>
    simp only [exec]
    split
    · obtain ⟨h1, h2, -⟩ := disconnect_frame net s [] h rateLimitExceeded
      exact ⟨h1, h2⟩
    · exact ⟨rfl, rfl⟩
  | refuse h reason =>
    obtain ⟨h1, h2, -⟩ := disconnect_frame net s [] h reason
    exact ⟨h1, h2⟩
  | _ => exact ⟨rfl, rfl⟩

/-- Only frames make an entry AUTHENTICATED. -/
theorem exec_authenticated {s : Session} {a : Act} (ha : ∀ c f, a ≠ .frame c f) {c : ConnId}
    (h : (exec config ids net s a).s.authenticated c = true) : s.authenticated c = true := by
  obtain ⟨peer, hp, hst⟩ := (authenticated_iff _ c).mp h
  have hm := exec_maps config ids net s a
  refine (authenticated_iff s c).mpr ⟨peer, ?_, hst⟩
  have hfresh : ∀ {m : ConnMap PeerInfo} {k}, (m.insert k {})[c]? = some peer → m[c]? = some peer := by
    intro m k hk
    rw [find_insert] at hk
    split at hk
    · cases hk; cases hst
    · exact hk
  cases a with
  | register r =>
    rcases hm with ⟨-, -, hm⟩ | ⟨-, hm⟩
    · rw [hm] at hp; exact hfresh hp
    · rwa [hm] at hp
  | frame c f => exact absurd rfl (ha c f)
  | drop k reason =>
    rw [hm.2, find_erase] at hp
    split at hp
    · cases hp
    · exact hp
  | stopAll => rw [hm.2, find_empty] at hp; cases hp
  | _ => rwa [hm.2] at hp

/-- What a piece can do that is seen. -/
def Shows (s : Session) (o : Out) : Act → Prop
  | .register h => o = .registered (ids h) h
  | .sendHello _ c => ∃ h ok, o = .sent c h (Frame.create .HELLO (helloPayload config)) ok
  | .frame c f => o = .frame c f s.connections[c]?.isSome ∨ o ∈ (onFrame config net s c f).out
  | .chat c h json => ∃ ok, o = .sent c h (Frame.create .CHAT_MESSAGE json) ok
  | .broadcast json => ∃ c h ok, o = .sent c h (Frame.create .CHAT_MESSAGE json) ok ∧ s.authenticated c = true
  | .sweep => ∃ c h ok, o = .sent c h (Frame.create .PING (str "{}")) ok
  | .stopAll => ∃ c h, o = .disconnect c h sessionStopped ∨
    ∃ ok, o = .sent c h (Frame.create .DISCONNECT sessionStopped) ok
  | .emit o' => o = o'
  | _ => False

theorem mem_exec_out {s : Session} {a : Act} {o : Out} (ho : o ∈ (exec config ids net s a).out) :
    Shows config ids net s o a := by
  cases a with
  | register h =>
    simp only [exec] at ho
    split at ho
    · exact List.mem_singleton.mp ho
    · cases ho
  | sendHello k c =>
    obtain ⟨h, -, -, rfl⟩ := mem_reply net ho
    exact ⟨h, _, rfl⟩
  | frame c f => exact List.mem_cons.mp ho
  | pick peerId msg =>
    simp only [exec] at ho
    split at ho <;> cases ho
  | chat c h json => exact ⟨_, (mem_send net ho).1⟩
  | broadcast json =>
    obtain ⟨c, h, ok, rfl, ha, -⟩ := mem_broadcastOut net ho
    exact ⟨c, h, ok, rfl, ha⟩
  | sweep =>
    simp only [exec] at ho
    split at ho
    · obtain ⟨e, -, ho⟩ := List.mem_flatMap.mp ho
      exact ⟨e.1, e.2, _, (mem_send net ho).1⟩
    · cases ho
  | stop =>
    simp only [exec] at ho
    split at ho <;> cases ho
  | stopAll =>
    obtain ⟨e, -, ho⟩ := mem_disconnectAll net ho
    exact ⟨e.1, e.2, ho⟩
  | limit h =>
    simp only [exec] at ho
    split at ho <;> cases ho
  | emit o' => exact List.mem_singleton.mp ho
  | _ => cases ho

/-- Which piece shows what, but for what is sent and whom a handler disconnects. -/
def Origin (s : Session) (a : Act) : Out → Prop
  | .frame c f r => a = .frame c f ∧ r = s.connections[c]?.isSome ∨ a = .emit (.frame c f r)
  | .registered c h =>
    a = .register h ∧ c = ids h ∧ (exec config ids net s a).s.peers[c]? = some {} ∨ a = .emit (.registered c h)
  | .message c m => a = .emit (.message c m)
  | .peerEvent c info up => a = .emit (.peerEvent c info up)
  | .sent _ _ _ _ | .disconnect _ _ _ => True

theorem exec_origin {s : Session} {a : Act} {o : Out} (ho : o ∈ (exec config ids net s a).out) :
    Origin config ids net s a o := by
  have hs := mem_exec_out config ids net ho
  cases a with
  | register h =>
    cases hs
    refine .inl ⟨rfl, rfl, ?_⟩
    simp only [exec] at ho ⊢
    split at ho
    · rename_i hrun
      rw [if_pos hrun, find_insert, if_pos rfl]
    · cases ho
  | frame c f =>
    rcases hs with rfl | hs
    · exact .inl ⟨rfl, rfl⟩
    · rcases mem_onFrame_out config net hs with ⟨h, f', ok, rfl, -⟩ | ⟨h, reason, rfl, -⟩ <;> trivial
  | sendHello k c => obtain ⟨h, ok, rfl⟩ := hs; trivial
  | chat c h json => obtain ⟨ok, rfl⟩ := hs; trivial
  | broadcast json => obtain ⟨c, h, ok, rfl, -⟩ := hs; trivial
  | sweep => obtain ⟨c, h, ok, rfl⟩ := hs; trivial
  | stopAll => obtain ⟨c, h, rfl | ⟨ok, rfl⟩⟩ := hs <;> trivial
  | emit o' =>
    cases hs
    cases o with
    | frame c f r => exact .inr rfl
    | registered c h => exact .inr rfl
    | message c m => rfl
    | peerEvent c info up => rfl
    | _ => trivial
  | _ => exact hs.elim

/-- What a piece can leave its thread to do. A chat message waits to be sent, or handed to
    the callback, only where the piece found its id AUTHENTICATED. -/
def Follows (s : Session) : Act → Prop
  | .start _ | .sendHello _ _ | .drop _ _ | .stopAll | .emit (.peerEvent _ _ _) => True
  | .chat c _ _ | .emit (.message c _) => s.authenticated c = true
  | _ => False

theorem mem_exec_rest {s : Session} {a b : Act} (hb : b ∈ (exec config ids net s a).rest) : Follows s b := by
  cases a with
  | register h =>
    simp only [exec] at hb
    split at hb
    · rcases List.mem_cons.mp hb with rfl | hb
      · trivial
      · cases List.mem_singleton.mp hb; trivial
    · cases hb
  | frame k f =>
    obtain ⟨o, ho, rfl⟩ := List.mem_map.mp hb
    simp only [onFrame_after, callbacks] at ho
    split at ho
    · cases List.mem_singleton.mp ho; trivial
    · split at ho
      · rename_i h
        obtain ⟨m, -, rfl⟩ := List.mem_map.mp (by simpa only [Option.toList_map] using ho)
        exact h.2
      · cases ho
  | drop k reason =>
    obtain ⟨o, ho, rfl⟩ := List.mem_map.mp hb
    simp only [onDisconnect] at ho
    split at ho
    · split at ho
      · cases List.mem_singleton.mp ho; trivial
      · cases ho
    · cases ho
  | pick peerId msg =>
    simp only [exec] at hb
    split at hb
    · rename_i k h hp
      cases List.mem_singleton.mp hb
      exact (pick_authenticated hp).1
    · cases hb
  | sweep =>
    simp only [exec] at hb
    split at hb
    · obtain ⟨e, -, rfl⟩ := List.mem_map.mp hb; trivial
    · cases hb
  | stop =>
    simp only [exec] at hb
    split at hb
    · cases List.mem_singleton.mp hb; trivial
    · cases hb
  | limit h =>
    simp only [exec] at hb
    split at hb <;> cases hb
  | _ => cases hb

end

end LanTalk.Chat
