/-
  LanTalk.Chat.Pairing — `connections_` and `peers_` side by side. Everything that adds or
  removes an id treats both maps alike, but for one handler: `handleHello` takes
  `peers_[connId]`, which makes an entry where there is none, without looking whether the
  id is registered, as `handleAuthResponse` does. A HELLO that comes after its connection
  was dropped leaves a peer that is listed and that no broadcast reaches (`late_hello`).

  Proved: `maps_agree`, in every run whose HELLOs come on registered ids the maps have the
  same ids, and the first other one ends that.
-/

import LanTalk.Chat.Closed

namespace LanTalk.Chat

open LanTalk.Lib LanTalk.Network LanTalk.Config

/-- The two maps have the same ids. -/
def SameKeys (s : Session) : Prop := ∀ c : ConnId, s.connections[c]?.isSome = s.peers[c]?.isSome

/-- A HELLO that names its device comes on a registered id. -/
def OnRegistered (s : Session) : Act → Prop
  | .frame c f => saysHello f = true → s.connections[c]?.isSome = true
  | _ => True

instance (s : Session) : (a : Act) → Decidable (OnRegistered s a)
  | .frame _ _ => inferInstanceAs (Decidable (_ = true → _ = true))
  | .startSession | .register _ | .start _ | .sendHello _ _ | .drop _ _ | .pick _ _ | .chat _ _ _ | .broadcast _
  | .sweep | .stop | .stopAll | .limit _ | .refuse _ _ | .emit _ => inferInstanceAs (Decidable True)

/-! ## Counting -/

theorem mem_keys_iff {α : Type} (m : ConnMap α) (c : ConnId) : c ∈ m.keys ↔ m[c]?.isSome = true := by
  rw [Std.ExtTreeMap.mem_keys, Std.ExtTreeMap.isSome_getElem?_eq_contains, Std.ExtTreeMap.contains_iff_mem]

theorem nodup_keys {α : Type} (m : ConnMap α) : m.keys.Nodup := Std.ExtTreeMap.nodup_keys

/-- The AUTHENTICATED entries, counted by their ids. -/
theorem peerCount_keys (s : Session) : s.peerCount = (s.peers.keys.filter s.authenticated).length := by
  rw [Session.peerCount, ← List.countP_eq_length_filter, ← Std.ExtTreeMap.map_fst_toList_eq_keys, List.countP_map]
  apply List.countP_congr
  intro e he
  have hp := (mem_toList s.peers e).mp he
  simp only [Function.comp, Session.authenticated, hp]

theorem targets_keys (s : Session) : s.targets.length = (s.connections.keys.filter s.authenticated).length := by
  rw [Session.targets, ← List.countP_eq_length_filter, ← List.countP_eq_length_filter,
    ← Std.ExtTreeMap.map_fst_toList_eq_keys, List.countP_map]
  rfl

/-- With the same ids in both maps a broadcast has one target for each listed peer. -/
theorem SameKeys.targets {s : Session} (h : SameKeys s) : s.peerCount = s.targets.length := by
  have hperm : s.peers.keys.Perm s.connections.keys := by
    apply (List.perm_ext_iff_of_nodup (nodup_keys _) (nodup_keys _)).mpr
    intro c
    rw [mem_keys_iff, mem_keys_iff, h c]
  rw [peerCount_keys, targets_keys]
  exact (hperm.filter _).length_eq

section
variable {config : AppConfig} {ids : Handle → ConnId} {w : Wiring}

/-! ## The pieces -/

theorem SameKeys.congr {s s' : Session} (hc : s'.connections = s.connections) (hp : s'.peers = s.peers)
    (h : SameKeys s) : SameKeys s' := by
  intro c
  rw [hc, hp]
  exact h c

theorem SameKeys.empty {s : Session} (hc : s.connections = ∅) (hp : s.peers = ∅) : SameKeys s := by
  intro c
  rw [hc, hp, find_empty, find_empty]
  rfl

theorem SameKeys.insert {s s' : Session} {c : ConnId} {h : Handle} {peer : PeerInfo}
    (hc : s'.connections = s.connections.insert c h) (hp : s'.peers = s.peers.insert c peer) (hs : SameKeys s) :
    SameKeys s' := by
  intro k
  rw [hc, hp, find_insert, find_insert]
  split
  · rfl
  · exact hs k

/-- After a frame the ids with an entry are those before, and the frame's own if it is a
    HELLO that names its device or was granted. -/
theorem peersAfter_isSome (s : Session) (c k : ConnId) (f : Frame) :
    (peersAfter config s c f)[k]?.isSome =
      (s.peers[k]?.isSome || c == k && (saysHello f || grants config s c f)) := by
  unfold peersAfter
  by_cases hk : c = k
  · subst hk
    cases hg : grants config s c f
    · cases hc : challenges config f
      · have hh : saysHello f = false := by
          simp only [grants, challenges, Bool.or_eq_false_iff, Bool.and_eq_false_iff, Bool.not_eq_false'] at hg hc
          rcases hc with hc | hc
          · exact hc
          · rcases hg.1 with hg | hg
            · exact hg
            · rw [hc] at hg; cases hg
        simp [hh]
      · have hh : saysHello f = true := by
          simp only [challenges, Bool.and_eq_true] at hc
          exact hc.1
        simp [hh]
    · simp
  · have hne : (c == k) = false := by simpa using hk
    rw [hne, Bool.false_and, Bool.or_false]
    split
    · rw [find_insert, if_neg hk]
    · split
      · rw [find_insert, if_neg hk]
      · rfl

/-- A frame that is granted but is no HELLO comes on a registered id. -/
theorem grants_registered {s : Session} {c : ConnId} {f : Frame} (h : grants config s c f = true)
    (hh : saysHello f = false) : s.connections[c]?.isSome = true := by
  simp only [grants, hh, Bool.false_and, Bool.false_or, Bool.and_eq_true] at h
  exact h.1.2

/-- A frame leaves the maps with the same ids just if it is no HELLO on an unregistered one. -/
theorem sameKeys_frame (net : Handle → Frame → Bool) {s : Session} (hs : SameKeys s) (c : ConnId) (f : Frame) :
    SameKeys (exec config ids net s (.frame c f)).s ↔ OnRegistered s (.frame c f) := by
  have hc : (exec config ids net s (.frame c f)).s.connections = s.connections := onFrame_connections config net s c f
  have hp : (exec config ids net s (.frame c f)).s.peers = peersAfter config s c f := onFrame_peers config net s c f
  constructor
  · intro h hh
    have := h c
    rw [hc, hp, peersAfter_isSome, hh] at this
    simpa using this
  · intro ho k
    rw [hc, hp, peersAfter_isSome, hs k]
    by_cases hk : c = k
    · subst hk
      cases hh : saysHello f
      · cases hg : grants config s c f
        · simp
        · have := grants_registered hg hh
          rw [hs c] at this
          simp [this]
      · have := ho hh
        rw [hs c] at this
        simp [this]
    · have hne : (c == k) = false := by simpa using hk
      rw [hne, Bool.false_and, Bool.or_false]

theorem SameKeys.exec (net : Handle → Frame → Bool) {s : Session} {a : Act} (hs : SameKeys s)
    (ha : OnRegistered s a) : SameKeys (exec config ids net s a).s := by
  have hm := exec_maps config ids net s a
  cases a with
  | register h =>
    rcases hm with ⟨-, hc, hp⟩ | ⟨hc, hp⟩
    · exact hs.insert hc hp
    · exact hs.congr hc hp
  | frame c f => exact (sameKeys_frame net hs c f).mpr ha
  | drop c reason =>
    intro k
    rw [hm.1, hm.2, find_erase, find_erase]
    split
    · rfl
    · exact hs k
  | stopAll => exact .empty hm.1 hm.2
  | _ => exact hs.congr hm.1 hm.2

theorem pairing_rule {ops : Op → Prop} :
    Rule config ids w ops (fun s _ a => OnRegistered s a) (fun s _ => SameKeys s) (fun _ _ => True) where
  init := .empty rfl rfl
  maps := fun hc hp h => h.congr hc hp
  older := fun _ h => h
  call := fun _ _ _ _ _ => trivial
  frame := fun _ _ _ => trivial
  drop := fun _ _ _ => trivial
  limit := fun _ _ => trivial
  refuse := fun _ _ _ => trivial
  exec := fun _ net ha hI _ => ⟨hI.exec net ha, fun _ _ => trivial⟩

/-- In every state of a run whose HELLOs came on registered ids the two maps have the same
    ids, so the peers counted and listed are as many as the connections that a broadcast calls
    `send` on, closed ones among them; and the next frame keeps it so just if it is no HELLO on
    an unregistered id either. -/
theorem maps_agree {ops : Op → Prop} {S : Sys} (h : Reachable config ids w ops (fun s _ a => OnRegistered s a) S) :
    SameKeys S.s ∧ S.s.peerCount = S.s.peerList.length ∧ S.s.peerCount = S.s.targets.length ∧
      (∀ net json, broadcastOut net S.s json =
        S.s.targets.flatMap fun e => (S.s.send net e.1 e.2 .CHAT_MESSAGE json).2) ∧
      ∀ net c f, SameKeys (exec config ids net S.s (.frame c f)).s ↔ OnRegistered S.s (.frame c f) := by
  have hs : SameKeys S.s := (Reachable.rule pairing_rule h).1
  exact ⟨hs, peerCount_eq S.s, hs.targets, fun net json => broadcastOut_targets net S.s json,
    fun net c f => sameKeys_frame net hs c f⟩

end

/-! ## A late HELLO -/

/-- A connection is added and dropped, and then a HELLO of its peer is handled. -/
def lateHello : List Label :=
  let net := fun _ _ => true
  [.call 0 .start, .run (.app 0) net, .call 0 .addConnection, .run (.app 0) net, .run (.app 0) net,
    .run (.app 0) net, .call 0 (.onDisconnect (str "c") pingFailed), .run (.app 0) net,
    .call 0 (.onFrame (str "c") hello), .run (.app 0) net]

/-- One peer is counted, and a broadcast has no target. -/
theorem late_hello :
    ∃ S, Reachable {} (fun _ => str "c") (registeredWiring fun _ => str "c") (fun _ => True) (fun _ _ _ => True) S ∧
      S.s.peerCount = 1 ∧ S.s.targets.length = 0 ∧ ¬ SameKeys S.s := by
  have hrun : (Machine.run (Machine.checked (step {} (fun _ => str "c") (registeredWiring fun _ => str "c"))
      fun _ _ => true) {} lateHello).map (fun S =>
        S.s.peerCount == 1 && S.s.targets.length == 0) = some true := by decide +kernel
  obtain ⟨S, hS, hp⟩ :
      ∃ S, Reachable {} (fun _ => str "c") (registeredWiring fun _ => str "c") (fun _ => True)
        (fun _ _ _ => True) S ∧ _ :=
    Reachable.of_run (fun l _ => by cases l <;> trivial) (fun _ _ _ _ _ _ => trivial) hrun
  simp only [Bool.and_eq_true, beq_iff_eq] at hp
  refine ⟨S, hS, hp.1, hp.2, ?_⟩
  intro hs
  have := hs.targets
  omega

/-- A HELLO on a registered connection. -/
theorem maps_agree_hello :
    ∃ S, Reachable {} (fun _ => str "c") (registeredWiring fun _ => str "c") Op.FromUser
        (fun s _ a => OnRegistered s a) S ∧ S.s.authenticated (str "c") = true ∧
      SameKeys S.s ∧ S.s.peerCount = S.s.peerList.length ∧ S.s.peerCount = S.s.targets.length ∧
      (∀ net json, broadcastOut net S.s json =
        S.s.targets.flatMap fun e => (S.s.send net e.1 e.2 .CHAT_MESSAGE json).2) ∧
      ∀ net c f, SameKeys (exec {} (fun _ => str "c") net S.s (.frame c f)).s ↔ OnRegistered S.s (.frame c f) := by
  have hrun : ((Machine.run (Machine.checked (step {} (fun _ => str "c") (registeredWiring fun _ => str "c"))
      (passes fun s _ a => OnRegistered s a)) {} (oneRead [hello] 2)).map fun S =>
        S.s.authenticated (str "c")) = some true := by decide +kernel
  obtain ⟨S, hS, hp⟩ := Reachable.of_passing (oneRead_fromUser _ _) hrun
  exact ⟨S, hS, hp, maps_agree hS⟩

end LanTalk.Chat
