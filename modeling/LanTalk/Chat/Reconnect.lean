/-
  LanTalk.Chat.Reconnect — `sendTo` (`src/chat/chat_session.cpp`) when several entries of
  `peers_` name one device, as after a reconnect: the entry of a connection that was closed
  stays until a ping sweep finds it.

  `sendTo` looks at the first AUTHENTICATED entry of the device, in the order of the ids, and
  at no other: if no connection is registered under it, or that connection takes nothing,
  the call fails. No other thread runs between the choice and the send here.

  Proved: `sendTo_reaches_iff`, for every session and device: where a live connection of the
  device is there, the call sends on one just if the first entry has one.
-/

import LanTalk.Chat.Closed

namespace LanTalk.Chat

open LanTalk.Lib LanTalk.Network LanTalk.Config

/-- The first entry of a map that passes a test, in the order of the ids. -/
theorem find?_toList_iff {α : Type} (m : ConnMap α) (p : ConnId × α → Bool) (e : ConnId × α) :
    m.toList.find? p = some e ↔
      m[e.1]? = some e.2 ∧ p e = true ∧ ∀ k v, m[k]? = some v → p (k, v) = true → compare k e.1 ≠ .lt := by
  have hsorted : m.toList.Pairwise fun a b => compare a.1 b.1 = .lt := Std.ExtTreeMap.ordered_keys_toList
  constructor
  · intro h
    obtain ⟨hp, before, after, hl, hbefore⟩ := List.find?_eq_some_iff_append.mp h
    refine ⟨(mem_toList m e).mp (List.mem_of_find?_eq_some h), hp, fun k v hk hkv hlt => ?_⟩
    have hmem := (mem_toList m (k, v)).mpr hk
    rw [hl] at hmem hsorted
    rcases List.mem_append.mp hmem with hb | hb
    · have := hbefore _ hb
      rw [hkv] at this
      cases this
    · rcases List.mem_cons.mp hb with rfl | hb
      · exact Std.OrientedCmp.not_lt_of_lt hlt hlt
      · have hgt := (List.pairwise_cons.mp (List.pairwise_append.mp hsorted).2.1).1 _ hb
        exact Std.OrientedCmp.not_lt_of_lt hgt hlt
  · intro h
    obtain ⟨he, hp, hfirst⟩ := h
    have hmem := (mem_toList m e).mpr he
    obtain ⟨x, hx⟩ := Option.isSome_iff_exists.mp (List.find?_isSome.mpr ⟨e, hmem, hp⟩)
    obtain ⟨hpx, before, after, hl, hbefore⟩ := List.find?_eq_some_iff_append.mp hx
    rw [hl] at hmem hsorted
    rcases List.mem_append.mp hmem with hb | hb
    · have := hbefore _ hb
      rw [hp] at this
      cases this
    · rcases List.mem_cons.mp hb with rfl | hb
      · exact hx
      · have hlt := (List.pairwise_cons.mp (List.pairwise_append.mp hsorted).2.1).1 _ hb
        have hm := (mem_toList m x).mp (List.mem_of_find?_eq_some hx)
        exact absurd hlt (hfirst x.1 x.2 hm hpx)

section
variable (config : AppConfig) (net : Handle → Frame → Bool)

/-- `sendTo` in one go: what it returns, and what it sends. -/
def sendToOut (s : Session) (peerId msgId : Bytes) (timestampUtc : Int64) (text : Bytes) : Bool × List Out :=
  match s.pick peerId with
  | some (c, h) => s.send net c h .CHAT_MESSAGE (newMessage config msgId timestampUtc text).toJson
  | none => (false, [])

/-- It is what a run's two pieces of the call do, one right after the other. -/
theorem sendToOut_exec (ids : Handle → ConnId) (s : Session) (peerId msgId : Bytes) (timestampUtc : Int64)
    (text : Bytes) :
    let p := exec config ids net s (.pick peerId (newMessage config msgId timestampUtc text))
    p.s = s ∧ p.out = [] ∧
      p.rest.flatMap (fun a => (exec config ids net s a).out) =
        (sendToOut config net s peerId msgId timestampUtc text).2 := by
  simp only [exec, sendToOut]
  cases s.pick peerId with
  | none => exact ⟨rfl, rfl, rfl⟩
  | some e => exact ⟨rfl, rfl, List.append_nil _⟩

/-- An AUTHENTICATED entry of a device. -/
def EntryOf (s : Session) (d : Bytes) (c : ConnId) : Prop :=
  ∃ peer, s.peers[c]? = some peer ∧ peer.deviceId = d ∧ peer.state = .AUTHENTICATED

/-- Such an entry with a registered connection that takes the frame. -/
structure Live (s : Session) (d : Bytes) (f : Frame) (c : ConnId) (h : Handle) : Prop where
  entry : EntryOf s d c
  registered : s.connections[c]? = some h
  writable : (s.objs h).writable = true
  taken : net h f = true

/-- No entry of the device comes before `c`. -/
def First (s : Session) (d : Bytes) (c : ConnId) : Prop := ∀ c', EntryOf s d c' → compare c' c ≠ .lt

end

section
variable {config : AppConfig} {net : Handle → Frame → Bool} {s : Session} {d : Bytes}

theorem pick_iff {c : ConnId} {h : Handle} :
    s.pick d = some (c, h) ↔ EntryOf s d c ∧ First s d c ∧ s.connections[c]? = some h := by
  have hp : ∀ e : ConnId × PeerInfo, (e.2.deviceId == d && e.2.state == .AUTHENTICATED) = true ↔
      e.2.deviceId = d ∧ e.2.state = .AUTHENTICATED := by simp
  have hpick : s.pick d = some (c, h) ↔ ∃ e : ConnId × PeerInfo,
      s.peers.toList.find? (fun e => e.2.deviceId == d && e.2.state == .AUTHENTICATED) = some e ∧
        s.connections[e.1]? = some h ∧ e.1 = c := by
    unfold Session.pick
    split
    · rename_i e he
      simp [he]
    · rename_i hn
      simp [hn]
  rw [hpick]
  constructor
  · intro hx
    obtain ⟨e, he, hc, rfl⟩ := hx
    obtain ⟨hm, htest, hfirst⟩ := (find?_toList_iff _ _ e).mp he
    refine ⟨⟨e.2, hm, (hp e).mp htest⟩, fun c' hc' => ?_, hc⟩
    obtain ⟨peer, hpeer, hd⟩ := hc'
    exact hfirst c' peer hpeer ((hp (c', peer)).mpr hd)
  · intro hx
    obtain ⟨⟨peer, hpeer, hd⟩, hfirst, hc⟩ := hx
    refine ⟨(c, peer), (find?_toList_iff _ _ _).mpr ⟨hpeer, (hp (c, peer)).mpr hd, fun k v hk hv => ?_⟩, hc, rfl⟩
    exact hfirst k ⟨v, hk, (hp (k, v)).mp hv⟩

/-- A device with a live connection is sent one message, on a live connection of its, if and
    only if its first entry has one. -/
theorem sendTo_reaches_iff (config : AppConfig) (net : Handle → Frame → Bool) (s : Session)
    (d msgId : Bytes) (timestampUtc : Int64) (text : Bytes) :
    let f := Frame.create .CHAT_MESSAGE (newMessage config msgId timestampUtc text).toJson
    let r := sendToOut config net s d msgId timestampUtc text
    ((∃ c h, Live net s d f c h) → r.1 = true ∧ ∃ c h, Live net s d f c h ∧ r.2 = [.sent c h f true]) ↔
      ((∃ c h, Live net s d f c h) → ∃ c h, Live net s d f c h ∧ First s d c) := by
  intro f r
  refine imp_congr_right fun _ => ?_
  constructor
  · intro hr
    obtain ⟨hok, c, h, hlive, hout⟩ := hr
    cases hp : s.pick d with
    | none =>
      simp only [r, sendToOut, hp] at hok
      cases hok
    | some e =>
      obtain ⟨c', h'⟩ := e
      obtain ⟨-, hfirst, -⟩ := pick_iff.mp hp
      simp only [r, sendToOut, hp, Session.send] at hout
      split at hout
      · simp only [List.cons.injEq, Out.sent.injEq, and_true] at hout
        obtain ⟨rfl, -⟩ := hout
        exact ⟨c', h, hlive, hfirst⟩
      · cases hout
  · intro hr
    obtain ⟨c, h, hlive, hfirst⟩ := hr
    have hp : s.pick d = some (c, h) := pick_iff.mpr ⟨hlive.entry, hfirst, hlive.registered⟩
    have hsent : r = (true, [.sent c h f true]) := by
      simp only [r, sendToOut, hp, Session.send, if_pos hlive.writable]
      exact Prod.ext hlive.taken (congrArg (fun ok => [Out.sent c h f ok]) hlive.taken)
    rw [hsent]
    exact ⟨rfl, c, h, hlive, rfl⟩

end

/-! ## A reconnect -/

/-- The first connection made is registered before the second in the order of the ids. -/
def twoIds (h : Handle) : ConnId := if h = 0 then str "a" else str "b"

/-- A device connects and leaves, and connects again before a ping sweep. -/
def reconnect : List Label :=
  let net := fun _ _ => true
  oneRead [hello, bye] 3 ++
    [.call 0 .addConnection, .run (.app 0) net, .run (.app 0) net, .run (.app 0) net,
      .poll 1, .read 1 (some hello.serialize) false, .run (.recv 1) net, .run (.recv 1) net]

/-- Its second connection is live, and `sendTo` fails at the entry of the first. -/
theorem stale_entry_hides_live :
    ∃ S, Reachable {} twoIds (registeredWiring twoIds) Op.FromUser (fun _ _ _ => True) S ∧
      ∀ net, (∀ h f, net h f = true) → ∀ msgId timestampUtc text,
        let f := Frame.create .CHAT_MESSAGE (newMessage {} msgId timestampUtc text).toJson
        Live net S.s (str "b") f (str "b") 1 ∧
          sendToOut {} net S.s (str "b") msgId timestampUtc text = (false, []) := by
  have hrun : ((Machine.run (Machine.checked (step {} twoIds (registeredWiring twoIds)) fun _ _ => true) {}
      reconnect).map fun S =>
        decide (S.s.pick (str "b") = some (str "a", 0) ∧ (S.s.objs 0).writable = false ∧
          S.s.connections[str "b"]? = some 1 ∧ (S.s.objs 1).writable = true) &&
        (S.s.peers[str "b"]?.any fun peer => decide (peer.deviceId = str "b" ∧ peer.state = .AUTHENTICATED))) =
      some true := by
    decide +kernel
  have hops : ∀ l ∈ reconnect, l.Calls Op.FromUser := by
    intro l hl
    rcases List.mem_append.mp hl with hl | hl
    · exact oneRead_fromUser _ _ l hl
    · simp only [List.mem_cons, List.not_mem_nil, or_false] at hl
      rcases hl with rfl | rfl | rfl | rfl | rfl | rfl | rfl | rfl <;> trivial
  obtain ⟨S, hS, hp⟩ :
      ∃ S, Reachable {} twoIds (registeredWiring twoIds) Op.FromUser (fun _ _ _ => True) S ∧ _ :=
    Reachable.of_run hops (fun _ _ _ _ _ _ => trivial) hrun
  simp only [Bool.and_eq_true, decide_eq_true_eq, Option.any_eq_true] at hp
  obtain ⟨⟨hpick, hclosed, hreg, hopen⟩, peer, hpeer, hd⟩ := hp
  refine ⟨S, hS, fun net hnet msgId timestampUtc text => ⟨⟨⟨peer, hpeer, hd⟩, hreg, hopen, hnet _ _⟩, ?_⟩⟩
  simp only [sendToOut, hpick, Session.send, hclosed]
  rfl

end LanTalk.Chat
