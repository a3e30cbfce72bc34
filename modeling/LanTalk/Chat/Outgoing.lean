/-
  LanTalk.Chat.Outgoing — the bytes that `sendTo` and `broadcast`
  (`src/chat/chat_session.cpp`) put on the wire. `taken h` is how many bytes the kernel
  takes on connection `h` before it reports an error.

  Neither function limits a message: one whose JSON is longer than `kMaxPayloadSize` goes
  out whole and is a protocol violation to the peer (`long_text_refused`).

  Proved: `sent_is_accepted_iff`, for which texts the two do what a peer's reader takes.
-/

import LanTalk.Network.Stream
import LanTalk.Chat.Closed

namespace LanTalk.Chat

open LanTalk.Lib LanTalk.Network LanTalk.Config

/-! ## The length of a message -/

/-- How many bytes `escapeJson` makes of a string. -/
def escapedLength (s : Bytes) : Nat :=
  s.length + s.countP fun c => [quote, backslash, newline, carriageReturn, tab].contains c

theorem escapeJson_length (s : Bytes) : (escapeJson s).length = escapedLength s := by
  induction s with
  | nil => rfl
  | cons c s ih =>
    have hc : (escapeByte c).length =
        1 + if [quote, backslash, newline, carriageReturn, tab].contains c then 1 else 0 := by
      unfold escapeByte
      by_cases h1 : c = quote
      · subst h1; rfl
      by_cases h2 : c = backslash
      · subst h2; rfl
      by_cases h3 : c = newline
      · subst h3; rfl
      by_cases h4 : c = carriageReturn
      · subst h4; rfl
      by_cases h5 : c = tab
      · subst h5; rfl
      · simp [h1, h2, h3, h4, h5]
    simp only [escapeJson_cons, List.length_append, hc, ih, escapedLength, List.length_cons, List.countP_cons]
    omega

/-- How many bytes the message of a text has. -/
def messageLength (config : AppConfig) (msgId : Bytes) (timestampUtc : Int64) (text : Bytes) : Nat :=
  68 + escapedLength msgId + escapedLength config.deviceId + escapedLength config.displayName +
    (intText timestampUtc.toInt).length + escapedLength text

theorem toJson_length (config : AppConfig) (msgId : Bytes) (timestampUtc : Int64) (text : Bytes) :
    (newMessage config msgId timestampUtc text).toJson.length = messageLength config msgId timestampUtc text := by
  have h1 : (str "\x7b").length = 1 := rfl
  have h2 : (str "\"msgId\":\"").length = 9 := rfl
  have h3 : (str "\",").length = 2 := rfl
  have h4 : (str "\"senderId\":\"").length = 12 := rfl
  have h5 : (str "\"senderName\":\"").length = 14 := rfl
  have h6 : (str "\"timestampUtc\":").length = 15 := rfl
  have h7 : (str ",").length = 1 := rfl
  have h8 : (str "\"text\":\"").length = 8 := rfl
  have h9 : (str "\"").length = 1 := rfl
  have h10 : (str "\x7d").length = 1 := rfl
  simp only [ChatMessage.toJson, newMessage, List.length_append, escapeJson_length, messageLength, h1, h2, h3, h4,
    h5, h6, h7, h8, h9, h10]
  omega

/-! ## What goes out -/

section
variable (config : AppConfig) (taken : Handle → Nat)

/-- `sendTo`, choosing its target in `s` and sending in `s'`: what it returns, and the bytes
    it puts on the wire. -/
def sendTo (s s' : Session) (peerId msgId : Bytes) (timestampUtc : Int64) (text : Bytes) : Bool × Bytes :=
  match s.pick peerId with
  | some (_, h) => (s'.objs h).send (taken h) .CHAT_MESSAGE (newMessage config msgId timestampUtc text).toJson
  | none => (false, [])

/-- The bytes that `broadcast` puts on the wire of each connection it sends on. -/
def broadcast (s : Session) (msgId : Bytes) (timestampUtc : Int64) (text : Bytes) : List (Handle × Bytes) :=
  s.targets.map fun e =>
    (e.2, ((s.objs e.2).send (taken e.2) .CHAT_MESSAGE (newMessage config msgId timestampUtc text).toJson).2)

end

section
variable {config : AppConfig} {taken : Handle → Nat}

/-- What a session's send returns and shows is what its connection's does, where `net` is
    whether the kernel takes all bytes. -/
theorem send_eq_connection (s : Session) (c : ConnId) (h : Handle) (type : MessageType) (payload : Bytes) :
    let net := fun k (f : Frame) => decide (f.serialize.length ≤ taken k)
    (s.send net c h type payload).1 = ((s.objs h).send (taken h) type payload).1 ∧
      reaching h (s.send net c h type payload).2 =
        if ((s.objs h).send (taken h) type payload).1 then [Frame.create type payload] else [] := by
  intro net
  unfold Session.send Connection.send sendAll
  by_cases hw : (s.objs h).writable = true
  · simp only [hw, if_true]
    refine ⟨rfl, ?_⟩
    by_cases hl : (Frame.create type payload).serialize.length ≤ taken h <;> simp [reaching, net, hl]
  · simp [hw, reaching]

/-- The message of a text fits a peer's limit. -/
def Fits (config : AppConfig) (msgId : Bytes) (timestampUtc : Int64) (text : Bytes) : Prop :=
  messageLength config msgId timestampUtc text ≤ kMaxPayloadSize

/-- The kernel takes the whole frame of a text's message. -/
def TakesAll (config : AppConfig) (taken : Nat) (msgId : Bytes) (timestampUtc : Int64) (text : Bytes) : Prop :=
  kFrameHeaderSize + messageLength config msgId timestampUtc text ≤ taken

/-- Either no bytes are sent and the call reports failure, or a peer takes them as one frame
    with the message. -/
def Sound (json : Bytes) (r : Bool × Bytes) : Prop := r.2 = [] ∧ r.1 = false ∨ Accepted json r.2

theorem accepted_nil (json : Bytes) : ¬ Accepted json [] := by
  intro h
  obtain ⟨f, u, hf, -⟩ := h
  have h : (FrameReader.new kMaxPayloadSize).feed [] = (.ok [], FrameReader.new kMaxPayloadSize) :=
    FrameReader.loop_wait (FrameReader.new_waits kMaxPayloadSize) []
  rw [h] at hf
  cases hf

/-- A peer takes what one send puts on the wire. -/
theorem send_accepted_iff (conn : Connection) (n : Nat) (msgId : Bytes) (timestampUtc : Int64) (text : Bytes) :
    Accepted (newMessage config msgId timestampUtc text).toJson
        (conn.send n .CHAT_MESSAGE (newMessage config msgId timestampUtc text).toJson).2 ↔
      conn.writable = true ∧ TakesAll config n msgId timestampUtc text ∧ Fits config msgId timestampUtc text := by
  unfold Connection.send
  by_cases hw : conn.writable = true
  · rw [if_pos hw, sendAll, accepted_iff, toJson_length, TakesAll, Fits, and_iff_right hw]
  · rw [if_neg hw]
    exact iff_of_false (accepted_nil _) fun h => hw h.1

/-- One send of `sendTo`. -/
theorem send_sound_iff (conn : Connection) (n : Nat) (msgId : Bytes) (timestampUtc : Int64) (text : Bytes) :
    Sound (newMessage config msgId timestampUtc text).toJson
        (conn.send n .CHAT_MESSAGE (newMessage config msgId timestampUtc text).toJson) ↔
      conn.writable = false ∨ n = 0 ∨
        TakesAll config n msgId timestampUtc text ∧ Fits config msgId timestampUtc text := by
  rw [Sound, send_accepted_iff]
  unfold Connection.send
  by_cases hw : conn.writable = true
  · have hlen := frame_length .CHAT_MESSAGE (newMessage config msgId timestampUtc text).toJson
    have hpos : 0 < kFrameHeaderSize := by decide
    have hnil : (Frame.create .CHAT_MESSAGE (newMessage config msgId timestampUtc text).toJson).serialize ≠ [] := by
      intro h
      rw [h] at hlen
      simp only [List.length_nil] at hlen
      omega
    simp only [hw, if_true, sendAll, List.take_eq_nil_iff, hnil, or_false, decide_eq_false_iff_not, Nat.not_le,
      true_and, Bool.true_eq_false, false_or, hlen]
    refine or_congr_left ⟨fun h => h.1, fun h => ⟨h, by omega⟩⟩
  · rw [if_neg hw]
    exact iff_of_true (.inl ⟨rfl, rfl⟩) (.inl (by simpa using hw))

/-- `sendTo` is sound just where it has no open target, or none of its bytes are taken, or
    all are and the message fits; `broadcast`, which reports nothing, puts on the wire of a
    target what a peer takes just where all bytes are taken and the message fits. -/
theorem sent_is_accepted_iff (config : AppConfig) (taken : Handle → Nat) (msgId : Bytes) (timestampUtc : Int64)
    (text : Bytes) :
    (∀ s s' peerId, Sound (newMessage config msgId timestampUtc text).toJson
        (sendTo config taken s s' peerId msgId timestampUtc text) ↔
      ∀ c h, s.pick peerId = some (c, h) → (s'.objs h).writable = false ∨ taken h = 0 ∨
        TakesAll config (taken h) msgId timestampUtc text ∧ Fits config msgId timestampUtc text) ∧
    ∀ s, (∀ e ∈ broadcast config taken s msgId timestampUtc text,
        Accepted (newMessage config msgId timestampUtc text).toJson e.2) ↔
      ∀ c h, s.connections[c]? = some h → s.authenticated c = true → (s.objs h).writable = true ∧
        TakesAll config (taken h) msgId timestampUtc text ∧ Fits config msgId timestampUtc text := by
  constructor
  · intro s s' peerId
    unfold sendTo
    cases hp : s.pick peerId with
    | none =>
      refine iff_of_true (.inl ⟨rfl, rfl⟩) ?_
      intro c h hc
      cases hc
    | some e =>
      obtain ⟨c, h⟩ := e
      simp only [send_sound_iff, Option.some.injEq, Prod.mk.injEq]
      constructor
      · rintro hs _ _ ⟨rfl, rfl⟩; exact hs
      · exact fun hs => hs c h ⟨rfl, rfl⟩
  · intro s
    simp only [broadcast, List.forall_mem_map, send_accepted_iff]
    constructor
    · intro hs c h hc ha
      exact hs (c, h) (mem_targets.mpr ⟨hc, ha⟩)
    · intro hs e he
      obtain ⟨hc, ha⟩ := mem_targets.mp he
      exact hs e.1 e.2 hc ha

/-- To an AUTHENTICATED peer a text of 70000 bytes goes out whole, and the peer does not take it. -/
theorem long_text_refused :
    ∃ S, Reachable {} (fun _ => str "c") (registeredWiring fun _ => str "c") Op.FromUser (fun _ _ _ => True) S ∧
      let text := List.replicate 70000 97
      let r := sendTo {} (fun _ => 100000) S.s S.s (str "b") (str "1") 0 text
      r.1 = true ∧ ¬ Sound (newMessage {} (str "1") 0 text).toJson r := by
  have hrun : ((Machine.run (Machine.checked (step {} (fun _ => str "c") (registeredWiring fun _ => str "c"))
      fun _ _ => true) {} (oneRead [hello] 2)).map fun S =>
        decide (S.s.pick (str "b") = some (str "c", 0)) && (S.s.objs 0).writable) = some true := by decide +kernel
  obtain ⟨S, hS, hp⟩ :
      ∃ S, Reachable {} (fun _ => str "c") (registeredWiring fun _ => str "c") Op.FromUser
        (fun _ _ _ => True) S ∧ _ :=
    Reachable.of_run (oneRead_fromUser _ _) (fun _ _ _ _ _ _ => trivial) hrun
  simp only [Bool.and_eq_true, decide_eq_true_eq] at hp
  obtain ⟨hpick, hw⟩ := hp
  refine ⟨S, hS, ?_⟩
  intro text r
  have hlen : messageLength {} (str "1") 0 text = 70070 := by
    have h1 : escapedLength text = 70000 := by
      simp only [escapedLength, text, List.length_replicate, List.countP_replicate]
      rfl
    have h2 : escapedLength (str "1") = 1 := rfl
    have h3 : (intText (0 : Int64).toInt).length = 1 := by decide
    simp only [messageLength, h1, h2, h3]
    rfl
  have hr : r = (S.s.objs 0).send 100000 .CHAT_MESSAGE (newMessage {} (str "1") 0 text).toJson := by
    simp only [r, sendTo, hpick]
  refine ⟨?_, ?_⟩
  · rw [hr, Connection.send, if_pos hw, sendAll, decide_eq_true_eq, frame_length, toJson_length, hlen]
    decide
  · rw [hr, send_sound_iff, hw, Fits, hlen]
    simp [kMaxPayloadSize]

end

end LanTalk.Chat
