/-
  LanTalk.Chat.Malformed — the payloads `ChatMessage::fromJson` takes
  (`src/chat/message.cpp`), against the objects it is meant for.

  The decoder never looks at the object: it searches for `"msgId":"` and `"senderId":"` and
  gives up only if one of the two has no text behind it.

  Proved, for every payload:
  - `rejects_malformed_iff`: when a payload that is no object with the two members is
    refused.
  - `truncated_rejected_iff`: a message's text cut short is refused just if it is cut
    before the first byte of the sender's id.
-/

import LanTalk.Chat.JsonPayloads
import LanTalk.Chat.Session

namespace LanTalk.Chat

open LanTalk.Lib
open LanTalk.Lib.Json (Value)

/-- A JSON object with string members `msgId` and `senderId`. -/
def WellFormed (payload : Bytes) : Prop :=
  ∃ ms, Json.Text payload (.object ms) ∧ ∃ v w, (chars (str "msgId"), Value.string v) ∈ ms ∧
    (chars (str "senderId"), Value.string w) ∈ ms

/-- Behind the first `"key":"`, if there is one, the payload ends or has a quote. -/
def NoText (payload key : Bytes) : Prop :=
  ∀ rest, after? (keyPattern key [quote]) payload = some rest → ∀ c ∈ rest.head?, c = quote

theorem unescapeJson_eq_nil {s : Bytes} : unescapeJson s = [] ↔ s = [] := by
  rcases s with _ | ⟨c, _ | ⟨d, s⟩⟩
  · exact Iff.rfl
  · simp [unescapeJson]
  · simp only [unescapeJson]
    split <;> simp

theorem upToQuote_eq_nil {prev : UInt8} (hp : prev ≠ backslash) {s : Bytes} :
    upToQuote prev s = [] ↔ ∀ c ∈ s.head?, c = quote := by
  cases s with
  | nil => simp [upToQuote]
  | cons c s =>
    rw [upToQuote]
    by_cases hc : c = quote
    · simp [hc, hp]
    · simp [hc]

theorem extractJsonString_eq_nil {payload key : Bytes} :
    extractJsonString payload key = [] ↔ NoText payload key := by
  unfold extractJsonString NoText
  cases after? (keyPattern key [quote]) payload with
  | none => simp
  | some rest =>
    simp only [Option.some.injEq, forall_eq']
    rw [unescapeJson_eq_nil, upToQuote_eq_nil (by decide)]

theorem fromJson_eq_none {payload : Bytes} :
    ChatMessage.fromJson payload = none ↔ NoText payload (str "msgId") ∨ NoText payload (str "senderId") := by
  rw [← extractJsonString_eq_nil, ← extractJsonString_eq_nil]
  unfold ChatMessage.fromJson
  simp only
  split
  · rename_i h
    exact ⟨fun _ => h, fun _ => rfl⟩
  · rename_i h
    exact ⟨fun e => (by cases e), fun e => absurd e h⟩

/-- A refused payload is handed to no callback. -/
theorem handleChatMessage_refused {payload : Bytes} (h : ChatMessage.fromJson payload = none) (s : Session)
    (c : ConnId) : (handleChatMessage s c payload).after = [] := by
  unfold handleChatMessage
  split
  · split
    · rw [h]
    · rfl
  · rfl

/-- Malformed payloads are refused, and handed to no callback, if and only if the payload is
    well-formed or has no text behind the first `"msgId":"` or behind the first
    `"senderId":"`. -/
theorem rejects_malformed_iff (payload : Bytes) :
    (¬ WellFormed payload →
      ChatMessage.fromJson payload = none ∧ ∀ s c, (handleChatMessage s c payload).after = []) ↔
    WellFormed payload ∨ NoText payload (str "msgId") ∨ NoText payload (str "senderId") := by
  rw [← fromJson_eq_none]
  by_cases hw : WellFormed payload
  · exact ⟨fun _ => Or.inl hw, fun _ hn => absurd hw hn⟩
  · constructor
    · exact fun h => Or.inr (h hw).1
    · intro h hn
      have hnone := h.resolve_left hw
      exact ⟨hnone, fun s c => handleChatMessage_refused hnone s c⟩

/-- The text of a message, cut in the middle of the sender's id. -/
theorem truncated_is_handed_on :
    let m : ChatMessage := ⟨str "1", str "ab", str "A", 0, str "hi"⟩
    let payload := str "\x7b\"msgId\":\"1\",\"senderId\":\"a"
    payload <+: m.toJson ∧ ¬ WellFormed payload ∧ ChatMessage.fromJson payload = some ⟨str "1", str "a", [], 0, []⟩ ∧
      (handleChatMessage { peers := (∅ : ConnMap PeerInfo).insert [] { state := .AUTHENTICATED } } [] payload).after =
        [.message [] ⟨str "1", str "a", [], 0, []⟩] := by
  intro m payload
  have hdecode : Json.decode payload = none := by decide +kernel
  refine ⟨by decide +kernel, fun h => ?_, by decide +kernel, ?_⟩
  · obtain ⟨ms, hms, -⟩ := h
    rw [(Json.decode_iff payload _).mpr hms] at hdecode
    cases hdecode
  · have hjson : ChatMessage.fromJson payload = some ⟨str "1", str "a", [], 0, []⟩ := by decide +kernel
    simp [handleChatMessage, hjson]

/-! ## Messages cut short -/

section
variable (m : ChatMessage)

/-- A message's text up to the sender's id. -/
def jsonToSenderId : Bytes :=
  openBrace :: keyPattern (str "msgId") (quote :: (escapeJson m.msgId ++ quote :: comma ::
    keyPattern (str "senderId") [quote]))

theorem toJson_senderId :
    m.toJson = jsonToSenderId m ++ (escapeJson m.senderId ++ quote :: comma :: jsonFromSenderName m) := by
  rw [toJson_members, jsonFromMsgId, jsonFromSenderId, jsonToSenderId]
  simp only [keyPattern, List.cons_append, List.append_assoc, List.nil_append]

variable {m}

theorem escapeJson_head {s : Bytes} (hs : s ≠ []) : ∃ c r, escapeJson s = c :: r ∧ c ≠ quote := by
  obtain ⟨a, s, rfl⟩ := List.exists_cons_of_ne_nil hs
  rw [escapeJson_cons]
  rcases escapeByte_cases a with ⟨h, hq, -⟩ | ⟨d, h, -, -⟩
  · exact ⟨a, escapeJson s, by rw [h]; rfl, hq⟩
  · exact ⟨backslash, d :: escapeJson s, by rw [h]; rfl, by decide⟩

/-- Text up to the sender's id, and then any byte but a quote, is taken. -/
theorem fromJson_named (h1 : m.msgId ≠ []) {c : UInt8} (hc : c ≠ quote) (r : Bytes) :
    ChatMessage.fromJson (jsonToSenderId m ++ c :: r) ≠ none := by
  have htext : jsonToSenderId m ++ c :: r = openBrace :: keyPattern (str "msgId") (quote :: (escapeJson m.msgId ++
      quote :: comma :: keyPattern (str "senderId") (quote :: c :: r))) := by
    simp only [jsonToSenderId, keyPattern, List.cons_append, List.append_assoc, List.nil_append]
  obtain ⟨a, s, ha, hq⟩ := escapeJson_head h1
  have hid : after? (keyPattern (str "msgId") [quote]) (jsonToSenderId m ++ c :: r) = some (escapeJson m.msgId ++
      quote :: comma :: keyPattern (str "senderId") (quote :: c :: r)) := by
    rw [htext, after?_sep _ (by decide)]
    exact after?_key [quote] _
  have hsender : after? (keyPattern (str "senderId") [quote]) (jsonToSenderId m ++ c :: r) = some (c :: r) := by
    rw [htext, after?_member _ (by decide) (by decide) (by decide) (by decide), after?_sep _ (by decide)]
    exact after?_key [quote] _
  rw [Ne, fromJson_eq_none, not_or]
  refine ⟨fun h => hq (h _ hid a ?_), fun h => hc (h _ hsender c rfl)⟩
  rw [ha]
  rfl

/-- The text of a message with an id and a sender, cut short anywhere, is refused if and
    only if nothing of the sender's id is left of it. -/
theorem truncated_rejected_iff (h1 : m.msgId ≠ []) (h2 : m.senderId ≠ []) {payload : Bytes}
    (hp : payload <+: m.toJson) :
    ChatMessage.fromJson payload = none ↔ payload.length ≤ (jsonToSenderId m).length := by
  obtain ⟨x, hx⟩ := hp
  have hjson := toJson_senderId m
  constructor
  · intro h
    by_contra hlen
    have hnamed : jsonToSenderId m <+: payload := by
      refine List.prefix_of_prefix_length_le ⟨_, hjson.symm⟩ ⟨x, hx⟩ ?_
      omega
    obtain ⟨y, rfl⟩ := hnamed
    obtain ⟨a, s, ha, hq⟩ := escapeJson_head h2
    rw [hjson, List.append_assoc, List.append_cancel_left_eq, ha] at hx
    cases y with
    | nil => simp at hlen
    | cons c y =>
      have hc : c = a := (List.cons.inj hx).1
      exact fromJson_named h1 (hc ▸ hq) y h
  · intro hlen
    refine fromJson_eq_none.mpr (Or.inr fun rest hrest c hc => ?_)
    -- the whole text is found to have the sender's id where this match ends
    have hall := after?_extend (by simp [keyPattern]) hrest x
    rw [hx, after?_senderId] at hall
    have hl := congrArg List.length (Option.some.inj hall)
    have hl' := congrArg List.length (hx.trans hjson)
    simp only [List.length_append] at hl hl'
    have hnil : rest = [] := List.length_eq_zero_iff.mp (by omega)
    rw [hnil] at hc
    cases hc

end

end LanTalk.Chat
