/-
  LanTalk.Chat.JsonPayloads — the payloads against the grammar of JSON: which of them are
  texts of it, and what any decoder of it reads (`Lib.Json`). The session and the chat
  message write their texts themselves, each with an escaper of its own (`jsonEscape` of
  `src/chat/chat_session.cpp`, `escapeJson` of `src/chat/message.cpp`).

  Proved:
  - `handshake_valid`: the handshake's payloads are objects of just the members put in,
    whatever bytes their strings have.
  - `toJson_valid_iff`: a chat message's text is, just if its strings have no control byte
    but newline, return and tab; any other is written as it stands (`control_byte_invalid`).
-/

import LanTalk.Chat.Payload
import LanTalk.Lib.Json

namespace LanTalk.Chat

open LanTalk.Lib LanTalk.Config
open LanTalk.Lib.Json (Value Character Characters Member Members Numeral Val Element)

/-- A name or a string of the source as a value's. -/
abbrev chars (s : Bytes) : List Json.JChar := Json.ofBytes s

def helloValue (config : AppConfig) : Value :=
  .object [
    (chars (str "device_id"), .string (chars config.deviceId)),
    (chars (str "display_name"), .string (chars config.displayName)),
    (chars (str "platform"), .string (chars config.platform)),
    (chars (str "tcp_port"), .number config.listenPort.toNat)]

def authRequestValue (config : AppConfig) (deviceId : Bytes) : Value :=
  .object [(chars (str "challenge"), .string (chars (deviceId ++ str "|" ++ config.deviceId)))]

def authResponseValue (config : AppConfig) : Value :=
  .object [
    (chars (str "response"), .string (chars (if config.pskHash = [] then str "ok" else config.pskHash))),
    (chars (str "device_id"), .string (chars config.deviceId))]

def ChatMessage.value (m : ChatMessage) : Value :=
  .object [
    (chars (str "msgId"), .string (chars m.msgId)),
    (chars (str "senderId"), .string (chars m.senderId)),
    (chars (str "senderName"), .string (chars m.senderName)),
    (chars (str "timestampUtc"), .number m.timestampUtc.toInt),
    (chars (str "text"), .string (chars m.text))]

/-! ## Characters -/

theorem hexValue?_hexDigit {n : Nat} (h : n < 16) : Json.hexValue? (hexDigit n) = some n := by
  interval_cases n <;> decide

/-- A byte below 0x20 as `\u00xy` is that byte. -/
theorem unit_character {c : UInt8} (h : c < 0x20) :
    Character (str "\\u00" ++ [hexDigit (c.toNat / 16), hexDigit (c.toNat % 16)]) (.byte c) := by
  have hc : c.toNat < 32 := UInt8.lt_iff_toNat_lt.mp h
  have h0 : str "\\u00" = [backslash, 117, 48, 48] := by decide
  have hchar := Character.unit (a := 48) (b := 48) (w := 0) (x := 0) (by decide) (by decide)
    (hexValue?_hexDigit (show c.toNat / 16 < 16 by omega)) (hexValue?_hexDigit (show c.toNat % 16 < 16 by omega))
  have hvalue : ((0 * 16 + 0) * 16 + c.toNat / 16) * 16 + c.toNat % 16 = c.toNat := by omega
  rw [hvalue, Json.unitChar, if_pos (by omega), UInt8.ofNat_toNat] at hchar
  rw [h0]
  exact hchar

theorem jsonEscapeByte_character (c : UInt8) : Character (jsonEscapeByte c) (.byte c) := by
  unfold jsonEscapeByte
  split_ifs with hq hb hn hr ht hc
  · subst hq
    exact .escaped (by decide)
  · subst hb
    exact .escaped (by decide)
  · subst hn
    exact .escaped (by decide)
  · subst hr
    exact .escaped (by decide)
  · subst ht
    exact .escaped (by decide)
  · exact unit_character hc
  · refine .unescaped ?_
    simp only [Json.isUnescaped, Bool.and_eq_true, decide_eq_true_eq, bne_iff_ne]
    exact ⟨⟨UInt8.not_lt.mp hc, hq⟩, hb⟩

theorem jsonEscape_characters (s : Bytes) : Characters (jsonEscape s) (chars s) :=
  .flatMap fun c _ => jsonEscapeByte_character c

theorem escapeJson_characters {s : Bytes} (hs : Carried s) : Characters (escapeJson s) (chars s) := by
  refine .flatMap fun c hc => ?_
  rw [← jsonEscapeByte_carried (hs c hc)]
  exact jsonEscapeByte_character c

theorem word_characters {k : Bytes} (hk : Word k) : Characters k (chars k) := by
  have h := jsonEscape_characters k
  rwa [jsonEscape_word hk] at h

/-! ## Members -/

/-- A member as the search meets it. -/
theorem keyPattern_member {k t : Bytes} {v : Value} (hk : Word k) (h : Val t v) :
    Member (keyPattern k t) (chars k, v) :=
  .bare (word_characters hk) h

theorem jsonStr_member (k v : Bytes) : Member (jsonStr k v) (chars k, .string (chars v)) := by
  have h1 : str "\"" = [quote] := by decide
  have h2 : str "\":\"" = [quote, colon, quote] := by decide
  have h := Member.bare (jsonEscape_characters k) (Val.string (jsonEscape_characters v))
  rw [jsonStr, h1, h2]
  simp only [List.append_assoc, List.cons_append, List.nil_append]
  exact h

theorem brace_text : str "\x7b" = [Json.openBrace] ∧ str "\x7d" = [Json.closeBrace] ∧ str "," = [comma] := by
  decide

/-- An object of these members is what the decoder reads. -/
theorem object_valid {t s : Bytes} {ms : List (List Json.JChar × Value)} (h : Members t ms)
    (hs : s = Json.openBrace :: (t ++ [Json.closeBrace])) :
    Json.Text s (.object ms) ∧ Json.decode s = some (.object ms) := by
  have htext : Json.Text s (.object ms) := by
    rw [hs]
    exact .bare (.object h)
  exact ⟨htext, (Json.decode_iff s _).mpr htext⟩

/-! ## The handshake -/

section
variable (config : AppConfig)

/-- A HELLO, an AUTH_REQUEST and an AUTH_RESPONSE are JSON, and read as they were meant. -/
theorem handshake_valid (deviceId : Bytes) :
    (Json.Text (helloPayload config) (helloValue config) ∧
      Json.decode (helloPayload config) = some (helloValue config)) ∧
    (Json.Text (authRequestPayload config deviceId) (authRequestValue config deviceId) ∧
      Json.decode (authRequestPayload config deviceId) = some (authRequestValue config deviceId)) ∧
    (Json.Text (authResponsePayload config) (authResponseValue config) ∧
      Json.decode (authResponsePayload config) = some (authResponseValue config)) := by
  obtain ⟨hopen, hclose, hcomma⟩ := brace_text
  refine ⟨?_, ?_, ?_⟩
  · have hkey : str "\"tcp_port\":" = keyPattern (str "tcp_port") [] := by decide
    have hport : Member (keyPattern (str "tcp_port") (natText config.listenPort.toNat)) _ :=
      keyPattern_member (by decide) (.number (Numeral.nat config.listenPort.toNat))
    refine object_valid (.cons (jsonStr_member _ _) (.cons (jsonStr_member _ _) (.cons (jsonStr_member _ _)
      (.one hport)))) ?_
    rw [helloPayload, hopen, hclose, hcomma, hkey]
    simp only [List.append_assoc, List.cons_append, List.nil_append, keyPattern]
  · refine object_valid (.one (jsonStr_member _ _)) ?_
    rw [authRequestPayload, hopen, hclose]
    rfl
  · refine object_valid (.cons (jsonStr_member _ _) (.one (jsonStr_member _ _))) ?_
    rw [authResponsePayload, hopen, hclose, hcomma]
    simp only [List.append_assoc, List.cons_append, List.nil_append]

end

/-! ## Chat messages -/

/-- A control byte without an escape of its own goes into the text. -/
theorem escapeJson_raw {s : Bytes} {b : UInt8} (hb : b ∈ s) (hc : ¬ CarriedByte b) : b ∈ escapeJson s := by
  refine List.mem_flatMap.mpr ⟨b, hb, ?_⟩
  have hne : b ≠ quote ∧ b ≠ backslash ∧ b ≠ newline ∧ b ≠ carriageReturn ∧ b ≠ tab := by
    refine ⟨?_, ?_, ?_, ?_, ?_⟩
    all_goals
      rintro rfl
      exact hc (by decide)
  rw [escapeByte, if_neg hne.1, if_neg hne.2.1, if_neg hne.2.2.1, if_neg hne.2.2.2.1, if_neg hne.2.2.2.2]
  exact List.mem_singleton.mpr rfl

/-- What is in a field's escaped text is in the message's. -/
theorem mem_toJson {m : ChatMessage} {s : Bytes} (hs : s ∈ [m.msgId, m.senderId, m.senderName, m.text]) {b : UInt8}
    (hb : b ∈ escapeJson s) : b ∈ m.toJson := by
  simp only [List.mem_cons, List.not_mem_nil, or_false] at hs
  simp only [ChatMessage.toJson, List.mem_append]
  rcases hs with rfl | rfl | rfl | rfl
  all_goals simp only [hb, true_or, or_true]

/-- A message's text is JSON, and reads as the message, just if its strings have no control
    byte but newline, return and tab. -/
theorem toJson_valid_iff (m : ChatMessage) :
    (Json.Text m.toJson m.value ∧ Json.decode m.toJson = some m.value) ↔
      ∀ s ∈ [m.msgId, m.senderId, m.senderName, m.text], Carried s := by
  constructor
  · intro h s hs b hb
    by_contra hc
    rcases h.1.permitted b (mem_toJson hs (escapeJson_raw hb hc)) with hp | rfl | rfl | rfl
    · exact hc (Or.inl hp)
    all_goals exact hc (by decide)
  · intro h
    simp only [List.forall_mem_cons] at h
    obtain ⟨hid, hsender, hname, htext, -⟩ := h
    have hstring : ∀ {k v : Bytes}, Word k → Carried v →
        Member (keyPattern k (quote :: (escapeJson v ++ [quote]))) (chars k, .string (chars v)) :=
      fun hk hv => keyPattern_member hk (.string (escapeJson_characters hv))
    have htime : Member (keyPattern (str "timestampUtc") (intText m.timestampUtc.toInt)) _ :=
      keyPattern_member (by decide) (.number (Numeral.int m.timestampUtc.toInt))
    refine object_valid (.cons (hstring (by decide) hid) (.cons (hstring (by decide) hsender)
      (.cons (hstring (by decide) hname) (.cons htime (.one (hstring (by decide) htext)))))) ?_
    rw [toJson_members]
    simp only [jsonFromMsgId, jsonFromSenderId, jsonFromSenderName, jsonFromTimestampUtc, jsonFromText, keyPattern,
      List.append_assoc, List.cons_append, List.nil_append]
    rfl

/-- A bell in the text. -/
theorem control_byte_invalid :
    let m : ChatMessage := ⟨str "1", str "a", str "A", 0, [7]⟩
    Json.decode m.toJson = none ∧ ¬ ∃ v, Json.Text m.toJson v := by
  intro m
  have hbad : (7 : UInt8) ∈ m.toJson := by decide +kernel
  have hnone : ¬ ∃ v, Json.Text m.toJson v := by
    intro h
    obtain ⟨v, hv⟩ := h
    exact absurd (hv.permitted 7 hbad) (by decide)
  refine ⟨?_, hnone⟩
  rw [Option.eq_none_iff_forall_ne_some]
  exact fun v hv => hnone ⟨v, (Json.decode_iff _ _).mp hv⟩

end LanTalk.Chat
