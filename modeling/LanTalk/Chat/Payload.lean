/-
  LanTalk.Chat.Payload — the JSON payloads of the handshake and how a session reads them
  (`jsonEscape`, `jsonStr` and `extractStr` of `src/chat/chat_session.cpp`). The session
  has its own escaping and its own reader, apart from the chat message's: it writes
  control bytes as `\u00xy`, which its reader does not turn back, and its reader steps
  over an escape as it meets it.

  Proved:
  - `extractStr_here` / `extractStr_next`: of an assembled payload the session reads each
    member as it was escaped, whatever the members before it hold.
  - `readStr_jsonEscape`, `readBack_eq_iff`: an escaped value is read back as it was put in
    exactly when it has no control byte but newline, return and tab (`Carried`).
  - `handshake_reads_back_iff`: so for the payloads of a HELLO, an AUTH_REQUEST and an
    AUTH_RESPONSE; from it what `device_id` and `response` read as for values without
    control bytes (`Printable`).
-/

import LanTalk.Chat.Message
import LanTalk.Config.AppConfig

namespace LanTalk.Chat

open LanTalk.Lib LanTalk.Config

/-- A lower-case hex digit. -/
def hexDigit (n : Nat) : UInt8 := if n < 10 then UInt8.ofNat (48 + n) else UInt8.ofNat (87 + n)

/-- One byte of `jsonEscape`; the last but one case is `snprintf`'s `\u%04x`. -/
def jsonEscapeByte (c : UInt8) : Bytes :=
  if c = quote then str "\\\""
  else if c = backslash then str "\\\\"
  else if c = newline then str "\\n"
  else if c = carriageReturn then str "\\r"
  else if c = tab then str "\\t"
  else if c < 0x20 then str "\\u00" ++ [hexDigit (c.toNat / 16), hexDigit (c.toNat % 16)]
  else [c]

def jsonEscape (s : Bytes) : Bytes := s.flatMap jsonEscapeByte

def jsonStr (key value : Bytes) : Bytes :=
  str "\"" ++ jsonEscape key ++ str "\":\"" ++ jsonEscape value ++ str "\""

/-- `extractStr`'s loop, from past the match on; the escapes are `unescapeJson`'s. -/
def readStr : Bytes → Bytes
  | c :: d :: s =>
    if c = backslash then unescapeByte d :: readStr s
    else if c = quote then []
    else c :: readStr (d :: s)
  | [c] => if c = quote then [] else [c]
  | [] => []

def extractStr (json key : Bytes) : Bytes :=
  match after? (keyPattern key [quote]) json with
  | none => []
  | some rest => readStr rest

/-! ## The payloads -/

/-- `sendHello`'s payload. -/
def helloPayload (config : AppConfig) : Bytes :=
  str "\x7b" ++
    jsonStr (str "device_id") config.deviceId ++ str "," ++
    jsonStr (str "display_name") config.displayName ++ str "," ++
    jsonStr (str "platform") config.platform ++ str "," ++
    str "\"tcp_port\":" ++ natText config.listenPort.toNat ++
    str "\x7d"

/-- `handleHello`'s AUTH_REQUEST. -/
def authRequestPayload (config : AppConfig) (deviceId : Bytes) : Bytes :=
  str "\x7b" ++ jsonStr (str "challenge") (deviceId ++ str "|" ++ config.deviceId) ++ str "\x7d"

/-- `handleAuthRequest`'s AUTH_RESPONSE; the challenge it answers is not used. -/
def authResponsePayload (config : AppConfig) : Bytes :=
  let response := if config.pskHash = [] then str "ok" else config.pskHash
  str "\x7b" ++ jsonStr (str "response") response ++ str "," ++ jsonStr (str "device_id") config.deviceId ++
    str "\x7d"

/-- An AUTH_REQUEST with any challenge. -/
def requestPayload (challenge : Bytes) : Bytes :=
  str "\x7b" ++ jsonStr (str "challenge") challenge ++ str "\x7d"

/-- An AUTH_RESPONSE with any response. -/
def responsePayload (config : AppConfig) (response : Bytes) : Bytes :=
  str "\x7b" ++ jsonStr (str "response") response ++ str "," ++ jsonStr (str "device_id") config.deviceId ++
    str "\x7d"

theorem authRequestPayload_eq (config : AppConfig) (deviceId : Bytes) :
    authRequestPayload config deviceId = requestPayload (deviceId ++ str "|" ++ config.deviceId) := rfl

theorem authResponsePayload_eq (config : AppConfig) :
    authResponsePayload config =
      responsePayload config (if config.pskHash = [] then str "ok" else config.pskHash) := rfl

/-! ## Escaping -/

/-- No control byte. -/
def Printable (s : Bytes) : Prop := ∀ b ∈ s, 0x20 ≤ b

instance (s : Bytes) : Decidable (Printable s) := List.decidableBAll (fun b => 0x20 ≤ b) s

/-- A byte that the reader gets back: not a control byte, or one with an escape of its own. -/
def CarriedByte (b : UInt8) : Prop := 0x20 ≤ b ∨ b = newline ∨ b = carriageReturn ∨ b = tab

instance (b : UInt8) : Decidable (CarriedByte b) :=
  inferInstanceAs (Decidable (0x20 ≤ b ∨ b = newline ∨ b = carriageReturn ∨ b = tab))

def Carried (s : Bytes) : Prop := ∀ b ∈ s, CarriedByte b

instance (s : Bytes) : Decidable (Carried s) := List.decidableBAll CarriedByte s

/-- What an escaped byte is read back as: the reader has no case for `\u`. -/
def readBackByte (c : UInt8) : Bytes :=
  if CarriedByte c then [c] else str "u00" ++ [hexDigit (c.toNat / 16), hexDigit (c.toNat % 16)]

def readBack (s : Bytes) : Bytes := s.flatMap readBackByte

theorem readBack_cons (c : UInt8) (s : Bytes) : readBack (c :: s) = readBackByte c ++ readBack s := rfl

theorem jsonEscape_cons (c : UInt8) (s : Bytes) : jsonEscape (c :: s) = jsonEscapeByte c ++ jsonEscape s := rfl

/-- Above the control bytes the session escapes as the chat message does. -/
theorem jsonEscapeByte_printable {c : UInt8} (hc : 0x20 ≤ c) : jsonEscapeByte c = escapeByte c := by
  have h : ¬ c < 0x20 := UInt8.not_lt.mpr hc
  simp only [jsonEscapeByte, escapeByte, if_neg h]

/-- And so it does the control bytes that have an escape of their own. -/
theorem jsonEscapeByte_carried {c : UInt8} (hc : CarriedByte c) : jsonEscapeByte c = escapeByte c := by
  rcases hc with h | rfl | rfl | rfl
  · exact jsonEscapeByte_printable h
  all_goals rfl

theorem jsonEscape_word {k : Bytes} (hk : Word k) : jsonEscape k = k := by
  have h : ∀ l : Bytes, (∀ b ∈ l, isWordByte b = true) → jsonEscape l = l := by
    intro l hl
    induction l with
    | nil => rfl
    | cons c l ih =>
      have hw := hl c List.mem_cons_self
      have hc : 0x20 ≤ c := by
        apply UInt8.le_iff_toNat_le.mpr
        simp only [isWordByte, Bool.or_eq_true, Bool.and_eq_true, decide_eq_true_eq, beq_iff_eq] at hw
        show 32 ≤ c.toNat
        rcases hw with (h | h) | rfl
        · omega
        · omega
        · decide
      have he : escapeByte c = [c] := by
        unfold escapeByte
        repeat' split
        all_goals first | rfl | (subst_vars; revert hw; decide)
      rw [jsonEscape_cons, jsonEscapeByte_printable hc, he, ih fun b hb => hl b (List.mem_cons_of_mem _ hb)]
      rfl
  exact h k hk.2

/-- The session escapes a byte as the chat message does, or writes it as `\u00xy`. -/
theorem jsonEscapeByte_cases (c : UInt8) :
    (jsonEscapeByte c = [c] ∧ c ≠ quote ∧ c ≠ backslash ∧ CarriedByte c) ∨
    (∃ d, jsonEscapeByte c = [backslash, d] ∧ unescapeByte d = c ∧ CarriedByte c) ∨
    (jsonEscapeByte c = backslash :: readBackByte c ∧ ¬ CarriedByte c) := by
  by_cases hc : CarriedByte c
  · rw [jsonEscapeByte_carried hc]
    rcases escapeByte_cases c with ⟨h, hq, hb⟩ | ⟨d, h, hd, -⟩
    · exact Or.inl ⟨h, hq, hb, hc⟩
    · exact Or.inr (Or.inl ⟨d, h, hd, hc⟩)
  · refine Or.inr (Or.inr ⟨?_, hc⟩)
    simp only [CarriedByte, not_or, UInt8.not_le] at hc
    obtain ⟨hlt, h1, h2, h3⟩ := hc
    have hq : c ≠ quote := by rintro rfl; revert hlt; decide
    have hb : c ≠ backslash := by rintro rfl; revert hlt; decide
    have hnc : ¬ CarriedByte c := by simp only [CarriedByte, not_or, UInt8.not_le]; exact ⟨hlt, h1, h2, h3⟩
    simp only [jsonEscapeByte, if_neg hq, if_neg hb, if_neg h1, if_neg h2, if_neg h3, if_pos hlt,
      readBackByte, if_neg hnc]
    rfl

theorem hexDigit_plain {n : Nat} (hn : n < 16) : hexDigit n ≠ quote ∧ hexDigit n ≠ backslash := by
  interval_cases n <;> decide

/-- The `u00xy` of an escape has neither a quote nor a backslash in it. -/
theorem readBackByte_plain {c : UInt8} (hc : ¬ CarriedByte c) :
    ∀ b ∈ readBackByte c, b ≠ quote ∧ b ≠ backslash := by
  have hlt : c.toNat < 32 := by
    have h : ¬ 0x20 ≤ c := fun h => hc (Or.inl h)
    exact UInt8.lt_iff_toNat_lt.mp (UInt8.not_le.mp h)
  have h0 : str "u00" = [117, 48, 48] := by decide
  have hu : ∀ b ∈ str "u00", b ≠ quote ∧ b ≠ backslash := by simp [h0, quote, backslash]
  intro b hb
  simp only [readBackByte, if_neg hc, List.mem_append, List.mem_cons, List.not_mem_nil, or_false] at hb
  rcases hb with h | rfl | rfl
  · exact hu b h
  · exact hexDigit_plain (by omega)
  · exact hexDigit_plain (by omega)

/-- Text with neither a quote nor a backslash is read as it stands. -/
theorem readStr_plain {l : Bytes} (hl : ∀ b ∈ l, b ≠ quote ∧ b ≠ backslash) (r : Bytes) :
    readStr (l ++ r) = l ++ readStr r := by
  induction l with
  | nil => rfl
  | cons c l ih =>
    obtain ⟨hq, hb⟩ := hl c List.mem_cons_self
    have ih := ih fun b h => hl b (List.mem_cons_of_mem _ h)
    rw [List.cons_append, List.cons_append, ← ih]
    cases l ++ r with
    | nil => rw [readStr, if_neg hq]; rfl
    | cons d s => rw [readStr, if_neg hb, if_neg hq]

theorem readStr_escape {d : UInt8} (r : Bytes) : readStr (backslash :: d :: r) = unescapeByte d :: readStr r := by
  rw [readStr, if_pos rfl]

/-- What the reader makes of an escaped value; it stops at the quote that ends it. -/
theorem readStr_jsonEscape (s r : Bytes) : readStr (jsonEscape s ++ quote :: r) = readBack s := by
  induction s with
  | nil => cases r <;> rfl
  | cons c s ih =>
    rw [jsonEscape_cons, readBack_cons, List.append_assoc]
    rcases jsonEscapeByte_cases c with ⟨h, hq, hb, hc⟩ | ⟨d, h, hd, hc⟩ | ⟨h, hc⟩
    · rw [h, readStr_plain (by simpa using ⟨hq, hb⟩), ih, readBackByte, if_pos hc]
    · rw [h, List.cons_append, List.singleton_append, readStr_escape, ih, hd, readBackByte, if_pos hc]
      rfl
    · -- the reader takes the `u` for an escaped byte that stands for itself
      have hu : readBackByte c = 117 :: (str "00" ++ [hexDigit (c.toNat / 16), hexDigit (c.toNat % 16)]) := by
        rw [readBackByte, if_neg hc]; rfl
      have hp := readBackByte_plain hc
      rw [hu] at hp
      rw [h, hu, List.cons_append, List.cons_append, readStr_escape,
        readStr_plain (fun b hb => hp b (List.mem_cons_of_mem _ hb)), ih]
      rfl

theorem readBack_eq_iff (s : Bytes) : readBack s = s ↔ Carried s := by
  induction s with
  | nil => simp [readBack, Carried]
  | cons c s ih =>
    rw [readBack_cons, Carried, List.forall_mem_cons]
    by_cases hc : CarriedByte c
    · rw [readBackByte, if_pos hc, List.singleton_append, List.cons.injEq, ih]
      simp [hc, Carried]
    · have hne : readBackByte c ++ readBack s ≠ c :: s := by
        intro h
        rw [readBackByte, if_neg hc] at h
        have hu : (117 : UInt8) = c := (List.cons.inj h).1
        exact hc (by rw [← hu]; decide)
      simp [hc, hne]

theorem Printable.carried {s : Bytes} (hs : Printable s) : Carried s := fun b hb => Or.inl (hs b hb)

/-- Every quote of an escaped value comes right after a backslash. -/
theorem guarded_jsonEscape (p : UInt8) (s : Bytes) : Guarded p (jsonEscape s) := by
  have happ : ∀ {l : Bytes} {p : UInt8} (r : Bytes), (∀ b ∈ l, b ≠ quote) → (∀ q, Guarded q r) →
      Guarded p (l ++ r) := by
    intro l p r hl hr
    induction l generalizing p with
    | nil => exact hr p
    | cons c l ih =>
      exact ⟨fun e => absurd e (hl c List.mem_cons_self), ih fun b hb => hl b (List.mem_cons_of_mem _ hb)⟩
  induction s generalizing p with
  | nil => trivial
  | cons c s ih =>
    rw [jsonEscape_cons]
    rcases jsonEscapeByte_cases c with ⟨h, hq, -, -⟩ | ⟨d, h, -, -⟩ | ⟨h, hc⟩
    · rw [h]; exact ⟨fun e => absurd e hq, ih c⟩
    · rw [h]; exact ⟨fun e => absurd e (by decide), fun _ => rfl, ih d⟩
    · rw [h, List.cons_append]
      exact ⟨fun e => absurd e (by decide), happ _ (fun b hb => (readBackByte_plain hc b hb).1) ih⟩

/-! ## Reading the payloads -/

theorem jsonStr_append {k : Bytes} (hk : Word k) (v r : Bytes) :
    jsonStr k v ++ r = keyPattern k (quote :: (jsonEscape v ++ quote :: r)) := by
  have h1 : str "\"" = [quote] := by decide
  have h2 : str "\":\"" = [quote, colon, quote] := by decide
  rw [jsonStr, h1, h2, jsonEscape_word hk, keyPattern]
  simp only [List.append_assoc, List.cons_append, List.nil_append]

/-- The session reads a member where its search stops. -/
theorem extractStr_here {k : Bytes} (hk : Word k) {b : UInt8} (hb : b ≠ quote) (v r : Bytes) :
    extractStr (b :: (jsonStr k v ++ r)) k = readBack v := by
  have ha : after? (keyPattern k [quote]) (b :: (jsonStr k v ++ r)) = some (jsonEscape v ++ quote :: r) := by
    rw [after?_sep _ hb, jsonStr_append hk]
    exact after?_key [quote] _
  simp only [extractStr, ha, readStr_jsonEscape]

/-- It passes over a member of another name, whatever that holds. -/
theorem extractStr_next {k k' : Bytes} (hk : Word k) (hk' : Word k') (hne : k ≠ k') {b : UInt8} (hb : b ≠ quote)
    (v r : Bytes) : extractStr (b :: (jsonStr k' v ++ comma :: r)) k = extractStr (comma :: r) k := by
  have ha : after? (keyPattern k [quote]) (b :: (jsonStr k' v ++ comma :: r)) =
      after? (keyPattern k [quote]) (comma :: r) := by
    rw [after?_sep _ hb, jsonStr_append hk',
      after?_text_ne _ hk hk' hne (by decide) (by decide) (guarded_jsonEscape _ v)]
  simp only [extractStr, ha]

section
variable (config : AppConfig)

/-- A HELLO after its brace. -/
def helloMembers : Bytes :=
  jsonStr (str "device_id") config.deviceId ++ comma ::
    (jsonStr (str "display_name") config.displayName ++ comma ::
      (jsonStr (str "platform") config.platform ++ comma ::
        (str "\"tcp_port\":" ++ natText config.listenPort.toNat ++ str "\x7d")))

theorem helloPayload_members : helloPayload config = openBrace :: helloMembers config := by
  have h1 : str "\x7b" = [openBrace] := by decide
  have h2 : str "," = [comma] := by decide
  rw [helloPayload, h1, h2, helloMembers]
  simp only [List.append_assoc, List.cons_append, List.nil_append]

theorem hello_deviceId : extractStr (helloPayload config) (str "device_id") = readBack config.deviceId := by
  rw [helloPayload_members, helloMembers, extractStr_here (by decide) (by decide)]

theorem hello_displayName :
    extractStr (helloPayload config) (str "display_name") = readBack config.displayName := by
  rw [helloPayload_members, helloMembers, extractStr_next (by decide) (by decide) (by decide) (by decide),
    extractStr_here (by decide) (by decide)]

theorem hello_platform : extractStr (helloPayload config) (str "platform") = readBack config.platform := by
  rw [helloPayload_members, helloMembers, extractStr_next (by decide) (by decide) (by decide) (by decide),
    extractStr_next (by decide) (by decide) (by decide) (by decide), extractStr_here (by decide) (by decide)]

theorem request_challenge (challenge : Bytes) :
    extractStr (requestPayload challenge) (str "challenge") = readBack challenge := by
  have h1 : str "\x7b" = [openBrace] := by decide
  rw [requestPayload, h1, List.append_assoc, List.singleton_append, extractStr_here (by decide) (by decide)]

theorem responsePayload_members (response : Bytes) :
    responsePayload config response = openBrace :: (jsonStr (str "response") response ++ comma ::
      (jsonStr (str "device_id") config.deviceId ++ str "\x7d")) := by
  have h1 : str "\x7b" = [openBrace] := by decide
  have h2 : str "," = [comma] := by decide
  rw [responsePayload, h1, h2]
  simp only [List.append_assoc, List.cons_append, List.nil_append]

theorem response_response (response : Bytes) :
    extractStr (responsePayload config response) (str "response") = readBack response := by
  rw [responsePayload_members, extractStr_here (by decide) (by decide)]

theorem response_deviceId (response : Bytes) :
    extractStr (responsePayload config response) (str "device_id") = readBack config.deviceId := by
  rw [responsePayload_members, extractStr_next (by decide) (by decide) (by decide) (by decide),
    extractStr_here (by decide) (by decide)]

/-- What a receiver reads of the handshake's payloads is what was put in, if and only if
    no control byte but newline, return and tab was. -/
theorem handshake_reads_back_iff (challenge response : Bytes) :
    (extractStr (helloPayload config) (str "device_id") = config.deviceId ∧
      extractStr (helloPayload config) (str "display_name") = config.displayName ∧
      extractStr (helloPayload config) (str "platform") = config.platform ∧
      extractStr (requestPayload challenge) (str "challenge") = challenge ∧
      extractStr (responsePayload config response) (str "response") = response ∧
      extractStr (responsePayload config response) (str "device_id") = config.deviceId) ↔
    ∀ s ∈ [config.deviceId, config.displayName, config.platform, challenge, response], Carried s := by
  rw [hello_deviceId, hello_displayName, hello_platform, request_challenge, response_response, response_deviceId]
  simp only [readBack_eq_iff, List.forall_mem_cons, List.not_mem_nil, false_implies, implies_true, and_true]
  constructor
  · intro h
    obtain ⟨hd, hn, hp, hc, hr, -⟩ := h
    exact ⟨hd, hn, hp, hc, hr⟩
  · intro h
    obtain ⟨hd, hn, hp, hc, hr⟩ := h
    exact ⟨hd, hn, hp, hc, hr, hd⟩

/-- A device id of one control byte reaches the peer as `u0001`. -/
theorem control_byte_is_not_read_back :
    let config : AppConfig := { deviceId := [1] }
    extractStr (helloPayload config) (str "device_id") = str "u0001" ∧ str "u0001" ≠ config.deviceId := by
  decide +kernel

/-- A HELLO names its sender's device. -/
theorem helloPayload_device_id (h : Printable config.deviceId) :
    extractStr (helloPayload config) (str "device_id") = config.deviceId := by
  rw [hello_deviceId]
  exact (readBack_eq_iff _).mpr h.carried

/-- An AUTH_RESPONSE carries its sender's `pskHash`, if it has one. -/
theorem authResponsePayload_response (h : Printable config.pskHash) :
    extractStr (authResponsePayload config) (str "response") =
      if config.pskHash = [] then str "ok" else config.pskHash := by
  have hp : Printable (if config.pskHash = [] then str "ok" else config.pskHash) := by
    split
    · decide
    · exact h
  rw [authResponsePayload_eq, response_response]
  exact (readBack_eq_iff _).mpr hp.carried

end

end LanTalk.Chat
