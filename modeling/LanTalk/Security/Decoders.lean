/-
  LanTalk.Security.Decoders — the two readers of a handshake payload: the session's
  (`extractStr` of `src/chat/chat_session.cpp`) and the authenticator's (`extractStr` of
  `src/security/authentication.cpp`), on payloads that the session builds.

  They search alike. Of a value the session reads the escapes `\n`, `\r` and `\t` back; the
  authenticator takes the letter. Neither reads `\u00xy` back, and both take its `u`.

  Proved: `decoders_agree_iff`, they read the same under every key of a payload just if the
  value read under none of them has a newline, a return or a tab (`newline_disagrees`).
-/

import LanTalk.Security.Authentication
import LanTalk.Chat.Payload

namespace LanTalk.Security

open LanTalk.Lib LanTalk.Config LanTalk.Chat

/-- A member's value: one that `jsonStr` writes, or a number. -/
inductive Value where
  | text (value : Bytes)
  | number (n : Nat)
  deriving DecidableEq

def memberText (key : Bytes) : Value → Bytes
  | .text value => jsonStr key value
  | .number n => str "\"" ++ key ++ str "\":" ++ natText n

/-- What follows the first member. -/
def restText : List (Bytes × Value) → Bytes
  | [] => str "\x7d"
  | m :: ms => str "," ++ memberText m.1 m.2 ++ restText ms

structure HandshakePayload where
  members : List (Bytes × Value)
  words : ∀ m ∈ members, Word m.1

namespace HandshakePayload

def text (p : HandshakePayload) : Bytes :=
  match p.members with
  | [] => str "\x7b\x7d"
  | m :: ms => str "\x7b" ++ memberText m.1 m.2 ++ restText ms

def keys (p : HandshakePayload) : List Bytes := p.members.map Prod.fst

end HandshakePayload

/-- The value of the first text member with this key. -/
def firstText (key : Bytes) : List (Bytes × Value) → Option Bytes
  | [] => none
  | (k, .text value) :: ms => if k = key then some value else firstText key ms
  | (_, .number _) :: ms => firstText key ms

/-- The bytes that only the session reads back. -/
def Lettered (b : UInt8) : Prop := b = newline ∨ b = carriageReturn ∨ b = tab

instance (b : UInt8) : Decidable (Lettered b) :=
  inferInstanceAs (Decidable (b = newline ∨ b = carriageReturn ∨ b = tab))

/-- What the authenticator reads of an escaped byte. -/
def rawBackByte (c : UInt8) : Bytes :=
  if c = newline then str "n"
  else if c = carriageReturn then str "r"
  else if c = tab then str "t"
  else readBackByte c

def rawBack (s : Bytes) : Bytes := s.flatMap rawBackByte

/-! ## Reading a value -/

theorem rawBack_cons (c : UInt8) (s : Bytes) : rawBack (c :: s) = rawBackByte c ++ rawBack s := rfl

theorem readRaw_escape (d : UInt8) (r : Bytes) : readRaw (backslash :: d :: r) = d :: readRaw r := by
  rw [readRaw, if_neg (by decide), if_pos rfl]

theorem rawBackByte_of_not {c : UInt8} (h : ¬ Lettered c) : rawBackByte c = readBackByte c := by
  unfold Lettered at h
  simp only [not_or] at h
  rw [rawBackByte, if_neg h.1, if_neg h.2.1, if_neg h.2.2]

/-- The letters that the session reads back stand for the three; any other byte for itself. -/
theorem unescapeByte_cases (d : UInt8) : unescapeByte d = d ∨ Lettered (unescapeByte d) := by
  unfold unescapeByte
  split_ifs with h1 h2 h3 h4 h5
  · exact Or.inl h1.symm
  · exact Or.inl h2.symm
  · exact Or.inr (by decide)
  · exact Or.inr (by decide)
  · exact Or.inr (by decide)
  · exact Or.inl rfl

theorem readRaw_jsonEscapeByte (c : UInt8) (r : Bytes) :
    readRaw (jsonEscapeByte c ++ r) = rawBackByte c ++ readRaw r := by
  by_cases hl : Lettered c
  · rcases hl with rfl | rfl | rfl
    all_goals exact readRaw_escape _ r
  · rw [rawBackByte_of_not hl]
    rcases jsonEscapeByte_cases c with ⟨h, hq, hb, hc⟩ | ⟨d, h, hd, hc⟩ | ⟨h, hc⟩
    · rw [h, readRaw_plain (by simpa using ⟨hq, hb⟩), readBackByte, if_pos hc]
    · -- the letter stands for itself, or the byte would be one of the three
      have hdc : d = c := by
        rcases unescapeByte_cases d with hself | hletter
        · rw [← hd, hself]
        · exact absurd (hd ▸ hletter) hl
      rw [h, List.cons_append, List.singleton_append, readRaw_escape, readBackByte, if_pos hc, hdc]
      rfl
    · have hp := readBackByte_plain hc
      have hu : readBackByte c = 117 :: (str "00" ++ [hexDigit (c.toNat / 16), hexDigit (c.toNat % 16)]) := by
        rw [readBackByte, if_neg hc]
        rfl
      rw [hu] at hp
      rw [h, hu, List.cons_append, List.cons_append, readRaw_escape,
        readRaw_plain (fun b hb => hp b (List.mem_cons_of_mem _ hb))]
      rfl

theorem readRaw_jsonEscape (s r : Bytes) : readRaw (jsonEscape s ++ quote :: r) = rawBack s := by
  induction s with
  | nil => exact readRaw_quote r
  | cons c s ih => rw [jsonEscape_cons, rawBack_cons, List.append_assoc, readRaw_jsonEscapeByte, ih]

theorem rawBackByte_eq_iff (c : UInt8) :
    (rawBackByte c).length = (readBackByte c).length ∧ (rawBackByte c = readBackByte c ↔ ¬ Lettered c) := by
  by_cases h : Lettered c
  · rcases h with rfl | rfl | rfl
    all_goals exact ⟨by decide, iff_of_false (by decide) (by decide)⟩
  · rw [rawBackByte_of_not h]
    exact ⟨rfl, iff_of_true rfl h⟩

/-- Both read the same of an escaped value just if it has no newline, return or tab. -/
theorem rawBack_eq_iff (s : Bytes) : rawBack s = readBack s ↔ ∀ b ∈ s, ¬ Lettered b := by
  induction s with
  | nil => simp [rawBack, readBack]
  | cons c s ih =>
    obtain ⟨hlen, hc⟩ := rawBackByte_eq_iff c
    rw [rawBack_cons, readBack_cons, List.forall_mem_cons, ← hc, ← ih]
    constructor
    · exact fun h => List.append_inj h hlen
    · intro h
      rw [h.1, h.2]

/-! ## Finding it -/

theorem restText_head (ms : List (Bytes × Value)) :
    ∃ sep r, restText ms = sep :: r ∧ sep ≠ quote ∧ sep ≠ colon ∧ isWordByte sep = false := by
  cases ms with
  | nil => exact ⟨125, [], by decide, by decide, by decide, by decide⟩
  | cons m ms =>
    have h : str "," = [comma] := by decide
    refine ⟨comma, memberText m.1 m.2 ++ restText ms, ?_, by decide, by decide, by decide⟩
    rw [restText, h, List.append_assoc]
    rfl

/-- A digit is no quote. -/
theorem natText_quote (n : Nat) : ∀ b ∈ natText n, b ≠ quote := by
  intro b hb he
  have hd := natText_digits n b hb
  rw [he] at hd
  revert hd
  decide

/-- The search passes over a member that is not the text it looks for, or stops at its text. -/
theorem after?_member {key k : Bytes} (hkey : Word key) (hk : Word k) {b : UInt8} (hb : b ≠ quote) (value : Value)
    (ms : List (Bytes × Value)) :
    after? (keyPattern key [quote]) (b :: (memberText k value ++ restText ms)) =
      match value with
      | .text v => if k = key then some (jsonEscape v ++ quote :: restText ms)
          else after? (keyPattern key [quote]) (restText ms)
      | .number _ => after? (keyPattern key [quote]) (restText ms) := by
  obtain ⟨sep, r, hrest, -, hcolon, hword⟩ := restText_head ms
  rw [after?_sep _ hb]
  cases value with
  | text v =>
    simp only [memberText]
    split
    · rename_i heq
      rw [jsonStr_append hk, heq]
      exact after?_key [quote] _
    · rename_i hne
      rw [jsonStr_append hk, hrest,
        after?_text_ne _ hkey hk (fun h => hne h.symm) hword hcolon (guarded_jsonEscape _ v)]
  | number n =>
    have h1 : str "\"" = [quote] := by decide
    have h2 : str "\":" = [quote, colon] := by decide
    have htext : memberText k (.number n) ++ restText ms = keyPattern k (natText n ++ restText ms) := by
      rw [memberText, h1, h2, keyPattern]
      simp
    simp only
    rw [htext]
    by_cases hne : key = k
    · subst hne
      rw [after?_name_of_not _ hkey hkey]
      · exact after?_skip (natText_quote n)
      intro hpre
      -- behind the colon a quote would have to be a digit
      obtain ⟨c, ds, hnat, -⟩ := natText_head n (restText ms)
      rw [keyPattern, keyPattern, List.cons_prefix_cons] at hpre
      have hpre := (List.prefix_append_right_inj key).mp hpre.2
      rw [hnat, List.cons_prefix_cons, List.cons_prefix_cons, List.cons_prefix_cons] at hpre
      obtain ⟨d, ds', hds⟩ := List.exists_cons_of_ne_nil (natText_ne_nil n)
      rw [hds, List.cons_append] at hnat
      cases hnat
      exact natText_quote n quote (by rw [hds, hpre.2.2.1]; exact List.mem_cons_self) rfl
    · exact after?_bare_ne _ hkey hk hne (natText_quote n) _

/-- The search finds the first text with its key. -/
theorem after?_restText {key : Bytes} (hkey : Word key) (ms : List (Bytes × Value)) (hms : ∀ m ∈ ms, Word m.1) :
    (firstText key ms = none → after? (keyPattern key [quote]) (restText ms) = none) ∧
    ∀ v, firstText key ms = some v →
      ∃ r, after? (keyPattern key [quote]) (restText ms) = some (jsonEscape v ++ quote :: r) := by
  induction ms with
  | nil =>
    have hnone : after? (keyPattern key [quote]) (restText []) = none := by
      have h : restText [] = [125] := by decide
      rw [h, after?_sep _ (by decide), after?, if_neg (by simp [keyPattern])]
    exact ⟨fun _ => hnone, fun v hv => by cases hv⟩
  | cons m ms ih =>
    obtain ⟨k, value⟩ := m
    have ih := ih fun x hx => hms x (List.mem_cons_of_mem _ hx)
    have h : str "," = [comma] := by decide
    rw [restText, h, List.append_assoc, List.singleton_append,
      after?_member hkey (hms _ List.mem_cons_self) (by decide)]
    cases value with
    | text v =>
      simp only [firstText]
      split
      · refine ⟨fun hn => (by cases hn), fun w hw => ?_⟩
        cases hw
        exact ⟨_, rfl⟩
      · exact ih
    | number n => exact ih

/-- Under a key of the payload each reads what it makes of the first text with that key. -/
theorem extractStr_text (p : HandshakePayload) {key : Bytes} (hkey : Word key) :
    Security.extractStr p.text key = ((firstText key p.members).map rawBack).getD [] ∧
      Chat.extractStr p.text key = ((firstText key p.members).map readBack).getD [] := by
  -- before the first member the brace is passed over, as a comma would be
  have hsearch : after? (keyPattern key [quote]) p.text = after? (keyPattern key [quote]) (restText p.members) := by
    have hbrace : str "\x7b" = [123] := by decide
    have hcomma : str "," = [comma] := by decide
    unfold HandshakePayload.text
    cases hm : p.members with
    | nil =>
      have h : str "\x7b\x7d" = 123 :: restText [] := by decide
      rw [h, after?_sep _ (by decide)]
    | cons m ms =>
      simp only [restText, hbrace, hcomma, List.cons_append]
      rw [after?_sep _ (by decide), after?_sep _ (by decide)]
  obtain ⟨hnone, hsome⟩ := after?_restText hkey p.members p.words
  rw [Security.extractStr, Chat.extractStr, hsearch]
  cases hf : firstText key p.members with
  | none =>
    rw [hnone hf]
    exact ⟨rfl, rfl⟩
  | some v =>
    obtain ⟨r, hr⟩ := hsome v hf
    rw [hr]
    exact ⟨readRaw_jsonEscape v r, readStr_jsonEscape v r⟩

theorem firstText_key {key v : Bytes} {ms : List (Bytes × Value)} (h : firstText key ms = some v) :
    key ∈ ms.map Prod.fst := by
  fun_induction firstText key ms with
  | case1 => cases h
  | case2 => exact List.mem_cons_self
  | case3 k value ms hk ih => exact List.mem_cons_of_mem _ (ih h)
  | case4 k n ms ih => exact List.mem_cons_of_mem _ (ih h)

/-- The two read the same under every key just if no value they read has a newline, a return
    or a tab. -/
theorem decoders_agree_iff (p : HandshakePayload) :
    (∀ key ∈ p.keys, Security.extractStr p.text key = Chat.extractStr p.text key) ↔
      ∀ key v, firstText key p.members = some v → ∀ b ∈ v, ¬ Lettered b := by
  have hone : ∀ key ∈ p.keys, (Security.extractStr p.text key = Chat.extractStr p.text key ↔
      ∀ v, firstText key p.members = some v → ∀ b ∈ v, ¬ Lettered b) := by
    intro key hmem
    obtain ⟨m, hm, rfl⟩ := List.mem_map.mp hmem
    obtain ⟨hauth, hchat⟩ := extractStr_text p (p.words m hm)
    rw [hauth, hchat]
    cases firstText m.1 p.members with
    | none => simp
    | some v => simpa using rawBack_eq_iff v
  constructor
  · exact fun h key v hv => (hone key (firstText_key hv)).mp (h key (firstText_key hv)) v hv
  · exact fun h key hmem => (hone key hmem).mpr fun v hv => h key v hv

/-! ## The handshake's payloads -/

/-- A HELLO, an AUTH_REQUEST and an AUTH_RESPONSE are such payloads. -/
theorem handshake_payloads (config : AppConfig) (challenge response : Bytes) :
    (∃ p : HandshakePayload, p.text = helloPayload config ∧ p.members =
      [(str "device_id", .text config.deviceId), (str "display_name", .text config.displayName),
        (str "platform", .text config.platform), (str "tcp_port", .number config.listenPort.toNat)]) ∧
    (∃ p : HandshakePayload, p.text = requestPayload challenge ∧ p.members = [(str "challenge", .text challenge)]) ∧
    (∃ p : HandshakePayload, p.text = responsePayload config response ∧ p.members =
      [(str "response", .text response), (str "device_id", .text config.deviceId)]) := by
  refine ⟨⟨⟨_, ?_⟩, ?_, rfl⟩, ⟨⟨_, ?_⟩, ?_, rfl⟩, ⟨⟨_, ?_⟩, ?_, rfl⟩⟩
  · simp only [List.forall_mem_cons]
    exact ⟨by decide, by decide, by decide, by decide, by simp⟩
  · have hport : str "\"" ++ str "tcp_port" ++ str "\":" = str "\"tcp_port\":" := by decide
    simp only [HandshakePayload.text, restText, memberText, helloPayload, List.append_assoc, ← hport]
  · simp only [List.forall_mem_cons]
    exact ⟨by decide, by simp⟩
  · simp only [HandshakePayload.text, restText, memberText, requestPayload, List.append_assoc]
  · simp only [List.forall_mem_cons]
    exact ⟨by decide, by decide, by simp⟩
  · simp only [HandshakePayload.text, restText, memberText, responsePayload, List.append_assoc]

/-- A challenge with a newline in it. -/
theorem newline_disagrees :
    let payload := requestPayload [97, newline, 98]
    Chat.extractStr payload (str "challenge") = [97, newline, 98] ∧
      Security.extractStr payload (str "challenge") = str "anb" ∧
      Security.extractStr payload (str "challenge") ≠ Chat.extractStr payload (str "challenge") := by
  decide +kernel

end LanTalk.Security
