/-
  LanTalk.Chat.Message — chat messages and their JSON text (`src/chat/message.cpp`).

  The decoder finds a member by searching for `"key":` and ends a string at the first
  quote whose previous byte is not a backslash. Positions in the text are modelled by
  what follows them: `after?` is the search together with the move past the match, and
  `upToQuote` the loop over `end`, which carries the byte before it (there is one, the
  last byte of the match, so the loop's `end == 0` never holds).

  Proved:
  - `unescapeJson_escapeJson`, `escapeJson_undone`: unescaping undoes escaping, whatever follows.
  - `extractJsonString_member`: what the decoder reads from a member is the string put
    in, and a stray quote and separator when that string ends with a backslash: the
    closing quote then stands after one and is taken for an escaped one.
  - `fromJson_toJson`: so a message is read back as it was sent exactly when none of its
    four strings ends with a backslash.
  - `field_undisturbed`: what is read of a field depends on that field alone.
-/

import LanTalk.Lib.Quoted

namespace LanTalk.Chat

open LanTalk.Lib

structure ChatMessage where
  msgId : Bytes
  senderId : Bytes
  senderName : Bytes
  timestampUtc : Int64
  text : Bytes
  deriving DecidableEq, Repr

def newline : UInt8 := 10
def carriageReturn : UInt8 := 13
def tab : UInt8 := 9

/-- One byte of `escapeJson`. -/
def escapeByte (c : UInt8) : Bytes :=
  if c = quote then str "\\\""
  else if c = backslash then str "\\\\"
  else if c = newline then str "\\n"
  else if c = carriageReturn then str "\\r"
  else if c = tab then str "\\t"
  else [c]

def escapeJson (s : Bytes) : Bytes := s.flatMap escapeByte

/-- What an escape stands for, by the byte after the backslash. -/
def unescapeByte (c : UInt8) : UInt8 :=
  if c = quote then quote
  else if c = backslash then backslash
  else if c = 110 then newline
  else if c = 114 then carriageReturn
  else if c = 116 then tab
  else c

/-- A backslash at the end of the text stands for itself. -/
def unescapeJson : Bytes → Bytes
  | c :: d :: s => if c = backslash then unescapeByte d :: unescapeJson s else c :: unescapeJson (d :: s)
  | [c] => [c]
  | [] => []

def ChatMessage.toJson (m : ChatMessage) : Bytes :=
  str "\x7b" ++
    str "\"msgId\":\"" ++ escapeJson m.msgId ++ str "\"," ++
    str "\"senderId\":\"" ++ escapeJson m.senderId ++ str "\"," ++
    str "\"senderName\":\"" ++ escapeJson m.senderName ++ str "\"," ++
    str "\"timestampUtc\":" ++ intText m.timestampUtc.toInt ++ str "," ++
    str "\"text\":\"" ++ escapeJson m.text ++ str "\"" ++
    str "\x7d"

/-- The bytes up to the first quote that does not come right after a backslash, `prev`
    being the byte before them; all of them if there is none. -/
def upToQuote (prev : UInt8) : Bytes → Bytes
  | [] => []
  | c :: s => if c = quote ∧ prev ≠ backslash then [] else c :: upToQuote c s

def extractJsonString (json key : Bytes) : Bytes :=
  match after? (keyPattern key [quote]) json with
  | none => []
  | some rest => unescapeJson (upToQuote quote rest)

/-- `std::stoll`'s exceptions are caught: 0. -/
def extractJsonInt (json key : Bytes) : Int64 :=
  match after? (keyPattern key []) json with
  | none => 0
  | some rest => (stoll (rest.takeWhile fun c => isdigit c || c == minus)).getD 0

def ChatMessage.fromJson (json : Bytes) : Option ChatMessage :=
  let msg : ChatMessage :=
    { msgId := extractJsonString json (str "msgId")
      senderId := extractJsonString json (str "senderId")
      senderName := extractJsonString json (str "senderName")
      text := extractJsonString json (str "text")
      timestampUtc := extractJsonInt json (str "timestampUtc") }
  if msg.msgId = [] ∨ msg.senderId = [] then none else some msg

/-! ## Escaping -/

@[simp] theorem escapeJson_nil : escapeJson [] = [] := rfl

theorem escapeJson_cons (c : UInt8) (s : Bytes) : escapeJson (c :: s) = escapeByte c ++ escapeJson s := rfl

/-- The shape of an escape: the byte itself, or a backslash and the byte that stands for it. -/
theorem escapeByte_cases (c : UInt8) :
    (escapeByte c = [c] ∧ c ≠ quote ∧ c ≠ backslash) ∨ ∃ d, escapeByte c = [backslash, d] ∧ unescapeByte d = c ∧
      (d = backslash ↔ c = backslash) := by
  unfold escapeByte
  by_cases h1 : c = quote
  · subst h1; exact Or.inr ⟨quote, rfl, rfl, by decide⟩
  by_cases h2 : c = backslash
  · subst h2; exact Or.inr ⟨backslash, rfl, rfl, by decide⟩
  by_cases h3 : c = newline
  · subst h3; exact Or.inr ⟨110, rfl, rfl, by decide⟩
  by_cases h4 : c = carriageReturn
  · subst h4; exact Or.inr ⟨114, rfl, rfl, by decide⟩
  by_cases h5 : c = tab
  · subst h5; exact Or.inr ⟨116, rfl, rfl, by decide⟩
  · exact Or.inl ⟨by simp [h1, h2, h3, h4, h5], h1, h2⟩

theorem unescapeJson_plain {c : UInt8} (hc : c ≠ backslash) (s : Bytes) :
    unescapeJson (c :: s) = c :: unescapeJson s := by
  cases s with
  | nil => rfl
  | cons d s => simp only [unescapeJson, if_neg hc]

/-- Unescaping undoes escaping, and goes on with what follows. -/
theorem unescapeJson_escapeJson (s r : Bytes) : unescapeJson (escapeJson s ++ r) = s ++ unescapeJson r := by
  induction s with
  | nil => rfl
  | cons c s ih =>
    rw [escapeJson_cons, List.append_assoc]
    rcases escapeByte_cases c with ⟨h, -, hc⟩ | ⟨d, h, hd, -⟩
    · rw [h, List.singleton_append, unescapeJson_plain hc, ih, List.cons_append]
    · rw [h]
      simp only [List.cons_append, List.nil_append, unescapeJson, if_true, hd, ih]

/-- Every quote of an escaped string comes right after a backslash. -/
theorem guarded_escapeJson (p : UInt8) (s : Bytes) : Guarded p (escapeJson s) := by
  induction s generalizing p with
  | nil => trivial
  | cons c s ih =>
    rw [escapeJson_cons]
    rcases escapeByte_cases c with ⟨h, hq, -⟩ | ⟨d, h, -, -⟩
    · rw [h]; exact ⟨fun e => absurd e hq, ih c⟩
    · rw [h]; exact ⟨fun e => absurd e (by decide), fun _ => rfl, ih d⟩

/-- Escaping is undone wherever other text begins behind it, and leaves no quote without a
    backslash right before it. -/
theorem escapeJson_undone (s r : Bytes) :
    unescapeJson (escapeJson s ++ r) = s ++ unescapeJson r ∧ unescapeJson (escapeJson s) = s ∧
      ∀ i, (escapeJson s)[i]? = some quote → ∃ j, i = j + 1 ∧ (escapeJson s)[j]? = some backslash := by
  refine ⟨unescapeJson_escapeJson s r, ?_, fun i hi => ?_⟩
  · have halone := unescapeJson_escapeJson s []
    rwa [List.append_nil, unescapeJson, List.append_nil] at halone
  · have hbefore := (guarded_escapeJson quote s).before hi
    cases i with
    | zero => exact absurd (Option.some.inj hbefore) (by decide)
    | succ j => exact ⟨j, rfl, hbefore⟩

/-- An escaped string ends with a backslash just when the string does. -/
theorem escapeJson_getLastD {p : UInt8} (hp : p ≠ backslash) (s : Bytes) :
    (escapeJson s).getLastD p = backslash ↔ s.getLast? = some backslash := by
  induction s generalizing p with
  | nil => simpa using hp
  | cons c s ih =>
    rw [escapeJson_cons]
    have hcons : ∀ q, (escapeJson s).getLastD q = backslash ↔
        (if s = [] then q = backslash else s.getLast? = some backslash) := by
      intro q
      cases s with
      | nil => simp
      | cons c' s =>
        have hq : (escapeJson (c' :: s)).getLastD q = (escapeJson (c' :: s)).getLastD quote := by
          rcases escapeByte_cases c' with ⟨h, -, -⟩ | ⟨d, h, -, -⟩ <;>
            simp only [escapeJson_cons, h, List.cons_append, List.nil_append, List.getLastD_cons]
        rw [hq, if_neg (by simp)]
        exact ih (by decide)
    have hlast : (c :: s).getLast? = some backslash ↔
        if s = [] then c = backslash else s.getLast? = some backslash := by
      cases s with
      | nil => simp
      | cons c' s => rw [List.getLast?_cons_cons, if_neg (by simp)]
    rcases escapeByte_cases c with ⟨h, -, hb⟩ | ⟨d, h, -, hd⟩
    · rw [h, List.singleton_append, List.getLastD_cons, hcons, hlast]
    · simp only [h, List.cons_append, List.nil_append, List.getLastD_cons]
      rw [hcons, hlast, hd]

/-! ## Reading one member -/

theorem upToQuote_guarded {p : UInt8} {e : Bytes} (he : Guarded p e) (r : Bytes) :
    upToQuote p (e ++ r) = e ++ upToQuote (e.getLastD p) r := by
  induction e generalizing p with
  | nil => rfl
  | cons c e ih =>
    have hc : ¬ (c = quote ∧ p ≠ backslash) := fun h => h.2 (he.1 h.1)
    rw [List.cons_append, upToQuote, if_neg hc, ih he.2, List.getLastD_cons, List.cons_append]

/-- What the decoder adds to a string that ends with a backslash: the quote that should
    have ended it and the byte after that. -/
def stray (s : Bytes) (sep : UInt8) : Bytes := if s.getLast? = some backslash then [quote, sep] else []

theorem stray_eq_nil {s : Bytes} {sep : UInt8} : stray s sep = [] ↔ s.getLast? ≠ some backslash := by
  unfold stray; split <;> simp_all

/-- What the decoder reads of a string member: the string, and `stray`. The member is the
    text's last, or another quote follows the separator. -/
theorem read_escaped (s : Bytes) {sep : UInt8} (hs : sep ≠ quote) (hb : sep ≠ backslash) {r : Bytes}
    (hr : ∀ c ∈ r.head?, c = quote) :
    unescapeJson (upToQuote quote (escapeJson s ++ quote :: sep :: r)) = s ++ stray s sep := by
  rw [upToQuote_guarded (guarded_escapeJson quote s)]
  by_cases h : s.getLast? = some backslash
  · have hl := (escapeJson_getLastD (p := quote) (by decide) s).mpr h
    have htail : upToQuote backslash (quote :: sep :: r) = [quote, sep] := by
      have hnot : ¬ (quote = quote ∧ backslash ≠ backslash) := by simp
      have hnot' : ¬ (sep = quote ∧ quote ≠ backslash) := fun e => hs e.1
      rw [upToQuote, if_neg hnot, upToQuote, if_neg hnot']
      cases r with
      | nil => rfl
      | cons c r => rw [upToQuote, if_pos ⟨hr c (by simp), hb⟩]
    rw [hl, htail, unescapeJson_escapeJson, stray, if_pos h, unescapeJson_plain (by decide),
      unescapeJson_plain hb]
    rfl
  · have hl : (escapeJson s).getLastD quote ≠ backslash :=
      fun e => h ((escapeJson_getLastD (by decide) s).mp e)
    rw [upToQuote, if_pos ⟨rfl, hl⟩, unescapeJson_escapeJson, stray, if_neg h]
    rfl

/-- The decoder's search stops at `rest`, which begins with a member's string. -/
theorem extractJsonString_member {json key : Bytes} (s : Bytes) {sep : UInt8} (hs : sep ≠ quote)
    (hb : sep ≠ backslash) {r : Bytes} (hr : ∀ c ∈ r.head?, c = quote)
    (h : after? (keyPattern key [quote]) json = some (escapeJson s ++ quote :: sep :: r)) :
    extractJsonString json key = s ++ stray s sep := by
  simp only [extractJsonString, h, read_escaped s hs hb hr]

/-! ## Round trip -/

theorem keyPattern_append (k t r : Bytes) : keyPattern k t ++ r = keyPattern k (t ++ r) := by
  simp [keyPattern]

def openBrace : UInt8 := 123
def closeBrace : UInt8 := 125

section
variable (m : ChatMessage)

/-- The text from the member `text` on, as the search meets it. -/
def jsonFromText : Bytes := keyPattern (str "text") (quote :: (escapeJson m.text ++ [quote, closeBrace]))

def jsonFromTimestampUtc : Bytes :=
  keyPattern (str "timestampUtc") (intText m.timestampUtc.toInt ++ comma :: jsonFromText m)

def jsonFromSenderName : Bytes :=
  keyPattern (str "senderName") (quote :: (escapeJson m.senderName ++ quote :: comma :: jsonFromTimestampUtc m))

def jsonFromSenderId : Bytes :=
  keyPattern (str "senderId") (quote :: (escapeJson m.senderId ++ quote :: comma :: jsonFromSenderName m))

def jsonFromMsgId : Bytes :=
  keyPattern (str "msgId") (quote :: (escapeJson m.msgId ++ quote :: comma :: jsonFromSenderId m))

theorem toJson_members : m.toJson = openBrace :: jsonFromMsgId m := by
  have h1 : str "\"msgId\":\"" = keyPattern (str "msgId") [quote] := by decide
  have h2 : str "\"senderId\":\"" = keyPattern (str "senderId") [quote] := by decide
  have h3 : str "\"senderName\":\"" = keyPattern (str "senderName") [quote] := by decide
  have h4 : str "\"timestampUtc\":" = keyPattern (str "timestampUtc") [] := by decide
  have h5 : str "\"text\":\"" = keyPattern (str "text") [quote] := by decide
  have h6 : str "\"," = [quote, comma] := by decide
  have h7 : str "," = [comma] := by decide
  have h8 : str "\"" = [quote] := by decide
  have h9 : str "\x7b" = [openBrace] := by decide
  have h10 : str "\x7d" = [closeBrace] := by decide
  rw [ChatMessage.toJson, h1, h2, h3, h4, h5, h6, h7, h8, h9, h10]
  simp only [jsonFromMsgId, jsonFromSenderId, jsonFromSenderName, jsonFromTimestampUtc, jsonFromText,
    List.append_assoc, List.cons_append, List.nil_append, keyPattern_append]

end

theorem intText_noquote (i : Int) : ∀ b ∈ intText i, b ≠ quote := by
  have hn : ∀ n : Nat, ∀ b ∈ natText n, b ≠ quote := by
    intro n b hb e
    have := natText_digits n b hb
    rw [e] at this
    revert this; decide
  intro b hb
  unfold intText at hb
  split at hb
  · rcases List.mem_cons.mp hb with rfl | hb
    · decide
    · exact hn _ b hb
  · exact hn _ b hb

theorem takeWhile_intText {r : Bytes} (i : Int64) (hr : ∀ c ∈ r.head?, isdigit c = false ∧ c ≠ minus) :
    (intText i.toInt ++ r).takeWhile (fun c => isdigit c || c == minus) = intText i.toInt := by
  have hn : ∀ b ∈ intText i.toInt, (isdigit b || b == minus) = true := by
    intro b hb
    unfold intText at hb
    split at hb
    · rcases List.mem_cons.mp hb with rfl | hb
      · decide
      · simp [natText_digits _ b hb]
    · simp [natText_digits _ b hb]
  rw [List.takeWhile_append_of_pos hn]
  cases r with
  | nil => simp
  | cons c r =>
    obtain ⟨h1, h2⟩ := hr c (by simp)
    simp [h1, h2]

/-- What the decoder makes of a sent message. -/
def ChatMessage.mangled (m : ChatMessage) : ChatMessage :=
  { msgId := m.msgId ++ stray m.msgId comma
    senderId := m.senderId ++ stray m.senderId comma
    senderName := m.senderName ++ stray m.senderName comma
    timestampUtc := m.timestampUtc
    text := m.text ++ stray m.text closeBrace }

section
variable (m : ChatMessage)

theorem keyPattern_head (k t : Bytes) : ∀ c ∈ (keyPattern k t).head?, c = quote := by
  simp [keyPattern]

/-- A search passes over a whole string member of another name, and the byte before it. -/
theorem after?_member {k k' : Bytes} (tail : Bytes) (hk : Word k) (hk' : Word k') (hne : k ≠ k') {b : UInt8}
    (hb : b ≠ quote) (s r : Bytes) :
    after? (keyPattern k tail) (b :: keyPattern k' (quote :: (escapeJson s ++ quote :: comma :: r))) =
      after? (keyPattern k tail) (comma :: r) := by
  rw [after?_sep _ hb, after?_text_ne _ hk hk' hne (by decide) (by decide) (guarded_escapeJson _ s)]

theorem after?_msgId : after? (keyPattern (str "msgId") [quote]) m.toJson =
    some (escapeJson m.msgId ++ quote :: comma :: jsonFromSenderId m) := by
  rw [toJson_members, after?_sep _ (by decide)]
  exact after?_key [quote] _

theorem after?_senderId : after? (keyPattern (str "senderId") [quote]) m.toJson =
    some (escapeJson m.senderId ++ quote :: comma :: jsonFromSenderName m) := by
  rw [toJson_members, jsonFromMsgId, after?_member _ (by decide) (by decide) (by decide) (by decide),
    after?_sep _ (by decide)]
  exact after?_key [quote] _

theorem after?_senderName : after? (keyPattern (str "senderName") [quote]) m.toJson =
    some (escapeJson m.senderName ++ quote :: comma :: jsonFromTimestampUtc m) := by
  rw [toJson_members, jsonFromMsgId, after?_member _ (by decide) (by decide) (by decide) (by decide),
    jsonFromSenderId, after?_member _ (by decide) (by decide) (by decide) (by decide), after?_sep _ (by decide)]
  exact after?_key [quote] _

/-- What the searches for the last two members come to. -/
theorem after?_fromTimestampUtc {k : Bytes} (tail : Bytes) (hk : Word k) (h1 : k ≠ str "msgId")
    (h2 : k ≠ str "senderId") (h3 : k ≠ str "senderName") :
    after? (keyPattern k tail) m.toJson = after? (keyPattern k tail) (jsonFromTimestampUtc m) := by
  rw [toJson_members, jsonFromMsgId, after?_member _ hk (by decide) h1 (by decide), jsonFromSenderId,
    after?_member _ hk (by decide) h2 (by decide), jsonFromSenderName,
      after?_member _ hk (by decide) h3 (by decide),
    after?_sep _ (by decide)]

theorem after?_timestampUtc : after? (keyPattern (str "timestampUtc") []) m.toJson =
    some (intText m.timestampUtc.toInt ++ comma :: jsonFromText m) := by
  rw [after?_fromTimestampUtc m _ (by decide) (by decide) (by decide) (by decide)]
  exact after?_key [] _

theorem after?_text :
    after? (keyPattern (str "text") [quote]) m.toJson = some (escapeJson m.text ++ [quote, closeBrace]) := by
  rw [after?_fromTimestampUtc m _ (by decide) (by decide) (by decide) (by decide), jsonFromTimestampUtc,
    after?_bare_ne _ (by decide) (by decide) (by decide) (intText_noquote _), after?_sep _ (by decide)]
  exact after?_key [quote] _

theorem extract_timestampUtc : extractJsonInt m.toJson (str "timestampUtc") = m.timestampUtc := by
  have hst := stoll_intText m.timestampUtc (r := []) (by simp)
  rw [List.append_nil] at hst
  simp only [extractJsonInt, after?_timestampUtc]
  rw [takeWhile_intText _ (by simp [comma, minus, isdigit]), hst]
  rfl

theorem append_stray_eq_nil (s : Bytes) (sep : UInt8) : s ++ stray s sep = [] ↔ s = [] := by
  constructor
  · exact fun h => (List.append_eq_nil_iff.mp h).1
  · rintro rfl; exact (List.nil_append _).trans (stray_eq_nil.mpr (by simp))

/-- The decoder on a sent message, whatever its fields hold. -/
theorem fromJson_toJson_mangled :
    ChatMessage.fromJson m.toJson = if m.msgId = [] ∨ m.senderId = [] then none else some m.mangled := by
  have e1 := extractJsonString_member m.msgId (by decide) (by decide) (keyPattern_head _ _) (after?_msgId m)
  have e2 := extractJsonString_member m.senderId (by decide) (by decide) (keyPattern_head _ _)
    (after?_senderId m)
  have e3 := extractJsonString_member m.senderName (by decide) (by decide) (keyPattern_head _ _)
    (after?_senderName m)
  have e4 := extractJsonString_member m.text (by decide) (by decide) (by simp) (after?_text m)
  simp only [ChatMessage.fromJson, e1, e2, e3, e4, extract_timestampUtc, append_stray_eq_nil]
  rfl

/-- What the decoder gives back, if the message names its id and its sender. -/
theorem fromJson_toJson_some (h1 : m.msgId ≠ []) (h2 : m.senderId ≠ []) :
    ChatMessage.fromJson m.toJson = some m.mangled := by
  rw [fromJson_toJson_mangled, if_neg (by simp [h1, h2])]

/-- No string of the message ends with a backslash. -/
def ChatMessage.NoTrailingBackslash : Prop :=
  ∀ s ∈ [m.msgId, m.senderId, m.senderName, m.text], s.getLast? ≠ some backslash

theorem mangled_eq_iff : m.mangled = m ↔ m.NoTrailingBackslash := by
  obtain ⟨msgId, senderId, senderName, timestampUtc, text⟩ := m
  simp only [ChatMessage.mangled, ChatMessage.mk.injEq, List.append_right_eq_self, stray_eq_nil, true_and,
    ChatMessage.NoTrailingBackslash, List.forall_mem_cons, List.not_mem_nil, false_implies, implies_true,
      and_true]

/-- A message that names its id and its sender is read back as it was sent if and only
    if none of its strings ends with a backslash. -/
theorem fromJson_toJson (h1 : m.msgId ≠ []) (h2 : m.senderId ≠ []) :
    ChatMessage.fromJson m.toJson = some m ↔ m.NoTrailingBackslash := by
  rw [fromJson_toJson_some m h1 h2, Option.some.injEq, mangled_eq_iff]

end

/-- A text that holds the next member's name, and one byte past the ASCII range. -/
theorem fromJson_toJson_keyLike :
    let m : ChatMessage := ⟨str "1", str "a", str "\"text\":\"", -3, [200, 34]⟩
    m.msgId ≠ [] ∧ m.senderId ≠ [] ∧ (ChatMessage.fromJson m.toJson = some m ↔ m.NoTrailingBackslash) :=
  ⟨by decide, by decide, fromJson_toJson _ (by decide) (by decide)⟩

/-- A sent text that ends with a backslash comes out with the quote and the brace that
    should have ended it. -/
theorem trailing_backslash_is_mangled :
    let m : ChatMessage := ⟨str "1", str "a", str "A", 0, str "C:\\"⟩
    m.msgId ≠ [] ∧ m.senderId ≠ [] ∧ ChatMessage.fromJson m.toJson ≠ some m := by
  decide

/-! ## One field apart from the others -/

/-- Two messages that agree on a field are read back with the same value of it, whatever
    the other fields hold. -/
theorem field_undisturbed (m m' : ChatMessage) (h1 : m.msgId ≠ []) (h2 : m.senderId ≠ []) (h1' : m'.msgId ≠ [])
    (h2' : m'.senderId ≠ []) :
    ∃ r r', ChatMessage.fromJson m.toJson = some r ∧ ChatMessage.fromJson m'.toJson = some r' ∧
      (m.msgId = m'.msgId → r.msgId = r'.msgId) ∧
      (m.senderId = m'.senderId → r.senderId = r'.senderId) ∧
      (m.senderName = m'.senderName → r.senderName = r'.senderName) ∧
      (m.timestampUtc = m'.timestampUtc → r.timestampUtc = r'.timestampUtc) ∧
      (m.text = m'.text → r.text = r'.text) := by
  -- each field of `mangled` is computed from that field alone
  have hown : ∀ {s s' : Bytes} (sep : UInt8), s = s' → s ++ stray s sep = s' ++ stray s' sep := by
    intro s s' sep h
    rw [h]
  exact ⟨m.mangled, m'.mangled, fromJson_toJson_some m h1 h2, fromJson_toJson_some m' h1' h2', hown comma, hown comma,
    hown comma, id, hown closeBrace⟩

/-- A sender name that holds the name of the next member and ends with a backslash leaves
    the text alone. -/
theorem field_undisturbed_keyLike :
    let m : ChatMessage := ⟨str "1", str "a", str "\"timestampUtc\":7,\"text\":\"\\", 0, str "hi"⟩
    let m' : ChatMessage := ⟨str "2", str "b", str "B", 5, str "hi"⟩
    ∃ r r', ChatMessage.fromJson m.toJson = some r ∧ ChatMessage.fromJson m'.toJson = some r' ∧ r.text = r'.text := by
  intro m m'
  obtain ⟨r, r', hr, hr', -, -, -, -, htext⟩ := field_undisturbed m m' (by decide) (by decide) (by decide) (by decide)
  exact ⟨r, r', hr, hr', htext rfl⟩

end LanTalk.Chat
