/-
  LanTalk.Security.Authentication — the `Authenticator`'s payloads and how it reads and
  verifies them (`src/security/authentication.cpp`, `secureCompare` of
  `src/security/crypto.cpp`).

  It has a builder and a reader of its own. `buildJson` escapes nothing; the reader takes
  the byte after a backslash as it is. What goes into the payloads needs no escaping, but
  for the responder's device id, which comes last. HMAC-SHA256 is OpenSSL's: here any
  function from a key and a message to hex digits (`Hmac`).

  Proved: `verifyResponse_iff`, a response verifies just if the verifier has no key, or
  both sides have one and their tags of the challenge are the same.
-/

import LanTalk.Lib.Quoted
import LanTalk.Config.AppConfig

namespace LanTalk.Security

open LanTalk.Lib LanTalk.Config

/-- What `bytesToHex` writes. -/
def isHexByte (b : UInt8) : Bool :=
  (decide (48 ≤ b.toNat) && decide (b.toNat ≤ 57)) || (decide (97 ≤ b.toNat) && decide (b.toNat ≤ 102))

/-- What `base64Encode` writes. -/
def isBase64Byte (b : UInt8) : Bool :=
  (decide (65 ≤ b.toNat) && decide (b.toNat ≤ 90)) || (decide (97 ≤ b.toNat) && decide (b.toNat ≤ 122)) ||
    (decide (48 ≤ b.toNat) && decide (b.toNat ≤ 57)) || b == 43 || b == 47 || b == 61

/-- `hmacSha256(key, message)`. -/
structure Hmac where
  tag : Bytes → Bytes → Bytes
  nonempty : ∀ key message, tag key message ≠ []
  hex : ∀ key message, ∀ b ∈ tag key message, isHexByte b = true

/-- `"key":"val"`. -/
def buildMember (key val : Bytes) : Bytes := str "\"" ++ key ++ str "\":\"" ++ val ++ str "\""

/-- A member without a key is left out; the arguments are empty where the source leaves them out. -/
def buildJson (key1 val1 key2 val2 key3 val3 : Bytes) : Bytes :=
  let j := str "\x7b" ++ buildMember key1 val1
  let j := if key2 = [] then j else j ++ str "," ++ buildMember key2 val2
  let j := if key3 = [] then j else j ++ str "," ++ buildMember key3 val3
  j ++ str "\x7d"

/-- `extractStr`'s loop, from past the match on. -/
def readRaw : Bytes → Bytes
  | c :: d :: s =>
    if c = quote then []
    else if c = backslash then d :: readRaw s
    else c :: readRaw (d :: s)
  | [c] => if c = quote then [] else [c]
  | [] => []

def extractStr (json key : Bytes) : Bytes :=
  match after? (keyPattern key [quote]) json with
  | none => []
  | some rest => readRaw rest

def secureCompare (a b : Bytes) : Bool :=
  if a.length ≠ b.length then false else (a.zip b).all fun p => p.1 == p.2

section
variable (hmac : Hmac) (config : AppConfig)

def computeExpectedResponse (challenge : Bytes) : Bytes :=
  if config.pskHash = [] then [] else hmac.tag config.pskHash challenge

/-- What `sendChallenge` sends for a challenge. -/
def challengePayload (challenge : Bytes) : Bytes := buildJson (str "challenge") challenge [] [] [] []

def verifyResponse (challenge responsePayload : Bytes) : Bool :=
  if config.pskHash = [] then true
  else
    let response := extractStr responsePayload (str "response")
    if response = [] then false else secureCompare response (computeExpectedResponse hmac config challenge)

def buildResponse (payload : Bytes) : Bytes :=
  let challenge := extractStr payload (str "challenge")
  if challenge = [] then []
  else
    let response := computeExpectedResponse hmac config challenge
    buildJson (str "response") response (str "device_id") config.deviceId [] []

end

/-! ## Reading what was built -/

theorem secureCompare_iff (a b : Bytes) : secureCompare a b = true ↔ a = b := by
  have hzip : ∀ a b : Bytes, a.length = b.length → ((a.zip b).all (fun p => p.1 == p.2) = true ↔ a = b) := by
    intro a
    induction a with
    | nil =>
      intro b h
      rw [List.length_eq_zero_iff.mp h.symm]
      simp
    | cons x a ih =>
      intro b h
      cases b with
      | nil => cases h
      | cons y b =>
        rw [List.zip_cons_cons, List.all_cons, Bool.and_eq_true, beq_iff_eq, ih b (Nat.succ.inj h), List.cons.injEq]
  unfold secureCompare
  split
  · rename_i h
    exact iff_of_false (by simp) fun e => h (congrArg List.length e)
  · rename_i h
    exact hzip a b (not_not.mp h)

/-- Text with neither a quote nor a backslash is read as it stands. -/
theorem readRaw_plain {l : Bytes} (hl : ∀ b ∈ l, b ≠ quote ∧ b ≠ backslash) (r : Bytes) :
    readRaw (l ++ r) = l ++ readRaw r := by
  induction l with
  | nil => rfl
  | cons c l ih =>
    obtain ⟨hq, hb⟩ := hl c List.mem_cons_self
    have ih := ih fun b h => hl b (List.mem_cons_of_mem _ h)
    rw [List.cons_append, List.cons_append, ← ih]
    cases l ++ r with
    | nil => rw [readRaw, if_neg hq]; rfl
    | cons d s => rw [readRaw, if_neg hq, if_neg hb]

theorem readRaw_quote (r : Bytes) : readRaw (quote :: r) = [] := by
  cases r <;> rfl

/-- A payload's first member is read as it was put in, if it needs no escaping. -/
theorem extractStr_first {key val : Bytes} (hv : ∀ b ∈ val, b ≠ quote ∧ b ≠ backslash) (rest : Bytes) :
    extractStr (str "\x7b" ++ buildMember key val ++ rest) key = val := by
  have h1 : str "\x7b" = [123] := by decide
  have h2 : str "\"" = [quote] := by decide
  have h3 : str "\":\"" = [quote, colon, quote] := by decide
  have hpay : str "\x7b" ++ buildMember key val ++ rest =
      123 :: keyPattern key ([quote] ++ (val ++ quote :: rest)) := by
    rw [h1, buildMember, h2, h3, keyPattern]
    simp
  have ha : after? (keyPattern key [quote]) ((123 : UInt8) :: keyPattern key ([quote] ++ (val ++ quote :: rest))) =
      some (val ++ quote :: rest) := by
    rw [after?_sep _ (by decide), after?_key]
  rw [hpay, extractStr, ha]
  simp only [readRaw_plain hv, readRaw_quote, List.append_nil]

/-- Hex digits and the base64 alphabet need no escaping. -/
theorem hex_plain {s : Bytes} (h : ∀ b ∈ s, isHexByte b = true) : ∀ b ∈ s, b ≠ quote ∧ b ≠ backslash := by
  intro b hb
  have hx := h b hb
  refine ⟨?_, ?_⟩
  all_goals
    intro he
    rw [he] at hx
    revert hx
    decide

theorem base64_plain {s : Bytes} (h : ∀ b ∈ s, isBase64Byte b = true) : ∀ b ∈ s, b ≠ quote ∧ b ≠ backslash := by
  intro b hb
  have hx := h b hb
  refine ⟨?_, ?_⟩
  all_goals
    intro he
    rw [he] at hx
    revert hx
    decide

section
variable (hmac : Hmac) (config : AppConfig)

theorem computeExpectedResponse_plain (challenge : Bytes) :
    ∀ b ∈ computeExpectedResponse hmac config challenge, b ≠ quote ∧ b ≠ backslash := by
  unfold computeExpectedResponse
  split
  · simp
  · exact hex_plain (hmac.hex _ _)

/-- The responder reads the challenge that was sent. -/
theorem buildResponse_challenge {challenge : Bytes} (hc : challenge ≠ [])
    (hb : ∀ b ∈ challenge, isBase64Byte b = true) :
    buildResponse hmac config (challengePayload challenge) =
      buildJson (str "response") (computeExpectedResponse hmac config challenge) (str "device_id") config.deviceId
        [] [] := by
  have hread : extractStr (challengePayload challenge) (str "challenge") = challenge :=
    extractStr_first (base64_plain hb) _
  rw [buildResponse, hread, if_neg hc]

/-- The verifier reads the response that was built, whatever the device id behind it holds. -/
theorem response_extract (challenge : Bytes) :
    extractStr (buildJson (str "response") (computeExpectedResponse hmac config challenge) (str "device_id")
      config.deviceId [] []) (str "response") = computeExpectedResponse hmac config challenge := by
  have hkey : str "device_id" ≠ [] := by decide
  rw [buildJson, if_neg hkey, if_pos rfl, List.append_assoc, List.append_assoc]
  exact extractStr_first (computeExpectedResponse_plain hmac config challenge) _

end

/-- A response to a challenge verifies just if the verifier has no key, or both sides have
    one and their tags of the challenge agree. -/
theorem verifyResponse_iff (hmac : Hmac) (verifier responder : AppConfig) {challenge : Bytes} (hc : challenge ≠ [])
    (hb : ∀ b ∈ challenge, isBase64Byte b = true) :
    verifyResponse hmac verifier challenge (buildResponse hmac responder (challengePayload challenge)) = true ↔
      verifier.pskHash = [] ∨ (verifier.pskHash ≠ [] ∧ responder.pskHash ≠ [] ∧
        hmac.tag verifier.pskHash challenge = hmac.tag responder.pskHash challenge) := by
  rw [buildResponse_challenge hmac responder hc hb, verifyResponse, response_extract]
  by_cases hv : verifier.pskHash = []
  · simp [hv]
  · rw [if_neg hv]
    by_cases hr : responder.pskHash = []
    · -- a responder without a key answers with an empty response
      have hnone : computeExpectedResponse hmac responder challenge = [] := by rw [computeExpectedResponse, if_pos hr]
      rw [hnone, if_pos rfl]
      simp [hv, hr]
    · have htag : computeExpectedResponse hmac responder challenge = hmac.tag responder.pskHash challenge := by
        rw [computeExpectedResponse, if_neg hr]
      rw [htag, if_neg (hmac.nonempty _ _), secureCompare_iff, computeExpectedResponse, if_neg hv]
      constructor
      · exact fun h => Or.inr ⟨hv, hr, h.symm⟩
      · intro h
        rcases h with h | ⟨-, -, h⟩
        · exact absurd h hv
        · exact h.symm

/-- The tag that HMAC-SHA256 has for the key `k` and the message `YQ==`, here for all. -/
def fixedHmac : Hmac where
  tag _ _ := str "8b3852f27069e3d59723fbb0808a29efc1b4ec7c41310ed6a8c2f11aad315c2b"
  nonempty _ _ := by decide
  hex _ _ := List.all_eq_true.mp (by decide +kernel)

/-- Two sides with the key `k`; the responder's device id claims another response. -/
theorem shared_key_verifies :
    let verifier : AppConfig := { pskHash := str "k" }
    let responder : AppConfig := { pskHash := str "k", deviceId := str "\",\"response\":\"forged" }
    verifyResponse fixedHmac verifier (str "YQ==")
      (buildResponse fixedHmac responder (challengePayload (str "YQ=="))) = true :=
  (verifyResponse_iff fixedHmac { pskHash := str "k" }
    { pskHash := str "k", deviceId := str "\",\"response\":\"forged" } (by decide +kernel) (by decide +kernel)).mpr
    (Or.inr ⟨by decide +kernel, by decide +kernel, rfl⟩)

end LanTalk.Security
