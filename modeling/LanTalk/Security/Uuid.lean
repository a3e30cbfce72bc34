/-
  LanTalk.Security.Uuid — the three generators of version 4 UUIDs: `Crypto::generateUUID`
  (`src/security/crypto.cpp`), `Config::generateUUID` (`src/config/config.cpp`) and
  `ChatMessage::generateId` (`src/chat/message.cpp`).

  All three put version and variant into sixteen random bytes and write these in hex; they
  differ in how the dashes come between them, and in what they do when there are no random
  bytes: the first throws (`none`), the second answers a fixed id, the third an empty one.

  Proved:
  - `uuid_generators_agree`: on their success paths they are one function, which forgets
    the six bits it overwrites and no other.
-/

import LanTalk.Config.ConfigFile
import LanTalk.Chat.Message

namespace LanTalk

open LanTalk.Lib

/-- The bytes are written by their number. -/
instance Security.sixteen_ne : NeZero 16 := ⟨by decide⟩

/-- A dash before bytes 4, 6, 8 and 10. -/
def Security.Crypto.generateUUID (random : Option (Fin 16 → UInt8)) : Option Bytes :=
  random.map fun bytes => (List.finRange 16).flatMap fun i =>
    (if i = 4 ∨ i = 6 ∨ i = 8 ∨ i = 10 then str "-" else []) ++ Config.hexByte (Config.uuidByte bytes i)

/-- `snprintf` into a buffer of 37 bytes, by the format
    `%02x%02x%02x%02x-%02x%02x-%02x%02x-%02x%02x-%02x%02x%02x%02x%02x%02x`. -/
def Chat.ChatMessage.generateId : Option (Fin 16 → UInt8) → Bytes
  | none => []
  | some bytes =>
    let hex i := Config.hexByte (Config.uuidByte bytes i)
    (hex 0 ++ hex 1 ++ hex 2 ++ hex 3 ++ str "-" ++ hex 4 ++ hex 5 ++ str "-" ++ hex 6 ++ hex 7 ++ str "-" ++
      hex 8 ++ hex 9 ++ str "-" ++ hex 10 ++ hex 11 ++ hex 12 ++ hex 13 ++ hex 14 ++ hex 15).take 36

namespace Security

open Config Chat

/-! ## The places of a UUID -/

def dash : UInt8 := 45

/-- What stands at a place: a dash, or the high or the low digit of a byte. -/
inductive Place where
  | dash
  | high (i : Fin 16)
  | low (i : Fin 16)
  deriving DecidableEq

def nibbleText (n : Nat) : UInt8 := UInt8.ofNat (Nat.digitChar n).toNat

def Place.text (bytes : Fin 16 → UInt8) : Place → UInt8
  | .dash => Security.dash
  | .high i => nibbleText ((uuidByte bytes i).toNat / 16)
  | .low i => nibbleText ((uuidByte bytes i).toNat % 16)

def places : List Place :=
  [.high 0, .low 0, .high 1, .low 1, .high 2, .low 2, .high 3, .low 3, .dash,
    .high 4, .low 4, .high 5, .low 5, .dash, .high 6, .low 6, .high 7, .low 7, .dash,
    .high 8, .low 8, .high 9, .low 9, .dash,
    .high 10, .low 10, .high 11, .low 11, .high 12, .low 12, .high 13, .low 13, .high 14, .low 14, .high 15, .low 15]

theorem hexByte_digits (b : UInt8) : hexByte b = [nibbleText (b.toNat / 16), nibbleText (b.toNat % 16)] := rfl

section
variable (bytes : Fin 16 → UInt8)

theorem config_places : Config.generateUUID (some bytes) = places.map (Place.text bytes) := rfl

theorem crypto_places : Crypto.generateUUID (some bytes) = some (places.map (Place.text bytes)) := rfl

theorem message_places : ChatMessage.generateId (some bytes) = places.map (Place.text bytes) := by
  have hdash : str "-" = [dash] := rfl
  simp only [ChatMessage.generateId, hexByte_digits, hdash, List.cons_append, List.nil_append]
  rfl

end

/-! ## What stands there -/

/-- `0` to `9` and `a` to `f`. -/
def lowerHex (b : UInt8) : Bool := isdigit b || (decide (97 ≤ b.toNat) && decide (b.toNat ≤ 102))

theorem nibbleText_spec : ∀ n < 16, lowerHex (nibbleText n) = true ∧ nibbleText n ≠ dash ∧
    ∀ m < 16, nibbleText m = nibbleText n → m = n := by
  decide +kernel

/-- The byte a digit is of, and the half of it. -/
theorem Place.text_digit (bytes : Fin 16 → UInt8) {p : Place} (hp : p ≠ .dash) :
    ∃ n < 16, p.text bytes = nibbleText n := by
  cases p with
  | dash => exact absurd rfl hp
  | high i => exact ⟨_, Nat.div_lt_of_lt_mul (uuidByte bytes i).toNat_lt, rfl⟩
  | low i => exact ⟨_, Nat.mod_lt _ (by decide), rfl⟩

/-! ## What is kept of the random bytes -/

/-- The bits that neither version nor variant overwrites. -/
def keptBits : Finset (Fin 16 × Fin 8) :=
  Finset.univ.filter fun (i, j) => ¬ (i = 6 ∧ 4 ≤ j) ∧ ¬ (i = 8 ∧ 6 ≤ j)

theorem keptBits_card : keptBits.card = 122 := by decide +kernel

/-- The bit of a byte, counted from the lowest. -/
def bit (bytes : Fin 16 → UInt8) (i : Fin 16) (j : Fin 8) : Bool := (bytes i).toNat.testBit j

/-- What is kept of a byte, and what is put in. -/
def mask (i : Fin 16) : UInt8 := if i = 6 then 0x0f else if i = 8 then 0x3f else 0xff

def stamp (i : Fin 16) : UInt8 := if i = 6 then 0x40 else if i = 8 then 0x80 else 0

theorem uuidByte_masked (bytes : Fin 16 → UInt8) (i : Fin 16) :
    uuidByte bytes i = (bytes i &&& mask i) ||| stamp i := by
  have hall : ∀ x : UInt8, (x &&& 0xff) ||| 0 = x := by
    intro x
    apply UInt8.toNat_inj.mp
    rw [UInt8.toNat_or, UInt8.toNat_and]
    exact (Nat.or_zero _).trans ((Nat.and_two_pow_sub_one_eq_mod _ 8).trans (Nat.mod_eq_of_lt x.toNat_lt))
  unfold uuidByte mask stamp
  split
  · rfl
  · split
    · rfl
    · exact (hall _).symm

theorem mask_bit : ∀ i j, (mask i).toNat.testBit (j : Fin 8) = decide ((i, j) ∈ keptBits) := by decide +kernel

/-- No bit is put in that is kept. -/
theorem stamp_bit : ∀ i j, (i, j) ∈ keptBits → (stamp i).toNat.testBit (j : Fin 8) = false := by decide +kernel

theorem uuidByte_bit (bytes : Fin 16 → UInt8) (i : Fin 16) (j : Fin 8) :
    bit (uuidByte bytes) i j = if (i, j) ∈ keptBits then bit bytes i j else (stamp i).toNat.testBit j := by
  rw [bit, uuidByte_masked, UInt8.toNat_or, UInt8.toNat_and, Nat.testBit_or, Nat.testBit_and, mask_bit]
  by_cases h : (i, j) ∈ keptBits
  · rw [if_pos h, decide_eq_true h, Bool.and_true, stamp_bit i j h, Bool.or_false, bit]
  · rw [if_neg h, decide_eq_false h, Bool.and_false, Bool.false_or]

/-- A byte is its eight bits. -/
theorem byte_eq_iff {a b : Fin 16 → UInt8} {i : Fin 16} : a i = b i ↔ ∀ j, bit a i j = bit b i j := by
  constructor
  · intro h j
    rw [bit, h, bit]
  · intro h
    apply UInt8.toNat_inj.mp
    apply Nat.eq_of_testBit_eq
    intro j
    by_cases hj : j < 8
    · exact h ⟨j, hj⟩
    · have hle : 2 ^ 8 ≤ 2 ^ j := Nat.pow_le_pow_right (by decide) (Nat.not_lt.mp hj)
      rw [Nat.testBit_eq_false_of_lt (lt_of_lt_of_le (a i).toNat_lt hle),
        Nat.testBit_eq_false_of_lt (lt_of_lt_of_le (b i).toNat_lt hle)]

/-- Two arrays become one UUID if and only if they agree on the bits that are kept. -/
theorem uuidByte_eq_iff {a b : Fin 16 → UInt8} :
    (∀ i, uuidByte a i = uuidByte b i) ↔ ∀ p ∈ keptBits, bit a p.1 p.2 = bit b p.1 p.2 := by
  simp only [byte_eq_iff (a := uuidByte a) (b := uuidByte b), uuidByte_bit]
  constructor
  · intro h p hp
    have hbit := h p.1 p.2
    rwa [if_pos hp, if_pos hp] at hbit
  · intro h i j
    by_cases hp : (i, j) ∈ keptBits
    · rw [if_pos hp, if_pos hp]
      exact h (i, j) hp
    · rw [if_neg hp, if_neg hp]

theorem places_eq_iff {a b : Fin 16 → UInt8} :
    places.map (Place.text a) = places.map (Place.text b) ↔ ∀ i, uuidByte a i = uuidByte b i := by
  have hall : ∀ i, Place.high i ∈ places ∧ Place.low i ∈ places := by decide +kernel
  rw [List.map_inj_left]
  constructor
  · intro h i
    obtain ⟨hhigh, hlow⟩ := hall i
    have ha := (uuidByte a i).toNat_lt
    have hb := (uuidByte b i).toNat_lt
    have h1 := (nibbleText_spec _ (by omega)).2.2 _ (by omega) (h _ hhigh)
    have h2 := (nibbleText_spec _ (by omega)).2.2 _ (by omega) (h _ hlow)
    apply UInt8.toNat_inj.mp
    omega
  · intro h p _
    cases p with
    | dash => rfl
    | high i => simp only [Place.text, h i]
    | low i => simp only [Place.text, h i]

/-! ## The text -/

def dashPlaces : List Nat := [8, 13, 18, 23]

/-- The text of a version 4 UUID. -/
structure IsUuid (u : Bytes) : Prop where
  length : u.length = 36
  dashes : ∀ i, u[i]? = some dash ↔ i ∈ dashPlaces
  digits : ∀ i, i ∉ dashPlaces → ∀ b, u[i]? = some b → lowerHex b = true
  version : u[14]? = some 52
  variant : ∃ b ∈ str "89ab", u[19]? = some b

theorem places_dash (i : Nat) : places[i]? = some .dash ↔ i ∈ dashPlaces := by
  have hall : ∀ i < 36, places[i]? = some .dash ↔ i ∈ dashPlaces := by decide +kernel
  by_cases hi : i < 36
  · exact hall i hi
  · have hnone : places[i]? = none := List.getElem?_eq_none (Nat.not_lt.mp hi)
    have hlt : ∀ j ∈ dashPlaces, j < 36 := by decide
    rw [hnone]
    exact iff_of_false (Option.some_ne_none _).symm fun h => hi (hlt i h)

/-- The high digits of the bytes that are stamped. -/
theorem stamped_digits (bytes : Fin 16 → UInt8) :
    (Place.high 6).text bytes = 52 ∧ (Place.high 8).text bytes ∈ str "89ab" := by
  have hall : ∀ n < 256, nibbleText (((UInt8.ofNat n &&& 0x0f) ||| 0x40).toNat / 16) = 52 ∧
      nibbleText (((UInt8.ofNat n &&& 0x3f) ||| 0x80).toNat / 16) ∈ str "89ab" := by decide +kernel
  have h6 := (hall _ (bytes 6).toNat_lt).1
  have h8 := (hall _ (bytes 8).toNat_lt).2
  rw [UInt8.ofNat_toNat] at h6 h8
  exact ⟨h6, h8⟩

theorem places_isUuid (bytes : Fin 16 → UInt8) : IsUuid (places.map (Place.text bytes)) where
  length := rfl
  dashes i := by
    rw [← places_dash, List.getElem?_map, Option.map_eq_some_iff]
    constructor
    · intro h
      obtain ⟨p, hp, htext⟩ := h
      by_contra hne
      obtain ⟨n, hn, hdigit⟩ := p.text_digit bytes fun e => hne (e ▸ hp)
      exact (nibbleText_spec n hn).2.1 (hdigit.symm.trans htext)
    · exact fun h => ⟨.dash, h, rfl⟩
  digits i hi b hb := by
    rw [List.getElem?_map, Option.map_eq_some_iff] at hb
    obtain ⟨p, hp, rfl⟩ := hb
    obtain ⟨n, hn, hdigit⟩ := p.text_digit bytes fun e => hi ((places_dash i).mp (e ▸ hp))
    rw [hdigit]
    exact (nibbleText_spec n hn).1
  version := congrArg some (stamped_digits bytes).1
  variant := ⟨_, (stamped_digits bytes).2, rfl⟩

/-- From the same sixteen random bytes the three generators make one text, that of a version 4
    UUID, and they make it of just those other bytes that agree with them on the 122 bits
    that are kept. -/
theorem uuid_generators_agree (bytes : Fin 16 → UInt8) :
    ∃ u, Crypto.generateUUID (some bytes) = some u ∧ Config.generateUUID (some bytes) = u ∧
      ChatMessage.generateId (some bytes) = u ∧ IsUuid u ∧ keptBits.card = 122 ∧
      ∀ other, Config.generateUUID (some other) = u ↔ ∀ p ∈ keptBits, bit other p.1 p.2 = bit bytes p.1 p.2 := by
  refine ⟨places.map (Place.text bytes), crypto_places bytes, config_places bytes, message_places bytes,
    places_isUuid bytes, keptBits_card, fun other => ?_⟩
  rw [config_places, places_eq_iff, uuidByte_eq_iff]

end Security

end LanTalk
