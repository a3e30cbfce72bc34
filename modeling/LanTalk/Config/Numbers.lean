/-
  LanTalk.Config.Numbers — what `Config::set` makes of the value of a numeric key
  (`src/config/config.cpp`).

  The ports and the timeouts are read with `std::stoi`, `max_message_size` with
  `std::stoul`; what either returns is narrowed to the field's type without a look.

  Proved:
  - `assign_number`: the number in front of the value is stored, narrowed, if the
    conversion takes it; what follows it is ignored.
  - `set_faithful_iff`: when the value is stored as it is, or refused.
-/

import LanTalk.Config.RoundTrip
import LanTalk.Lib.Decimal

namespace LanTalk.Config

open LanTalk.Lib

namespace Key

def isNumeric (k : Key) : Bool :=
  k ∈ [Key.listen_port, .discovery_port, .max_message_size, .connect_timeout_secs, .read_timeout_secs,
    .keepalive_interval_secs]

/-- The number a configuration has for a numeric key. -/
def number? (c : AppConfig) : Key → Option Int
  | .listen_port => some c.listenPort.toNat
  | .discovery_port => some c.discoveryPort.toNat
  | .max_message_size => some c.maxMessageSize.toNat
  | .connect_timeout_secs => some c.connectTimeoutSecs.toInt
  | .read_timeout_secs => some c.readTimeoutSecs.toInt
  | .keepalive_interval_secs => some c.keepaliveIntervalSecs.toInt
  | _ => none

/-- The field's type has the number. -/
def fits (k : Key) (i : Int) : Bool :=
  match k with
  | .listen_port | .discovery_port => decide (0 ≤ i) && decide (i < 2 ^ 16)
  | .max_message_size => decide (0 ≤ i) && decide (i < 2 ^ 32)
  | _ => decide (-2 ^ 31 ≤ i) && decide (i < 2 ^ 31)

/-- The key's conversion takes the number and does not throw: `std::stoul` looks at its
    digits only. -/
def converts (b : Build) (k : Key) (i : Int) : Bool :=
  match k with
  | .max_message_size => decide (i.natAbs < 2 ^ b.ulongBits)
  | _ => decide (-2 ^ 31 ≤ i) && decide (i < 2 ^ 31)

/-- What the field keeps of it. -/
def narrow (k : Key) (i : Int) : Int :=
  match k with
  | .listen_port | .discovery_port => i % 2 ^ 16
  | .max_message_size => i % 2 ^ 32
  | _ => i

/-- A whole number that the field's type has. -/
def valid (k : Key) (value : Bytes) : Bool := (whole? value).any k.fits

end Key

/-! ## What is stored -/

section
variable {b : Build} {c : AppConfig} {k : Key} {value : Bytes}

theorem narrow_of_fits {i : Int} (h : k.fits i = true) : k.narrow i = i := by
  cases k
  all_goals
    simp only [Key.fits, Bool.and_eq_true, decide_eq_true_eq] at h
    first | rfl | exact Int.emod_eq_of_lt h.1 h.2

theorem converts_of_fits {i : Int} (h : k.fits i = true) : k.converts b i = true := by
  have hbits : 2 ^ 32 ≤ 2 ^ b.ulongBits := Nat.pow_le_pow_right (by decide) b.wide
  cases k
  all_goals
    simp only [Key.fits, Bool.and_eq_true, decide_eq_true_eq] at h
    simp only [Key.converts, Bool.and_eq_true, decide_eq_true_eq]
    omega

theorem port_number (i : Int32) : ((UInt16.ofInt i.toInt).toNat : Int) = i.toInt % 2 ^ 16 := by
  rw [UInt16.ofInt, UInt16.toNat_ofNat']
  omega

theorem size_number (b : Build) (i : Int) :
    ((UInt32.ofNat (i % 2 ^ b.ulongBits).toNat).toNat : Int) = i % 2 ^ 32 := by
  have hdvd : (2 ^ 32 : Int) ∣ 2 ^ b.ulongBits := pow_dvd_pow 2 b.wide
  have hpos : 0 ≤ i % 2 ^ b.ulongBits := Int.emod_nonneg _ (by positivity)
  rw [UInt32.toNat_ofNat', Int.natCast_mod, Int.toNat_of_nonneg hpos]
  exact Int.emod_emod_of_dvd i hdvd

/-- A conversion to `int` throws, or gives the number in front. -/
theorem stoi_cases (value : Bytes) :
    (stoi value = none ∧
      ∀ i, leading? value = some i → (decide (-2 ^ 31 ≤ i) && decide (i < 2 ^ 31)) = false) ∨
    ∃ v, leading? value = some v.toInt ∧ (decide (-2 ^ 31 ≤ v.toInt) && decide (v.toInt < 2 ^ 31)) = true ∧
      stoi value = some v := by
  rw [stoi_eq]
  cases leading? value with
  | none => exact Or.inl ⟨rfl, fun i hi => (by cases hi)⟩
  | some i =>
    rw [Option.bind_some]
    by_cases hi : -2 ^ 31 ≤ i ∧ i < 2 ^ 31
    · have hv : (Int32.ofInt i).toInt = i := Int32.toInt_ofInt_of_le (by omega) (by omega)
      exact Or.inr ⟨Int32.ofInt i, by rw [hv], by rw [hv]; simpa using hi, if_pos hi⟩
    · refine Or.inl ⟨if_neg hi, fun j hj => ?_⟩
      cases hj
      simpa using hi

/-- A conversion to `unsigned long` throws, or gives the number in front modulo the type's size. -/
theorem stoul_cases (bits : Nat) (value : Bytes) :
    (stoul bits value = none ∧ ∀ i, leading? value = some i → decide (i.natAbs < 2 ^ bits) = false) ∨
    ∃ i, leading? value = some i ∧ decide (i.natAbs < 2 ^ bits) = true ∧
      stoul bits value = some (i % 2 ^ bits).toNat := by
  rw [stoul_eq]
  cases leading? value with
  | none => exact Or.inl ⟨rfl, fun i hi => (by cases hi)⟩
  | some i =>
    rw [Option.bind_some]
    by_cases hi : i.natAbs < 2 ^ bits
    · exact Or.inr ⟨i, rfl, decide_eq_true hi, if_pos hi⟩
    · refine Or.inl ⟨if_neg hi, fun j hj => ?_⟩
      cases hj
      exact decide_eq_false hi

/-- What happens to a value by what number is in front of it. -/
theorem assign_number (b : Build) (c : AppConfig) (hk : k.isNumeric = true) (value : Bytes) :
    (k.assign b c value = none ∧ ∀ i, leading? value = some i → k.converts b i = false) ∨
    ∃ i c', leading? value = some i ∧ k.converts b i = true ∧ k.assign b c value = some c' ∧
      k.number? c' = some (k.narrow i) := by
  have hint := stoi_cases value
  cases k
  case max_message_size =>
    rcases stoul_cases b.ulongBits value with ⟨hn, hr⟩ | ⟨i, hi, hr, hv⟩
    · exact Or.inl ⟨congrArg (Option.map _) hn, hr⟩
    · exact Or.inr ⟨i, _, hi, hr, congrArg (Option.map _) hv, congrArg some (size_number b i)⟩
  case listen_port | discovery_port =>
    rcases hint with ⟨hn, hr⟩ | ⟨v, hi, hr, hv⟩
    · exact Or.inl ⟨congrArg (Option.map _) hn, hr⟩
    · exact Or.inr ⟨_, _, hi, hr, congrArg (Option.map _) hv, congrArg some (port_number v)⟩
  case connect_timeout_secs | read_timeout_secs | keepalive_interval_secs =>
    rcases hint with ⟨hn, hr⟩ | ⟨v, hi, hr, hv⟩
    · exact Or.inl ⟨congrArg (Option.map _) hn, hr⟩
    · exact Or.inr ⟨_, _, hi, hr, congrArg (Option.map _) hv, rfl⟩
  all_goals exact absurd hk (by decide)

end

/-! ## Stored or refused -/

/-- The value is a whole number of the field's type and this is what the field has, the other
    keys being as they were; or `set` throws, before it assigns anything; or it answers that
    it did nothing. -/
def Faithful (b : Build) (c : AppConfig) (k : Key) (value : Bytes) : Prop :=
  (∃ i c', whole? value = some i ∧ k.fits i = true ∧ set b c k.name value = some (true, c') ∧
    k.number? c' = some i ∧ ∀ j, j ≠ k → j.Same c' c) ∨
  set b c k.name value = none ∨ set b c k.name value = some (false, c)

theorem valid_iff {k : Key} {value : Bytes} :
    k.valid value = true ↔ ∃ i, whole? value = some i ∧ k.fits i = true := by
  rw [Key.valid, Option.any_eq_true]

/-- A numeric key's value is stored as the number it denotes, or refused, if and only if it is
    a whole number that the field's type has, or there is no number in front of it that the
    key's conversion takes. -/
theorem set_faithful_iff (b : Build) (c : AppConfig) (k : Key) (hk : k.isNumeric = true) (value : Bytes) :
    Faithful b c k value ↔
      k.valid value = true ∨ ∀ i, leading? value = some i → k.converts b i = false := by
  rw [Faithful, set_name, valid_iff]
  rcases assign_number b c hk value with ⟨hnone, hconv⟩ | ⟨i, c', hi, hconv, hset, hnum⟩
  · exact ⟨fun _ => Or.inr hconv, fun _ => Or.inr (Or.inl (by rw [hnone]; rfl))⟩
  · rw [hset]
    constructor
    · rintro (⟨j, c'', hj, hfits, -⟩ | h | h)
      · exact Or.inl ⟨j, hj, hfits⟩
      · cases h
      · cases h
    · rintro (⟨j, hj, hfits⟩ | h)
      · have hij : i = j := Option.some.inj (hi.symm.trans (leading?_of_whole? hj))
        subst hij
        rw [narrow_of_fits hfits] at hnum
        exact Or.inl ⟨i, c', hj, hfits, rfl, hnum, fun l hl => Key.assign_other hl hset⟩
      · rw [h i hi] at hconv
        cases hconv

/-- A port with a plus sign, the largest there is. -/
theorem set_faithful_largest :
    let b : Build := { os := .linux, ulongBits := 64, wide := by decide }
    Faithful b {} .listen_port (str "+65535") :=
  (set_faithful_iff _ {} .listen_port (by decide) _).mpr (Or.inl (by decide +kernel))

/-- A port past the largest one is stored as another port. -/
theorem large_port_wraps :
    let b : Build := { os := .linux, ulongBits := 64, wide := by decide }
    set b {} Key.listen_port.name (str "70000") = some (true, { listenPort := 4464 }) ∧
      ¬ Faithful b {} .listen_port (str "70000") := by
  intro b
  have hset : set b {} Key.listen_port.name (str "70000") = some (true, { listenPort := 4464 }) := by decide +kernel
  refine ⟨hset, ?_⟩
  rw [Faithful, hset]
  rintro (⟨i, c', hi, hfits, -⟩ | h | h)
  · have hwhole : whole? (str "70000") = some 70000 := by decide +kernel
    rw [hwhole] at hi
    cases hi
    revert hfits
    decide
  · cases h
  · cases h

end LanTalk.Config
