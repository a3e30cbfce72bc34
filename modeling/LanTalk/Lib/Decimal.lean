/-
  LanTalk.Lib.Decimal — numbers at the front of a text, as the `std::sto…` conversions read
  them: `leading?` is the value of the blanks, the sign and the digits a text starts with,
  of any size, and `whole?` that of a text that has a sign, if any, and digits only.

  Proved:
  - `stoi_eq`, `stoul_eq`: a conversion is `leading?` and a check of its range.
  - `leading?_trailing`: blanks behind the text change nothing.
  - `whole?_cut`: what is in front of a number's text, with a digit, is a number between
    zero and it.
-/

import LanTalk.Lib.Bytes

namespace LanTalk.Lib

/-- Whether a minus stands in front, and what is behind the sign. -/
def sign : Bytes → Bool × Bytes
  | [] => (false, [])
  | c :: r => if c = minus then (true, r) else if c = plus then (false, r) else (false, c :: r)

def signedValue (neg : Bool) (ds : Bytes) : Int := if neg then -(natValue ds) else natValue ds

/-- The value of the digits in front, if there are any. -/
def digitsValue? (neg : Bool) (s : Bytes) : Option Int :=
  if s.takeWhile isdigit = [] then none else some (signedValue neg (s.takeWhile isdigit))

/-- The value of the number a text starts with, behind blanks. -/
def leading? (s : Bytes) : Option Int :=
  digitsValue? (sign (s.dropWhile isspace)).1 (sign (s.dropWhile isspace)).2

/-- The value of a text of digits behind a sign, if there is one. -/
def whole? (s : Bytes) : Option Int :=
  if (sign s).2.all isdigit then digitsValue? (sign s).1 (sign s).2 else none

/-! ## The conversions -/

theorem stollSigned_eq (neg : Bool) (s : Bytes) : stollSigned neg s =
    (digitsValue? neg s).bind fun i => if i < -2 ^ 63 ∨ 2 ^ 63 ≤ i then none else some (Int64.ofInt i) := by
  unfold stollSigned digitsValue?
  by_cases hds : s.takeWhile isdigit = []
  · simp only [hds, if_true, Option.bind_none]
  · simp only [if_neg hds, Option.bind_some]
    rfl

theorem stoll_eq (s : Bytes) :
    stoll s = (leading? s).bind fun i => if i < -2 ^ 63 ∨ 2 ^ 63 ≤ i then none else some (Int64.ofInt i) := by
  rw [leading?, ← stollSigned_eq]
  unfold stoll sign
  cases s.dropWhile isspace with
  | nil => rfl
  | cons c r =>
    simp only
    split_ifs <;> rfl

theorem stoi_eq (s : Bytes) : stoi s = (leading? s).bind fun i =>
    if -2 ^ 31 ≤ i ∧ i < 2 ^ 31 then some (Int32.ofInt i) else none := by
  rw [stoi, stoll_eq]
  cases leading? s with
  | none => rfl
  | some i =>
    simp only [Option.bind_some]
    by_cases hwide : i < -2 ^ 63 ∨ 2 ^ 63 ≤ i
    · have hi : ¬ (-2 ^ 31 ≤ i ∧ i < 2 ^ 31) := by omega
      rw [if_pos hwide, if_neg hi]
      rfl
    · have hval : (Int64.ofInt i).toInt = i := Int64.toInt_ofInt_of_le (by omega) (by omega)
      rw [if_neg hwide, Option.bind_some, hval]
      by_cases hi : -2 ^ 31 ≤ i ∧ i < 2 ^ 31
      · rw [if_pos hi, if_neg (by omega)]
      · rw [if_neg hi, if_pos (by omega)]

/-- A minus sign is taken modulo the type's size, and only the digits are checked. -/
theorem stoulSigned_eq (bits : Nat) (neg : Bool) (s : Bytes) : stoulSigned bits neg s =
    (digitsValue? neg s).bind fun i => if i.natAbs < 2 ^ bits then some (i % 2 ^ bits).toNat else none := by
  unfold stoulSigned digitsValue?
  by_cases hds : s.takeWhile isdigit = []
  · simp only [hds, if_true, Option.bind_none]
  · simp only [if_neg hds, Option.bind_some, signedValue]
    generalize natValue (s.takeWhile isdigit) = n
    have habs : (if neg then -(n : Int) else n).natAbs = n := by cases neg <;> simp
    rw [habs]
    by_cases hn : 2 ^ bits ≤ n
    · rw [if_pos hn, if_neg (Nat.not_lt.mpr hn)]
    · have hlt := Nat.not_le.mp hn
      rw [if_neg hn, if_pos hlt]
      cases neg with
      | false =>
        have hmod : ((n : Int) % 2 ^ bits) = ((n % 2 ^ bits : Nat) : Int) := by push_cast; rfl
        simp only [Bool.false_eq_true, if_false, hmod, Int.toNat_natCast, Nat.mod_eq_of_lt hlt]
      | true =>
        have hmod : (-(n : Int)) % 2 ^ bits = (((2 ^ bits - n) % 2 ^ bits : Nat) : Int) := by
          rw [Int.natCast_mod, Nat.cast_sub hlt.le, sub_eq_add_neg]
          push_cast
          rw [Int.add_emod_left]
        simp only [if_true, hmod, Int.toNat_natCast]

theorem stoul_eq (bits : Nat) (s : Bytes) : stoul bits s =
    (leading? s).bind fun i => if i.natAbs < 2 ^ bits then some (i % 2 ^ bits).toNat else none := by
  rw [leading?, ← stoulSigned_eq]
  unfold stoul sign
  cases s.dropWhile isspace with
  | nil => rfl
  | cons c r =>
    simp only
    split_ifs <;> rfl

/-! ## Blanks -/

theorem takeWhile_append_stop {p : UInt8 → Bool} {s r : Bytes} (hr : ∀ b ∈ r.head?, p b = false) :
    (s ++ r).takeWhile p = s.takeWhile p := by
  have hnil : r.takeWhile p = [] := by
    cases r with
    | nil => rfl
    | cons b r => exact List.takeWhile_cons_of_neg (by simp [hr b rfl])
  rw [List.takeWhile_append, hnil, List.append_nil]
  split
  · rename_i hall
    exact ((List.takeWhile_prefix p).eq_of_length hall).symm
  · rfl

theorem isdigit_of_isspace {b : UInt8} (h : isspace b = true) : isdigit b = false := by
  simp only [isspace, Bool.or_eq_true, beq_iff_eq, Bool.and_eq_true, decide_eq_true_eq] at h
  simp only [isdigit, Bool.and_eq_false_iff, decide_eq_false_iff_not]
  rcases h with rfl | h
  · decide
  · omega

/-- Blanks behind the text change nothing. -/
theorem leading?_trailing (s : Bytes) {r : Bytes} (hr : ∀ b ∈ r, isspace b = true) :
    leading? (s ++ r) = leading? s := by
  have hstop : ∀ b ∈ r.head?, isdigit b = false := fun b hb => isdigit_of_isspace (hr b (List.mem_of_mem_head? hb))
  have hdigits : ∀ neg t, digitsValue? neg (t ++ r) = digitsValue? neg t := fun neg t => by
    simp only [digitsValue?, takeWhile_append_stop hstop]
  have hnil : r.dropWhile isspace = [] := List.dropWhile_eq_nil_iff.mpr hr
  unfold leading?
  rw [List.dropWhile_append, hnil]
  cases s.dropWhile isspace with
  | nil => rfl
  | cons c t =>
    rw [if_neg (by simp), List.cons_append]
    simp only [sign]
    split_ifs
    · exact hdigits true t
    · exact hdigits false t
    · exact hdigits false (c :: t)

/-- Nor do blanks before it. -/
theorem leading?_blanks {r : Bytes} (hr : ∀ b ∈ r, isspace b = true) (s : Bytes) :
    leading? (r ++ s) = leading? s := by
  rw [leading?, List.dropWhile_append_of_pos hr, ← leading?]

/-- A whole number is the one the text starts with. -/
theorem leading?_of_whole? {s : Bytes} {i : Int} (h : whole? s = some i) : leading? s = some i := by
  unfold whole? at h
  split at h
  · rename_i hall
    cases s with
    | nil => cases h
    | cons c r =>
      -- the text starts with a sign or a digit
      have hc : isspace c = false := by
        by_contra hsp
        have hsp : isspace c = true := by simpa using hsp
        have hm : c ≠ minus := by rintro rfl; revert hsp; decide
        have hp : c ≠ plus := by rintro rfl; revert hsp; decide
        rw [sign, if_neg hm, if_neg hp, List.all_cons, isdigit_of_isspace hsp] at hall
        cases hall
      rw [leading?, List.dropWhile_cons_of_neg (by simp [hc])]
      exact h
  · cases h

/-! ## Cut short -/

theorem natValue_cut {v ds : Bytes} (h : v <+: ds) : natValue v ≤ natValue ds := by
  obtain ⟨r, rfl⟩ := h
  rw [natValue, natValue, List.map_append, Nat.ofDigitChars_append]
  generalize Nat.ofDigitChars 10 (v.map fun b => Char.ofNat b.toNat) 0 = d
  have hpow := Nat.one_le_pow (r.map fun b => Char.ofNat b.toNat).length 10 (by decide)
  rw [Nat.ofDigitChars_eq_ofDigitChars_zero]
  exact (Nat.le_mul_of_pos_left _ hpow).trans (Nat.le_add_right _ _)

theorem digitsValue?_cut {n : Nat} {v : Bytes} (hv : v <+: natText n) (hne : v ≠ []) (neg : Bool) :
    v.all isdigit = true ∧ digitsValue? neg v = some (signedValue neg v) ∧ natValue v ≤ n := by
  have hall : ∀ b ∈ v, isdigit b = true := fun b hb => natText_digits n b (hv.subset hb)
  refine ⟨List.all_eq_true.mpr hall, ?_, ?_⟩
  · rw [digitsValue?, List.takeWhile_eq_self_iff.mpr hall, if_neg hne]
  · exact (natValue_cut hv).trans_eq (natValue_natText n)

/-- The text of a number, cut behind a digit. -/
theorem whole?_cut {i : Int} {v : Bytes} (hv : v <+: intText i) (hne : v ≠ []) (hminus : v ≠ [minus]) :
    ∃ j, whole? v = some j ∧ (i ≤ j ∧ j ≤ 0 ∨ 0 ≤ j ∧ j ≤ i) := by
  unfold intText at hv
  split at hv
  · -- a minus, and digits behind it
    obtain ⟨b, w, rfl⟩ := List.exists_cons_of_ne_nil hne
    obtain ⟨rfl, hw⟩ := List.cons_prefix_cons.mp hv
    obtain ⟨hall, hval, hle⟩ := digitsValue?_cut hw (fun e => hminus (by rw [e])) true
    refine ⟨-natValue w, ?_, Or.inl ⟨by omega, by omega⟩⟩
    rw [whole?, sign, if_pos rfl, if_pos hall, hval]
    rfl
  · obtain ⟨hall, hval, hle⟩ := digitsValue?_cut hv hne false
    obtain ⟨b, w, rfl⟩ := List.exists_cons_of_ne_nil hne
    have hb : isdigit b = true := List.all_eq_true.mp hall b List.mem_cons_self
    have h1 : b ≠ minus := by rintro rfl; revert hb; decide
    have h2 : b ≠ plus := by rintro rfl; revert hb; decide
    refine ⟨natValue (b :: w), ?_, Or.inr ⟨by omega, by omega⟩⟩
    rw [whole?, sign, if_neg h1, if_neg h2, if_pos hall, hval]
    rfl

end LanTalk.Lib
