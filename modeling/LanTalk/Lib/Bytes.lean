/-
  LanTalk.Lib.Bytes — byte strings, and the encodings of numbers in them: big-endian
  words (`htonl`, `htons` and a copy of their bytes), reads at an offset, and decimal
  text (`std::to_string`, `std::stoll`, `std::stoi`, `std::stoul`).

  Proved: every word is read back from its bytes (`ofBe32_be32`, `ofBe16_be16`) and
  writes the bytes it was read from (`be32_ofBe32`, `be16_ofBe16`); every `Int64` is read
  back from its decimal text, whatever follows it that is not a digit (`stoll_intText`).
-/

import Mathlib

namespace LanTalk.Lib

/-- A `std::string`, or a `std::vector<uint8_t>`. -/
abbrev Bytes := List UInt8

def ofChars (cs : List Char) : Bytes := cs.map fun c => UInt8.ofNat c.toNat

/-- A string literal of the source; they are all ASCII. -/
def str (s : String) : Bytes := ofChars s.toList

def quote : UInt8 := 34
def backslash : UInt8 := 92
def colon : UInt8 := 58
def comma : UInt8 := 44

/-! ## Big-endian words -/

def be16 (n : UInt16) : Bytes := [UInt8.ofNat (n.toNat / 2 ^ 8), UInt8.ofNat n.toNat]

def be32 (n : UInt32) : Bytes :=
  [UInt8.ofNat (n.toNat / 2 ^ 24), UInt8.ofNat (n.toNat / 2 ^ 16), UInt8.ofNat (n.toNat / 2 ^ 8),
    UInt8.ofNat n.toNat]

def ofBe16 (a b : UInt8) : UInt16 := UInt16.ofNat (a.toNat * 2 ^ 8 + b.toNat)

def ofBe32 (a b c d : UInt8) : UInt32 :=
  UInt32.ofNat (a.toNat * 2 ^ 24 + b.toNat * 2 ^ 16 + c.toNat * 2 ^ 8 + d.toNat)

theorem ofBe16_be16 (n : UInt16) :
    ofBe16 (UInt8.ofNat (n.toNat / 2 ^ 8)) (UInt8.ofNat n.toNat) = n := by
  apply UInt16.toNat_inj.mp
  have h := n.toNat_lt
  simp only [ofBe16, UInt16.toNat_ofNat', UInt8.toNat_ofNat']
  omega

theorem ofBe32_be32 (n : UInt32) :
    ofBe32 (UInt8.ofNat (n.toNat / 2 ^ 24)) (UInt8.ofNat (n.toNat / 2 ^ 16)) (UInt8.ofNat (n.toNat / 2 ^ 8))
      (UInt8.ofNat n.toNat) = n := by
  apply UInt32.toNat_inj.mp
  have h := n.toNat_lt
  simp only [ofBe32, UInt32.toNat_ofNat', UInt8.toNat_ofNat']
  omega

theorem be16_ofBe16 (a b : UInt8) : be16 (ofBe16 a b) = [a, b] := by
  have ha := a.toNat_lt
  have hb := b.toNat_lt
  simp only [be16, ofBe16, List.cons.injEq, and_true, ← UInt8.toNat_inj, UInt16.toNat_ofNat',
    UInt8.toNat_ofNat']
  omega

theorem be32_ofBe32 (a b c d : UInt8) : be32 (ofBe32 a b c d) = [a, b, c, d] := by
  have ha := a.toNat_lt
  have hb := b.toNat_lt
  have hc := c.toNat_lt
  have hd := d.toNat_lt
  simp only [be32, ofBe32, List.cons.injEq, and_true, ← UInt8.toNat_inj, UInt32.toNat_ofNat',
    UInt8.toNat_ofNat']
  omega

/-! ## Reading at an offset -/

/-- `data[i]`. -/
def byteAt (data : Bytes) (i : Nat) : UInt8 := data.getD i 0

/-- The `n` bytes from `data + i` on. -/
def slice (data : Bytes) (i n : Nat) : Bytes := (data.drop i).take n

def be16At (data : Bytes) (i : Nat) : UInt16 := ofBe16 (byteAt data i) (byteAt data (i + 1))

def be32At (data : Bytes) (i : Nat) : UInt32 :=
  ofBe32 (byteAt data i) (byteAt data (i + 1)) (byteAt data (i + 2)) (byteAt data (i + 3))

section
variable {data x r : Bytes} {i j : Nat}

/-- Past what stands at an offset. -/
theorem drop_past (h : data.drop i = x ++ r) (hj : j = i + x.length) : data.drop j = r := by
  rw [hj, ← List.drop_drop, h, List.drop_left]

theorem byteAt_eq {b : UInt8} (h : data.drop i = b :: r) : byteAt data i = b := by
  have hg : data[i + 0]? = (b :: r)[0]? := by rw [← List.getElem?_drop, h]
  rw [byteAt, List.getD_eq_getElem?_getD, ← Nat.add_zero i, hg]
  rfl

theorem slice_eq {n : Nat} (h : data.drop i = x ++ r) (hn : n = x.length) : slice data i n = x := by
  rw [slice, h, hn, List.take_left]

theorem be16At_eq {n : UInt16} (h : data.drop i = be16 n ++ r) : be16At data i = n := by
  have h1 := drop_past (x := [_]) (j := i + 1) h rfl
  rw [be16At, byteAt_eq h, byteAt_eq h1, ofBe16_be16]

theorem be32At_eq {n : UInt32} (h : data.drop i = be32 n ++ r) : be32At data i = n := by
  have h1 := drop_past (x := [_]) (j := i + 1) h rfl
  have h2 := drop_past (x := [_, _]) (j := i + 2) h rfl
  have h3 := drop_past (x := [_, _, _]) (j := i + 3) h rfl
  rw [be32At, byteAt_eq h, byteAt_eq h1, byteAt_eq h2, byteAt_eq h3, ofBe32_be32]

end

/-- `std::string::resize`: cut, or padded with NULs. -/
def resize (s : Bytes) (n : Nat) : Bytes := s.take n ++ List.replicate (n - s.length) 0

@[simp] theorem resize_length (s : Bytes) (n : Nat) : (resize s n).length = n := by
  rw [resize, List.length_append, List.length_take, List.length_replicate]
  omega

/-- The padding takes nothing from what stands before the first NUL. -/
theorem resize_takeWhile (s : Bytes) (n : Nat) :
    (resize s n).takeWhile (· != 0) = (s.take n).takeWhile (· != 0) := by
  rw [resize, List.takeWhile_append]
  split
  · rename_i hall
    have hpad : (List.replicate (n - s.length) (0 : UInt8)).takeWhile (· != 0) = [] := by
      cases n - s.length <;> rfl
    have hself : (s.take n).takeWhile (· != 0) = s.take n :=
      (List.takeWhile_prefix _).eq_of_length hall
    rw [hpad, List.append_nil, hself]
  · rfl

/-! ## Decimal text -/

def isdigit (b : UInt8) : Bool := decide (48 ≤ b.toNat) && decide (b.toNat ≤ 57)

def isspace (b : UInt8) : Bool := b == 32 || (decide (9 ≤ b.toNat) && decide (b.toNat ≤ 13))

def minus : UInt8 := 45
def plus : UInt8 := 43

def natText (n : Nat) : Bytes := ofChars (Nat.toDigits 10 n)

/-- `std::to_string` of a signed integer. -/
def intText (i : Int) : Bytes := if i < 0 then minus :: natText i.natAbs else natText i.natAbs

def natValue (ds : Bytes) : Nat := Nat.ofDigitChars 10 (ds.map fun b => Char.ofNat b.toNat) 0

/-- The value of an optional sign and the digits after it; `none` where
    `std::stoll` throws `invalid_argument` (no digit) or `out_of_range`. -/
def stollSigned (neg : Bool) (s : Bytes) : Option Int64 :=
  let ds := s.takeWhile isdigit
  let v : Int := if neg then -(natValue ds : Int) else natValue ds
  if ds = [] then none
  else if v < -2 ^ 63 ∨ 2 ^ 63 ≤ v then none
  else some (Int64.ofInt v)

/-- `std::stoll` in base 10: blanks, a sign, and the longest run of digits. -/
def stoll (s : Bytes) : Option Int64 :=
  match s.dropWhile isspace with
  | [] => none
  | c :: r =>
    if c = minus then stollSigned true r
    else if c = plus then stollSigned false r
    else stollSigned false (c :: r)

/-- `std::stoi`: the same of an `int`, `none` where it throws. -/
def stoi (s : Bytes) : Option Int32 :=
  (stoll s).bind fun v => if v.toInt < -2 ^ 31 ∨ 2 ^ 31 ≤ v.toInt then none else some (Int32.ofInt v.toInt)

/-- The value of the digits after an optional sign as an unsigned integer of `bits` bits,
    which a minus sign negates; `none` where `std::stoul` throws. -/
def stoulSigned (bits : Nat) (neg : Bool) (s : Bytes) : Option Nat :=
  let ds := s.takeWhile isdigit
  if ds = [] then none
  else if 2 ^ bits ≤ natValue ds then none
  else some (if neg then (2 ^ bits - natValue ds) % 2 ^ bits else natValue ds)

/-- `std::stoul` in base 10, for an `unsigned long` of `bits` bits. -/
def stoul (bits : Nat) (s : Bytes) : Option Nat :=
  match s.dropWhile isspace with
  | [] => none
  | c :: r =>
    if c = minus then stoulSigned bits true r
    else if c = plus then stoulSigned bits false r
    else stoulSigned bits false (c :: r)

theorem natText_digits (n : Nat) : ∀ b ∈ natText n, isdigit b = true := by
  intro b hb
  obtain ⟨c, hc, rfl⟩ := List.mem_map.mp hb
  have hd := Nat.isDigit_of_mem_toDigits (by decide) (by decide) hc
  simp only [Char.isDigit, Bool.and_eq_true, decide_eq_true_eq] at hd
  have h1 : 48 ≤ c.toNat := hd.1
  have h2 : c.toNat ≤ 57 := hd.2
  simp only [isdigit, UInt8.toNat_ofNat', Bool.and_eq_true, decide_eq_true_eq]
  omega

theorem natText_ne_nil (n : Nat) : natText n ≠ [] := by
  simp [natText, ofChars, Nat.toDigits_ne_nil]

theorem natValue_natText (n : Nat) : natValue (natText n) = n := by
  have h : (natText n).map (fun b => Char.ofNat b.toNat) = Nat.toDigits 10 n := by
    simp only [natText, ofChars, List.map_map]
    refine (List.map_congr_left fun c hc => ?_).trans (List.map_id _)
    have hd := Nat.isDigit_of_mem_toDigits (by decide) (by decide) hc
    simp only [Char.isDigit, Bool.and_eq_true, decide_eq_true_eq] at hd
    have h2 : c.toNat ≤ 57 := hd.2
    simp only [Function.comp_apply, UInt8.toNat_ofNat', id_eq]
    rw [Nat.mod_eq_of_lt (by omega), Char.ofNat_toNat]
  rw [natValue, h, Nat.ofDigitChars_ten_toDigits]

theorem takeWhile_digits {n : Nat} {r : Bytes} (hr : ∀ c ∈ r.head?, isdigit c = false) :
    (natText n ++ r).takeWhile isdigit = natText n := by
  rw [List.takeWhile_append_of_pos (natText_digits n)]
  cases r with
  | nil => simp
  | cons c r => simp [hr c (by simp)]

theorem stollSigned_natText {neg : Bool} {n : Nat} {r : Bytes} (hr : ∀ c ∈ r.head?, isdigit c = false)
    (hn : n < 2 ^ 63 ∨ (neg = true ∧ n = 2 ^ 63)) :
    stollSigned neg (natText n ++ r) = some (Int64.ofInt (if neg then -(n : Int) else n)) := by
  simp only [stollSigned, takeWhile_digits hr, natValue_natText, natText_ne_nil, if_false]
  rw [if_neg]
  cases neg <;> simp at hn ⊢ <;> omega

/-- Decimal text starts with a digit: no blank is skipped before it and it has no sign. -/
theorem natText_head (n : Nat) (r : Bytes) : ∃ c ds, natText n ++ r = c :: ds ∧
    (c :: ds).dropWhile isspace = c :: ds ∧ c ≠ minus ∧ c ≠ plus := by
  obtain ⟨c, ds, hcd⟩ := List.exists_cons_of_ne_nil (natText_ne_nil n)
  have hc : isdigit c = true := natText_digits n c (by rw [hcd]; exact List.mem_cons_self)
  simp only [isdigit, Bool.and_eq_true, decide_eq_true_eq] at hc
  have hsp : isspace c = false := by
    simp only [isspace, Bool.or_eq_false_iff, beq_eq_false_iff_ne, ne_eq, Bool.and_eq_false_iff,
      decide_eq_false_iff_not]
    refine ⟨fun h => ?_, by omega⟩
    rw [h] at hc; revert hc; decide
  have hm : c ≠ minus := by rintro rfl; revert hc; decide
  have hp : c ≠ plus := by rintro rfl; revert hc; decide
  exact ⟨c, ds ++ r, by rw [hcd, List.cons_append], List.dropWhile_cons_of_neg (by simp [hsp]), hm, hp⟩

/-- The decimal text of an `Int64` reads back as it, up to the first byte that is not a
    digit. -/
theorem stoll_intText (i : Int64) {r : Bytes} (hr : ∀ c ∈ r.head?, isdigit c = false) :
    stoll (intText i.toInt ++ r) = some i := by
  have hlo := i.le_toInt
  have hhi := i.toInt_lt
  have hi : Int64.ofInt i.toInt = i := i.ofInt_toInt
  simp only [intText]
  split
  · rename_i hneg
    simp only [stoll, minus, List.cons_append]
    rw [List.dropWhile_cons_of_neg (by decide)]
    have hn : i.toInt.natAbs < 2 ^ 63 ∨ (true = true ∧ i.toInt.natAbs = 2 ^ 63) := by
      simp only [true_and]; omega
    have hv : -(i.toInt.natAbs : Int) = i.toInt := by omega
    simp only [if_true, stollSigned_natText hr hn, hv, hi]
  · rename_i hpos
    obtain ⟨c, ds, hcd, hdw, hm, hp⟩ := natText_head i.toInt.natAbs r
    have hst : stoll (natText i.toInt.natAbs ++ r) = stollSigned false (natText i.toInt.natAbs ++ r) := by
      simp only [hcd, stoll, hdw, hm, hp, if_false]
    have hn : i.toInt.natAbs < 2 ^ 63 ∨ (false = true ∧ i.toInt.natAbs = 2 ^ 63) := by omega
    have hv : (i.toInt.natAbs : Int) = i.toInt := by omega
    rw [hst, stollSigned_natText hr hn]
    simp only [Bool.false_eq_true, if_false, hv, hi]

theorem stoi_intText (i : Int32) : stoi (intText i.toInt) = some i := by
  have hlo := i.le_toInt
  have hhi := i.toInt_lt
  have hst := stoll_intText i.toInt64 (r := []) (by simp)
  rw [List.append_nil, Int32.toInt_toInt64] at hst
  rw [stoi, hst, Option.bind_some, Int32.toInt_toInt64, if_neg (by omega), Int32.ofInt_toInt]

theorem intText_natCast (n : Nat) : intText n = natText n := by
  rw [intText, if_neg (by omega), Int.natAbs_natCast]

/-- A port's text reads back as its number. -/
theorem stoi_natText {n : Nat} (hn : n < 2 ^ 31) : ∃ i : Int32, stoi (natText n) = some i ∧ i.toInt = n := by
  have hi : (Int32.ofInt n).toInt = n := Int32.toInt_ofInt_of_le (by omega) (by omega)
  refine ⟨Int32.ofInt n, ?_, hi⟩
  have hst := stoi_intText (Int32.ofInt n)
  rwa [hi, intText_natCast] at hst

theorem stoul_natText {bits n : Nat} (hn : n < 2 ^ bits) : stoul bits (natText n) = some n := by
  obtain ⟨c, ds, hcd, hdw, hm, hp⟩ := natText_head n []
  rw [List.append_nil] at hcd
  have ht : (natText n).takeWhile isdigit = natText n := by
    have := takeWhile_digits (n := n) (r := []) (by simp)
    rwa [List.append_nil] at this
  have hst : stoul bits (natText n) = stoulSigned bits false (natText n) := by
    simp only [hcd, stoul, hdw, hm, hp, if_false]
  rw [hst]
  simp only [stoulSigned, ht, natText_ne_nil, natValue_natText, if_neg (Nat.not_le.mpr hn), if_false,
    Bool.false_eq_true]

end LanTalk.Lib
