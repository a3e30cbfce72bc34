/-
  LanTalk.Lib.Json — the grammar of JSON (RFC 8259) over byte strings, and a decoder. Bytes
  of 0x80 and more are taken as characters of a string, as they come.

  The grammar relates a text to the value it denotes: `Characters`, `Numeral`, `Val` with
  its elements and members, and `Text`, a value between blanks. A string's value
  is what its characters stand for, bytes or units of UTF-16 (`\u` below 0x80 is a byte).
  An object has its members in their order.

  The decoder is one by descent: `decode`. Each function takes what it reads from the front
  and returns what is left. `number` and the blanks read as much as they can; what a
  number may be followed by is `Ends`.

  Proved:
  - `decode_iff`: it decodes just the texts of the grammar, each to its value, so that there is
    but one.
  - `Element.permitted`: in such a text there is no control byte but newline, return and tab.
  - `Characters.flatMap`, `Member.bare`, `Numeral.int`: what a writer puts together.
-/

import LanTalk.Lib.Bytes

namespace LanTalk.Lib.Json

/-- A character of a string's value. -/
inductive JChar where
  | byte (b : UInt8)
  | unit (u : UInt16)
  deriving DecidableEq

def ofBytes (s : Bytes) : List JChar := s.map JChar.byte

inductive Value where
  | null
  | bool (b : Bool)
  | number (q : ℚ)
  | string (s : List JChar)
  | array (vs : List Value)
  | object (members : List (List JChar × Value))

def openBracket : UInt8 := 91
def closeBracket : UInt8 := 93
def openBrace : UInt8 := 123
def closeBrace : UInt8 := 125
def point : UInt8 := 46
def zero : UInt8 := 48

/-! ## The grammar -/

def isWs (b : UInt8) : Bool := b == 0x20 || b == 0x09 || b == 0x0A || b == 0x0D

def Ws (w : Bytes) : Prop := ∀ b ∈ w, isWs b = true

/-- `unescaped`. -/
def isUnescaped (b : UInt8) : Bool := decide (0x20 ≤ b) && b != quote && b != backslash

/-- What the two-character escapes stand for. -/
def escaped? (c : UInt8) : Option UInt8 :=
  if c = quote ∨ c = backslash ∨ c = 47 then some c
  else if c = 98 then some 0x08
  else if c = 102 then some 0x0C
  else if c = 110 then some 0x0A
  else if c = 114 then some 0x0D
  else if c = 116 then some 0x09
  else none

def hexValue? (b : UInt8) : Option Nat :=
  if 48 ≤ b.toNat ∧ b.toNat ≤ 57 then some (b.toNat - 48)
  else if 97 ≤ b.toNat ∧ b.toNat ≤ 102 then some (b.toNat - 87)
  else if 65 ≤ b.toNat ∧ b.toNat ≤ 70 then some (b.toNat - 55)
  else none

/-- The character of a `\u` escape. -/
def unitChar (n : Nat) : JChar := if n < 0x80 then .byte (UInt8.ofNat n) else .unit (UInt16.ofNat n)

inductive Character : Bytes → JChar → Prop
  | unescaped {b : UInt8} : isUnescaped b = true → Character [b] (.byte b)
  | escaped {c d : UInt8} : escaped? c = some d → Character [backslash, c] (.byte d)
  | unit {a b c d : UInt8} {w x y z : Nat} : hexValue? a = some w → hexValue? b = some x → hexValue? c = some y →
      hexValue? d = some z → Character [backslash, 117, a, b, c, d] (unitChar (((w * 16 + x) * 16 + y) * 16 + z))

inductive Characters : Bytes → List JChar → Prop
  | nil : Characters [] []
  | cons {t ts : Bytes} {c : JChar} {cs : List JChar} : Character t c → Characters ts cs →
      Characters (t ++ ts) (c :: cs)

def Digits (ds : Bytes) : Prop := ds ≠ [] ∧ ∀ b ∈ ds, isdigit b = true

/-- `int`: no zero but one by itself stands in front. -/
def IntPart (ds : Bytes) : Prop := Digits ds ∧ (ds.head? = some zero → ds = [zero])

/-- `[ frac ]`, and its digits. -/
inductive Frac : Bytes → Bytes → Prop
  | none : Frac [] []
  | some {ds : Bytes} : Digits ds → Frac (point :: ds) ds

/-- `[ minus / plus ]`. -/
inductive Sign : Bytes → Bool → Prop
  | none : Sign [] false
  | plus : Sign [plus] false
  | minus : Sign [minus] true

def signed (neg : Bool) (ds : Bytes) : Int := if neg then -(natValue ds) else natValue ds

/-- `[ exp ]`, and its value. -/
inductive Exp : Bytes → Int → Prop
  | none : Exp [] 0
  | some {c : UInt8} {g ds : Bytes} {neg : Bool} : c = 101 ∨ c = 69 → Sign g neg → Digits ds →
      Exp (c :: (g ++ ds)) (signed neg ds)

def numeralValue (neg : Bool) (i f : Bytes) (e : Int) : ℚ :=
  (if neg then -1 else 1) * (natValue (i ++ f) : ℚ) * (10 : ℚ) ^ (e - f.length)

inductive Numeral : Bytes → ℚ → Prop
  | mk (neg : Bool) {i ft f et : Bytes} {e : Int} : IntPart i → Frac ft f → Exp et e →
      Numeral ((if neg then [minus] else []) ++ (i ++ (ft ++ et))) (numeralValue neg i f e)

mutual

inductive Val : Bytes → Value → Prop
  | nullText : Val (str "null") .null
  | trueText : Val (str "true") (.bool true)
  | falseText : Val (str "false") (.bool false)
  | number {t : Bytes} {q : ℚ} : Numeral t q → Val t (.number q)
  | string {t : Bytes} {s : List JChar} : Characters t s → Val (quote :: (t ++ [quote])) (.string s)
  | emptyArray {w : Bytes} : Ws w → Val (openBracket :: (w ++ [closeBracket])) (.array [])
  | array {t : Bytes} {vs : List Value} : Elements t vs → Val (openBracket :: (t ++ [closeBracket])) (.array vs)
  | emptyObject {w : Bytes} : Ws w → Val (openBrace :: (w ++ [closeBrace])) (.object [])
  | object {t : Bytes} {ms : List (List JChar × Value)} : Members t ms →
      Val (openBrace :: (t ++ [closeBrace])) (.object ms)

inductive Element : Bytes → Value → Prop
  | mk {w t w' : Bytes} {v : Value} : Ws w → Val t v → Ws w' → Element (w ++ (t ++ w')) v

inductive Elements : Bytes → List Value → Prop
  | one {t : Bytes} {v : Value} : Element t v → Elements t [v]
  | cons {t ts : Bytes} {v : Value} {vs : List Value} : Element t v → Elements ts vs →
      Elements (t ++ comma :: ts) (v :: vs)

inductive Member : Bytes → List JChar × Value → Prop
  | mk {w k w' t : Bytes} {key : List JChar} {v : Value} : Ws w → Characters k key → Ws w' → Element t v →
      Member (w ++ quote :: (k ++ quote :: (w' ++ colon :: t))) (key, v)

inductive Members : Bytes → List (List JChar × Value) → Prop
  | one {t : Bytes} {m : List JChar × Value} : Member t m → Members t [m]
  | cons {t ts : Bytes} {m : List JChar × Value} {ms : List (List JChar × Value)} : Member t m → Members ts ms →
      Members (t ++ comma :: ts) (m :: ms)

end

/-- A value between blanks. -/
abbrev Text : Bytes → Value → Prop := Element

/-! ## The decoder -/

def skipWs (s : Bytes) : Bytes := s.dropWhile isWs

def char? (s : Bytes) : Option (JChar × Bytes) :=
  match s with
  | [] => none
  | b :: r =>
    if b = backslash then
      match r with
      | [] => none
      | c :: r =>
        if c = 117 then
          match r with
          | a :: b :: c :: d :: r =>
            match hexValue? a, hexValue? b, hexValue? c, hexValue? d with
            | some w, some x, some y, some z => some (unitChar (((w * 16 + x) * 16 + y) * 16 + z), r)
            | _, _, _, _ => none
          | _ => none
        else (escaped? c).map fun d => (.byte d, r)
    else if isUnescaped b then some (.byte b, r)
    else none

/-- The characters up to the closing quote, of which there are at most `n`. -/
def chars : Nat → Bytes → Option (List JChar × Bytes)
  | 0, s => if s.head? = some quote then some ([], s.tail) else none
  | n + 1, s =>
    if s.head? = some quote then some ([], s.tail)
    else
      match char? s with
      | none => none
      | some (c, r) => (chars n r).map fun p => (c :: p.1, p.2)

/-- As many digits as there are, if there are any. -/
def digits? (s : Bytes) : Option (Bytes × Bytes) :=
  if s.takeWhile isdigit = [] then none else some (s.takeWhile isdigit, s.dropWhile isdigit)

def intPart (s : Bytes) : Option (Bytes × Bytes) :=
  match digits? s with
  | none => none
  | some (ds, r) => if ds.head? = some zero ∧ ds ≠ [zero] then none else some (ds, r)

def fracPart (s : Bytes) : Option (Bytes × Bytes) := if s.head? = some point then digits? s.tail else some ([], s)

def expSign (s : Bytes) : Bool × Bytes :=
  if s.head? = some minus then (true, s.tail)
  else if s.head? = some plus then (false, s.tail)
  else (false, s)

def expPart (s : Bytes) : Option (Int × Bytes) :=
  if s.head? = some 101 ∨ s.head? = some 69 then
    (digits? (expSign s.tail).2).map fun p => (signed (expSign s.tail).1 p.1, p.2)
  else some (0, s)

def unsigned (neg : Bool) (s : Bytes) : Option (ℚ × Bytes) :=
  match intPart s with
  | none => none
  | some (i, r) =>
    match fracPart r with
    | none => none
    | some (f, r) => (expPart r).map fun p => (numeralValue neg i f p.1, p.2)

def number (s : Bytes) : Option (ℚ × Bytes) :=
  if s.head? = some minus then unsigned true s.tail else unsigned false s

def literal? (s : Bytes) : Option (Value × Bytes) :=
  if str "null" <+: s then some (.null, s.drop 4)
  else if str "true" <+: s then some (.bool true, s.drop 4)
  else if str "false" <+: s then some (.bool false, s.drop 5)
  else (number s).map fun p => (.number p.1, p.2)

/-- A value and the blanks around it. -/
def element (val : Bytes → Option (Value × Bytes)) (s : Bytes) : Option (Value × Bytes) :=
  (val (skipWs s)).map fun p => (p.1, skipWs p.2)

def member (val : Bytes → Option (Value × Bytes)) (s : Bytes) : Option ((List JChar × Value) × Bytes) :=
  if (skipWs s).head? = some quote then
    match chars s.length (skipWs s).tail with
    | none => none
    | some (key, r) =>
      if (skipWs r).head? = some colon then (element val (skipWs r).tail).map fun p => ((key, p.1), p.2) else none
  else none

/-- At most `n` items with commas between them, and what closes them. -/
def items {α : Type} (one : Bytes → Option (α × Bytes)) (close : UInt8) : Nat → Bytes → Option (List α × Bytes)
  | 0, _ => none
  | n + 1, s =>
    match one s with
    | none => none
    | some (a, r) =>
      if r.head? = some comma then (items one close n r.tail).map fun p => (a :: p.1, p.2)
      else if r.head? = some close then some ([a], r.tail)
      else none

/-- A value no more than `n` deep. -/
def value : Nat → Bytes → Option (Value × Bytes)
  | 0, _ => none
  | n + 1, s =>
    if s.head? = some quote then (chars s.length s.tail).map fun p => (.string p.1, p.2)
    else if s.head? = some openBracket then
      if (skipWs s.tail).head? = some closeBracket then some (.array [], (skipWs s.tail).tail)
      else (items (element (value n)) closeBracket s.length s.tail).map fun p => (.array p.1, p.2)
    else if s.head? = some openBrace then
      if (skipWs s.tail).head? = some closeBrace then some (.object [], (skipWs s.tail).tail)
      else (items (member (value n)) closeBrace s.length s.tail).map fun p => (.object p.1, p.2)
    else literal? s

def decode (s : Bytes) : Option Value :=
  match element (value s.length) s with
  | some (v, []) => some v
  | _ => none

/-- What the reader takes from the front is a text of what it returns. -/
def Sound {α : Type} (G : Bytes → α → Prop) (read : Bytes → Option (α × Bytes)) : Prop :=
  ∀ ⦃s a r⦄, read s = some (a, r) → ∃ t, G t a ∧ s = t ++ r

/-! ## Blanks and strings -/

theorem head?_cons_tail {s : Bytes} {b : UInt8} (h : s.head? = some b) : s = b :: s.tail :=
  (List.cons_head?_tail h).symm

theorem skipWs_sound (s : Bytes) : ∃ w, Ws w ∧ s = w ++ skipWs s :=
  ⟨s.takeWhile isWs, fun _ hb => List.mem_takeWhile_imp hb, List.takeWhile_append_dropWhile.symm⟩

/-- What stands behind the blanks. -/
theorem skipWs_head {s : Bytes} {b : UInt8} (h : (skipWs s).head? = some b) :
    ∃ w, Ws w ∧ s = w ++ b :: (skipWs s).tail := by
  obtain ⟨w, hw, hs⟩ := skipWs_sound s
  exact ⟨w, hw, by rw [← head?_cons_tail h]; exact hs⟩

theorem skipWs_append {w r : Bytes} (hw : Ws w) (hr : ∀ b ∈ r.head?, isWs b = false) : skipWs (w ++ r) = r := by
  rw [skipWs, List.dropWhile_append_of_pos hw]
  cases r with
  | nil => rfl
  | cons b r => exact List.dropWhile_cons_of_neg (by simp [hr b rfl])

theorem char?_sound : Sound Character char? := by
  intro s c r h
  unfold char? at h
  split at h
  · cases h
  rename_i b r0
  split at h
  · rename_i hb
    subst hb
    split at h
    · cases h
    rename_i c0 r1
    split at h
    · rename_i hc
      subst hc
      split at h
      · split at h
        · rename_i ha hb hc hd
          cases h
          exact ⟨_, .unit ha hb hc hd, rfl⟩
        · cases h
      · cases h
    · obtain ⟨d, hd, he⟩ := Option.map_eq_some_iff.mp h
      cases he
      exact ⟨_, .escaped hd, rfl⟩
  · split at h
    · rename_i hu
      cases h
      exact ⟨_, .unescaped hu, rfl⟩
    · cases h

theorem char?_complete {t : Bytes} {c : JChar} (h : Character t c) (r : Bytes) :
    char? (t ++ r) = some (c, r) ∧ t ≠ [] ∧ (t ++ r).head? ≠ some quote := by
  cases h with
  | @unescaped b hu =>
    have hne : b ≠ backslash ∧ b ≠ quote := by
      simp only [isUnescaped, Bool.and_eq_true, bne_iff_ne] at hu
      exact ⟨hu.2, hu.1.2⟩
    refine ⟨?_, by simp, by simpa using hne.2⟩
    simp only [List.singleton_append, char?, if_neg hne.1, if_pos hu]
  | @escaped c d hc =>
    have hu : c ≠ 117 := by
      rintro rfl
      revert hc
      simp [escaped?, quote, backslash]
    refine ⟨?_, by simp, by simp [quote, backslash]⟩
    simp only [List.cons_append, List.nil_append, char?, if_true, if_neg hu, hc, Option.map_some]
  | unit ha hb hc hd =>
    refine ⟨?_, by simp, by simp [quote, backslash]⟩
    simp only [List.cons_append, List.nil_append, char?, if_true, ha, hb, hc, hd]

theorem chars_sound {n : Nat} : ∀ {s r : Bytes} {cs : List JChar}, chars n s = some (cs, r) →
    ∃ t, Characters t cs ∧ s = t ++ quote :: r := by
  induction n with
  | zero =>
    intro s r cs h
    unfold chars at h
    split at h
    · rename_i hq
      cases h
      exact ⟨[], .nil, head?_cons_tail hq⟩
    · cases h
  | succ n ih =>
    intro s r cs h
    unfold chars at h
    split at h
    · rename_i hq
      cases h
      exact ⟨[], .nil, head?_cons_tail hq⟩
    · split at h
      · cases h
      · rename_i c r' hc
        obtain ⟨t, ht, rfl⟩ := char?_sound hc
        obtain ⟨⟨cs', r''⟩, hcs, he⟩ := Option.map_eq_some_iff.mp h
        cases he
        obtain ⟨ts, hts, rfl⟩ := ih hcs
        exact ⟨t ++ ts, .cons ht hts, by rw [List.append_assoc]⟩

theorem chars_complete {t : Bytes} {cs : List JChar} (h : Characters t cs) (r : Bytes) : ∀ n, t.length ≤ n →
    chars n (t ++ quote :: r) = some (cs, r) := by
  induction h with
  | nil =>
    intro n _
    cases n <;> simp [chars]
  | @cons t ts c cs ht hts ih =>
    intro n hn
    obtain ⟨hc, hne, hq⟩ := char?_complete ht (ts ++ quote :: r)
    have hpos := List.length_pos_iff.mpr hne
    rw [List.length_append] at hn
    cases n with
    | zero => omega
    | succ n =>
      rw [List.append_assoc, chars, if_neg hq, hc]
      simp only
      rw [ih n (by omega)]
      rfl

/-! ## Numbers -/

def NoDigit (r : Bytes) : Prop := ∀ b ∈ r.head?, isdigit b = false

/-- Nothing that could go on with a number. -/
def Ends (r : Bytes) : Prop := ∀ b ∈ r.head?, isdigit b = false ∧ b ≠ point ∧ b ≠ 101 ∧ b ≠ 69

theorem Ends.noDigit {r : Bytes} (h : Ends r) : NoDigit r := fun b hb => (h b hb).1

theorem noDigit_cons {b : UInt8} {r : Bytes} (h : isdigit b = false) : NoDigit (b :: r) := by
  intro c hc
  rw [List.head?_cons, Option.mem_some_iff] at hc
  exact hc ▸ h

theorem digits?_sound {s ds r : Bytes} (h : digits? s = some (ds, r)) : Digits ds ∧ s = ds ++ r := by
  unfold digits? at h
  split at h
  · cases h
  · rename_i hne
    cases h
    exact ⟨⟨hne, fun b hb => List.mem_takeWhile_imp hb⟩, List.takeWhile_append_dropWhile.symm⟩

theorem digits?_complete {ds r : Bytes} (h : Digits ds) (hr : NoDigit r) : digits? (ds ++ r) = some (ds, r) := by
  have hstop : r.takeWhile isdigit = [] ∧ r.dropWhile isdigit = r := by
    cases r with
    | nil => exact ⟨rfl, rfl⟩
    | cons b r =>
      have hb := hr b rfl
      exact ⟨List.takeWhile_cons_of_neg (by simp [hb]), List.dropWhile_cons_of_neg (by simp [hb])⟩
  rw [digits?, List.takeWhile_append_of_pos h.2, List.dropWhile_append_of_pos h.2, hstop.1, hstop.2, List.append_nil,
    if_neg h.1]

theorem Digits.head {ds : Bytes} (h : Digits ds) (r : Bytes) : ∃ b, (ds ++ r).head? = some b ∧ isdigit b = true := by
  obtain ⟨b, ds, rfl⟩ := List.exists_cons_of_ne_nil h.1
  exact ⟨b, rfl, h.2 b List.mem_cons_self⟩

theorem intPart_sound {s i r : Bytes} (h : intPart s = some (i, r)) : IntPart i ∧ s = i ++ r := by
  unfold intPart at h
  split at h
  · cases h
  · rename_i ds r' hds
    obtain ⟨hd, rfl⟩ := digits?_sound hds
    split at h
    · cases h
    · rename_i hz
      cases h
      exact ⟨⟨hd, fun h0 => not_not.mp fun hne => hz ⟨h0, hne⟩⟩, rfl⟩

theorem intPart_complete {i r : Bytes} (h : IntPart i) (hr : NoDigit r) : intPart (i ++ r) = some (i, r) := by
  rw [intPart, digits?_complete h.1 hr]
  simp only
  rw [if_neg fun hz => hz.2 (h.2 hz.1)]

theorem fracPart_sound : Sound Frac fracPart := by
  intro s f r h
  unfold fracPart at h
  split at h
  · rename_i hp
    obtain ⟨hd, ht⟩ := digits?_sound h
    exact ⟨point :: f, .some hd, by rw [head?_cons_tail hp, ht]; rfl⟩
  · cases h
    exact ⟨[], .none, rfl⟩

theorem fracPart_complete {t f r : Bytes} (h : Frac t f) (hr : NoDigit r) (hp : r.head? ≠ some point) :
    fracPart (t ++ r) = some (f, r) := by
  cases h with
  | none => exact if_neg hp
  | some hd =>
    rw [fracPart, if_pos (by simp)]
    exact digits?_complete hd hr

theorem expSign_sound (s : Bytes) : ∃ g, Sign g (expSign s).1 ∧ s = g ++ (expSign s).2 := by
  unfold expSign
  split
  · rename_i hm
    exact ⟨[minus], .minus, head?_cons_tail hm⟩
  · split
    · rename_i hp
      exact ⟨[plus], .plus, head?_cons_tail hp⟩
    · exact ⟨[], .none, rfl⟩

theorem expSign_complete {g ds : Bytes} {neg : Bool} (h : Sign g neg) (hd : Digits ds) (r : Bytes) :
    expSign (g ++ (ds ++ r)) = (neg, ds ++ r) := by
  cases h with
  | none =>
    obtain ⟨b, hb, hdig⟩ := hd.head r
    have hm : b ≠ minus := by rintro rfl; revert hdig; decide
    have hp : b ≠ plus := by rintro rfl; revert hdig; decide
    rw [List.nil_append, expSign, hb, if_neg (by simpa using hm), if_neg (by simpa using hp)]
  | plus => rfl
  | minus => rfl

theorem expPart_sound : Sound Exp expPart := by
  intro s e r h
  unfold expPart at h
  split at h
  · rename_i he
    obtain ⟨c, hc, hs⟩ : ∃ c : UInt8, (c = 101 ∨ c = 69) ∧ s = c :: s.tail := by
      rcases he with he | he
      · exact ⟨101, Or.inl rfl, head?_cons_tail he⟩
      · exact ⟨69, Or.inr rfl, head?_cons_tail he⟩
    obtain ⟨⟨ds, r'⟩, hds, heq⟩ := Option.map_eq_some_iff.mp h
    cases heq
    obtain ⟨hd, ht⟩ := digits?_sound hds
    obtain ⟨g, hg, htail⟩ := expSign_sound s.tail
    refine ⟨c :: (g ++ ds), .some hc hg hd, ?_⟩
    rw [hs, htail, ht, List.cons_append, List.append_assoc]
  · cases h
    exact ⟨[], .none, rfl⟩

theorem expPart_complete {t r : Bytes} {e : Int} (h : Exp t e) (hr : Ends r) : expPart (t ++ r) = some (e, r) := by
  cases h with
  | none =>
    refine if_neg fun he => ?_
    rcases he with he | he
    · exact (hr _ he).2.2.1 rfl
    · exact (hr _ he).2.2.2 rfl
  | @some c g ds neg hc hg hd =>
    have he : (c :: (g ++ ds) ++ r).head? = some 101 ∨ (c :: (g ++ ds) ++ r).head? = some 69 := by simpa using hc
    have htail : (c :: (g ++ ds) ++ r).tail = g ++ (ds ++ r) := by simp
    rw [expPart, if_pos he, htail, expSign_complete hg hd, digits?_complete hd hr.noDigit, Option.map_some]

theorem unsigned_sound {neg : Bool} {s r : Bytes} {q : ℚ} (h : unsigned neg s = some (q, r)) :
    ∃ i ft f et e, IntPart i ∧ Frac ft f ∧ Exp et e ∧ q = numeralValue neg i f e ∧ s = i ++ (ft ++ et) ++ r := by
  unfold unsigned at h
  split at h
  · cases h
  rename_i i r1 hi
  split at h
  · cases h
  rename_i f r2 hf
  obtain ⟨⟨e, r3⟩, he, heq⟩ := Option.map_eq_some_iff.mp h
  cases heq
  obtain ⟨hint, rfl⟩ := intPart_sound hi
  obtain ⟨ft, hfrac, rfl⟩ := fracPart_sound hf
  obtain ⟨et, hexp, rfl⟩ := expPart_sound he
  exact ⟨i, ft, f, et, e, hint, hfrac, hexp, rfl, by simp only [List.append_assoc]⟩

/-- What stands behind the integer part is no digit. -/
theorem exp_noDigit {et r : Bytes} {e : Int} (h : Exp et e) (hr : Ends r) :
    NoDigit (et ++ r) ∧ (et ++ r).head? ≠ some point := by
  have hletter : ∀ (c : UInt8) (l : Bytes), c = 101 ∨ c = 69 → NoDigit (c :: l) ∧ (c :: l).head? ≠ some point := by
    intro c l hc
    rcases hc with rfl | rfl
    · exact ⟨noDigit_cons (by decide), by simp [point]⟩
    · exact ⟨noDigit_cons (by decide), by simp [point]⟩
  cases h with
  | none => exact ⟨hr.noDigit, fun h => (hr _ h).2.1 rfl⟩
  | some hc _ _ => exact hletter _ _ hc

theorem unsigned_complete {neg : Bool} {i ft f et r : Bytes} {e : Int} (hi : IntPart i) (hf : Frac ft f)
    (he : Exp et e) (hr : Ends r) : unsigned neg (i ++ (ft ++ et) ++ r) = some (numeralValue neg i f e, r) := by
  obtain ⟨hexp, hpoint⟩ := exp_noDigit he hr
  have hfrac : NoDigit (ft ++ (et ++ r)) := by
    cases hf with
    | none => exact hexp
    | some _ => exact noDigit_cons (by decide)
  rw [List.append_assoc, List.append_assoc, unsigned, intPart_complete hi hfrac]
  simp only
  rw [fracPart_complete hf hexp hpoint]
  simp only
  rw [expPart_complete he hr]
  rfl

theorem number_sound : Sound Numeral number := by
  intro s q r h
  unfold number at h
  split at h
  · rename_i hm
    obtain ⟨i, ft, f, et, e, hi, hf, he, rfl, ht⟩ := unsigned_sound h
    exact ⟨_, .mk true hi hf he, by rw [head?_cons_tail hm, ht]; rfl⟩
  · obtain ⟨i, ft, f, et, e, hi, hf, he, rfl, ht⟩ := unsigned_sound h
    exact ⟨_, .mk false hi hf he, ht⟩

/-- A number starts with a minus or a digit. -/
theorem Numeral.head {t : Bytes} {q : ℚ} (h : Numeral t q) (r : Bytes) :
    ∃ b, (t ++ r).head? = some b ∧ (b = minus ∨ isdigit b = true) := by
  cases h with
  | @mk neg i ft f et e hi hf he =>
    cases neg with
    | true => exact ⟨minus, rfl, Or.inl rfl⟩
    | false =>
      obtain ⟨b, hb, hd⟩ := hi.1.head (ft ++ (et ++ r))
      refine ⟨b, ?_, Or.inr hd⟩
      rw [← hb]
      simp only [Bool.false_eq_true, if_false, List.nil_append, List.append_assoc]

theorem number_complete {t r : Bytes} {q : ℚ} (h : Numeral t q) (hr : Ends r) : number (t ++ r) = some (q, r) := by
  cases h with
  | @mk neg i ft f et e hi hf he =>
    cases neg with
    | true => exact unsigned_complete hi hf he hr
    | false =>
      obtain ⟨b, hb, hd⟩ := hi.1.head ((ft ++ et) ++ r)
      have hm : b ≠ minus := by rintro rfl; revert hd; decide
      simp only [Bool.false_eq_true, if_false, List.nil_append]
      rw [number, if_neg]
      · exact unsigned_complete hi hf he hr
      · rw [List.append_assoc, hb]
        simpa using hm

/-! ## What is decoded is in the grammar -/

theorem literal?_sound : Sound Val literal? := by
  intro s v r h
  have hdrop : ∀ {l : Bytes} {n : Nat}, l <+: s → n = l.length → s = l ++ s.drop n := by
    intro l n hp hn
    obtain ⟨r, rfl⟩ := hp
    rw [hn, List.drop_left]
  unfold literal? at h
  split at h
  · rename_i hp
    cases h
    exact ⟨_, .nullText, hdrop hp (by decide)⟩
  · split at h
    · rename_i hp
      cases h
      exact ⟨_, .trueText, hdrop hp (by decide)⟩
    · split at h
      · rename_i hp
        cases h
        exact ⟨_, .falseText, hdrop hp (by decide)⟩
      · obtain ⟨⟨q, r'⟩, hq, heq⟩ := Option.map_eq_some_iff.mp h
        cases heq
        obtain ⟨t, ht, hs⟩ := number_sound hq
        exact ⟨t, .number ht, hs⟩

theorem element_sound {val : Bytes → Option (Value × Bytes)} (hval : Sound Val val) :
    Sound Element (element val) := by
  intro s v r h
  obtain ⟨⟨v', r'⟩, hv, heq⟩ := Option.map_eq_some_iff.mp h
  cases heq
  obtain ⟨w, hw, hs⟩ := skipWs_sound s
  obtain ⟨w', hw', hr⟩ := skipWs_sound r'
  obtain ⟨t, ht, hst⟩ := hval hv
  refine ⟨w ++ (t ++ w'), .mk hw ht hw', ?_⟩
  rw [List.append_assoc, List.append_assoc, ← hr, ← hst]
  exact hs

theorem member_sound {val : Bytes → Option (Value × Bytes)} (hval : Sound Val val) :
    Sound Member (member val) := by
  intro s m r h
  unfold member at h
  split at h
  · rename_i hq
    split at h
    · cases h
    rename_i key r1 hk
    split at h
    · rename_i hcolon
      obtain ⟨⟨v, r2⟩, hv, heq⟩ := Option.map_eq_some_iff.mp h
      cases heq
      obtain ⟨w, hw, hs⟩ := skipWs_head hq
      obtain ⟨k, hkey, hsk⟩ := chars_sound hk
      obtain ⟨w', hw', hr1⟩ := skipWs_head hcolon
      obtain ⟨t, ht, hst⟩ := element_sound hval hv
      refine ⟨_, .mk hw hkey hw' ht, hs.trans ?_⟩
      rw [hsk, hr1, hst]
      simp only [List.append_assoc, List.cons_append]
    · cases h
  · cases h

theorem items_sound {α : Type} {G : Bytes → α → Prop} {S : Bytes → List α → Prop} {one : Bytes → Option (α × Bytes)}
    {close : UInt8} (hone : Sound G one) (hlast : ∀ {t a}, G t a → S t [a])
    (hcons : ∀ {t ts a as}, G t a → S ts as → S (t ++ comma :: ts) (a :: as)) {n : Nat} :
    ∀ {s r : Bytes} {as : List α}, items one close n s = some (as, r) → ∃ t, S t as ∧ s = t ++ close :: r := by
  induction n with
  | zero => exact fun h => (by cases h)
  | succ n ih =>
    intro s r as h
    unfold items at h
    split at h
    · cases h
    rename_i a r1 ha
    obtain ⟨t, ht, rfl⟩ := hone ha
    split at h
    · rename_i hc
      obtain ⟨⟨as', r2⟩, has, heq⟩ := Option.map_eq_some_iff.mp h
      cases heq
      obtain ⟨ts, hts, htail⟩ := ih has
      refine ⟨_, hcons ht hts, ?_⟩
      rw [head?_cons_tail hc, htail, List.append_assoc, List.cons_append]
    · split at h
      · rename_i hc
        cases h
        exact ⟨t, hlast ht, by rw [← head?_cons_tail hc]⟩
      · cases h

theorem value_sound (n : Nat) : Sound Val (value n) := by
  induction n with
  | zero => exact fun _ _ _ h => (by cases h)
  | succ n ih =>
    intro s v r h
    unfold value at h
    split at h
    · rename_i hq
      obtain ⟨⟨cs, r'⟩, hcs, heq⟩ := Option.map_eq_some_iff.mp h
      cases heq
      obtain ⟨t, ht, hs⟩ := chars_sound hcs
      refine ⟨_, .string ht, (head?_cons_tail hq).trans ?_⟩
      rw [hs, List.cons_append, List.append_assoc]
      rfl
    split at h
    · rename_i hb
      split at h
      · rename_i hclose
        cases h
        obtain ⟨w, hw, hs⟩ := skipWs_head hclose
        refine ⟨_, .emptyArray hw, (head?_cons_tail hb).trans ?_⟩
        rw [List.cons_append, List.append_assoc]
        exact congrArg _ hs
      · obtain ⟨⟨vs, r'⟩, hvs, heq⟩ := Option.map_eq_some_iff.mp h
        cases heq
        obtain ⟨t, ht, hs⟩ := items_sound (element_sound ih) Elements.one Elements.cons hvs
        refine ⟨_, .array ht, (head?_cons_tail hb).trans ?_⟩
        rw [hs, List.cons_append, List.append_assoc]
        rfl
    split at h
    · rename_i hb
      split at h
      · rename_i hclose
        cases h
        obtain ⟨w, hw, hs⟩ := skipWs_head hclose
        refine ⟨_, .emptyObject hw, (head?_cons_tail hb).trans ?_⟩
        rw [List.cons_append, List.append_assoc]
        exact congrArg _ hs
      · obtain ⟨⟨ms, r'⟩, hms, heq⟩ := Option.map_eq_some_iff.mp h
        cases heq
        obtain ⟨t, ht, hs⟩ := items_sound (member_sound ih) Members.one Members.cons hms
        refine ⟨_, .object ht, (head?_cons_tail hb).trans ?_⟩
        rw [hs, List.cons_append, List.append_assoc]
        rfl
    · exact literal?_sound h

/-! ## What is in the grammar is decoded -/

/-- The text ends here, or a comma or a closing bracket or brace stands here. -/
def Stops (r : Bytes) : Prop := ∀ b ∈ r.head?, b = comma ∨ b = closeBracket ∨ b = closeBrace

theorem stops_cons {b : UInt8} (h : b = comma ∨ b = closeBracket ∨ b = closeBrace) (r : Bytes) : Stops (b :: r) := by
  intro c hc
  rw [List.head?_cons, Option.mem_some_iff] at hc
  exact hc ▸ h

theorem Stops.ws {r : Bytes} (h : Stops r) : ∀ b ∈ r.head?, isWs b = false := by
  intro b hb
  rcases h b hb with rfl | rfl | rfl
  all_goals decide

/-- Blanks and what stops an element end a number. -/
theorem Stops.ends {w r : Bytes} (hw : Ws w) (h : Stops r) : Ends (w ++ r) := by
  intro b hb
  cases w with
  | nil =>
    rcases h b hb with rfl | rfl | rfl
    all_goals decide
  | cons c w =>
    rw [List.cons_append, List.head?_cons, Option.mem_some_iff] at hb
    subst hb
    have hc := hw c List.mem_cons_self
    simp only [isWs, Bool.or_eq_true, beq_iff_eq] at hc
    rcases hc with ((rfl | rfl) | rfl) | rfl
    all_goals decide

/-- What a number starts with is no other byte. -/
theorem number_byte_ne {b c : UInt8} (h : b = minus ∨ isdigit b = true) (hm : c ≠ minus) (hd : isdigit c = false) :
    b ≠ c := by
  rintro rfl
  rcases h with h | h
  · exact hm h
  · rw [h] at hd
    cases hd

theorem number_byte_ws {b : UInt8} (h : b = minus ∨ isdigit b = true) : isWs b = false := by
  by_contra hw
  rw [Bool.not_eq_false] at hw
  simp only [isWs, Bool.or_eq_true, beq_iff_eq] at hw
  rcases hw with ((hw | hw) | hw) | hw
  all_goals exact number_byte_ne h (by decide) (by decide) hw

theorem Val.head {t : Bytes} {v : Value} (h : Val t v) (r : Bytes) :
    ∃ b l, t ++ r = b :: l ∧ isWs b = false ∧ b ≠ closeBracket ∧ b ≠ closeBrace := by
  cases h with
  | nullText => exact ⟨110, str "ull" ++ r, rfl, by decide, by decide, by decide⟩
  | trueText => exact ⟨116, str "rue" ++ r, rfl, by decide, by decide, by decide⟩
  | falseText => exact ⟨102, str "alse" ++ r, rfl, by decide, by decide, by decide⟩
  | number hq =>
    obtain ⟨b, hb, hnum⟩ := hq.head r
    exact ⟨b, (t ++ r).tail, head?_cons_tail hb, number_byte_ws hnum, number_byte_ne hnum (by decide) (by decide),
      number_byte_ne hnum (by decide) (by decide)⟩
  | string _ => exact ⟨quote, _, rfl, by decide, by decide, by decide⟩
  | emptyArray _ => exact ⟨openBracket, _, rfl, by decide, by decide, by decide⟩
  | array _ => exact ⟨openBracket, _, rfl, by decide, by decide, by decide⟩
  | emptyObject _ => exact ⟨openBrace, _, rfl, by decide, by decide, by decide⟩
  | object _ => exact ⟨openBrace, _, rfl, by decide, by decide, by decide⟩

theorem Val.length_pos {t : Bytes} {v : Value} (h : Val t v) : 0 < t.length := by
  obtain ⟨b, l, hb, -⟩ := h.head []
  rw [List.append_nil] at hb
  rw [hb]
  exact Nat.succ_pos _

/-- Behind the blanks of an element its value starts. -/
theorem Element.skip {w t w' : Bytes} {v : Value} (hw : Ws w) (ht : Val t v) (r : Bytes) :
    skipWs (w ++ (t ++ w') ++ r) = t ++ (w' ++ r) := by
  obtain ⟨b, l, hb, hws, -⟩ := ht.head (w' ++ r)
  rw [List.append_assoc, List.append_assoc, skipWs_append hw]
  intro c hc
  rw [hb, List.head?_cons, Option.mem_some_iff] at hc
  exact hc ▸ hws

theorem Element.head {t : Bytes} {v : Value} (h : Element t v) (r : Bytes) :
    (skipWs (t ++ r)).head? ≠ some closeBracket := by
  cases h with
  | @mk w t w' v hw ht hw' =>
    obtain ⟨b, l, hb, -, hne, -⟩ := ht.head (w' ++ r)
    rw [Element.skip hw ht r, hb]
    simpa using hne

theorem Elements.head {t : Bytes} {vs : List Value} (h : Elements t vs) (r : Bytes) :
    (skipWs (t ++ r)).head? ≠ some closeBracket := by
  cases h with
  | one h => exact h.head r
  | cons h _ =>
    rw [List.append_assoc]
    exact h.head _

theorem skipWs_quote {w : Bytes} (hw : Ws w) (r : Bytes) : skipWs (w ++ quote :: r) = quote :: r :=
  skipWs_append hw fun b hb => by
    rw [List.head?_cons, Option.mem_some_iff] at hb
    rw [← hb]
    decide

theorem Members.head {t : Bytes} {ms : List (List JChar × Value)} (h : Members t ms) (r : Bytes) :
    (skipWs (t ++ r)).head? ≠ some closeBrace := by
  have hone : ∀ {t : Bytes} {m : List JChar × Value}, Member t m →
      ∀ r, (skipWs (t ++ r)).head? ≠ some closeBrace := by
    intro t m h r
    cases h with
    | mk hw _ _ _ =>
      rw [List.append_assoc, List.cons_append, skipWs_quote hw]
      simp [quote, closeBrace]
  cases h with
  | one h => exact hone h r
  | cons h _ =>
    rw [List.append_assoc]
    exact hone h _

theorem value_literal {n : Nat} {s : Bytes} {b : UInt8} (hs : s.head? = some b) (hq : b ≠ quote)
    (ha : b ≠ openBracket) (ho : b ≠ openBrace) : value (n + 1) s = literal? s := by
  rw [value, hs, if_neg (by simpa using hq), if_neg (by simpa using ha), if_neg (by simpa using ho)]

theorem value_quote (n : Nat) (s : Bytes) :
    value (n + 1) (quote :: s) = (chars (s.length + 1) s).map fun p => (.string p.1, p.2) := by
  rw [value, if_pos (by simp)]
  rfl

theorem value_openBracket (n : Nat) (s : Bytes) :
    value (n + 1) (openBracket :: s) =
      if (skipWs s).head? = some closeBracket then some (.array [], (skipWs s).tail)
      else (items (element (value n)) closeBracket (s.length + 1) s).map fun p => (.array p.1, p.2) := by
  rw [value, if_neg (by simp [quote, openBracket]), if_pos (by simp)]
  rfl

theorem value_openBrace (n : Nat) (s : Bytes) :
    value (n + 1) (openBrace :: s) =
      if (skipWs s).head? = some closeBrace then some (.object [], (skipWs s).tail)
      else (items (member (value n)) closeBrace (s.length + 1) s).map fun p => (.object p.1, p.2) := by
  rw [value, if_neg (by simp [quote, openBrace]), if_neg (by simp [openBracket, openBrace]), if_pos (by simp)]
  rfl

theorem literal?_number {t r : Bytes} {q : ℚ} (h : Numeral t q) (hr : Ends r) :
    literal? (t ++ r) = some (.number q, r) := by
  obtain ⟨b, hb, hnum⟩ := h.head r
  have hnot : ∀ {c : UInt8} {l : Bytes}, b ≠ c → ¬ c :: l <+: t ++ r := by
    intro c l hne hp
    rw [head?_cons_tail hb] at hp
    exact hne (List.cons_prefix_cons.mp hp).1.symm
  have h1 : str "null" = 110 :: str "ull" := rfl
  have h2 : str "true" = 116 :: str "rue" := rfl
  have h3 : str "false" = 102 :: str "alse" := rfl
  rw [literal?, h1, h2, h3, if_neg (hnot (number_byte_ne hnum (by decide) (by decide))),
    if_neg (hnot (number_byte_ne hnum (by decide) (by decide))),
    if_neg (hnot (number_byte_ne hnum (by decide) (by decide))), number_complete h hr]
  rfl

/-- A comma goes on with the items. -/
theorem items_cons {α : Type} {one : Bytes → Option (α × Bytes)} {close : UInt8} {n : Nat} {s ts : Bytes} {a : α}
    (h : one s = some (a, comma :: ts)) : items one close (n + 1) s =
      (items one close n ts).map fun p => (a :: p.1, p.2) := by
  rw [items, h]
  simp only
  rw [if_pos (by simp), List.tail_cons]

theorem items_last {α : Type} {one : Bytes → Option (α × Bytes)} {close : UInt8} {n : Nat} {s r : Bytes} {a : α}
    (hc : close ≠ comma) (h : one s = some (a, close :: r)) : items one close (n + 1) s = some ([a], r) := by
  rw [items, h]
  simp only
  rw [if_neg (by simpa using hc), if_pos (by simp), List.tail_cons]

mutual

theorem Val.complete {t : Bytes} {v : Value} : Val t v → ∀ n r, t.length ≤ n → Ends r →
    value n (t ++ r) = some (v, r)
  | h, 0, r, hn, _ => by
    have := h.length_pos
    omega
  | .nullText, n + 1, r, _, _ => by
    rw [value_literal (b := 110) rfl (by decide) (by decide) (by decide)]
    rfl
  | .trueText, n + 1, r, _, _ => by
    rw [value_literal (b := 116) rfl (by decide) (by decide) (by decide)]
    rfl
  | .falseText, n + 1, r, _, _ => by
    rw [value_literal (b := 102) rfl (by decide) (by decide) (by decide)]
    rfl
  | .number hq, n + 1, r, _, hr => by
    obtain ⟨b, hb, hnum⟩ := hq.head r
    rw [value_literal hb (number_byte_ne hnum (by decide) (by decide)) (number_byte_ne hnum (by decide) (by decide))
      (number_byte_ne hnum (by decide) (by decide))]
    exact literal?_number hq hr
  | .string (t := t) hs, n + 1, r, _, _ => by
    rw [List.cons_append, List.append_assoc, List.singleton_append, value_quote,
      chars_complete hs r _ (by simp only [List.length_cons, List.length_append]; omega)]
    rfl
  | .emptyArray (w := w) hw, n + 1, r, _, _ => by
    have hskip : skipWs (w ++ closeBracket :: r) = closeBracket :: r :=
      skipWs_append hw (stops_cons (by simp) r).ws
    rw [List.cons_append, List.append_assoc, List.singleton_append, value_openBracket, hskip, if_pos (by simp)]
    rfl
  | .array (t := t) h, n + 1, r, hn, _ => by
    rw [List.length_cons, List.length_append] at hn
    rw [List.cons_append, List.append_assoc, List.singleton_append, value_openBracket, if_neg (h.head _),
      Elements.complete h n _ r (by omega) (by simp only [List.length_cons, List.length_append]; omega)]
    rfl
  | .emptyObject (w := w) hw, n + 1, r, _, _ => by
    have hskip : skipWs (w ++ closeBrace :: r) = closeBrace :: r :=
      skipWs_append hw (stops_cons (by simp) r).ws
    rw [List.cons_append, List.append_assoc, List.singleton_append, value_openBrace, hskip, if_pos (by simp)]
    rfl
  | .object (t := t) h, n + 1, r, hn, _ => by
    rw [List.length_cons, List.length_append] at hn
    rw [List.cons_append, List.append_assoc, List.singleton_append, value_openBrace, if_neg (h.head _),
      Members.complete h n _ r (by omega) (by simp only [List.length_cons, List.length_append]; omega)]
    rfl

theorem Element.complete {t : Bytes} {v : Value} : Element t v → ∀ n r, t.length ≤ n → Stops r →
    element (value n) (t ++ r) = some (v, r)
  | .mk hw h hw', n, r, hn, hr => by
    rw [List.length_append, List.length_append] at hn
    rw [element, Element.skip hw h, Val.complete h n _ (by omega) (hr.ends hw'), Option.map_some,
      skipWs_append hw' hr.ws]

theorem Elements.complete {t : Bytes} {vs : List Value} : Elements t vs → ∀ n m r, t.length ≤ n → t.length < m →
    items (element (value n)) closeBracket m (t ++ closeBracket :: r) = some (vs, r)
  | .one h, n, m + 1, r, hn, _ =>
    items_last (by decide) (Element.complete h n _ hn (stops_cons (by simp) r))
  | .cons h hs, n, m + 1, r, hn, hm => by
    rw [List.length_append, List.length_cons] at hn hm
    rw [List.append_assoc, List.cons_append, items_cons (Element.complete h n _ (by omega) (stops_cons (by simp) _)),
      Elements.complete hs n m r (by omega) (by omega)]
    rfl

theorem Member.complete {t : Bytes} {m : List JChar × Value} : Member t m → ∀ n r, t.length ≤ n → Stops r →
    member (value n) (t ++ r) = some (m, r)
  | @Member.mk _ _ w' t _ _ hw hk hw' h, n, r, hn, hr => by
    simp only [List.length_append, List.length_cons] at hn
    have hcolon : skipWs (w' ++ colon :: (t ++ r)) = colon :: (t ++ r) :=
      skipWs_append hw' fun b hb => by
        rw [List.head?_cons, Option.mem_some_iff] at hb
        rw [← hb]
        decide
    simp only [List.append_assoc, List.cons_append]
    rw [member, skipWs_quote hw, if_pos (by simp), List.tail_cons,
      chars_complete hk _ _ (by simp only [List.length_cons, List.length_append]; omega)]
    simp only
    rw [hcolon, if_pos (by simp), List.tail_cons, Element.complete h n r (by omega) hr]
    rfl

theorem Members.complete {t : Bytes} {ms : List (List JChar × Value)} : Members t ms → ∀ n m r, t.length ≤ n →
    t.length < m → items (member (value n)) closeBrace m (t ++ closeBrace :: r) = some (ms, r)
  | .one h, n, m + 1, r, hn, _ =>
    items_last (by decide) (Member.complete h n _ hn (stops_cons (by simp) r))
  | .cons h hs, n, m + 1, r, hn, hm => by
    rw [List.length_append, List.length_cons] at hn hm
    rw [List.append_assoc, List.cons_append, items_cons (Member.complete h n _ (by omega) (stops_cons (by simp) _)),
      Members.complete hs n m r (by omega) (by omega)]
    rfl

end

/-- The decoder accepts the grammar's texts, and each as what it denotes. -/
theorem decode_iff (s : Bytes) (v : Value) : decode s = some v ↔ Text s v := by
  constructor
  · intro h
    unfold decode at h
    split at h
    · rename_i v' hv
      cases h
      obtain ⟨t, ht, hs⟩ := element_sound (value_sound s.length) hv
      rw [hs, List.append_nil]
      exact ht
    · cases h
  · intro h
    have hend : Stops [] := fun b hb => by cases hb
    have hread := h.complete s.length [] (Nat.le_refl _) hend
    rw [List.append_nil] at hread
    rw [decode, hread]

/-! ## What may stand in a text -/

/-- No control byte but the blanks among them. -/
def Permitted (b : UInt8) : Prop := 0x20 ≤ b ∨ b = 0x09 ∨ b = 0x0A ∨ b = 0x0D

instance (b : UInt8) : Decidable (Permitted b) :=
  inferInstanceAs (Decidable (0x20 ≤ b ∨ b = 0x09 ∨ b = 0x0A ∨ b = 0x0D))

theorem Ws.permitted {w : Bytes} (h : Ws w) : ∀ b ∈ w, Permitted b := by
  intro b hb
  have hw := h b hb
  simp only [isWs, Bool.or_eq_true, beq_iff_eq] at hw
  rcases hw with ((rfl | rfl) | rfl) | rfl
  all_goals decide

theorem permitted_of_le {b : UInt8} (h : 0x20 ≤ b.toNat) : Permitted b := Or.inl (UInt8.le_iff_toNat_le.mpr h)

theorem hexValue?_permitted {b : UInt8} {n : Nat} (h : hexValue? b = some n) : Permitted b := by
  apply permitted_of_le
  unfold hexValue? at h
  split at h
  · omega
  · split at h
    · omega
    · split at h
      · omega
      · cases h

theorem escaped?_permitted {c d : UInt8} (h : escaped? c = some d) : Permitted c := by
  unfold escaped? at h
  split at h
  · rename_i hc
    rcases hc with rfl | rfl | rfl
    all_goals decide
  · repeat' split at h
    all_goals first | (subst_vars; decide) | cases h

theorem Character.permitted {t : Bytes} {c : JChar} (h : Character t c) : ∀ b ∈ t, Permitted b := by
  cases h with
  | unescaped hu =>
    simp only [isUnescaped, Bool.and_eq_true, decide_eq_true_eq] at hu
    intro b hb
    rw [List.mem_singleton.mp hb]
    exact Or.inl hu.1.1
  | escaped hc => simpa using ⟨show Permitted backslash by decide, escaped?_permitted hc⟩
  | unit ha hb hc hd =>
    simpa using ⟨show Permitted backslash by decide, show Permitted 117 by decide, hexValue?_permitted ha,
      hexValue?_permitted hb, hexValue?_permitted hc, hexValue?_permitted hd⟩

theorem Characters.permitted {t : Bytes} {s : List JChar} (h : Characters t s) : ∀ b ∈ t, Permitted b := by
  induction h with
  | nil => simp
  | cons hc _ ih => exact List.forall_mem_append.mpr ⟨hc.permitted, ih⟩

theorem Digits.permitted {ds : Bytes} (h : Digits ds) : ∀ b ∈ ds, Permitted b := by
  intro b hb
  have hd := h.2 b hb
  simp only [isdigit, Bool.and_eq_true, decide_eq_true_eq] at hd
  exact permitted_of_le (by omega)

theorem Numeral.permitted {t : Bytes} {q : ℚ} (h : Numeral t q) : ∀ b ∈ t, Permitted b := by
  cases h with
  | @mk neg i ft f et e hi hf he =>
    have hsign : ∀ b ∈ (if neg then [minus] else []), Permitted b := by
      cases neg
      · simp
      · simpa using show Permitted minus by decide
    have hfrac : ∀ b ∈ ft, Permitted b := by
      cases hf with
      | none => simp
      | some hd => exact List.forall_mem_cons.mpr ⟨by decide, hd.permitted⟩
    have hexp : ∀ b ∈ et, Permitted b := by
      cases he with
      | none => simp
      | some hc hg hd =>
        refine List.forall_mem_cons.mpr ⟨?_, List.forall_mem_append.mpr ⟨?_, hd.permitted⟩⟩
        · rcases hc with rfl | rfl
          all_goals decide
        · cases hg with
          | none => simp
          | plus => simpa using show Permitted plus by decide
          | minus => simpa using show Permitted minus by decide
    exact List.forall_mem_append.mpr ⟨hsign, List.forall_mem_append.mpr ⟨hi.1.permitted,
      List.forall_mem_append.mpr ⟨hfrac, hexp⟩⟩⟩

/-- Between two bytes. -/
theorem permitted_between {l : Bytes} {b c : UInt8} (hb : Permitted b) (hl : ∀ x ∈ l, Permitted x)
    (hc : Permitted c) : ∀ x ∈ b :: (l ++ [c]), Permitted x :=
  List.forall_mem_cons.mpr ⟨hb, List.forall_mem_append.mpr ⟨hl, by simpa using hc⟩⟩

mutual

theorem Val.permitted {t : Bytes} {v : Value} : Val t v → ∀ b ∈ t, Permitted b
  | .nullText => by decide +kernel
  | .trueText => by decide +kernel
  | .falseText => by decide +kernel
  | .number hq => hq.permitted
  | .string hs => permitted_between (by decide) hs.permitted (by decide)
  | .emptyArray hw => permitted_between (by decide) hw.permitted (by decide)
  | .array h => permitted_between (by decide) (Elements.permitted h) (by decide)
  | .emptyObject hw => permitted_between (by decide) hw.permitted (by decide)
  | .object h => permitted_between (by decide) (Members.permitted h) (by decide)

theorem Element.permitted {t : Bytes} {v : Value} : Element t v → ∀ b ∈ t, Permitted b
  | .mk hw h hw' =>
    List.forall_mem_append.mpr ⟨hw.permitted, List.forall_mem_append.mpr ⟨Val.permitted h, hw'.permitted⟩⟩

theorem Elements.permitted {t : Bytes} {vs : List Value} : Elements t vs → ∀ b ∈ t, Permitted b
  | .one h => Element.permitted h
  | .cons h hs =>
    List.forall_mem_append.mpr ⟨Element.permitted h, List.forall_mem_cons.mpr ⟨by decide, Elements.permitted hs⟩⟩

theorem Member.permitted {t : Bytes} {m : List JChar × Value} : Member t m → ∀ b ∈ t, Permitted b
  | .mk hw hk hw' h =>
    List.forall_mem_append.mpr ⟨hw.permitted, List.forall_mem_cons.mpr ⟨by decide,
      List.forall_mem_append.mpr ⟨hk.permitted, List.forall_mem_cons.mpr ⟨by decide,
        List.forall_mem_append.mpr ⟨hw'.permitted, List.forall_mem_cons.mpr ⟨by decide, Element.permitted h⟩⟩⟩⟩⟩⟩

theorem Members.permitted {t : Bytes} {ms : List (List JChar × Value)} : Members t ms → ∀ b ∈ t, Permitted b
  | .one h => Member.permitted h
  | .cons h hs =>
    List.forall_mem_append.mpr ⟨Member.permitted h, List.forall_mem_cons.mpr ⟨by decide, Members.permitted hs⟩⟩

end

/-! ## Writing -/

theorem Element.bare {t : Bytes} {v : Value} (h : Val t v) : Element t v := by
  have hnil : Ws [] := by simp [Ws]
  have he := Element.mk hnil h hnil
  rwa [List.nil_append, List.append_nil] at he

theorem Member.bare {k t : Bytes} {key : List JChar} {v : Value} (hk : Characters k key) (h : Val t v) :
    Member (quote :: (k ++ quote :: colon :: t)) (key, v) := by
  have hnil : Ws [] := by simp [Ws]
  exact Member.mk hnil hk hnil (.bare h)

/-- A string escaped byte by byte. -/
theorem Characters.flatMap {f : UInt8 → Bytes} {s : Bytes} (h : ∀ b ∈ s, Character (f b) (.byte b)) :
    Characters (s.flatMap f) (ofBytes s) := by
  induction s with
  | nil => exact .nil
  | cons b s ih => exact .cons (h b List.mem_cons_self) (ih fun c hc => h c (List.mem_cons_of_mem _ hc))

/-- Decimal text has no zero in front but that of zero. -/
theorem natText_head_zero (n : Nat) (h : (natText n).head? = some zero) : n = 0 := by
  induction n using Nat.strongRecOn with
  | ind n ih =>
    rcases Nat.lt_or_ge n 10 with hn | hn
    · have htext : natText n = ofChars [n.digitChar] := by rw [natText, Nat.toDigits_of_lt_base hn]
      rw [htext] at h
      interval_cases n
      · rfl
      all_goals
        revert h
        decide
    · have htext : natText n = natText (n / 10) ++ ofChars [(n % 10).digitChar] := by
        rw [natText, Nat.toDigits_of_base_le (by decide) hn, natText, ofChars, ofChars, ofChars, List.map_append]
      rw [htext, List.head?_append_of_ne_nil _ (natText_ne_nil _)] at h
      have := ih (n / 10) (by omega) h
      omega

theorem natText_intPart (n : Nat) : IntPart (natText n) := by
  refine ⟨⟨natText_ne_nil n, natText_digits n⟩, fun h => ?_⟩
  rw [natText_head_zero n h]
  decide

/-- A number without fraction and exponent. -/
theorem Numeral.whole (neg : Bool) (n : Nat) :
    Numeral ((if neg then [minus] else []) ++ natText n) ((if neg then -1 else 1) * (n : ℚ)) := by
  have hvalue : numeralValue neg (natText n) [] 0 = (if neg then -1 else 1) * (n : ℚ) := by
    rw [numeralValue, List.append_nil, natValue_natText, List.length_nil, Nat.cast_zero, sub_zero, zpow_zero, mul_one]
  have h := Numeral.mk neg (natText_intPart n) .none .none
  rwa [hvalue, List.append_nil, List.append_nil] at h

theorem Numeral.nat (n : Nat) : Numeral (natText n) n := by
  have h := Numeral.whole false n
  rwa [if_neg (by decide), if_neg (by decide), List.nil_append, one_mul] at h

theorem Numeral.int (i : Int) : Numeral (intText i) i := by
  have hcast : ((i.natAbs : Int) : ℚ) = (i.natAbs : ℚ) := Int.cast_natCast _
  unfold intText
  split
  · rename_i hneg
    have habs : i = -(i.natAbs : Int) := by omega
    have h := Numeral.whole true i.natAbs
    rw [if_pos rfl, if_pos rfl, neg_one_mul, ← hcast, ← Int.cast_neg, ← habs] at h
    exact h
  · rename_i hpos
    have habs : (i.natAbs : Int) = i := by omega
    have h := Numeral.nat i.natAbs
    rwa [← hcast, habs] at h

end LanTalk.Lib.Json
