/-
  LanTalk.Lib.Quoted — flat object text `{"key":"value",...}` read by searching: `after?`
  is a substring search (`std::string::find`, and the text past the match), and the
  lemmas say what it finds in such text when every quote inside a value is preceded by a
  backslash (`Guarded`).

  Proved, for keys of letters and underscores (`Word`):
  - `after?_text_ne` / `after?_bare_ne`: a search for `"key":` passes over a whole member
    of another name, whatever its value holds.
  - `after?_key`: it stops at its own member.
-/

import LanTalk.Lib.Bytes

namespace LanTalk.Lib

/-- The text past the first occurrence of `pat`. -/
def after? (pat : Bytes) : Bytes → Option Bytes
  | [] => if pat = [] then some [] else none
  | b :: l => if pat <+: b :: l then some ((b :: l).drop pat.length) else after? pat l

theorem after?_cons_ne {pat l : Bytes} {b : UInt8} (h : ¬ pat <+: b :: l) :
    after? pat (b :: l) = after? pat l := by
  simp only [after?, if_neg h]

/-- Text with no byte the pattern starts with is passed over. -/
theorem after?_skip {q : UInt8} {pat l r : Bytes} (h : ∀ b ∈ l, b ≠ q) :
    after? (q :: pat) (l ++ r) = after? (q :: pat) r := by
  induction l with
  | nil => rfl
  | cons b l ih =>
    rw [List.cons_append, after?_cons_ne, ih (fun c hc => h c (List.mem_cons_of_mem _ hc))]
    intro hp
    exact h b List.mem_cons_self (List.cons_prefix_cons.mp hp).1.symm

theorem after?_append (pat : Bytes) (hp : pat ≠ []) (r : Bytes) : after? pat (pat ++ r) = some r := by
  obtain ⟨b, pat, rfl⟩ := List.exists_cons_of_ne_nil hp
  have h : b :: pat <+: b :: (pat ++ r) := ⟨r, rfl⟩
  simp only [List.cons_append, after?, if_pos h]
  simp

/-- A match takes the pattern's bytes. -/
theorem after?_length {pat l r : Bytes} (h : after? pat l = some r) : pat.length + r.length ≤ l.length := by
  induction l with
  | nil =>
    rw [after?] at h
    split at h
    · rename_i hp
      cases h
      simp [hp]
    · cases h
  | cons b l ih =>
    rw [after?] at h
    split at h
    · rename_i hp
      cases h
      have hlen := hp.length_le
      rw [List.length_drop]
      omega
    · have := ih h
      rw [List.length_cons]
      omega

/-- The first match is still the first when the text goes on. -/
theorem after?_extend {pat l r : Bytes} (hne : pat ≠ []) (h : after? pat l = some r) (x : Bytes) :
    after? pat (l ++ x) = some (r ++ x) := by
  induction l with
  | nil =>
    rw [after?, if_neg hne] at h
    cases h
  | cons b l ih =>
    rw [after?] at h
    split at h
    · rename_i hp
      cases h
      have hp' : pat <+: b :: (l ++ x) := hp.trans ⟨x, rfl⟩
      rw [List.cons_append, after?, if_pos hp', ← List.cons_append, List.drop_append_of_le_length hp.length_le]
    · rename_i hp
      rw [List.cons_append, after?_cons_ne, ih h]
      intro hx
      -- the match further on shows that `l` is as long as the pattern
      have hlen := after?_length h
      have hb : b :: l <+: b :: (l ++ x) := ⟨x, rfl⟩
      exact hp (List.prefix_of_prefix_length_le hx hb (by rw [List.length_cons]; omega))

/-! ## Words -/

def isWordByte (b : UInt8) : Bool :=
  (decide (97 ≤ b.toNat) && decide (b.toNat ≤ 122)) || (decide (65 ≤ b.toNat) && decide (b.toNat ≤ 90)) || b == 95

/-- A name of letters and underscores. -/
def Word (k : Bytes) : Prop := k ≠ [] ∧ ∀ b ∈ k, isWordByte b = true

instance (k : Bytes) : Decidable (Word k) :=
  @instDecidableAnd _ _ inferInstance (List.decidableBAll (fun b => isWordByte b = true) k)

theorem Word.ne {k : Bytes} (hk : Word k) {c : UInt8} (hc : isWordByte c = false) : ∀ b ∈ k, b ≠ c := by
  intro b hb e
  rw [e] at hb
  rw [hk.2 c hb] at hc
  cases hc

/-- Two words before a quote match only if they are one. -/
theorem word_agree {k k' p r : Bytes} (hk : ∀ b ∈ k, b ≠ quote) (hk' : ∀ b ∈ k', b ≠ quote)
    (h : k ++ quote :: p <+: k' ++ quote :: r) : k = k' := by
  induction k generalizing k' with
  | nil =>
    cases k' with
    | nil => rfl
    | cons b k' => exact absurd (List.cons_prefix_cons.mp h).1.symm (hk' b List.mem_cons_self)
  | cons a k ih =>
    cases k' with
    | nil => exact absurd (List.cons_prefix_cons.mp h).1 (hk a List.mem_cons_self)
    | cons b k' =>
      obtain ⟨rfl, h'⟩ := List.cons_prefix_cons.mp h
      rw [ih (fun c hc => hk c (List.mem_cons_of_mem _ hc)) (fun c hc => hk' c (List.mem_cons_of_mem _ hc)) h']

/-! ## Guarded text -/

/-- Every quote of `l` comes right after a backslash; `prev` is the byte before `l`. -/
def Guarded (prev : UInt8) : Bytes → Prop
  | [] => True
  | b :: l => (b = quote → prev = backslash) ∧ Guarded b l

theorem Guarded.before {prev : UInt8} {l : Bytes} (h : Guarded prev l) {i : Nat} (hi : l[i]? = some quote) :
    (prev :: l)[i]? = some backslash := by
  induction l generalizing prev i with
  | nil => cases hi
  | cons b l ih =>
    cases i with
    | zero => exact congrArg some (h.1 (Option.some.inj hi))
    | succ i => exact ih h.2 hi

/-- `key":` matches nowhere from inside a guarded value on: the quote after the key would
    be a guarded one, or the one that ends the value, which no colon follows. -/
theorem no_key_in_value {k tail e r : Bytes} {p sep : UInt8} (hk : ∀ b ∈ k, b ≠ quote ∧ b ≠ backslash)
    (hp : p ≠ backslash) (he : Guarded p e) (hsep : sep ≠ colon) :
    ¬ (k ++ quote :: colon :: tail) <+: (e ++ quote :: sep :: r) := by
  induction k generalizing p e with
  | nil =>
    cases e with
    | nil =>
      intro h
      exact hsep (List.cons_prefix_cons.mp (List.cons_prefix_cons.mp h).2).1.symm
    | cons x e =>
      intro h
      exact hp (he.1 (List.cons_prefix_cons.mp h).1.symm)
  | cons a k ih =>
    have ha := hk a List.mem_cons_self
    cases e with
    | nil =>
      intro h
      exact ha.1 (List.cons_prefix_cons.mp h).1
    | cons x e =>
      intro h
      obtain ⟨rfl, h'⟩ := List.cons_prefix_cons.mp h
      exact ih (fun b hb => hk b (List.mem_cons_of_mem _ hb)) ha.2 he.2 h'

/-! ## Members -/

/-- `"key":` and what else the search wants. -/
def keyPattern (k tail : Bytes) : Bytes := quote :: (k ++ quote :: colon :: tail)

section
variable {k k' : Bytes} {sep : UInt8} (tail : Bytes)

theorem Word.plain (hk : Word k) : ∀ b ∈ k, b ≠ quote ∧ b ≠ backslash :=
  fun b hb => ⟨hk.ne (by decide) b hb, hk.ne (by decide) b hb⟩

/-- A pattern never starts at a quote that `sep` follows. -/
theorem keyPattern_not_at_end (hk : Word k) (hsep : isWordByte sep = false) (r : Bytes) :
    ¬ keyPattern k tail <+: quote :: sep :: r := by
  intro h
  obtain ⟨a, k', rfl⟩ := List.exists_cons_of_ne_nil hk.1
  have h' := (List.cons_prefix_cons.mp (List.cons_prefix_cons.mp h).2).1
  exact hk.ne hsep a List.mem_cons_self h'

/-- The search passes over the rest of a guarded value and its closing quote. -/
theorem after?_value (hk : Word k) (hsep : isWordByte sep = false) (hc : sep ≠ colon) {e : Bytes} {p : UInt8}
    (he : Guarded p e) (r : Bytes) : after? (keyPattern k tail) (e ++ quote :: sep :: r) =
      after? (keyPattern k tail) (sep :: r) := by
  induction e generalizing p with
  | nil => exact after?_cons_ne (keyPattern_not_at_end tail hk hsep r)
  | cons x e ih =>
    rw [List.cons_append, after?_cons_ne, ih he.2]
    intro h
    obtain ⟨rfl, h'⟩ := List.cons_prefix_cons.mp h
    exact no_key_in_value hk.plain (by decide) he.2 hc h'

/-- It passes over a member's name where it does not match. -/
theorem after?_name_of_not (hk : Word k) (hk' : Word k') {v : Bytes}
    (hnot : ¬ keyPattern k tail <+: keyPattern k' v) :
    after? (keyPattern k tail) (keyPattern k' v) = after? (keyPattern k tail) v := by
  have hq : ∀ b ∈ k', b ≠ quote := hk'.ne (by decide)
  rw [keyPattern, keyPattern] at hnot ⊢
  rw [after?_cons_ne hnot, after?_skip hq, ← keyPattern, after?_cons_ne (keyPattern_not_at_end tail hk rfl v)]
  exact after?_skip (l := [colon]) (List.forall_mem_singleton.mpr (by decide))

/-- It passes over another member's name. -/
theorem after?_name (hk : Word k) (hk' : Word k') (hne : k ≠ k') (v : Bytes) :
    after? (keyPattern k tail) (keyPattern k' v) = after? (keyPattern k tail) v := by
  have hq : ∀ b ∈ k', b ≠ quote := hk'.ne (by decide)
  refine after?_name_of_not tail hk hk' fun h => ?_
  exact hne (word_agree (hk.ne (by decide)) hq (List.cons_prefix_cons.mp h).2)

/-- It passes over a whole member `"k'":"e"` of another name. -/
theorem after?_text_ne (hk : Word k) (hk' : Word k') (hne : k ≠ k') (hsep : isWordByte sep = false)
    (hc : sep ≠ colon) {e : Bytes} (he : Guarded quote e) (r : Bytes) :
    after? (keyPattern k tail) (keyPattern k' (quote :: (e ++ quote :: sep :: r))) =
      after? (keyPattern k tail) (sep :: r) := by
  rw [after?_name tail hk hk' hne, after?_cons_ne, after?_value tail hk hsep hc he]
  intro h
  exact no_key_in_value hk.plain (by decide) he hc (List.cons_prefix_cons.mp h).2

/-- It passes over a member `"k'":v` of another name whose value has no quote. -/
theorem after?_bare_ne (hk : Word k) (hk' : Word k') (hne : k ≠ k') {v : Bytes} (hv : ∀ b ∈ v, b ≠ quote)
    (r : Bytes) :
    after? (keyPattern k tail) (keyPattern k' (v ++ r)) = after? (keyPattern k tail) r := by
  rw [after?_name tail hk hk' hne]
  exact after?_skip hv

/-- A byte between members. -/
theorem after?_sep (hsep : sep ≠ quote) (r : Bytes) :
    after? (keyPattern k tail) (sep :: r) = after? (keyPattern k tail) r :=
  after?_skip (l := [sep]) (by simpa using hsep)

/-- It stops at its own member. -/
theorem after?_key (r : Bytes) : after? (keyPattern k tail) (keyPattern k (tail ++ r)) = some r := by
  have h : keyPattern k (tail ++ r) = keyPattern k tail ++ r := by simp [keyPattern]
  rw [h, after?_append _ (by simp [keyPattern])]

end

end LanTalk.Lib
