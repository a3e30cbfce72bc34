/-
  LanTalk.Config.BadLines — files with values that are no numbers for a numeric key.

  `load`'s loop calls `set` on every line and catches nothing: a value that the key's
  conversion throws on ends the loading, and one that it takes is stored whether or not the
  key can have it.

  Proved:
  - `accepted_iff_parses`: no line throws if and only if every numeric key's value has a number in
    front that its conversion takes.
  - `bad_lines_skipped_iff`: when a file is loaded as the one without its bad lines is.
-/

import LanTalk.Config.SetKey
import LanTalk.Config.Numbers

namespace LanTalk.Config

open LanTalk.Lib

/-- The key's conversion takes the value and does not throw. -/
def Key.takes (b : Build) (k : Key) (value : Bytes) : Bool := (leading? value).any (k.converts b)

/-- It takes what the lines give every numeric key. -/
def Parses (b : Build) (ls : List Bytes) : Prop :=
  ∀ l ∈ ls, ∀ k : Key, k.isNumeric = true → ∀ value, valueFor k l = some value → k.takes b value = true

/-- No numeric key is given what is not a whole number of its field's type. -/
def goodLine (l : Bytes) : Bool := Key.all.all fun k => !k.isNumeric || (valueFor k l).all k.valid

def goodLines (ls : List Bytes) : List Bytes := ls.filter goodLine

/-! ## What throws -/

section
variable {b : Build} {c x y : AppConfig} {j k : Key} {value : Bytes} {l : Bytes} {ls : List Bytes}

/-- A line names one key. -/
theorem valueFor_unique {v w : Bytes} (hj : valueFor j l = some v) (hk : valueFor k l = some w) : j = k ∧ v = w := by
  rw [valueFor_eq_some] at hj hk
  rw [hj] at hk
  obtain ⟨hn, hv⟩ := Prod.mk.inj (Option.some.inj hk)
  exact ⟨Key.name_inj hn, hv⟩

theorem assign_ne_none_iff (hk : k.isNumeric = true) : k.assign b c value ≠ none ↔ k.takes b value = true := by
  rw [Key.takes, Option.any_eq_true]
  rcases assign_number b c hk value with ⟨hn, hconv⟩ | ⟨i, c', hi, hconv, hs, -⟩
  · refine ⟨fun h => absurd hn h, fun h => ?_⟩
    obtain ⟨i, hi, hi'⟩ := h
    rw [hconv i hi] at hi'
    cases hi'
  · rw [hs]
    exact ⟨fun _ => ⟨i, hi, hconv⟩, fun _ => Option.some_ne_none _⟩

theorem assign_not_numeric (hk : k.isNumeric = false) : k.assign b c value ≠ none := by
  cases k
  all_goals first | exact Option.some_ne_none _ | exact absurd hk (by decide)

/-- Only a numeric key's conversion throws. -/
theorem accepted_iff_parses : Accepted b c ls ↔ Parses b ls := by
  have hset : ∀ k : Key, ∀ value, set b c k.name value ≠ none ↔ k.assign b c value ≠ none := fun k value => by
    rw [set_name, ne_eq, Option.map_eq_none_iff]
  constructor
  · intro h l hl k hk value hv
    exact (assign_ne_none_iff hk).mp ((hset k value).mp (h l hl k.name value (valueFor_eq_some.mp hv)))
  · intro h l hl key value hs
    by_cases hkey : ∃ k : Key, key = k.name
    · obtain ⟨k, rfl⟩ := hkey
      rw [hset]
      cases hk : k.isNumeric with
      | true => exact (assign_ne_none_iff hk).mpr (h l hl k hk value (valueFor_eq_some.mpr hs))
      | false => exact assign_not_numeric hk
    · rw [set_unknown (not_exists.mp hkey)]
      exact Option.some_ne_none _

theorem readLines_parses : (∃ y, readLines b x ls = some y) ↔ Parses b ls :=
  (readLines_some_iff x).trans accepted_iff_parses

theorem takes_of_valid (h : k.valid value = true) : k.takes b value = true := by
  obtain ⟨i, hi, hfits⟩ := valid_iff.mp h
  rw [Key.takes, Option.any_eq_true]
  exact ⟨i, leading?_of_whole? hi, converts_of_fits hfits⟩

/-! ## Lines taken out -/

theorem goodLine_iff : goodLine l = true ↔
    ∀ k : Key, k.isNumeric = true → ∀ value, valueFor k l = some value → k.valid value = true := by
  simp only [goodLine, List.all_eq_true, Bool.or_eq_true, Bool.not_eq_true', Option.all_eq_true]
  constructor
  · intro h k hk value hv
    rcases h k k.mem_all with hk' | hall
    · rw [hk'] at hk
      cases hk
    · exact hall value hv
  · intro h k _
    cases hk : k.isNumeric with
    | true => exact Or.inr (h k hk)
    | false => exact Or.inl rfl

theorem parses_goodLines (b : Build) (ls : List Bytes) : Parses b (goodLines ls) := by
  intro l hl k hk value hv
  exact takes_of_valid (goodLine_iff.mp (List.mem_filter.mp hl).2 k hk value hv)

/-- What a line that is taken out does not name is as it was. -/
theorem lastValue_filter {p : Bytes → Bool} (hp : ∀ l, p l = false → valueFor j l = none) :
    lastValue j (ls.filter p) = lastValue j ls := by
  induction ls with
  | nil => rfl
  | cons l ls ih =>
    cases hl : p l with
    | true => rw [List.filter_cons_of_pos hl, lastValue, lastValue, ih]
    | false => rw [List.filter_cons_of_neg (by simp [hl]), lastValue, hp l hl, Option.or_none, ih]

/-- A key that is not numeric is named by good lines only. -/
theorem lastValue_goodLines (hj : j.isNumeric = false) : lastValue j (goodLines ls) = lastValue j ls := by
  refine lastValue_filter fun l hl => ?_
  by_contra hne
  obtain ⟨v, hv⟩ := Option.ne_none_iff_exists'.mp hne
  have hgood : goodLine l = true := by
    refine goodLine_iff.mpr fun k hk w hw => ?_
    obtain ⟨rfl, -⟩ := valueFor_unique hv hw
    rw [hj] at hk
    cases hk
  rw [hgood] at hl
  cases hl

theorem lastValue_eq_none_iff : lastValue j ls = none ↔ ∀ l ∈ ls, valueFor j l = none := by
  induction ls with
  | nil => exact ⟨fun _ l hl => (by cases hl), fun _ => rfl⟩
  | cons l ls ih => rw [lastValue, Option.or_eq_none_iff, ih, List.forall_mem_cons, and_comm]

theorem lastValue_mem (h : lastValue j ls = some value) : ∃ l ∈ ls, valueFor j l = some value := by
  induction ls with
  | nil => cases h
  | cons l ls ih =>
    rcases Option.or_eq_some_iff.mp h with hls | ⟨-, hl⟩
    · obtain ⟨l', hmem, hv⟩ := ih hls
      exact ⟨l', List.mem_cons_of_mem _ hmem, hv⟩
    · exact ⟨l, List.mem_cons_self, hl⟩

theorem goodLines_none (h : lastValue j ls = none) : lastValue j (goodLines ls) = none :=
  lastValue_eq_none_iff.mpr fun l hl => lastValue_eq_none_iff.mp h l (List.mem_of_mem_filter hl)

/-- A key's last line, if it is good, is the last of the good ones. -/
theorem lastValue_valid (h : lastValue j ls = some value) (hv : j.valid value = true) :
    lastValue j (goodLines ls) = some value := by
  induction ls with
  | nil => cases h
  | cons l ls ih =>
    rw [lastValue] at h
    cases hls : lastValue j ls with
    | some v =>
      rw [hls, Option.some_or] at h
      cases h
      have hgood := ih hls
      rw [goodLines] at hgood ⊢
      by_cases hl : goodLine l = true
      · rw [List.filter_cons_of_pos hl, lastValue, hgood, Option.some_or]
      · rw [List.filter_cons_of_neg hl, hgood]
    | none =>
      rw [hls, Option.none_or] at h
      have hl : goodLine l = true := by
        refine goodLine_iff.mpr fun k _ w hw => ?_
        obtain ⟨rfl, rfl⟩ := valueFor_unique h hw
        exact hv
      rw [goodLines, List.filter_cons_of_pos hl, lastValue, ← goodLines, goodLines_none hls, h]
      rfl

end

/-! ## What is loaded -/

section
variable {b : Build} {c d x x' y y' : AppConfig} {j : Key} {ls ls' : List Bytes}

theorem same_iff_number (hj : j.isNumeric = true) : j.Same c d ↔ j.number? c = j.number? d := by
  cases j
  case listen_port | discovery_port => simp [Key.Same, Key.number?, UInt16.toNat_inj]
  case max_message_size => simp [Key.Same, Key.number?, UInt32.toNat_inj]
  case connect_timeout_secs | read_timeout_secs | keepalive_interval_secs =>
    simp [Key.Same, Key.number?, Int32.toInt_inj]
  all_goals exact absurd hj (by decide)

theorem number_ensured (h : Host) (c : AppConfig) (j : Key) : j.number? (ensured h c) = j.number? c := by
  rw [ensured_eq]
  cases j <;> rfl

/-- The number a key has after lines that are read. -/
theorem number_readLines (hj : j.isNumeric = true) (h : readLines b c ls = some y) :
    j.number? y = (lastValue j ls).elim (j.number? c) fun value => (leading? value).map j.narrow := by
  obtain ⟨hkeep, hset⟩ := readLines_key (j := j) c h
  cases hl : lastValue j ls with
  | none => exact (same_iff_number hj).mp (hkeep hl)
  | some value =>
    obtain ⟨z, hz, hyz⟩ := hset value hl
    rcases assign_number b c hj value with ⟨hn, -⟩ | ⟨i, c', hi, -, hs, hnum⟩
    · rw [hn] at hz
      cases hz
    · rw [hs] at hz
      cases hz
      rw [(same_iff_number hj).mp hyz, hnum, Option.elim_some, hi, Option.map_some]

/-- Lines that give a key one last value leave it the same. -/
theorem same_of_lastValue (hj : lastValue j ls = lastValue j ls') (h : readLines b c ls = some y)
    (h' : readLines b c ls' = some y') : j.Same y y' := by
  obtain ⟨hkeep, hset⟩ := readLines_key (j := j) c h
  obtain ⟨hkeep', hset'⟩ := readLines_key (j := j) c h'
  cases hl : lastValue j ls with
  | none => exact (hkeep hl).trans (hkeep' (hj ▸ hl)).symm
  | some value =>
    obtain ⟨z, hz, hyz⟩ := hset value hl
    obtain ⟨z', hz', hyz'⟩ := hset' value (hj ▸ hl)
    rw [hz] at hz'
    cases hz'
    exact hyz.trans hyz'.symm

end

/-- The configuration that `load` leaves of a file that is there and can be read. -/
def loadText (b : Build) (h : Host) (writable : Bool) (c : AppConfig) (text : Bytes) :
    Option (Bool × AppConfig × Disk) :=
  load b h { file := some text, readable := true, writable := writable } c

/-- `load` returns, with every bad line skipped: it answers true and leaves the disk as it
    is and what the good lines alone make of the configuration. -/
def SkipsBad (b : Build) (h : Host) (writable : Bool) (c : AppConfig) (text : Bytes) : Prop :=
  ∃ x, readLines b c (goodLines (lines lineBreak text)) = some x ∧
    loadText b h writable c text =
      some (true, ensured h x, { file := some text, readable := true, writable := writable })

/-- The number that the good lines leave a key: the last of them that names it, or the one it
    had. -/
def goodNumber (c : AppConfig) (ls : List Bytes) (k : Key) : Option Int :=
  (lastValue k (goodLines ls)).elim (k.number? c) whole?

theorem number_goodLines {b : Build} {c x : AppConfig} {j : Key} {ls : List Bytes} (hj : j.isNumeric = true)
    (h : readLines b c (goodLines ls) = some x) : j.number? x = goodNumber c ls j := by
  rw [number_readLines hj h, goodNumber]
  cases hl : lastValue j (goodLines ls) with
  | none => rfl
  | some value =>
    obtain ⟨l, hmem, hv⟩ := lastValue_mem hl
    obtain ⟨i, hi, hfits⟩ := valid_iff.mp (goodLine_iff.mp (List.mem_filter.mp hmem).2 j hj value hv)
    rw [Option.elim_some, Option.elim_some, leading?_of_whole? hi, hi, Option.map_some, narrow_of_fits hfits]

/-- A file is loaded with its bad lines skipped if and only if every numeric key's value has a
    number in front that its conversion takes, and the last value of each is a whole number
    of its field's type, or is stored as the number that the good lines leave the key. -/
theorem bad_lines_skipped_iff (b : Build) (h : Host) (writable : Bool) (c : AppConfig) (text : Bytes) :
    SkipsBad b h writable c text ↔
      Parses b (lines lineBreak text) ∧
      ∀ k : Key, k.isNumeric = true → ∀ value, lastValue k (lines lineBreak text) = some value →
        k.valid value = true ∨ (leading? value).map k.narrow = goodNumber c (lines lineBreak text) k := by
  obtain ⟨x, hx⟩ := (readLines_parses (x := c)).mpr (parses_goodLines b (lines lineBreak text))
  rw [← readLines_parses (x := c), SkipsBad]
  simp only [loadText, load, if_true, hx]
  constructor
  · intro hskip
    obtain ⟨x', hx', hload⟩ := hskip
    cases hx'
    obtain ⟨y, hy, he⟩ := Option.map_eq_some_iff.mp hload
    have hxy : ensured h y = ensured h x := (Prod.mk.inj (Prod.mk.inj he).2).1
    refine ⟨⟨y, hy⟩, fun k hk value hv => Or.inr ?_⟩
    have hnum := number_readLines hk hy
    rw [hv, Option.elim_some] at hnum
    rw [← number_goodLines hk hx, ← number_ensured h x, ← hxy, number_ensured, hnum]
  · intro hcond
    obtain ⟨⟨y, hy⟩, hlast⟩ := hcond
    have hsame : ∀ k : Key, k.Same y x := by
      intro k
      cases hk : k.isNumeric with
      | false => exact same_of_lastValue (lastValue_goodLines hk).symm hy hx
      | true =>
        cases hv : lastValue k (lines lineBreak text) with
        | none => exact same_of_lastValue (hv.trans (goodLines_none hv).symm) hy hx
        | some value =>
          rcases hlast k hk value hv with hgood | hnum
          · exact same_of_lastValue (hv.trans (lastValue_valid hv hgood).symm) hy hx
          · rw [same_iff_number hk, number_readLines hk hy, hv, Option.elim_some, hnum, number_goodLines hk hx]
    refine ⟨x, rfl, ?_⟩
    rw [hy, Option.map_some, Key.same_ext hsame]

/-- One line that is no number, and nothing is loaded: the exception leaves `load`. -/
theorem bad_line_ends_loading :
    let b : Build := { os := .linux, ulongBits := 64, wide := by decide }
    let h : Host := { random := none, hostname := none }
    let text := str "listen_port = abc\nrequire_auth = true\n"
    loadText b h true (new b h) text = none ∧ ¬ SkipsBad b h true (new b h) text := by
  intro b h text
  have hnone : loadText b h true (new b h) text = none := by decide +kernel
  refine ⟨hnone, fun hskip => ?_⟩
  obtain ⟨x, -, hload⟩ := hskip
  rw [hnone] at hload
  cases hload

end LanTalk.Config
