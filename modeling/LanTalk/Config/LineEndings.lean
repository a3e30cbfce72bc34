/-
  LanTalk.Config.LineEndings — a file whose lines end in a carriage return and a line break.

  `std::getline` takes the line break off and leaves the carriage return, and `trim` takes
  off blanks and tabs only: the return stays at the end of every value that has a line
  break behind it. The conversions to numbers stop before it; a string keeps it, and no
  value is `true` with it.

  Proved:
  - `setting?_return`: what the return changes in one line.
  - `line_endings_iff`: when a file is loaded as the one with the other line endings is.
-/

import LanTalk.Config.BadLines

namespace LanTalk.Config

open LanTalk.Lib

/-- A carriage return. -/
def cr : UInt8 := 13

/-- The text with a carriage return before every line break. -/
def crlf (text : Bytes) : Bytes :=
  text.flatMap fun b => if b = lineBreak then [cr] ++ [lineBreak] else [b]

/-- A value makes the same of a key with a carriage return behind it, counting what `load`
    fills in. -/
def Key.SameWithReturn (h : Host) (value : Bytes) : Key → Prop
  | .listen_port | .discovery_port | .max_message_size => True
  | .connect_timeout_secs | .read_timeout_secs | .keepalive_interval_secs => True
  | .enable_ipv6 | .discovery_enabled | .require_auth => value ≠ str "true"
  | .display_name => value = [] ∧ readHostname h = [cr]
  | .device_id | .platform | .psk_hash | .log_level | .log_file => False

/-! ## One line -/

theorem trim_return (w : Bytes) : trim (w ++ [cr]) = w.dropWhile blank ++ [cr] := by
  have hr : blank cr = false := by decide
  have hd : (w ++ [cr]).dropWhile blank = w.dropWhile blank ++ [cr] := by
    rw [List.dropWhile_append, List.dropWhile_cons_of_neg (by simp [hr])]
    split
    · rename_i hnil
      rw [List.isEmpty_iff.mp hnil, List.nil_append]
    · rfl
  rw [trim, hd, List.rdropWhile_concat_neg _ _ _ (by simp [hr])]

/-- What is trimmed to nothing is blank. -/
theorem dropWhile_of_trim {w : Bytes} (hw : trim w = []) : w.dropWhile blank = [] := by
  have hall := List.rdropWhile_eq_nil_iff.mp hw
  have hhead := List.head?_dropWhile_not blank w
  cases hd : w.dropWhile blank with
  | nil => rfl
  | cons x r =>
    rw [hd] at hall hhead
    have hx : blank x = true := hall x List.mem_cons_self
    simp [hx] at hhead

theorem trim_return_ne (w : Bytes) : trim (w ++ [cr]) ≠ trim w := by
  intro h
  have hle : (trim w).length ≤ (w.dropWhile blank).length := (List.rdropWhile_prefix _ _).length_le
  rw [← h, trim_return, List.length_append, List.length_singleton] at hle
  omega

theorem return_mem (w : Bytes) : cr ∈ trim (w ++ [cr]) := by
  rw [trim_return]
  exact List.mem_append_right _ (List.mem_singleton.mpr rfl)

theorem isspace_of_blank {x : UInt8} (h : blank x = true) : isspace x = true := by
  simp only [blank, Bool.or_eq_true, beq_iff_eq] at h
  rcases h with rfl | rfl <;> decide

/-- Trimming takes nothing from the number in front. -/
theorem leading?_trim (s : Bytes) : leading? (trim s) = leading? s := by
  have hback : ∀ x ∈ (s.dropWhile blank).rtakeWhile blank, isspace x = true :=
    fun x hx => isspace_of_blank (List.mem_rtakeWhile_imp hx)
  have hfront : ∀ x ∈ s.takeWhile blank, isspace x = true := fun x hx => isspace_of_blank (List.mem_takeWhile_imp hx)
  calc leading? (trim s)
      = leading? ((s.dropWhile blank).rdropWhile blank ++ (s.dropWhile blank).rtakeWhile blank) :=
        (leading?_trailing _ hback).symm
    _ = leading? (s.dropWhile blank) := by rw [List.rdropWhile_append_rtakeWhile]
    _ = leading? (s.takeWhile blank ++ s.dropWhile blank) := (leading?_blanks hfront _).symm
    _ = leading? s := by rw [List.takeWhile_append_dropWhile]

/-- Nor does the return add to it. -/
theorem leading?_return (w : Bytes) : leading? (trim (w ++ [cr])) = leading? (trim w) := by
  rw [leading?_trim, leading?_trim]
  exact leading?_trailing w fun x hx => by rw [List.mem_singleton.mp hx]; decide

/-- No key's name is behind an opening bracket. -/
theorem setting?_bracket (rest : Bytes) (k : Key) (value : Bytes) : setting? (91 :: rest) ≠ some (k.name, value) := by
  intro h
  obtain ⟨x, n, hk, -, -, hx, -⟩ := k.name_plain
  unfold setting? at h
  split at h
  · cases h
  · rename_i first rest' heq
    obtain ⟨rfl, rfl⟩ := List.cons.inj heq
    simp only at h
    split_ifs at h
    have hname := (Prod.mk.inj (Option.some.inj h)).1
    have htake : (91 :: rest).takeWhile (· != equals) = 91 :: rest.takeWhile (· != equals) :=
      List.takeWhile_cons_of_pos (by decide)
    have hpre : trim (91 :: rest.takeWhile (· != equals)) <+: 91 :: rest.takeWhile (· != equals) := by
      rw [trim, List.dropWhile_cons_of_neg (by decide)]
      exact List.rdropWhile_prefix _ _
    rw [← htake, hname, hk, htake] at hpre
    exact hx (List.cons_prefix_cons.mp hpre).1

/-- With the return at its end a line that is no section gives its key the same value but for
    the end. -/
theorem setting?_return {first : UInt8} (hfirst : first ≠ 91) (rest : Bytes) :
    (setting? (first :: rest) = none ∧ setting? (first :: rest ++ [cr]) = none) ∨
    ∃ key w, setting? (first :: rest) = some (key, trim w) ∧
      setting? (first :: rest ++ [cr]) = some (key, trim (w ++ [cr])) := by
  have hne : ¬ equals = cr := by decide
  rw [List.cons_append]
  simp only [setting?, hfirst, false_and, if_false]
  by_cases hcomment : first = 59 ∨ first = 35
  · exact Or.inl ⟨if_pos hcomment, if_pos hcomment⟩
  rw [if_neg hcomment, if_neg hcomment, ← List.cons_append]
  by_cases heq : equals ∈ first :: rest
  · obtain ⟨p, w, hl, hp⟩ := List.eq_append_cons_of_mem heq
    rw [if_pos heq, if_pos (List.mem_append_left _ heq), hl, List.append_assoc, List.cons_append,
      (sides_equals hp w).1, (sides_equals hp w).2, (sides_equals hp _).1, (sides_equals hp _).2]
    exact Or.inr ⟨_, _, rfl, rfl⟩
  · have heq' : equals ∉ first :: rest ++ [cr] := fun h =>
      (List.mem_append.mp h).elim heq fun h => hne (List.mem_singleton.mp h)
    exact Or.inl ⟨if_neg heq, if_neg heq'⟩

/-- What the return changes for a key. -/
theorem valueFor_return (j : Key) (l : Bytes) :
    (valueFor j l = none ∧ valueFor j (l ++ [cr]) = none) ∨
    ∃ w, valueFor j l = some (trim w) ∧ valueFor j (l ++ [cr]) = some (trim (w ++ [cr])) := by
  have hnone : ∀ {l}, (∀ v, setting? l ≠ some (j.name, v)) → valueFor j l = none := fun {l} hs => by
    by_contra hne
    obtain ⟨v, hv⟩ := Option.ne_none_iff_exists'.mp hne
    exact hs v (valueFor_eq_some.mp hv)
  cases l with
  | nil => exact Or.inl ⟨rfl, rfl⟩
  | cons first rest =>
    by_cases hfirst : first = 91
    · subst hfirst
      exact Or.inl ⟨hnone (setting?_bracket rest j), hnone (setting?_bracket (rest ++ [cr]) j)⟩
    · rcases setting?_return hfirst rest with ⟨hs, hs'⟩ | ⟨key, w, hs, hs'⟩
      · exact Or.inl ⟨by rw [valueFor, hs]; rfl, by rw [valueFor, hs']; rfl⟩
      · by_cases hkey : key = j.name
        · subst hkey
          exact Or.inr ⟨w, valueFor_eq_some.mpr hs, valueFor_eq_some.mpr hs'⟩
        · exact Or.inl ⟨by rw [valueFor, hs]; exact if_neg hkey, by rw [valueFor, hs']; exact if_neg hkey⟩

/-! ## All lines -/

section
variable {b : Build} {j : Key} {ls ls' : List Bytes}

theorem lastValue_append (j : Key) (ls ls' : List Bytes) :
    lastValue j (ls ++ ls') = (lastValue j ls').or (lastValue j ls) := by
  induction ls with
  | nil => rw [List.nil_append, lastValue, Option.or_none]
  | cons l ls ih => rw [List.cons_append, lastValue, lastValue, ih, Option.or_assoc]

theorem lastValue_return (j : Key) (ls : List Bytes) :
    (lastValue j ls = none ∧ lastValue j (ls.map (· ++ [cr])) = none) ∨
    ∃ w, lastValue j ls = some (trim w) ∧
      lastValue j (ls.map (· ++ [cr])) = some (trim (w ++ [cr])) := by
  induction ls with
  | nil => exact Or.inl ⟨rfl, rfl⟩
  | cons l ls ih =>
    simp only [List.map_cons, lastValue]
    rcases ih with ⟨h, h'⟩ | ⟨w, h, h'⟩
    · rw [h, h', Option.none_or, Option.none_or]
      exact valueFor_return j l
    · rw [h, h']
      exact Or.inr ⟨w, rfl, rfl⟩

/-- The return makes no conversion throw, and keeps none from it. -/
theorem parses_return : Parses b (ls.map (· ++ [cr])) ↔ Parses b ls := by
  have hline : ∀ l, (∀ k : Key, k.isNumeric = true → ∀ v, valueFor k (l ++ [cr]) = some v →
      k.takes b v = true) ↔ ∀ k : Key, k.isNumeric = true → ∀ v, valueFor k l = some v → k.takes b v = true := by
    intro l
    refine forall_congr' fun k => forall_congr' fun _ => ?_
    rcases valueFor_return k l with ⟨h, h'⟩ | ⟨w, h, h'⟩
    · simp only [h, h']
    · simp only [h, h', Option.some.injEq, forall_eq', Key.takes, leading?_return]
  simp only [Parses, List.forall_mem_map, hline]

theorem parses_append : Parses b (ls ++ ls') ↔ Parses b ls ∧ Parses b ls' := List.forall_mem_append

end

/-! ## The configuration -/

section
variable {b : Build} {c y y' z z' : AppConfig} {h : Host} {k : Key} {w : Bytes}

/-- A conversion looks at the number in front only. -/
theorem assign_congr {v v' : Bytes} (hk : k.isNumeric = true) (hv : leading? v = leading? v') :
    k.assign b c v = k.assign b c v' := by
  have hint : stoi v = stoi v' := by rw [stoi_eq, stoi_eq, hv]
  have hlong : stoul b.ulongBits v = stoul b.ulongBits v' := by rw [stoul_eq, stoul_eq, hv]
  cases k
  all_goals first | exact absurd hk (by decide) | simp only [Key.assign, hint, hlong]

theorem return_ne_true (w : Bytes) : trim (w ++ [cr]) ≠ str "true" := by
  intro he
  have hm := return_mem w
  rw [he] at hm
  revert hm
  decide

theorem return_ne_nil (w : Bytes) : trim (w ++ [cr]) ≠ [] := List.ne_nil_of_mem (return_mem w)

/-- The name a host fills in is the value with the return only where it is a return. -/
theorem displayName_return (h : Host) (w : Bytes) :
    (trim (w ++ [cr]) =
      if trim w = [] then if readHostname h = [] then str "UnknownUser" else readHostname h else trim w) ↔
    trim w = [] ∧ readHostname h = [cr] := by
  by_cases hw : trim w = []
  · have hone : trim (w ++ [cr]) = [cr] := by
      rw [trim_return, dropWhile_of_trim hw, List.nil_append]
    rw [if_pos hw, hone]
    by_cases hn : readHostname h = []
    · rw [if_pos hn, hn]
      exact ⟨fun he => absurd he (by decide), fun ⟨_, he⟩ => absurd he (by decide)⟩
    · rw [if_neg hn]
      exact ⟨fun he => ⟨hw, he.symm⟩, fun he => he.2.symm⟩
  · rw [if_neg hw]
    exact ⟨fun he => absurd he (trim_return_ne w), fun he => absurd he.1 hw⟩

/-- Set to a value with and without the return, a key ends up the same if and only if it is
    one of those that do. -/
theorem same_return_iff (hz : k.assign b c (trim w) = some z)
    (hz' : k.assign b c (trim (w ++ [cr])) = some z') :
    k.Same (ensured h z') (ensured h z) ↔ k.SameWithReturn h (trim w) := by
  have hnum : k.isNumeric = true → k.Same (ensured h z') (ensured h z) := by
    intro hk
    rw [assign_congr hk (leading?_return w), hz] at hz'
    cases hz'
    exact .refl _ k
  have hbool : decide (trim (w ++ [cr]) = str "true") = decide (trim w = str "true") ↔
      trim w ≠ str "true" := by
    rw [decide_eq_false (return_ne_true w), eq_comm, decide_eq_false_iff_not]
  rw [ensured_eq, ensured_eq] at hnum ⊢
  cases k
  case listen_port | discovery_port | max_message_size => exact iff_of_true (hnum rfl) trivial
  case connect_timeout_secs | read_timeout_secs | keepalive_interval_secs => exact iff_of_true (hnum rfl) trivial
  all_goals
    cases hz
    cases hz'
  case enable_ipv6 | discovery_enabled | require_auth => exact hbool
  case display_name =>
    simp only [Key.Same, Key.SameWithReturn, if_neg (return_ne_nil w)]
    exact displayName_return h w
  case device_id =>
    simp only [Key.Same, Key.SameWithReturn, if_neg (return_ne_nil w), iff_false]
    split
    · intro he
      have hm := return_mem w
      rw [he] at hm
      exact absurd (generateUUID_visible h.random _ hm) (by decide)
    · exact trim_return_ne w
  all_goals exact iff_of_false (trim_return_ne w) id

/-- Read with the return behind lines that others follow, a key ends up the same if and only if
    one of the others names it or its last value makes the same of it. -/
theorem same_lines_iff {ls ls' : List Bytes} (hy : readLines b c (ls ++ ls') = some y)
    (hy' : readLines b c (ls.map (· ++ [cr]) ++ ls') = some y') :
    k.Same (ensured h y') (ensured h y) ↔
      lastValue k ls' ≠ none ∨ ∀ value, lastValue k ls = some value → k.SameWithReturn h value := by
  have hlast := lastValue_append k ls ls'
  have hlast' := lastValue_append k (ls.map (· ++ [cr])) ls'
  cases hl : lastValue k ls' with
  | some v =>
    rw [hl, Option.some_or] at hlast hlast'
    exact iff_of_true (same_ensured h (same_of_lastValue (hlast'.trans hlast.symm) hy' hy))
      (Or.inl (Option.some_ne_none v))
  | none =>
    rw [hl, Option.none_or] at hlast hlast'
    rcases lastValue_return k ls with ⟨hv, hv'⟩ | ⟨w, hv, hv'⟩
    · rw [hv] at hlast ⊢
      rw [hv'] at hlast'
      exact iff_of_true (same_ensured h (same_of_lastValue (hlast'.trans hlast.symm) hy' hy))
        (Or.inr fun value hvalue => (by cases hvalue))
    · obtain ⟨z, hz, hyz⟩ := (readLines_key (j := k) c hy).2 _ (hlast.trans hv)
      obtain ⟨z', hz', hyz'⟩ := (readLines_key (j := k) c hy').2 _ (hlast'.trans hv')
      have hsame : k.Same (ensured h y') (ensured h y) ↔ k.Same (ensured h z') (ensured h z) :=
        ⟨fun he => (same_ensured h hyz').symm.trans (he.trans (same_ensured h hyz)),
          fun he => (same_ensured h hyz').trans (he.trans (same_ensured h hyz).symm)⟩
      rw [hsame, same_return_iff hz hz', hv]
      exact ⟨fun he => Or.inr fun value hvalue => Option.some.inj hvalue ▸ he,
        fun he => he.elim (fun hne => absurd rfl hne) fun hall => hall _ rfl⟩

end

/-- A file with the other line endings makes the same configuration if and only if it makes
    none, since a conversion throws, or every key whose last value has a line break behind
    it is given the same by that value with a carriage return at its end. -/
theorem line_endings_iff (b : Build) (h : Host) (writable : Bool) (c : AppConfig) (text : Bytes) :
    (loadText b h writable c (crlf text)).map (·.2.1) = (loadText b h writable c text).map (·.2.1) ↔
      ¬ Parses b (lines lineBreak text) ∨
      ∀ k : Key, lastValue k (lastLine lineBreak text) ≠ none ∨
        ∀ value, lastValue k (brokenLines lineBreak text) = some value → k.SameWithReturn h value := by
  have hlines := lines_eq lineBreak text
  have hcrlf : lines lineBreak (crlf text) =
      (brokenLines lineBreak text).map (· ++ [cr]) ++ lastLine lineBreak text :=
    lines_marked (by decide) text
  have hload : ∀ s, (loadText b h writable c s).map (·.2.1) =
      (readLines b c (lines lineBreak s)).map (ensured h) := by
    intro s
    simp only [loadText, load, if_true, Option.map_map]
    rfl
  rw [hload, hload]
  have hparses : Parses b (lines lineBreak (crlf text)) ↔ Parses b (lines lineBreak text) := by
    rw [hlines, hcrlf, parses_append, parses_append, parses_return]
  by_cases hp : Parses b (lines lineBreak text)
  · obtain ⟨y, hy⟩ := (readLines_parses (x := c)).mpr hp
    obtain ⟨y', hy'⟩ := (readLines_parses (x := c)).mpr (hparses.mpr hp)
    rw [hlines] at hy
    rw [hcrlf] at hy'
    have hkey := fun k : Key => same_lines_iff (h := h) (k := k) hy hy'
    rw [or_iff_right (not_not.mpr hp), ← forall_congr' hkey, hlines, hcrlf, hy, hy', Option.map_some, Option.map_some,
      Option.some.injEq]
    exact ⟨fun he k => he ▸ .refl _ k, Key.same_ext⟩
  · have hnone : ∀ ls, ¬ Parses b ls → readLines b c ls = none := fun ls hls => by
      by_contra hne
      exact hls (readLines_parses.mp (Option.ne_none_iff_exists'.mp hne))
    rw [hnone _ hp, hnone _ fun hq => hp (hparses.mp hq)]
    exact iff_of_true rfl (Or.inl hp)

/-- Authentication that a file turns on is off with the other line endings. -/
theorem line_endings_turn_off_auth :
    let b : Build := { os := .linux, ulongBits := 64, wide := by decide }
    let h : Host := { random := none, hostname := none }
    let text := str "require_auth = true\n"
    cr ∉ text ∧
      (loadText b h true (new b h) text).map (·.2.1.requireAuth) = some true ∧
      (loadText b h true (new b h) (crlf text)).map (·.2.1.requireAuth) = some false ∧
      (loadText b h true (new b h) (crlf text)).map (·.2.1) ≠ (loadText b h true (new b h) text).map (·.2.1) := by
  decide +kernel

end LanTalk.Config
