/-
  LanTalk.Config.RoundTrip — what a saved configuration is loaded as (see
  `LanTalk.Config.ConfigFile`).

  A key's line holds its name, an equals sign and its text; `set` under a key's name writes
  that key only (`assign_other`), by what the value is and not by what was there
  (`assign_same`), and the text saved for a key sets it to the value it was saved for
  (`assign_text`).

  Proved:
  - `readLines_entries`: the lines of keys with tidy texts set these keys, and no others.
  - `save_load`: so a configuration with a device id, a display name and tidy strings is
    loaded as it was saved, whatever the fresh one held.
-/

import LanTalk.Config.ConfigFile

namespace LanTalk.Config

open LanTalk.Lib

/-! ## Trimming -/

/-- No line break, and no blank at either end. -/
def Tidy (s : Bytes) : Prop :=
  lineBreak ∉ s ∧ (s.head?.all fun b => !blank b) = true ∧ (s.getLast?.all fun b => !blank b) = true

instance (s : Bytes) : Decidable (Tidy s) :=
  inferInstanceAs (Decidable (_ ∧ (s.head?.all fun b => !blank b) = true ∧ _))

theorem trim_tidy {s : Bytes} (hs : Tidy s) : trim s = s := by
  obtain ⟨-, hh, hl⟩ := hs
  have hd : s.dropWhile blank = s := by
    cases s with
    | nil => rfl
    | cons b s => exact List.dropWhile_cons_of_neg (by simpa using hh)
  rw [trim, hd, List.rdropWhile_eq_self_iff]
  intro hne
  rw [List.getLast?_eq_some_getLast hne] at hl
  simpa using hl

theorem trim_blank_cons {b : UInt8} (hb : blank b = true) (s : Bytes) : trim (b :: s) = trim s := by
  rw [trim, List.dropWhile_cons_of_pos hb, trim]

theorem trim_sublist (s : Bytes) : (trim s).Sublist s :=
  (List.rdropWhile_prefix _ _).sublist.trans (List.dropWhile_suffix _).sublist

theorem tidy_trim {s : Bytes} (hs : lineBreak ∉ s) : Tidy (trim s) := by
  refine ⟨fun h => hs ((trim_sublist s).subset h), ?_, ?_⟩
  · cases ht : trim s with
    | nil => rfl
    | cons b t =>
      -- the first byte is one at which the trimming of the front stopped
      have hp : b :: t <+: s.dropWhile blank := by rw [← ht]; exact List.rdropWhile_prefix _ _
      obtain ⟨u, hu⟩ := hp
      have hh := List.head?_dropWhile_not blank s
      rw [← hu] at hh
      simpa using hh
  · cases ht : trim s with
    | nil => rfl
    | cons b t =>
      have hne : (s.dropWhile blank).rdropWhile blank ≠ [] := by
        rw [← trim, ht]
        exact List.cons_ne_nil b t
      have hl := List.rdropWhile_last_not blank (s.dropWhile blank) hne
      have hlast : (b :: t).getLast? = some (((s.dropWhile blank).rdropWhile blank).getLast hne) := by
        rw [← ht, trim, List.getLast?_eq_some_getLast hne]
      rw [hlast]
      simpa using hl

/-- Text of visible characters. -/
theorem tidy_visible {s : Bytes} (hs : ∀ b ∈ s, 0x20 < b) : Tidy s := by
  have hb : ∀ b ∈ s, blank b = false := by
    intro b hm
    have hlt := UInt8.lt_iff_toNat_lt.mp (hs b hm)
    have h1 : b ≠ 32 := by rintro rfl; revert hlt; decide
    have h2 : b ≠ 9 := by rintro rfl; revert hlt; decide
    simp [blank, h1, h2]
  refine ⟨fun h => absurd (hs _ h) (by decide), ?_, ?_⟩
  · cases s with
    | nil => rfl
    | cons b s => simpa using hb b List.mem_cons_self
  · cases hl : s.getLast? with
    | none => rfl
    | some b => simpa using hb b (List.mem_of_getLast? hl)

/-! ## A line of a key -/

def Key.entry (k : Key) (value : Bytes) : Bytes := k.name ++ str " = " ++ value

/-- What the reader needs of a key's name. -/
theorem Key.name_plain (k : Key) :
    ∃ b n, k.name = b :: n ∧ b ≠ 59 ∧ b ≠ 35 ∧ b ≠ 91 ∧ equals ∉ b :: n ∧ lineBreak ∉ b :: n ∧
      trim (b :: n ++ [32]) = b :: n := by
  cases k <;> exact ⟨_, _, rfl, by decide, by decide, by decide, by decide, by decide, by decide⟩

/-- What stands on the two sides of the first equals sign. -/
theorem sides_equals {p : Bytes} (hp : equals ∉ p) (w : Bytes) :
    (p ++ equals :: w).takeWhile (· != equals) = p ∧ ((p ++ equals :: w).dropWhile (· != equals)).drop 1 = w := by
  have hpre : ∀ x ∈ p, (x != equals) = true := fun x hx => bne_iff_ne.mpr fun e => hp (e ▸ hx)
  rw [List.takeWhile_append_of_pos hpre, List.dropWhile_append_of_pos hpre]
  exact ⟨by simp, by simp⟩

theorem setting?_entry (k : Key) (value : Bytes) : setting? (k.entry value) = some (k.name, trim value) := by
  obtain ⟨b, n, hk, h1, h2, h3, heq, -, htrim⟩ := k.name_plain
  have hsep : str " = " = [32, equals, 32] := by decide
  have hpre : equals ∉ b :: n ++ [32] := fun hm =>
    (List.mem_append.mp hm).elim heq fun h => absurd (List.mem_singleton.mp h) (by decide)
  have hline : k.entry value = (b :: n ++ [32]) ++ equals :: 32 :: value := by
    rw [Key.entry, hk, hsep]
    simp
  have htake : (k.entry value).takeWhile (· != equals) = b :: n ++ [32] := by
    rw [hline]
    exact (sides_equals hpre _).1
  have hdrop : ((k.entry value).dropWhile (· != equals)).drop 1 = 32 :: value := by
    rw [hline]
    exact (sides_equals hpre _).2
  have hmem : equals ∈ k.entry value := by rw [hline]; simp
  have hcons : k.entry value = b :: (n ++ [32] ++ equals :: 32 :: value) := by rw [hline]; rfl
  have hset : setting? (k.entry value) = some (trim ((k.entry value).takeWhile (· != equals)),
      trim (((k.entry value).dropWhile (· != equals)).drop 1)) := by
    rw [hcons] at hmem ⊢
    simp only [setting?, h1, h2, h3, or_self, false_and, if_false, if_pos hmem]
  rw [hset, htake, hdrop, htrim, trim_blank_cons (by decide), hk]

section
variable {b : Build} {c d : AppConfig}

theorem readLine_entry (k : Key) (value : Bytes) : readLine b c (k.entry value) = k.assign b c (trim value) := by
  simp only [readLine, setting?_entry, set_name, Option.map_map]
  exact Option.map_id'

theorem readLines_append (ls ls' : List Bytes) :
    readLines b c (ls ++ ls') = (readLines b c ls).bind (readLines b · ls') := by
  induction ls generalizing c with
  | nil => rfl
  | cons l ls ih =>
    rw [List.cons_append, readLines, readLines]
    cases readLine b c l with
    | none => rfl
    | some c' => exact ih

end

/-! ## One key apart from the others -/

namespace Key

variable {b : Build} {c c' d d' e : AppConfig} {j k : Key} {value : Bytes}

theorem Same.refl (c : AppConfig) (k : Key) : Same c c k := by cases k <;> rfl

theorem Same.symm (h : Same c d k) : Same d c k := by
  cases k <;> exact Eq.symm h

theorem Same.trans (h : Same c d k) (h' : Same d e k) : Same c e k := by
  cases k <;> exact Eq.trans h h'

theorem same_ext (h : ∀ k, Same c d k) : c = d := by
  obtain ⟨_⟩ := c
  obtain ⟨_⟩ := d
  simp only [AppConfig.mk.injEq]
  exact ⟨h .device_id, h .display_name, h .platform, h .listen_port, h .discovery_port, h .enable_ipv6,
    h .max_message_size, h .connect_timeout_secs, h .read_timeout_secs, h .keepalive_interval_secs,
    h .discovery_enabled, h .psk_hash, h .require_auth, h .log_level, h .log_file⟩

theorem Same.text (h : Same c d k) : k.text c = k.text d := by
  cases k
  all_goals
    simp only [Same] at h
    simp only [Key.text, h]

/-- `set` writes its own key only. -/
theorem assign_other (hjk : j ≠ k) (h : k.assign b c value = some c') : Same c' c j := by
  cases k
  all_goals
    simp only [assign, Option.map_eq_some_iff, Option.some.injEq] at h
    first | (obtain rfl := h) | (obtain ⟨_, -, rfl⟩ := h)
    cases j <;> first | rfl | exact absurd rfl hjk

/-- What it writes, and whether it throws, does not depend on what was there. -/
theorem assign_same (c d : AppConfig) (h : k.assign b c value = some c') :
    ∃ d', k.assign b d value = some d' ∧ Same c' d' k := by
  cases k
  all_goals
    simp only [assign, Option.map_eq_some_iff, Option.some.injEq] at h ⊢
    first
      | (obtain ⟨v, hv, rfl⟩ := h; exact ⟨_, ⟨v, hv, rfl⟩, rfl⟩)
      | (subst h; exact ⟨_, rfl, rfl⟩)

theorem boolText_eq (v : Bool) : decide (boolText v = str "true") = v := by cases v <;> decide

theorem port_eq {i : Int32} {n : UInt16} (h : i.toInt = n.toNat) : UInt16.ofInt i.toInt = n := by
  apply UInt16.toNat_inj.mp
  have hn := n.toNat_lt
  rw [UInt16.ofInt, h, UInt16.toNat_ofNat']
  omega

/-- The text that is saved for a key sets it to the value it was saved for. -/
theorem assign_text (b : Build) (c d : AppConfig) (k : Key) :
    ∃ c', k.assign b c (k.text d) = some c' ∧ Same c' d k := by
  have hport : ∀ n : UInt16, ∃ i : Int32, stoi (natText n.toNat) = some i ∧ UInt16.ofInt i.toInt = n := by
    intro n
    have hn := n.toNat_lt
    obtain ⟨i, hi, he⟩ := stoi_natText (n := n.toNat) (by omega)
    exact ⟨i, hi, port_eq he⟩
  have hsize : ∀ n : UInt32, stoul b.ulongBits (natText n.toNat) = some n.toNat := fun n =>
    stoul_natText (lt_of_lt_of_le n.toNat_lt (Nat.pow_le_pow_right (by decide) b.wide))
  cases k
  case listen_port =>
    obtain ⟨i, hi, he⟩ := hport d.listenPort
    exact ⟨_, congrArg (Option.map _) hi, he⟩
  case discovery_port =>
    obtain ⟨i, hi, he⟩ := hport d.discoveryPort
    exact ⟨_, congrArg (Option.map _) hi, he⟩
  case max_message_size => exact ⟨_, congrArg (Option.map _) (hsize _), UInt32.ofNat_toNat⟩
  case connect_timeout_secs | read_timeout_secs | keepalive_interval_secs =>
    exact ⟨_, congrArg (Option.map _) (stoi_intText _), rfl⟩
  case enable_ipv6 | discovery_enabled | require_auth => exact ⟨_, rfl, boolText_eq _⟩
  all_goals exact ⟨_, rfl, rfl⟩

theorem assign_isString (hk : k.isString = true) (b : Build) (c : AppConfig) (value : Bytes) :
    ∃ c', k.assign b c value = some c' ∧ k.text c' = value := by
  cases k
  all_goals first | exact ⟨_, rfl, rfl⟩ | exact absurd hk (by decide)

end Key

/-! ## The lines of a saved configuration -/

inductive Item where
  | other (line : Bytes)
  | entry (k : Key)

def Item.key? : Item → Option Key
  | .other _ => none
  | .entry k => some k

def Item.text (c : AppConfig) : Item → Bytes
  | .other line => line
  | .entry k => k.entry (k.text c)

/-- What `save` writes, item by item. -/
def layout : List Item :=
  [.other (str "[identity]"), .entry .device_id, .entry .display_name, .entry .platform, .other [],
    .other (str "[network]"), .entry .listen_port, .entry .discovery_port, .entry .enable_ipv6,
    .entry .max_message_size, .entry .connect_timeout_secs, .entry .read_timeout_secs,
    .entry .keepalive_interval_secs, .other [],
    .other (str "[discovery]"), .entry .discovery_enabled, .other [],
    .other (str "[security]"), .entry .psk_hash, .entry .require_auth, .other [],
    .other (str "[logging]"), .entry .log_level, .entry .log_file]

theorem render_layout (c : AppConfig) : render c = layout.flatMap fun i => i.text c ++ [lineBreak] := by
  -- the text `save` writes before each value is the key's name, in their order
  have hnames : [str "device_id = ", str "display_name = ", str "platform = ", str "listen_port = ",
      str "discovery_port = ", str "enable_ipv6 = ", str "max_message_size = ", str "connect_timeout_secs = ",
      str "read_timeout_secs = ", str "keepalive_interval_secs = ", str "discovery_enabled = ", str "psk_hash = ",
      str "require_auth = ", str "log_level = ", str "log_file = "] =
      Key.all.map fun k => k.name ++ str " = " := by decide
  have hsections : [str "[identity]\n", str "[network]\n", str "[discovery]\n", str "[security]\n", str "[logging]\n"] =
      [str "[identity]", str "[network]", str "[discovery]", str "[security]", str "[logging]"].map
        (· ++ [lineBreak]) := by decide
  have hbreak : str "\n" = [lineBreak] := by decide
  have hblank : str "\n\n" = [lineBreak, lineBreak] := by decide
  simp only [Key.all, List.map_cons, List.map_nil, List.cons.injEq, and_true] at hnames hsections
  unfold render
  simp only [layout, List.flatMap_cons, List.flatMap_nil, Item.text, Key.entry, Key.text, List.append_assoc,
    hnames, hsections, hbreak, hblank, List.nil_append, List.cons_append, List.append_nil]

/-- The lines some keys are saved as. -/
def entryLines (c : AppConfig) (ks : List Key) : List Bytes :=
  ks.flatMap fun k => (k.entry (k.text c)).splitOn lineBreak

section
variable {b : Build} {c x : AppConfig}

theorem readLine_other {line : Bytes} (h : setting? line = none) : readLine b x line = some x := by
  rw [readLine, h]

theorem entryLines_cons (k : Key) (ks : List Key) :
    entryLines c (k :: ks) = (k.entry (k.text c)).splitOn lineBreak ++ entryLines c ks := List.flatMap_cons

/-- Only the lines of keys are looked at. -/
theorem readLines_items {items : List Item}
    (hi : ∀ i ∈ items, i.key? = none → setting? (i.text c) = none ∧ lineBreak ∉ i.text c) :
    readLines b x (items.flatMap fun i => (i.text c).splitOn lineBreak) =
      readLines b x (entryLines c (items.filterMap Item.key?)) := by
  induction items generalizing x with
  | nil => rfl
  | cons i items ih =>
    have ih : ∀ {y : AppConfig}, _ := fun {y} => ih (x := y) fun i h => hi i (List.mem_cons_of_mem _ h)
    cases i with
    | other line =>
      obtain ⟨hs, hl⟩ := hi _ List.mem_cons_self rfl
      rw [List.flatMap_cons, List.splitOn_eq_singleton hl, List.singleton_append, readLines, readLine_other hs,
        Option.bind_some, ih]
      rfl
    | entry k =>
      have hk : (Item.entry k :: items).filterMap Item.key? = k :: items.filterMap Item.key? := rfl
      have ht : (Item.entry k).text c = k.entry (k.text c) := rfl
      rw [hk, entryLines_cons, List.flatMap_cons, ht, readLines_append, readLines_append]
      cases readLines b x ((k.entry (k.text c)).splitOn lineBreak) with
      | none => rfl
      | some y => exact ih

theorem readLines_render : readLines b x (lines lineBreak (render c)) = readLines b x (entryLines c Key.all) := by
  rw [render_layout, lines_items, readLines_items]
  · rfl
  · intro i hi hn
    have hother : ∀ i ∈ layout, i.key? = none → setting? (i.text {}) = none ∧ lineBreak ∉ i.text {} := by
      decide
    cases i with
    | other line => exact hother _ hi hn
    | entry k => cases hn

/-- A key's name stands before the first line break. -/
theorem splitOn_entry (k : Key) (value : Bytes) :
    (k.entry value).splitOn lineBreak =
      k.entry ((value.splitOn lineBreak).headD []) :: laterLines lineBreak value := by
  obtain ⟨a, n, hk, -, -, -, -, hl, -⟩ := k.name_plain
  have hp : lineBreak ∉ k.name ++ str " = " := by
    have hsep : str " = " = [32, 61, 32] := by decide
    rw [hk, hsep, List.mem_append]
    exact fun h => h.elim hl (by decide)
  obtain ⟨p, ps, hps⟩ := List.exists_cons_of_ne_nil (List.splitOn_ne_nil lineBreak value)
  rw [Key.entry, splitOn_prepend hp, laterLines, hps]
  rfl

theorem splitOn_entry_tidy (k : Key) {value : Bytes} (hv : Tidy value) :
    (k.entry value).splitOn lineBreak = [k.entry value] := by
  rw [splitOn_entry, laterLines, List.splitOn_eq_singleton hv.1]
  rfl

/-- The lines of keys whose texts are tidy set these keys, and no others. -/
theorem readLines_entries (ks : List Key) (hc : ∀ k ∈ ks, Tidy (k.text c)) :
    ∃ y, readLines b x (entryLines c ks) = some y ∧ (∀ k ∈ ks, k.Same y c) ∧ ∀ k ∉ ks, k.Same y x := by
  induction ks generalizing x with
  | nil => exact ⟨x, rfl, by simp, fun k _ => .refl x k⟩
  | cons k ks ih =>
    have htidy := hc k List.mem_cons_self
    obtain ⟨y, hy, hyc⟩ := Key.assign_text b x c k
    obtain ⟨z, hz, hks, hother⟩ := ih (x := y) fun j hj => hc j (List.mem_cons_of_mem _ hj)
    refine ⟨z, ?_, fun j hj => ?_, fun j hj => ?_⟩
    · rw [entryLines_cons, splitOn_entry_tidy k htidy, List.singleton_append, readLines, readLine_entry,
        trim_tidy htidy, hy, Option.bind_some, hz]
    · by_cases hmem : j ∈ ks
      · exact hks j hmem
      · rcases List.mem_cons.mp hj with rfl | h
        · exact (hother j hmem).trans hyc
        · exact absurd h hmem
    · have hjk : j ≠ k := fun e => hj (e ▸ List.mem_cons_self)
      exact (hother j fun h => hj (List.mem_cons_of_mem _ h)).trans (Key.assign_other hjk hy)

end

/-! ## Round trip -/

def AppConfig.strings (c : AppConfig) : List Bytes :=
  [c.deviceId, c.displayName, c.platform, c.pskHash, c.logLevel, c.logFile]

/-- The text of every key is tidy if the strings are. -/
theorem tidy_text {c : AppConfig} (hc : ∀ s ∈ c.strings, Tidy s) (k : Key) : Tidy (k.text c) := by
  have hnat : ∀ n, ∀ b ∈ natText n, 0x20 < b := by
    intro n b hb
    have hd := natText_digits n b hb
    simp only [isdigit, Bool.and_eq_true, decide_eq_true_eq] at hd
    refine UInt8.lt_iff_toNat_lt.mpr ?_
    show 32 < b.toNat
    omega
  have hint : ∀ i, Tidy (intText i) := by
    intro i
    refine tidy_visible fun b hb => ?_
    unfold intText at hb
    split at hb
    · rcases List.mem_cons.mp hb with rfl | hb
      · decide
      · exact hnat _ b hb
    · exact hnat _ b hb
  have hbool : ∀ v, Tidy (boolText v) := by
    intro v
    cases v <;> decide
  simp only [AppConfig.strings, List.forall_mem_cons] at hc
  obtain ⟨h1, h2, h3, h4, h5, h6, -⟩ := hc
  cases k
  all_goals first | assumption | exact hint _ | exact hbool _ | exact tidy_visible (hnat _)

theorem ensured_of_ne_nil {h : Host} {c : AppConfig} (h1 : c.deviceId ≠ []) (h2 : c.displayName ≠ []) :
    ensured h c = c := by
  rw [ensured, ensureDeviceId, if_neg h1, ensureDisplayName, if_neg h2]

theorem save_file {d d' : Disk} {c : AppConfig} (hs : save d c = (true, d')) : d'.file = some (render c) := by
  unfold save at hs
  split at hs
  · rw [← (Prod.mk.inj hs).2]
  · cases hs

/-- A configuration that is saved and then loaded into a fresh one is what is loaded. -/
theorem save_load (b : Build) (h h' : Host) (d d' : Disk) (c : AppConfig) (h1 : c.deviceId ≠ [])
    (h2 : c.displayName ≠ []) (hc : ∀ s ∈ c.strings, Tidy s) (hs : save d c = (true, d')) (hr : d'.readable = true) :
    load b h' d' (new b h) = some (true, c, d') := by
  obtain ⟨y, hy, hyc, -⟩ := readLines_entries (b := b) (x := new b h) Key.all fun k _ => tidy_text hc k
  have hyc : y = c := Key.same_ext fun k => hyc k k.mem_all
  simp only [load, save_file hs, if_pos hr, readLines_render, hy, hyc, Option.map_some, ensured_of_ne_nil h1 h2]

/-- Values that look like a section, a comment and another setting. -/
theorem save_load_lookalikes :
    let b : Build := { os := .linux, ulongBits := 64, wide := by decide }
    let h : Host := { random := none, hostname := none }
    let c : AppConfig :=
      { deviceId := str "[a]", displayName := str "; b", platform := str "# c", pskHash := str "require_auth = true",
        readTimeoutSecs := -5 }
    let d : Disk := { file := some (render c), readable := true, writable := true }
    load b h d (new b h) = some (true, c, d) := by
  intro b h c d
  exact save_load b h h d d c (by decide) (by decide) (by decide +kernel) rfl rfl

end LanTalk.Config
