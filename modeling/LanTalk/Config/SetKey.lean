/-
  LanTalk.Config.SetKey — one key set and saved, and what a fresh configuration then loads
  for the others.

  A value is written as it is. What follows its first line break stands on lines of its
  own, which `load` reads as any other: they may name a key that was written above, where
  nothing below sets it right again, or give a number that does not parse.

  Proved, for a configuration that `load` left, on hosts whose names are tidy:
  - `set_save_load_iff`: the other keys keep their values if and only if the lines of the
    value after its first break are `Harmless`: none of them throws, and the last that names
    a key written above gives it the value it has.
-/

import LanTalk.Config.RoundTrip

namespace LanTalk.Config

open LanTalk.Lib

/-! ## What `load` leaves -/

/-- Tidy strings, a device id and a display name. -/
structure Settled (c : AppConfig) : Prop where
  strings : ∀ s ∈ c.strings, Tidy s
  deviceId : c.deviceId ≠ []
  displayName : c.displayName ≠ []

/-- A host whose name has no line break and no blanks around it. -/
def Host.Named (h : Host) : Prop := Tidy (readHostname h)

/-- A configuration that a constructor and then `load` left. -/
def Loaded (b : Build) (c : AppConfig) : Prop :=
  ∃ h h' d ok d', Host.Named h ∧ Host.Named h' ∧ load b h' d (new b h) = some (ok, c, d')

theorem generateUUID_visible (random : Option (Fin 16 → UInt8)) : ∀ x ∈ generateUUID random, 0x20 < x := by
  have hhex : ∀ n < 16, (0x20 : UInt8) < UInt8.ofNat (Nat.digitChar n).toNat := by decide
  cases random with
  | none =>
    have hall : (generateUUID none).all (fun x => decide (0x20 < x)) = true := by decide +kernel
    simpa using hall
  | some bytes =>
    intro x hx
    obtain ⟨i, -, hi⟩ := List.mem_flatMap.mp hx
    rcases List.mem_append.mp hi with hi | hi
    · have hlt := (uuidByte bytes i).toNat_lt
      simp only [hexByte, ofChars, List.map_cons, List.map_nil, List.mem_cons, List.not_mem_nil, or_false] at hi
      rcases hi with rfl | rfl
      · exact hhex _ (by omega)
      · exact hhex _ (by omega)
    · split at hi
      · have hdash : str "-" = [45] := by decide
        rw [hdash, List.mem_singleton] at hi
        rw [hi]
        decide
      · cases hi

theorem generateUUID_ne_nil (random : Option (Fin 16 → UInt8)) : generateUUID random ≠ [] := by
  cases random with
  | none => decide
  | some bytes =>
    intro h
    have h0 := List.flatMap_eq_nil_iff.mp h 0 (List.mem_finRange 0)
    simp [hexByte, ofChars] at h0

/-- Filling in what is missing leaves tidy strings tidy. -/
theorem ensured_settled {h : Host} (hh : h.Named) {c : AppConfig} (hc : ∀ s ∈ c.strings, Tidy s) :
    Settled (ensured h c) := by
  have hu := tidy_visible (generateUUID_visible h.random)
  have hname : Tidy (if readHostname h = [] then str "UnknownUser" else readHostname h) := by
    split
    · decide
    · exact hh
  have hne : (if readHostname h = [] then str "UnknownUser" else readHostname h) ≠ [] := by
    split
    · decide
    · assumption
  simp only [AppConfig.strings, List.forall_mem_cons] at hc
  obtain ⟨h1, h2, h3, h4, h5, h6, -⟩ := hc
  rw [ensured, ensureDeviceId]
  split
  all_goals
    rw [ensureDisplayName]
    split
  · exact ⟨by simp [AppConfig.strings, *], generateUUID_ne_nil _, hne⟩
  · exact ⟨by simp [AppConfig.strings, *], generateUUID_ne_nil _, by assumption⟩
  · exact ⟨by simp [AppConfig.strings, *], by assumption, hne⟩
  · exact ⟨by simp [AppConfig.strings, *], by assumption, by assumption⟩

theorem new_settled (b : Build) {h : Host} (hh : h.Named) : Settled (new b h) := by
  refine ensured_settled hh ?_
  have hp : Tidy (platformName b.os) := by cases b.os <;> decide
  simp only [AppConfig.strings, List.forall_mem_cons]
  exact ⟨by decide, by decide, hp, by decide, by decide, by decide, by simp⟩

/-- What a line gives a key is trimmed. -/
theorem setting?_tidy {line key value : Bytes} (hl : lineBreak ∉ line) (h : setting? line = some (key, value)) :
    Tidy value := by
  unfold setting? at h
  split at h
  · cases h
  · simp only at h
    split at h
    · cases h
    split at h
    · cases h
    split at h
    · cases h
      refine tidy_trim fun hm => hl ?_
      exact (List.dropWhile_suffix _).subset (List.mem_of_mem_drop hm)
    · cases h

/-- A key set to a tidy value leaves tidy strings tidy. -/
theorem assign_tidy {b : Build} {c c' : AppConfig} {k : Key} {value : Bytes} (hc : ∀ s ∈ c.strings, Tidy s)
    (hv : Tidy value) (h : k.assign b c value = some c') : ∀ s ∈ c'.strings, Tidy s := by
  simp only [AppConfig.strings, List.forall_mem_cons] at hc ⊢
  obtain ⟨h1, h2, h3, h4, h5, h6, hnil⟩ := hc
  cases k
  all_goals
    simp only [Key.assign, Option.map_eq_some_iff, Option.some.injEq] at h
    first | (obtain rfl := h) | (obtain ⟨_, -, rfl⟩ := h)
    refine ⟨?_, ?_, ?_, ?_, ?_, ?_, hnil⟩ <;> assumption

/-- A line that is read sets the key it names, or is none of a key's and changes nothing. -/
theorem readLine_cases {b : Build} {x y : AppConfig} {l : Bytes} (h : readLine b x l = some y) :
    (∃ (k : Key) (value : Bytes), setting? l = some (k.name, value) ∧ k.assign b x value = some y) ∨
    (∀ (k : Key) (value : Bytes), setting? l ≠ some (k.name, value)) ∧ y = x := by
  unfold readLine at h
  split at h
  · rename_i hs
    cases h
    exact Or.inr ⟨fun k value => by rw [hs]; exact (Option.some_ne_none _).symm, rfl⟩
  · rename_i key value hs
    by_cases hk : ∃ k : Key, key = k.name
    · obtain ⟨k, rfl⟩ := hk
      rw [set_name, Option.map_map] at h
      obtain ⟨y', hy, rfl⟩ := Option.map_eq_some_iff.mp h
      exact Or.inl ⟨k, value, hs, hy⟩
    · have hne := not_exists.mp hk
      rw [set_unknown hne] at h
      cases h
      refine Or.inr ⟨fun k v he => hne k ?_, rfl⟩
      rw [hs] at he
      exact (Prod.mk.inj (Option.some.inj he)).1

theorem readLine_tidy {b : Build} {c c' : AppConfig} {line : Bytes} (hl : lineBreak ∉ line)
    (hc : ∀ s ∈ c.strings, Tidy s) (h : readLine b c line = some c') : ∀ s ∈ c'.strings, Tidy s := by
  rcases readLine_cases h with ⟨k, value, hs, hk⟩ | ⟨-, rfl⟩
  · exact assign_tidy hc (setting?_tidy hl hs) hk
  · exact hc

theorem readLines_tidy {b : Build} {ls : List Bytes} {c c' : AppConfig} (hls : ∀ l ∈ ls, lineBreak ∉ l)
    (hc : ∀ s ∈ c.strings, Tidy s) (h : readLines b c ls = some c') : ∀ s ∈ c'.strings, Tidy s := by
  induction ls generalizing c with
  | nil =>
    cases h
    exact hc
  | cons l ls ih =>
    obtain ⟨x, hx, hr⟩ := Option.bind_eq_some_iff.mp h
    exact ih (fun l' h' => hls l' (List.mem_cons_of_mem _ h')) (readLine_tidy (hls l List.mem_cons_self) hc hx) hr

theorem Loaded.settled {b : Build} {c : AppConfig} (hc : Loaded b c) : Settled c := by
  obtain ⟨h, h', d, ok, d', hh, hh', hl⟩ := hc
  have hnew := new_settled b hh
  unfold load at hl
  split at hl
  · cases hl
    exact hnew
  · split at hl
    · obtain ⟨x, hx, he⟩ := Option.map_eq_some_iff.mp hl
      cases he
      exact ensured_settled hh' (readLines_tidy (fun _ => not_mem_lines) hnew.strings hx)
    · cases hl
      exact hnew

/-! ## What lines do to one key -/

/-- The value a line gives a key. -/
def valueFor (j : Key) (line : Bytes) : Option Bytes :=
  (setting? line).bind fun (key, value) => if key = j.name then some value else none

theorem valueFor_eq_some {j : Key} {line value : Bytes} :
    valueFor j line = some value ↔ setting? line = some (j.name, value) := by
  simp only [valueFor, Option.bind_eq_some_iff, Prod.exists, Option.ite_none_right_eq_some]
  constructor
  · intro h
    obtain ⟨key, v, hs, rfl, hv⟩ := h
    rw [hs, Option.some.inj hv]
  · intro hs
    exact ⟨_, _, hs, rfl, rfl⟩

/-- The value the last line that names a key gives it. -/
def lastValue (j : Key) : List Bytes → Option Bytes
  | [] => none
  | l :: ls => (lastValue j ls).or (valueFor j l)

/-- Whether a value throws does not depend on the configuration. -/
theorem set_ne_none {b : Build} {c : AppConfig} (d : AppConfig) {key value : Bytes} (h : set b c key value ≠ none) :
    set b d key value ≠ none := by
  by_cases hk : ∃ k : Key, key = k.name
  · obtain ⟨k, rfl⟩ := hk
    rw [set_name] at h ⊢
    obtain ⟨p, hp⟩ := Option.ne_none_iff_exists'.mp h
    obtain ⟨x, hx, -⟩ := Option.map_eq_some_iff.mp hp
    obtain ⟨y, hy, -⟩ := Key.assign_same c d hx
    rw [hy]
    exact Option.some_ne_none _
  · rw [set_unknown (not_exists.mp hk)]
    exact Option.some_ne_none _

/-- Every setting among the lines has a value that `set` takes. -/
def Accepted (b : Build) (c : AppConfig) (ls : List Bytes) : Prop :=
  ∀ l ∈ ls, ∀ key value, setting? l = some (key, value) → set b c key value ≠ none

section
variable {b : Build} {x y : AppConfig} {j : Key}

theorem readLines_some_iff (c : AppConfig) {ls : List Bytes} :
    (∃ y, readLines b x ls = some y) ↔ Accepted b c ls := by
  induction ls generalizing x with
  | nil => exact ⟨fun _ l hl => (by cases hl), fun _ => ⟨x, rfl⟩⟩
  | cons l ls ih =>
    have hline : (∃ y, readLine b x l = some y) ↔ ∀ key value, setting? l = some (key, value) →
        set b c key value ≠ none := by
      constructor
      · intro h key value hs
        obtain ⟨y, hy⟩ := h
        simp only [readLine, hs] at hy
        refine set_ne_none c (c := x) fun hn => ?_
        rw [hn] at hy
        cases hy
      · intro h
        unfold readLine
        split
        · exact ⟨x, rfl⟩
        · rename_i key value hs
          obtain ⟨p, hp⟩ := Option.ne_none_iff_exists'.mp (set_ne_none x (h key value hs))
          exact ⟨p.2, by rw [hp]; rfl⟩
    constructor
    · intro h
      obtain ⟨y, hy⟩ := h
      obtain ⟨z, hz, hr⟩ := Option.bind_eq_some_iff.mp hy
      exact List.forall_mem_cons.mpr ⟨hline.mp ⟨z, hz⟩, ih.mp ⟨y, hr⟩⟩
    · intro h
      obtain ⟨hl, hls⟩ := List.forall_mem_cons.mp h
      obtain ⟨z, hz⟩ := hline.mpr hl
      obtain ⟨y, hy⟩ := (ih (x := z)).mpr hls
      exact ⟨y, by rw [readLines, hz, Option.bind_some, hy]⟩

/-- A line sets the key it names, and leaves the others. -/
theorem readLine_key (c : AppConfig) {l : Bytes} (h : readLine b x l = some y) :
    (valueFor j l = none → j.Same y x) ∧
      ∀ value, valueFor j l = some value → ∃ z, j.assign b c value = some z ∧ j.Same y z := by
  rcases readLine_cases h with ⟨k, value, hs, hk⟩ | ⟨hs, rfl⟩
  · have hval : valueFor j l = if k.name = j.name then some value else none := by rw [valueFor, hs]; rfl
    by_cases hj : j = k
    · subst hj
      rw [hval, if_pos rfl]
      refine ⟨fun hn => (by cases hn), fun v hv => ?_⟩
      cases hv
      exact Key.assign_same x c hk
    · rw [hval, if_neg fun e => hj (Key.name_inj e.symm)]
      exact ⟨fun _ => Key.assign_other hj hk, fun v hv => (by cases hv)⟩
  · exact ⟨fun _ => .refl y j, fun v hv => absurd (valueFor_eq_some.mp hv) (hs j v)⟩

/-- Lines leave a key what the last line that names it gives it. -/
theorem readLines_key (c : AppConfig) {ls : List Bytes} (h : readLines b x ls = some y) :
    (lastValue j ls = none → j.Same y x) ∧
      ∀ value, lastValue j ls = some value → ∃ z, j.assign b c value = some z ∧ j.Same y z := by
  induction ls generalizing x with
  | nil =>
    cases h
    exact ⟨fun _ => .refl _ j, fun value hv => (by cases hv)⟩
  | cons l ls ih =>
    obtain ⟨x', hx, hr⟩ := Option.bind_eq_some_iff.mp h
    obtain ⟨hkeep, hset⟩ := ih hr
    obtain ⟨hkeep1, hset1⟩ := readLine_key (j := j) c hx
    rw [lastValue]
    cases hl : lastValue j ls with
    | some v => exact ⟨fun hn => (by cases hn), fun value hv => hset value (hl.trans hv)⟩
    | none =>
      have hy := hkeep hl
      refine ⟨fun hn => hy.trans (hkeep1 hn), fun value hv => ?_⟩
      obtain ⟨z, hz, hs⟩ := hset1 value hv
      exact ⟨z, hz, hy.trans hs⟩

theorem ensured_eq (h : Host) (c : AppConfig) :
    ensured h c = { c with
      deviceId := if c.deviceId = [] then generateUUID h.random else c.deviceId
      displayName :=
        if c.displayName = [] then if readHostname h = [] then str "UnknownUser" else readHostname h
        else c.displayName } := by
  rw [ensured, ensureDeviceId, ensureDisplayName]
  split
  all_goals split <;> simp_all

theorem same_ensured (h : Host) (hxy : j.Same x y) : j.Same (ensured h x) (ensured h y) := by
  rw [ensured_eq, ensured_eq]
  cases j
  all_goals
    simp only [Key.Same] at hxy ⊢
    rw [hxy]

end

/-! ## Setting a key -/

/-- Lines that throw nothing, and of which the last that names a key written above `k`
    gives it the value it has in `c`, counting what `load` fills in. -/
structure Harmless (b : Build) (h : Host) (c : AppConfig) (k : Key) (ls : List Bytes) : Prop where
  accepted : Accepted b c ls
  kept : ∀ j ∈ k.above, ∀ value, lastValue j ls = some value →
    ∃ x, set b c j.name value = some (true, x) ∧ j.Same (ensured h x) c

theorem above_below (k : Key) : ∀ j ∈ k.above, j ≠ k ∧ j ∉ k.below := by
  have h : ∀ k ∈ Key.all, ∀ j ∈ k.above, j ≠ k ∧ j ∉ k.below := by decide +kernel
  exact h k k.mem_all

theorem not_mem_below (k : Key) : k ∉ k.below := by
  have h : ∀ k ∈ Key.all, k ∉ k.below := by decide +kernel
  exact h k k.mem_all

theorem above_or_below {j k : Key} (h : j ≠ k) : j ∈ k.above ∨ j ∈ k.below := by
  have hj := j.mem_all
  rw [k.all_eq, List.mem_append, List.mem_cons] at hj
  rcases hj with hj | hj | hj
  · exact Or.inl hj
  · exact absurd hj h
  · exact Or.inr hj

section
variable {b : Build} {c c' : AppConfig} {k : Key} {v : Bytes}

/-- Up to the value's first line break the file gives every key above its own value; then
    come the value's other lines, and the keys below. -/
theorem readLines_changed (hc : ∀ s ∈ c.strings, Tidy s) (hk : k.isString = true) (hset : k.assign b c v = some c')
    (x : AppConfig) :
    ∃ x', (∀ j ∈ k.above, j.Same x' c) ∧
      readLines b x (entryLines c' Key.all) =
        (readLines b x' (laterLines lineBreak v)).bind (readLines b · (entryLines c' k.below)) := by
  have hv : k.text c' = v := by
    obtain ⟨y, hy, ht⟩ := Key.assign_isString hk b c v
    rw [hset] at hy
    cases hy
    exact ht
  have hother : ∀ {j : Key}, j ≠ k → j.Same c' c := fun h => Key.assign_other h hset
  have htidy : ∀ j ∈ k.above, Tidy (j.text c') := by
    intro j hj
    rw [(hother (above_below k j hj).1).text]
    exact tidy_text hc j
  obtain ⟨y, hy, hys, -⟩ := readLines_entries (b := b) (x := x) k.above htidy
  -- the line of `k` itself sets `k` only
  obtain ⟨x', hx', -⟩ := Key.assign_isString hk b y (trim ((v.splitOn lineBreak).headD []))
  refine ⟨x', fun j hj => ?_, ?_⟩
  · have hjk := (above_below k j hj).1
    exact (Key.assign_other hjk hx').trans ((hys j hj).trans (hother hjk))
  · have hall : entryLines c' Key.all = entryLines c' k.above ++ entryLines c' (k :: k.below) := by
      rw [k.all_eq]
      exact List.flatMap_append
    rw [hall, readLines_append, hy, Option.bind_some, entryLines_cons, hv, splitOn_entry, List.cons_append, readLines,
      readLine_entry, hx', Option.bind_some, readLines_append]

/-- The keys below are read as what they were saved for. -/
theorem readLines_below (hc : ∀ s ∈ c.strings, Tidy s) (hset : k.assign b c v = some c') (x : AppConfig) :
    ∃ y, readLines b x (entryLines c' k.below) = some y ∧ (∀ j ∈ k.below, j.Same y c) ∧
      ∀ j ∉ k.below, j.Same y x := by
  have hother : ∀ j ∈ k.below, j.Same c' c := by
    intro j hj
    refine Key.assign_other (fun e => ?_) hset
    rw [e] at hj
    exact not_mem_below k hj
  have htidy : ∀ j ∈ k.below, Tidy (j.text c') := by
    intro j hj
    rw [(hother j hj).text]
    exact tidy_text hc j
  obtain ⟨y, hy, hys, hrest⟩ := readLines_entries (b := b) (x := x) k.below htidy
  exact ⟨y, hy, fun j hj => (hys j hj).trans (hother j hj), hrest⟩

end

/-- After a string key is set and the configuration saved, a fresh one that loads the file
    has the old values for all the other keys, if and only if the lines of the value after
    its first line break are harmless. -/
theorem set_save_load_iff (b : Build) (c : AppConfig) (hc : Loaded b c) (k : Key) (hk : k.isString = true) (v : Bytes)
    (c' : AppConfig) (hset : set b c k.name v = some (true, c')) (d d' : Disk) (hs : save d c' = (true, d'))
    (hr : d'.readable = true) (g g' : Host) :
    (∃ e d'', load b g' d' (new b g) = some (true, e, d'') ∧ ∀ j, j ≠ k → j.Same e c) ↔
      Harmless b g' c k (laterLines lineBreak v) := by
  have hsettled := hc.settled
  have hassign : k.assign b c v = some c' := by
    rw [set_name] at hset
    obtain ⟨x, hx, he⟩ := Option.map_eq_some_iff.mp hset
    rw [hx, (Prod.mk.inj he).2]
  obtain ⟨x, hx, hlines⟩ := readLines_changed hsettled.strings hk hassign (new b g)
  have hload : load b g' d' (new b g) = ((readLines b x (laterLines lineBreak v)).bind
      (readLines b · (entryLines c' k.below))).map fun y => (true, ensured g' y, d') := by
    simp only [load, save_file hs, if_pos hr, readLines_render, hlines]
  have hfill : ensured g' c = c := ensured_of_ne_nil hsettled.deviceId hsettled.displayName
  constructor
  · intro h
    obtain ⟨e, d'', he, hsame⟩ := h
    rw [hload] at he
    obtain ⟨z, hz, hez⟩ := Option.map_eq_some_iff.mp he
    obtain ⟨y, hy, hyz⟩ := Option.bind_eq_some_iff.mp hz
    cases hez
    refine ⟨(readLines_some_iff c).mp ⟨y, hy⟩, fun j hj value hv => ?_⟩
    obtain ⟨hjk, hjb⟩ := above_below k j hj
    obtain ⟨w, hw, hyw⟩ := ((readLines_key (j := j) c hy).2 value hv)
    obtain ⟨z', hz', -, hrest⟩ := readLines_below hsettled.strings hassign y
    rw [hyz] at hz'
    cases hz'
    -- the key as it was loaded is the key as the value's lines left it
    have hzw : j.Same z w := (hrest j hjb).trans hyw
    exact ⟨w, by rw [set_name, hw]; rfl, (same_ensured g' hzw).symm.trans (hsame j hjk)⟩
  · intro h
    obtain ⟨y, hy⟩ := (readLines_some_iff (x := x) c).mpr h.accepted
    obtain ⟨z, hz, hbelow, hrest⟩ := readLines_below hsettled.strings hassign y
    refine ⟨ensured g' z, d', by rw [hload, hy, Option.bind_some, hz]; rfl, fun j hjk => ?_⟩
    rcases above_or_below hjk with hj | hj
    · have hzy := hrest j (above_below k j hj).2
      obtain ⟨hkeep, hgive⟩ := readLines_key (j := j) c hy
      cases hl : lastValue j (laterLines lineBreak v) with
      | none =>
        have hzc : j.Same z c := hzy.trans ((hkeep hl).trans (hx j hj))
        exact hfill ▸ same_ensured g' hzc
      | some value =>
        obtain ⟨w, hw, hyw⟩ := hgive value hl
        obtain ⟨w', hw', hwc⟩ := h.kept j hj value hl
        rw [set_name, hw] at hw'
        cases hw'
        exact (same_ensured g' (hzy.trans hyw)).trans hwc
    · exact hfill ▸ same_ensured g' (hbelow j hj)

/-- A value with a comment behind its line break. -/
theorem set_save_load_comment :
    let b : Build := { os := .linux, ulongBits := 64, wide := by decide }
    let h : Host := { random := none, hostname := none }
    let c := new b h
    let d : Disk := { file := some (render { c with logFile := str "a\n;b" }), readable := true, writable := true }
    ∃ e d'', load b h d (new b h) = some (true, e, d'') ∧ ∀ j, j ≠ Key.log_file → j.Same e c := by
  intro b h c d
  have hn : h.Named := (by decide : Tidy [])
  have hloaded : Loaded b c := ⟨h, h, { d with file := none }, true, { d with file := some (render c) }, hn, hn, rfl⟩
  have hlines : laterLines lineBreak (str "a\n;b") = [str ";b"] := by decide +kernel
  have hsetting : setting? (str ";b") = none := by decide
  refine (set_save_load_iff b c hloaded .log_file rfl (str "a\n;b") { c with logFile := str "a\n;b" } rfl d d rfl rfl
    h h).mpr ?_
  rw [hlines]
  constructor
  · intro l hl key value hs
    rw [List.mem_singleton.mp hl, hsetting] at hs
    cases hs
  · intro j _ value hv
    simp only [lastValue, valueFor, hsetting] at hv
    cases hv

/-- A log file's name with a line break in it turns off authentication. -/
theorem line_break_sets_another_key :
    let b : Build := { os := .linux, ulongBits := 64, wide := by decide }
    let h : Host := { random := none, hostname := none }
    let d : Disk := { file := some (str "require_auth = true\n"), readable := true, writable := true }
    let v := str "a.log\nrequire_auth = false"
    ((load b h d (new b h)).bind fun (_, c, d') => (set b c (str "log_file") v).bind fun (_, c') =>
      (load b h (save d' c').2 (new b h)).map fun (_, e, _) => (c.requireAuth, c'.requireAuth, e.requireAuth)) =
      some (true, true, false) := by
  decide +kernel

end LanTalk.Config
