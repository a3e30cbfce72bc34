/-
  LanTalk.Config.CutShort — a save that stops after some bytes of the file, as a full disk or
  a process that is killed leaves it (`src/config/config.cpp`).

  `save` opens the file with nothing in it, writes it from the front and does not look at
  the stream's state: it answers true although only `n` bytes were taken.

  Proved, for every configuration with tidy strings and every `n`:
  - `cut_short_throws_iff`: the next `load` throws if and only if the file ends right behind
    a numeric key's equals sign, the blank after it, or the minus of its value.
  - `cut_short_keys`: otherwise a key whose whole line was written has the saved value, a key
    that no line names the fresh one; and a string key keeps its value only if its whole
    line was written.
-/

import LanTalk.Config.LineEndings

namespace LanTalk.Config

open LanTalk.Lib

/-- `save` on a disk that takes the first `n` bytes only. -/
def saveCut (d : Disk) (c : AppConfig) (n : Nat) : Bool × Disk :=
  if d.writable then (true, { d with file := some ((render c).take n) }) else (false, d)

/-! ## The lines of a cut file -/

section
variable {b : Build} {c x y : AppConfig} {j k : Key} {p q l v : Bytes} {ls : List Bytes}

theorem Item.text_plain (hc : ∀ s ∈ c.strings, Tidy s) {i : Item} (hi : i ∈ layout) : lineBreak ∉ i.text c := by
  have hother : ∀ i ∈ layout, i.key? = none → lineBreak ∉ i.text {} := by decide
  cases i with
  | other line => exact hother _ hi rfl
  | entry k =>
    have h := splitOn_entry_tidy k (tidy_text hc k)
    exact not_mem_splitOn (by rw [h]; exact List.mem_singleton_self _)

/-- Whole lines, and a part of the next one if there is anything of it. -/
theorem cut_lines (hc : ∀ s ∈ c.strings, Tidy s) (hp : p <+: render c) :
    ∃ written rest, layout = written ++ rest ∧
      lines lineBreak p = written.map (Item.text c) ++ lastLine lineBreak p ∧
      (lastLine lineBreak p = [] ∨
        ∃ i rest' q, rest = i :: rest' ∧ q <+: i.text c ∧ lastLine lineBreak p = [q]) := by
  rw [render_layout] at hp
  obtain ⟨written, rest, q, hlayout, rfl, hpart⟩ := items_cut (Item.text c) hp
  have hplain : lineBreak ∉ q := by
    rcases hpart with rfl | ⟨i, rest', rfl, hq⟩
    · exact List.not_mem_nil
    · have hi : i ∈ layout := by rw [hlayout]; exact List.mem_append_right _ List.mem_cons_self
      exact fun hm => Item.text_plain hc hi (hq.subset hm)
  have hsplit : (written.flatMap fun i => (i.text c).splitOn lineBreak) = written.map (Item.text c) := by
    rw [List.map_eq_flatMap]
    refine List.flatMap_congr fun i hi => List.splitOn_eq_singleton (Item.text_plain hc ?_)
    rw [hlayout]
    exact List.mem_append_left _ hi
  refine ⟨written, rest, hlayout, ?_, ?_⟩
  · rw [lines_items_append, lastLine_items_append, hsplit, lines_of_not_mem hplain, lastLine_of_not_mem hplain]
  · rw [lastLine_items_append, lastLine_of_not_mem hplain]
    split
    · exact Or.inl rfl
    · rename_i hne
      rcases hpart with rfl | ⟨i, rest', rfl, hq⟩
      · exact absurd rfl hne
      · exact Or.inr ⟨i, rest', q, rfl, hq, rfl⟩

/-- What stands of a key's line: nothing is set, or what stands behind the equals sign. -/
theorem part_of_entry (hq : q <+: k.entry v) :
    setting? q = none ∨ ∃ w, w <+: v ∧ setting? q = some (k.name, trim w) ∧
      (q = k.entry w ∨ w = [] ∧ q = k.name ++ str " =") := by
  have hentry : ∀ u, k.entry u = k.entry [] ++ u := fun u => by rw [Key.entry, Key.entry, List.append_nil]
  -- up to the blank behind the equals sign, the keys one by one
  have hhead : ∀ k ∈ Key.all, ∀ q ∈ (k.entry []).inits, setting? q = none ∨
      setting? q = some (k.name, []) ∧ (q = k.entry [] ∨ q = k.name ++ str " =") := by decide +kernel
  have hq' := hq
  rw [hentry] at hq'
  rcases List.prefix_or_prefix_of_prefix hq' (List.prefix_append (k.entry []) v) with h | ⟨u, rfl⟩
  · rcases hhead k k.mem_all q ((List.mem_inits q _).mpr h) with hn | ⟨hs, hq'' | hq''⟩
    · exact Or.inl hn
    · exact Or.inr ⟨[], List.nil_prefix, hs, Or.inl hq''⟩
    · exact Or.inr ⟨[], List.nil_prefix, hs, Or.inr ⟨rfl, hq''⟩⟩
  · have hu : u <+: v := (List.prefix_append_right_inj _).mp hq'
    rw [← hentry]
    exact Or.inr ⟨u, hu, setting?_entry k u, Or.inl rfl⟩

theorem part_of_other {line : Bytes} (hi : Item.other line ∈ layout) (hq : q <+: line) : setting? q = none := by
  have hall : ∀ i ∈ layout, i.key? = none → ∀ q ∈ (i.text {}).inits, setting? q = none := by decide +kernel
  exact hall _ hi rfl q ((List.mem_inits q _).mpr hq)

theorem item_of_valueFor {i : Item} (hi : i ∈ layout) (hv : valueFor k (i.text c) = some v) : i = .entry k := by
  rw [valueFor_eq_some] at hv
  cases i with
  | other line =>
    rw [show (Item.other line).text c = line from rfl, part_of_other hi List.prefix_rfl] at hv
    cases hv
  | entry k' =>
    rw [show (Item.entry k').text c = k'.entry (k'.text c) from rfl, setting?_entry] at hv
    rw [Key.name_inj (Prod.mk.inj (Option.some.inj hv)).1]

/-- A line that sets a key is the key's whole line, or the last one, which has a part of
    the key's value; there are not both. -/
theorem cut_line (hc : ∀ s ∈ c.strings, Tidy s) (hp : p <+: render c) (hl : l ∈ lines lineBreak p)
    (hv : valueFor k l = some v) :
    l = k.entry (k.text c) ∨ lastLine lineBreak p = [l] ∧ k.entry (k.text c) ∉ lines lineBreak p ∧
      ∃ w, w <+: k.text c ∧ v = trim w ∧ (l = k.entry w ∨ w = [] ∧ l = k.name ++ str " =") := by
  obtain ⟨written, rest, hlayout, hlines, hlast⟩ := cut_lines hc hp
  have hin : ∀ i ∈ written, i ∈ layout := fun i hi => hlayout ▸ List.mem_append_left _ hi
  rw [hlines] at hl ⊢
  rcases List.mem_append.mp hl with hl | hl
  · obtain ⟨i, hi, rfl⟩ := List.mem_map.mp hl
    rw [item_of_valueFor (hin i hi) hv]
    exact Or.inl rfl
  · rcases hlast with hnone | ⟨i, rest', q, rfl, hq, hlast⟩
    · rw [hnone] at hl
      cases hl
    · rw [hlast, List.mem_singleton] at hl
      subst hl
      have hi : i ∈ layout := hlayout ▸ List.mem_append_right _ List.mem_cons_self
      rw [valueFor_eq_some] at hv
      cases i with
      | other line =>
        rw [part_of_other hi hq] at hv
        cases hv
      | entry k' =>
        rcases part_of_entry (k := k') hq with hn | ⟨w, hw, hs, hl⟩
        · rw [hn] at hv
          cases hv
        · rw [hs] at hv
          obtain ⟨hname, hval⟩ := Prod.mk.inj (Option.some.inj hv)
          obtain rfl := Key.name_inj hname
          by_cases hwhole : l = k'.entry (k'.text c)
          · exact Or.inl hwhole
          · refine Or.inr ⟨hlast, fun hm => ?_, w, hw, hval.symm, hl⟩
            rw [hlast] at hm
            rcases List.mem_append.mp hm with hm | hm
            · -- the key would stand in the layout twice
              obtain ⟨i, hi, htext⟩ := List.mem_map.mp hm
              have hentry : i = .entry k' := by
                have hval : valueFor k' (i.text c) = some (trim (k'.text c)) := by
                  rw [htext, valueFor_eq_some, setting?_entry]
                exact item_of_valueFor (hin i hi) hval
              have hnodup : (layout.filterMap Item.key?).Nodup := by decide
              rw [hlayout, List.filterMap_append, List.nodup_append] at hnodup
              refine hnodup.2.2 k' ?_ k' ?_ rfl
              · exact List.mem_filterMap.mpr ⟨i, hi, by rw [hentry]; rfl⟩
              · exact List.mem_filterMap.mpr ⟨_, List.mem_cons_self, rfl⟩
            · exact hwhole (List.mem_singleton.mp hm).symm

/-! ## What throws -/

theorem numeric_text (hk : k.isNumeric = true) (c : AppConfig) :
    ∃ i, k.text c = intText i ∧ k.fits i = true := by
  have hport : ∀ n : UInt16, ∃ i, natText n.toNat = intText i ∧ (decide (0 ≤ i) && decide (i < 2 ^ 16)) = true := by
    intro n
    have hn := n.toNat_lt
    exact ⟨n.toNat, (intText_natCast _).symm, by simp only [Bool.and_eq_true, decide_eq_true_eq]; omega⟩
  have hsecs : ∀ n : Int32, (decide (-2 ^ 31 ≤ n.toInt) && decide (n.toInt < 2 ^ 31)) = true := by
    intro n
    have hlo := n.le_toInt
    have hhi := n.toInt_lt
    simp only [Bool.and_eq_true, decide_eq_true_eq]
    omega
  cases k
  case listen_port => exact hport _
  case discovery_port => exact hport _
  case max_message_size =>
    have hn := c.maxMessageSize.toNat_lt
    exact ⟨c.maxMessageSize.toNat, (intText_natCast _).symm,
      by simp only [Key.fits, Bool.and_eq_true, decide_eq_true_eq]; omega⟩
  case connect_timeout_secs | read_timeout_secs | keepalive_interval_secs => exact ⟨_, rfl, hsecs _⟩
  all_goals exact absurd hk (by decide)

/-- A part of a number's text is a number that the key takes, once there is a digit. -/
theorem takes_part (hk : k.isNumeric = true) (hv : v <+: k.text c) :
    k.takes b (trim v) = true ∨ v = [] ∨ v = [minus] := by
  obtain ⟨i, htext, hfits⟩ := numeric_text hk c
  by_cases hne : v = []
  · exact Or.inr (Or.inl hne)
  by_cases hm : v = [minus]
  · exact Or.inr (Or.inr hm)
  rw [htext] at hv
  obtain ⟨j, hj, hrange⟩ := whole?_cut hv hne hm
  have hjfits : k.fits j = true := by
    cases k
    all_goals
      simp only [Key.fits, Bool.and_eq_true, decide_eq_true_eq] at hfits ⊢
      omega
  rw [Key.takes, leading?_trim]
  exact Or.inl (takes_of_valid (valid_iff.mpr ⟨j, hj, hjfits⟩))

theorem load_cut {h : Host} {d d' : Disk} {n : Nat} (hs : saveCut d c n = (true, d')) (hr : d'.readable = true) :
    load b h d' x =
      (readLines b x (lines lineBreak ((render c).take n))).map fun y => (true, ensured h y, d') := by
  unfold saveCut at hs
  split at hs
  · obtain rfl := (Prod.mk.inj hs).2
    exact if_pos hr
  · cases hs

end

/-- After a save of which `n` bytes were written, `load` throws if and only if the file ends
    behind the equals sign of a numeric key, the blank after that, or the value's minus. -/
theorem cut_short_throws_iff (b : Build) (h : Host) (d d' : Disk) (c x : AppConfig) (n : Nat)
    (hc : ∀ s ∈ c.strings, Tidy s) (hs : saveCut d c n = (true, d')) (hr : d'.readable = true) :
    load b h d' x = none ↔ ∃ k : Key, k.isNumeric = true ∧
      ∃ t ∈ [str " =", str " = ", str " = -"], lastLine lineBreak ((render c).take n) = [k.name ++ t] := by
  have hp : (render c).take n <+: render c := List.take_prefix n _
  rw [load_cut hs hr, Option.map_eq_none_iff]
  constructor
  · intro hnone
    have hparses : ¬Parses b (lines lineBreak ((render c).take n)) := fun hparses => by
      obtain ⟨y, hy⟩ := readLines_parses.mpr hparses
      rw [hnone] at hy
      cases hy
    simp only [Parses, not_forall] at hparses
    obtain ⟨l, hl, k, hk, v, hv, htakes⟩ := hparses
    rcases cut_line hc hp hl hv with rfl | ⟨hlast, -, w, hw, rfl, hl'⟩
    · rw [valueFor_eq_some, setting?_entry] at hv
      obtain ⟨-, rfl⟩ := Prod.mk.inj (Option.some.inj hv)
      obtain ⟨y, hy, -⟩ := Key.assign_text b x c k
      rw [trim_tidy (tidy_text hc k)] at htakes
      have hthrows : k.assign b x (k.text c) ≠ none := by rw [hy]; exact Option.some_ne_none _
      exact absurd ((assign_ne_none_iff hk).mp hthrows) htakes
    · refine ⟨k, hk, ?_⟩
      rcases hl' with rfl | ⟨-, rfl⟩
      · rcases (takes_part hk hw).resolve_left htakes with rfl | rfl
        · exact ⟨str " = ", by decide, by rw [hlast, Key.entry, List.append_nil]⟩
        · refine ⟨str " = -", by decide, ?_⟩
          have hsep : str " = -" = str " = " ++ [minus] := by decide
          rw [hlast, Key.entry, hsep, List.append_assoc]
      · exact ⟨str " =", by decide, hlast⟩
  · rintro ⟨k, hk, t, ht, hlast⟩
    have hset : ∀ k ∈ Key.all, ∀ t ∈ [str " =", str " = ", str " = -"],
        setting? (k.name ++ t) = some (k.name, []) ∨ setting? (k.name ++ t) = some (k.name, [minus]) := by
      decide +kernel
    by_contra hsome
    have hparses := readLines_parses.mp (Option.ne_none_iff_exists'.mp hsome)
    have hl : k.name ++ t ∈ lines lineBreak ((render c).take n) := by
      rw [lines_eq, hlast]
      exact List.mem_append_right _ (List.mem_singleton_self _)
    have htakes : ∀ v, leading? v = none → setting? (k.name ++ t) ≠ some (k.name, v) := by
      intro v hnum hv
      have htakes := hparses _ hl k hk v (valueFor_eq_some.mpr hv)
      rw [Key.takes, hnum] at htakes
      cases htakes
    exact (hset k k.mem_all t ht).elim (htakes _ (by decide)) (htakes _ (by decide))

/-- A disk that is full behind the minus of a timeout. -/
theorem cut_short_throws_minus :
    let b : Build := { os := .linux, ulongBits := 64, wide := by decide }
    let h : Host := { random := none, hostname := none }
    let c : AppConfig := { deviceId := str "d", displayName := str "n", connectTimeoutSecs := -5 }
    let d : Disk := { file := none, readable := true, writable := true }
    load b h (saveCut d c 175).2 {} = none := by
  intro b h c d
  have hlast : lastLine lineBreak ((render c).take 175) = [Key.connect_timeout_secs.name ++ str " = -"] := by
    decide +kernel
  exact (cut_short_throws_iff b h d _ c {} 175 (by decide +kernel) rfl rfl).mpr
    ⟨.connect_timeout_secs, by decide, str " = -", by decide, hlast⟩

/-! ## What is kept -/

section
variable {b : Build} {c x y z : AppConfig} {j : Key}

theorem same_ensured_of_text_ne (h : Host) (hj : j.isString = true) (hy : j.text y ≠ []) : j.Same (ensured h y) y := by
  rw [ensured_eq]
  cases j
  case device_id => exact if_neg hy
  case display_name => exact if_neg hy
  all_goals rfl

theorem text_ensured_nil (b : Build) (h : Host) (hy : j.text y = []) :
    j.text (ensured h y) = [] ∨ j.text (ensured h y) = j.text (new b h) := by
  rw [new, ensured_eq, ensured_eq]
  cases j
  case device_id => exact Or.inr (if_pos hy)
  case display_name => exact Or.inr (if_pos hy)
  all_goals exact Or.inl hy

theorem ensured_new (b : Build) (h h' : Host) : ensured h' (new b h) = new b h := by
  refine ensured_of_ne_nil ?_ ?_
  · rw [new, ensured_eq]
    exact generateUUID_ne_nil _
  · rw [new, ensured_eq]
    show (if readHostname h = [] then str "UnknownUser" else readHostname h) ≠ []
    split
    · decide
    · assumption

theorem same_iff_text (hj : j.isString = true) : j.Same y z ↔ j.text y = j.text z := by
  cases j
  all_goals first | rfl | exact absurd hj (by decide)

end

/-- After a save of which `n` bytes were written, and a `load` that does not throw: a key
    whose whole line was written has the value that was saved, and a key that no line names
    that of the fresh configuration. A string that neither the constructor nor `load` would
    fill in by itself is kept only if its whole line was written. -/
theorem cut_short_keys (b : Build) (h h' : Host) (d d' d'' : Disk) (c y : AppConfig) (n : Nat) (ok : Bool)
    (hc : Settled c) (hs : saveCut d c n = (true, d')) (hr : d'.readable = true)
    (hl : load b h' d' (new b h) = some (ok, y, d'')) (j : Key) :
    let ls := lines lineBreak ((render c).take n)
    (j.entry (j.text c) ∈ ls → j.Same y c) ∧
    ((∀ l ∈ ls, valueFor j l = none) → j.Same y (new b h)) ∧
    (j.isString = true → j.text c ≠ [] → j.text c ≠ j.text (new b h) → j.text c ≠ j.text (new b h') →
      j.Same y c → j.entry (j.text c) ∈ ls) := by
  intro ls
  have hp : (render c).take n <+: render c := List.take_prefix n _
  rw [load_cut hs hr, Option.map_eq_some_iff] at hl
  obtain ⟨y', hy', he⟩ := hl
  simp only [Prod.mk.injEq] at he
  obtain ⟨-, rfl, -⟩ := he
  have hfresh : (∀ l ∈ ls, valueFor j l = none) → j.Same (ensured h' y') (new b h) := by
    intro hnone
    have hsame := same_ensured h' ((readLines_key c hy').1 (lastValue_eq_none_iff.mpr hnone))
    rwa [ensured_new] at hsame
  refine ⟨fun hwhole => ?_, hfresh, fun hj hne hx hx' hsame => ?_⟩
  · have hval : valueFor j (j.entry (j.text c)) = some (j.text c) := by
      rw [valueFor_eq_some, setting?_entry, trim_tidy (tidy_text hc.strings j)]
    cases hlast : lastValue j ls with
    | none =>
      rw [lastValue_eq_none_iff.mp hlast _ hwhole] at hval
      cases hval
    | some w =>
      obtain ⟨l, hl, hlw⟩ := lastValue_mem hlast
      rcases cut_line hc.strings hp hl hlw with rfl | ⟨-, hnot, -⟩
      · rw [hval] at hlw
        cases hlw
        obtain ⟨z, hz, hyz⟩ := (readLines_key c hy').2 _ hlast
        obtain ⟨z', hz', hzc⟩ := Key.assign_text b c c j
        rw [hz] at hz'
        cases hz'
        have hkept := same_ensured h' (hyz.trans hzc)
        rwa [ensured_of_ne_nil hc.deviceId hc.displayName] at hkept
      · exact absurd hwhole hnot
  · rw [same_iff_text hj] at hsame
    cases hlast : lastValue j ls with
    | none =>
      have hnew := (same_iff_text hj).mp (hfresh (lastValue_eq_none_iff.mp hlast))
      exact absurd (hsame.symm.trans hnew) hx
    | some w =>
      obtain ⟨l, hl, hlw⟩ := lastValue_mem hlast
      rcases cut_line hc.strings hp hl hlw with rfl | ⟨-, -, v, hv, rfl, hlv⟩
      · exact hl
      · obtain ⟨z, hz, hyz⟩ := (readLines_key c hy').2 _ hlast
        obtain ⟨z', hz', htext⟩ := Key.assign_isString hj b c (trim v)
        rw [hz] at hz'
        cases hz'
        have hy' : j.text y' = trim v := hyz.text.trans htext
        by_cases hnil : trim v = []
        · -- nothing of the value: it is filled in, or stays empty
          rcases text_ensured_nil b h' (hy'.trans hnil) with h0 | h0
          · exact absurd (hsame.symm.trans h0) hne
          · exact absurd (hsame.symm.trans h0) hx'
        · have hkept := (same_ensured_of_text_ne h' hj (by rwa [hy'])).text
          have hvc : trim v = j.text c := hy'.symm.trans (hkept.symm.trans hsame)
          have hlen : v.length = (j.text c).length := by
            refine Nat.le_antisymm hv.length_le ?_
            rw [← hvc]
            exact (trim_sublist v).length_le
          obtain rfl := hv.eq_of_length hlen
          rcases hlv with rfl | ⟨hnil', -⟩
          · exact hl
          · exact absurd hnil' hne

/-- A process that is killed in the middle of the display name. -/
theorem cut_short_keys_name :
    let b : Build := { os := .linux, ulongBits := 64, wide := by decide }
    let h : Host := { random := none, hostname := none }
    let c : AppConfig := { deviceId := str "d", displayName := str "name", platform := str "Linux" }
    let d : Disk := { file := none, readable := true, writable := true }
    let y : AppConfig := { deviceId := str "d", displayName := str "na", platform := str "Linux" }
    load b h (saveCut d c 42).2 (new b h) = some (true, y, (saveCut d c 42).2) ∧ Key.Same y c .device_id := by
  intro b h c d y
  have hc : Settled c := ⟨by decide +kernel, by decide, by decide⟩
  have hl : load b h (saveCut d c 42).2 (new b h) = some (true, y, (saveCut d c 42).2) := by decide +kernel
  exact ⟨hl, (cut_short_keys b h h d _ _ c y 42 true hc rfl rfl hl .device_id).1 (by decide +kernel)⟩

end LanTalk.Config
