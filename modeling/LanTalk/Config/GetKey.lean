/-
  LanTalk.Config.GetKey — `Config::getAsString` beside `Config::set` (`src/config/config.cpp`).

  `set` knows fifteen keys and `getAsString` five of them. A call of `set` that throws has
  assigned nothing, and a program that catches goes on with the configuration as it was.

  Proved, after any calls of `set`:
  - `set_then_get_iff`: for which keys what was set can be read.
-/

import LanTalk.Config.RoundTrip

namespace LanTalk.Config

open LanTalk.Lib

def getAsString (c : AppConfig) (key : Bytes) : Option Bytes :=
  if key = str "device_id" then some c.deviceId
  else if key = str "display_name" then some c.displayName
  else if key = str "platform" then some c.platform
  else if key = str "log_level" then some c.logLevel
  else if key = str "log_file" then some c.logFile
  else none

/-! ## Keys that are read -/

/-- The keys that `getAsString` answers for. -/
def Key.readable (k : Key) : Bool := k ∈ [Key.device_id, .display_name, .platform, .log_level, .log_file]

section
variable {b : Build} {c c' : AppConfig} {k : Key} {value : Bytes}

theorem getAsString_readable (hk : k.readable = true) : getAsString c k.name = some (k.text c) := by
  cases k
  all_goals first | rfl | exact absurd hk (by decide)

theorem getAsString_other {key : Bytes} (hk : ∀ k : Key, k.readable = true → key ≠ k.name) :
    getAsString c key = none := by
  have h1 := hk .device_id rfl
  have h2 := hk .display_name rfl
  have h3 := hk .platform rfl
  have h4 := hk .log_level rfl
  have h5 := hk .log_file rfl
  simp only [Key.name] at h1 h2 h3 h4 h5
  rw [getAsString, if_neg h1, if_neg h2, if_neg h3, if_neg h4, if_neg h5]

theorem getAsString_unreadable (hk : k.readable = false) : getAsString c k.name = none := by
  refine getAsString_other fun j hj he => ?_
  rw [Key.name_inj he, hj] at hk
  cases hk

theorem readable_isString (hk : k.readable = true) : k.isString = true := by
  cases k
  all_goals first | rfl | exact absurd hk (by decide)

/-- Setting a string key to what it has changes nothing. -/
theorem assign_own (hk : k.isString = true) : k.assign b c (k.text c) = some c := by
  cases k
  all_goals first | rfl | exact absurd hk (by decide)

/-- Every key takes some value. -/
theorem assign_some (b : Build) (c : AppConfig) (k : Key) : ∃ value c', k.assign b c value = some c' := by
  obtain ⟨c', h, -⟩ := Key.assign_text b c c k
  exact ⟨_, c', h⟩

end

/-! ## Calls of `set` -/

/-- What a call leaves, whether it returns or throws. -/
def afterSet (b : Build) (c : AppConfig) (call : Bytes × Bytes) : AppConfig :=
  match set b c call.1 call.2 with
  | some (_, c') => c'
  | none => c

def afterSets (b : Build) (c : AppConfig) (calls : List (Bytes × Bytes)) : AppConfig := calls.foldl (afterSet b) c

/-- The canonical text of some value of the key's field: the one `save` writes for it. -/
def Canonical (key value : Bytes) : Prop := ∃ (k : Key) (c : AppConfig), key = k.name ∧ k.text c = value

/-- What was set can be read: if the last call for the key returned true, with a canonical value,
    `getAsString` returns this value; setting the key to what is returned changes nothing; and
    nothing is returned only if `set` refuses the key. -/
structure Readable (b : Build) (c : AppConfig) (calls : List (Bytes × Bytes)) (key : Bytes) : Prop where
  last : ∀ before value after c', calls = before ++ (key, value) :: after → (∀ call ∈ after, call.1 ≠ key) →
    set b (afterSets b c before) key value = some (true, c') → Canonical key value →
    getAsString (afterSets b c calls) key = some value
  again : ∀ value, getAsString (afterSets b c calls) key = some value →
    set b (afterSets b c calls) key value = some (true, afterSets b c calls)
  refused : getAsString (afterSets b c calls) key = none →
    ∀ value, set b (afterSets b c calls) key value = some (false, afterSets b c calls)

section
variable {b : Build} {c : AppConfig} {calls : List (Bytes × Bytes)} {k : Key}

/-- A call for another key leaves a key as it is. -/
theorem afterSet_other (c : AppConfig) {call : Bytes × Bytes} (h : call.1 ≠ k.name) :
    k.Same (afterSet b c call) c := by
  unfold afterSet
  cases hs : set b c call.1 call.2 with
  | none => exact .refl c k
  | some p =>
    by_cases hj : ∃ j : Key, call.1 = j.name
    · obtain ⟨j, hj⟩ := hj
      rw [hj, set_name] at hs
      obtain ⟨c', hassign, rfl⟩ := Option.map_eq_some_iff.mp hs
      exact Key.assign_other (fun e => h (e ▸ hj)) hassign
    · rw [set_unknown (not_exists.mp hj)] at hs
      cases hs
      exact .refl c k

/-- So do any number of them. -/
theorem afterSets_other (c : AppConfig) {calls : List (Bytes × Bytes)} (h : ∀ call ∈ calls, call.1 ≠ k.name) :
    k.Same (afterSets b c calls) c := by
  induction calls generalizing c with
  | nil => exact .refl c k
  | cons call calls ih =>
    obtain ⟨hcall, hcalls⟩ := List.forall_mem_cons.mp h
    exact (ih (afterSet b c call) hcalls).trans (afterSet_other c hcall)

/-- A string key has the value of its last call. -/
theorem text_afterSets (hk : k.isString = true) (c : AppConfig) (before : List (Bytes × Bytes)) (value : Bytes)
    {after : List (Bytes × Bytes)} (h : ∀ call ∈ after, call.1 ≠ k.name) :
    k.text (afterSets b c (before ++ (k.name, value) :: after)) = value := by
  obtain ⟨c', hassign, htext⟩ := Key.assign_isString hk b (afterSets b c before) value
  have hcall : afterSet b (afterSets b c before) (k.name, value) = c' := by
    rw [afterSet, set_name, hassign]
    rfl
  have hcalls : afterSets b c (before ++ (k.name, value) :: after) = afterSets b c' after := by
    rw [← hcall, afterSets, List.foldl_append, List.foldl_cons]
    rfl
  rw [hcalls, (afterSets_other c' h).text, htext]

theorem Readable.of_readable (hk : k.readable = true) : Readable b c calls k.name := by
  have hstring := readable_isString hk
  constructor
  · intro before value after c' hcalls hafter _ _
    rw [getAsString_readable hk, hcalls, text_afterSets hstring c before value hafter]
  · intro value hget
    rw [getAsString_readable hk] at hget
    rw [← Option.some.inj hget, set_name, assign_own hstring]
    rfl
  · intro hget
    rw [getAsString_readable hk] at hget
    cases hget

/-- A key that neither of them knows. -/
theorem Readable.of_unknown {key : Bytes} (hkey : ∀ k : Key, key ≠ k.name) : Readable b c calls key := by
  have hget : ∀ e, getAsString e key = none := fun e => getAsString_other fun k _ => hkey k
  constructor
  · intro before value after c' _ _ hset _
    rw [set_unknown hkey] at hset
    cases hset
  · intro value hvalue
    rw [hget] at hvalue
    cases hvalue
  · exact fun _ value => set_unknown hkey value

/-- A key that only `set` knows is denied although `set` takes some value for it. -/
theorem Readable.readable (h : Readable b c calls k.name) : k.readable = true := by
  by_contra hunread
  have hget := getAsString_unreadable (c := afterSets b c calls) (by simpa using hunread)
  obtain ⟨value, c', hassign⟩ := assign_some b (afterSets b c calls) k
  have hset := h.refused hget value
  rw [set_name, hassign] at hset
  cases hset

end

/-- After any calls of `set`, what was set for a key can be read if and only if the key is one
    that `getAsString` answers for, or none of the program's. -/
theorem set_then_get_iff (b : Build) (c : AppConfig) (calls : List (Bytes × Bytes)) (key : Bytes) :
    Readable b c calls key ↔ ∀ k : Key, key = k.name → k.readable = true := by
  constructor
  · intro h k hk
    rw [hk] at h
    exact h.readable
  · intro h
    by_cases hkey : ∃ k : Key, key = k.name
    · obtain ⟨k, rfl⟩ := hkey
      exact .of_readable (h k rfl)
    · exact .of_unknown (not_exists.mp hkey)

/-- A port that was set is denied. -/
theorem set_port_not_read :
    let b : Build := { os := .linux, ulongBits := 64, wide := by decide }
    let calls := [(str "listen_port", str "6060")]
    set b {} (str "listen_port") (str "6060") = some (true, { listenPort := 6060 }) ∧
      Canonical (str "listen_port") (str "6060") ∧
      getAsString (afterSets b {} calls) (str "listen_port") = none ∧
      ¬ Readable b {} calls (str "listen_port") := by
  intro b calls
  have hset : set b {} (str "listen_port") (str "6060") = some (true, { listenPort := 6060 }) := by decide +kernel
  have hget : getAsString (afterSets b {} calls) (str "listen_port") = none := by decide +kernel
  refine ⟨hset, ⟨.listen_port, { listenPort := 6060 }, rfl, by decide +kernel⟩, hget, fun h => ?_⟩
  have hrefused := h.refused hget (str "6060")
  revert hrefused
  decide +kernel

end LanTalk.Config
