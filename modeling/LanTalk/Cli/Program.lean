/-
  LanTalk.Cli.Program — the program from start to start (`main` and the commands of
  `src/main.cpp` that end by themselves), and the settings it keeps between them.

  `Start` is what one start gets: the command line, what the machine gives `Config`'s
  constructor (`made`) and its `load` (`read`), and whether the file can be read and written.
  A start leaves the file, and an `Ended`; a command that goes on (`listen`, `connect`, `scan`,
  the menu) ends here where it is handed the settings, as none of them saves. The texts of
  help and of the version are left out, and the flags for logging.

  Over it is a program that keeps the settings themselves (`remembered`): what it is given
  to save it keeps, with the blanks around its strings taken off.

  Proved, for values and host names without line breaks:
  - `program_keeps_settings`: any starts, from one without a file on, end as those of the
    program that keeps the settings do, and the file holds what this one keeps.
  - `identity_kept`: with a file that can be read and written, all starts have one device id
    until one is set.
  And for every file:
  - `never_starts_iff`: no command can be run again, and none repairs the file, if and only if
    a numeric key has a value that its conversion throws on.
-/

import LanTalk.Cli.Switches
import LanTalk.Config.GetKey
import LanTalk.Config.BadLines

namespace LanTalk.Cli

open LanTalk.Lib LanTalk.Config

/-! ## Commands -/

/-- What a command prints, and what it gives `LOG_INFO`. -/
structure Said where
  out : Bytes := []
  err : Bytes := []
  info : Bytes := []
  deriving DecidableEq

def answer (text : Bytes) : Said := { out := text }

def complaint (text : Bytes) : Said := { err := text }

/-- `Config::print`. -/
def print (c : AppConfig) : Said :=
  { info := str "Config: display_name=" ++ c.displayName ++ str ", listen_port=" ++ natText c.listenPort.toNat }

section
variable (b : Build) (path : Bytes)

/-- What `runConfig` says, and what it gives `save`, whose answer it does not look at; `none` when
    `set` throws. -/
def runConfig (c : AppConfig) (args : ParsedArgs) : Option (Said × Option AppConfig) :=
  match args.positional with
  | [] => some (print c, none)
  | sub :: rest =>
    if sub = str "show" then some (print c, none)
    else if sub = str "set" then
      match rest with
      | key :: value :: _ =>
        (set b c key value).map fun (known, c') =>
          if known then
            (answer (str "Set " ++ key ++ str " = " ++ value ++ str "\nConfig saved to: " ++ path ++ str "\n"), some c')
          else
            (complaint (str "Unknown config key: " ++ key ++ str "\nRun 'lantalk config show' to see valid keys.\n"),
              none)
      | _ => some (complaint (str "Usage: lantalk config set <key> <value>\n"), none)
    else if sub = str "get" then
      match rest with
      | key :: _ =>
        match getAsString c key with
        | some value => some (answer (key ++ str " = " ++ value ++ str "\n"), none)
        | none => some (complaint (str "Unknown config key: " ++ key ++ str "\n"), none)
      | [] => some (complaint (str "Usage: lantalk config get <key>\n"), none)
    else
      some (complaint (str "Unknown config sub-command: " ++ sub ++
        str "\nUsage: lantalk config [show | set KEY VALUE | get KEY]\n"), none)

def runStatus (c : AppConfig) : Said :=
  answer (str "\nLanTalk Status\n==============\nDevice ID:    " ++ c.deviceId ++
    str "\nDisplay Name: " ++ c.displayName ++ str "\nPlatform:     " ++ c.platform ++
    str "\nListen Port:  " ++ natText c.listenPort.toNat ++
    str "\nDiscovery:    " ++ (if c.discoveryEnabled then str "enabled" else str "disabled") ++
    str "\nConfig file:  " ++ path ++ str "\n")

/-- The commands of which what they do after they are handed the settings is modelled elsewhere,
    or is not. -/
inductive Task where
  | listen
  | connect
  | scan
  | menu
  | said (code : Nat) (s : Said)
  deriving DecidableEq

/-- `main`'s dispatch: what is run, and what is given to `save`. -/
def dispatch (c : AppConfig) (args : ParsedArgs) : Option (Task × Option AppConfig) :=
  let cmd := args.command
  if cmd = str "listen" then some (.listen, none)
  else if cmd = str "connect" then some (.connect, none)
  else if cmd = str "scan" then some (.scan, none)
  else if cmd = str "config" then (runConfig b path c args).map fun (s, saved) => (.said 0 s, saved)
  else if cmd = str "status" then some (.said 0 (runStatus path c), none)
  else if cmd = str "peers" then some (.scan, none)
  else if cmd = [] then some (.menu, none)
  else some (.said 1 (complaint (str "Unknown command: " ++ cmd ++ str "\nRun 'lantalk --help' for usage.\n")), none)

/-! ## Starts -/

structure Start where
  argv : List Bytes
  made : Host
  read : Host
  readable : Bool := true
  writable : Bool := true

inductive Ended where
  | help
  | version
  /-- An exception leaves `main`. -/
  | threw
  | ran (task : Task) (c : AppConfig)
  deriving DecidableEq

/-- The answers that need no settings. -/
def early (args : ParsedArgs) : Option Ended :=
  if args.command = str "help" ∨ args.hasFlag (str "help") = true then some .help
  else if args.command = str "version" ∨ args.hasFlag (str "version") = true then some .version
  else none

def Start.disk (s : Start) (file : Option Bytes) : Disk where
  file := file
  readable := s.readable
  writable := s.writable

/-- `main`: how it ends, and the file it leaves. -/
def main (s : Start) (file : Option Bytes) : Ended × Option Bytes :=
  let args := parse s.argv
  match early args with
  | some e => (e, file)
  | none =>
    match load b s.read (s.disk file) (new b s.made) with
    | none => (.threw, file)
    | some (_, c, d) =>
      match dispatch b path c args with
      | none => (.threw, d.file)
      | some (task, none) => (.ran task c, d.file)
      | some (task, some c') => (.ran task c, (save d c').2.file)

/-- One start after the other. -/
def runs {σ : Type} (main : Start → σ → Ended × σ) : List Start → σ → List Ended × σ
  | [], s => ([], s)
  | start :: starts, s =>
    let r := main start s
    let rest := runs main starts r.2
    (r.1 :: rest.1, rest.2)

/-! ## The settings themselves -/

/-- The configuration with the blanks around its strings taken off. -/
def trimmed (c : AppConfig) : AppConfig :=
  { c with deviceId := trim c.deviceId, displayName := trim c.displayName, platform := trim c.platform
           pskHash := trim c.pskHash, logLevel := trim c.logLevel, logFile := trim c.logFile }

/-- The program that keeps the settings it was last given to save, if there were any. -/
def remembered (s : Start) (kept : Option AppConfig) : Ended × Option AppConfig :=
  let args := parse s.argv
  let keep := fun (c : AppConfig) (old : Option AppConfig) => if s.writable then some (trimmed c) else old
  match early args with
  | some e => (e, kept)
  | none =>
    let fresh := new b s.made
    let (c, kept') :=
      match kept with
      | none => (fresh, keep fresh none)
      | some c => (if s.readable then ensured s.read c else fresh, some c)
    match dispatch b path c args with
    | none => (.threw, kept')
    | some (task, none) => (.ran task c, kept')
    | some (task, some c') => (.ran task c, keep c' kept')

end

/-! ## What is read of a saved file -/

/-- No line breaks in the strings. -/
def Unbroken (c : AppConfig) : Prop := ∀ s ∈ c.strings, lineBreak ∉ s

section
variable {b : Build} {c c' x : AppConfig}

/-- The text of a number or a switch. -/
theorem tidy_plain (c : AppConfig) {k : Key} (hk : k.isString = false) : Tidy (k.text c) := by
  have htidy : ∀ k : Key, Tidy (k.text { c with deviceId := [], displayName := [], platform := [], pskHash := []
                                                logLevel := [], logFile := [] }) :=
    tidy_text (by simp only [AppConfig.strings, List.forall_mem_cons]; decide)
  have htext := htidy k
  cases k
  all_goals first | exact htext | exact absurd hk (by decide)

theorem text_trimmed (c : AppConfig) (k : Key) : k.text (trimmed c) = trim (k.text c) := by
  cases hk : k.isString with
  | true =>
    cases k
    all_goals first | rfl | exact absurd hk (by decide)
  | false =>
    rw [trim_tidy (tidy_plain c hk)]
    cases k
    all_goals first | rfl | exact absurd hk (by decide)

theorem unbroken_text (hc : Unbroken c) (k : Key) : lineBreak ∉ k.text c := by
  cases hk : k.isString with
  | true =>
    simp only [Unbroken, AppConfig.strings, List.forall_mem_cons] at hc
    obtain ⟨h1, h2, h3, h4, h5, h6, -⟩ := hc
    cases k
    all_goals first | assumption | exact absurd hk (by decide)
  | false => exact (tidy_plain c hk).1

theorem trimmed_tidy (hc : Unbroken c) : ∀ s ∈ (trimmed c).strings, Tidy s := by
  simp only [Unbroken, AppConfig.strings, List.forall_mem_cons] at hc
  obtain ⟨h1, h2, h3, h4, h5, h6, -⟩ := hc
  simp only [AppConfig.strings, trimmed, List.forall_mem_cons]
  exact ⟨tidy_trim h1, tidy_trim h2, tidy_trim h3, tidy_trim h4, tidy_trim h5, tidy_trim h6, by simp⟩

/-- The lines of a key are read alike whether or not blanks are around its text. -/
theorem readLines_trimmed (hc : Unbroken c) (ks : List Key) :
    readLines b x (entryLines c ks) = readLines b x (entryLines (trimmed c) ks) := by
  have hline : ∀ {c : AppConfig} (k : Key), lineBreak ∉ k.text c →
      (k.entry (k.text c)).splitOn lineBreak = [k.entry (k.text c)] := fun k hk => by
    rw [splitOn_entry, laterLines, List.splitOn_eq_singleton hk]
    rfl
  have hbroken : ∀ k : Key, lineBreak ∉ k.text (trimmed c) := fun k => (tidy_text (trimmed_tidy hc) k).1
  induction ks generalizing x with
  | nil => rfl
  | cons k ks ih =>
    have hread : readLine b x (k.entry (k.text c)) = readLine b x (k.entry (k.text (trimmed c))) := by
      rw [readLine_entry, readLine_entry, text_trimmed, trim_tidy (tidy_trim (unbroken_text hc k))]
    rw [entryLines_cons, entryLines_cons, hline k (unbroken_text hc k), hline k (hbroken k), List.singleton_append,
      List.singleton_append, readLines, readLines, hread]
    cases readLine b x (k.entry (k.text (trimmed c))) with
    | none => rfl
    | some y => exact ih

/-- A saved configuration is read back trimmed, whatever it is read into. -/
theorem readLines_saved (hc : Unbroken c) (x : AppConfig) :
    readLines b x (lines lineBreak (render c)) = some (trimmed c) := by
  obtain ⟨y, hy, hsame, -⟩ := readLines_entries (b := b) (x := x) Key.all fun k _ => tidy_text (trimmed_tidy hc) k
  have hyc : y = trimmed c := Key.same_ext fun k => hsame k k.mem_all
  rw [readLines_render, readLines_trimmed hc, hy, hyc]

/-- Setting a key to an unbroken value breaks no string. -/
theorem assign_unbroken {k : Key} {value : Bytes} (hc : Unbroken c) (hv : lineBreak ∉ value)
    (h : k.assign b c value = some c') : Unbroken c' := by
  simp only [Unbroken, AppConfig.strings, List.forall_mem_cons] at hc ⊢
  obtain ⟨h1, h2, h3, h4, h5, h6, hnil⟩ := hc
  cases k
  all_goals
    simp only [Key.assign, Option.map_eq_some_iff, Option.some.injEq] at h
    first | (obtain rfl := h) | (obtain ⟨_, -, rfl⟩ := h)
    refine ⟨?_, ?_, ?_, ?_, ?_, ?_, hnil⟩ <;> assumption

theorem ensured_unbroken {h : Host} (hh : lineBreak ∉ readHostname h) (hc : Unbroken c) : Unbroken (ensured h c) := by
  have hid : lineBreak ∉ generateUUID h.random := fun hm => absurd (generateUUID_visible h.random _ hm) (by decide)
  simp only [Unbroken, AppConfig.strings, List.forall_mem_cons, ensured_eq] at hc ⊢
  obtain ⟨h1, h2, h3, h4, h5, h6, hnil⟩ := hc
  refine ⟨?_, ?_, h3, h4, h5, h6, hnil⟩
  · split <;> assumption
  · split
    · split
      · decide
      · exact hh
    · exact h2

theorem new_unbroken (b : Build) {h : Host} (hh : lineBreak ∉ readHostname h) : Unbroken (new b h) := by
  refine ensured_unbroken hh ?_
  have hp : lineBreak ∉ platformName b.os := by cases b.os <;> decide
  simp only [Unbroken, AppConfig.strings, List.forall_mem_cons]
  exact ⟨by decide, by decide, hp, by decide, by decide, by decide, by simp⟩

end

/-! ## One start -/

/-- No line break in the value a key may be set to, nor in the host's name. -/
structure Start.Plain (s : Start) : Prop where
  made : lineBreak ∉ readHostname s.made
  read : lineBreak ∉ readHostname s.read
  value : ∀ v, (parse s.argv).positional[2]? = some v → lineBreak ∉ v

/-- What is kept is what the file is read as. -/
def Holds (b : Build) : Option Bytes → Option AppConfig → Prop
  | none, none => True
  | some bytes, some c => Unbroken c ∧ ∀ x, readLines b x (lines lineBreak bytes) = some c
  | _, _ => False

section
variable {b : Build} {path : Bytes} {s : Start} {c c' : AppConfig} {args : ParsedArgs} {task : Task}

/-- What is saved is the settings with one key set to the third positional argument. -/
theorem runConfig_saved {said : Said} (h : runConfig b path c args = some (said, some c')) :
    ∃ (k : Key) (value : Bytes), args.positional.take 3 = [str "set", k.name, value] ∧ k.assign b c value = some c' := by
  unfold runConfig at h
  split at h
  · cases h
  rename_i sub rest hpos
  split at h
  · cases h
  split at h
  · rename_i hsub
    split at h
    · rename_i key value more
      obtain ⟨⟨known, x⟩, hset, hx⟩ := Option.map_eq_some_iff.mp h
      cases known with
      | false => cases hx
      | true =>
        cases hx
        by_cases hk : ∃ k : Key, key = k.name
        · obtain ⟨k, rfl⟩ := hk
          rw [set_name] at hset
          obtain ⟨y, hy, he⟩ := Option.map_eq_some_iff.mp hset
          cases he
          exact ⟨k, value, by rw [hpos, hsub]; rfl, hy⟩
        · rw [set_unknown (not_exists.mp hk)] at hset
          cases hset
    · cases h
  split at h
  · split at h
    · split at h <;> cases h
    · cases h
  · cases h

theorem dispatch_saved (h : dispatch b path c args = some (task, some c')) :
    ∃ (k : Key) (value : Bytes), args.positional.take 3 = [str "set", k.name, value] ∧ k.assign b c value = some c' := by
  simp only [dispatch] at h
  split at h
  · cases h
  split at h
  · cases h
  split at h
  · cases h
  split at h
  · obtain ⟨⟨said, saved⟩, hrun, he⟩ := Option.map_eq_some_iff.mp h
    cases he
    exact runConfig_saved hrun
  split at h
  · cases h
  split at h
  · cases h
  split at h <;> cases h

/-- What a plain start saves has no string broken. -/
theorem Start.Plain.saved (hs : s.Plain) (hc : Unbroken c)
    (h : dispatch b path c (parse s.argv) = some (task, some c')) :
    Unbroken c' := by
  obtain ⟨k, value, hargs, hassign⟩ := dispatch_saved h
  refine assign_unbroken hc (hs.value value ?_) hassign
  have hthird := congrArg (·[2]?) hargs
  simpa [List.getElem?_take] using hthird

/-- The settings a start is run with, where `kept` is what was kept. -/
def Start.settings (b : Build) (s : Start) : Option AppConfig → AppConfig
  | none => new b s.made
  | some c => if s.readable then ensured s.read c else new b s.made

/-- What is kept once they are loaded. -/
def Start.stored (b : Build) (s : Start) : Option AppConfig → Option AppConfig
  | none => if s.writable then some (trimmed (new b s.made)) else none
  | some c => some c

theorem remembered_eq (b : Build) (path : Bytes) (s : Start) (kept : Option AppConfig) :
    remembered b path s kept =
      match early (parse s.argv) with
      | some e => (e, kept)
      | none =>
        match dispatch b path (s.settings b kept) (parse s.argv) with
        | none => (.threw, s.stored b kept)
        | some (task, none) => (.ran task (s.settings b kept), s.stored b kept)
        | some (task, some c') =>
          (.ran task (s.settings b kept), if s.writable then some (trimmed c') else s.stored b kept) := by
  cases kept <;> rfl

theorem save_writable (d : Disk) (c : AppConfig) : (save d c).2.writable = d.writable := by
  unfold Config.save
  split <;> rfl

/-- Saving keeps the file in step. -/
theorem Holds.save {d : Disk} {kept : Option AppConfig} (h : Holds b d.file kept) (hc : Unbroken c) :
    Holds b (save d c).2.file (if d.writable then some (trimmed c) else kept) := by
  unfold Config.save
  split
  · exact ⟨fun t ht => (trimmed_tidy hc t ht).1, readLines_saved hc⟩
  · exact h

/-- Loading gives the settings, and keeps the file in step. -/
theorem Start.Plain.loads (hs : s.Plain) {file : Option Bytes} {kept : Option AppConfig} (h : Holds b file kept) :
    Unbroken (s.settings b kept) ∧ ∃ ok d, load b s.read (s.disk file) (new b s.made) = some (ok, s.settings b kept, d) ∧
      d.writable = s.writable ∧ Holds b d.file (s.stored b kept) := by
  have hnew := new_unbroken b hs.made
  cases kept with
  | none =>
    cases file with
    | some bytes => exact h.elim
    | none =>
      have hsave : Holds b (Config.save (s.disk none) (new b s.made)).2.file (s.stored b none) :=
        Holds.save (d := s.disk none) h hnew
      exact ⟨hnew, _, _, rfl, save_writable _ _, hsave⟩
  | some c =>
    cases file with
    | none => exact h.elim
    | some bytes =>
      have hload : load b s.read (s.disk (some bytes)) (new b s.made) =
          if s.readable then
            (readLines b (new b s.made) (lines lineBreak bytes)).map fun c' =>
              (true, ensured s.read c', s.disk (some bytes))
          else some (false, new b s.made, s.disk (some bytes)) := rfl
      by_cases hr : s.readable = true
      · have hset : s.settings b (some c) = ensured s.read c := if_pos hr
        rw [hset, hload, if_pos hr, h.2]
        exact ⟨ensured_unbroken hs.read h.1, true, _, rfl, rfl, h⟩
      · have hset : s.settings b (some c) = new b s.made := if_neg hr
        rw [hset, hload, if_neg hr]
        exact ⟨hnew, false, _, rfl, rfl, h⟩

/-- A start does as the program that keeps the settings does. -/
theorem Start.Plain.step (path : Bytes) (hs : s.Plain) {file : Option Bytes} {kept : Option AppConfig}
    (h : Holds b file kept) :
    (main b path s file).1 = (remembered b path s kept).1 ∧
      Holds b (main b path s file).2 (remembered b path s kept).2 := by
  rw [remembered_eq, main]
  cases early (parse s.argv) with
  | some e => exact ⟨rfl, h⟩
  | none =>
    obtain ⟨hc, ok, d, hload, hw, hd⟩ := hs.loads h
    simp only [hload]
    cases hdis : dispatch b path (s.settings b kept) (parse s.argv) with
    | none => exact ⟨rfl, hd⟩
    | some r =>
      obtain ⟨task, saved⟩ := r
      cases saved with
      | none => exact ⟨rfl, hd⟩
      | some c' =>
        refine ⟨rfl, ?_⟩
        rw [← hw]
        exact hd.save (hs.saved hc hdis)

end

/-! ## Start after start -/

section
variable {b : Build} {path : Bytes} {starts : List Start}

/-- Any starts, from a file that holds what is kept. -/
theorem Holds.runs (hs : ∀ s ∈ starts, s.Plain) {file : Option Bytes} {kept : Option AppConfig}
    (h : Holds b file kept) :
    (Cli.runs (main b path) starts file).1 = (Cli.runs (remembered b path) starts kept).1 ∧
      Holds b (Cli.runs (main b path) starts file).2 (Cli.runs (remembered b path) starts kept).2 := by
  induction starts generalizing file kept with
  | nil => exact ⟨rfl, h⟩
  | cons s starts ih =>
    obtain ⟨hended, hkept⟩ := (hs s List.mem_cons_self).step path h
    obtain ⟨hrest, hlast⟩ := ih (fun t ht => hs t (List.mem_cons_of_mem _ ht)) hkept
    exact ⟨by rw [Cli.runs, Cli.runs, hended, hrest], hlast⟩

end

/-- `lantalk` with some arguments, on a host without a name. -/
def lantalk (args : List Bytes) : Start :=
  { argv := str "lantalk" :: args, made := { random := none, hostname := none }
    read := { random := none, hostname := none } }

theorem lantalk_plain {args : List Bytes} (value : Option Bytes)
    (h : (parse (str "lantalk" :: args)).positional[2]? = value) (hv : ∀ v ∈ value, lineBreak ∉ v) :
    (lantalk args).Plain where
  made := List.not_mem_nil
  read := List.not_mem_nil
  value v hp := hv v (h ▸ hp)

/-- A name with blanks around it, a command that shows it, and one that does not exist. -/
def threeStarts : List Start :=
  [lantalk [str "config", str "set", str "display_name", str " A "], lantalk [str "status"], lantalk [str "show"]]

theorem threeStarts_plain : ∀ s ∈ threeStarts, s.Plain := by
  simp only [threeStarts, List.forall_mem_cons]
  exact ⟨lantalk_plain (some (str " A ")) (by decide +kernel) (by decide),
    lantalk_plain none (by decide +kernel) (by decide),
    lantalk_plain none (by decide +kernel) (by decide), by simp⟩

/-- The file can be read and written, and the device id is not set. -/
structure Start.KeepsId (s : Start) : Prop where
  plain : s.Plain
  readable : s.readable = true
  writable : s.writable = true
  unset : (parse s.argv).positional.take 2 ≠ [str "set", str "device_id"]

/-- What a start runs with has the device id. -/
def Ended.HasId (id : Bytes) (e : Ended) : Prop := ∀ task c, e = .ran task c → c.deviceId = id

def KeptId (id : Bytes) (kept : Option AppConfig) : Prop := ∃ c, kept = some c ∧ c.deviceId = id

section
variable {b : Build} {path : Bytes} {s : Start} {starts : List Start} {kept : Option AppConfig} {id : Bytes}

theorem early_hasId {args : ParsedArgs} {e : Ended} (h : early args = some e) (id : Bytes) : e.HasId id := by
  unfold early at h
  intro task c hran
  split at h
  · cases h
    cases hran
  · split at h <;> cases h
    cases hran

/-- A start whose settings have the id leaves it to those that come. -/
theorem Start.KeepsId.settings (path : Bytes) (hs : s.KeepsId) (hid : Tidy id)
    (hset : (s.settings b kept).deviceId = id) (hstored : KeptId id (s.stored b kept))
    (hearly : early (parse s.argv) = none) :
    (remembered b path s kept).1.HasId id ∧ KeptId id (remembered b path s kept).2 := by
  rw [remembered_eq, hearly]
  simp only
  cases hdis : dispatch b path (s.settings b kept) (parse s.argv) with
  | none => exact ⟨fun _ _ h => (by cases h), hstored⟩
  | some r =>
    obtain ⟨task, saved⟩ := r
    have hran : (Ended.ran task (s.settings b kept)).HasId id := by
      intro task' c h
      cases h
      exact hset
    cases saved with
    | none => exact ⟨hran, hstored⟩
    | some c' =>
      refine ⟨hran, trimmed c', if_pos hs.writable, ?_⟩
      obtain ⟨k, value, hargs, hassign⟩ := dispatch_saved hdis
      have hother : Key.device_id ≠ k := by
        rintro rfl
        refine hs.unset ?_
        have htwo := congrArg (List.take 2) hargs
        rwa [List.take_take] at htwo
      have hsame : c'.deviceId = (s.settings b kept).deviceId := Key.assign_other hother hassign
      show trim c'.deviceId = id
      rw [hsame, hset, trim_tidy hid]

/-- With the id kept, a start has it and keeps it. -/
theorem Start.KeepsId.step (b : Build) (path : Bytes) (hs : s.KeepsId) (hid : Tidy id) (hne : id ≠ [])
    (h : KeptId id kept) :
    (remembered b path s kept).1.HasId id ∧ KeptId id (remembered b path s kept).2 := by
  cases hearly : early (parse s.argv) with
  | some e =>
    rw [remembered_eq, hearly]
    exact ⟨early_hasId hearly id, h⟩
  | none =>
    obtain ⟨c, rfl, hc⟩ := h
    refine hs.settings path hid ?_ ⟨c, rfl, hc⟩ hearly
    have hset : s.settings b (some c) = ensured s.read c := if_pos hs.readable
    rw [hset, ensured_eq]
    simp only [hc, if_neg hne]

theorem runs_id (hs : ∀ s ∈ starts, s.KeepsId) (hid : Tidy id) (hne : id ≠ []) (h : KeptId id kept) :
    ∀ e ∈ (runs (remembered b path) starts kept).1, e.HasId id := by
  induction starts generalizing kept with
  | nil => exact fun e he => by cases he
  | cons s starts ih =>
    obtain ⟨hended, hkept⟩ := (hs s List.mem_cons_self).step b path hid hne h
    intro e he
    rcases List.mem_cons.mp he with rfl | he
    · exact hended
    · exact ih (fun t ht => hs t (List.mem_cons_of_mem _ ht)) hkept e he

/-- All starts from one without a file on run with one device id, as long as none sets it and the
    file can be read and written. -/
theorem identity_kept (b : Build) (path : Bytes) (starts : List Start) (hs : ∀ s ∈ starts, s.KeepsId) :
    ∃ id, id ≠ [] ∧ ∀ e ∈ (runs (main b path) starts none).1, e.HasId id := by
  have hempty : Holds b none none := trivial
  rw [(hempty.runs fun s hm => (hs s hm).plain).1]
  induction starts with
  | nil => exact ⟨str "-", by decide, fun e he => by cases he⟩
  | cons s starts ih =>
    have hs' : ∀ t ∈ starts, t.KeepsId := fun t ht => hs t (List.mem_cons_of_mem _ ht)
    have hk := hs s List.mem_cons_self
    cases hearly : early (parse s.argv) with
    | some e =>
      have hstart : remembered b path s none = (e, none) := by rw [remembered_eq, hearly]
      obtain ⟨id, hne, hid⟩ := ih hs'
      refine ⟨id, hne, fun e' he => ?_⟩
      rw [runs, hstart] at he
      rcases List.mem_cons.mp he with rfl | he
      · exact early_hasId hearly id
      · exact hid e' he
    | none =>
      have hvis := tidy_visible (generateUUID_visible s.made.random)
      have hnew : (s.settings b none).deviceId = generateUUID s.made.random := by
        show (new b s.made).deviceId = _
        rw [new, ensured_eq]
        simp
      have hstored : KeptId (generateUUID s.made.random) (s.stored b none) := by
        refine ⟨trimmed (new b s.made), if_pos hk.writable, ?_⟩
        show trim (s.settings b none).deviceId = _
        rw [hnew, trim_tidy hvis]
      obtain ⟨hended, hkept⟩ := hk.settings path hvis hnew hstored hearly
      refine ⟨generateUUID s.made.random, generateUUID_ne_nil _, fun e' he => ?_⟩
      rcases List.mem_cons.mp he with rfl | he
      · exact hended
      · exact runs_id hs' hvis (generateUUID_ne_nil _) hkept e' he

end

theorem identity_kept_three :
    let b : Build := { os := .linux, ulongBits := 64, wide := by decide }
    ∃ id, id ≠ [] ∧ ∀ e ∈ (runs (main b []) threeStarts none).1, e.HasId id := by
  intro b
  refine identity_kept b [] threeStarts fun s hs => ⟨threeStarts_plain s hs, ?_, ?_, ?_⟩
  all_goals
    revert s
    simp only [threeStarts, List.forall_mem_cons]
    decide +kernel

/-! ## A file that throws -/

section
variable {b : Build} {path : Bytes}

/-- No command was run. -/
def Ended.Idle (e : Ended) : Prop := e = .help ∨ e = .version ∨ e = .threw

theorem early_idle {args : ParsedArgs} {e : Ended} (h : early args = some e) : e.Idle := by
  unfold early at h
  split at h
  · cases h
    exact .inl rfl
  · split at h <;> cases h
    exact .inr (.inl rfl)

/-- Where the lines throw, a start runs nothing and leaves the file. -/
theorem main_throws {bytes : Bytes} (hbad : ¬ Parses b (lines lineBreak bytes)) {s : Start} (hr : s.readable = true) :
    (main b path s (some bytes)).1.Idle ∧ (main b path s (some bytes)).2 = some bytes := by
  have hnone : readLines b (new b s.made) (lines lineBreak bytes) = none := by
    by_contra h
    exact hbad (readLines_parses.mp (Option.ne_none_iff_exists'.mp h))
  have hload : load b s.read (s.disk (some bytes)) (new b s.made) = none := by
    show (if s.readable then _ else _) = none
    rw [if_pos hr, hnone]
    rfl
  rw [main]
  cases hearly : early (parse s.argv) with
  | some e => exact ⟨early_idle hearly, rfl⟩
  | none =>
    simp only [hload]
    exact ⟨.inr (.inr rfl), trivial⟩

end

def statusStart : Start := lantalk [str "status"]

/-- The program can be started for good no more, whatever it is started with, and none of the starts
    changes the file, if and only if the file gives a numeric key a value that its conversion throws on. -/
theorem never_starts_iff (b : Build) (path bytes : Bytes) :
    (∀ starts : List Start, (∀ s ∈ starts, s.readable = true) →
      (∀ e ∈ (runs (main b path) starts (some bytes)).1, e.Idle) ∧
        (runs (main b path) starts (some bytes)).2 = some bytes) ↔
      ¬ Parses b (lines lineBreak bytes) := by
  constructor
  · intro h hgood
    obtain ⟨y, hy⟩ := readLines_parses.mpr hgood
    have hload : load b statusStart.read (statusStart.disk (some bytes)) (new b statusStart.made) =
        some (true, ensured statusStart.read y, statusStart.disk (some bytes)) := by
      show (readLines b (new b statusStart.made) (lines lineBreak bytes)).map _ = _
      rw [hy]
      rfl
    have hran : (main b path statusStart (some bytes)).1 =
        .ran (.said 0 (runStatus path (ensured statusStart.read y))) (ensured statusStart.read y) := by
      have hearly : early (parse statusStart.argv) = none := by decide +kernel
      rw [main]
      simp only [hearly, hload]
      rfl
    have hidle := (h [statusStart] (fun s hs => by rw [List.mem_singleton.mp hs]; rfl)).1 _ List.mem_cons_self
    rw [hran] at hidle
    rcases hidle with he | he | he <;> cases he
  · intro hbad starts
    induction starts with
    | nil => exact fun _ => ⟨fun e he => (by cases he), rfl⟩
    | cons s starts ih =>
      intro hr
      obtain ⟨hidle, hfile⟩ := main_throws hbad (hr s List.mem_cons_self)
      obtain ⟨hrest, hlast⟩ := ih fun t ht => hr t (List.mem_cons_of_mem _ ht)
      refine ⟨fun e he => ?_, ?_⟩
      · rcases List.mem_cons.mp he with rfl | he
        · exact hidle
        · rw [hfile] at he
          exact hrest e he
      · rw [runs]
        simp only [hfile]
        exact hlast

end LanTalk.Cli
