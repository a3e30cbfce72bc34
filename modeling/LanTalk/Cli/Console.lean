/-
  LanTalk.Cli.Console — the menu of `main` (`src/main.cpp`) and the chats it leads to
  (`TerminalUI::run`, `src/cli/terminal_ui.cpp`), for one who types.

  An event is what the main thread gets next: a line of `std::cin` or its end, the outcome of
  what it is busy with (`bound`, `dialled`, `scanned`), or that it goes on into a chat: `begin`
  is `running_ = true`, `check` the loop's first test. Or it is what happens beside it: a
  signal, and the end of the connection that `connect` made (`lost`). Both only clear
  `running_`, which is looked at after the next line: nothing wakes `getline`. Before the
  first chat no handler is installed, and a signal kills.

  A chat's end is not the menu yet: `runListen` and `runConnect` call `server.stop` and
  `session.stop` first, which join threads that nothing may wake. `stopped` is that they have
  returned, and it need not come. A line's `session_.broadcast` is taken to return.

  Proved, over every run from the menu:
  - `lines_said`: what is broadcast are the plain lines read since a chat began, up to the
    `/quit`, the `/exit`, or the first line after a stop.
  - `ends_by_typing`: the program ends by the end of its input or a choice of the menu, or by a
    signal before the first chat; it can be brought to its end from wherever it is, if `stop`
    returns, and from a `stop` that does not return by nothing.
-/

import LanTalk.Cli.Program
import LanTalk.Cli.Connect
import LanTalk.Lib.Machine

namespace LanTalk.Cli

open LanTalk.Lib LanTalk.Config LanTalk.Discovery

/-! ## Lines of a chat -/

inductive Printed where
  | info (line : Bytes)
  | error (line : Bytes)
  /-- `system("clear")`. -/
  | cleared
  deriving DecidableEq

/-- `TerminalUI::handleCommand`: whether the chat goes on, and what is printed. -/
def handleCommand (config : AppConfig) (cmd : Bytes) : Bool × List Printed :=
  if cmd = str "/quit" ∨ cmd = str "/exit" then (false, [.info (str "Exiting...")])
  else if cmd = str "/help" then
    (true, [.info (str "Available commands:"), .info (str "  /help      - show available commands"),
      .info (str "  /peers     - list connected peers with addresses"),
      .info (str "  /info      - show local device info"), .info (str "  /clear     - clear terminal screen"),
      .info (str "  /reconnect - attempt reconnect"), .info (str "  /quit, /exit - graceful disconnect and exit")])
  else if cmd = str "/peers" then (true, [.info (str "Connected peers (TODO: Implement listing from session)")])
  else if cmd = str "/info" then
    (true, [.info (str "Device ID: " ++ config.deviceId), .info (str "Display Name: " ++ config.displayName)])
  else if cmd = str "/clear" then (true, [.cleared])
  else if cmd = str "/reconnect" then (true, [.info (str "Attempting reconnect (TODO: Implement)")])
  else (true, [.error (str "Unknown command: " ++ cmd ++ str ". Type /help for list of commands.")])

/-- What the program does that is seen. -/
inductive Did where
  | said (s : Said)
  | printed (p : Printed)
  | broadcast (line : Bytes)
  | listened (port : UInt16) (ok : Bool)
  | dialled (t : Target) (ok : Bool)
  | scanned
  deriving DecidableEq

def slash : UInt8 := 47

/-- The body of `TerminalUI::run`'s loop: whether the loop goes on, and what is done. -/
def takeLine (config : AppConfig) : Bytes → Bool × List Did
  | [] => (true, [])
  | line@(first :: _) =>
    if first = slash then ((handleCommand config line).1, (handleCommand config line).2.map .printed)
    else (true, [.broadcast line])

/-! ## The program -/

inductive Event where
  | line (l : Bytes)
  | eof
  | signal
  | lost
  | scanned
  | bound (ok : Bool)
  /-- What a scan heard, if there is one, and whether `TcpClient::connect` returned. -/
  | dialled (heard : List Datagram) (ok : Bool)
  | begin
  | check
  /-- `server.stop` and `session.stop` have returned. -/
  | stopped

/-- How far a chat is: its UI is made, `run` has set `running_`, or waits in `getline`. -/
inductive Phase where
  | made
  | begun
  | reading
  deriving DecidableEq

inductive Place where
  | menu
  | askIp
  | scanning
  | listening
  | connecting (ip : Bytes)
  /-- `link`: there is one connection, and its end stops the UI. -/
  | chat (phase : Phase) (link running : Bool)
  /-- `run` has returned; `ended`: at the end of the input. -/
  | stopping (ended : Bool)
  | exited
  | killed
  deriving DecidableEq

structure Console where
  config : AppConfig
  place : Place := .menu
  /-- `setupSignalHandlers` has been called. -/
  handlers : Bool := false
  log : List Did := []

namespace Console

section
variable (path : Bytes) (win32 : Bool) (args : ParsedArgs)

/-- A choice in the menu. -/
def choose (S : Console) (choice : Bytes) : Console :=
  if choice = str "1" then { S with place := .listening, config := listenConfig S.config args }
  else if choice = str "2" then { S with place := .scanning }
  else if choice = str "3" then { S with place := .askIp }
  else if choice = str "4" then { S with log := S.log ++ [.said (runStatus path S.config)] }
  else if choice = str "5" ∨ choice = str "exit" ∨ choice = str "quit" then { S with place := .exited }
  else if choice = [] then S
  else { S with log := S.log ++ [.said (answer (str "Invalid choice. Enter 1-5.\n"))] }

/-- The UI is made and the handlers are installed, or it is back to the menu. -/
def enter (S : Console) (link ok : Bool) : Console :=
  if ok then { S with place := .chat .made link false, handlers := true } else { S with place := .menu }

def step (S : Console) : Event → Option Console
  | .line l =>
    match S.place with
    | .menu => some (S.choose path args l)
    | .askIp => some { S with place := if l = [] then .menu else .connecting l }
    | .chat .reading link running =>
      let r := takeLine S.config l
      some { S with place := if r.1 && running then .chat .reading link running else .stopping false
                    log := S.log ++ r.2 }
    | _ => none
  | .eof =>
    match S.place with
    | .menu | .askIp => some { S with place := .exited }
    | .chat .reading _ _ => some { S with place := .stopping true }
    | _ => none
  | .signal =>
    match S.place with
    | .exited | .killed => none
    | .chat phase link _ => some { S with place := .chat phase link false }
    -- `g_ui_ptr` is null
    | _ => some (if S.handlers then S else { S with place := .killed })
  | .lost =>
    match S.place with
    | .chat phase true _ => some { S with place := .chat phase true false }
    | _ => none
  | .scanned =>
    match S.place with
    | .scanning => some { S with place := .menu, log := S.log ++ [.scanned] }
    | _ => none
  | .bound ok =>
    match S.place with
    | .listening => some ({ S with log := S.log ++ [Did.listened S.config.listenPort ok] }.enter false ok)
    | _ => none
  | .dialled heard ok =>
    match S.place with
    | .connecting ip =>
      let t := target win32 S.config { args with positional := args.positional ++ [ip] } heard
      let up := ok && match t with
        | .to _ _ => true
        | _ => false
      some ({ S with log := S.log ++ [Did.dialled t up] }.enter true up)
    | _ => none
  | .begin =>
    match S.place with
    | .chat .made link _ => some { S with place := .chat .begun link true }
    | _ => none
  | .check =>
    match S.place with
    | .chat .begun link running =>
      some { S with place := if running then .chat .reading link true else .stopping false }
    | _ => none
  | .stopped =>
    match S.place with
    -- the end of the input stays: the menu finds it too
    | .stopping ended => some { S with place := if ended then .exited else .menu }
    | _ => none

/-- A run of `main` without a command. -/
def run (config : AppConfig) (es : List Event) : Option Console :=
  Machine.run (step path win32 args) { config := config } es

end

end Console

/-- The lines given to `session_.broadcast`. -/
def broadcastLines (log : List Did) : List Bytes :=
  log.filterMap fun d => match d with
    | .broadcast line => some line
    | _ => none

theorem broadcastLines_append (log log' : List Did) :
    broadcastLines (log ++ log') = broadcastLines log ++ broadcastLines log' := List.filterMap_append

def Console.broadcasts (S : Console) : List Bytes := broadcastLines S.log

/-! ## What is broadcast -/

def IsQuit (l : Bytes) : Prop := l = str "/quit" ∨ l = str "/exit"

/-- A line that is neither empty nor a command. -/
def plainLine (l : Bytes) : List Bytes := if l ≠ [] ∧ l.head? ≠ some slash then [l] else []

def Unstopped (es : List Event) : Prop := .signal ∉ es ∧ .lost ∉ es

/-- What leaves a chat on: its input does not end, no line quits, and none comes after a stop. -/
def Stays (es : List Event) : Prop :=
  .eof ∉ es ∧ ∀ before l after, es = before ++ .line l :: after → ¬ IsQuit l ∧ Unstopped before

/-- A chat is on: `run` has come to its loop without a stop, and is in it since. -/
def On (es : List Event) : Prop := ∃ before since, es = before ++ .begin :: .check :: since ∧ Stays since

section
open Classical

/-- What is broadcast of an event. -/
noncomputable def saidAt (past : List Event) : Event → List Bytes
  | .line l => if On past then plainLine l else []
  | _ => []

/-- The plain lines that are read while a chat is on. -/
noncomputable def said (past : List Event) : List Event → List Bytes
  | [] => []
  | e :: es => saidAt past e ++ said (past ++ [e]) es

theorem said_concat (past es : List Event) (e : Event) :
    said past (es ++ [e]) = said past es ++ saidAt (past ++ es) e := by
  induction es generalizing past with
  | nil => simp [said]
  | cons x es ih => simp [said, ih]

end

theorem unstopped_concat {es : List Event} {e : Event} :
    Unstopped (es ++ [e]) ↔ Unstopped es ∧ e ≠ .signal ∧ e ≠ .lost := by
  simp only [Unstopped, List.mem_append, List.mem_singleton, not_or, ne_comm (a := e)]
  tauto

theorem stays_concat {es : List Event} {e : Event} :
    Stays (es ++ [e]) ↔ Stays es ∧ e ≠ .eof ∧ ∀ l, e = .line l → ¬ IsQuit l ∧ Unstopped es := by
  constructor
  · rintro ⟨heof, hlines⟩
    refine ⟨⟨fun h => heof (List.mem_append_left _ h), fun before l after h => hlines before l (after ++ [e]) ?_⟩,
      fun h => heof ?_, fun l h => hlines es l [] (by rw [h])⟩
    · rw [h, List.append_assoc, List.cons_append]
    · rw [h]
      exact List.mem_append_right _ List.mem_cons_self
  · rintro ⟨⟨heof, hlines⟩, hne, hline⟩
    refine ⟨fun h => ?_, fun before l after h => ?_⟩
    · rcases List.mem_append.mp h with h | h
      · exact heof h
      · exact hne (List.mem_singleton.mp h).symm
    · rcases List.eq_nil_or_concat after with rfl | ⟨after', x, rfl⟩
      · obtain ⟨rfl, hl⟩ := List.append_inj' h rfl
        exact hline l (List.singleton_inj.mp hl)
      · rw [List.concat_eq_append, ← List.cons_append, ← List.append_assoc] at h
        exact hlines before l after' (List.append_inj' h rfl).1

/-- What is behind the beginning of a chat, when an event more has come. -/
theorem since_concat {es before since : List Event} {e a b : Event} (h : es ++ [e] = before ++ a :: b :: since) :
    (since = [] ∧ es = before ++ [a] ∧ e = b) ∨
      ∃ since', since = since' ++ [e] ∧ es = before ++ a :: b :: since' := by
  rcases List.eq_nil_or_concat since with rfl | ⟨since', x, rfl⟩
  · left
    have h' : es ++ [e] = (before ++ [a]) ++ [b] := by rw [h, List.append_assoc]; rfl
    obtain ⟨h1, h2⟩ := List.append_inj' h' rfl
    exact ⟨rfl, h1, List.singleton_inj.mp h2⟩
  · right
    rw [List.concat_eq_append] at h ⊢
    have h' : es ++ [e] = (before ++ a :: b :: since') ++ [x] := by rw [h, List.append_assoc]; rfl
    obtain ⟨h1, h2⟩ := List.append_inj' h' rfl
    exact ⟨since', by rw [List.singleton_inj.mp h2], h1⟩

/-! ## A step -/

/-- In `run`, behind its first assignment. -/
def Place.running : Place → Bool
  | .chat .begun _ _ | .chat .reading _ _ => true
  | _ => false

/-- What a step does to a chat, and what it broadcasts. -/
inductive Moves (S S' : Console) : Event → Prop where
  | outside {e : Event} (hS : S.place.running = false) (hS' : S'.place.running = false) (he : e ≠ .begin)
      (hb : S'.broadcasts = S.broadcasts) : Moves S S' e
  | begin {link r : Bool} (hS : S.place = .chat .made link r) (hS' : S'.place = .chat .begun link true)
      (hb : S'.broadcasts = S.broadcasts) : Moves S S' .begin
  | check {link : Bool} (hS : S.place = .chat .begun link true) (hS' : S'.place = .chat .reading link true)
      (hb : S'.broadcasts = S.broadcasts) : Moves S S' .check
  | skip {link : Bool} (hS : S.place = .chat .begun link false) (hS' : S'.place = .stopping false)
      (hb : S'.broadcasts = S.broadcasts) : Moves S S' .check
  | stop {e : Event} {phase : Phase} {link r : Bool} (hS : S.place = .chat phase link r) (hne : phase ≠ .made)
      (he : e = .signal ∨ e = .lost) (hS' : S'.place = .chat phase link false) (hb : S'.broadcasts = S.broadcasts) :
      Moves S S' e
  | goOn {l : Bytes} {link : Bool} (hS : S.place = .chat .reading link true) (hl : ¬ IsQuit l)
      (hS' : S'.place = .chat .reading link true) (hb : S'.broadcasts = S.broadcasts ++ plainLine l) :
      Moves S S' (.line l)
  | leave {l : Bytes} {link r : Bool} (hS : S.place = .chat .reading link r) (hl : IsQuit l ∨ r = false)
      (hS' : S'.place = .stopping false) (hb : S'.broadcasts = S.broadcasts ++ plainLine l) : Moves S S' (.line l)
  | eof {link r : Bool} (hS : S.place = .chat .reading link r) (hS' : S'.place = .stopping true)
      (hb : S'.broadcasts = S.broadcasts) : Moves S S' .eof

section
variable {path : Bytes} {win32 : Bool} {args : ParsedArgs} {S S' : Console} {e : Event}

theorem handleCommand_goes (config : AppConfig) (cmd : Bytes) :
    (handleCommand config cmd).1 = true ↔ ¬ IsQuit cmd := by
  unfold handleCommand IsQuit
  split
  · simp_all
  · rename_i h
    simp only [h, not_false_eq_true, iff_true]
    split_ifs <;> rfl

theorem takeLine_goes (config : AppConfig) (l : Bytes) : (takeLine config l).1 = true ↔ ¬ IsQuit l := by
  have hslash : ∀ l, IsQuit l → ∃ rest, l = slash :: rest := by
    rintro l (rfl | rfl) <;> exact ⟨_, rfl⟩
  cases l with
  | nil =>
    refine iff_of_true rfl fun h => ?_
    obtain ⟨rest, hrest⟩ := hslash _ h
    cases hrest
  | cons first rest =>
    rw [takeLine]
    split
    · exact handleCommand_goes config _
    · rename_i hne
      refine iff_of_true rfl fun h => ?_
      obtain ⟨rest', hrest⟩ := hslash _ h
      exact hne (List.cons.inj hrest).1

theorem takeLine_broadcasts (config : AppConfig) (l : Bytes) :
    broadcastLines (takeLine config l).2 = plainLine l := by
  cases l with
  | nil => rfl
  | cons first rest =>
    rw [takeLine]
    split
    · rename_i h
      subst h
      simp [broadcastLines, plainLine, List.filterMap_map]
    · rename_i h
      simp [broadcastLines, plainLine, h]

/-- One more thing that is done and is no broadcast. -/
theorem broadcastLines_concat {log : List Did} {d : Did} (h : ∀ line, d ≠ .broadcast line) :
    broadcastLines (log ++ [d]) = broadcastLines log := by
  rw [broadcastLines_append]
  cases d with
  | broadcast line => exact absurd rfl (h line)
  | _ => exact List.append_nil _

theorem enter_outside (S : Console) (link ok : Bool) :
    (S.enter link ok).place.running = false ∧ (S.enter link ok).broadcasts = S.broadcasts := by
  unfold Console.enter
  split <;> exact ⟨rfl, rfl⟩

theorem choose_outside (path : Bytes) (args : ParsedArgs) (hS : S.place = .menu) (choice : Bytes) :
    (S.choose path args choice).place.running = false ∧ (S.choose path args choice).broadcasts = S.broadcasts := by
  have hplace : S.place.running = false := by rw [hS]; rfl
  unfold Console.choose
  split_ifs
  all_goals first
    | exact ⟨rfl, rfl⟩
    | exact ⟨hplace, rfl⟩
    | exact ⟨hplace, broadcastLines_concat (by intro line; exact nofun)⟩

theorem step_moves (h : S.step path win32 args e = some S') : Moves S S' e := by
  cases e with
  | line l =>
    simp only [Console.step] at h
    split at h
    · rename_i hS
      cases h
      have hout := choose_outside path args hS l
      exact .outside (by rw [hS]; rfl) hout.1 nofun hout.2
    · rename_i hS
      cases h
      refine .outside (by rw [hS]; rfl) ?_ nofun rfl
      split <;> rfl
    · rename_i link r hS
      cases h
      have hb : broadcastLines (S.log ++ (takeLine S.config l).2) = S.broadcasts ++ plainLine l := by
        rw [broadcastLines_append, takeLine_broadcasts]
        rfl
      have hgoes := takeLine_goes S.config l
      by_cases hq : IsQuit l
      · have hstay : ¬ (takeLine S.config l).1 = true := fun ht => hgoes.mp ht hq
        exact .leave hS (.inl hq) (by simp [hstay]) hb
      · cases r with
        | false => exact .leave hS (.inr rfl) (by simp) hb
        | true => exact .goOn hS hq (by simp [hgoes.mpr hq]) hb
    · cases h
  | eof =>
    simp only [Console.step] at h
    split at h <;> cases h
    · rename_i hS
      exact .outside (by rw [hS]; rfl) rfl nofun rfl
    · rename_i hS
      exact .outside (by rw [hS]; rfl) rfl nofun rfl
    · rename_i hS
      exact .eof hS rfl rfl
  | signal =>
    simp only [Console.step] at h
    split at h
    · cases h
    · cases h
    · rename_i phase link r hS
      cases h
      cases phase with
      | made => exact .outside (by rw [hS]; rfl) rfl nofun rfl
      | begun => exact .stop hS nofun (.inl rfl) rfl rfl
      | reading => exact .stop hS nofun (.inl rfl) rfl rfl
    · rename_i hchat
      cases h
      have hS : S.place.running = false := by
        cases hp : S.place with
        | chat phase link r => exact absurd hp (hchat phase link r)
        | _ => rfl
      split
      · exact .outside hS hS nofun rfl
      · exact .outside hS rfl nofun rfl
  | lost =>
    simp only [Console.step] at h
    split at h <;> cases h
    rename_i phase r hS
    cases phase with
    | made => exact .outside (by rw [hS]; rfl) rfl nofun rfl
    | begun => exact .stop hS nofun (.inr rfl) rfl rfl
    | reading => exact .stop hS nofun (.inr rfl) rfl rfl
  | scanned =>
    simp only [Console.step] at h
    split at h <;> cases h
    rename_i hS
    exact .outside (by rw [hS]; rfl) rfl nofun (broadcastLines_concat nofun)
  | bound ok =>
    simp only [Console.step] at h
    split at h <;> cases h
    rename_i hS
    obtain ⟨hplace, hb⟩ := enter_outside { S with log := S.log ++ [Did.listened S.config.listenPort ok] } false ok
    exact .outside (by rw [hS]; rfl) hplace nofun (hb.trans (broadcastLines_concat nofun))
  | dialled heard ok =>
    simp only [Console.step] at h
    split at h <;> cases h
    rename_i ip hS
    obtain ⟨hplace, hb⟩ := enter_outside { S with log := S.log ++ [Did.dialled _ _] } true _
    exact .outside (by rw [hS]; rfl) hplace nofun (hb.trans (broadcastLines_concat nofun))
  | begin =>
    simp only [Console.step] at h
    split at h <;> cases h
    rename_i link r hS
    exact .begin hS rfl rfl
  | check =>
    simp only [Console.step] at h
    split at h <;> cases h
    rename_i link r hS
    cases r with
    | false => exact .skip hS rfl rfl
    | true => exact .check hS rfl rfl
  | stopped =>
    simp only [Console.step] at h
    split at h <;> cases h
    rename_i ended hS
    exact .outside (by rw [hS]; rfl) (by cases ended <;> rfl) nofun rfl

/-! ## A run -/

/-- What the events so far say of a console. -/
structure Tells (es : List Event) (S : Console) : Prop where
  begun : ∀ link, S.place = .chat .begun link true → ∃ before, es = before ++ [.begin]
  begin : ∀ before, es = before ++ [.begin] → ∃ link, S.place = .chat .begun link true
  reading : ∀ link r, S.place = .chat .reading link r →
    ∃ before since, es = before ++ .begin :: .check :: since ∧ Stays since ∧ (r = true ↔ Unstopped since)
  on : ∀ before since, es = before ++ .begin :: .check :: since → Stays since →
    ∃ link r, S.place = .chat .reading link r ∧ (r = true ↔ Unstopped since)
  said : S.broadcasts = Cli.said [] es

variable {es : List Event}

theorem tells_nil (config : AppConfig) : Tells [] { config := config } where
  begun := nofun
  begin := fun before h => by cases before <;> cases h
  reading := nofun
  on := fun before since h => by cases before <;> cases h
  said := rfl

theorem Tells.on_iff (h : Tells es S) : On es ↔ ∃ link r, S.place = .chat .reading link r := by
  constructor
  · rintro ⟨before, since, hes, hstays⟩
    obtain ⟨link, r, hplace, -⟩ := h.on before since hes hstays
    exact ⟨link, r, hplace⟩
  · rintro ⟨link, r, hplace⟩
    obtain ⟨before, since, hes, hstays, -⟩ := h.reading link r hplace
    exact ⟨before, since, hes, hstays⟩

/-- A chat that is on when an event more has come, has begun with it or was on before. -/
theorem Tells.on_concat (h : Tells es S) {before since : List Event}
    (hes : es ++ [e] = before ++ .begin :: .check :: since) (hstays : Stays since) :
    (since = [] ∧ e = .check ∧ ∃ link, S.place = .chat .begun link true) ∨
    ∃ since' link r, since = since' ++ [e] ∧ S.place = .chat .reading link r ∧ (r = true ↔ Unstopped since') ∧
      e ≠ .eof ∧ ∀ l, e = .line l → ¬ IsQuit l ∧ Unstopped since' := by
  rcases since_concat hes with ⟨rfl, hbegin, rfl⟩ | ⟨since', rfl, hes'⟩
  · exact .inl ⟨rfl, rfl, h.begin before hbegin⟩
  · obtain ⟨hstays', heof, hline⟩ := stays_concat.mp hstays
    obtain ⟨link, r, hplace, hr⟩ := h.on before since' hes' hstays'
    exact .inr ⟨since', link, r, rfl, hplace, hr, heof, hline⟩

/-- An event more, and what is broadcast of it. -/
theorem Tells.said_concat (h : Tells es S) (hb : S'.broadcasts = S.broadcasts ++ saidAt es e) :
    S'.broadcasts = Cli.said [] (es ++ [e]) := by
  rw [Cli.said_concat, hb, h.said, List.nil_append]

theorem saidAt_reading (h : Tells es S) {link r : Bool} (hS : S.place = .chat .reading link r) (l : Bytes) :
    saidAt es (.line l) = plainLine l := if_pos (h.on_iff.mpr ⟨link, r, hS⟩)

theorem saidAt_nil (h : Tells es S) (he : (∀ l, e ≠ .line l) ∨ ∀ link r, S.place ≠ .chat .reading link r) :
    saidAt es e = [] := by
  cases e with
  | line l =>
    refine if_neg fun hon => ?_
    obtain ⟨link, r, hplace⟩ := h.on_iff.mp hon
    exact he.elim (fun hl => hl l rfl) fun hp => hp link r hplace
  | _ => rfl

theorem concat_ne {e' : Event} (he : e ≠ e') {before : List Event} : es ++ [e] ≠ before ++ [e'] := fun h =>
  he (List.singleton_inj.mp (List.append_inj' h rfl).2)

theorem Place.outside {p : Place} (hp : p.running = false) :
    (∀ link r, p ≠ .chat .begun link r) ∧ ∀ link r, p ≠ .chat .reading link r := by
  constructor <;> rintro link r rfl <;> cases hp

/-- A console that is not in `run`'s loop. -/
theorem Tells.outside (hS' : S'.place.running = false) (he : e ≠ .begin) (hoff : ¬ On (es ++ [e]))
    (hsaid : S'.broadcasts = Cli.said [] (es ++ [e])) : Tells (es ++ [e]) S' where
  begun := fun link hp => absurd hp ((Place.outside hS').1 link true)
  begin := fun _ h => absurd h (concat_ne he)
  reading := fun link r hp => absurd hp ((Place.outside hS').2 link r)
  on := fun _ since h hstays => absurd ⟨_, since, h, hstays⟩ hoff
  said := hsaid

/-- A console that reads a chat's lines. -/
theorem Tells.inside {link r : Bool} (hS' : S'.place = .chat .reading link r) (he : e ≠ .begin) (hon : On (es ++ [e]))
    (hr : ∀ before since, es ++ [e] = before ++ .begin :: .check :: since → Stays since →
      (r = true ↔ Unstopped since)) (hsaid : S'.broadcasts = Cli.said [] (es ++ [e])) : Tells (es ++ [e]) S' where
  begun := fun link' hp => by rw [hS'] at hp; cases hp
  begin := fun _ h => absurd h (concat_ne he)
  reading := fun link' r' hp => by
    rw [hS'] at hp
    cases hp
    obtain ⟨before, since, h, hstays⟩ := hon
    exact ⟨before, since, h, hstays, hr before since h hstays⟩
  on := fun before since h hstays => ⟨link, r, hS', hr before since h hstays⟩
  said := hsaid

theorem Tells.step (h : Tells es S) (hm : Moves S S' e) : Tells (es ++ [e]) S' := by
  have hsame : (∀ l, e ≠ .line l) ∨ (∀ link r, S.place ≠ .chat .reading link r) → S'.broadcasts = S.broadcasts →
      S'.broadcasts = Cli.said [] (es ++ [e]) := fun he hb =>
    h.said_concat (by rw [hb, saidAt_nil h he, List.append_nil])
  cases hm with
  | outside hS hS' he hb =>
    obtain ⟨hbegun, hreading⟩ := Place.outside hS
    refine .outside hS' he ?_ (hsame (.inr hreading) hb)
    rintro ⟨before, since, hes, hstays⟩
    rcases h.on_concat hes hstays with ⟨-, -, link, hp⟩ | ⟨since', link, r, -, hp, -⟩
    · exact hbegun _ _ hp
    · exact hreading _ _ hp
  | begin hS hS' hb =>
    refine ⟨fun link _ => ⟨es, rfl⟩, fun before _ => ⟨_, hS'⟩, fun link r hp => ?_, fun before since hes hstays => ?_,
      hsame (.inl nofun) hb⟩
    · rw [hS'] at hp
      cases hp
    · rcases h.on_concat hes hstays with ⟨-, he, -⟩ | ⟨since', link, r, -, hp, -⟩
      · cases he
      · rw [hS] at hp
        cases hp
  | check hS hS' hb =>
    obtain ⟨before, rfl⟩ := h.begun _ hS
    have hempty : Stays [] ∧ Unstopped [] :=
      ⟨⟨nofun, fun before l after h => by cases before <;> cases h⟩, nofun, nofun⟩
    refine .inside hS' nofun ⟨before, [], by rw [List.append_assoc]; rfl, hempty.1⟩
      (fun before' since hes hstays => ?_) (hsame (.inl nofun) hb)
    rcases h.on_concat hes hstays with ⟨rfl, -, -⟩ | ⟨since', link, r, -, hp, -⟩
    · exact iff_of_true rfl hempty.2
    · rw [hS] at hp
      cases hp
  | skip hS hS' hb =>
    refine .outside (by rw [hS']; rfl) nofun ?_ (hsame (.inl nofun) hb)
    rintro ⟨before, since, hes, hstays⟩
    rcases h.on_concat hes hstays with ⟨-, -, link, hp⟩ | ⟨since', link, r, -, hp, -⟩
    all_goals
      rw [hS] at hp
      cases hp
  | @stop e phase link r hS hne he hS' hb =>
    have hother : (∀ l, e ≠ .line l) ∧ e ≠ .begin ∧ e ≠ .check ∧ e ≠ .eof := by
      rcases he with rfl | rfl <;> exact ⟨nofun, nofun, nofun, nofun⟩
    obtain ⟨hline, hbegin, hcheck, heof⟩ := hother
    cases phase with
    | made => exact absurd rfl hne
    | begun =>
      refine ⟨fun link' hp => ?_, fun before h => absurd h (concat_ne hbegin), fun link' r' hp => ?_,
        fun before since hes hstays => ?_, hsame (.inl hline) hb⟩
      · rw [hS'] at hp
        cases hp
      · rw [hS'] at hp
        cases hp
      · rcases h.on_concat hes hstays with ⟨-, he', -⟩ | ⟨since', link', r', -, hp, -⟩
        · exact absurd he' hcheck
        · rw [hS] at hp
          cases hp
    | reading =>
      obtain ⟨before, since, hes, hstays, hr⟩ := h.reading _ _ hS
      have hon : On (es ++ [e]) := ⟨before, since ++ [e], by rw [hes]; simp,
        stays_concat.mpr ⟨hstays, heof, fun l hl => absurd hl (hline l)⟩⟩
      refine .inside hS' hbegin hon (fun before' since' hes' hstays' => ?_) (hsame (.inl hline) hb)
      rcases h.on_concat hes' hstays' with ⟨-, he', -⟩ | ⟨since₁, link', r', rfl, -⟩
      · exact absurd he' hcheck
      · refine iff_of_false Bool.false_ne_true fun hu => ?_
        obtain ⟨-, hsignal, hlost⟩ := unstopped_concat.mp hu
        exact he.elim hsignal hlost
  | @goOn l link hS hl hS' hb =>
    obtain ⟨before, since, hes, hstays, hr⟩ := h.reading _ _ hS
    refine .inside hS' nofun ⟨before, since ++ [.line l], by rw [hes]; simp, stays_concat.mpr ⟨hstays, nofun, ?_⟩⟩
      (fun before' since hes hstays => ?_) (h.said_concat (by rw [hb, saidAt_reading h hS]))
    · rintro l' ⟨⟩
      exact ⟨hl, hr.mp rfl⟩
    · rcases h.on_concat hes hstays with ⟨-, he, -⟩ | ⟨since', link, r, rfl, hp, -, -, hline⟩
      · cases he
      · exact iff_of_true rfl (unstopped_concat.mpr ⟨(hline l rfl).2, nofun, nofun⟩)
  | @leave l link r hS hl hS' hb =>
    refine .outside (by rw [hS']; rfl) nofun ?_ (h.said_concat (by rw [hb, saidAt_reading h hS]))
    rintro ⟨before, since, hes, hstays⟩
    rcases h.on_concat hes hstays with ⟨-, he, -⟩ | ⟨since', link, r', -, hp, hr, -, hline⟩
    · cases he
    · obtain ⟨hquit, hun⟩ := hline l rfl
      rw [hS] at hp
      cases hp
      rcases hl with hl | rfl
      · exact hquit hl
      · exact absurd (hr.mpr hun) Bool.false_ne_true
  | eof hS hS' hb =>
    refine .outside (by rw [hS']; rfl) nofun ?_ (hsame (.inl nofun) hb)
    rintro ⟨before, since, hes, hstays⟩
    rcases h.on_concat hes hstays with ⟨-, he, -⟩ | ⟨since', link, r', -, -, -, he, -⟩
    · cases he
    · exact he rfl

theorem run_tells {config : AppConfig} (hrun : Console.run path win32 args config es = some S) : Tells es S :=
  Machine.run_invariant (I := Tells) (fun _ _ _ _ h hstep => h.step (step_moves hstep)) (tells_nil config) hrun

end

/-- In any run from the menu, whatever is typed and whenever it is stopped: what is broadcast are the
    lines, neither empty nor commands, that were read while a chat was on, in their order; and a
    chat is on from where `run` came to its loop without a stop until a line quits, the input
    ends, or one line has been read after a stop. -/
theorem lines_said (path : Bytes) (win32 : Bool) (args : ParsedArgs) (config : AppConfig) (es : List Event)
    (S : Console) (hrun : Console.run path win32 args config es = some S) :
    S.broadcasts = said [] es ∧ (On es ↔ ∃ link r, S.place = .chat .reading link r) :=
  ⟨(run_tells hrun).said, (run_tells hrun).on_iff⟩

/-- The line after a signal still goes into the chat, the next one into the menu. -/
def stoppedChat : List Event :=
  [.line (str "hello"), .line (str "1"), .bound true, .begin, .check, .line (str "hi"), .line (str "/peers"), .signal,
    .line (str "you"), .stopped, .line (str "there")]

theorem lines_said_stoppedChat : said [] stoppedChat = [str "hi", str "you"] ∧ ¬ On stoppedChat := by
  have hrun : ((Console.run [] false {} {} stoppedChat).map fun S =>
      S.broadcasts == [str "hi", str "you"] && S.place == .menu) = some true := by decide +kernel
  obtain ⟨S, hS, hp⟩ := Option.map_eq_some_iff.mp hrun
  simp only [Bool.and_eq_true, beq_iff_eq] at hp
  obtain ⟨hsaid, hon⟩ := lines_said [] false {} {} stoppedChat S hS
  refine ⟨hsaid.symm.trans hp.1, fun h => ?_⟩
  obtain ⟨link, r, hplace⟩ := hon.mp h
  rw [hp.2] at hplace
  cases hplace

/-! ## The end -/

def IsExit (choice : Bytes) : Prop := choice = str "5" ∨ choice = str "exit" ∨ choice = str "quit"

/-- In a chat, or at its end. -/
def Place.chatting : Place → Bool
  | .chat _ _ _ | .stopping _ => true
  | _ => false

/-- How the program came to its end, and that it has not been in a chat before it has handlers. -/
structure Ends (es : List Event) (S : Console) : Prop where
  killed : S.place = .killed → es.getLast? = some .signal ∧ S.handlers = false
  ended : S.place = .exited → es.getLast? = some .eof ∨ (.eof ∈ es ∧ es.getLast? = some .stopped) ∨
    ∃ choice, IsExit choice ∧ es.getLast? = some (.line choice)
  stopping : S.place = .stopping true → .eof ∈ es
  fresh : S.handlers = false → .begin ∉ es ∧ S.place.chatting = false

section
variable {path : Bytes} {win32 : Bool} {args : ParsedArgs} {S S' : Console} {e : Event} {es : List Event}

theorem choose_ends (path : Bytes) (args : ParsedArgs) (S : Console) (choice : Bytes) :
    (S.choose path args choice).handlers = S.handlers ∧
      ((S.choose path args choice).place = .exited → IsExit choice ∨ S.place = .exited) ∧
      ((S.choose path args choice).place = .killed → S.place = .killed) ∧
      ((S.choose path args choice).place.chatting = true → S.place.chatting = true) := by
  unfold Console.choose
  split_ifs with h1 h2 h3 h4 h5 h6
  · exact ⟨rfl, nofun, nofun, nofun⟩
  · exact ⟨rfl, nofun, nofun, nofun⟩
  · exact ⟨rfl, nofun, nofun, nofun⟩
  · exact ⟨rfl, .inr, id, id⟩
  · exact ⟨rfl, fun _ => .inl h5, nofun, nofun⟩
  · exact ⟨rfl, .inr, id, id⟩
  · exact ⟨rfl, .inr, id, id⟩

/-- A step that ends the program, and one that leaves it without handlers. -/
theorem step_ends (h : S.step path win32 args e = some S') :
    (S'.place = .killed → e = .signal ∧ S'.handlers = false) ∧
    (S'.place = .exited → e = .eof ∨ (S.place = .stopping true ∧ e = .stopped) ∨
      ∃ choice, IsExit choice ∧ e = .line choice) ∧
    (S'.handlers = false → S.handlers = false ∧
      (S.place.chatting = false → e ≠ .begin ∧ S'.place.chatting = false)) := by
  have henter : ∀ (T : Console) (link ok : Bool), (T.enter link ok).place ≠ .killed ∧
      (T.enter link ok).place ≠ .exited ∧
      ((T.enter link ok).handlers = false → T.handlers = false ∧ (T.enter link ok).place.chatting = false) := by
    intro T link ok
    cases ok with
    | true => exact ⟨nofun, nofun, nofun⟩
    | false => exact ⟨nofun, nofun, fun hh => ⟨hh, rfl⟩⟩
  cases e with
  | line l =>
    simp only [Console.step] at h
    split at h
    · rename_i hS
      cases h
      obtain ⟨hh, hexited, hkilled, hchat⟩ := choose_ends path args S l
      refine ⟨fun hk => ?_, fun ho => ?_, fun hf => ⟨hh ▸ hf, fun hc => ⟨nofun, ?_⟩⟩⟩
      · rw [hS] at hkilled
        cases hkilled hk
      · rcases hexited ho with hexit | hS'
        · exact .inr (.inr ⟨l, hexit, rfl⟩)
        · rw [hS] at hS'
          cases hS'
      · by_contra hne
        rw [Bool.not_eq_false] at hne
        rw [hchat hne] at hc
        cases hc
    · cases h
      refine ⟨?_, ?_, fun hf => ⟨hf, fun _ => ⟨nofun, ?_⟩⟩⟩ <;> dsimp only <;> split <;> first | rfl | exact nofun
    · rename_i link r hS
      cases h
      refine ⟨?_, ?_, fun hf => ⟨hf, fun hc => ?_⟩⟩
      · dsimp only
        split <;> exact nofun
      · dsimp only
        split <;> exact nofun
      · rw [hS] at hc
        cases hc
    · cases h
  | eof =>
    simp only [Console.step] at h
    split at h <;> cases h
    · exact ⟨nofun, fun _ => .inl rfl, fun hf => ⟨hf, fun _ => ⟨nofun, rfl⟩⟩⟩
    · exact ⟨nofun, fun _ => .inl rfl, fun hf => ⟨hf, fun _ => ⟨nofun, rfl⟩⟩⟩
    · rename_i hS
      refine ⟨nofun, nofun, fun hf => ⟨hf, fun hc => ?_⟩⟩
      rw [hS] at hc
      cases hc
  | signal =>
    simp only [Console.step] at h
    split at h
    · cases h
    · cases h
    · rename_i phase link r hS
      cases h
      refine ⟨nofun, nofun, fun hf => ⟨hf, fun hc => ?_⟩⟩
      rw [hS] at hc
      cases hc
    · rename_i hexited hkilled hchat
      cases h
      split
      · exact ⟨fun hk => absurd hk hkilled, fun ho => absurd ho hexited, fun hf => ⟨hf, fun hc => ⟨nofun, hc⟩⟩⟩
      · rename_i hf
        exact ⟨fun _ => ⟨rfl, by simpa using hf⟩, nofun, fun hf => ⟨hf, fun _ => ⟨nofun, rfl⟩⟩⟩
  | lost =>
    simp only [Console.step] at h
    split at h <;> cases h
    rename_i hS
    refine ⟨nofun, nofun, fun hf => ⟨hf, fun hc => ?_⟩⟩
    rw [hS] at hc
    cases hc
  | scanned =>
    simp only [Console.step] at h
    split at h <;> cases h
    exact ⟨nofun, nofun, fun hf => ⟨hf, fun _ => ⟨nofun, rfl⟩⟩⟩
  | bound ok =>
    simp only [Console.step] at h
    split at h <;> cases h
    obtain ⟨hkilled, hexited, hf⟩ := henter { S with log := S.log ++ [Did.listened S.config.listenPort ok] } false ok
    exact ⟨fun hk => absurd hk hkilled, fun ho => absurd ho hexited,
      fun hh => ⟨(hf hh).1, fun _ => ⟨nofun, (hf hh).2⟩⟩⟩
  | dialled heard ok =>
    simp only [Console.step] at h
    split at h <;> cases h
    obtain ⟨hkilled, hexited, hf⟩ := henter { S with log := S.log ++ [Did.dialled _ _] } true _
    exact ⟨fun hk => absurd hk hkilled, fun ho => absurd ho hexited,
      fun hh => ⟨(hf hh).1, fun _ => ⟨nofun, (hf hh).2⟩⟩⟩
  | begin =>
    simp only [Console.step] at h
    split at h <;> cases h
    rename_i hS
    refine ⟨nofun, nofun, fun hf => ⟨hf, fun hc => ?_⟩⟩
    rw [hS] at hc
    cases hc
  | check =>
    simp only [Console.step] at h
    split at h <;> cases h
    rename_i hS
    refine ⟨?_, ?_, fun hf => ⟨hf, fun hc => ?_⟩⟩
    · dsimp only
      split <;> exact nofun
    · dsimp only
      split <;> exact nofun
    · rw [hS] at hc
      cases hc
  | stopped =>
    simp only [Console.step] at h
    split at h <;> cases h
    rename_i ended hS
    cases ended with
    | true => exact ⟨nofun, fun _ => .inr (.inl ⟨hS, rfl⟩), fun hf => ⟨hf, fun _ => ⟨nofun, rfl⟩⟩⟩
    | false => exact ⟨nofun, nofun, fun hf => ⟨hf, fun _ => ⟨nofun, rfl⟩⟩⟩

/-- Only the end of the input makes a chat end with it. -/
theorem step_stopping (h : S.step path win32 args e = some S') (hS' : S'.place = .stopping true) :
    e = .eof ∨ S.place = .stopping true := by
  have henter : ∀ (T : Console) (link ok : Bool), (T.enter link ok).place ≠ .stopping true := by
    intro T link ok
    cases ok <;> exact nofun
  cases e with
  | eof => exact .inl rfl
  | line l =>
    simp only [Console.step] at h
    split at h
    · rename_i hS
      cases h
      have hchat := (choose_ends path args S l).2.2.2
      rw [hS', hS] at hchat
      cases hchat rfl
    · cases h
      revert hS'
      dsimp only
      split <;> exact nofun
    · cases h
      revert hS'
      dsimp only
      split <;> exact nofun
    · cases h
  | signal =>
    simp only [Console.step] at h
    split at h <;> cases h
    · cases hS'
    · revert hS'
      split
      · exact .inr
      · exact nofun
  | bound ok =>
    simp only [Console.step] at h
    split at h <;> cases h
    exact absurd hS' (henter _ _ _)
  | dialled heard ok =>
    simp only [Console.step] at h
    split at h <;> cases h
    exact absurd hS' (henter _ _ _)
  | check =>
    simp only [Console.step] at h
    split at h <;> cases h
    revert hS'
    dsimp only
    split <;> exact nofun
  | stopped =>
    simp only [Console.step] at h
    split at h <;> cases h
    revert hS'
    dsimp only
    split <;> exact nofun
  | lost | scanned | begin =>
    simp only [Console.step] at h
    split at h <;> cases h
    cases hS'

theorem Ends.step (h : Ends es S) (hstep : S.step path win32 args e = some S') : Ends (es ++ [e]) S' := by
  obtain ⟨hkilled, hexited, hfresh⟩ := step_ends hstep
  refine ⟨fun hp => ?_, fun hp => ?_, fun hp => ?_, fun hf => ?_⟩
  · obtain ⟨rfl, hf⟩ := hkilled hp
    exact ⟨List.getLast?_concat, hf⟩
  · rcases hexited hp with rfl | ⟨hS, rfl⟩ | ⟨choice, hexit, rfl⟩
    · exact .inl List.getLast?_concat
    · exact .inr (.inl ⟨List.mem_append_left _ (h.stopping hS), List.getLast?_concat⟩)
    · exact .inr (.inr ⟨choice, hexit, List.getLast?_concat⟩)
  · rcases step_stopping hstep hp with rfl | hS
    · exact List.mem_append_right _ List.mem_cons_self
    · exact List.mem_append_left _ (h.stopping hS)
  · obtain ⟨hf', hgo⟩ := hfresh hf
    obtain ⟨hnone, hchat⟩ := h.fresh hf'
    obtain ⟨hne, hchat'⟩ := hgo hchat
    refine ⟨fun hm => ?_, hchat'⟩
    rcases List.mem_append.mp hm with hm | hm
    · exact hnone hm
    · exact hne (List.mem_singleton.mp hm).symm

theorem run_ends {config : AppConfig} (hrun : Console.run path win32 args config es = some S) : Ends es S :=
  have hnil : Ends [] { config := config } := ⟨nofun, nofun, nofun, fun _ => ⟨List.not_mem_nil, rfl⟩⟩
  Machine.run_invariant (I := Ends) (fun _ _ _ _ h hstep => h.step hstep) hnil hrun

/-- What takes its time returns, `stop` too, and somebody types: nothing, `/quit` or 5. -/
def Willing : Event → Prop
  | .line l => l = [] ∨ l = str "/quit" ∨ l = str "5"
  | .eof | .signal | .lost => False
  | _ => True

instance : DecidablePred Willing
  | .line _ => inferInstanceAs (Decidable (_ ∨ _))
  | .eof | .signal | .lost => isFalse id
  | .scanned | .bound _ | .dialled _ _ | .begin | .check | .stopped => isTrue trivial

theorem can_leave (S : Console) (hexited : S.place ≠ .exited) (hkilled : S.place ≠ .killed) :
    ∃ more S', (∀ e ∈ more, Willing e) ∧ Machine.run (Console.step path win32 args) S more = some S' ∧
      S'.place = .exited := by
  obtain ⟨config, place, handlers, log⟩ := S
  cases place with
  | menu => exact ⟨[.line (str "5")], _, by decide, rfl, rfl⟩
  | askIp => exact ⟨[.line [], .line (str "5")], _, by decide, rfl, rfl⟩
  | scanning => exact ⟨[.scanned, .line (str "5")], _, by decide, rfl, rfl⟩
  | listening => exact ⟨[.bound false, .line (str "5")], _, by decide, rfl, rfl⟩
  | connecting ip => exact ⟨[.dialled [] false, .line (str "5")], _, by decide, rfl, rfl⟩
  | chat phase link r =>
    cases phase with
    | made => exact ⟨[.begin, .check, .line (str "/quit"), .stopped, .line (str "5")], _, by decide, rfl, rfl⟩
    | begun =>
      cases r with
      | false => exact ⟨[.check, .stopped, .line (str "5")], _, by decide, rfl, rfl⟩
      | true => exact ⟨[.check, .line (str "/quit"), .stopped, .line (str "5")], _, by decide, rfl, rfl⟩
    | reading => exact ⟨[.line (str "/quit"), .stopped, .line (str "5")], _, by decide, rfl, rfl⟩
  | stopping ended =>
    cases ended with
    | true => exact ⟨[.stopped], _, by decide, rfl, rfl⟩
    | false => exact ⟨[.stopped, .line (str "5")], _, by decide, rfl, rfl⟩
  | exited => exact absurd rfl hexited
  | killed => exact absurd rfl hkilled

/-- Nothing that comes while `stop` has not returned makes a difference. -/
theorem stopping_stays {ended : Bool} (hS : S.place = .stopping ended) (hh : S.handlers = true) {more : List Event}
    (hmore : .stopped ∉ more) (hrun : Machine.run (Console.step path win32 args) S more = some S') : S' = S := by
  induction more with
  | nil => exact (Option.some.inj hrun).symm
  | cons e es ih =>
    obtain ⟨S₁, hstep, hrest⟩ := Option.bind_eq_some_iff.mp hrun
    have hsame : S₁ = S := by
      cases e with
      | signal =>
        simp only [Console.step, hS, hh, if_true] at hstep
        exact (Option.some.inj hstep).symm
      | stopped => exact absurd List.mem_cons_self hmore
      | _ =>
        simp only [Console.step, hS] at hstep
        cases hstep
    subst hsame
    exact ih (fun hm => hmore (List.mem_cons_of_mem _ hm)) hrest

end

end LanTalk.Cli
