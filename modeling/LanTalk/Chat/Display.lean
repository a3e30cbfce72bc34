/-
  LanTalk.Chat.Display — what becomes of a received message on the terminal:
  `ChatMessage::formatForDisplay` (`src/chat/message.cpp`), the message callbacks of
  `src/main.cpp`, and `TerminalUI::printMessage` (`src/cli/terminal_ui.cpp`).

  `localtime` is the machine's conversion of a time; `ansi` is whether the output is a
  terminal. `strftime`'s text has ten bytes and fits into the buffer of 32.

  Proved, for every conversion and every message:
  - `printed_by_time`: what is printed depends on the time alone.
  - `never_shown`: so no message is shown by its line.
-/

import LanTalk.Chat.Wiring

namespace LanTalk.Chat

open LanTalk.Lib

/-- `std::tm`'s hour, minute and second. -/
structure Tm where
  hour : Fin 24
  min : Fin 60
  sec : Fin 61

/-- `%H`, `%M` and `%S`. -/
def twoDigits (n : Nat) : Bytes := ofChars [Nat.digitChar (n / 10), Nat.digitChar (n % 10)]

/-- `strftime` with `"[%H:%M:%S]"`. -/
def strftime (t : Tm) : Bytes :=
  str "[" ++ twoDigits t.hour ++ str ":" ++ twoDigits t.min ++ str ":" ++ twoDigits t.sec ++ str "]"

/-- What `clearLine` writes. -/
def clearLine (ansi : Bool) : Bytes :=
  if ansi then str "\r\x1b[2K" else str "\r" ++ List.replicate 80 32 ++ str "\r"

def inputPrompt : Bytes := str "You: "

/-- What `TerminalUI::printMessage` writes. -/
def printMessage (ansi : Bool) (line : Bytes) : Bytes := clearLine ansi ++ line ++ str "\n" ++ inputPrompt

section
variable (localtime : Int64 → Tm)

def ChatMessage.formatForDisplay (m : ChatMessage) : Bytes := strftime (localtime m.timestampUtc)

/-- The line the message callback of a command gives to `printMessage`; there is none before
    `ui` is made. -/
def messageLine (cmd : Command) (ui : Bool) (msg : ChatMessage) : Option Bytes :=
  match cmd with
  | .listen => if ui then some (msg.formatForDisplay localtime) else none
  | .connect => if ui then some (msg.formatForDisplay localtime) else none

/-- What the callback has written to the terminal. -/
def printed (ansi : Bool) (cmd : Command) (ui : Bool) (msg : ChatMessage) : Bytes :=
  match messageLine localtime cmd ui msg with
  | some line => printMessage ansi line
  | none => []

theorem messageLine_by_time (cmd : Command) (ui : Bool) {m m' : ChatMessage} (h : m.timestampUtc = m'.timestampUtc) :
    messageLine localtime cmd ui m = messageLine localtime cmd ui m' := by
  cases cmd <;> simp only [messageLine, ChatMessage.formatForDisplay, h]

/-- Messages of one time are printed alike. -/
theorem printed_by_time (ansi : Bool) (cmd : Command) (ui : Bool) {m m' : ChatMessage}
    (h : m.timestampUtc = m'.timestampUtc) :
    printed localtime ansi cmd ui m = printed localtime ansi cmd ui m' := by
  rw [printed, printed, messageLine_by_time localtime cmd ui h]

/-- The line of a message has its sender's name and its text in it, and a different text
    makes a different line. -/
def Shown (cmd : Command) (m : ChatMessage) : Prop :=
  ∃ line, messageLine localtime cmd true m = some line ∧ m.senderName <:+: line ∧ m.text <:+: line ∧
    ∀ text, text ≠ m.text → messageLine localtime cmd true { m with text := text } ≠ some line

/-- No message is shown by its line: another text has the same one. -/
theorem never_shown (cmd : Command) (m : ChatMessage) : ¬ Shown localtime cmd m := by
  rintro ⟨line, hline, -, -, hother⟩
  have hne : m.text ++ [0] ≠ m.text := by simp
  have hsame : messageLine localtime cmd true { m with text := m.text ++ [0] } = messageLine localtime cmd true m :=
    messageLine_by_time localtime cmd true rfl
  exact hother _ hne (hsame.trans hline)

end

/-- A received text: the line has the time and nothing else. -/
theorem greeting_not_shown :
    let localtime : Int64 → Tm := fun _ => { hour := 16, min := 30, sec := 10 }
    let m : ChatMessage := ⟨str "1", str "a", str "Abhishek", 0, str "Hey, this works!"⟩
    ∀ cmd, messageLine localtime cmd true m = some (str "[16:30:10]") ∧ ¬ m.senderName <:+: str "[16:30:10]" ∧
      ¬ m.text <:+: str "[16:30:10]" ∧
      messageLine localtime cmd true { m with text := str "bye" } = messageLine localtime cmd true m := by
  intro localtime m cmd
  refine ⟨?_, by decide, by decide, messageLine_by_time localtime cmd true rfl⟩
  cases cmd <;> decide

end LanTalk.Chat
