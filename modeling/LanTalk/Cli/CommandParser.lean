/-
  LanTalk.Cli.CommandParser — what a command line is read as (`src/cli/command_parser.cpp`).

  `argv` is the list of the program's arguments, its name first; `argc` is how many there
  are. An argument behind a `--name` is that flag's value unless it starts with two dashes
  itself; any other is positional.

  Proved:
  - `parse_mixed`: a command line put together of positional arguments and `--name value`
    pairs, mixed in any way, is read as these.
-/

import LanTalk.Lib.Bytes
import LanTalk.Lib.Keyed

namespace LanTalk.Cli

open LanTalk.Lib

/-- `std::map<std::string, std::string>`. -/
abbrev Flags := Std.ExtTreeMap Bytes Bytes compare

structure ParsedArgs where
  command : Bytes := []
  positional : List Bytes := []
  flags : Flags := ∅

namespace ParsedArgs

def addFlag (args : ParsedArgs) (name value : Bytes) : ParsedArgs :=
  { args with flags := args.flags.insert name value }

def addPositional (args : ParsedArgs) (arg : Bytes) : ParsedArgs :=
  { args with positional := args.positional ++ [arg] }

end ParsedArgs

def dashes : Bytes := str "--"

/-- `arg.substr(0, 2) == "--"`. -/
def startsFlag (arg : Bytes) : Bool := arg.take 2 == dashes

/-- `parse`'s loop, over the arguments that are left. -/
def parseLoop (args : ParsedArgs) : List Bytes → ParsedArgs
  | [] => args
  | [arg] => if startsFlag arg then args.addFlag (arg.drop 2) (str "true") else args.addPositional arg
  | arg :: next :: rest =>
    if startsFlag arg then
      if startsFlag next then parseLoop (args.addFlag (arg.drop 2) (str "true")) (next :: rest)
      else parseLoop (args.addFlag (arg.drop 2) next) rest
    else parseLoop (args.addPositional arg) (next :: rest)

/-- First arguments that are no commands. -/
def asksHelp (arg : Bytes) : Bool := arg == str "--help" || arg == str "-h"

def asksVersion (arg : Bytes) : Bool := arg == str "--version" || arg == str "-v"

def parse : List Bytes → ParsedArgs
  | _ :: firstArg :: rest =>
    if asksHelp firstArg then { command := str "help" }
    else if asksVersion firstArg then { command := str "version" }
    else parseLoop { command := firstArg } rest
  | _ => {}

/-! ## The loop, one argument at a time -/

section
variable (args : ParsedArgs)

theorem startsFlag_dashes (name : Bytes) : startsFlag (dashes ++ name) = true := rfl

theorem drop_dashes (name : Bytes) : (dashes ++ name).drop 2 = name := rfl

/-- A positional argument is taken as one wherever it stands. -/
theorem parseLoop_positional {arg : Bytes} (h : startsFlag arg = false) (rest : List Bytes) :
    parseLoop args (arg :: rest) = parseLoop (args.addPositional arg) rest := by
  cases rest with
  | nil => simp only [parseLoop, h, Bool.false_eq_true, if_false]
  | cons next rest => rw [parseLoop, if_neg (by simp [h])]

/-- A flag takes the argument behind it. -/
theorem parseLoop_flag (name : Bytes) {value : Bytes} (h : startsFlag value = false) (rest : List Bytes) :
    parseLoop args ((dashes ++ name) :: value :: rest) = parseLoop (args.addFlag name value) rest := by
  rw [parseLoop, if_pos (startsFlag_dashes name), if_neg (by simp [h]), drop_dashes]

end

/-! ## Mixed arguments -/

/-- `tokens` has the positional arguments `ps` and the pairs `--name value` of `fs`, each
    list in its order. -/
inductive Mixed : List Bytes → List (Bytes × Bytes) → List Bytes → Prop
  | nil : Mixed [] [] []
  | positional (p : Bytes) {ps : List Bytes} {fs : List (Bytes × Bytes)} {tokens : List Bytes} :
      Mixed ps fs tokens → Mixed (p :: ps) fs (p :: tokens)
  | flag (name value : Bytes) {ps : List Bytes} {fs : List (Bytes × Bytes)} {tokens : List Bytes} :
      Mixed ps fs tokens → Mixed ps ((name, value) :: fs) ((dashes ++ name) :: value :: tokens)

/-- The value the last pair of a name gives it. -/
def lastValue (fs : List (Bytes × Bytes)) (name : Bytes) : Option Bytes :=
  (Keyed.lastOf Prod.fst name fs).map Prod.snd

/-- The flags with those of `fs` put in, one after the other. -/
def addFlags (flags : Flags) (fs : List (Bytes × Bytes)) : Flags :=
  fs.foldl (fun flags f => flags.insert f.1 f.2) flags

theorem addFlags_find (flags : Flags) (fs : List (Bytes × Bytes)) (name : Bytes) :
    (addFlags flags fs)[name]? = (lastValue fs name).or flags[name]? := by
  induction fs generalizing flags with
  | nil => rfl
  | cons f fs ih =>
    have hinsert : (flags.insert f.1 f.2)[name]? = if f.1 = name then some f.2 else flags[name]? := by
      simp [Std.ExtTreeMap.getElem?_insert]
    have hstep : addFlags flags (f :: fs) = addFlags (flags.insert f.1 f.2) fs := rfl
    rw [hstep, ih, hinsert, lastValue, lastValue, Keyed.lastOf_cons]
    cases Keyed.lastOf Prod.fst name fs with
    | some g => rfl
    | none => by_cases hf : f.1 = name <;> simp [hf]

/-- The loop reads mixed arguments as what they were mixed of. -/
theorem parseLoop_mixed {ps : List Bytes} {fs : List (Bytes × Bytes)} {tokens : List Bytes} (h : Mixed ps fs tokens)
    (hps : ∀ p ∈ ps, startsFlag p = false) (hfs : ∀ f ∈ fs, startsFlag f.2 = false) (args : ParsedArgs) :
    parseLoop args tokens =
      { args with positional := args.positional ++ ps, flags := addFlags args.flags fs } := by
  induction h generalizing args with
  | nil => simp only [parseLoop, List.append_nil, addFlags, List.foldl_nil]
  | positional p _ ih =>
    rw [parseLoop_positional args (hps p List.mem_cons_self),
      ih (fun q hq => hps q (List.mem_cons_of_mem _ hq)) hfs]
    simp only [ParsedArgs.addPositional, List.append_assoc, List.singleton_append]
  | flag name value _ ih =>
    rw [parseLoop_flag args name (hfs _ List.mem_cons_self),
      ih hps (fun f hf => hfs f (List.mem_cons_of_mem _ hf))]
    rfl

/-- A command other than the four spellings of help and version is read back with the
    positional arguments in their order and, for each name, the value of its last pair,
    however arguments and pairs are mixed behind it. -/
theorem parse_mixed (prog command : Bytes) (hhelp : asksHelp command = false) (hversion : asksVersion command = false)
    (ps : List Bytes) (hps : ∀ p ∈ ps, startsFlag p = false) (fs : List (Bytes × Bytes))
    (hfs : ∀ f ∈ fs, startsFlag f.2 = false) (tokens : List Bytes) (h : Mixed ps fs tokens) :
    (parse (prog :: command :: tokens)).command = command ∧
      (parse (prog :: command :: tokens)).positional = ps ∧
      ∀ name, (parse (prog :: command :: tokens)).flags[name]? = lastValue fs name := by
  have hparse : parse (prog :: command :: tokens) =
      { command := command, positional := ps, flags := addFlags ∅ fs } := by
    rw [parse, if_neg (by simp [hhelp]), if_neg (by simp [hversion]), parseLoop_mixed h hps hfs]
    rfl
  rw [hparse]
  refine ⟨rfl, rfl, fun name => ?_⟩
  rw [addFlags_find]
  simp

/-- An empty argument, a lone dash, a name given twice, and a pair at the end. -/
theorem parse_mixed_short :
    let argv := [str "lantalk", str "connect", [], str "--port", str "5", str "-", str "--port", []]
    (parse argv).command = str "connect" ∧ (parse argv).positional = [[], str "-"] ∧
      ∀ name, (parse argv).flags[name]? = lastValue [(str "port", str "5"), (str "port", [])] name := by
  intro argv
  refine parse_mixed (str "lantalk") (str "connect") (by decide) (by decide) [[], str "-"] (by decide)
    [(str "port", str "5"), (str "port", [])] (by decide) argv.tail.tail ?_
  have hport : str "--port" = dashes ++ str "port" := by decide
  show Mixed _ _ [[], str "--port", str "5", str "-", str "--port", []]
  rw [hport]
  exact .positional _ (.flag _ _ (.positional _ (.flag _ _ .nil)))

end LanTalk.Cli
