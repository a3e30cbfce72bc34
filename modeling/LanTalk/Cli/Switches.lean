/-
  LanTalk.Cli.Switches — flags without a value among the other arguments
  (`src/cli/command_parser.cpp`, `applyLoggingFlags` in `src/main.cpp`).

  `--verbose` and `--quiet` are switches: the program asks whether they are there, and not
  for what. The parser knows nothing of that, and gives a flag the argument behind it if
  this one does not start with two dashes.

  Proved:
  - `items_append`: a command line is read in parts, cut anywhere but between a flag and
    its value.
  - `switch_put_in_iff`: where a switch may stand without changing anything else.
-/

import LanTalk.Cli.CommandParser

namespace LanTalk.Cli

open LanTalk.Lib

/-- `flags.find(name) != flags.end()`. -/
def ParsedArgs.hasFlag (args : ParsedArgs) (name : Bytes) : Bool := args.flags.contains name

/-- The cut is between a flag and its value. -/
def Separates (pre post : List Bytes) : Prop :=
  ∃ arg ∈ pre.getLast?, startsFlag arg = true ∧ ∃ next ∈ post.head?, startsFlag next = false

/-- A command line is read as before, with the switch in addition. -/
structure SwitchedOn (name : Bytes) (before after : ParsedArgs) : Prop where
  positional : after.positional = before.positional
  flags : ∀ other, other ≠ name → after.flags[other]? = before.flags[other]?
  given : after.hasFlag name = true

/-! ## Items -/

/-- What the parser takes at a time. -/
inductive Item where
  | positional (arg : Bytes)
  | flag (name value : Bytes)

def ParsedArgs.addItem (args : ParsedArgs) : Item → ParsedArgs
  | .positional arg => args.addPositional arg
  | .flag name value => args.addFlag name value

def items : List Bytes → List Item
  | [] => []
  | [arg] => if startsFlag arg then [.flag (arg.drop 2) (str "true")] else [.positional arg]
  | arg :: next :: rest =>
    if startsFlag arg then
      if startsFlag next then .flag (arg.drop 2) (str "true") :: items (next :: rest)
      else .flag (arg.drop 2) next :: items rest
    else .positional arg :: items (next :: rest)

/-- The loop takes item after item, whatever it has taken before. -/
theorem parseLoop_items (args : ParsedArgs) (tokens : List Bytes) :
    parseLoop args tokens = (items tokens).foldl ParsedArgs.addItem args := by
  induction args, tokens using parseLoop.induct with
  | case1 args => rfl
  | case2 args arg harg => rw [parseLoop, items, if_pos harg, if_pos harg]; rfl
  | case3 args arg harg => rw [parseLoop, items, if_neg harg, if_neg harg]; rfl
  | case4 args arg next rest harg hnext ih =>
    rw [parseLoop, items, if_pos harg, if_pos hnext, if_pos harg, if_pos hnext, ih]
    rfl
  | case5 args arg next rest harg hnext ih =>
    rw [parseLoop, items, if_pos harg, if_neg hnext, if_pos harg, if_neg hnext, ih]
    rfl
  | case6 args arg next rest harg ih =>
    rw [parseLoop, items, if_neg harg, if_neg harg, ih]
    rfl

theorem items_positional {arg : Bytes} (harg : startsFlag arg = false) (rest : List Bytes) :
    items (arg :: rest) = .positional arg :: items rest := by
  cases rest <;> simp [items, harg]

/-- A flag without a value: the line ends behind it, or another flag follows. -/
theorem items_switch {arg : Bytes} (harg : startsFlag arg = true) {rest : List Bytes}
    (h : ∀ next ∈ rest.head?, startsFlag next = true) :
    items (arg :: rest) = .flag (arg.drop 2) (str "true") :: items rest := by
  cases rest with
  | nil => simp [items, harg]
  | cons next rest => simp [items, harg, h next rfl]

theorem items_pair {arg value : Bytes} (harg : startsFlag arg = true) (hvalue : startsFlag value = false)
    (rest : List Bytes) : items (arg :: value :: rest) = .flag (arg.drop 2) value :: items rest := by
  simp [items, harg, hvalue]

/-! ## Reading in parts -/

section
variable {pre post : List Bytes}

theorem Separates.cons (arg : Bytes) (h : Separates pre post) : Separates (arg :: pre) post := by
  obtain ⟨last, hlast, hflag, hnext⟩ := h
  refine ⟨last, ?_, hflag, hnext⟩
  rw [List.getLast?_cons, Option.mem_def.mp hlast]
  rfl

/-- Cut anywhere but between a flag and its value, a line has the items of its parts. -/
theorem items_append (h : ¬ Separates pre post) : items (pre ++ post) = items pre ++ items post := by
  induction pre using items.induct with
  | case1 => rfl
  | case2 arg harg =>
    have hnext : ∀ next ∈ post.head?, startsFlag next = true := fun next hn => by
      by_contra hne
      exact h ⟨arg, rfl, harg, next, hn, by simpa using hne⟩
    rw [List.singleton_append, items_switch harg hnext, items, if_pos harg, List.singleton_append]
  | case3 arg harg =>
    have hplain : startsFlag arg = false := by simpa using harg
    rw [List.singleton_append, items_positional hplain, items, if_neg harg, List.singleton_append]
  | case4 arg next rest harg hnext ih =>
    have hswitch : ∀ tail, items (arg :: next :: tail) =
        .flag (arg.drop 2) (str "true") :: items (next :: tail) := fun tail =>
      items_switch harg fun x hx => by cases hx; exact hnext
    rw [List.cons_append, List.cons_append, hswitch, hswitch, ← List.cons_append, ih fun hsep => h (hsep.cons arg),
      List.cons_append]
  | case5 arg next rest harg hnext ih =>
    have hvalue : startsFlag next = false := by simpa using hnext
    rw [List.cons_append, List.cons_append, items_pair harg hvalue, items_pair harg hvalue,
      ih fun hsep => h ((hsep.cons next).cons arg), List.cons_append]
  | case6 arg next rest harg ih =>
    have hplain : startsFlag arg = false := by simpa using harg
    rw [List.cons_append, items_positional hplain, items_positional hplain, ih fun hsep => h (hsep.cons arg),
      List.cons_append]

end

/-! ## What a switch changes -/

section
variable {name : Bytes} {a b : ParsedArgs}

theorem switchedOn_addFlag (args : ParsedArgs) (name value : Bytes) :
    SwitchedOn name args (args.addFlag name value) where
  positional := rfl
  flags other hother := by
    have hne : compare name other ≠ .eq := fun h => hother (Std.LawfulEqCmp.eq_of_compare h).symm
    rw [ParsedArgs.addFlag, Std.ExtTreeMap.getElem?_insert, if_neg hne]
  given := by simp [ParsedArgs.hasFlag, ParsedArgs.addFlag]

/-- What is read behind the switch makes no difference. -/
theorem SwitchedOn.addItem (h : SwitchedOn name a b) (item : Item) :
    SwitchedOn name (a.addItem item) (b.addItem item) := by
  cases item with
  | positional arg =>
    refine ⟨?_, h.flags, h.given⟩
    rw [ParsedArgs.addItem, ParsedArgs.addPositional, h.positional]
    rfl
  | flag other value =>
    refine ⟨h.positional, fun key hkey => ?_, ?_⟩
    · simp only [ParsedArgs.addItem, ParsedArgs.addFlag, Std.ExtTreeMap.getElem?_insert, h.flags key hkey]
    · have hgiven := h.given
      rw [ParsedArgs.hasFlag] at hgiven
      simp only [ParsedArgs.addItem, ParsedArgs.hasFlag, ParsedArgs.addFlag, Std.ExtTreeMap.contains_insert, hgiven,
        Bool.or_true]

theorem SwitchedOn.addItems (h : SwitchedOn name a b) (is : List Item) :
    SwitchedOn name (is.foldl ParsedArgs.addItem a) (is.foldl ParsedArgs.addItem b) := by
  induction is generalizing a b with
  | nil => exact h
  | cons i is ih => exact ih (h.addItem i)

/-- Items read add to the positional arguments, as many whatever was read before. -/
theorem addItems_length (is : List Item) : ∃ n, ∀ args : ParsedArgs,
    (is.foldl ParsedArgs.addItem args).positional.length = args.positional.length + n := by
  induction is with
  | nil => exact ⟨0, fun _ => rfl⟩
  | cons i is ih =>
    obtain ⟨n, hn⟩ := ih
    cases i with
    | positional arg =>
      refine ⟨n + 1, fun args => ?_⟩
      rw [List.foldl_cons, hn, ParsedArgs.addItem, ParsedArgs.addPositional, List.length_append,
        List.length_singleton]
      omega
    | flag name value => exact ⟨n, fun args => by rw [List.foldl_cons, hn]; rfl⟩

end

/-- Items that a flag comes before are read as without it, if it has no value; a positional
    argument that becomes its value is missing. -/
theorem switch_before_iff (args : ParsedArgs) (name : Bytes) (post : List Bytes) :
    SwitchedOn name ((items post).foldl ParsedArgs.addItem args)
        ((items ((dashes ++ name) :: post)).foldl ParsedArgs.addItem args) ↔
      ∀ next ∈ post.head?, startsFlag next = true := by
  by_cases hnext : ∀ next ∈ post.head?, startsFlag next = true
  · rw [items_switch (startsFlag_dashes name) hnext, List.foldl_cons]
    exact iff_of_true ((switchedOn_addFlag args name (str "true")).addItems (items post)) hnext
  · refine iff_of_false (fun hon => ?_) hnext
    cases post with
    | nil => exact hnext fun next hn => by cases hn
    | cons arg rest =>
      have hplain : startsFlag arg = false := by
        by_contra hflag
        exact hnext fun next hn => by cases hn; simpa using hflag
      obtain ⟨n, hn⟩ := addItems_length (items rest)
      have hlength := congrArg List.length hon.positional
      rw [items_pair (startsFlag_dashes name) hplain, items_positional hplain, List.foldl_cons, List.foldl_cons, hn,
        hn] at hlength
      simp [ParsedArgs.addItem, ParsedArgs.addFlag, ParsedArgs.addPositional] at hlength

/-- Behind a request for help or for the version no flag is read. -/
theorem parse_asks {command : Bytes} (h : asksHelp command = true ∨ asksVersion command = true) (prog : Bytes)
    (rest : List Bytes) (name : Bytes) : (parse (prog :: command :: rest)).hasFlag name = false := by
  rw [parse]
  by_cases hhelp : asksHelp command = true
  · rw [if_pos hhelp]
    rfl
  · rw [if_neg hhelp, if_pos (h.resolve_left hhelp)]
    rfl

/-- Put in anywhere but between a flag and its value, a switch is there and changes nothing else
    if and only if the line starts with a command, and the line ends behind the switch or
    another flag follows it. -/
theorem switch_put_in_iff (prog command name : Bytes) (pre post : List Bytes) (h : ¬ Separates pre post) :
    SwitchedOn name (parse (prog :: command :: (pre ++ post)))
        (parse (prog :: command :: (pre ++ (dashes ++ name) :: post))) ↔
      asksHelp command = false ∧ asksVersion command = false ∧ ∀ next ∈ post.head?, startsFlag next = true := by
  have hswitch : ¬ Separates pre ((dashes ++ name) :: post) := by
    rintro ⟨arg, -, -, next, hn, hflag⟩
    cases hn
    rw [startsFlag_dashes] at hflag
    cases hflag
  by_cases hasks : asksHelp command = true ∨ asksVersion command = true
  · refine iff_of_false (fun hon => ?_) fun hc => by simp [hc.1, hc.2.1] at hasks
    have hgiven := hon.given
    rw [parse_asks hasks] at hgiven
    cases hgiven
  · obtain ⟨hhelp, hversion⟩ := not_or.mp hasks
    rw [parse, parse, if_neg hhelp, if_neg hversion, if_neg hhelp, if_neg hversion, parseLoop_items, parseLoop_items,
      items_append h, items_append hswitch, List.foldl_append, List.foldl_append, switch_before_iff]
    exact ⟨fun hc => ⟨by simpa using hhelp, by simpa using hversion, hc⟩, fun hc => hc.2.2⟩

/-- Behind the host and before a port. -/
theorem switch_put_in_iff_port :
    SwitchedOn (str "verbose") (parse [str "lantalk", str "connect", str "10.0.0.2", str "--port", str "6060"])
      (parse [str "lantalk", str "connect", str "10.0.0.2", str "--verbose", str "--port", str "6060"]) := by
  have hsep : ¬ Separates [str "10.0.0.2"] [str "--port", str "6060"] := by
    rintro ⟨arg, harg, hflag, -⟩
    cases harg
    revert hflag
    decide
  exact (switch_put_in_iff (str "lantalk") (str "connect") (str "verbose") _ _ hsep).mpr
    ⟨by decide, by decide, fun next hn => by cases hn; decide⟩

/-- Before the host: the switch takes it. -/
theorem switch_takes_the_host :
    ¬ Separates [] [str "10.0.0.2"] ∧
      (parse [str "lantalk", str "connect", str "10.0.0.2"]).positional = [str "10.0.0.2"] ∧
      (parse [str "lantalk", str "connect", str "--verbose", str "10.0.0.2"]).positional = [] ∧
      ¬ SwitchedOn (str "verbose") (parse [str "lantalk", str "connect", str "10.0.0.2"])
        (parse [str "lantalk", str "connect", str "--verbose", str "10.0.0.2"]) := by
  have h0 : (parse [str "lantalk", str "connect", str "10.0.0.2"]).positional = [str "10.0.0.2"] := by decide
  have h1 : (parse [str "lantalk", str "connect", str "--verbose", str "10.0.0.2"]).positional = [] := by decide
  refine ⟨fun ⟨_, hn, _⟩ => (by cases hn), h0, h1, fun hon => ?_⟩
  have hsame := hon.positional
  rw [h0, h1] at hsame
  cases hsame

end LanTalk.Cli
