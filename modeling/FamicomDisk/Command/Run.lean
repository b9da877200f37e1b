import FamicomDisk.Command.Convert
import FamicomDisk.Command.Dump
import FamicomDisk.Command.Info
import FamicomDisk.Text.Dedent

/-!
# The command line

The first words are options for all actions; then comes the name of an action, and the words for it.
What an action prints goes to the error output, unless it is asked for on the standard output; the
usage text always goes there.

* `Command.run`: what a command line does to files, and what it prints.
* `Outcome`: how it ends. `Outcome.tellTime` adds the time that the action took.
-/

namespace FamicomDisk

namespace Command

/-- The actions. -/
inductive ActionName where
  | info
  | convert
  | flash
  deriving DecidableEq

namespace ActionName

/-- All actions, in the order in which they are listed. -/
def all : List ActionName := [.info, .convert, .flash]

/-- What an action is called. -/
def name : ActionName → String
  | .info => "info"
  | .convert => "convert"
  | .flash => "flash"

/-- The action of a name. -/
def ofName? (s : String) : Option ActionName := all.find? (·.name = s)

/-- What an action does, in words. -/
def description : ActionName → String
  | .info => Info.description
  | .convert => Convert.description
  | .flash => Dump.description

/-- The words that an action takes. -/
def grammar : ActionName → Grammar
  | .info => Info.grammar
  | .convert => Convert.grammar
  | .flash => Dump.grammar

/-- Do an action. -/
def run : ActionName → Parsed → Action Session Unit
  | .info => Info.run
  | .convert => Convert.run
  | .flash => Dump.run

end ActionName

/-- How a command line ends. -/
inductive Ending where
  /-- With an exit code. -/
  | returned (code : Nat)
  /-- With an exit code and a text about its words, which is not told here. -/
  | refused (code : Nat)
  /-- With a fault that is not caught. -/
  | raised (fault : Fault)

/-- Where a command prints. -/
inductive Channel where
  | output
  | error
  deriving DecidableEq

/-- What a command line does. -/
structure Outcome where
  ending : Ending
  /-- What is printed on the standard output. -/
  out : String := ""
  /-- What is printed on the error output. -/
  err : String := ""
  files : Files
  /-- Where the time that the action took is to be told, if it is. -/
  timeOn : Option Channel := none

/-- The outcome that tells the time which the action took, if it is to be told. -/
def Outcome.tellTime (o : Outcome) (elapsed : String) : Outcome :=
  let line := s!"Time elapsed: {elapsed} seconds\n"
  match o.timeOn with
  | none => o
  | some .output => { o with out := o.out ++ line }
  | some .error => { o with err := o.err ++ line }

/-- The options for all actions. -/
structure Common where
  /-- Leave all faults uncaught. -/
  backtrace : Bool := false
  /-- Tell the time that the action took. -/
  time : Bool := false
  /-- Print on the standard output. -/
  standardOutput : Bool := false

namespace Common

/-- Read the options for all actions, and give the words behind them. Other options are refused. -/
def parse (c : Common) : List String → Option (Common × List String)
  | [] => some (c, [])
  | word :: words =>
      if word.startsWith "--" then
        match word with
        | "--bt" => parse { c with backtrace := true } words
        | "--time" => parse { c with time := true } words
        | "--stdout" => parse { c with standardOutput := true } words
        | _ => none
      else some (c, word :: words)

end Common

/-- The usage text. -/
def usage (program : String) : String :=
  String.join (([s!"Usage: {program} [--time] [--stdout] [action] [-h] ...",
    "  --time      Print elapsed time after action is executed",
    "  --stdout    Log progress to stdout instead of stderr",
    "  -h, --help  Show help message for specified action",
    "Actions:"]
    ++ ActionName.all.map fun a => "  " ++ Text.padRight 12 a.name ++ a.description).map (· ++ "\n"))

/-- Whether a fault tells of a mistake in the program rather than in its input, and is not caught. -/
def isUncaught : Fault → Bool
  | .noSuchPlace | .noSuchKey | .missingOperand | .recordMismatch => true
  | _ => false

/-- What an action that ended does. A fault that is caught is told, and gives the exit code one. -/
def outcome (common : Common) (result : Except Fault Unit) (s : Session) : Outcome :=
  let (ending, lines) : Ending × List String :=
    match result with
    | .ok _ => (.returned 0, [])
    | .error fault =>
        if common.backtrace ∨ isUncaught fault then (.raised fault, [])
        else (.returned 1, ["** FATAL ERROR:", Text.dedent fault.message])
  let text := { s with lines := lines.reverse ++ s.lines }.text
  let channel : Channel := if common.standardOutput then .output else .error
  let timeOn :=
    match ending with
    | .returned _ => if common.time then some channel else none
    | _ => none
  match channel with
  | .output => { ending, out := text, files := s.files, timeOn }
  | .error => { ending, err := text, files := s.files, timeOn }

/-- What a command line does to files. `words` are the words behind the name of the program. -/
def run (program : String) (words : List String) (files : Files) : Outcome :=
  let unknown : Outcome := { ending := .returned 1, out := usage program, files }
  match Common.parse {} words with
  | some (common, name :: words) =>
      match ActionName.ofName? name with
      | some action =>
          match action.grammar.parse words with
          | .ok parsed =>
              let (result, s) := (action.run parsed).perform { files }
              outcome common result s
          | .error .help => { ending := .refused 0, files }
          | .error .usage => { ending := .refused 2, files }
      | none => unknown
  | _ => unknown

end Command

end FamicomDisk
