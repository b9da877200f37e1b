import FamicomDisk.Fault
import FamicomDisk.Text.Digit

/-!
# Arguments

The words behind the name of an action are options and arguments. Options begin with a dash; they are
flags, or have a value, which is the next word or stands behind an equals sign. One-letter flags can
be joined. Behind a double dash there are only arguments.

* `Grammar`: the options and the arguments that an action takes.
* `Grammar.parse`: what the words say, or why they are refused.
-/

namespace FamicomDisk

namespace Command

/-- What an option does. -/
inductive OptionKind where
  | flag
  /-- Ask for help: nothing else is done. -/
  | help
  /-- Take a value. -/
  | value (isValid : String → Bool)

/-- An option and its names. The first name stands for it in the result. -/
structure OptionSpec where
  names : List String
  kind : OptionKind

/-- An argument. -/
structure ArgumentSpec where
  isOptional : Bool := false
  isValid : String → Bool := fun _ => true

/-- The options and the arguments that an action takes. -/
structure Grammar where
  options : List OptionSpec
  arguments : List ArgumentSpec

/-- Why words are refused. -/
inductive Refusal where
  /-- Help was asked for. -/
  | help
  /-- The words are not those that the action takes. -/
  | usage

/-- What words say. -/
structure Parsed where
  /-- The flags given. -/
  flags : List String := []
  /-- The values of options, the latest first. A double dash in place of a value leaves none. -/
  values : List (String × Option String) := []
  /-- The arguments, in order. An optional one may be missing, and any one if a double dash stands in
  its place. -/
  arguments : List (Option String) := []

namespace Parsed

/-- Whether a flag was given. -/
def flag (p : Parsed) (name : String) : Bool := p.flags.contains name

/-- The value of an option, if the option was given. -/
def value? (p : Parsed) (name : String) : Option (Option String) :=
  (p.values.find? (·.1 = name)).map Prod.snd

/-- An argument, if it was given. -/
def argument? (p : Parsed) (i : Nat) : Option String := (p.arguments[i]?).join

/-- An argument that has to be there. -/
def argument (p : Parsed) (i : Nat) (fault : Fault) : Except Fault String :=
  match p.argument? i with
  | some text => pure text
  | none => throw fault

end Parsed

/-! ### Words -/

/-- What is joined to the name of an option. -/
inductive Attached where
  | nothing
  /-- A value behind a long name and an equals sign. -/
  | value (text : String)
  /-- Letters behind a name of one letter; an equals sign between them does not matter. -/
  | letters (cs : List Char)

/-- What a word is. -/
inductive Word where
  | argument (text : String)
  /-- The double dash. -/
  | separator
  /-- An option, with what is joined to it. -/
  | option (spec : OptionSpec) (attached : Attached)
  /-- What looks like an option and is none. -/
  | unknown

namespace Word

/-- Whether a word is an option, or looks like one. -/
def isOption : Word → Bool
  | .option .. | .unknown => true
  | .argument _ | .separator => false

end Word

/-- Whether a text without its sign is a number, whole or with a point. -/
def isNumber (cs : List Char) : Bool :=
  let cs := if cs.getLast? = some '\n' then cs.dropLast else cs
  let rest := cs.dropWhile Text.isDigit
  match rest with
  | [] => !cs.isEmpty
  | '.' :: ds => !ds.isEmpty && ds.all Text.isDigit
  | _ => false

namespace Grammar

/-- The option with a name. -/
def find? (g : Grammar) (name : String) : Option OptionSpec :=
  g.options.find? (·.names.contains name)

/-- The option whose name and value an equals sign joins. -/
def joinedOption? (g : Grammar) (word : List Char) : Option Word :=
  match word.dropWhile (· ≠ '=') with
  | [] => none
  | _ :: value =>
      let name := word.takeWhile (· ≠ '=')
      (g.find? (String.ofList name)).map fun o =>
        .option o (if name.length = 2 then .letters value else .value (String.ofList value))

/-- The one-letter option that a word begins with. -/
def shortOption? (g : Grammar) (word : List Char) : Option Word :=
  match word with
  | dash :: letter :: rest =>
      if letter = '-' then none
      else (g.find? (String.ofList [dash, letter])).map fun o => .option o (.letters rest)
  | _ => none

/-- What a word is, in front of the double dash. -/
def classify (g : Grammar) (text : String) : Word :=
  let word := text.toList
  match word with
  | '-' :: rest =>
      match g.find? text with
      | some o => .option o .nothing
      | none =>
          if rest.isEmpty then .argument text
          else
            match (g.joinedOption? word).or (g.shortOption? word) with
            | some w => w
            | none =>
                if isNumber rest ∨ ' ' ∈ word then .argument text else .unknown
  | _ => .argument text

/-- What the words are. -/
def words (g : Grammar) : List String → List Word
  | [] => []
  | "--" :: rest => .separator :: rest.map .argument
  | text :: rest => g.classify text :: words g rest

/-! ### Arguments -/

/-- Where the reading of words stands. -/
structure Reading where
  parsed : Parsed := {}
  /-- The arguments that are still to come. -/
  missing : List ArgumentSpec
  /-- Whether there were words too many. -/
  hasExtra : Bool := false

/-- Drop the double dash, if it comes first. -/
def skipSeparators : List Word → Bool × List Word
  | .separator :: rest => (true, (skipSeparators rest).2)
  | rest => (false, rest)

/-- The text of the word that an argument takes, and the words behind it, if the argument can be there.
The double dash before or behind the word goes with it; a second double dash passes for the first one
and leaves no text. -/
def takeArgument? (spec : ArgumentSpec) (ws : List Word) : Option (Option String × List Word) :=
  let (before, rest) := skipSeparators ws
  match rest with
  | .argument text :: rest =>
      let (behind, rest) := skipSeparators rest
      some (if text = "--" ∧ !before ∧ !behind then none else some text, rest)
  | _ => if spec.isOptional then some (none, rest) else none

/-- Add an argument to what was read. The arguments `missing` are still to come. -/
def addArgument (r : Reading) (spec : ArgumentSpec) (missing : List ArgumentSpec)
    (text : Option String) : Except Refusal Reading :=
  if text.all spec.isValid then
    pure { r with
      missing, parsed := { r.parsed with arguments := r.parsed.arguments ++ [text] } }
  else throw .usage

/-- Give words to the arguments that are to come, as long as they take them. -/
def takeArguments (r : Reading) (ws : List Word) :
    List ArgumentSpec → Except Refusal (Reading × List Word)
  | [] => pure (r, ws)
  | spec :: specs =>
      match takeArgument? spec ws with
      | none => pure (r, ws)
      | some (text, rest) => do takeArguments (← addArgument r spec specs text) rest specs

/-! ### Options -/

/-- Set an option that takes no value. -/
def setFlag (r : Reading) (spec : OptionSpec) : Except Refusal Reading :=
  match spec.kind with
  | .help => throw .help
  | _ =>
      pure { r with parsed := { r.parsed with flags := r.parsed.flags ++ spec.names.take 1 } }

/-- Give an option its value. -/
def setValue (r : Reading) (spec : OptionSpec) (isValid : String → Bool) (value : String) :
    Except Refusal Reading :=
  let value := if value = "--" then none else some value
  if value.all isValid then
    pure { r with parsed := { r.parsed with
      values := (spec.names.headD "", value) :: r.parsed.values } }
  else throw .usage

/-- The flags of the letters behind a one-letter flag, if each of them is one. -/
def joinedFlags? (g : Grammar) : List Char → Option (List OptionSpec)
  | [] => some []
  | c :: cs => do
      let o ← g.find? (String.ofList ['-', c])
      match o.kind with
      | .value _ => none
      | _ => pure (o :: (← joinedFlags? g cs))

/-- Read an option, and give the words behind it. -/
def takeOption (g : Grammar) (r : Reading) (spec : OptionSpec) (attached : Attached)
    (rest : List Word) : Except Refusal (Reading × List Word) :=
  match spec.kind, attached with
  | .value isValid, .value text => do pure (← setValue r spec isValid text, rest)
  | .value isValid, .letters cs => do pure (← setValue r spec isValid (String.ofList cs), rest)
  | .value isValid, .nothing =>
      match rest with
      | .argument text :: rest => do pure (← setValue r spec isValid text, rest)
      | _ => throw .usage
  | _, .nothing => do pure (← setFlag r spec, rest)
  | _, .value _ | _, .letters [] => throw .usage
  | _, .letters cs =>
      match joinedFlags? g cs with
      | some flags => do pure (← (spec :: flags).foldlM setFlag r, rest)
      | none => throw .usage

/-! ### All words -/

/-- Read words until none is left. Arguments take words up to the next option; when no option is left,
the arguments take the rest. At most `fuel` steps are made; each leaves fewer words. -/
def readWords (g : Grammar) : Nat → Reading → List Word → Except Refusal Reading
  | 0, r, _ => pure r
  | fuel + 1, r, ws =>
      if !ws.any Word.isOption then do
        let (r, rest) ← takeArguments r ws r.missing
        pure { r with hasExtra := r.hasExtra || !rest.isEmpty }
      else
        match ws with
        | .option spec attached :: rest => do
            let (r, rest) ← takeOption g r spec attached rest
            readWords g fuel r rest
        | .unknown :: rest => readWords g fuel { r with hasExtra := true } rest
        | _ => do
            let (r, rest) ← takeArguments r ws r.missing
            if rest.length < ws.length then readWords g fuel r rest
            else readWords g fuel { r with hasExtra := true } (ws.dropWhile (!·.isOption))

/-- What words say. All arguments that are not optional have to be there, and there may be no word too
many. -/
def parse (g : Grammar) (texts : List String) : Except Refusal Parsed := do
  let ws := g.words texts
  let r ← g.readWords (ws.length + 1) { missing := g.arguments } ws
  if r.hasExtra || r.missing.any (!·.isOptional) then throw .usage
  pure r.parsed

end Grammar

end Command

end FamicomDisk
