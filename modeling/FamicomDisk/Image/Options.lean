import FamicomDisk.Fault
import FamicomDisk.Text.Path
import FamicomDisk.Text.Split

/-!
# File options

A file name may be followed by options: `name::option=value:option=value`. An option without a value
is switched on.

* `Options`: values by name, in the order in which the names came first.
* `Options.splitName`: a file name and its options.
* `Switch.read`: the meaning of a yes-or-no value.
-/

namespace FamicomDisk

/-- Options, each with its value. -/
abbrev Options := List (String × String)

namespace Options

/-- Give an option a value. An option that was given before keeps its place. -/
def put (os : Options) (name value : String) : Options :=
  if os.any (·.1 = name) then os.map fun o => if o.1 = name then (name, value) else o
  else os ++ [(name, value)]

/-- The options of pairs of names and values. -/
def ofList (pairs : List (String × String)) : Options :=
  pairs.foldl (fun os (name, value) => os.put name value) []

/-- The pieces of a text between pairs of colons. -/
def splitDouble : List Char → List (List Char)
  | [] => [[]]
  | ':' :: ':' :: cs => [] :: splitDouble cs
  | c :: cs =>
      match splitDouble cs with
      | [] => [[c]]
      | piece :: pieces => (c :: piece) :: pieces

/-- The name and the value of an option. -/
def pair (option : List Char) : String × String :=
  let name := option.takeWhile (· ≠ '=')
  match option.dropWhile (· ≠ '=') with
  | [] => (String.ofList name, "yes")
  | _ :: value => (String.ofList name, String.ofList value)

/-- A file name and its options. Options without a name are passed over. -/
def splitName (text : String) : String × Options :=
  match splitDouble text.toList with
  | [] => ("", [])
  | name :: parts =>
      let pairs := (parts.flatMap (Text.split ':')).map pair
      (String.ofList name, ofList (pairs.filter (·.1 ≠ "")))

theorem put_mem (os : Options) (name value : String) : (name, value) ∈ os.put name value := by
  rw [put]
  split
  · next h =>
    obtain ⟨o, ho, hn⟩ := List.any_eq_true.1 h
    refine List.mem_map.2 ⟨o, ho, ?_⟩
    rw [if_pos (by simpa using hn)]
  · simp

end Options

/-- The value of a yes-or-no option: decided, or as it is written. -/
inductive Switch where
  | decided (on : Bool)
  | written (text : String)

namespace Switch

/-- The words for on and for off, in lower case. -/
def onWords : List String := ["yes", "true", "on", "1"]
def offWords : List String := ["no", "false", "off", "0"]

/-- Whether an option of a format is on. -/
def read (format option : String) : Switch → Except Fault Bool
  | .decided on => pure on
  | .written text =>
      let word := String.ofList (Text.lower text.toList)
      if word ∈ onWords then pure true
      else if word ∈ offWords then pure false
      else throw (.image (.invalidSwitch format option text))

end Switch

end FamicomDisk
