import FamicomDisk.Text.Split

/-!
# Common indentation

* `Text.dedent`: a text without the blanks that all its lines begin with. Lines of blanks only become
  empty, and do not count.
-/

namespace FamicomDisk

namespace Text

/-- Whether a character indents. -/
def isIndent (c : Char) : Bool := c = ' ' ∨ c = '\t'

/-- The beginning that two texts have in common. -/
def commonPrefix : List Char → List Char → List Char
  | a :: as, b :: bs => if a = b then a :: commonPrefix as bs else []
  | _, _ => []

/-- The blanks that all lines with more than blanks begin with. -/
def margin (lines : List (List Char)) : List Char :=
  match (lines.filter fun l => !l.all isIndent).map (·.takeWhile isIndent) with
  | [] => []
  | first :: rest => rest.foldl commonPrefix first

/-- A text without its common indentation. -/
def dedent (text : String) : String :=
  let lines := (split '\n' text.toList).map fun l => if l.all isIndent then [] else l
  let n := (margin lines).length
  String.ofList (['\n'].intercalate (lines.map (·.drop n)))

end Text

end FamicomDisk
