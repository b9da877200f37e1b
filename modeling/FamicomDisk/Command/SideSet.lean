import FamicomDisk.Text.Integer
import FamicomDisk.Text.Split
import Std.Data.TreeSet

/-!
# Sets of sides

Sides are numbered from one. A set of them is written as numbers and ranges with commas between them,
such as `1,3-4`; numbers and ranges may overlap and come in any order.

* `SideSet.parse?`: the set of a text.
* `SideSet.contains`, `SideSet.toList`: the sides in a set.
-/

namespace FamicomDisk

/-- A set of sides. -/
structure SideSet where
  /-- The text it is written as. -/
  text : String
  /-- The first and the last side of each range. -/
  ranges : List (Nat × Nat)

namespace SideSet

/-- The set of no side. -/
def empty : SideSet := ⟨"", []⟩

/-- The digits at the start of a text, and the rest. -/
def takeDigits (cs : List Char) : List Char × List Char :=
  (cs.takeWhile Text.isDigit, cs.dropWhile Text.isDigit)

/-- The number of decimal digits of any script. -/
def number? (digits : List Char) : Option Nat :=
  if digits.isEmpty then none
  else
    match Text.readInt? (String.ofList digits) with
    | some (.ofNat n) => some n
    | _ => none

/-- Whether a text is at its end; one line break may stand there. -/
def isEnd : List Char → Bool
  | [] | ['\n'] => true
  | _ => false

/-- The range of a text: one number, or two with a dash between them. It begins at one or later, and
does not end before it begins. -/
def range? (cs : List Char) : Option (Nat × Nat) := do
  let (digits, rest) := takeDigits cs
  let first ← number? digits
  let last ←
    match rest with
    | '-' :: rest =>
        let (digits, rest) := takeDigits rest
        if isEnd rest then number? digits else none
    | rest => if isEnd rest then some first else none
  if first < 1 ∨ last < first then none else some (first, last)

/-- The set of a text. -/
def parse? (text : String) : Option SideSet := do
  pure ⟨text, ← (Text.split ',' text.toList).mapM range?⟩

/-- Whether a side is in a set. -/
def contains (s : SideSet) (n : Int) : Bool :=
  s.ranges.any fun (first, last) => first ≤ n && n ≤ last

/-- The sides in a set, in order. -/
def toList (s : SideSet) : List Nat :=
  (s.ranges.foldl
    (fun sides (first, last) => sides.insertMany (List.range' first (last + 1 - first)))
    (∅ : Std.TreeSet Nat)).toList

end SideSet

end FamicomDisk
