import FamicomDisk.Command.Arguments
import FamicomDisk.Command.Session
import FamicomDisk.Command.SideSet

/-!
# Converting an image

* `Command.Convert.selected`: the sides of an image that are converted.
* `Command.Convert.run`: write the sides of an image to another one.
-/

namespace FamicomDisk

namespace Command

namespace Convert

/-- What the action does. -/
def description : String := "Convert between disk image formats."

/-- The words that the action takes. -/
def grammar : Grammar where
  options :=
    [⟨["-h", "--help"], .help⟩,
     ⟨["--sides"], .value fun text => (SideSet.parse? text).isSome⟩,
     ⟨["-n", "--no-clobber"], .flag⟩,
     ⟨["-v", "--verbose"], .flag⟩]
  arguments := [{}, {}]

/-- The set of sides that is asked for, if one is. A double dash in place of a set asks for no side. -/
def askedSides (p : Parsed) : Option SideSet :=
  (p.value? "--sides").map fun text => (text.bind SideSet.parse?).getD .empty

/-- The sides that are converted, each with its place counted from zero: all of them, or those in a
set, in the order of the image. -/
def selected (set? : Option SideSet) (sides : List Side) : List (Side × Nat) :=
  match set? with
  | none => sides.zipIdx
  | some set => sides.zipIdx.filter fun (_, i) => set.contains ((i : Int) + 1)

/-- List sides and add them to an image. -/
def addSides (sides : List (Side × Nat)) (withBlocks : Bool) (image : Image) :
    Action Session Image :=
  sides.foldlM
    (fun image (side, i) => do
      side.print (Side.title i) withBlocks
      pure (image.addSide side))
    image

/-- Convert the image that the first argument names to the one that the second names. -/
def run (p : Parsed) : Action Session Unit := do
  let (source, sourceOptions) := Options.splitName (← p.argument 0 .missingName)
  let (target, targetOptions) := Options.splitName (← p.argument 1 .missingName)
  let sourceFormat ← Format.ofFileName source
  let targetFormat ← Format.ofFileName target
  let image ← Image.ofFile sourceFormat source sourceOptions
  Session.print s!"Converting {source} -> {target}"
  let result ← Image.forFile targetFormat target targetOptions
  let sides := selected (askedSides p) image.sides
  result.writeFile (p.flag "-n") (addSides sides (p.flag "-v"))

end Convert

end Command

end FamicomDisk
