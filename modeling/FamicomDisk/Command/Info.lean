import FamicomDisk.Command.Arguments
import FamicomDisk.Command.Session

/-!
# Showing an image

* `Command.Info.run`: list the sides, blocks and faults of an image.
-/

namespace FamicomDisk

namespace Command

namespace Info

open Text (hex)

/-- What the action does. -/
def description : String := "Display the sides, blocks and errors of a disk image."

/-- The words that the action takes. -/
def grammar : Grammar where
  options := [⟨["-h", "--help"], .help⟩]
  arguments := [{}]

/-- The number of the version. -/
def version : String := "1.0"

/-- Print a value behind its name. -/
def printValue (name value : String) : Action Session Unit :=
  Session.print (Text.padRight 12 (name ++ ":") ++ value)

/-- Print where the blocks of a recovered layout are. -/
def printLayout (r : Recovered) : Action Session Unit := do
  printValue "Layout" r.summary
  r.blocks.forM fun (offset, length) => do
    match r.origins[offset]? with
    | some origin =>
        Session.print s!"  Block @ {hex 0 offset}: {length} bytes from symbol {origin}"
    | none => throw .noSuchPlace

/-- List the image that the first argument names. -/
def run (p : Parsed) : Action Session Unit := do
  let (file, options) := Options.splitName (← p.argument 0 .missingName)
  let format ← Format.ofFileName file
  let image ← Image.ofFile format file options
  printValue "Host Tools" version
  printValue "Image" s!"{file} ({format.name})"
  printValue "Sides" (toString image.sides.length)
  match image.recovered with
  | some r => printLayout r
  | none => pure ()
  image.sides.zipIdx.forM fun (side, i) => side.print (Side.title i) true

end Info

end Command

end FamicomDisk
