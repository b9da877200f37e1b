import FamicomDisk.Command.Arguments
import FamicomDisk.Command.Convert
import FamicomDisk.Command.Session

/-!
# Working on a dump of the adapter's memory

* `Command.Dump.list`, `Command.Dump.store`, `Command.Dump.fetch`: list the slots of a dump, store an
  image in it, and fetch a disk from it.
* `Command.Dump.run`: one of the three.
-/

namespace FamicomDisk

namespace Command

namespace Dump

/-- What the action does. -/
def description : String := "List, store and fetch disks in a flash dump file."

/-- What can be done with a dump. -/
def actions : List String := ["list", "write", "read"]

/-- The number that a text has, if it is not below the least one. -/
def readLeast (least : Int) (text : String) : Except Fault Int :=
  match Text.readInt? text with
  | none => throw (.value .unreadable)
  | some n => if n < least then throw (.belowLeast least) else pure n

/-- Whether a text is a number from one on. -/
def isPositive (text : String) : Bool := (readLeast 1 text).toOption.isSome

/-- The number of a text, which was found to be one from one on. -/
def positive (text : String) : Nat := ((Text.readInt? text).getD 1).toNat

/-- The words that the action takes. -/
def grammar : Grammar where
  options := [⟨["-h", "--help"], .help⟩, ⟨["--slots"], .value isPositive⟩]
  arguments :=
    [{ isValid := fun text => actions.contains text }, {},
     { isOptional := true, isValid := isPositive }, { isOptional := true }]

/-- The line of a slot. The sides of a disk are counted; `before` is the number of the last one. -/
def slotLine (slot : Nat) (h : SlotHeader) (before : Nat) : String × Nat :=
  if h.isEmpty then (s!"{slot + 1}:", before)
  else if h.continuation then (s!"{slot + 1}:    Side {before + 1}", before + 1)
  else (s!"{slot + 1}: {h.text}", 1)

/-- The lines of slots, the first of which is `slot`. -/
def slotLines (slot before : Nat) : List SlotHeader → List String
  | [] => []
  | h :: hs =>
      let (line, sides) := slotLine slot h before
      line :: slotLines (slot + 1) sides hs

/-- List the slots of a dump. -/
def list (flash : Flash) : Action Session Unit := do
  (slotLines 0 0 (← flash.headers)).forM Session.print

/-- Store an image in a dump, from a slot on, counted from one. The dump is written when all sides
fit. -/
def store (flash : Flash) (dump : String) (slot : Nat) (format : Format) (file : String)
    (options : Options) : Action Session Unit := do
  let image ← Image.ofFile format file options
  image.sides.zipIdx.forM fun (side, i) => side.print (Side.title i) false
  let (result, flash) := (Flash.writeSides (slot - 1) file image.sides).perform flash
  Action.ofExcept result
  Session.writeFile dump flash.bytes
  Session.print s!"Wrote {image.sides.length} sides at slot {slot}"

/-- Fetch the disk in a slot, counted from one, from a dump. -/
def fetch (flash : Flash) (slot : Nat) (format : Format) (file : String) (options : Options) :
    Action Session Unit := do
  let sides ← flash.sides (slot - 1)
  let image ← Image.forFile format file options
  image.writeFile false (Convert.addSides sides.zipIdx false)

/-- The dump to work on: the one in the file, or a new one if there is nothing to store it in yet. -/
def openDump (p : Parsed) (action dump : String) : Action Session Flash := do
  if action = "write" && !(← get).files.isPresent dump then
    match p.value? "--slots" with
    | none => pure (Flash.erased Flash.usualSlots)
    | some (some slots) => pure (Flash.erased (positive slots))
    | some none => throw .missingOperand
  else pure (Flash.ofDump (← Session.readFile dump))

/-- Do with a dump what the first argument names. -/
def run (p : Parsed) : Action Session Unit := do
  -- An action in whose place a double dash stands is none of the three, and is told as an empty list.
  let action := (p.argument? 0).getD "[]"
  let dump ← p.argument 1 .missingOperand
  let flash ← openDump p action dump
  if action = "list" then list flash
  else
    match p.argument? 2, p.argument? 3 with
    | some slot, some file => do
        let (file, options) := Options.splitName file
        let format ← Format.ofFileName file
        if action = "write" then store flash dump (positive slot) format file options
        else fetch flash (positive slot) format file options
    | _, _ => throw (.missingArgument action)

end Dump

end Command

end FamicomDisk
