import FamicomDisk.Layout

/-!
# Game Doctor dumps

A dump made with a Game Doctor holds one side. Three bytes come first, and behind every block there
are two bytes in the place of its check; neither carries information.

* `GameDoctor.read`: the side of a dump.
* `GameDoctor.toLayout`: its layout.
-/

namespace FamicomDisk

namespace GameDoctor

/-- The bytes before the first block. -/
def lead : Nat := 3

/-- The bytes behind each block. -/
def trailer : Nat := 2

/-- Whether a dump has a disk header and a file count where they belong. -/
def isDump (dat : List UInt8) : Bool :=
  diskSignature.isPrefixOf (dat.drop lead)
    && (dat.drop (lead + 56 + trailer)).head? == some (UInt8.ofNat 2)

/-- The side of a dump. -/
def read (dat : List UInt8) : Except Fault Side :=
  if isDump dat then Side.parse dat lead trailer else throw (.format .notGameDoctor)

/-- The layout of the side of a dump. -/
def toLayout (dat : List UInt8) : Except Fault (List UInt8) := do Layout.frame (← read dat)

end GameDoctor

end FamicomDisk
