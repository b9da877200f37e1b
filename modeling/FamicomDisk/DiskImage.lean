import FamicomDisk.Layout

/-!
# Disk images

A disk image holds the sides of a disk one after the other, each filled up to the same size. A header
of 16 bytes may come first; it begins with a magic number and tells how many sides there are.

* `DiskImage.read`: the sides of a disk image.
* `DiskImage.write`: the disk image of sides, with or without a header.
* `DiskImage.toLayouts` and `DiskImage.ofLayouts`: between a disk image and the layouts of its sides.
-/

namespace FamicomDisk

namespace DiskImage

/-- The first bytes of a header. -/
def magic : List UInt8 := [0x46, 0x44, 0x53, 0x1a]

/-- The size of a header. -/
def headerSize : Nat := 16

/-- The number of sides that a header tells, or zero, and the bytes behind the header. -/
def splitHeader (dat : List UInt8) : Except Fault (Nat × List UInt8) :=
  if magic.isPrefixOf dat then
    match dat.drop magic.length with
    | [] => throw .noSuchPlace
    | count :: _ => pure (count.toNat, dat.drop headerSize)
  else pure (0, dat)

/-- The bytes of a side, counted from zero, filled with zeros up to the size of a side. -/
def sideBytes (dat : List UInt8) (i : Nat) : List UInt8 :=
  let part := (dat.drop (i * sideSize)).take sideSize
  part ++ List.replicate (sideSize - part.length) 0

/-- A side of the bytes behind the header, counted from zero. -/
def readSide (dat : List UInt8) (i : Nat) : Except Fault Side :=
  let part := sideBytes dat i
  if diskSignature.isPrefixOf part then
    match Side.parse part 0 0 with
    | .error (.format cause) => throw (.format (.inSide (i + 1) cause))
    | result => result
  else throw (.format (.notADiskSide (i + 1)))

/-- The sides of a disk image. Without a number in a header there are as many as the bytes begin. -/
def read (dat : List UInt8) : Except Fault (List Side) := do
  let (told, dat) ← splitHeader dat
  let count := if told = 0 then (dat.length + sideSize - 1) / sideSize else told
  if count = 0 then throw (.format .emptyImage)
  (List.range count).mapM (readSide dat)

/-- The header of a disk image with a number of sides. -/
def header (count : Nat) : Except Fault (List UInt8) :=
  if count < 256 then
    pure (magic ++ UInt8.ofNat count :: List.replicate (headerSize - magic.length - 1) 0)
  else throw (.value .notAByte)

/-- The disk image of sides. -/
def write (sides : List Side) (withHeader : Bool) : Except Fault (List UInt8) := do
  let start ← if withHeader then header sides.length else pure []
  pure (start ++ (← sides.mapM Side.toImage).flatten)

/-- The layouts of the sides of a disk image. -/
def toLayouts (dat : List UInt8) : Except Fault (List (List UInt8)) := do
  (← read dat).mapM Layout.frame

/-- The disk image of the sides that layouts hold. -/
def ofLayouts (layouts : List (List UInt8)) (withHeader : Bool) : Except Fault (List UInt8) := do
  write (← layouts.mapM (Layout.walk ·)) withHeader

end DiskImage

end FamicomDisk
