import FamicomDisk.Block

/-!
# Disk sides

A side holds its blocks in order. It may remember the lead-in and the layout it was recovered with,
and what was wrong with it.

* `Side.summary`: the side in one line.
* `Side.parse`: the blocks of a side that are stored one after the other, as in disk images.
* `Side.toImage`: the blocks one after the other, filled up to the size of a side in an image.
* `Findings`: blocks and faults that are gathered while a side is read.
-/

namespace FamicomDisk

/-- One side of a disk. -/
structure Side where
  blocks : List Block := []
  /-- The number of zero bits before the first block, if it is known. -/
  leadIn : Option Int := none
  /-- The layout with gaps that the side was recovered from, if there is one. -/
  layout : Option (List UInt8) := none
  /-- What was found to be wrong. -/
  diagnostics : List BlockFault := []

/-- The bytes of a side in a disk image. -/
def sideSize : Nat := 65500

/-- The first bytes of every disk header. -/
def diskSignature : List UInt8 := [0x01, 0x2a, 0x4e]

namespace Side

/-- The number of files: each has one header. -/
def fileCount (s : Side) : Nat := s.blocks.countP (·.type? = some .fileHeader)

/-- The side in one line. -/
def summary (s : Side) : String :=
  s!"FDS side ({s.fileCount} files, {s.blocks.length} blocks"
    ++ (if s.diagnostics.isEmpty then "" else s!", {s.diagnostics.length} errors") ++ ")"

/-- The blocks one after the other. -/
def content (s : Side) : List UInt8 := s.blocks.flatMap Block.data

/-- The bytes of the side in a disk image: its blocks, and zeros up to the size of a side. -/
def toImage (s : Side) : Except Fault (List UInt8) :=
  let dat := s.content
  let size := dat.length
  if size ≤ sideSize then pure (dat ++ List.replicate (sideSize - size) 0)
  else throw (.image (.sideTooLarge size))

/-! ### Blocks stored one after the other -/

/-- The block of `size` bytes at the start of `rest`, which begins at `offset` in the data. -/
def takeBlock (offset size : Nat) (rest : List UInt8) : Except Fault Block :=
  let data := rest.take size
  if data.length < size then throw (.format (.truncatedBlock offset)) else pure ⟨data⟩

/-- The files at the start of `rest`, added to the blocks found before, newest first. A file is a
header, which begins with its type code, and as many bytes of data as the header declares. After each
block `trailer` bytes are passed over. -/
def parseFiles (trailer : Nat) (before : List Block) (offset : Nat) (rest : List UInt8) :
    Except Fault (List Block) :=
  match _h : rest with
  | 3 :: _ => do
      let header ← takeBlock offset 16 rest
      let size := 1 + (← header.declaredSize)
      let offset' := offset + 16 + trailer
      let rest' := rest.drop (16 + trailer)
      let data ← takeBlock offset' size rest'
      parseFiles trailer (data :: header :: before) (offset' + size + trailer)
        (rest'.drop (size + trailer))
  | _ => pure before
termination_by rest.length
decreasing_by
  have : 0 < rest.length := by simp [_h]
  simp only [List.length_drop, ← _h]
  omega

/-- The side whose blocks are stored in `dat` from `offset` on, each with `trailer` bytes behind it
that are passed over: a disk header, a file count, and files as long as a file header follows. -/
def parse (dat : List UInt8) (offset trailer : Nat) : Except Fault Side := do
  let rest := dat.drop offset
  let header ← takeBlock offset 56 rest
  let offset' := offset + 56 + trailer
  let rest' := rest.drop (56 + trailer)
  let count ← takeBlock offset' 2 rest'
  let blocks ← parseFiles trailer [count, header] (offset' + 2 + trailer) (rest'.drop (2 + trailer))
  pure { blocks := blocks.reverse }

end Side

/-! ### Findings -/

/-- What reading a side has found so far, newest first. -/
structure Findings where
  blocks : List Block := []
  faults : List BlockFault := []

namespace Findings

/-- Add a block. -/
def addBlock (f : Findings) (b : Block) : Findings := { f with blocks := b :: f.blocks }

/-- Add a fault. -/
def addFault (f : Findings) (e : BlockFault) : Findings := { f with faults := e :: f.faults }

/-- Add a fault if there is one. -/
def addFault? (f : Findings) (e : Option BlockFault) : Findings :=
  match e with
  | some e => f.addFault e
  | none => f

/-- The side of all that was found, oldest first. -/
def toSide (f : Findings) : Side :=
  { blocks := f.blocks.reverse, diagnostics := f.faults.reverse }

end Findings

end FamicomDisk
