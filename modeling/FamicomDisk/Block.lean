import FamicomDisk.Bits
import FamicomDisk.Fault

/-!
# Blocks

A disk side is a sequence of blocks. The first byte of a block is the code of its type: a disk header,
a file count, and for each file a header and the data. A file header declares the size of the data.

* `BlockType` with `BlockType.next`: the four types and the type that follows each of them.
* `Block`, `Block.code`, `Block.declaredSize`, `Block.describe`: a block and what it says of itself.
* `Block.sizeOf`: the size of a block of a type after another block, where that is known.
-/

namespace FamicomDisk

open Text (hex)

/-- The types of blocks. -/
inductive BlockType where
  | diskHeader
  | fileCount
  | fileHeader
  | fileData
  deriving DecidableEq

namespace BlockType

/-- The code of a type, the first byte of its blocks. -/
def code : BlockType → Int
  | .diskHeader => 1
  | .fileCount => 2
  | .fileHeader => 3
  | .fileData => 4

/-- The type with a code. -/
def ofCode? (n : Int) : Option BlockType :=
  match n with
  | 1 => some .diskHeader
  | 2 => some .fileCount
  | 3 => some .fileHeader
  | 4 => some .fileData
  | _ => none

/-- What blocks of a type are called. -/
def name : BlockType → String
  | .diskHeader => "Disk Header"
  | .fileCount => "File Count"
  | .fileHeader => "File Header"
  | .fileData => "File Data"

/-- The size of blocks of a type that does not vary. -/
def fixedSize? : BlockType → Option Nat
  | .diskHeader => some 56
  | .fileCount => some 2
  | .fileHeader => some 16
  | .fileData => none

/-- The type that follows a type on a standard disk. -/
def next : BlockType → BlockType
  | .diskHeader => .fileCount
  | .fileCount => .fileHeader
  | .fileHeader => .fileData
  | .fileData => .fileHeader

@[simp] theorem ofCode?_code (t : BlockType) : ofCode? t.code = some t := by cases t <;> rfl

end BlockType

/-- A block: its bytes, without the mark before it and the check behind it. -/
structure Block where
  data : List UInt8
  deriving DecidableEq

namespace Block

/-- The type code of a block, or -1 if the block is empty. -/
def code (b : Block) : Int :=
  match b.data with
  | [] => -1
  | c :: _ => c.toNat

/-- The type of a block, if its code is that of one. -/
def type? (b : Block) : Option BlockType := BlockType.ofCode? b.code

/-- The size of the file that a file header declares: the word at offset 13. -/
def declaredSize? (b : Block) : Option Nat :=
  match b.data.drop 13 with
  | low :: high :: _ => some (Bits.word low high)
  | _ => none

/-- The size that a file header declares, when the block is long enough to hold one. -/
def declaredSize (b : Block) : Except Fault Nat :=
  match b.declaredSize? with
  | some n => pure n
  | none => throw .recordMismatch

/-- The size of a block with the given type code that comes after `previous`. That of file data is
known only after a file header. -/
def sizeOf (code : Int) (previous : Option Block) : Option Nat :=
  match BlockType.ofCode? code with
  | some .fileData =>
      match previous with
      | some b =>
          if b.type? = some .fileHeader ∧ 16 ≤ b.data.length then
            b.declaredSize?.map (1 + ·)
          else none
      | none => none
  | some t => t.fixedSize?
  | none => none

/-- The characters of bytes: those beyond the first 128 are shown as unknown. -/
def characters (bytes : List UInt8) : String :=
  String.ofList (bytes.map fun b => if b < 0x80 then Char.ofNat b.toNat else '\ufffd')

/-- What a block is called; a file header is listed with number, name and size of its file. -/
def describe (b : Block) : Except Fault String :=
  match b.type? with
  | none => pure s!"Unknown ({hex 2 b.code})"
  | some .fileHeader =>
      match b.data[2]? with
      | none => throw .noSuchPlace
      | some number => do
          let size ← b.declaredSize
          pure (s!"{BlockType.fileHeader.name} #{number} \""
            ++ characters ((b.data.drop 3).take 8) ++ s!"\" ({size} bytes)")
  | some t => pure t.name

end Block

end FamicomDisk
