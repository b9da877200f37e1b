import FamicomDisk.Crc
import FamicomDisk.Side

/-!
# Layouts

On the surface of a disk, and in the memory of the adapter, every block stands between its mark and
its check, with a gap of zeros behind it. Such a byte string is a layout.

* `Layout.framed` and `Layout.frame`: the layout of a block, and that of a side.
* `Layout.walk`: the side that a layout holds. It reads blocks in the standard order and stops at the
  first byte that cannot be part of them; a block with a wrong check is kept and reported.
-/

namespace FamicomDisk

namespace Layout

/-- The bytes of zeros behind a block. -/
def gap : Nat := 121

/-- The bytes of a layout that fit into a slot of the adapter's memory. -/
def capacity : Nat := 65280

/-- The layout of one block. -/
def framed (b : Block) : List UInt8 :=
  gapEndMark :: b.data ++ Crc.bytes b.data ++ List.replicate gap 0

/-- The layout of blocks. -/
def ofBlocks (blocks : List Block) : List UInt8 := blocks.flatMap framed

/-- The layout of a side, if it has no more than `room` bytes. -/
def frameIn (room : Int) (s : Side) : Except Fault (List UInt8) :=
  let out := ofBlocks s.blocks
  let excess := (out.length : Int) - room
  if 0 < excess then throw (.layoutFull excess) else pure out

/-- The layout of a side, if it fits into a slot. -/
def frame (s : Side) : Except Fault (List UInt8) := frameIn capacity s

/-! ### Reading a layout -/

/-- The number of zeros at the start of `rest`, added to `offset`, and what follows them. -/
def skipZeros (offset : Nat) : List UInt8 → Nat × List UInt8
  | 0 :: rest => skipZeros (offset + 1) rest
  | rest => (offset, rest)

theorem length_skipZeros_le (offset : Nat) (rest : List UInt8) :
    (skipZeros offset rest).2.length ≤ rest.length := by
  fun_induction skipZeros offset rest with
  | case1 offset rest ih => simp only [List.length_cons]; omega
  | case2 => exact Nat.le_refl _

/-- The fault of a block whose stored check is not the computed one. -/
def checkFault? (offset : Nat) (data stored : List UInt8) : Option BlockFault :=
  match stored with
  | [low, high] =>
      if Crc.of (data ++ stored) = 0 then none
      else some (.badCheck offset (Bits.word low high) (Crc.of data).toNat)
  | _ => none

/-- Walk on from `offset`, where `rest` begins. A block of type `expected` comes next, and `previous`
is the block before it. -/
def walkFrom (found : Findings) (expected : BlockType) (previous : Option Block) (offset : Nat)
    (rest : List UInt8) : Except Fault Findings :=
  match _h : skipZeros offset rest with
  | (_, []) => pure found
  | (offset', mark :: body) =>
      if mark ≠ gapEndMark then
        pure (found.addFault (.badSpacing offset' (.strayByte mark)))
      else
        let code : Int := (body.headD 0).toNat
        if code ≠ expected.code then
          -- Files may end at any time, so what is no file header ends the side without a fault.
          pure (if expected = .fileHeader then found
            else found.addFault (.wrongType offset' code expected.code none none))
        else
          match Block.sizeOf expected.code previous with
          | none => throw .recordMismatch
          | some size =>
              let block := body.take (size + 2)
              let length := block.length
              if length < size + 2 then
                pure (found.addFault (.badSpacing offset' (.cutOff length (size + 2))))
              else
                let data := block.take size
                let found := found.addFault? (checkFault? offset' data (block.drop size))
                walkFrom (found.addBlock ⟨data⟩) expected.next (some ⟨data⟩)
                  (offset' + 1 + (size + 2)) (body.drop (size + 2))
termination_by rest.length
decreasing_by
  have := length_skipZeros_le offset rest
  simp only [_h, List.length_cons] at this
  simp only [List.length_drop]
  omega

/-- The side that a layout holds. -/
def walk (dat : List UInt8) (leadIn : Option Int := none) : Except Fault Side := do
  let found ← walkFrom {} .diskHeader none 0 dat
  pure { found.toSide with leadIn, layout := some dat }

end Layout

end FamicomDisk
