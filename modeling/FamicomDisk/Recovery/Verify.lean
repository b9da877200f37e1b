import FamicomDisk.Layout
import FamicomDisk.Recovery.Thresholds

/-!
# Verifying a block

A block that was recovered is checked against what is known of it: its type must be the one that
follows the block before it, its size the declared one, its check right, and the gap behind it long
enough.

* `Recovery.verifyBlock`: all faults of a block, in this order.
-/

namespace FamicomDisk

namespace Recovery

/-- The bytes without the zeros at their end. -/
def trimZeros (bytes : List UInt8) : List UInt8 := (bytes.reverse.dropWhile (· = 0)).reverse

/-- The type code expected behind a block: that of a file header when its type is unknown. -/
def expectedCode (previous : Option Block) : Int :=
  match previous with
  | none => BlockType.diskHeader.code
  | some b =>
      match b.type? with
      | some t => t.next.code
      | none => BlockType.fileHeader.code

/-- The lengths at which a block of unknown size may end. Its check told the end, and the check may
end in zeros. -/
def endsOnCheck? (payload : List UInt8) : Option Nat :=
  let length := payload.length
  let least := (trimZeros payload).length
  let first := max least 3
  let last := min (least + 2) length
  (List.range' first (last + 1 - first)).find? fun n => Crc.of (payload.take n) = 0

/-- The part of the payload that is block and check, and the fault of its size, if it has one. -/
def delimit (offset : Int) (payload : List UInt8) (size : Option Nat) :
    List UInt8 × Option BlockFault :=
  match size with
  | none => (payload.take ((endsOnCheck? payload).getD payload.length), none)
  | some size =>
      let length := payload.length
      if length < size + 2 then
        (payload, some (.badSpacing offset (.tooShort length (size + 2))))
      else
        let extra := (trimZeros (payload.drop (size + 2))).length
        (payload.take (size + 2),
          if extra = 0 then none else some (.badSpacing offset (.trailing extra)))

/-- The fault of the check at the end of a block of at least two bytes. -/
def checkFault? (offset : Int) (block : List UInt8) : Option BlockFault :=
  if Crc.of block = 0 then none
  else
    let size := block.length - 2
    match block.drop size with
    | [low, high] =>
        some (.badCheck offset (Bits.word low high) (Crc.of (block.take size)).toNat)
    | _ => none

/-- The faults of a recovered block. `data` goes from its gap-end mark to the next one, and `gap` is
the number of zeros before that, if there is one. -/
def verifyBlock (data : List UInt8) (previous : Option Block) (gap : Option Int) (th : Thresholds)
    (offset : Int) : List BlockFault :=
  match data.drop 1 with
  | [] => [.badSpacing offset .empty]
  | code :: rest =>
      let payload := code :: rest
      let code : Int := code.toNat
      let expected := expectedCode previous
      let (block, spacing) := delimit offset payload (Block.sizeOf code previous)
      (if code = expected then [] else [.wrongType offset code expected none none])
        ++ spacing.toList ++ (checkFault? offset block).toList
        ++ (match gap with
          | some n => if n < th.minGap then [.badSpacing offset (.shortGap n)] else []
          | none => [])

end Recovery

end FamicomDisk
