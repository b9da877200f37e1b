import FamicomDisk.Bits
import FamicomDisk.Fault
import FamicomDisk.Text.Utf16

/-!
# Slot headers

Every slot of the adapter's memory begins with a header of 256 bytes: the title of the disk in 16-bit
units, and at the end the lead-in of the side. The first unit tells an erased slot, where all bits are
set, from one that continues the disk in the slot before it, where it is zero.

* `SlotHeader`, `SlotHeader.isEmpty`, `SlotHeader.text`: what a header tells.
* `SlotHeader.pack` and `SlotHeader.unpack`: its bytes.
-/

namespace FamicomDisk

/-- The size of a slot header. -/
def slotHeaderSize : Nat := 256

/-- The header of a slot. -/
structure SlotHeader where
  /-- The title of the disk whose first side the slot holds. -/
  title : Option String := none
  /-- The lead-in of the side, if it is not the usual one. -/
  leadIn : Option Int := none
  /-- Whether the slot holds a further side of the disk in the slot before it. -/
  continuation : Bool := false
  deriving DecidableEq

namespace SlotHeader

/-- The units of the title field, its terminator included. -/
def titleUnits : Nat := 120

/-- Whether the slot holds nothing. -/
def isEmpty (h : SlotHeader) : Bool := h.title.isNone && !h.continuation

/-- What a slot is listed as. -/
def text (h : SlotHeader) : String :=
  if h.isEmpty then "<empty>"
  else if h.continuation then "<continued>"
  else h.title.getD ""

/-- The units of the title that are stored; the last unit of the field is always zero. -/
def storedUnits (h : SlotHeader) : List Nat :=
  if h.continuation then []
  else (Text.units (h.title.getD "").toList).take (titleUnits - 1)

/-- The bytes of a header. A lead-in has to be a word. -/
def pack (h : SlotHeader) : Except Fault (List UInt8) :=
  if h.isEmpty then pure (List.replicate slotHeaderSize 0xff)
  else
    let name := h.storedUnits.flatMap Bits.ofWord
    let leadIn := h.leadIn.getD 0
    if leadIn < 0 ∨ 0xffff < leadIn then throw .recordMismatch
    else
      pure (name ++ List.replicate (slotHeaderSize - 2 - name.length) 0 ++ Bits.ofWord leadIn.toNat)

/-- The words of bytes; a last byte without a partner is left out. -/
def words : List UInt8 → List Nat
  | low :: high :: rest => Bits.word low high :: words rest
  | _ => []

/-- The header with the given bytes. A title ends at its first zero unit. -/
def unpack (dat : List UInt8) : Except Fault SlotHeader :=
  let dat := dat.take slotHeaderSize
  if dat.length < slotHeaderSize then throw (.store .truncatedHeader)
  else
    let units := words (dat.take (2 * titleUnits))
    let leadIn : Option Int :=
      match words (dat.drop (slotHeaderSize - 2)) with
      | 0 :: _ | [] => none
      | n :: _ => some n
    match units.headD 0 with
    | 0xffff => pure {}
    | 0 => pure { leadIn, continuation := true }
    | _ =>
        let title := (Text.ofUnits units).takeWhile (· ≠ Char.ofNat 0)
        pure { title := some (String.ofList title), leadIn }

end SlotHeader

end FamicomDisk
