import FamicomDisk.Action
import FamicomDisk.Flash.Header
import FamicomDisk.Layout
import FamicomDisk.Text.Name
import FamicomDisk.WriteStream

/-!
# The adapter's memory

The memory of the adapter is divided into slots of 64 KiB. A slot holds a header and the layout of a
side; the sides of a disk lie in consecutive slots, the first with the title, the others marked as
continuations.

* `Flash`: the memory. `Flash.erased` and `Flash.ofDump`: an erased one, and that of a dump.
* `Flash.read`, `Flash.write`, `Flash.erase`: its bytes. Erasing behind the end makes it longer.
* `Flash.slotImage`, `Flash.writeSides`: what a slot holds, and storing a disk. All slots are made up
  before any is erased, so nothing changes if one side does not fit or the title is no text.
* `Flash.header`, `Flash.side`, `Flash.sides`, `Flash.headers`: reading slots and disks.
* `Flash.isDump`: whether bytes are a dump of such a memory.
-/

namespace FamicomDisk

/-- The size of a slot. -/
def slotSize : Nat := 65536

/-- The memory of the adapter. -/
structure Flash where
  /-- The number of slots. -/
  slots : Nat
  bytes : List UInt8

namespace Flash

/-- The usual number of slots. -/
def usualSlots : Nat := 8

/-- An erased memory. -/
def erased (slots : Nat) : Flash := ⟨slots, List.replicate (slots * slotSize) 0xff⟩

/-- The memory of a dump, the last slot of which may be cut short. -/
def ofDump (dat : List UInt8) : Flash :=
  let length := dat.length
  let slots := (length + slotSize - 1) / slotSize
  ⟨slots, dat ++ List.replicate (slots * slotSize - length) 0xff⟩

/-- The bytes from an offset on. With a negative length all but the last bytes are read, as many as
the end lies before the start of the memory. -/
def read (f : Flash) (offset : Nat) (length : Int) : Except Fault (List UInt8) :=
  let size := f.bytes.length
  let stop : Int := offset + length
  if (size : Int) < stop then throw (.store (.readBeyondEnd offset length))
  else
    let stop := if stop < 0 then (size + stop).toNat else stop.toNat
    pure ((f.bytes.take stop).drop offset)

/-- Write bytes from an offset on. -/
def write (offset : Nat) (dat : List UInt8) : Action Flash Unit := do
  let f ← get
  let length := dat.length
  if f.bytes.length < offset + length then throw (.store (.writeBeyondEnd offset length))
  set { f with bytes := f.bytes.take offset ++ dat ++ f.bytes.drop (offset + length) }

/-- Erase a slot, counted from zero. -/
def erase (slot : Nat) : Action Flash Unit :=
  modify fun f =>
    let offset := slot * slotSize
    { f with
      bytes := f.bytes.take offset ++ List.replicate slotSize 0xff
        ++ f.bytes.drop (offset + slotSize) }

/-! ### Storing a disk -/

/-- The bytes of a slot that holds a side. -/
def slotImage (s : Side) (h : SlotHeader) : Except Fault (List UInt8) := do
  let layout ← Layout.frame s
  pure ((← h.pack) ++ layout ++ List.replicate (Layout.capacity - layout.length) 0)

/-- The lead-in that is stored with a side. -/
def storedLeadIn (s : Side) : Int :=
  match s.leadIn with
  | some 0 | none => defaultLeadIn
  | some n => n

/-- The header of a side of a disk, counted from zero. The first one has the title, which has to be
a text. -/
def headerFor (name : Text.Name) (s : Side) (i : Nat) : Except Fault SlotHeader :=
  if i = 0 then do
    pure { title := some (← name.baseName.text), leadIn := some (storedLeadIn s) }
  else pure { leadIn := some (storedLeadIn s), continuation := true }

/-- The slot of a side of a disk, counted from zero. A side that does not fit is told before a title
that is no text. -/
def slotFor (name : Text.Name) (s : Side) (i : Nat) : Except Fault (List UInt8) :=
  match headerFor name s i with
  | .ok h => slotImage s h
  | .error fault => do
      let _ ← Layout.frame s
      throw fault

/-- The slots of the sides of a disk. -/
def slotImages (name : Text.Name) (sides : List Side) : Except Fault (List (List UInt8)) :=
  sides.zipIdx.mapM fun (s, i) => slotFor name s i

/-- Store the sides of a disk in consecutive slots, counted from zero. -/
def writeSides (slot : Nat) (name : Text.Name) (sides : List Side) : Action Flash Unit := do
  if (← get).slots < slot + sides.length then
    throw (.store (.tooFewSlots sides.length slot))
  let images ← slotImages name sides
  images.zipIdx.forM fun (image, i) => do
    erase (slot + i)
    write ((slot + i) * slotSize) image

/-! ### Reading disks -/

/-- The header of a slot. -/
def header (f : Flash) (slot : Nat) : Except Fault SlotHeader := do
  SlotHeader.unpack (← f.read (slot * slotSize) slotHeaderSize)

/-- The header of a slot and the side it holds. -/
def side (f : Flash) (slot : Nat) : Except Fault (SlotHeader × Side) := do
  let h ← f.header slot
  let dat ← f.read (slot * slotSize + slotHeaderSize) Layout.capacity
  pure (h, ← Layout.walk dat h.leadIn)

/-- The sides in at most `count` slots from `slot` on, as long as they continue the disk before them. -/
def continuations (f : Flash) : Nat → Nat → Except Fault (List Side)
  | 0, _ => pure []
  | count + 1, slot => do
      if (← f.header slot).continuation then
        let s := (← f.side slot).2
        pure (s :: (← f.continuations count (slot + 1)))
      else pure []

/-- The sides of the disk that begins in a slot. -/
def sides (f : Flash) (slot : Nat) : Except Fault (List Side) := do
  if (← f.header slot).isEmpty then throw (.store (.emptySlot slot))
  let first := (← f.side slot).2
  pure (first :: (← f.continuations (f.slots - (slot + 1)) (slot + 1)))

/-- The headers of all slots. -/
def headers (f : Flash) : Except Fault (List SlotHeader) :=
  (List.range f.slots).mapM f.header

/-- Whether bytes are a dump: they are whole slots, and the first one is erased or holds a side. -/
def isDump (dat : List UInt8) : Bool :=
  let length := dat.length
  if length = 0 ∨ length % slotSize ≠ 0 then false
  else
    dat.take slotHeaderSize == List.replicate slotHeaderSize 0xff
      || (dat.drop slotHeaderSize).head? == some gapEndMark

end Flash

end FamicomDisk
