import FamicomDisk.Recovery.Marks
import FamicomDisk.Recovery.Scan
import FamicomDisk.Recovery.Verify

/-!
# Assembling a layout

With the ends of the blocks marked, a capture is read once more and its layout is put together: the
bits of blocks as they are, and gaps filled with zeros so that every block begins at a byte. Every
block is verified when the next one begins, or at the end of the capture.

* `Recovery.assemble`: the recovered layout of a capture with marks.
* `Recovery.Assembly`: the state of the work, and `Recovery.Assembly.step`, one pulse of it.
-/

namespace FamicomDisk

/-- A recovered layout. -/
structure Recovered where
  layout : List UInt8
  /-- The offset in the capture that each byte of the layout was read from. -/
  origins : List Int
  /-- Offset and length of each block, its gap-end mark included. -/
  blocks : List (Nat × Nat)
  diagnostics : List BlockFault

/-- The recovered layout in one line. -/
def Recovered.summary (r : Recovered) : String :=
  s!"Reconstructed ({r.blocks.length} blocks, {r.layout.length} bytes, "
    ++ s!"{r.diagnostics.length} errors)"

namespace Recovery

/-- Where in the layout the work is. -/
inductive Place where
  /-- In the gap behind the block that begins at `before`, if there is one, after `zeros` zeros.
  `debt` bits that filled the last byte of the block are still to be left out of the gap. -/
  | gap (before : Option Nat) (zeros : Int) (debt : Nat)
  /-- In the block that begins at `start`. -/
  | block (start : Nat)

/-- The state of the work. Lists have their newest entry first. -/
structure Assembly where
  /-- The bits of the layout. -/
  bits : List Bool := []
  /-- How many they are. -/
  count : Nat := 0
  origins : List Int := []
  blocks : List (Nat × Nat) := []
  faults : List BlockFault := []
  /-- The block verified last. -/
  previous : Option Block := none
  /-- The last bit read. -/
  last : Bool := false
  place : Place

namespace Assembly

/-- Add a bit that comes from the pulse at `offset`. -/
def emit (a : Assembly) (offset : Int) (b : Bool) : Assembly :=
  { a with
    bits := b :: a.bits
    count := a.count + 1
    origins := if a.count % 8 = 0 then offset :: a.origins else a.origins }

/-- Add zeros. -/
def emitZeros (a : Assembly) (offset : Int) (n : Nat) : Assembly :=
  (List.replicate n false).foldl (·.emit offset) a

/-- The number of bits that are missing to a full byte. -/
def toFullByte (a : Assembly) : Nat := (8 - a.count % 8) % 8

/-- The bytes of the layout from one offset to another. -/
def bytesBetween (a : Assembly) (start stop : Nat) : List UInt8 :=
  Bits.pack (((a.bits.drop (a.count - stop * 8)).take ((stop - start) * 8)).reverse)

/-- Verify the block that begins at `start`, if there is one; the next mark, or the end of the
layout, is at `stop`. -/
def verify (a : Assembly) (th : Thresholds) (start : Option Nat) (stop : Nat) (gap : Option Int) :
    Assembly :=
  match start with
  | none => a
  | some start =>
      let data := a.bytesBetween start stop
      { a with
        faults := (verifyBlock data a.previous gap th start).reverseAux a.faults
        previous := some ⟨data.drop 1⟩ }

/-- End the block that begins at `start`: it is filled up to a full byte, and a gap begins. -/
def endBlock (a : Assembly) (offset : Int) (start : Nat) : Assembly :=
  let debt := a.toFullByte
  let a := a.emitZeros offset debt
  { a with
    blocks := (start, a.count / 8 - start) :: a.blocks
    place := .gap (some start) 0 debt }

/-- Begin a block: its mark is the last bit of a byte of zeros. -/
def beginBlock (a : Assembly) (th : Thresholds) (offset : Int) (before : Option Nat) (zeros : Int) :
    Assembly :=
  let a := a.emitZeros offset ((15 - a.count % 8) % 8)
  let a := (a.verify th before (a.count / 8) (some zeros)).emit offset true
  { a with place := .block (a.count / 8 - 1) }

/-- Pass over one bit of a gap. It counts as a zero of the layout, whatever it is. -/
def gapBit (offset : Int) (before : Option Nat) (s : Assembly × Int × Nat) (b : Bool) :
    Assembly × Int × Nat :=
  let (a, zeros, debt) := s
  let zeros := if b then 0 else zeros + 1
  let (a, debt) := if debt = 0 then (a.emit offset false, 0) else (a, debt - 1)
  ({ a with place := .gap before zeros debt }, zeros, debt)

/-- End the block that the work is in, if a mark says so. -/
def applyMark (a : Assembly) (marked : Bool) (offset : Int) : Assembly :=
  match marked, a.place with
  | true, .block start => a.endBlock offset start
  | _, _ => a

/-- Go on by the pulse at `offset`. -/
def step (th : Thresholds) (marks : Marks) (a : Assembly) (offset : Int) (p : Pulse) : Assembly :=
  let a := a.applyMark (marks.contains offset) offset
  let (bits, last) := Mfm.decode a.last p
  let a := { a with last }
  match a.place with
  | .block _ => bits.foldl (·.emit offset) a
  | .gap before zeros debt =>
      if bits = [true] ∧ th.minGap ≤ zeros then a.beginBlock th offset before zeros
      else (bits.foldl (gapBit offset before) (a, zeros, debt)).1

/-- Go on by pulses, the first of which is at `offset`. -/
def run (th : Thresholds) (marks : Marks) (a : Assembly) (offset : Int) : List Pulse → Assembly
  | [] => a
  | p :: ps => run th marks (a.step th marks offset p) (offset + 1) ps

/-- Finish the work at the last pulse of the capture: fill the last byte, end the last block and
verify it. -/
def finish (a : Assembly) (th : Thresholds) (offset : Int) : Recovered :=
  let a := a.emitZeros offset a.toFullByte
  let length := a.count / 8
  let (blocks, start) := match a.place with
    | .block start => ((start, length - start) :: a.blocks, some start)
    | .gap before .. => (a.blocks, before)
  let a := a.verify th start length none
  { layout := Bits.pack a.bits.reverse
    origins := a.origins.reverse
    blocks := blocks.reverse
    diagnostics := a.faults.reverse }

end Assembly

/-- The recovered layout of a capture whose first block begins at `start` and whose blocks end at the
marks. -/
def assemble (pulses : List Pulse) (start : Int) (marks : Marks) (th : Thresholds) :
    Except Fault Recovered := do
  let rest ← readFrom pulses start
  let a := Assembly.run th marks { place := .gap none th.minGap 0 } start rest
  pure (a.finish th (max start (pulses.length - 1)))

/-- The recovered layout of a capture of unknown structure. -/
def reconstruct (pulses : List Pulse) (th : Thresholds) : Except Fault Recovered := do
  let glitches ← glitchGaps pulses th
  let start ← findStart pulses th
  let ends ← blockEnds pulses start th
  let marks ← consolidate pulses (.ofList (glitches.map Int.ofNat ++ ends)) th
  assemble pulses start marks th

/-- The recovered layout of a captured byte string. -/
def ofRaw (raw : List UInt8) (th : Thresholds) : Except Fault Recovered :=
  reconstruct (Pulse.quantise raw) th

end Recovery

end FamicomDisk
