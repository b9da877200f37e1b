import FamicomDisk.Layout
import FamicomDisk.Recovery.Marks

/-!
# Scanning for the end of a block

When nothing is known of a block, its check tells where it ends: the register is zero behind the
stored check, and zeros follow. A block with a wrong check ends where the gap begins, once a whole gap
and a new mark have been seen behind its declared end.

* `Recovery.scanBlock`: scan one block.
* `Recovery.blockEnds`: the ends of all blocks of a capture, and `Recovery.addBlockEnds`, which adds
  them to other marks.
-/

namespace FamicomDisk

namespace Recovery

/-- What a scan has found. -/
structure ScanResult where
  /-- The offset at which the gap begins, if the end of the block was found. -/
  stop : Option Int
  /-- The bytes up to there. -/
  data : List UInt8
  /-- The next gap-end mark, if the scan has come to it. -/
  resume : Option Int
  /-- Whether the check told the end. -/
  checked : Bool

/-- Where a scan stands. -/
structure Scan where
  /-- The complete bytes, newest first. -/
  bytes : List UInt8 := []
  /-- How many they are. -/
  count : Nat := 0
  /-- The check register. -/
  check : Crc := Crc.seed
  /-- The bits of the byte that is being read, newest first. -/
  bits : List Bool := []
  /-- The zeros since the last one bit. -/
  zeros : Nat := 0
  /-- The offset of the first of the latest zeros. -/
  zerosStart : Int
  /-- The declared size of block and check, zero if it is not known. The type, in the first byte,
  tells it. -/
  extent : Option Nat := none

namespace Scan

/-- The result of a scan that ends here. -/
def result (s : Scan) (stop resume : Option Int) (checked : Bool) : ScanResult :=
  { stop, data := s.bytes.reverse, resume, checked }

/-- Whether the declared end of the block has been reached. -/
def isPastExtent (s : Scan) : Bool :=
  match s.extent with
  | some n => n ≤ s.count
  | none => false

/-- Add a complete byte. -/
def addByte (s : Scan) (previous : Option Block) (b : UInt8) : Scan :=
  { s with
    bytes := b :: s.bytes
    count := s.count + 1
    check := s.check.feedByte b
    bits := []
    extent :=
      if s.count = 0 then
        some (match Block.sizeOf b.toNat previous with
          | some size => size + 2
          | none => 0)
      else s.extent }

/-- Count a zero, or the end of the zeros. -/
def countZeros (s : Scan) (offset : Int) (b : Bool) : Scan :=
  if b then { s with zeros := 0 }
  else { s with zeros := s.zeros + 1, zerosStart := if s.zeros = 0 then offset else s.zerosStart }

end Scan

/-- Whether the next bits of a capture are zeros, up to `least` of them or to its end. `count` zeros
have passed. -/
def zerosFollow (least : Int) (last : Bool) (count : Nat) : List Pulse → Bool
  | [] => true
  | p :: ps =>
      let (bits, last') := Mfm.decode last p
      if least ≤ count then true
      else if (bits.take (least - count).toNat).contains true then false
      else zerosFollow least last' (count + bits.length) ps

/-- Scan one bit of the pulse at `offset`. The bits `pending` of the same pulse follow it, and then the
pulses `ahead`, which come after the bit `last`. -/
def scanBit (th : Thresholds) (previous : Option Block) (offset : Int) (last : Bool)
    (ahead : List Pulse) (b : Bool) (pending : List Bool) (s : Scan) : Except ScanResult Scan :=
  if b && th.minGap ≤ s.zeros && s.isPastExtent then
    throw (s.result (some s.zerosStart) (some offset) false)
  else
    let s := s.countZeros offset b
    let bits := b :: s.bits
    if bits.length < 8 then pure { s with bits }
    else
      let s := s.addByte previous (Bits.toByte bits.reverse)
      if 3 ≤ s.count && s.check == 0 && !pending.contains true
          && zerosFollow th.shortGap last pending.length ahead then
        throw (s.result (some (offset + 1)) none true)
      else pure s

/-- Scan the bits of one pulse. -/
def scanPulse (th : Thresholds) (previous : Option Block) (offset : Int) (last : Bool)
    (ahead : List Pulse) : List Bool → Scan → Except ScanResult Scan
  | [], s => pure s
  | b :: pending, s => do
      scanPulse th previous offset last ahead pending
        (← scanBit th previous offset last ahead b pending s)

/-- Scan pulses, the first of which is at `offset` and comes after the bit `last`. -/
def scanFrom (th : Thresholds) (previous : Option Block) (offset : Int) (last : Bool) (s : Scan) :
    List Pulse → ScanResult
  | [] => s.result none none false
  | p :: ahead =>
      let (bits, last') := Mfm.decode last p
      match scanPulse th previous offset last' ahead bits s with
      | .error r => r
      | .ok s => scanFrom th previous (offset + 1) last' s ahead

/-- Scan the block whose gap-end mark is at `offset`. -/
def scanBlock (pulses : List Pulse) (offset : Int) (th : Thresholds) (previous : Option Block) :
    Except Fault ScanResult := do
  let rest ← readFrom pulses (offset + 1)
  pure (scanFrom th previous (offset + 1) true { zerosStart := offset + 1 } rest)

/-! ### All blocks -/

/-- The ends of the blocks from the mark at `offset` on, added to those found before, newest first. At
most `rounds` blocks are scanned. -/
def blockEndsFrom (pulses : List Pulse) (th : Thresholds) :
    Nat → List Int → Int → Option Block → Except Fault (List Int)
  | 0, found, _, _ => pure found
  | rounds + 1, found, offset, previous => do
      let r ← scanBlock pulses offset th previous
      let previous := if r.data.isEmpty then previous else some ⟨r.data⟩
      match r.stop with
      | none => pure found
      | some stop =>
          match r.resume with
          | some next => blockEndsFrom pulses th rounds (stop :: found) next previous
          | none =>
              match ← nextGapEnd? th (placeAt pulses stop) with
              | some next => blockEndsFrom pulses th rounds (stop :: found) next previous
              | none => pure (stop :: found)

/-- The most blocks that are scanned. Every scan moves on when the smallest gap is not negative, so
there are no more than pulses; a negative one can move it back each time. -/
def maxRounds (pulses : List Pulse) (th : Thresholds) : Nat :=
  let length := pulses.length + 1
  if 0 ≤ th.minGap then length else length * (length + th.minGap.natAbs)

/-- The ends of the blocks of a capture, the first of which begins at `start`. -/
def blockEnds (pulses : List Pulse) (start : Int) (th : Thresholds) : Except Fault (List Int) := do
  pure (← blockEndsFrom pulses th (maxRounds pulses th) [] start none).reverse

/-- The marks, with the ends of the blocks of a capture added, the first of which begins at `start`. -/
def addBlockEnds (pulses : List Pulse) (start : Int) (marks : Marks) (th : Thresholds) :
    Except Fault Marks := do
  pure (marks.insertMany (← blockEnds pulses start th))

end Recovery

end FamicomDisk
