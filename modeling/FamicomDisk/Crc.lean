import FamicomDisk.Bits

/-!
# The block check

Every block on the disk is followed by a 16-bit cyclic check. The register shifts right as the bits
stream past the head, and it starts from the mark that ends the gap before the block, so the check
covers the mark and the block.

* `Crc.feedBit` moves the register by one bit, `Crc.feed` by a byte string.
* `Crc.of` is the register after a block, `Crc.bytes` the two bytes stored behind the block.
* `Crc.feed_append`: feeding in pieces is feeding at once.
-/

namespace FamicomDisk

/-- The mark that ends a gap: seven zero bits and a one bit. -/
def gapEndMark : UInt8 := 0x80

/-- The check register. -/
abbrev Crc := BitVec 16

namespace Crc

/-- The register after one more bit: it shifts right, and the polynomial is added when the bit that
drops out differs from the bit that comes in. -/
def feedBit (c : Crc) (b : Bool) : Crc :=
  if c.getLsbD 0 == b then c >>> 1 else (c >>> 1) ^^^ 0x8408#16

/-- The register after one more byte. -/
def feedByte (c : Crc) (b : UInt8) : Crc := (Bits.ofByte b).foldl feedBit c

/-- The register after a byte string. -/
def feed (c : Crc) (bytes : List UInt8) : Crc := bytes.foldl feedByte c

/-- The register when a block begins: only the gap-end mark has been read. -/
def seed : Crc := feedByte 0 gapEndMark

/-- The check of a block. It is zero for a block together with its stored check. -/
def of (bytes : List UInt8) : Crc := feed seed bytes

/-- The two bytes stored behind a block. -/
def bytes (data : List UInt8) : List UInt8 := Bits.ofWord (of data).toNat

theorem seed_eq : seed = 0x8408#16 := by decide

@[simp] theorem feed_nil (c : Crc) : feed c [] = c := rfl

@[simp] theorem feed_cons (c : Crc) (b : UInt8) (bytes : List UInt8) :
    feed c (b :: bytes) = feed (feedByte c b) bytes := rfl

/-- Feeding in pieces is feeding at once. -/
theorem feed_append (c : Crc) (xs ys : List UInt8) : feed c (xs ++ ys) = feed (feed c xs) ys :=
  List.foldl_append

@[simp] theorem length_bytes (data : List UInt8) : (bytes data).length = 2 := rfl

end Crc

end FamicomDisk
