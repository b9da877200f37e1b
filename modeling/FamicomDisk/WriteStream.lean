import FamicomDisk.Bits
import FamicomDisk.Fault
import FamicomDisk.Mfm

/-!
# The write stream

The stream that drives the write head spends two bits on every bit of the disk: `10` for a zero and
`01` for a one, least significant first. A byte becomes two bytes, its low half first.

* `WriteStream.ofBytes` expands a byte string after a lead-in.
* `WriteStream.ofLayout` takes the usual lead-in when none is given.
-/

namespace FamicomDisk

/-- The usual number of zero bits before the first block. -/
def defaultLeadIn : Int := 28300

namespace WriteStream

/-- The cell of one bit. -/
def cell (b : Bool) : UInt8 := if b then 0b01 else 0b10

/-- Four bits as four cells in one byte, the first bit lowest. -/
def expand (b₀ b₁ b₂ b₃ : Bool) : UInt8 :=
  cell b₀ ||| cell b₁ <<< 2 ||| cell b₂ <<< 4 ||| cell b₃ <<< 6

/-- The two bytes of cells of a byte. -/
def ofByte (b : UInt8) : List UInt8 :=
  match Bits.ofByte b with
  | [b₀, b₁, b₂, b₃, b₄, b₅, b₆, b₇] => [expand b₀ b₁ b₂ b₃, expand b₄ b₅ b₆ b₇]
  | _ => []

/-- The stream byte of four zero bits. -/
def fill : UInt8 := 0xaa

/-- The number of stream bytes of a lead-in: two for each eight bits. -/
def leadInBytes (leadIn : Int) : Int := Int.fdiv leadIn 8 * 2

/-- The stream of a byte string after a lead-in. A negative lead-in is none. -/
def ofBytes (dat : List UInt8) (leadIn : Int) : Except Fault (List UInt8) :=
  let n := leadInBytes leadIn
  if n < -Mfm.maxLength - 1 ∨ Mfm.maxLength < n then throw (.range .length)
  else pure (List.replicate n.toNat fill ++ dat.flatMap ofByte)

/-- The stream of a layout, with the usual lead-in when none is given. -/
def ofLayout (dat : List UInt8) (leadIn : Option Int) : Except Fault (List UInt8) :=
  ofBytes dat (leadIn.getD defaultLeadIn)

end WriteStream

end FamicomDisk
