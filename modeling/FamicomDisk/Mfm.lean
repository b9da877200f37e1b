import FamicomDisk.Bits
import FamicomDisk.Fault
import FamicomDisk.Machine
import FamicomDisk.Pulse

/-!
# Modulation

A one bit is a flux transition in the middle of its cell. A zero bit has a transition at the start of
its cell, unless the bit before it is a one. So the time between two transitions, together with the
bit read last, tells the bits that have passed.

* `Mfm.decode` reads one pulse, `Mfm.demodulate` a capture; `Mfm.demodulateAt` also tells the pulse
  that each bit was read from.
* `Mfm.readBits` reads a number of bits and stops.
* `Mfm.modulate` writes the pulses of a bit string, `Mfm.modulateBytes` those of a byte string after
  a lead-in of zero bits.
-/

namespace FamicomDisk

namespace Mfm

/-! ### From pulses to bits -/

/-- An illegal pulse, such as a glitch or a long one after a zero, passes for one zero bit. -/
def resync : List Bool × Bool := ([false], false)

/-- The bits of a pulse after the bit `last`, and the last bit then. -/
def decode (last : Bool) (p : Pulse) : List Bool × Bool :=
  match last, p with
  | false, .short => ([false], false)
  | false, .medium => ([true], true)
  | true, .short => ([true], true)
  | true, .medium => ([false, false], false)
  | true, .long => ([false, true], true)
  | _, _ => resync

/-- The bits of a pulse when the bit before it may be unknown: then every pulse is illegal. -/
def decodeAfter (last : Option Bool) (p : Pulse) : List Bool × Bool :=
  match last with
  | some b => decode b p
  | none => resync

/-- The machine that reads pulses and writes bits; its state is the last bit. -/
def demodulator : Machine Bool Pulse Bool := ⟨decode⟩

/-- The bits of a capture after the bit `last`. -/
def demodulate (last : Bool) (pulses : List Pulse) : List Bool := demodulator.run last pulses

/-- The machine that reads pulses and writes each bit with the offset of its pulse. -/
def tracker : Machine (Bool × Nat) Pulse (Bool × Nat) where
  step s p := ((decode s.1 p).1.map fun b => (b, s.2), (decode s.1 p).2, s.2 + 1)

/-- The bits of a capture, each with the offset of its pulse; the first pulse is at `offset`. -/
def demodulateAt (last : Bool) (offset : Nat) (pulses : List Pulse) : List (Bool × Nat) :=
  tracker.run (last, offset) pulses

/-- As `demodulate`, when the bit before the first pulse may be unknown. -/
def demodulateAfter (last : Option Bool) (pulses : List Pulse) : List Bool :=
  match last, pulses with
  | some b, ps => demodulate b ps
  | none, [] => []
  | none, p :: ps => (decodeAfter none p).1 ++ demodulate (decodeAfter none p).2 ps

/-- As `demodulateAt`, when the bit before the first pulse may be unknown. -/
def demodulateAtAfter (last : Option Bool) (offset : Nat) (pulses : List Pulse) :
    List (Bool × Nat) :=
  match last, pulses with
  | some b, ps => demodulateAt b offset ps
  | none, [] => []
  | none, p :: ps =>
      ((decodeAfter none p).1.map fun b => (b, offset))
        ++ demodulateAt (decodeAfter none p).2 (offset + 1) ps

/-- The offset of each bit is that of its pulse; the bits are those of `demodulate`. -/
theorem map_fst_demodulateAt (last : Bool) (offset : Nat) (pulses : List Pulse) :
    (demodulateAt last offset pulses).map Prod.fst = demodulate last pulses := by
  induction pulses generalizing last offset with
  | nil => rfl
  | cons p ps ih =>
    simp only [demodulateAt, demodulate, tracker, demodulator, Machine.run_cons, List.map_append,
      List.map_map] at ih ⊢
    rw [ih]
    simp [Function.comp_def]

/-- What is left of a capture when enough bits were read. -/
structure Reading where
  /-- The bits, to the end of the last pulse read. -/
  bits : List Bool
  /-- The offset of the next pulse. -/
  offset : Nat
  /-- The pulses from there on. -/
  rest : List Pulse

/-- Read pulses until they gave `need` bits and at least one more than `before`, the bits read
already, newest first. -/
def readOnto (last : Bool) (before : List Bool) (need : Nat) (offset : Nat) :
    List Pulse → Option Reading
  | [] => none
  | p :: ps =>
      let (bits, last') := decode last p
      if need ≤ bits.length then
        some ⟨(bits.reverseAux before).reverse, offset + 1, ps⟩
      else
        readOnto last' (bits.reverseAux before) (need - bits.length) (offset + 1) ps

/-- Read pulses until they gave at least `need` bits, and at least one. The first pulse is at
`offset`, and comes after a one bit. -/
def readBits (need offset : Nat) (pulses : List Pulse) : Option Reading :=
  readOnto true [] need offset pulses

/-! ### From bits to pulses -/

/-- Where the last transition lies when a bit is over. -/
inductive Phase where
  /-- The bit is a zero with a transition at the start of its cell. -/
  | zero
  /-- The bit is a one. -/
  | one
  /-- The bit is a zero after a one: the last transition is that of the one. -/
  | zeroAfterOne
  deriving DecidableEq

/-- The pulse that ends in the cell of a bit, if one does. -/
def encode (phase : Phase) (b : Bool) : List Pulse × Phase :=
  match phase, b with
  | .zero, false => ([.short], .zero)
  | .zero, true => ([.medium], .one)
  | .one, false => ([], .zeroAfterOne)
  | .one, true => ([.short], .one)
  | .zeroAfterOne, false => ([.medium], .zero)
  | .zeroAfterOne, true => ([.long], .one)

/-- The machine that reads bits and writes pulses. -/
def modulator : Machine Phase Bool Pulse := ⟨encode⟩

/-- The pulses of a bit string; a zero bit goes before it. -/
def modulate (bits : List Bool) : List Pulse := modulator.run .zero bits

/-- The largest length that is ever asked for. -/
def maxLength : Int := 0x7fffffffffffffff

/-- The pulses of a byte string after a lead-in of zero bits. -/
def modulateBytes (dat : List UInt8) (leadIn : Int) : Except Fault (List Pulse) :=
  if leadIn < -maxLength - 1 ∨ maxLength < leadIn then throw (.range .length)
  else if leadIn < 0 then throw (.value .negativeLength)
  else pure (modulate (List.replicate leadIn.toNat false ++ Bits.ofBytes dat))

end Mfm

end FamicomDisk
