/-!
# Pulses

A capture of the disk surface holds one byte per flux transition: the time since the previous one.
Quantised, such a byte is a pulse of one, one and a half or two bit cells, or out of range.

* `Pulse.ofInterval` quantises a captured byte, `Pulse.interval` is a byte in the middle of a band.
* `Pulse.ofInterval_interval`: a legal pulse or a glitch is read back from its representative byte.
-/

namespace FamicomDisk

/-- A quantised flux interval. -/
inductive Pulse where
  /-- One bit cell. -/
  | short
  /-- One and a half bit cells. -/
  | medium
  /-- Two bit cells. -/
  | long
  /-- An interval out of range. -/
  | glitch
  /-- A symbol that stands for no interval. -/
  | unknown
  deriving DecidableEq

namespace Pulse

/-- The pulse of a captured byte: below `30` it is too short, from `A0` on too long, and the bounds
between the three legal bands are `50` and `70`. -/
def ofInterval (b : UInt8) : Pulse :=
  if b < 0x30 then .glitch
  else if b < 0x50 then .short
  else if b < 0x70 then .medium
  else if b < 0xa0 then .long
  else .glitch

/-- The captured byte that stands for a pulse; nothing is captured for an unknown symbol. -/
def interval : Pulse → UInt8
  | .short => 0x40
  | .medium => 0x60
  | .long => 0x88
  | .glitch => 0x10
  | .unknown => 0

/-- The number that stands for a pulse in a symbol string; numbers from 4 on are all unknown. -/
def ofCode (n : Nat) : Pulse :=
  match n with
  | 0 => .short
  | 1 => .medium
  | 2 => .long
  | 3 => .glitch
  | _ => .unknown

/-- The number of a pulse. -/
def code : Pulse → Nat
  | .short => 0
  | .medium => 1
  | .long => 2
  | .glitch => 3
  | .unknown => 4

/-- The pulses of a captured byte string. -/
def quantise (raw : List UInt8) : List Pulse := raw.map ofInterval

/-- The captured bytes that stand for pulses. -/
def intervals (pulses : List Pulse) : List UInt8 := pulses.map interval

@[simp] theorem ofCode_code (p : Pulse) : ofCode p.code = p := by cases p <;> rfl

theorem ofInterval_interval {p : Pulse} (h : p ≠ .unknown) : ofInterval p.interval = p := by
  cases p <;> first | rfl | exact absurd rfl h

end Pulse

end FamicomDisk
