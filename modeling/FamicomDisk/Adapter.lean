import FamicomDisk.Action

/-!
# The adapter

The adapter streams a disk side in numbered reports. A report that is lost cannot be asked for again,
so a number out of sequence ends the session.

* `Device` and `Call`: a device that gives the reports it was loaded with, and takes a number of
  reports; it keeps a log of the calls.
* `Adapter`: the device, and the number the next report should have.
* `Adapter.readChunk`, `Adapter.writeChunk`: one report of data in either direction.
* `Adapter.readDisk` and `Adapter.writeDisk`: a whole side. After the stream of a side the rest of the
  disk is filled, until the adapter takes no more.
-/

namespace FamicomDisk

/-- A call of the device. -/
inductive Call where
  /-- A report that sets something going. -/
  | feature (report : List UInt8)
  /-- A report of data. -/
  | write (report : List UInt8)
  /-- A report asked for, by its kind and greatest length. -/
  | request (code : UInt8) (length : Nat)
  deriving DecidableEq

/-- A device. -/
structure Device where
  /-- The reports it will give. -/
  replies : List (List UInt8) := []
  /-- How many feature reports it will take, if it does not take all. -/
  featuresLeft : Option Nat := none
  /-- How many data reports it will take, if it does not take all. -/
  writesLeft : Option Nat := none
  /-- The calls so far, newest first. -/
  log : List Call := []

/-- A device in use. -/
structure Adapter where
  device : Device := {}
  /-- The number that the next report of data should have. -/
  sequence : UInt8 := 1

namespace Adapter

/-- The most data in a report from the disk. -/
def readMax : Nat := 254

/-- The data in a report to the disk. -/
def writeMax : Nat := 255

/-- The room for a side that is read. -/
def readRoom : Nat := 0x90000

/-- The byte that fills a disk. -/
def fill : UInt8 := 0xaa

/-- The most bytes that are filled. -/
def fillMax : Nat := 0x20000

/-- The codes of reports. -/
def codeReadStart : UInt8 := 0x11
def codeRead : UInt8 := 0x12
def codeWriteStart : UInt8 := 0x13
def codeWrite : UInt8 := 0x14
def codeReset : UInt8 := 0xf0

/-- Use up one of the reports left, and tell whether there was one. -/
def spend : Option Nat → Bool × Option Nat
  | none => (true, none)
  | some 0 => (false, some 0)
  | some (n + 1) => (true, some n)

/-- Send a feature report, and tell whether it was taken. -/
def sendFeature (report : List UInt8) : Action Adapter Bool :=
  modifyGet fun a =>
    let (taken, left) := spend a.device.featuresLeft
    (taken, { a with device := { a.device with
      featuresLeft := left, log := .feature report :: a.device.log } })

/-- Send a report of data, and tell whether it was taken. -/
def sendData (report : List UInt8) : Action Adapter Bool :=
  modifyGet fun a =>
    let (taken, left) := spend a.device.writesLeft
    (taken, { a with device := { a.device with
      writesLeft := left, log := .write report :: a.device.log } })

/-- Ask for a report. There is an empty one when none is left. -/
def request (code : UInt8) (length : Nat) : Action Adapter (List UInt8) :=
  modifyGet fun a =>
    (a.device.replies.headD [], { a with device := { a.device with
      replies := a.device.replies.tail, log := .request code length :: a.device.log } })

/-- Set a report going that has to be taken. -/
def start (code : UInt8) : Action Adapter Unit := do
  unless ← sendFeature [code, 0] do throw (.report code.toNat "Feature report failed")

/-- Reset the adapter. It leaves the bus, so it does not matter whether the report is taken. -/
def reset : Action Adapter Unit := do
  let _ ← sendFeature [codeReset, 0]

/-! ### Reading -/

/-- Start to read the disk. -/
def readStart : Action Adapter Unit := do
  modify fun a => { a with sequence := 1 }
  start codeReadStart

/-- The next piece of the disk; it is empty at the end. -/
def readChunk : Action Adapter (List UInt8) := do
  match ← request codeRead (readMax + 2) with
  | _ :: number :: dat =>
      if dat.isEmpty then pure []
      else
        let expected := (← get).sequence
        if number ≠ expected then
          throw (.report codeRead.toNat
            s!"Out of sequence ({number}, expected {expected}): Data lost")
        modify fun a => { a with sequence := a.sequence + 1 }
        pure dat
  | _ => throw (.report codeRead.toNat "Timed out or bad read")

/-- Read at most `rounds` pieces, and stop after one that is not full. `before` holds the pieces read
already, newest first. -/
def readChunks : Nat → List (List UInt8) → Action Adapter (List UInt8)
  | 0, before => pure before.reverse.flatten
  | rounds + 1, before => do
      let chunk ← readChunk
      if chunk.length = readMax then readChunks rounds (chunk :: before)
      else pure (chunk :: before).reverse.flatten

/-- The full pieces after which there is no room for another one. -/
def readRounds : Nat := (readRoom - readMax + readMax - 1) / readMax

/-- Read a side of a disk. -/
def readDisk : Action Adapter (List UInt8) := do
  readStart
  readChunks readRounds []

/-! ### Writing -/

/-- Start to write the disk. -/
def writeStart : Action Adapter Unit := start codeWriteStart

/-- Write a whole report of data, and tell whether the disk took it. -/
def writeChunk (dat : List UInt8) : Action Adapter Bool := do
  unless dat.length = writeMax do throw (.partialReport writeMax)
  sendData (codeWrite :: dat)

/-- The stream cut into whole reports, the last one filled. -/
def chunks (stream : List UInt8) : List (List UInt8) :=
  match stream with
  | [] => []
  | b :: bs =>
      let chunk := (b :: bs).take writeMax
      (chunk ++ List.replicate (writeMax - chunk.length) fill) :: chunks ((b :: bs).drop writeMax)
termination_by stream.length
decreasing_by simp only [List.length_drop, List.length_cons, writeMax]; omega

/-- Fill the disk with at most `rounds` reports, and tell how many it took. -/
def fillDisk : Nat → Nat → Action Adapter Nat
  | 0, taken => pure taken
  | rounds + 1, taken => do
      if ← writeChunk (List.replicate writeMax fill) then fillDisk rounds (taken + 1)
      else pure taken

/-- The reports that fill a disk. -/
def fillRounds : Nat := (fillMax + writeMax - 1) / writeMax

/-- Write the stream of a side and fill the rest of the disk. The number of reports of nothing but
fill is told. -/
def writeDisk (stream : List UInt8) : Action Adapter Nat := do
  writeStart
  (chunks stream).forM fun chunk => do
    unless ← writeChunk chunk do throw .diskFull
  fillDisk fillRounds 0

end Adapter

end FamicomDisk
