import FamicomDisk.Capture.Search
import FamicomDisk.Layout
import FamicomDisk.Mfm
import FamicomDisk.WriteStream

/-!
# Captures of standard disks

On a standard disk the type and the size of each block are known before it is read: a disk header, a
file count, and a header and data for each file. So a block is read by looking for the next gap end
and taking as many bits behind it as the block and its check have.

* `Capture.readNext`: what comes of reading one block.
* `Capture.decodeBlock`: read one block into an output buffer. When it fails, the output is as it was.
* `Capture.decodeKnown`: read a whole side. A block of a wrong type is reported and passed over.
-/

namespace FamicomDisk

namespace Capture

/-- What comes of reading one block. -/
inductive Outcome where
  /-- No gap ends after the offset, or the capture ends before the block does. -/
  | noGap (offset : Nat)
  /-- The block is of another type; reading may go on behind what was read. -/
  | otherType (fault : BlockFault) (after : Head)
  /-- The block was read, perhaps with a wrong check. -/
  | read (data : List UInt8) (fault : Option BlockFault) (after : Head)
  /-- A block of the size asked for cannot be. -/
  | impossible (fault : Fault)

/-- Read a block with the given size and type code. `output` is the offset the block is reported at.
Reading a block and its check takes two bytes more than the size. -/
def readNext (h : Head) (output : Nat) (size code : Int) : Outcome :=
  match h.seekMark? minGap with
  | none => .noGap h.offset
  | some mark =>
      let need := 8 * (size + 2).toNat
      match Mfm.readBits need mark.offset mark.rest with
      | none => .noGap (mark.offset - 1)
      | some r =>
          let after : Head := ⟨r.offset, r.rest⟩
          let bytes := Bits.pack (r.bits.take need)
          match bytes with
          | [] => .impossible .noSuchPlace
          | first :: _ =>
              if (first.toNat : Int) ≠ code then
                .otherType (.wrongType output first.toNat code (some (mark.offset - 1, r.offset))
                  (some ⟨r.offset, output⟩)) after
              else if size < 0 then .impossible .recordMismatch
              else
                let data := bytes.take size.toNat
                .read data (Layout.checkFault? output data (bytes.drop size.toNat)) after

/-! ### Reading makes progress -/

theorem length_rest_lt_of_readOnto {last : Bool} {before : List Bool} {need offset : Nat}
    {ps : List Pulse} {r : Mfm.Reading} (e : Mfm.readOnto last before need offset ps = some r) :
    r.rest.length < ps.length := by
  induction ps generalizing last before need offset with
  | nil => simp [Mfm.readOnto] at e
  | cons p ps ih =>
    simp only [Mfm.readOnto] at e
    split at e
    · simp only [Option.some.injEq] at e
      subst e
      simp
    · have := ih e
      simp only [List.length_cons]
      omega

/-- The place behind what was read, if anything was. -/
def Outcome.after? : Outcome → Option Head
  | .otherType _ after | .read _ _ after => some after
  | .noGap _ | .impossible _ => none

/-- Behind what was read there is less left than before it. -/
theorem length_rest_lt_of_readNext {h after : Head} {output : Nat} {size code : Int}
    (e : (readNext h output size code).after? = some after) :
    after.rest.length < h.rest.length := by
  unfold readNext at e
  split at e
  · simp [Outcome.after?] at e
  · next mark hm =>
    have h₁ := Head.length_rest_lt_of_seekMark? hm
    dsimp only at e
    split at e
    · simp [Outcome.after?] at e
    · next r hr =>
      have h₂ := length_rest_lt_of_readOnto hr
      split at e
      · simp [Outcome.after?] at e
      · split at e
        · simp only [Outcome.after?, Option.some.injEq] at e
          subst e
          exact Nat.lt_trans h₂ h₁
        · split at e
          · simp [Outcome.after?] at e
          · simp only [Outcome.after?, Option.some.injEq] at e
            subst e
            exact Nat.lt_trans h₂ h₁

/-! ### Reading into a buffer -/

/-- An output buffer, and the faults found while it was filled. -/
structure Buffer where
  bytes : List UInt8
  diagnostics : List BlockFault := []

namespace Buffer

/-- Replace the bytes from `offset` on by the given ones. -/
def write (b : Buffer) (offset : Nat) (bytes : List UInt8) : Buffer :=
  { b with bytes := b.bytes.take offset ++ bytes ++ b.bytes.drop (offset + bytes.length) }

/-- Add a fault if there is one. -/
def report (b : Buffer) (fault : Option BlockFault) : Buffer :=
  { b with diagnostics := b.diagnostics ++ fault.toList }

end Buffer

/-- Read the next block at the cursor into the buffer, with zeros in the place of its check, and give
the cursor behind it. The buffer is left alone when the block does not fit or cannot be read. -/
def decodeBlock (pulses : List Pulse) (cursor : Cursor) (size code : Int) (b : Buffer) :
    Except Fault Cursor × Buffer :=
  let shortfall := (cursor.output : Int) + size + 2 - b.bytes.length
  if 0 < shortfall then (throw (.outputFull shortfall), b)
  else
    match readNext (.ofOffset pulses cursor.input) cursor.output size code with
    | .noGap offset => (throw (.gapNotFound offset), b)
    | .otherType fault _ => (throw (.block fault), b)
    | .impossible fault => (throw fault, b)
    | .read data fault after =>
        (pure ⟨after.offset, cursor.output + size.toNat⟩,
          (b.write cursor.output (data ++ [0, 0])).report fault)

/-! ### Reading a side -/

/-- Read on from a place. A block of type `expected` comes next, `previous` is the block before it,
and `output` bytes of blocks have been found. They may be no more than a side has in an image. -/
def decodeFrom (found : Findings) (expected : BlockType) (previous : Option Block) (output : Nat)
    (h : Head) : Except Fault Findings :=
  match Block.sizeOf expected.code previous with
  | none => throw .recordMismatch
  | some size =>
      if sideSize < output + size then
        pure (found.addFault (.badSpacing output (.noRoom ((output + size : Nat) - sideSize))))
      else
        match _e : readNext h output size expected.code with
        | .noGap _ => pure found
        | .impossible fault => throw fault
        | .otherType fault after => decodeFrom (found.addFault fault) expected previous output after
        | .read data fault after =>
            decodeFrom ((found.addFault? fault).addBlock ⟨data⟩) expected.next (some ⟨data⟩)
              (output + size) after
termination_by h.rest.length
decreasing_by
  all_goals exact length_rest_lt_of_readNext (by rw [_e]; rfl)

/-- The side of a capture of a standard disk. Reading begins a gap before the disk header, or at the
start when there is none. -/
def decodeKnown (pulses : List Pulse) : Except Fault Side := do
  let start := (findUsualHeader? pulses).getD 0 - minGap
  let found ← decodeFrom {} .diskHeader none 0 (.ofOffset pulses start)
  pure found.toSide

/-- The side of a captured byte string of a standard disk. -/
def sideOfRaw (raw : List UInt8) : Except Fault Side := decodeKnown (Pulse.quantise raw)

/-- The capture of a side, as the drive would deliver it. Without a lead-in, or one that the side
remembers, the usual one goes before the layout. -/
def ofSide (s : Side) (leadIn : Option Int) : Except Fault (List UInt8) := do
  let remembered := match s.leadIn with
    | some 0 | none => defaultLeadIn
    | some n => n
  let layout ← Layout.frame s
  pure (Pulse.intervals (← Mfm.modulateBytes layout (leadIn.getD remembered)))

end Capture

/-- The write stream of a side. -/
def Side.toWriteStream (s : Side) : Except Fault (List UInt8) := do
  WriteStream.ofLayout (← Layout.frame s) s.leadIn

end FamicomDisk
