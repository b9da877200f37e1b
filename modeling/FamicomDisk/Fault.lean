import FamicomDisk.Text.Hex

/-!
# Faults

What can go wrong, told by its cause. Each cause knows its own message.

* `BlockFault`: what is wrong with one block of a disk. Decoding goes on after most of them, so they
  are usually collected, not thrown.
* `FormatFault`, `ImageFault`, `StoreFault`, `AdapterFault`, `ValueFault`, `RangeFault`: causes of
  one part of the library each.
* `Fault`: why an operation gave up, and `Fault.message`, its text.
-/

namespace FamicomDisk

open Text (hex)

/-- A position in a capture, and the position in the output that is to be filled from it. -/
structure Cursor where
  /-- The offset of the next pulse. -/
  input : Nat
  /-- The offset of the next output byte. -/
  output : Nat
  deriving DecidableEq

/-! ### Blocks -/

/-- What is wrong with the space a block takes, or with the gap beside it. -/
inductive SpacingFault where
  /-- A byte in a gap that is neither zero nor the gap-end mark. -/
  | strayByte (byte : UInt8)
  /-- The layout ends before the block does. -/
  | cutOff (have_ need : Nat)
  /-- The block ends before its declared end. -/
  | tooShort (have_ need : Nat)
  /-- Bytes that are not zero follow the declared end of the block. -/
  | trailing (count : Nat)
  /-- Nothing follows the gap-end mark. -/
  | empty
  /-- The gap after the block has too few zero bits. -/
  | shortGap (bits : Int)
  /-- The block does not fit into what is left of the output. -/
  | noRoom (shortfall : Int)
  deriving DecidableEq

/-- The text of a spacing fault. -/
def SpacingFault.message : SpacingFault → String
  | .strayByte b => s!"Unexpected byte {hex 2 b.toNat} in gap"
  | .cutOff h n => s!"Truncated block ({h}<{n} bytes)"
  | .tooShort h n => s!"Block truncated ({h}<{n} bytes)"
  | .trailing n => s!"{n} bytes of data beyond block end"
  | .empty => "Empty block"
  | .shortGap n => s!"Short gap ({n} bits)"
  | .noRoom n => s!"Out of space ({n} bytes short)"

/-- What is wrong with one block of a disk, and the offset it is found at. -/
inductive BlockFault where
  /-- The block begins with another type code than the one expected. The pulses it was read from
  and the place where reading may go on are given if it was read from a capture. -/
  | wrongType (offset : Int) (found expected : Int) (span : Option (Nat × Nat))
      (resume : Option Cursor)
  /-- The stored check is not the computed one. -/
  | badCheck (offset : Int) (stored computed : Nat)
  /-- The block or the gap beside it has the wrong size. -/
  | badSpacing (offset : Int) (cause : SpacingFault)
  deriving DecidableEq

namespace BlockFault

/-- The offset of the block. -/
def offset : BlockFault → Int
  | .wrongType o .. => o
  | .badCheck o .. => o
  | .badSpacing o _ => o

/-- What is wrong, without the offset. -/
def reason : BlockFault → String
  | .wrongType _ found expected none _ =>
      s!"Wrong block type {hex 0 found} (expected {hex 0 expected})"
  | .wrongType _ found expected (some (first, last)) _ =>
      s!"Wrong block type {hex 0 found} (expected {hex 0 expected})"
        ++ s!" at symbols {hex 0 first}-{hex 0 last}"
  | .badCheck _ stored computed => s!"Bad CRC ({hex 4 stored}!={hex 4 computed})"
  | .badSpacing _ cause => cause.message

/-- The text of a block fault. -/
def message (f : BlockFault) : String := s!"Block @ {hex 0 f.offset}: " ++ f.reason

end BlockFault

/-! ### Causes by part -/

/-- Why bytes are not a disk image of the format expected. -/
inductive FormatFault where
  /-- A block reaches beyond the end of the data. -/
  | truncatedBlock (offset : Nat)
  /-- There is no side at all. -/
  | emptyImage
  /-- A side, counted from one, does not begin with a disk header. -/
  | notADiskSide (side : Nat)
  /-- The blocks of a side, counted from one, do not fit together. -/
  | inSide (side : Nat) (cause : FormatFault)
  /-- The data is no dump with placeholders for checks. -/
  | notGameDoctor

/-- The text of a format fault. -/
def FormatFault.message : FormatFault → String
  | .truncatedBlock offset => s!"Truncated block at offset {offset}"
  | .emptyImage => "Empty FDS image"
  | .notADiskSide side => s!"Side {side}: Not an FDS disk side"
  | .inSide side cause => s!"Side {side}: " ++ cause.message
  | .notGameDoctor => "Not a Game Doctor disk image"

/-- Why an image file cannot be read, written or set up. -/
inductive ImageFault where
  /-- The blocks of a side take more bytes than an image has for them. -/
  | sideTooLarge (size : Nat)
  /-- An image without sides cannot be written in the named format. -/
  | noSides (format : String)
  /-- No slot of a dump holds a side. -/
  | noSidesFound (file : String)
  /-- A layout without slot headers holds one side. -/
  | bareNeedsOneSide
  /-- A capture holds one side. -/
  | captureNeedsOneSide
  /-- Files of the format cannot be made. -/
  | readOnly (file format : String)
  /-- The format has no such option in this direction. -/
  | unknownOption (file option : String) (known : List String)
  /-- The value of a yes-or-no option is neither. -/
  | invalidSwitch (format option value : String)
  /-- There is no such way to read a capture. -/
  | invalidMode (value : String) (known : List String)
  /-- The thresholds cannot be read. -/
  | invalidThresholds (value : String)
  /-- The lead-in is no number, or it is negative. -/
  | invalidLeadIn (value : String)
  /-- No format has this file name suffix. The known suffixes are given as they are listed. -/
  | unknownSuffix (file suffix known : String)

/-- The text of an image fault. -/
def ImageFault.message : ImageFault → String
  | .sideTooLarge size => s!"Side is too large for an FDS image ({size} bytes)"
  | .noSides format => s!"{format}: No disk sides to write"
  | .noSidesFound file => s!"{file}: No disk sides found"
  | .bareNeedsOneSide => "BIN: A bare image holds one disk side: Use the 'header' option"
  | .captureNeedsOneSide => "RAW: A capture holds exactly one disk side"
  | .readOnly file format => s!"{file}: Cannot create {format} image files"
  | .unknownOption file option known =>
      s!"{file}: Invalid file option: {option}\nValid options: "
        ++ (if known.isEmpty then "<none>" else ", ".intercalate known)
  | .invalidSwitch format option value => s!"{format}: Invalid {option} setting: '{value}'"
  | .invalidMode value known =>
      s!"RAW: Invalid mode: '{value}'\nValid modes: " ++ ", ".intercalate known
  | .invalidThresholds value => s!"RAW: Invalid thresholds: '{value}'"
  | .invalidLeadIn value => s!"RAW: Invalid lead_in: '{value}'"
  | .unknownSuffix file suffix known =>
      s!"{file}: Unrecognised file suffix '{suffix}'\nKnown suffixes:\n{known}"

/-- Why a flash store refuses an operation. -/
inductive StoreFault where
  /-- Fewer bytes than a slot header has. -/
  | truncatedHeader
  /-- A read reaches beyond the end. -/
  | readBeyondEnd (offset : Nat) (length : Int)
  /-- A write reaches beyond the end. -/
  | writeBeyondEnd (offset length : Nat)
  /-- The sides do not fit into the slots from the given one on, counted from zero. -/
  | tooFewSlots (sides slot : Nat)
  /-- No disk begins at the slot, counted from zero. -/
  | emptySlot (slot : Nat)

/-- The text of a store fault; slots are counted from one in it. -/
def StoreFault.message : StoreFault → String
  | .truncatedHeader => "Flash header is truncated"
  | .readBeyondEnd offset length =>
      s!"Flash read beyond end of device ({hex 0 offset}+{hex 0 length})"
  | .writeBeyondEnd offset length =>
      s!"Flash write beyond end of device ({hex 0 offset}+{hex 0 length})"
  | .tooFewSlots sides slot => s!"Not enough flash slots for {sides} sides at slot {slot + 1}"
  | .emptySlot slot => s!"Flash slot {slot + 1} is empty"

/-- Why a value has no meaning where it stands. -/
inductive ValueFault where
  /-- The text is no number, no setting, or no set of sides. -/
  | unreadable
  /-- A length is below zero. -/
  | negativeLength
  /-- A number does not fit into a byte. -/
  | notAByte
  /-- A number has more digits than are ever written. -/
  | tooManyDigits
  /-- A file name holds a character that ends names. -/
  | nullInName
  /-- A title holds a surrogate, counted from the first one, at the given place. -/
  | surrogateInTitle (n : Fin 0x800) (place : Nat)

/-- The text of a value fault, where one is ever shown. -/
def ValueFault.message : ValueFault → String
  | .unreadable | .negativeLength => ""
  | .notAByte => "bytes must be in range(0, 256)"
  | .tooManyDigits =>
      "Exceeds the limit (4300 digits) for integer string conversion; "
        ++ "use sys.set_int_max_str_digits() to increase the limit"
  | .nullInName => "embedded null byte"
  | .surrogateInTitle n place =>
      "'utf-16-le' codec can't encode character '\\u" ++ (hex 4 (0xd800 + n.val)).toLower
        ++ s!"' in position {place}: surrogates not allowed"

/-- Why a number is too large for its use. -/
inductive RangeFault where
  /-- A length. -/
  | length
  /-- A least number of repetitions. -/
  | repetition
  /-- An offset. -/
  | offset

/-- The text of a range fault. -/
def RangeFault.message : RangeFault → String
  | .length => "cannot fit 'int' into an index-sized integer"
  | .repetition => "the repetition number is too large"
  | .offset => "Python int too large to convert to C ssize_t"

/-- Why a file cannot be opened. -/
inductive FileFault where
  /-- There is no such file. -/
  | absent
  /-- There is such a file already. -/
  | present
  /-- A part of the path that is not the last is no directory. -/
  | notADirectory
  /-- The path is a directory. -/
  | isADirectory
  deriving DecidableEq

/-- The number and the words for a file fault. -/
def FileFault.message : FileFault → String
  | .absent => "[Errno 2] No such file or directory"
  | .present => "[Errno 17] File exists"
  | .notADirectory => "[Errno 20] Not a directory"
  | .isADirectory => "[Errno 21] Is a directory"

/-! ### Faults of operations -/

/-- Why an operation gave up. -/
inductive Fault where
  /-- A caller gave up with a text of its own. -/
  | aborted (text : String)
  | image (cause : ImageFault)
  | store (cause : StoreFault)
  /-- A write to the disk surface takes whole reports only. -/
  | partialReport (size : Nat)
  /-- An action on a flash dump lacks its slot or its file. -/
  | missingArgument (action : String)
  | format (cause : FormatFault)
  /-- The framed blocks are longer than the layout may be. -/
  | layoutFull (shortfall : Int)
  /-- A block is longer than what is left of the output. -/
  | outputFull (shortfall : Int)
  /-- No gap ends after the offset. -/
  | gapNotFound (offset : Int)
  /-- The disk is full before all is written. -/
  | diskFull
  /-- A report of the named kind could not be sent or received. -/
  | report (code : Int) (reason : String)
  | block (cause : BlockFault)
  /-- A file cannot be opened. The name is given in quotes. -/
  | file (cause : FileFault) (quoted : String)
  /-- A number is below the least one allowed. -/
  | belowLeast (least : Int)
  | value (cause : ValueFault)
  | range (cause : RangeFault)
  /-- A place that does not exist was looked up. -/
  | noSuchPlace
  /-- A key that does not exist was looked up. -/
  | noSuchKey
  /-- A number was divided by zero. -/
  | dividedByZero
  /-- The operation is not offered. -/
  | notOffered
  /-- There is no name where one has to be taken apart. -/
  | missingName
  /-- There is no path or number where one has to be used. -/
  | missingOperand
  /-- Fields cannot be packed into, or taken from, a record. -/
  | recordMismatch

namespace Fault

/-- The name of a report kind, or its code when it has no name. -/
def reportName (code : Int) : String :=
  match code with
  | 0x10 => "ReadIO"
  | 0x11 => "DiskReadStart"
  | 0x12 => "DiskRead"
  | 0x13 => "DiskWriteStart"
  | 0x14 => "DiskWrite"
  | 0x01 => "SpiRead"
  | 0x02 => "SpiReadStop"
  | 0x03 => "SpiWrite"
  | 0xf0 => "Reset"
  | 0xf1 => "UpdateFirmware"
  | 0xf2 => "SelfTest"
  | _ => "0x" ++ (hex 2 code).toLower

/-- The text of a fault. -/
def message : Fault → String
  | .aborted text => text
  | .image cause => cause.message
  | .store cause => cause.message
  | .partialReport size => s!"Disk writes must be {size} bytes"
  | .missingArgument action => s!"{action}: Action requires a slot and a file"
  | .format cause => cause.message
  | .layoutFull n => s!"Out of space ({n} bytes short), reduce gap size or file count"
  | .outputFull n => (SpacingFault.noRoom n).message
  | .gapNotFound offset => s!"No gap found after symbol offset {offset}"
  | .diskFull => "Write error (disk full?)"
  | .report code reason => s!"{reportName code}: {reason}"
  | .block cause => cause.message
  | .file cause quoted => s!"{cause.message}: {quoted}"
  | .belowLeast least => s!"must be {least} or greater"
  | .value cause => cause.message
  | .range cause => cause.message
  | .missingName => "'list' object has no attribute 'split'"
  | .noSuchPlace | .noSuchKey | .dividedByZero | .notOffered | .missingOperand
  | .recordMismatch => ""

end Fault

end FamicomDisk
