import FamicomDisk.Capture.Known
import FamicomDisk.DiskImage
import FamicomDisk.Flash.Store
import FamicomDisk.GameDoctor
import FamicomDisk.Image.Options
import FamicomDisk.Recovery.Assembly
import FamicomDisk.Text.Columns

/-!
# Images

An image is a file that holds the sides of a disk in one of four formats, told by the suffix of its
name. Options say how it is read and written.

* `Format`: the formats. `Format.ofFileName` is the format of a file.
* `Image`: an image, its options and its sides.
* `Image.setReadOption`, `Image.setWriteOption`: set an option. An option that does not exist, or whose
  value has no meaning, is refused; a lead-in below zero is refused after it was set.
* `Image.load` takes the sides from the bytes of a file, `Image.bytes` makes the bytes of a file.
-/

namespace FamicomDisk

/-- The formats of images. -/
inductive Format where
  /-- A disk image. -/
  | diskImage
  /-- A layout, or a dump of slots. -/
  | layout
  /-- A Game Doctor dump. -/
  | gameDoctor
  /-- A capture of one side. -/
  | capture
  deriving DecidableEq

namespace Format

/-- All formats, in the order of their suffixes. -/
def all : List Format := [.layout, .diskImage, .gameDoctor, .capture]

/-- What a format is called. -/
def name : Format → String
  | .diskImage => "FDS"
  | .layout => "BIN"
  | .gameDoctor => "GameDoctor"
  | .capture => "RAW"

/-- The suffix of files in a format. -/
def suffix : Format → String
  | .diskImage => ".fds"
  | .layout => ".bin"
  | .gameDoctor => ".gd"
  | .capture => ".raw"

/-- The suffixes of all formats, as they are listed. -/
def listing : String :=
  match Text.columns (all.map suffix) 80 2 with
  | .ok text => text
  | .error _ => ""

/-- The format of a file, told by its suffix in upper or lower case. -/
def ofFileName (file : String) : Except Fault Format :=
  let suffix := Text.suffix file.toList
  match all.find? (·.suffix = String.ofList (Text.lower suffix)) with
  | some f => pure f
  | none => throw (.image (.unknownSuffix file (String.ofList suffix) listing))

/-- Whether files of a format can be read only. -/
def isReadOnly : Format → Bool
  | .gameDoctor => true
  | _ => false

/-- The options for reading. -/
def readOptions : Format → List String
  | .capture => ["mode", "thresholds"]
  | _ => []

/-- The options for writing. -/
def writeOptions : Format → List String
  | .diskImage => ["header"]
  | .layout => ["header", "name"]
  | .gameDoctor => []
  | .capture => ["lead_in"]

end Format

/-- The ways to read a capture. -/
inductive Mode where
  /-- As a standard disk, or by recovering its layout if that does not work without a fault. -/
  | auto
  /-- As a standard disk. -/
  | known
  /-- By recovering its layout. -/
  | heuristic
  deriving DecidableEq

namespace Mode

/-- All modes, in the order in which they are listed. -/
def all : List Mode := [.auto, .known, .heuristic]

/-- What a mode is called. -/
def name : Mode → String
  | .auto => "auto"
  | .known => "known"
  | .heuristic => "heuristic"

/-- The mode of a name. -/
def ofName? (s : String) : Option Mode := all.find? (·.name = s)

end Mode

/-- The options of an image, by format. -/
inductive Settings where
  /-- Whether a header is written. -/
  | diskImage (header : Bool)
  /-- Whether slots are written, and the title in the first one. -/
  | layout (header : Bool) (title : Option String)
  | gameDoctor
  /-- How a capture is read, and the lead-in of one that is written. -/
  | capture (mode : Mode) (thresholds : Thresholds) (leadIn : Option Int)

namespace Settings

/-- The options of a format when none was set. -/
def usual : Format → Settings
  | .diskImage => .diskImage false
  | .layout => .layout false none
  | .gameDoctor => .gameDoctor
  | .capture => .capture .auto {} none

/-- The format that options are for. -/
def format : Settings → Format
  | .diskImage _ => .diskImage
  | .layout .. => .layout
  | .gameDoctor => .gameDoctor
  | .capture .. => .capture

@[simp] theorem format_usual (f : Format) : (usual f).format = f := by cases f <;> rfl

end Settings

/-- An image. -/
structure Image where
  /-- The name of its file. -/
  file : String
  settings : Settings
  sides : List Side := []
  /-- The layout that was recovered from a capture, if it was. -/
  recovered : Option Recovered := none

namespace Image

/-- An image without sides. -/
def new (format : Format) (file : String) : Image := { file, settings := .usual format }

/-- The format of an image. -/
def format (i : Image) : Format := i.settings.format

/-- Add a side. -/
def addSide (i : Image) (s : Side) : Image := { i with sides := i.sides ++ [s] }

/-! ### Options -/

/-- Set a yes-or-no option. -/
def setSwitch (option value : String) (put : Bool → Settings) : Action Image Unit := do
  let on ← Switch.read (← get).format.name option (.written value)
  modify fun i => { i with settings := put on }

/-- Give an option of the format its value. -/
def assign (option value : String) : Action Image Unit := do
  match (← get).settings, option with
  | .diskImage _, "header" => setSwitch option value .diskImage
  | .layout _ title, "header" => setSwitch option value fun on => .layout on title
  | .layout header _, "name" =>
      modify fun i => { i with settings := .layout header (some value) }
  | .capture _ thresholds leadIn, "mode" =>
      match Mode.ofName? value with
      | some mode => modify fun i => { i with settings := .capture mode thresholds leadIn }
      | none => throw (.image (.invalidMode value (Mode.all.map Mode.name)))
  | .capture mode _ leadIn, "thresholds" =>
      let spec := value.toList.map fun c => if c = ',' then ':' else c
      match Thresholds.parse? (String.ofList spec) with
      | some thresholds => modify fun i => { i with settings := .capture mode thresholds leadIn }
      | none => throw (.image (.invalidThresholds value))
  | .capture mode thresholds _, "lead_in" =>
      match Text.readInt? value with
      | some n =>
          modify fun i => { i with settings := .capture mode thresholds (some n) }
          if n < 0 then throw (.image (.invalidLeadIn value))
      | none => throw (.image (.invalidLeadIn value))
  | _, _ => pure ()

/-- Set an option that is among those known. -/
def setOption (known : List String) (option value : String) : Action Image Unit := do
  if option ∈ known then assign option value
  else throw (.image (.unknownOption (← get).file option known))

/-- Set an option for reading. -/
def setReadOption (option value : String) : Action Image Unit := do
  setOption (← get).format.readOptions option value

/-- Set an option for writing. -/
def setWriteOption (option value : String) : Action Image Unit := do
  setOption (← get).format.writeOptions option value

/-- Set options for reading, in order, up to the first that is refused. -/
def setReadOptions (options : Options) : Action Image Unit :=
  options.forM fun (option, value) => setReadOption option value

/-- Set options for writing, in order, up to the first that is refused. -/
def setWriteOptions (options : Options) : Action Image Unit :=
  options.forM fun (option, value) => setWriteOption option value

/-- Set the thresholds of a capture. -/
def setThresholds (i : Image) (thresholds : Thresholds) : Image :=
  match i.settings with
  | .capture mode _ leadIn => { i with settings := .capture mode thresholds leadIn }
  | _ => i

/-! ### Reading -/

/-- The sides of a dump that follow those of the image: one for each slot that is not empty. -/
def loadDump (i : Image) (dat : List UInt8) : Except Fault Image := do
  let flash := Flash.ofDump dat
  let headers ← flash.headers
  let found ← (headers.zipIdx.filter fun (h, _) => !h.isEmpty).mapM fun (_, slot) => do
    pure (← flash.side slot).2
  let sides := i.sides ++ found
  if sides.isEmpty then throw (.image (.noSidesFound i.file))
  pure { i with sides }

/-- The side of a capture whose layout is recovered. -/
def loadRecovered (i : Image) (dat : List UInt8) (thresholds : Thresholds) :
    Except Fault Image := do
  let r ← Recovery.ofRaw dat thresholds
  let side ← Layout.walk r.layout
  pure { i with sides := [{ side with diagnostics := r.diagnostics }], recovered := some r }

/-- The image with the sides that the bytes of its file hold, and the lines that tell of it. -/
def load (i : Image) (dat : List UInt8) : List String × Except Fault Image :=
  match i.settings with
  | .diskImage _ => ([], do pure { i with sides := ← DiskImage.read dat })
  | .gameDoctor => ([], do pure { i with sides := [← GameDoctor.read dat] })
  | .layout .. =>
      if Flash.isDump dat then ([], i.loadDump dat)
      else ([], do pure { i with sides := [← Layout.walk dat] })
  | .capture .heuristic thresholds _ => ([], i.loadRecovered dat thresholds)
  | .capture mode thresholds _ =>
      match Capture.sideOfRaw dat with
      | .error f => ([], throw f)
      | .ok side =>
          if mode = .known ∨ (side.blocks ≠ [] ∧ side.diagnostics = []) then
            ([], pure { i with sides := [side] })
          else
            ([s!"RAW: {side.summary}: Reconstructing disk layout"], i.loadRecovered dat thresholds)

/-! ### Writing -/

/-- The title of a dump: the option, or else the name of the file. -/
def dumpTitle (i : Image) (title : Option String) : String :=
  match title with
  | none | some "" => String.ofList (Text.baseName i.file.toList)
  | some t => t

/-- The bytes of the file of an image. -/
def bytes (i : Image) : Except Fault (List UInt8) :=
  match i.settings with
  | .diskImage header =>
      if i.sides.isEmpty then throw (.image (.noSides i.format.name))
      else DiskImage.write i.sides header
  | .gameDoctor => throw .notOffered
  | .layout header title =>
      if i.sides.isEmpty then throw (.image (.noSides i.format.name))
      else if header then
        let (result, flash) :=
          (Flash.writeSides 0 (i.dumpTitle title) i.sides).perform (Flash.erased i.sides.length)
        result.map fun _ => flash.bytes
      else
        match i.sides with
        | [side] =>
            match side.layout with
            | some layout => pure layout
            | none => Layout.frame side
        | _ => throw (.image .bareNeedsOneSide)
  | .capture _ _ leadIn =>
      match i.sides with
      | [side] => Capture.ofSide side leadIn
      | _ => throw (.image .captureNeedsOneSide)

end Image

end FamicomDisk
