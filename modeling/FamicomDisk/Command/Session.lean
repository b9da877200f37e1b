import FamicomDisk.Files
import FamicomDisk.Image.Basic

/-!
# Sessions

A command works on files and prints lines. What it has printed and written before a fault stays.

* `Session`: the files, and the lines printed.
* `Image.ofFile`: read an image from its file.
* `Image.forFile`, `Image.writeFile`: write an image to its file. The file is made before the image is
  filled; it is removed again if the filling fails.
* `Side.print`: list a side.
-/

namespace FamicomDisk

/-- The files a command works on, and what it has printed. -/
structure Session where
  files : Files := {}
  /-- The lines printed, newest first. -/
  lines : List String := []

namespace Session

/-- The text that was printed. -/
def text (s : Session) : String := String.join (s.lines.reverse.map (· ++ "\n"))

/-- Print a line. -/
def print (line : String) : Action Session Unit :=
  modify fun s => { s with lines := line :: s.lines }

/-- Act on the files. -/
def onFiles {α : Type} (x : Action Files α) : Action Session α := do
  let (result, files) := x.perform (← get).files
  modify fun s => { s with files }
  Action.ofExcept result

/-- The content of a file. -/
def readFile (path : String) : Action Session (List UInt8) := do
  Action.ofExcept ((← get).files.read path)

/-- Write a file anew. -/
def writeFile (path : String) (content : List UInt8) : Action Session Unit := do
  onFiles (Files.create path false)
  onFiles (Files.put path content)

end Session

open Session (print onFiles)

namespace Image

/-- The image in a file, read with the given options. -/
def ofFile (format : Format) (file : String) (options : Options) : Action Session Image := do
  let (result, image) := (setReadOptions options).perform (new format file)
  Action.ofExcept result
  let (lines, result) := image.load (← Session.readFile file)
  lines.forM print
  Action.ofExcept result

/-- An image that is to be written with the given options. -/
def forFile (format : Format) (file : String) (options : Options) : Except Fault Image := do
  if format.isReadOnly then throw (.image (.readOnly file format.name))
  let (result, image) := (setWriteOptions options).perform (new format file)
  result
  pure image

/-- Make the file of an image, fill the image and write it. With `exclusive` the file may not be there
yet. If the filling fails, the file is removed; if only the bytes of the image cannot be made, it
stays empty. -/
def writeFile (image : Image) (exclusive : Bool) (fill : Image → Action Session Image) :
    Action Session Unit := do
  onFiles (Files.create image.file exclusive)
  let image ← tryCatch (fill image) fun fault => do
    onFiles (Files.remove image.file)
    throw fault
  let content ← Action.ofExcept image.bytes
  onFiles (Files.put image.file content)

end Image

/-- List a side: a line for the side, with `withBlocks` one for each block, and one for each fault. -/
def Side.print (title : String) (s : Side) (withBlocks : Bool) : Action Session Unit := do
  Session.print s!"{title}: {s.summary}"
  if withBlocks then
    s.blocks.forM fun b => do
      let text ← Action.ofExcept b.describe
      Session.print s!"{title}:   {text}"
  s.diagnostics.forM fun f => Session.print s!"{title}: WARNING: {f.message}"

/-- What a side of a disk is called, counted from zero. -/
def Side.title (i : Nat) : String := s!"Side {i + 1}"

end FamicomDisk
