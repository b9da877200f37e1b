import FamicomDisk.Command.Run

/-!
# The program

The files that the command line may name are read, the command is run on them, and what it changed is
written back.
-/

open FamicomDisk

/-- The paths that words may name: each word, without the options behind a file name. -/
def namedPaths (words : List String) : List String :=
  words.map fun word => (Options.splitName word).1

/-- The folders that a path goes through, as far as they are there. -/
def foldersOn (path : String) : IO (List Location) := do
  let names := (Files.names path).filter fun name => name ≠ "" ∧ name ≠ "."
  let l := if path.startsWith "/" then Files.root ++ names else names
  (Files.above l).filterM fun l => do
    let place := Files.path l
    if place.isEmpty then pure false else (System.mkFilePath [place]).isDir

/-- The files that the paths name, and the folders around them. -/
def loadFiles (paths : List String) : IO Files := do
  let mut files : List (String × List UInt8) := []
  let mut folders : List Location := []
  for path in paths do
    folders := folders ++ (← foldersOn path)
    let place := System.mkFilePath [path]
    if (← place.pathExists) && !(← place.isDir) then
      files := files ++ [(path, (← IO.FS.readBinFile place).toList)]
  let fs := Files.ofList files
  return { fs with folders := (fs.folders ++ folders).eraseDups }

/-- Write the files that differ, and remove those that are gone. -/
def storeFiles (before after : Files) : IO Unit := do
  for (l, content) in after.files do
    unless before.content? l = some content do
      IO.FS.writeBinFile (System.mkFilePath [Files.path l]) ⟨content.toArray⟩
  for (l, _) in before.files do
    if (after.content? l).isNone then IO.FS.removeFile (System.mkFilePath [Files.path l])

/-- A time in seconds with two places. -/
def seconds (milliseconds : Nat) : String :=
  let hundredths := (milliseconds + 5) / 10
  let rest := hundredths % 100
  s!"{hundredths / 100}." ++ (if rest < 10 then s!"0{rest}" else s!"{rest}")

def main (words : List String) : IO UInt32 := do
  let files ← loadFiles (namedPaths words)
  let start ← IO.monoMsNow
  let outcome := Command.run "fds" words files
  storeFiles files outcome.files
  let outcome := outcome.tellTime (seconds ((← IO.monoMsNow) - start))
  IO.print outcome.out
  IO.eprint outcome.err
  match outcome.ending with
  | .returned code | .refused code => return UInt32.ofNat code
  | .raised fault =>
      IO.eprintln fault.message
      return 1
