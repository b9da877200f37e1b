import FamicomDisk.Action
import FamicomDisk.Text.Quoted
import FamicomDisk.Text.Split

/-!
# Files

The files that a command reads and writes lie in folders under one place. A path is a sequence of
names with slashes between them.

* `Files`: the files and folders. `Files.ofList` makes the folders that files need.
* `Files.locate`: what a path leads to.
* `Files.read`, `Files.isPresent`: reading.
* `Files.create`, `Files.put`, `Files.remove`: writing.
-/

namespace FamicomDisk

/-- A place, as the names of folders that lead to it. It begins with a slash if it is told from the
root, and with double dots if it lies outside of the working folder. -/
abbrev Location := List String

/-- Files and folders. -/
structure Files where
  files : List (Location × List UInt8) := []
  folders : List Location := [[]]

/-- What a path leads to. -/
inductive Node where
  | folder
  | file (location : Location) (content : List UInt8)
  /-- Nothing, in a folder. -/
  | vacant (location : Location)

namespace Files

/-- The names of a path. An empty name stands where a slash begins or ends the path. -/
def names (path : String) : List String := (Text.split '/' path.toList).map String.ofList

/-- The content of a file. -/
def content? (fs : Files) (l : Location) : Option (List UInt8) :=
  (fs.files.find? (·.1 = l)).map Prod.snd

/-- The root of all places. -/
def root : Location := ["/"]

/-- Whether a place is a folder. The root and the folders around the working folder always are. -/
def isFolder (fs : Files) (l : Location) : Bool :=
  l ∈ fs.folders || l == root || l.all (· == "..")

/-- The folder around a folder. -/
def parent (l : Location) : Location :=
  if l = root then root
  else if l.all (· = "..") then l ++ [".."]
  else l.dropLast

/-- What stands at a place in a folder. -/
def node (fs : Files) (l : Location) : Node :=
  if fs.isFolder l then .folder
  else
    match fs.content? l with
    | some content => .file l content
    | none => .vacant l

/-- What names lead to from a folder. -/
def walk (fs : Files) : Location → List String → Except FileFault Node
  | l, [] => pure (fs.node l)
  | l, name :: rest =>
      if name = "" ∨ name = "." then walk fs l rest
      else if name = ".." then walk fs (parent l) rest
      else
        match fs.node (l ++ [name]), rest with
        | node, [] => pure node
        | .folder, _ => walk fs (l ++ [name]) rest
        | .file .., _ => throw .notADirectory
        | .vacant l', _ =>
            -- A name that only slashes follow is still the last one.
            if rest.all (· = "") then pure (.vacant l') else throw .absent

/-- What a path leads to. -/
def locate (fs : Files) (path : String) : Except FileFault Node :=
  match names path with
  | [] | [""] => throw .absent
  | "" :: ns => fs.walk root ns
  | ns => fs.walk [] ns

/-- The fault of a path. -/
def fault (path : String) (cause : FileFault) : Fault := .file cause (Text.quoted path)

/-- Whether a path can be one. -/
def checkPath (path : String) : Except Fault Unit :=
  if path.toList.contains (Char.ofNat 0) then throw (.value .nullInName) else pure ()

/-- Whether a path leads to a file or a folder. -/
def isPresent (fs : Files) (path : String) : Bool :=
  if path.toList.contains (Char.ofNat 0) then false
  else
    match fs.locate path with
    | .ok .folder | .ok (.file ..) => true
    | _ => false

/-- The content of a file. -/
def read (fs : Files) (path : String) : Except Fault (List UInt8) := do
  checkPath path
  match fs.locate path with
  | .ok (.file _ content) => pure content
  | .ok .folder => throw (fault path .isADirectory)
  | .ok (.vacant _) => throw (fault path .absent)
  | .error cause => throw (fault path cause)

/-- The files with the given content at a place. -/
def store (fs : Files) (l : Location) (content : List UInt8) : Files :=
  if (fs.content? l).isSome then
    { fs with files := fs.files.map fun f => if f.1 = l then (l, content) else f }
  else { fs with files := fs.files ++ [(l, content)] }

/-- The files without the one at a place. -/
def discard (fs : Files) (l : Location) : Files :=
  { fs with files := fs.files.filter (·.1 ≠ l) }

/-- Make a file empty, or a new empty file. With `exclusive` the file may not be there yet. -/
def create (path : String) (exclusive : Bool) : Action Files Unit := do
  checkPath path
  let fs ← get
  match fs.locate path with
  | .ok (.file l _) =>
      if exclusive then throw (fault path .present) else set (fs.store l [])
  | .ok .folder => throw (fault path (if exclusive then .present else .isADirectory))
  | .ok (.vacant l) =>
      if path.endsWith "/" then throw (fault path .isADirectory) else set (fs.store l [])
  | .error cause => throw (fault path cause)

/-- Give a file that was created its content. -/
def put (path : String) (content : List UInt8) : Action Files Unit := do
  let fs ← get
  match fs.locate path with
  | .ok (.file l _) => set (fs.store l content)
  | _ => throw (fault path .absent)

/-- Remove a file. -/
def remove (path : String) : Action Files Unit := do
  let fs ← get
  match fs.locate path with
  | .ok (.file l _) => set (fs.discard l)
  | _ => throw (fault path .absent)

/-- The places above a place, and the place itself. -/
def above (l : Location) : List Location := (List.range (l.length + 1)).map (l.take ·)

/-- The files with the given paths, and the folders that they need. -/
def ofList (files : List (String × List UInt8)) : Files :=
  files.foldl
    (fun fs (path, content) =>
      let inside := (names path).filter fun name => name ≠ "" ∧ name ≠ "."
      let l := if path.startsWith "/" then root ++ inside else inside
      { fs.store l content with folders := (fs.folders ++ above l.dropLast).eraseDups })
    {}

/-- The path of a place. -/
def path : Location → String
  | "/" :: l => "/" ++ "/".intercalate l
  | l => "/".intercalate l

/-- Whether a place lies in the working folder. -/
def isInside (l : Location) : Bool := l.head? != some "/" && l.head? != some ".."

/-- The paths and the content of the files in the working folder. -/
def toList (fs : Files) : List (String × List UInt8) :=
  (fs.files.filter fun f => isInside f.1).map fun (l, content) => (path l, content)

end Files

end FamicomDisk
