/-
  ExpertRouting.Files — files as a value.

  `Files` says what is at each place: nothing, a folder, or a file with its bytes. To walk
  a path, every part but the last must lead to a folder that exists. Names and paths have
  a longest size in bytes, and no path holds the zero character.

  Reading, creating and making folders fail with a cause (`FileError`) and then change
  nothing else.
-/

import ExpertRouting.Files.Path

namespace ExpertRouting

inductive FileError where
  | notFound
  | notFolder
  | isFolder
  | tooLong
  /-- The path holds the zero character, so it is no path to the system. -/
  | zeroByte
  deriving DecidableEq, Repr

def FileError.message : FileError → String
  | .notFound => "No such file or directory (os error 2)"
  | .notFolder => "Not a directory (os error 20)"
  | .isFolder => "Is a directory (os error 21)"
  | .tooLong => "File name too long (os error 36)"
  | .zeroByte => "file name contained an unexpected NUL byte"

namespace Path

def longestName : Nat := 255

def longestPath : Nat := 4095

/-- Why a path is refused before anything is looked for. -/
def refused? (p : Path) : Option FileError :=
  if p.text.toList.contains '\x00' then some .zeroByte
  else if longestPath < p.text.utf8ByteSize then some .tooLong
  else none

end Path

inductive Entry where
  | folder
  | file (bytes : List UInt8)
  deriving DecidableEq, Repr

/-- What is at each place beyond its base. -/
structure Files where
  entry : Place → Option Entry

namespace Files

def empty : Files := ⟨fun _ => none⟩

def at? (fs : Files) (p : Place) : Option Entry := if p.isBase then some .folder else fs.entry p

def put (fs : Files) (p : Place) (e : Entry) : Files := ⟨fun q => if q = p then some e else fs.entry q⟩

def under (folder : Place) (name : String) : Except FileError Place :=
  if Path.longestName < name.utf8ByteSize then .error .tooLong else .ok (folder.child name)

def enter (fs : Files) (folder : Place) : Part → Except FileError Place
  | .here => .ok folder
  | .up => .ok folder.up
  | .name n => do
    let place ← under folder n
    match fs.at? place with
    | some .folder => .ok place
    | some (.file _) => .error .notFolder
    | none => .error .notFound

def walk (fs : Files) (folder : Place) : List Part → Except FileError Place
  | [] => .ok folder
  | p :: rest => do walk fs (← fs.enter folder p) rest

def inside (fs : Files) (p : Path) : Except FileError Place :=
  match p.refused? with
  | some e => .error e
  | none => fs.walk p.start p.parts.dropLast

/-- The place a path names, whether or not anything is there. The path of no characters
    names nothing. -/
def locate (fs : Files) (p : Path) : Except FileError Place := do
  let folder ← fs.inside p
  match p.parts.getLast? with
  | none => if p.folder then .ok folder else .error .notFound
  | some .here => .ok folder
  | some .up => .ok folder.up
  | some (.name n) => under folder n

def find (fs : Files) (p : Path) : Except FileError Entry := do
  match fs.at? (← fs.locate p) with
  | none => .error .notFound
  | some .folder => .ok .folder
  | some (.file bytes) => if p.folder then .error .notFolder else .ok (.file bytes)

def isFolder (fs : Files) (p : Path) : Bool :=
  match fs.find p with
  | .ok .folder => true
  | _ => false

def missing (fs : Files) (p : Path) : Bool :=
  match fs.find p with
  | .error _ => true
  | .ok _ => false

def read (fs : Files) (p : Path) : Except FileError (List UInt8) := do
  match ← fs.find p with
  | .folder => .error .isFolder
  | .file bytes => .ok bytes

/-- The place of a file that may be written from its beginning. A path that can only name a
    folder is refused whatever is there. -/
def creatable (fs : Files) (p : Path) : Except FileError Place := do
  if p.folder then
    let _ ← fs.inside p
    .error .isFolder
  else
    let place ← fs.locate p
    match fs.at? place with
    | some .folder => .error .isFolder
    | _ => .ok place

def write (fs : Files) (p : Path) (bytes : List UInt8) : Except FileError Files := do
  return fs.put (← fs.creatable p) (.file bytes)

/-- Makes the folders along a walk. What was made before a failure stays. -/
def makeFoldersFrom (fs : Files) (folder : Place) : List Part → Files × Except FileError Unit
  | [] => (fs, .ok ())
  | p :: rest =>
    match fs.enter folder p, p with
    | .ok next, _ => makeFoldersFrom fs next rest
    | .error .notFound, .name n => makeFoldersFrom (fs.put (folder.child n) .folder) (folder.child n) rest
    | .error e, _ => (fs, .error e)

def makeFolders (fs : Files) (p : Path) : Files × Except FileError Unit :=
  match p.refused? with
  | some e => (fs, .error e)
  | none => fs.makeFoldersFrom p.start p.parts

/-- Makes the folders a file is to be in, then writes it from its beginning, empty. -/
def openForTrace (fs : Files) (p : Path) : Files × Except FileError Place :=
  match fs.makeFolders p.parent with
  | (fs, .error e) => (fs, .error e)
  | (fs, .ok ()) =>
    match fs.creatable p with
    | .error e => (fs, .error e)
    | .ok place => (fs.put place (.file []), .ok place)

end Files

end ExpertRouting
