/-
  ExpertRouting.Files.Path — paths and the places they lead to.

  A place is a folder that always exists, its base, and the names that lead on from there.
  The bases are the working folder, the folders above it and the root. The names of the
  folders above are not known, so no name leads from them back to the working folder.

  A path is a text with its parts. A part may stay, step back or enter a name, and which
  place that is depends on what is there, so a path has to be walked.
-/

namespace ExpertRouting

inductive Base where
  /-- So many folders above the working folder, which is none above itself. -/
  | above (n : Nat)
  | root
  deriving DecidableEq, Repr

structure Place where
  base : Base
  /-- The names that lead to the place, outermost first. -/
  names : List String
  deriving DecidableEq, Repr

namespace Place

def working : Place := ⟨.above 0, []⟩

def root : Place := ⟨.root, []⟩

def isBase (p : Place) : Bool := p.names.isEmpty

def child (p : Place) (name : String) : Place := { p with names := p.names ++ [name] }

/-- The folder a place is in. The root is in itself. -/
def up (p : Place) : Place :=
  if p.isBase then
    match p.base with
    | .above n => ⟨.above (n + 1), []⟩
    | .root => root
  else { p with names := p.names.dropLast }

end Place

inductive Part where
  | here
  | up
  | name (n : String)
  deriving DecidableEq, Repr

structure Path where
  text : String
  /-- The base it is walked from. -/
  start : Place
  parts : List Part
  /-- It ends in a slash, so it can only name a folder. -/
  folder : Bool
  deriving DecidableEq, Repr

namespace Path

def part (name : List Char) : Part :=
  if name = ['.'] then .here else if name = ['.', '.'] then .up else .name (String.ofList name)

/-- The pieces between slashes; `piece` holds the current one, newest first. -/
def pieces (piece : List Char) : List Char → List (List Char)
  | [] => [piece.reverse]
  | c :: rest => if c = '/' then piece.reverse :: pieces [] rest else pieces (c :: piece) rest

def ofString (text : String) : Path where
  text
  start := if text.toList.head? == some '/' then .root else .working
  parts := ((pieces [] text.toList).filter (!·.isEmpty)).map part
  folder := text.toList.getLast? == some '/'

instance : Coe String Path := ⟨ofString⟩

def child (p : Path) (name : String) : Path := ofString (p.text ++ (if p.folder then "" else "/") ++ name)

/-- Drops slashes and stays from the end of a path, which is given from its end; a stay up
    front counts. -/
def dropStays : List Char → List Char
  | '/' :: rest => dropStays rest
  | '.' :: '/' :: rest => dropStays rest
  | cs => cs

def parent (p : Path) : Path :=
  let last := dropStays p.text.toList.reverse
  ofString (String.ofList (dropStays (last.dropWhile (· ≠ '/'))).reverse)

end Path

end ExpertRouting
