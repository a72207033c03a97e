/-
  ExpertRouting.Failure — what a command reports when it fails.

  A failure is a list of messages, the widest context first, and at its end perhaps a
  cause from below: the file system, a text that does not decode, or a trace that does
  not parse.
-/

import ExpertRouting.Text.Quoted
import ExpertRouting.Trace.Basic

namespace ExpertRouting

inductive Cause where
  | file (e : FileError)
  | text (fault : Json.Fault)
  | trace (e : Trace.Error)
  deriving DecidableEq, Repr

structure Failure where
  /-- The outermost context. -/
  message : String
  cause : Option Cause := none
  deriving DecidableEq, Repr

namespace Failure

def ofFile (context : String) (path : Path) (e : FileError) : Failure :=
  ⟨context ++ Text.quoted path.text, some (.file e)⟩

def ofText (context : String) (path : Path) (fault : Json.Fault) : Failure :=
  ⟨context ++ Text.quoted path.text, some (.text fault)⟩

end Failure

/-- Decodes the text of a file. Not to find it and not to decode it are told apart, and a
    folder is found. -/
def Files.decode {α : Type} (fs : Files) (path : Path) (notFound notDecoded : String)
    (decode : List Symbol → Except Json.Fault α) : Except Failure α :=
  match fs.find path with
  | .error e => .error (.ofFile notFound path e)
  | .ok .folder => .error (.ofFile notDecoded path .isFolder)
  | .ok (.file bytes) =>
    match decode (Utf8.decode bytes) with
    | .error fault => .error (.ofText notDecoded path fault)
    | .ok a => .ok a

def Files.save (fs : Files) (path : Path) (notCreated : String) (text : List Char) : Except Failure Files :=
  match fs.write path (Utf8.encode text) with
  | .error e => .error (.ofFile notCreated path e)
  | .ok fs => .ok fs

end ExpertRouting
