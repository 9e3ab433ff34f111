import Stacklet.Cli.Session

/-! # Files in memory

A small file system: directories and files with their bytes and one bit that says whether they may
be executed. Paths are resolved step by step, so a step through something that is no directory
fails as it would on a disk.
-/

namespace Stacklet.Sandbox

open Cli (OsError)

/-- The names from the root to an entry. -/
abbrev Path := List String

/-- What a path leads to. -/
inductive Entry where
  | directory
  | file (content : ByteArray) (executable : Bool)

/-- The entries of a file system below its root, which is a directory. -/
structure Files where
  entries : List (Path × Entry)

namespace Files

/-- The entry at a path. -/
def find? (files : Files) (path : Path) : Option Entry :=
  if path = [] then some .directory
  else (files.entries.find? (·.1 = path)).map (·.2)

/-- Puts an entry at a path, in the place of the one that is there. -/
def insert (files : Files) (path : Path) (entry : Entry) : Files :=
  if files.entries.any (·.1 = path) then
    ⟨files.entries.map fun old => if old.1 = path then (path, entry) else old⟩
  else ⟨files.entries ++ [(path, entry)]⟩

/-- Creates the directories on the way to a path that are not there yet. -/
def makeParents (files : Files) (path : Path) : Files :=
  (List.range path.length).foldl (fun files count =>
    match files.find? (path.take count) with
    | some _ => files
    | none => files.insert (path.take count) .directory) files

/-- Fails unless a path leads to a directory. -/
def checkDirectory (files : Files) (path : Path) : Except OsError Unit :=
  match files.find? path with
  | some .directory => .ok ()
  | some (.file ..) => .error .notDirectory
  | none => .error .notFound

/-- Follows the names of a relative path from a directory. -/
def walk (files : Files) : (here : Path) → List String → Except OsError Path
  | here, [] => .ok here
  | here, name :: rest => do
    files.checkDirectory here
    if name = "" || name = "." then files.walk here rest
    else if name = ".." then files.walk here.dropLast rest
    else files.walk (here ++ [name]) rest

/-- Where a path given in the directory `here` leads. Nothing is found under absolute paths, nor
under the empty one. -/
def resolve (files : Files) (here : Path) (path : String) : Except OsError Path :=
  if path = "" || path.startsWith "/" then .error .notFound
  else files.walk here (path.splitOn "/")

/-- The bytes of a file. -/
def read (files : Files) (path : Path) : Except OsError ByteArray :=
  match files.find? path with
  | some (.file content _) => .ok content
  | some .directory => .error .isDirectory
  | none => .error .notFound

/-- Writes a file, which stays executable if it was. -/
def write (files : Files) (path : Path) (content : ByteArray) : Except OsError Files :=
  match files.find? path with
  | some .directory => .error .isDirectory
  | some (.file _ executable) => .ok (files.insert path (.file content executable))
  | none => do
    files.checkDirectory path.dropLast
    return files.insert path (.file content false)

/-- Marks an entry as executable; directories already are. -/
def markExecutable (files : Files) (path : Path) : Except OsError Files :=
  match files.find? path with
  | some .directory => .ok files
  | some (.file content _) => .ok (files.insert path (.file content true))
  | none => .error .notFound

end Files

/-- Files and what was written to the terminal. -/
structure World where
  files : Files
  output : String
  errors : String

end Stacklet.Sandbox
