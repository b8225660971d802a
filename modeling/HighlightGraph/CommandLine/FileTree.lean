import HighlightGraph.CommandLine.Path
import HighlightGraph.Table
import HighlightGraph.Value.Display
/-!
# File trees

The files around a working directory, reading one and writing one. Of the surroundings of the
working directory nothing is known but what every system has: the directories above it, the root of
the system with its usual directories, and the null device.
-/

namespace HighlightGraph.CommandLine

inductive FileError where
  | notFound
  | denied
  | isADirectory
  | notADirectory
  | nameTooLong
deriving DecidableEq

def FileError.message (path : String) (e : FileError) : String :=
  let cause :=
    match e with
    | notFound => "[Errno 2] No such file or directory: "
    | denied => "[Errno 13] Permission denied: "
    | isADirectory => "[Errno 21] Is a directory: "
    | notADirectory => "[Errno 20] Not a directory: "
    | nameTooLong => "[Errno 36] File name too long: "
  cause ++ Text.displayString (Path.ofString path).toString

/-! ## Places -/

/-- A place: the names that lead to it from the working directory. A place above the working
directory begins with a pair of dots for each level, a place below the root of the system with a
slash. -/
abbrev Place := List String

namespace Place

/-- The place one level up. Nothing is above the root of the system. -/
def parent (place : Place) : Place :=
  match place.getLast? with
  | none => [".."]
  | some name =>
    if name = ".." then place ++ [".."]
    else if name = "/" then place
    else place.dropLast

def systemDirectories : List String :=
  ["bin", "boot", "dev", "etc", "home", "lib", "media", "mnt", "opt", "proc", "root", "run", "sbin",
    "srv", "sys", "tmp", "usr", "var"]

/-- The file that is always empty, whatever is written to it. -/
def nullDevice : Place := ["/", "dev", "null"]

/-- Whether a place is the working directory, a directory above it, the root of the system or a
directory right below this root. -/
def isSurrounding (place : Place) : Bool :=
  match place with
  | ["/"] => true
  | ["/", name] => systemDirectories.contains name
  | place => place.all (· = "..")

end Place

def longestName : Nat := 255

def longestPath : Nat := 4095

/-! ## Trees -/

inductive FileEntry where
  | file (content : ByteArray)
  | directory

/-- A file tree: what stands at each place, its surroundings left out. -/
structure FileTree where
  entries : Table Place FileEntry

namespace FileTree

def empty : FileTree := ⟨.empty⟩

def entry? (t : FileTree) (place : Place) : Option FileEntry :=
  if place.isSurrounding then some .directory
  else if place = Place.nullDevice then some (.file .empty)
  else t.entries.get? place

def follow (t : FileTree) (place : Place) (name : String) : Except FileError Place :=
  match t.entry? place with
  | some .directory =>
    if name = ".." then .ok place.parent
    else if longestName < name.utf8ByteSize then .error .nameTooLong
    else .ok (place ++ [name])
  | some (.file _) => .error .notADirectory
  | none => .error .notFound

def locate (t : FileTree) (path : Path) : Except FileError Place :=
  if longestPath < path.toString.utf8ByteSize then .error .nameTooLong
  else path.parts.foldlM t.follow (if path.root = "" then [] else ["/"])

def read (t : FileTree) (path : String) : Except FileError ByteArray := do
  let place ← t.locate (.ofString path)
  match t.entry? place with
  | some (.file content) => return content
  | some .directory => throw .isADirectory
  | none => throw .notFound

/-- Writes a file at a path: into a directory that is there, and not over a directory. -/
def write (t : FileTree) (path : String) (content : ByteArray) : Except FileError FileTree := do
  let place ← t.locate (.ofString path)
  match t.entry? place with
  | some .directory => throw .isADirectory
  | _ => return ⟨t.entries.insert place (.file content)⟩

end FileTree

end HighlightGraph.CommandLine
