import SealedLedger.Document

/-!
# Files

The files that a run of the command line may read and write, as a tree of directories. A path is
followed name by name, and every name but the last must lead to a directory. A path has less than
4096 bytes, none of them zero, and each name in it at most 255.

## Main definitions

* `Files` — the files and directories at their paths.
* `Files.read?`, `Files.readText?`, `Files.write?`.
-/

namespace SealedLedger

/-- What stands at a path. -/
inductive FileNode where
  | file (bytes : List UInt8)
  | directory
  deriving DecidableEq

/-- Why a file cannot be read or written. -/
inductive FileError where
  | notFound
  | notDirectory
  | isDirectory
  | nameTooLong
  | zeroByte
  | notText
  deriving DecidableEq

/-- The wording of an error. -/
def FileError.message : FileError → String
  | .notFound => "No such file or directory (os error 2)"
  | .notDirectory => "Not a directory (os error 20)"
  | .isDirectory => "Is a directory (os error 21)"
  | .nameTooLong => "File name too long (os error 36)"
  | .zeroByte => "file name contained an unexpected NUL byte"
  | .notText => "stream did not contain valid UTF-8"

/-- The place of a node: the names on the way to it. That of the root, where absolute paths start,
is a slash alone. -/
abbrev Place := List (List Char)

/-- The files and directories at their places. -/
structure Files where
  nodes : List (Place × FileNode)
  deriving DecidableEq

namespace Files

/-- The place where absolute paths start. -/
def root : Place := [['/']]

/-- What stands at a place. The directory of the run, at the empty place, those around it, at two
points, and the root are always there. -/
def at? (fs : Files) (place : Place) : Option FileNode :=
  if place.all (· = ['.', '.']) ∨ place = root then some .directory
  else (fs.nodes.find? (·.1 == place)).map (·.2)

/-- The tree with a node at a place. -/
def set (fs : Files) (place : Place) (node : FileNode) : Files :=
  if fs.nodes.any (·.1 == place) then
    ⟨fs.nodes.map fun n => if n.1 == place then (place, node) else n⟩
  else ⟨fs.nodes ++ [(place, node)]⟩

/-- The place of a name in a directory. Two points lead back out of a directory that has been
entered. -/
def enter (place : Place) (name : List Char) : Place :=
  if name = ['.'] then place
  else if name = ['.', '.'] then
    if place = root then root
    else if place = [] ∨ place.getLast? = some ['.', '.'] then place ++ [name]
    else place.dropLast
  else place ++ [name]

/-- A name is no longer than a directory can hold. -/
def fits (name : List Char) : Bool :=
  (Utf8.encode name).length ≤ 255

/-- The place that names lead to. Every place on the way must be a directory. -/
def walk (fs : Files) (place : Place) : List (List Char) → Except FileError Place
  | [] => .ok place
  | name :: names =>
    match fs.at? place with
    | none => .error .notFound
    | some (.file _) => .error .notDirectory
    | some .directory => if fits name then fs.walk (enter place name) names else .error .nameTooLong

/-- The names of a path, and the place where it starts. -/
def pathNames (path : String) : Place × List (List Char) :=
  (if path.toList.head? = some '/' then root else [],
    (Document.splitPath path.toList).filter (· ≠ []))

/-- What is wrong with a path before it is followed. -/
def pathFault? (path : String) : Option FileError :=
  if path.toList.contains '\x00' then some .zeroByte
  else if path = "" then some .notFound
  else if 4096 ≤ (utf8 path).length then some .nameTooLong
  else none

/-- The place of a path. -/
def place? (fs : Files) (path : String) : Except FileError Place :=
  match pathFault? path with
  | some e => .error e
  | none => let (start, names) := pathNames path; fs.walk start names

/-- The places that reading a path may look at. -/
def placesOf (path : String) : List Place :=
  if (pathFault? path).isSome then []
  else
    let (start, names) := pathNames path
    let names := names.takeWhile fits
    (List.range (names.length + 1)).map fun n => (names.take n).foldl enter start

/-- The path ends in a slash, so that it can only name a directory. -/
def namesDirectory (path : String) : Bool :=
  path.toList.getLast? == some '/'

/-- The bytes of a file. -/
def read? (fs : Files) (path : String) : Except FileError (List UInt8) :=
  match fs.place? path with
  | .error e => .error e
  | .ok place =>
    match fs.at? place with
    | none => .error .notFound
    | some .directory => .error .isDirectory
    | some (.file bytes) => if namesDirectory path then .error .notDirectory else .ok bytes

/-- The text of a file. -/
def readText? (fs : Files) (path : String) : Except FileError (List Char) :=
  match fs.read? path with
  | .error e => .error e
  | .ok bytes =>
    match Utf8.decode? bytes with
    | some cs => .ok cs
    | none => .error .notText

/-- The place of a path that is to be written. Where the path ends in a slash only a directory can
be meant, and its last name is not looked at. -/
def target? (fs : Files) (path : String) : Except FileError Place :=
  match pathFault? path with
  | some e => .error e
  | none =>
    let (start, names) := pathNames path
    match fs.walk start (if namesDirectory path then names.dropLast ++ [['.']] else names) with
    | .error e => .error e
    | .ok place => if fs.at? place = some .directory then .error .isDirectory else .ok place

/-- The tree after bytes are written to a file. -/
def write? (fs : Files) (path : String) (bytes : List UInt8) : Except FileError Files :=
  (fs.target? path).map fun place => fs.set place (.file bytes)

end Files

end SealedLedger
