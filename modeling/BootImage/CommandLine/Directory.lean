import BootImage.CommandLine.Host
import BootImage.Text.Utf8

/-! Directories in memory.

    A directory holds files by the names that lead to them, and the directories on the way are there
    because the files are. It stands among the usual directories of a system, which are empty but
    for the null device. A path is followed name by name, from the directory or from the root, and
    each name needs a directory to be looked up in: an empty one and `.` stay there, `..` goes back,
    any other goes on.

        ./a//b   -- . -- a -- (empty) -- b -->   the file b in a
        no/../b  -- no, which is missing, so it cannot be left again -/

namespace BootImage.CommandLine

/-- Files, each at its place: the names that lead to it from the root. -/
structure Directory where
  files : List (List String × List UInt8)
  deriving DecidableEq

/-- What stands at a place. -/
inductive Entry where
  | file (bytes : List UInt8)
  | directory
  /-- The null device, which is empty and stays so. -/
  | sink
  deriving DecidableEq

namespace Directory

/-- The place of the directory. -/
def home : List String := ["tmp", "image"]

/-- The place of the null device. -/
def nullDevice : List String := ["dev", "null"]

/-- The places that are there whatever the directory holds, together with those on the way. -/
def standing : List (List String) :=
  [home, nullDevice] ++
    ["bin", "boot", "etc", "home", "lib", "media", "mnt", "opt", "proc", "root", "run", "sbin",
      "srv", "sys", "usr", "var"].map fun name => [name]

/-- The names of a path, in order. -/
def names (path : String) : List String := (path.toList.splitOn '/').map String.ofList

/-- The directory of these files, whose paths only go on. -/
def ofFiles (files : List (String × List UInt8)) : Directory :=
  ⟨files.map fun f => (home ++ (names f.1).filter fun n => n != "" && n != ".", f.2)⟩

/-- The place is on the way to something. -/
def isWay (d : Directory) (place : List String) : Bool :=
  standing.any (place.isPrefixOf ·) || d.files.any (place.isPrefixOf ·.1)

/-- What stands at a place, if anything. -/
def find? (d : Directory) (place : List String) : Option Entry :=
  match d.files.lookup place with
  | some bytes => some (.file bytes)
  | none =>
    if place = nullDevice then some .sink else if d.isWay place then some .directory else none

/-- A name takes at most so many bytes. -/
def nameLimit : Nat := 255

/-- A path takes at most so many bytes. -/
def pathLimit : Nat := 4095

/-- Nothing can stand at a place whose last name is too long. -/
def isTooLong (place : List String) : Bool :=
  place.getLast?.any fun name => nameLimit < (Text.encode name).length

/-- Why nothing is found at a place where nothing stands. -/
def absence (place : List String) : FileFault :=
  if isTooLong place then .nameTooLong else .missing

/-- Names can only be looked up where a directory is. -/
def fault? (d : Directory) (place : List String) : Option FileFault :=
  match d.find? place with
  | some .directory => none
  | some _ => some .notDirectory
  | none => some (absence place)

/-- Follows names from a place. Nothing needs to be where the last one leads. -/
def follow (d : Directory) : List String → List String → Except FileFault (List String)
  | place, [] => .ok place
  | place, name :: rest =>
    match d.fault? place with
    | some fault => .error fault
    | none =>
      if name = "" ∨ name = "." then d.follow place rest
      else if name = ".." then d.follow place.dropLast rest
      else d.follow (place ++ [name]) rest

/-- Where a path starts. -/
def start (path : String) : List String := if path.toList.head? = some '/' then [] else home

/-- The place that names of a path lead to. -/
def place (d : Directory) (path : String) (names : List String) :
    Except FileFault (List String) :=
  if pathLimit < (Text.encode path).length then .error .nameTooLong
  else d.follow (start path) names

/-- The path without the slashes at its end. -/
def withoutEnd (path : String) : String :=
  String.ofList (path.toList.reverse.dropWhile (· == '/')).reverse

/-- The contents of a file. -/
def read (d : Directory) (path : String) : Except FileFault (List UInt8) := do
  let place ← d.place path (names path)
  match d.find? place with
  | some (.file bytes) => .ok bytes
  | some .directory => .error .isDirectory
  | some .sink => .ok []
  | none => .error (absence place)

/-- The directory with this file at a place, and no other there. -/
def setFile (d : Directory) (place : List String) (bytes : List UInt8) : Directory :=
  ⟨(place, bytes) :: d.files.filter (·.1 != place)⟩

/-- The directory with a file written, over the one that was there, if any. A path that ends with a
    slash names a directory, whether there is one or not. -/
def write (d : Directory) (path : String) (bytes : List UInt8) : Except FileFault Directory := do
  let place ← d.place path (names (withoutEnd path))
  if withoutEnd path ≠ path then .error .isDirectory
  else
    match d.find? place with
    | some (.file _) => .ok (d.setFile place bytes)
    | some .directory => .error .isDirectory
    | some .sink => .ok d
    | none => if isTooLong place then .error .nameTooLong else .ok (d.setFile place bytes)

/-- The files of a directory in memory. -/
def host : Host (StateM Directory) where
  read path := do
    let d ← get
    pure (d.read path)
  write path text := do
    let d ← get
    match d.write path (Text.encode text) with
    | .error fault => pure (.error fault)
    | .ok written =>
      set written
      pure (.ok ())

end Directory

end BootImage.CommandLine
