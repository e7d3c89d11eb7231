import SimpleTypes.Shell.Files

/-!
# A workspace in memory

A file system in which the commands run: the files of a working folder, the
folders above it, and the few places that every system has. Paths lead through
it name by name, and each name must be looked up in a folder; the first that
cannot be decides the error.
-/

namespace SimpleTypes

/-- The names on the way down from the root. -/
abbrev Place := List String

/-- A path as it is spelled. Empty names stand for repeated slashes, and a last
one for a slash at the end. -/
structure Path where
  start : Place
  names : List String
  deriving DecidableEq, Repr, Inhabited

namespace Path

/-- A name has at most this many bytes. -/
def maxName : Nat := 255

/-- A path has at most this many bytes. -/
def maxSize : Nat := 4095

/-- The working folder. No path can spell its last name, so there is no way
back into it from above. -/
def home : Place := ["tmp", ""]

/-- The names between the slashes. -/
def namesOf (text : String) : List String := (text.toList.splitOn '/').map String.ofList

def ofString (text : String) : Except FileError Path :=
  if '\x00' ∈ text.toList then .error .nulInName
  else if text.isEmpty then .error .notFound
  else if maxSize < text.utf8ByteSize then .error .nameTooLong
  else
    match namesOf text with
    | "" :: names => .ok ⟨[], names⟩
    | names => .ok ⟨home, names⟩

def endsInSlash (path : Path) : Bool := path.names.getLast? == some ""

/-- The path up to the slash before its last name. -/
def parent (path : Path) : Path :=
  { path with names := ((path.names.reverse.dropWhile (· == "")).drop 1).reverse ++ [""] }

end Path

structure Workspace where
  files : List (Place × List UInt8) := []
  deriving DecidableEq, Repr, Inhabited

namespace Workspace

/-- Folders that every root has. -/
def rootFolders : List String :=
  ["bin", "boot", "dev", "etc", "home", "lib", "media", "mnt", "opt", "proc", "root", "run",
   "sbin", "srv", "sys", "tmp", "usr", "var"]

/-- Nothing is read from it, and what is written to it is gone. -/
def nullDevice : Place := ["dev", "null"]

def bytes? (ws : Workspace) (place : Place) : Option (List UInt8) :=
  if place = nullDevice then some [] else ws.files.lookup place

/-- Above the working folder, at the root, or above a file. -/
def isFolder (ws : Workspace) (place : Place) : Bool :=
  place.isPrefixOf Path.home || rootFolders.any (place == [·]) ||
    ws.files.any fun file => place.isPrefixOf file.1 && place != file.1

def put (ws : Workspace) (place : Place) (bytes : List UInt8) : Workspace :=
  ⟨(place, bytes) :: ws.files.filter fun file => file.1 != place⟩

/-- Looks the names up one after another. Everything but the last must be a
folder. -/
def walk (ws : Workspace) (place : Place) : List String → Except FileError Place
  | [] => .ok place
  | name :: rest =>
    if !ws.isFolder place then
      .error (if (ws.bytes? place).isSome then .notFolder else .notFound)
    else if name == "" || name == "." then ws.walk place rest
    else if name == ".." then ws.walk place.dropLast rest
    else if Path.maxName < name.utf8ByteSize then .error .nameTooLong
    else ws.walk (place ++ [name]) rest

def resolve (ws : Workspace) (path : Path) : Except FileError Place := ws.walk path.start path.names

def read (ws : Workspace) (path : String) : Except FileError String := do
  let place ← ws.resolve (← Path.ofString path)
  match ws.bytes? place with
  | some bytes => (decodeText? bytes).elim (.error .notText) .ok
  | none => .error (if ws.isFolder place then .isFolder else .notFound)

/-- The place a path leads to for writing. A path that ends in a slash can only
mean a folder, whether there is one or not. -/
def target (ws : Workspace) (path : Path) : Except FileError Place :=
  if path.endsInSlash then ws.resolve path.parent else ws.resolve path

def write (ws : Workspace) (path text : String) : Except FileError Workspace := do
  let place ← ws.target (← Path.ofString path)
  if ws.isFolder place then .error .isFolder
  else if place = nullDevice then .ok ws
  else .ok (ws.put place (encodeText text))

/-- A workspace with the given files in its working folder. -/
def ofFiles (files : List (String × List UInt8)) : Workspace :=
  files.foldl (fun ws file =>
    ws.put (Path.home ++ (Path.namesOf file.1).filter fun name => name != "" && name != ".")
      file.2) {}

def access : Files (StateM Workspace) where
  read path := do return (← get).read path
  write path text := do
    match (← get).write path text with
    | .ok ws => set ws; return .ok ()
    | .error error => return .error error

end Workspace

end SimpleTypes
