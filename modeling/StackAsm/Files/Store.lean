import StackAsm.Files.Access
import StackAsm.Files.Path
import StackAsm.NameTable

/-!
# File stores

A file store holds the files and directories below one working directory.  A
path is followed part by part, from the root directory if it starts with a
slash and from the working directory otherwise: an empty part and a dot stay in
place, two dots lead to the parent, and every part but the last has to name a
directory.  The root directory, the directories that a system has there and
the directories above the working directory always exist, and nothing else is
known to lie in them.
-/

set_option autoImplicit false

namespace StackAsm

/-- What a location holds. -/
inductive FileStore.Node where
  | file (contents : Bytes)
  | directory
deriving DecidableEq, Repr

/-- The files and directories below a working directory.  A location is the
list of names that leads to it.  The empty one is the working directory, pairs
of dots alone lead above it, and a slash as the first name is the root. -/
structure FileStore where
  nodes : List (List String × FileStore.Node) := []
deriving DecidableEq, Repr

namespace FileStore

def root : List String :=
  ["/"]

def isAbove (location : List String) : Bool :=
  location.all fun name => name == ".."

/-- The directories that a system has in its root directory. -/
def systemDirectories : List String :=
  ["bin", "boot", "dev", "etc", "home", "lib", "media", "mnt", "opt", "proc", "root", "run",
    "sbin", "srv", "sys", "tmp", "usr", "var"]

/-- Whether a location is a directory in every store. -/
def alwaysExists : List String → Bool
  | ["/"] => true
  | ["/", name] => systemDirectories.contains name
  | location => isAbove location

def node? (store : FileStore) (location : List String) : Option Node :=
  if alwaysExists location then some .directory else store.nodes.lookup location

/-- The directory that holds a location.  The root holds itself. -/
def parent (location : List String) : List String :=
  if location = root then root
  else if isAbove location then location ++ [".."]
  else location.dropLast

/-- The location that a part of a path leads to. -/
def move (location : List String) (part : String) : List String :=
  if part = "" ∨ part = "." then location
  else if part = ".." then parent location
  else location ++ [part]

def start (path : String) : List String :=
  match path.toList with
  | '/' :: _ => root
  | _ => []

def putNode (location : List String) (node : Node) :
    List (List String × Node) → List (List String × Node)
  | [] => [(location, node)]
  | entry :: rest =>
    if entry.1 = location then (location, node) :: rest
    else entry :: putNode location node rest

def put (store : FileStore) (location : List String) (node : Node) : FileStore :=
  ⟨putNode location node store.nodes⟩

/-- A name has at most 255 bytes. -/
def isTooLong (name : String) : Bool :=
  255 < name.utf8ByteSize

/-- Why a path is refused before it is followed: it is empty, holds a NUL, or
has more than 4095 bytes. -/
def pathError? (path : String) : Option FileError :=
  if path.toList.contains '\x00' then some .nulInPath
  else if path.isEmpty then some .notFound
  else if 4095 < path.utf8ByteSize then some .nameTooLong
  else none

/-- Follows the parts of a path from a location.  The location reached need not
hold anything. -/
def follow (store : FileStore) (location : List String) :
    List String → Except FileError (List String)
  | [] => .ok location
  | part :: rest =>
    match store.node? location with
    | none => .error .notFound
    | some (.file _) => .error .notADirectory
    | some .directory =>
      if isTooLong part then .error .nameTooLong else follow store (move location part) rest

def read (store : FileStore) (path : String) : Except FileError Bytes :=
  match pathError? path with
  | some error => .error error
  | none =>
    match store.follow (start path) (Path.parts path) with
    | .error error => .error error
    | .ok location =>
      match store.node? location with
      | none => .error .notFound
      | some .directory => .error .isADirectory
      | some (.file contents) => .ok contents

/-- Creates the file with a name in a directory, or replaces its contents.  A
name followed by a slash, a dot and two dots can only stand for a directory. -/
def writeIn (store : FileStore) (directory : List String) (name : String) (slashed : Bool)
    (contents : Bytes) : Except FileError FileStore :=
  match store.node? directory with
  | none => .error .notFound
  | some (.file _) => .error .notADirectory
  | some .directory =>
    if slashed ∨ name = "." ∨ name = ".." then .error .isADirectory
    else if isTooLong name then .error .nameTooLong
    else
      match store.node? (directory ++ [name]) with
      | some .directory => .error .isADirectory
      | _ => .ok (store.put (directory ++ [name]) (.file contents))

/-- Creates the file at a path, or replaces its contents.  The directories that
lead to it have to exist. -/
def write (store : FileStore) (path : String) (contents : Bytes) : Except FileError FileStore :=
  match pathError? path with
  | some error => .error error
  | none =>
    let reversed := (Path.parts path).reverse
    match reversed.dropWhile (· = "") with
    | [] => .error .isADirectory
    | name :: parents =>
      match store.follow (start path) parents.reverse with
      | .error error => .error error
      | .ok directory => store.writeIn directory name (reversed.head? = some "") contents

def enter (here : FileStore × List String) (part : String) : FileStore × List String :=
  let location := move here.2 part
  match here.1.node? location with
  | none => (here.1.put location .directory, location)
  | some _ => (here.1, location)

def addDirectory (store : FileStore) (path : String) : FileStore :=
  ((Path.parts path).foldl enter (store, start path)).1

def addFile (store : FileStore) (path : String) (contents : Bytes) : FileStore :=
  let (prepared, directory) := (Path.parts path).dropLast.foldl enter (store, start path)
  prepared.put (directory ++ (Path.parts path).getLast?.toList) (.file contents)

def isBelow (location : List String) : Bool :=
  location.head? != some ".." && location.head? != some "/"

/-- The files below the working directory that another store does not hold
with the same contents, in the order of their paths. -/
def changesFrom (before after : FileStore) : NameTable Bytes :=
  NameTable.ofList (after.nodes.filterMap fun entry =>
    match entry.2 with
    | .directory => none
    | .file contents =>
      if isBelow entry.1 ∧ before.node? entry.1 ≠ some (.file contents) then
        some (Path.ofParts entry.1, contents)
      else none)

instance : Files (StateM FileStore) where
  read path := fun store => (store.read path, store)
  write path contents := fun store =>
    match store.write path contents with
    | .error error => (.error error, store)
    | .ok written => (.ok (), written)

end FileStore

end StackAsm
