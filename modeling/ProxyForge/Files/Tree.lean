import ProxyForge.Bytes.Basic
import ProxyForge.Files.Fault
import ProxyForge.Files.Path
/-!
# File trees

A directory in memory, with the outcomes that a file system has: what is missing, what is no
directory, what is one. Paths start at the working directory. What lies above it, and what
absolute paths lead to, is there as directories without content.
-/

namespace ProxyForge

/-- A place: names from the working directory on, `/` first if from the root, `..` first if from
above. -/
abbrev Place := List String

namespace Place

/-- The place that `..` names. -/
def parent (place : Place) : Place :=
  match place.getLast? with
  | none => [".."]
  | some ".." => place ++ [".."]
  | some "/" => place
  | some _ => place.dropLast

/-- Above the working directory, or the root. -/
def isAbove (place : Place) : Bool :=
  place.all (· = "..") || place = ["/"]

end Place

/-- Files and directories by their places. -/
structure FileTree where
  /-- The content of a file, none for a directory. -/
  entries : List (Place × Option Bytes)
  deriving DecidableEq, Repr, Inhabited

namespace FileTree

/-- A working directory without content. -/
def empty : FileTree := ⟨[]⟩

/-- What is at a place: nothing, or a directory, or a file with its content. -/
def find? (t : FileTree) (place : Place) : Option (Option Bytes) :=
  if place.isAbove then some none else t.entries.lookup place

/-- The tree with something put at a place. -/
def put (t : FileTree) (place : Place) (entry : Option Bytes) : FileTree :=
  ⟨(place, entry) :: t.entries.filter fun e => e.1 ≠ place⟩

/-- The longest name, in bytes. -/
def nameLimit : Nat := 255

/-- The shortest path that is too long, in bytes. -/
def pathLimit : Nat := 4096

/-- There is a directory at the place? -/
def checkDirectory (t : FileTree) (place : Place) : Except FileFault Unit :=
  match t.find? place with
  | none => .error .missing
  | some (some _) => .error .notDirectory
  | some none => .ok ()

/-- Follow a name from a place, which must be a directory. -/
def step (t : FileTree) (place : Place) (name : String) : Except FileFault Place := do
  t.checkDirectory place
  if name = "." then return place
  else if name = ".." then return place.parent
  else if nameLimit < name.utf8ByteSize then .error .nameTooLong
  else return place ++ [name]

/-- The place at which a path starts. -/
def start (path : String) : Place :=
  if Path.isAbsolute path then ["/"] else []

/-- May a path be followed at all? -/
def checkPath (path : String) : Except FileFault Unit :=
  if path.toList.contains '\x00' then .error .containsNul
  else if path = "" then .error .missing
  else if pathLimit ≤ path.utf8ByteSize then .error .nameTooLong
  else .ok ()

/-- The place that a path leads to; only the last name may be missing there. -/
def locate (t : FileTree) (path : String) : Except FileFault Place := do
  checkPath path
  let place ← (Path.steps path).foldlM t.step (start path)
  if Path.endsInSlash path then t.checkDirectory place
  return place

/-- The content of a file. -/
def read (t : FileTree) (path : String) : Except FileFault Bytes := do
  match t.find? (← t.locate path) with
  | none => .error .missing
  | some none => .error .isDirectory
  | some (some content) => return content

/-- The tree with a file of this content, new or in place of the one before. -/
def write (t : FileTree) (path : String) (content : Bytes) : Except FileFault FileTree := do
  checkPath path
  let steps := Path.steps path
  let above ← steps.dropLast.foldlM t.step (start path)
  if Path.endsInSlash path then
    t.checkDirectory above
    .error .isDirectory
  else
    let place ← (steps.getLast?.toList).foldlM t.step above
    match t.find? place with
    | some none => .error .isDirectory
    | _ => return t.put place (some content)

/-- Make directories along names; those made before a fault stay. -/
def makeDirectories (t : FileTree) (place : Place) : List String → FileTree × Option FileFault
  | [] => (t, none)
  | name :: rest =>
    match t.step place name with
    | .error fault => (t, some fault)
    | .ok next =>
      match t.find? next with
      | some none => makeDirectories t next rest
      | some (some _) => (t, some .notDirectory)
      | none => makeDirectories (t.put next none) next rest

/-- Write a file after making the directories on the way. -/
def writeWithin (t : FileTree) (path : String) (content : Bytes) : FileTree × Option FileFault :=
  match checkPath path with
  | .error fault => (t, some fault)
  | .ok () =>
    match t.makeDirectories (start path) (Path.steps path).dropLast with
    | (t, some fault) => (t, some fault)
    | (t, none) =>
      match t.write path content with
      | .error fault => (t, some fault)
      | .ok t => (t, none)

/-- The files below the working directory, with their paths from there. -/
def files (t : FileTree) : List (String × Bytes) :=
  t.entries.filterMap fun (place, entry) =>
    match place.head?, entry with
    | some "..", _ => none
    | some "/", _ => none
    | _, none => none
    | _, some content => some ("/".intercalate place, content)

/-- The files that are not in another tree with the same content. -/
def changedSince (t before : FileTree) : List (String × Bytes) :=
  t.files.filter fun (path, content) => before.files.lookup path ≠ some content

end FileTree

end ProxyForge
