import SpacingLint.Files.Path

/-! # A directory of files

What reading needs to know of a file system is one directory with everything below
it.  It is a list of what was put where, in the order in which it was put there, so
the last entry for a place counts.

Reading fails if a place is not there, if something is looked for below a file, if a
directory is read, or if the bytes of a file are not the UTF-8 form of a text.  Outside
this directory there are only the directories above it: a path that leads there, by
two dots or because it starts with a slash, finds them and nothing else.
-/
namespace SpacingLint

/-- What stands at a place. -/
inductive Entry where
  | file (bytes : ByteArray)
  | directory

/-- A directory and everything below it. -/
structure Directory where
  /-- Places, as the names on the way to them, and what was put there, newest first. -/
  entries : List (List String × Entry)

/-- Why a file cannot be read. -/
inductive ReadError where
  | notFound
  | isDirectory
  | notDirectory
  | invalidText
deriving DecidableEq

namespace ReadError

/-- What is said about the error. -/
def message : ReadError → String
  | notFound => "No such file or directory (os error 2)"
  | isDirectory => "Is a directory (os error 21)"
  | notDirectory => "Not a directory (os error 20)"
  | invalidText => "stream did not contain valid UTF-8"

end ReadError

namespace Directory

/-- A directory with nothing in it. -/
def empty : Directory := ⟨[]⟩

/-- The places on the way along a path, each as the names on the way to it, the last one
first.  Two dots lead back to the place above; there is none above the directory. -/
def places (path : String) : List (List String) :=
  (Path.parts path).foldl (fun visited part =>
    let place := visited.headD []
    if Path.isIdle part then visited
    else if part = ".." then place.dropLast :: visited
    else (place ++ [part]) :: visited) [[]]

/-- The directory with an entry at a path; what is on the way to it is a directory. -/
def put (directory : Directory) (path : String) (entry : Entry) : Directory :=
  match places path with
  | [] => directory
  | place :: before => ⟨(place, entry) :: before.map (·, .directory) ++ directory.entries⟩

/-- What stands at a place. -/
def find? (directory : Directory) (place : List String) : Option Entry :=
  match directory.entries.find? (·.1 = place) with
  | some found => some found.2
  | none => if place.isEmpty then some .directory else none

/-- Whether a part of a path names nothing that could be missing outside. -/
def staysAbove (part : String) : Bool := Path.isIdle part || part = ".."

/-- What the parts of a path lead to outside the directory. -/
def followOutside (parts : List String) : Except ReadError Entry :=
  if parts.all staysAbove then .ok .directory else .error .notFound

/-- What the parts of a path lead to from a place. -/
def follow (directory : Directory) (place : List String) :
    List String → Except ReadError Entry
  | [] =>
    match directory.find? place with
    | some entry => .ok entry
    | none => .error .notFound
  | part :: rest =>
    match directory.find? place with
    | none => .error .notFound
    | some (.file _) => .error .notDirectory
    | some .directory =>
      if Path.isIdle part then directory.follow place rest
      else if part = ".." then
        if place.isEmpty then followOutside rest else directory.follow place.dropLast rest
      else directory.follow (place ++ [part]) rest

/-- What a path leads to; an empty one leads nowhere. -/
def lookup (directory : Directory) (path : String) : Except ReadError Entry :=
  if path = "" then .error .notFound
  else if Path.isAbsolute path then followOutside (Path.parts path)
  else directory.follow [] (Path.parts path)

/-- The text of the file at a path. -/
def read (directory : Directory) (path : String) : Except ReadError String :=
  match directory.lookup path with
  | .error error => .error error
  | .ok .directory => .error .isDirectory
  | .ok (.file bytes) =>
    match String.fromUTF8? bytes with
    | some text => .ok text
    | none => .error .invalidText

end Directory
end SpacingLint
