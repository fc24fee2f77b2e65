/-! # Paths

A path is a text whose parts are separated by slashes.  Parts that are empty or a
single dot name nothing; two dots name the directory above.  The extension of a path
is what follows the last dot of its last part, unless that dot is the first
character, and a path that ends above a directory has none.
-/
namespace SpacingLint
namespace Path

/-- The parts of a path, those that name nothing included. -/
def parts (path : String) : List String :=
  (path.toList.splitOn '/').map String.ofList

/-- Whether a part names nothing. -/
def isIdle (part : String) : Bool := part = "" || part = "."

/-- Whether a path starts with a slash. -/
def isAbsolute (path : String) : Bool := path.toList.head? = some '/'

/-- The last part that names something. -/
def lastPart? (path : String) : Option String :=
  ((parts path).filter (!isIdle ·)).getLast?

/-- What follows the last dot of a name, unless the dot is its first character. -/
def extensionOfName? (name : List Char) : Option (List Char) :=
  let after := name.reverse.takeWhile (· ≠ '.')
  match name.reverse.dropWhile (· ≠ '.') with
  | [] | [_] => none
  | _ => some after.reverse

/-- The extension of a path. -/
def extension? (path : String) : Option String := do
  let name ← lastPart? path
  if name = ".." then none
  else (extensionOfName? name.toList).map String.ofList

end Path
end SpacingLint
