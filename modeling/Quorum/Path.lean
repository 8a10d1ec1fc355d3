import Quorum.Bytes

/-!
# Paths

A path is a text in which names are separated by slashes.  An empty name and `.`
stand for the place reached so far, and `..` for the folder that it is in.  A path
that starts with a slash starts at the root.
-/

namespace Quorum
namespace Path

/-- The longest path that is followed, in bytes. -/
def maxLength : Nat := 4095

/-- The longest name, in bytes. -/
def maxName : Nat := 255

/-- The parts of a path. -/
def parts (path : String) : List String := (path.toList.splitOn '/').map String.ofList

/-- Whether a path starts at the root. -/
def isAbsolute (path : String) : Bool := path.toList.head? = some '/'

/-- Whether a part of a path names nothing but the place reached so far. -/
def isHere (name : String) : Bool := name = "" || name = "."

/-- Whether a name is longer than names may be. -/
def isTooLong (name : String) : Bool := maxName < (utf8 name).length

/-- The parts without those at the end that name nothing but the place reached
before. -/
def trimEnd (names : List String) : List String := (names.reverse.dropWhile isHere).reverse

/-- The path of the folder that the file at a path is in; it is empty for a file in
the current folder. -/
def folder (path : String) : String :=
  match parts path with
  | [] => ""
  | first :: rest =>
    match trimEnd rest with
    | [] => ""
    | names =>
      let outer := first :: trimEnd names.dropLast
      if outer = [""] then "/" else "/".intercalate outer

end Path
end Quorum
