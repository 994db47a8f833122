import GitGateway.Text.Blank
import GitGateway.Path

/-!
# Repository names

A name is what a client's repository argument stands for: surrounding blanks and leading slashes
are dropped, `.` and `name/..` are resolved, and one `.git` at the end is cut off.  A `..` that has
nothing to cancel stays, so that confinement can refuse it.  The empty name stands for no
particular repository.
-/

namespace GitGateway

/-- A sanitized repository name. -/
structure RepoName where
  /-- The name as it is shown. -/
  text : String
deriving DecidableEq, Repr

namespace RepoName

/-- The name of no particular repository. -/
def unnamed : RepoName := ⟨""⟩

/-- Whether this is the name of no particular repository. -/
def isEmpty (n : RepoName) : Bool := n.text == ""

/-- The suffix of a bare repository's directory. -/
def suffix : String := ".git"

/-- The directory of the bare repository, seen from the store's root. -/
def dirName (n : RepoName) : String := n.text ++ suffix

/-- Adds one piece of a raw argument to the segments, which are given last first. -/
def addSegment (segments : List String) (piece : String) : List String :=
  if piece == "" || piece == "." then segments
  else if piece == ".." then
    match segments with
    | last :: above => if last == ".." then ".." :: segments else above
    | [] => [".."]
  else piece :: segments

/-- The raw argument without surrounding blanks and leading slashes. -/
def strip (raw : String) : List Char := (Text.trim raw.toList).dropWhile (· == '/')

/-- The segments that a raw argument resolves to. -/
def segments (raw : String) : List String :=
  ((((strip raw).splitOn '/').map String.ofList).foldl addSegment []).reverse

/-- `s` without one `.git` at its end. -/
def dropGit (s : List Char) : List Char :=
  if suffix.toList.isSuffixOf s then s.take (s.length - suffix.length) else s

/-- The name that a raw argument stands for. -/
def sanitize (raw : String) : RepoName :=
  ⟨String.ofList (dropGit (String.intercalate "/" (segments raw)).toList)⟩

end RepoName

end GitGateway
