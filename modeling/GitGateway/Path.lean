/-!
# Paths

A path is text; its components are what stands between slashes.  Empty components and `.` carry no
meaning and are dropped, except that a relative path keeps a leading `.`.  Resolving a path removes
`.` and `name/..` without looking at any disk, so a `..` above the start of a relative path stays.
-/

namespace GitGateway.Path

/-- One step of a path. -/
inductive Component where
  /-- The start of an absolute path. -/
  | root
  /-- A leading `.` of a relative path. -/
  | current
  /-- A step up. -/
  | parent
  /-- A step down to an entry. -/
  | normal (name : String)
deriving DecidableEq, Repr

namespace Component

/-- The text of a component. -/
def text : Component → String
  | .root => "/"
  | .current => "."
  | .parent => ".."
  | .normal name => name

/-- Whether a component is a step down. -/
def isNormal : Component → Bool
  | .normal _ => true
  | _ => false

/-- Whether a component may stand in a path that stays inside its start. -/
def staysInside : Component → Bool
  | .normal _ | .current => true
  | _ => false

end Component

/-- What stands between the slashes of `p`. -/
def pieces (p : String) : List String := (p.toList.splitOn '/').map String.ofList

/-- Whether a path starts at the root. -/
def isAbsolute (p : String) : Bool := p.toList.head? == some '/'

/-- The component a piece stands for, unless it means nothing. -/
def component? (piece : String) : Option Component :=
  if piece == "" || piece == "." then none
  else if piece == ".." then some .parent
  else some (.normal piece)

/-- The components of a path. -/
def components (p : String) : List Component :=
  match pieces p with
  | "." :: rest => .current :: rest.filterMap component?
  | ps => (if isAbsolute p then [.root] else []) ++ ps.filterMap component?

/-- The text of a list of components; only the first may be the root. -/
def render : List Component → String
  | .root :: rest => "/" ++ String.intercalate "/" (rest.map Component.text)
  | cs => String.intercalate "/" (cs.map Component.text)

/-- `rel` seen from `base`; an absolute path stays what it is. -/
def join (base rel : String) : String :=
  if isAbsolute rel then rel
  else if base.toList.getLast?.all (· == '/') then base ++ rel
  else base ++ "/" ++ rel

/-! ## Lexical resolution -/

/-- Adds one component to a resolved path, whose components are given last first. -/
def resolveStep (done : List Component) : Component → List Component
  | .current => done
  | .parent =>
    match done with
    | .normal _ :: above => above
    | .root :: _ => done
    | _ => .parent :: done
  | c => c :: done

/-- The components of a path after `.` and `name/..` are removed. -/
def resolve (cs : List Component) : List Component := (cs.foldl resolveStep []).reverse

/-- The resolved components of a path. -/
def normalize (p : String) : List Component := resolve (components p)

/-! ## The directory above -/

/-- Drops pieces that mean nothing from the end. -/
def dropTrivial (ps : List String) : List String :=
  (ps.reverse.dropWhile fun p => p == "" || p == ".").reverse

/-- The text of a path before its first real piece, and the pieces after it. -/
def splitStart (p : String) : String × List String :=
  match pieces p with
  | "." :: rest => (".", if rest.isEmpty then [] else "" :: rest)
  | ps =>
    match p.toList with
    | '/' :: rest => ("/", (rest.splitOn '/').map String.ofList)
    | _ => ("", ps)

/-- The path without its last component, if it has one to give up. -/
def parent? (p : String) : Option String :=
  let (start, body) := splitStart p
  match dropTrivial body with
  | [] => if start == "." then some "" else none
  | ps => some (start ++ String.intercalate "/" (dropTrivial ps.dropLast))

end GitGateway.Path
