import GitGateway.Log
import GitGateway.Repo.Name
import GitGateway.Text.Quoted

/-!
# Confinement

A candidate path is accepted only if, seen from the store's root and resolved, it lies strictly
below the resolved root.  The check is lexical; it runs before anything touches a disk.
-/

namespace GitGateway

/-- A candidate that does not stay strictly below the root. -/
structure PathEscape where
  root : String
  candidate : String
deriving DecidableEq, Repr

namespace PathEscape

/-- The wording of the refusal. -/
def message (e : PathEscape) : String :=
  "path " ++ Text.quoted e.candidate ++ " escapes repository root " ++ Text.quoted e.root

/-- What is reported when a candidate is refused. -/
def event (e : PathEscape) : LogEvent :=
  if Path.isAbsolute e.candidate then
    ⟨.warn, "repo::confine", "rejected absolute repository path", [("candidate", e.candidate)]⟩
  else
    ⟨.warn, "repo::confine", "rejected repository path outside of the repository root",
      [("root", Path.render (Path.normalize e.root)), ("candidate", e.candidate)]⟩

end PathEscape

/-- A path that was found to lie strictly below a root. -/
structure RepoPath where
  /-- The resolved components. -/
  components : List Path.Component
deriving DecidableEq, Repr

namespace RepoPath

/-- The text of the path. -/
def text (p : RepoPath) : String := Path.render p.components

end RepoPath

namespace Confine

/-- Whether `inner` lies strictly below `outer`, component by component. -/
def strictlyBelow (outer inner : List Path.Component) : Bool :=
  inner != outer && outer.isPrefixOf inner

/-- The candidate as a path below the root. -/
def ensureWithin (root candidate : String) : Except PathEscape RepoPath :=
  if Path.isAbsolute candidate then .error ⟨root, candidate⟩
  else
    let resolved := Path.normalize (Path.join root candidate)
    if strictlyBelow (Path.normalize root) resolved then .ok ⟨resolved⟩
    else .error ⟨root, candidate⟩

/-- The directory of the named repository below the root. -/
def repoPath (root : String) (name : RepoName) : Except PathEscape RepoPath :=
  ensureWithin root name.dirName

end Confine

end GitGateway
