import GitGateway.Access.Level

/-!
# Access settings

What an operator writes down about access: the level of everybody else, whether a key is needed at
all, who is an administrator, the users with their keys, and the repositories with their
collaborators.  Keys are still lines of text here.
-/

namespace GitGateway

/-- A user as written down. -/
structure UserSettings where
  name : String
  /-- One key a line. -/
  keys : List String := []
  access : AccessLevel := .readOnly
deriving DecidableEq, Repr

/-- A repository as written down. -/
structure RepoSettings where
  isPrivate : Bool := false
  /-- Names of the users who may read and write. -/
  collaborators : List String := []
deriving DecidableEq, Repr

/-- The access settings. -/
structure AccessSettings where
  /-- The level of sessions whose key belongs to nobody. -/
  anonymous : AccessLevel := .readOnly
  /-- Whether a session may come without a key. -/
  keyless : Bool := true
  /-- Lines of the keys that may do everything. -/
  adminKeys : List String := []
  users : List UserSettings := []
  /-- Settings by repository name; no name stands twice. -/
  repos : List (String × RepoSettings) := []
deriving DecidableEq, Repr

end GitGateway
