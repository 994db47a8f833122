import GitGateway.Access.Key
import GitGateway.Access.Settings
import GitGateway.Failure
import GitGateway.Repo.Name

/-!
# Access policy

The verdict on an identity and a repository.  An administrator's key may do everything.  Every
other identity starts from the anonymous level, raised to its user's own level; a collaborator of
the repository may read and write at least; a private repository shuts out everybody else.  The
name of no particular repository asks for the level of the connection.
-/

namespace GitGateway

/-- A user whose keys were read. -/
structure User where
  name : String
  keys : List ClientKey
  access : AccessLevel
deriving DecidableEq, Repr

/-- Access settings whose keys were read. -/
structure Policy where
  anonymous : AccessLevel
  keyless : Bool
  admins : List ClientKey
  users : List User
  repos : List (String × RepoSettings)
deriving DecidableEq, Repr

namespace Policy

/-- Why settings make no policy. -/
inductive SettingsError where
  | admin (cause : ClientKey.LineError)
  | user (name : String) (cause : ClientKey.LineError)
deriving DecidableEq, Repr

namespace SettingsError

/-- The failure that an error is reported as. -/
def failure : SettingsError → Failure
  | .admin cause => ⟨"invalid admin key" :: cause.causes⟩
  | .user name cause => ⟨("invalid key for user " ++ Text.quoted name) :: cause.causes⟩

end SettingsError

/-- Reads lines as keys; the first line that holds none is the error. -/
def readKeys : List String → Except ClientKey.LineError (List ClientKey)
  | [] => .ok []
  | line :: rest =>
    match ClientKey.ofLine line with
    | .error e => .error e
    | .ok k => (readKeys rest).map (k :: ·)

/-- Reads the keys of the users in order. -/
def readUsers : List UserSettings → Except SettingsError (List User)
  | [] => .ok []
  | u :: rest =>
    match readKeys u.keys with
    | .error e => .error (.user u.name e)
    | .ok keys => (readUsers rest).map (⟨u.name, keys, u.access⟩ :: ·)

/-- The policy that settings stand for. -/
def ofSettings (s : AccessSettings) : Except SettingsError Policy :=
  match readKeys s.adminKeys with
  | .error e => .error (.admin e)
  | .ok admins =>
    (readUsers s.users).map fun users => ⟨s.anonymous, s.keyless, admins, users, s.repos⟩

/-- The first user who holds a key. -/
def userOf (p : Policy) (key : ClientKey) : Option User :=
  p.users.find? fun u => u.keys.contains key

/-- The settings of a repository. -/
def settingsOf (p : Policy) (name : RepoName) : Option RepoSettings := p.repos.lookup name.text

/-- Whether the settings call the repository private. -/
def configuredPrivate (p : Policy) (name : RepoName) : Bool :=
  (p.settingsOf name).any fun r => r.isPrivate

/-- Whether the repository is private by the settings or by a mark. -/
def isPrivate (p : Policy) (marked : List String) (name : RepoName) : Bool :=
  p.configuredPrivate name || marked.contains name.text

/-- Whether a user collaborates on the repository. -/
def collaborates (p : Policy) (name : RepoName) (user : User) : Bool :=
  (p.settingsOf name).any fun r => r.collaborators.contains user.name

/-- Whether a key is an administrator's. -/
def isAdmin (p : Policy) (key : Option ClientKey) : Bool := key.any p.admins.contains

/-- The level of an identity that is no administrator's, whatever the repository. -/
def baseLevel (p : Policy) : Option User → AccessLevel
  | some u => max u.access p.anonymous
  | none => p.anonymous

/-- The level of an identity on a repository, given the names that carry the private mark. -/
def level (p : Policy) (marked : List String) (name : RepoName) (key : Option ClientKey) :
    AccessLevel :=
  if p.isAdmin key then .admin
  else
    let user := key.bind p.userOf
    let base := p.baseLevel user
    if name.isEmpty then base
    else if user.any (p.collaborates name) then max base .readWrite
    else if p.isPrivate marked name then .noAccess
    else base

end Policy

end GitGateway
