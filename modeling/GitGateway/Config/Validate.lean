import GitGateway.Access.Policy
import GitGateway.Config
import GitGateway.Net.SocketAddr

/-!
# Valid configurations

What a configuration must satisfy beyond its form.  The checks run in a fixed order and the first
that fails is the error: the store lies inside the data path, the listen address can be read, the
host key has a path, an attempt at authentication is possible, and every key can be read and every
user has a name.
-/

namespace GitGateway.Config

/-- Why a configuration is refused. -/
inductive Invalid where
  /-- The text is no configuration at all. -/
  | malformed
  | reposDir (dir : String)
  | listenAddr (text : String)
  | emptyKeyPath
  | noAuthAttempts
  | adminKey (cause : ClientKey.LineError)
  | namelessUser
  | userKey (user : String) (cause : ClientKey.LineError)
deriving DecidableEq, Repr

namespace Invalid

/-- The failure that a refusal is reported as. -/
def failure : Invalid → Failure
  | .malformed => ⟨["failed to parse config"]⟩
  | .reposDir dir =>
    ⟨["repos_dir must be a relative path inside data_path: " ++ Text.quoted dir]⟩
  | .listenAddr text =>
    ⟨["invalid ssh.listen_addr: " ++ Text.quoted text, "invalid socket address syntax"]⟩
  | .emptyKeyPath => ⟨["ssh.key_path must not be empty"]⟩
  | .noAuthAttempts => ⟨["ssh.max_auth_attempts must be at least 1"]⟩
  | .adminKey cause => ⟨"invalid entry in access.admin_keys" :: cause.causes⟩
  | .namelessUser => ⟨["access.users entries need a name"]⟩
  | .userKey user cause => ⟨("invalid key for user " ++ Text.quoted user) :: cause.causes⟩

end Invalid

/-- Whether a store's directory stays inside the data path. -/
def staysInside (dir : String) : Bool :=
  dir != "" && (Path.components dir).all Path.Component.staysInside

/-- The first fault of a user. -/
def checkUser (u : UserSettings) : Except Invalid Unit :=
  if u.name == "" then .error .namelessUser
  else
    match Policy.readKeys u.keys with
    | .error e => .error (.userKey u.name e)
    | .ok _ => .ok ()

/-- The first fault of the users. -/
def checkUsers : List UserSettings → Except Invalid Unit
  | [] => .ok ()
  | u :: rest =>
    match checkUser u with
    | .error e => .error e
    | .ok () => checkUsers rest

/-- The first fault of the access settings. -/
def checkAccess (a : AccessSettings) : Except Invalid Unit :=
  match Policy.readKeys a.adminKeys with
  | .error e => .error (.adminKey e)
  | .ok _ => checkUsers a.users

/-- The first fault of a configuration. -/
def check (c : Config) : Except Invalid Unit :=
  if !staysInside c.reposDir then .error (.reposDir c.reposDir)
  else if (SocketAddr.ofText? c.ssh.listenAddr).isNone then .error (.listenAddr c.ssh.listenAddr)
  else if c.ssh.keyPath == "" then .error .emptyKeyPath
  else if c.ssh.maxAuthAttempts == 0 then .error .noAuthAttempts
  else checkAccess c.access

end GitGateway.Config
