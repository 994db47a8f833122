import GitGateway.Access.Settings
import GitGateway.Path

/-!
# Configuration

What an operator can set: the name that is shown, where data lies, how the listener behaves, and
the access settings.  Times are in seconds, and zero means no limit.
-/

namespace GitGateway

/-- The listener's settings. -/
structure SshSettings where
  listenAddr : String := "0.0.0.0:23231"
  /-- The host key's file, relative to the data path unless absolute. -/
  keyPath : String := "ssh/forgegate_host_ed25519"
  /-- How long a session may last in all. -/
  maxTimeout : Nat := 0
  /-- How long a session may be silent. -/
  idleTimeout : Nat := 0
  maxAuthAttempts : Nat := 6
  /-- How long a shutdown waits for sessions to end. -/
  shutdownGrace : Nat := 30
deriving DecidableEq, Repr

namespace SshSettings

/-- A time limit; zero is none. -/
def limit (seconds : Nat) : Option Nat := if 0 < seconds then some seconds else none

end SshSettings

/-- The whole configuration. -/
structure Config where
  name : String := "Forgegate"
  /-- The directory of all data. -/
  dataPath : String
  /-- The directory of the repositories, relative to the data path. -/
  reposDir : String := "repos"
  ssh : SshSettings := {}
  access : AccessSettings := {}
deriving DecidableEq, Repr

namespace Config

/-- The root of the repository store. -/
def reposPath (c : Config) : String := Path.join c.dataPath c.reposDir

/-- Where the host key lies. -/
def hostKeyPath (c : Config) : String := Path.join c.dataPath c.ssh.keyPath

end Config

end GitGateway
