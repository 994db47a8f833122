import GitGateway.Config.Decode
import GitGateway.Files.Disk

/-!
# Loading a configuration

A configuration lies in a file.  It can fail to be read, and what it holds can fail to be a valid
configuration.
-/

namespace GitGateway.Config

/-- Why a file gives no configuration. -/
inductive LoadError where
  /-- The file cannot be read. -/
  | unreadable (path : String) (cause : String)
  | invalid (path : String) (cause : Invalid)

namespace LoadError

/-- The failure that an error is reported as. -/
def failure : LoadError → Failure
  | .unreadable path cause => ⟨["failed to read config file: " ++ path, cause]⟩
  | .invalid path cause => cause.failure.context ("invalid config file: " ++ path)

end LoadError

/-- The configuration that the contents of a file stand for. -/
def ofContents (path : String) (contents : List UInt8) : Except LoadError Config :=
  match Text.Utf8.decode? contents with
  | none => .error (.unreadable path "stream did not contain valid UTF-8")
  | some text =>
    match ofYaml text with
    | .ok c => .ok c
    | .error e => .error (.invalid path e)

/-- The configuration in a file. -/
def load (d : Disk) (path : String) : Except LoadError Config :=
  match d.contents path with
  | .error e => .error (.unreadable path e.message)
  | .ok contents => ofContents path contents

end GitGateway.Config
