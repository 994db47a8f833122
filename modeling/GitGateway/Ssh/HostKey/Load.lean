import GitGateway.Failure
import GitGateway.Files.Disk
import GitGateway.Log
import GitGateway.Ssh.HostKey.Decode

/-!
# Keeping the host key

The host key lies in a file.  If the file is not there, a fresh Ed25519 key is made and written,
readable for its owner only, so that the next start finds the same key.
-/

namespace GitGateway.Ssh.HostKey

/-- The permissions of a new key's file. -/
def fileMode : Nat := 0o600

/-- The failure to load a key. -/
def loadFailure (path : String) (cause : String) : Failure :=
  ⟨["failed to load SSH host key: " ++ path, cause]⟩

/-- Loads the key in a file. -/
def load (d : Disk) (path : String) : Except Failure HostKey :=
  match d.contents path with
  | .error e => .error (loadFailure path e.message)
  | .ok bytes =>
    match (Text.Utf8.decode? bytes).bind ofText? with
    | some key => .ok key
    | none => .error (loadFailure path "could not read key")

/-- Writes a fresh key with these secret bytes. -/
def generate (d : Disk) (path : String) (secret : List UInt8) : Except Failure Disk :=
  let above := Path.parent? path
  match (above.map fun p => d.makeDirAll p).getD (.ok d) with
  | .error e =>
    .error ⟨["failed to create host key directory: " ++ above.getD "", e.message]⟩
  | .ok d =>
    match d.createFile path (Text.Utf8.encode (armoured secret)) with
    | .error e => .error ⟨["failed to create SSH host key file: " ++ path, e.message]⟩
    | .ok d => .ok d

/-- What loading or making a key leads to. -/
structure Loaded where
  key : HostKey
  isNew : Bool
  event : LogEvent
  disk : Disk

/-- Loads the key in a file, or makes one from these secret bytes if there is no file. -/
def loadOrGenerate (d : Disk) (path : String) (secret : List UInt8) : Except Failure Loaded :=
  if d.exists? path then
    (load d path).map fun key =>
      { key, isNew := false, disk := d
        event := ⟨.info, "ssh::hostkey", "loaded SSH host key",
          [("path", path), ("algorithm", key.algorithm)]⟩ }
  else
    (generate d path secret).map fun disk =>
      { key := .ed25519 secret, isNew := true, disk
        event := ⟨.info, "ssh::hostkey", "generated new Ed25519 SSH host key", [("path", path)]⟩ }

end GitGateway.Ssh.HostKey
