import GitGateway.Files.Layout
import GitGateway.Launch

/-!
# The command line

A trial start.  The options and the configuration are read, the steps of a start are taken on an
empty disk that holds the configuration only, and what they report is printed.  Nothing is written
and nobody is served.
-/

namespace GitGateway.Main

/-- A disk that holds the file at a path, if it can be read. -/
def diskWith (path : String) : IO Disk := do
  match ← (IO.FS.readBinFile path).toBaseIO with
  | .ok bytes => return ({} : Disk).furnish "" (.file path bytes.toList)
  | .error (.inappropriateType ..) => return ({} : Disk).furnish "" (.dir path)
  | .error _ => return {}

/-- The disk that the words on the command line need. -/
def diskFor (words : List String) : IO Disk :=
  match Launch.Start.ofWords words with
  | .run o => diskWith o.config
  | _ => return {}

/-- The line that is printed for an event. -/
def eventLine (e : LogEvent) : String :=
  let details := e.details.map fun (name, value) => " " ++ name ++ "=" ++ value
  e.severity.name ++ " " ++ e.origin ++ ": " ++ e.message ++ String.join details

end GitGateway.Main

open GitGateway in
/-- Tries a start with the words on the command line. -/
def main (words : List String) : IO UInt32 := do
  let disk ← Main.diskFor words
  let secret := (← IO.getRandomBytes 32).toList
  let ending := launch { disk, secret, signal := .terminate } words
  IO.print ending.stdout
  for e in ending.log do
    IO.println (Main.eventLine e)
  IO.eprint ending.stderr
  return UInt32.ofNat ending.status
