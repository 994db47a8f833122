import GitGateway.Host
import GitGateway.Files.Disk
import GitGateway.Text.Utf8

/-!
# A git program that follows a script

What the program prints and how it ends is written down beforehand.  Asked to make a repository it
also makes one, unless the script says otherwise.
-/

namespace GitGateway.Scripted

/-- What a run of the program does. -/
structure Run where
  /-- Whether it first prints how it was called. -/
  reports : Bool := false
  stdout : List UInt8 := []
  stderr : List UInt8 := []
  /-- Whether it prints its input. -/
  echoes : Bool := false
  /-- The signal it dies of, if it does. -/
  signal : Option Nat := none
  status : Nat := 0
  /-- Whether it makes no repository although all goes well. -/
  isLazy : Bool := false
deriving DecidableEq, Repr

/-- The program: what it does when it makes a repository and when it serves one. -/
structure Git where
  init : Run := {}
  pack : Run := {}
deriving DecidableEq, Repr

namespace Run

/-- How the run ends. -/
def exit (r : Run) : GitGateway.Git.Exit :=
  match r.signal with
  | some n => .signal n
  | none => .status (r.status % 256)

/-- Two lowercase hexadecimal digits. -/
def hexByte (b : UInt8) : String :=
  String.ofList [Nat.digitChar (b.toNat / 16), Nat.digitChar (b.toNat % 16)]

/-- The line about one variable. -/
def variableLine (call : GitGateway.Git.Call) (name : String) : String :=
  match call.overrides.lookup name with
  | some value => "env " ++ name ++ "=" ++ String.join ((Text.Utf8.encode value).map hexByte) ++ "\n"
  | none => "env " ++ name ++ " unset\n"

/-- How the program was called: its arguments and the variables of these names. -/
def reportText (names : List String) (call : GitGateway.Git.Call) : String :=
  "args=" ++ String.intercalate "|" call.arguments ++ "\n" ++
    String.join (names.map (variableLine call))

/-- The program when it serves a repository. -/
def child (r : Run) (names : List String) (call : GitGateway.Git.Call) : GitGateway.Git.Child where
  todo :=
    (if r.reports then [.print (Text.Utf8.encode (reportText names call))] else []) ++
      [.print r.stdout, .complain r.stderr] ++ (if r.echoes then [.echo] else [])
  exit := r.exit

/-- Makes a repository: a directory with a file `HEAD`. -/
def makeRepository (d : Disk) (path : String) : Except OsError Disk := do
  (← d.makeDirAll path).writeFile (Path.join path "HEAD") []

/-- The program when it makes a repository. -/
def runInit (r : Run) (d : Disk) (path : String) : GitGateway.Git.Report × Disk :=
  if r.exit.isSuccess && !r.isLazy then
    match makeRepository d path with
    | .ok d => (⟨r.exit, r.stderr⟩, d)
    | .error _ => (⟨.status 128, r.stderr ++ Text.Utf8.encode "fatal: cannot mkdir\n"⟩, d)
  else (⟨r.exit, r.stderr⟩, d)

end Run

end GitGateway.Scripted
