import GitGateway.Gateway

/-!
# Surroundings that follow a script

A store that keeps names only, with refusals written down beforehand, and a pack service that
answers with fixed bytes.  Both keep a record of what they were asked.
-/

namespace GitGateway.Scripted

/-- How the store creates a repository. -/
inductive Creation where
  /-- It does, unless the repository is there already. -/
  | inserts
  | fails
  /-- It says that the repository exists, which it does not. -/
  | vanishes
  | notFound
  /-- Somebody else creates the repository at the same moment. -/
  | raced
deriving DecidableEq, Repr

/-- What the store was asked. -/
inductive Call where
  | access (name : RepoName) (key : Option ClientKey)
  | allowKeyless
  | lookup (name : RepoName)
  | create (name : RepoName) (isPrivate : Bool)
  | list
deriving DecidableEq, Repr

/-- How the pack service ends. -/
inductive Reply where
  | ok
  | invalid
  | fails
  | crashes
deriving DecidableEq, Repr

/-- What the pack service does. -/
structure Pack where
  stdout : List UInt8 := []
  stderr : List UInt8 := []
  reply : Reply := .ok
deriving DecidableEq, Repr

/-- What the pack service was asked. -/
structure PackCall where
  service : GitGateway.Git.Service
  path : RepoPath
  /-- All of the client's input. -/
  stdin : List UInt8
  env : List (String × String)
deriving DecidableEq, Repr

/-- The state of the surroundings. -/
structure Surroundings where
  /-- The level of every session with a key. -/
  keyLevel : AccessLevel := .readWrite
  /-- The level of every other session. -/
  anonymousLevel : AccessLevel := .readOnly
  keyless : Bool := true
  /-- The names of the repositories. -/
  repos : List String := []
  lookupFails : Bool := false
  creation : Creation := .inserts
  listFails : Bool := false
  pack : Pack := {}
  calls : List Call := []
  packCalls : List PackCall := []
  /-- What was reported, in order. -/
  log : List LogEvent := []
deriving Repr

namespace Surroundings

/-- Records a question to the store. -/
def record (s : Surroundings) (c : Call) : Surroundings := { s with calls := s.calls ++ [c] }

/-- What the store says about a repository it has. -/
def repository (name : RepoName) : Repository :=
  ⟨name, Path.join "/srv/repos" name.dirName, false⟩

/-- Whether the store has a repository. -/
def has (s : Surroundings) (name : RepoName) : Bool := s.repos.contains name.text

/-- Looks a repository up. -/
def lookup (s : Surroundings) (name : RepoName) : Except BackendError Repository :=
  if s.lookupFails then .error (.other ⟨["cannot stat", "disk on fire"]⟩)
  else if s.has name then .ok (repository name)
  else .error .notFound

/-- Adds a repository. -/
def insert (s : Surroundings) (name : RepoName) : Surroundings :=
  if s.has name then s else { s with repos := s.repos ++ [name.text] }

/-- Creates a repository. -/
def create (s : Surroundings) (name : RepoName) : Except BackendError Repository × Surroundings :=
  match s.creation with
  | .inserts =>
    if s.has name then (.error .alreadyExists, s) else (.ok (repository name), s.insert name)
  | .fails => (.error (.other (.ofText "disk full")), s)
  | .vanishes => (.error .alreadyExists, s)
  | .notFound => (.error .notFound, s)
  | .raced => (.error .alreadyExists, s.insert name)

/-- The names in order. -/
def list (s : Surroundings) : Except BackendError (List RepoName) :=
  if s.listFails then .error (.other ⟨["cannot list", "store offline"]⟩)
  else
    .ok (((s.repos.map fun n => (RepoName.sanitize n).text).mergeSort
      fun a b => decide (a ≤ b)).map RepoName.mk)

/-- What the pack service does to the streams, and how it ends. -/
def serve (p : Pack) (io : PackIo) : Served :=
  let io := { io with stdin := { io.stdin with bytes := [] } }
  let (out, stdout) := io.stdout.writeAll p.stdout
  let io := { io with stdout }
  match out with
  | .error e => ⟨io, .ok (.error (.failed (.ofText e.message)))⟩
  | .ok () =>
    let (err, stderr) := io.stderr.writeAll p.stderr
    let io := { io with stderr }
    match err, p.reply with
    | .error e, _ => ⟨io, .ok (.error (.failed (.ofText e.message)))⟩
    | .ok (), .ok => ⟨io, .ok (.ok ())⟩
    | .ok (), .invalid => ⟨io, .ok (.error .invalidRepository)⟩
    | .ok (), .fails => ⟨io, .ok (.error (.failed (.ofText "git exited with 128")))⟩
    | .ok (), .crashes => ⟨io, .error ⟨some "pack service crashed"⟩⟩

/-- How a question is answered. -/
def answer : (q : Ask) → Surroundings → q.Answer × Surroundings
  | .emit e, s => ((), { s with log := s.log ++ [e] })
  | .accessLevel name key, s =>
    (.ok (if key.isSome then s.keyLevel else s.anonymousLevel), s.record (.access name key))
  | .allowKeyless, s => (.ok s.keyless, s.record .allowKeyless)
  | .lookup name, s => (.ok (s.lookup name), s.record (.lookup name))
  | .create name isPrivate, s =>
    let (result, s) := (s.record (.create name isPrivate)).create name
    (.ok result, s)
  | .list, s => (.ok s.list, s.record .list)
  | .serve service path io, s =>
    (serve s.pack io,
      { s with packCalls := s.packCalls ++ [⟨service, path, io.stdin.bytes, io.env⟩] })

/-- Runs a program in the surroundings. -/
def run {α : Type} (s : Surroundings) (p : Asking α) : α × Surroundings := p.run answer s

end Surroundings

end GitGateway.Scripted
