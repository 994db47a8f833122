import GitGateway.Repo.Name

/-!
# Git requests

A command line asks for a pack operation if it has at least two words and the first names one; the
second is then the repository.  Everything else is no git request.
-/

namespace GitGateway.Git

/-- The pack operations that can be served. -/
inductive Service where
  | receivePack
  | uploadPack
  | uploadArchive
deriving DecidableEq, Repr

namespace Service

/-- The subcommand that serves the operation. -/
def subcommand : Service → String
  | .receivePack => "receive-pack"
  | .uploadPack => "upload-pack"
  | .uploadArchive => "upload-archive"

/-- The program a client asks for. -/
def program (s : Service) : String := "git-" ++ s.subcommand

/-- The operation whose program has this name. -/
def ofProgram? (name : String) : Option Service :=
  [receivePack, uploadPack, uploadArchive].find? fun s => s.program == name

end Service

/-- What a command line asks for. -/
inductive Request where
  | pack (service : Service) (repo : RepoName)
  /-- No git request; also an empty command line. -/
  | other
deriving DecidableEq, Repr

namespace Request

/-- Classifies the words of a command line. -/
def ofWords : List String → Request
  | program :: repo :: _ =>
    match Service.ofProgram? program with
    | some s => .pack s (RepoName.sanitize repo)
    | none => .other
  | _ => .other

theorem ofWords_program (service : Service) (repo : String) (rest : List String) :
    ofWords (service.program :: repo :: rest) = .pack service (RepoName.sanitize repo) := by
  cases service <;> rfl

/-- What a git request names is one of its words. -/
theorem exists_raw {words : List String} {service : Service} {n : RepoName}
    (h : ofWords words = .pack service n) : ∃ raw ∈ words, n = RepoName.sanitize raw := by
  unfold ofWords at h
  split at h
  · next program raw rest =>
    split at h
    · cases h
      exact ⟨raw, by simp, rfl⟩
    · cases h
  · cases h

/-- The operation asked for. -/
def service? : Request → Option Service
  | .pack s _ => some s
  | .other => none

/-- The repository asked for. -/
def repo? : Request → Option RepoName
  | .pack _ n => some n
  | .other => none

end Request

end GitGateway.Git
