/-!
# Refusals of the system

Why the system refuses to do something with a file, a program or a port, with the number and the
wording it gives.
-/

namespace GitGateway

/-- Why the system refuses. -/
inductive OsError where
  | notFound
  | permissionDenied
  | alreadyExists
  | notDirectory
  | isDirectory
  | nameTooLong
  | tooManyLinks
  | addressNotAvailable
  /-- A path with a NUL character, which the system is never asked about. -/
  | nulInPath
  /-- A program argument or variable with a NUL character. -/
  | nulInData
deriving DecidableEq, Repr

namespace OsError

/-- The wording of a refusal. -/
def message : OsError → String
  | .notFound => "No such file or directory (os error 2)"
  | .permissionDenied => "Permission denied (os error 13)"
  | .alreadyExists => "File exists (os error 17)"
  | .notDirectory => "Not a directory (os error 20)"
  | .isDirectory => "Is a directory (os error 21)"
  | .nameTooLong => "File name too long (os error 36)"
  | .tooManyLinks => "Too many levels of symbolic links (os error 40)"
  | .addressNotAvailable => "Cannot assign requested address (os error 99)"
  | .nulInPath => "file name contained an unexpected NUL byte"
  | .nulInData => "nul byte found in provided data"

end OsError

end GitGateway
