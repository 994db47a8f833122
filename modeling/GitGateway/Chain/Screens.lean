import GitGateway.Chain
import GitGateway.Config
import GitGateway.Text.Utf8

/-!
# Screens

What a person is told.  A session without a command gets a welcome screen with the repositories it
may read; a command that is no git request is one of a few built-in ones or unknown.
-/

namespace GitGateway

/-- The session's repositories of a list: those that its identity may read. -/
def readable : List RepoName → Handler (List RepoName)
  | [] => return []
  | name :: rest => do
    let level ← Handler.accessLevel name (← get).key
    let others ← readable rest
    return if level.canRead then name :: others else others

/-- The repositories that the session's identity may read; none if the store cannot be listed. -/
def readableRepositories : Handler (List RepoName) := do
  match ← Handler.list with
  | .ok names => readable names
  | .error e =>
    Handler.emit ⟨.warn, "middleware::interactive", "failed to list repositories",
      [("error", e.failure.headline)]⟩
    return []

namespace Screen

/-- Lines of text, each with its end. -/
def lines (ls : List String) : String := String.join (ls.map (· ++ "\n"))

/-- The welcome screen of a gateway that listens on `port`. -/
def welcome (name : String) (port : Nat) (repos : List RepoName) : String :=
  let sample := (repos.head?.map RepoName.text).getD "<repo>"
  let listing :=
    if repos.isEmpty then ["No repositories available yet."]
    else "Repositories:" :: repos.map fun r => "  " ++ r.text
  lines (["Welcome to " ++ name ++ "!", ""] ++ listing ++
    ["", "Clone with: git clone ssh://<host>:" ++ toString port ++ "/" ++ sample ++ ".git"])

/-- The built-in commands. -/
def help : String := lines [
  "Commands:",
  "  help        show this message",
  "  info        show the identity this session authenticated as",
  "  repo list   list the repositories you can read",
  "",
  "Git clients connect with git-upload-pack, git-receive-pack and",
  "git-upload-archive."]

/-- Who the session is, and the level of its connection. -/
def identity (user : String) (key : Option ClientKey) (level : AccessLevel) : String :=
  let shownKey := match key with
    | some k => k.algorithm ++ " " ++ k.fingerprint
    | none => "none"
  lines ["user: " ++ user, "key: " ++ shownKey, "access: " ++ level.name]

/-- What is said about a command that is not known. -/
def unknown (line : String) : String :=
  lines ["unknown command: " ++ line, "Run 'help' for usage."]

end Screen

namespace Stage

/-- The port of the listener, or the usual one. -/
def shownPort (config : Config) : Nat :=
  ((SocketAddr.ofText? config.ssh.listenAddr).map SocketAddr.port).getD 22

/-- Answers sessions without a command. -/
def welcome (config : Config) : Stage := .before do
  if (← get).command.isEmpty then
    let repos ← readableRepositories
    Handler.writeStdout (Text.Utf8.encode (Screen.welcome config.name (shownPort config) repos))
    Handler.exit 0

/-- The answer to a built-in command; none if there is no such command. -/
def answer (command : List String) : Handler (Option String) := do
  match command with
  | ["help"] => return some Screen.help
  | ["info"] =>
    let s ← get
    let level ← Handler.accessLevel .unnamed s.key
    return some (Screen.identity s.user s.key level)
  | ["repo", "list"] =>
    let repos ← readableRepositories
    return some (Screen.lines (repos.map RepoName.text))
  | _ => return none

/-- Answers a command. -/
def answerOrRefuse (command : List String) : Handler Unit := do
  match ← answer command with
  | some text =>
    Handler.writeStdout (Text.Utf8.encode text)
    Handler.exit 0
  | none =>
    let line := String.intercalate " " command
    Handler.emit ⟨.info, "middleware::cli", "unknown command",
      [("user", (← get).user), ("command", line)]⟩
    Handler.writeStderr (Text.Utf8.encode (Screen.unknown line))
    Handler.exit 1

/-- Whether a command is for a person: there is one, and it is no git request. -/
def isBuiltin (command : List String) : Bool :=
  !command.isEmpty && (Git.Request.ofWords command).service?.isNone

/-- Answers commands that are no git requests. -/
def builtins : Stage := .before do
  let command := (← get).command
  if isBuiltin command then answerOrRefuse command

end Stage

end GitGateway
