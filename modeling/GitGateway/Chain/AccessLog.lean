import GitGateway.Chain

/-!
# Access log

The stage that reports how a session ended.  It also sees sessions that an earlier stage ended.
-/

namespace GitGateway.Stage

/-- A value that may be missing. -/
def shownOption : Option String → String
  | some s => "Some(" ++ s ++ ")"
  | none => "None"

/-- What is reported about a finished session. -/
def finishedEvent (s : Session) : LogEvent :=
  ⟨.info, "middleware::logging", "session finished",
    [("peer", shownOption (s.peer.map SocketAddr.text)),
      ("user", s.user),
      ("fingerprint", (s.key.map ClientKey.fingerprint).getD "none"),
      ("command", String.intercalate " " s.command),
      ("exit_status", shownOption (s.exitStatus.map toString))]⟩

/-- Reports how the session ended. -/
def accessLog : Stage where
  runsAfterExit := true
  enter := return some fun outcome => do
    Handler.resume outcome
    Handler.emit (finishedEvent (← get))

end GitGateway.Stage
