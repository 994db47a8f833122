import GitGateway.Chain
import GitGateway.Text.Quoted

/-!
# Containment

The outermost stage.  A crash in any later stage is reported and ends the session with the general
message, so that it harms no other session.
-/

namespace GitGateway.Stage

/-- What is reported about a crash. -/
def crashEvent (s : Session) (c : Crash) : LogEvent :=
  ⟨.error, "middleware::recover", "session handler panicked",
    [("user", s.user), ("command", Text.quotedList s.command), ("panic", c.message)]⟩

/-- What the session ends with after a crash. -/
def crashFailure (c : Crash) : SessionError :=
  .systemFailure (.ofText ("handler panicked: " ++ c.message))

/-- Contains the crashes of later stages. -/
def containment : Stage where
  enter := return some fun
    | .ok () => return ()
    | .error crash => do
      Handler.emit (crashEvent (← get) crash)
      Handler.fatal (crashFailure crash)

end GitGateway.Stage
