import GitGateway.Gateway

/-!
# Chains of stages

A session goes through an ordered list of stages.  A stage does its work and either ends the chain
or lets the rest run, and once the rest has run, or crashed, the stage may do some more.  As soon as
a stage has ended the session, later stages are skipped unless they ask to see ended sessions.
-/

namespace GitGateway

/-- What a stage does after the rest of the chain, given how the rest ended. -/
abbrev Leave := Except Crash Unit → Handler Unit

/-- A stage of a chain. -/
structure Stage where
  /-- Whether the stage also sees sessions that have ended. -/
  runsAfterExit : Bool := false
  /-- The work before the rest.  The rest runs only if the stage says how it leaves. -/
  enter : Handler (Option Leave)

namespace Stage

/-- A stage that works first and then lets the rest run. -/
def before (work : Handler Unit) : Stage where
  enter := do
    work
    return some Handler.resume

/-- Whether a session has to pass by this stage. -/
def skips (stage : Stage) (s : Session) : Bool := s.isTerminated && !stage.runsAfterExit

end Stage

namespace Chain

/-- Runs a session through the stages. -/
def run : List Stage → Handler Unit
  | [] => return ()
  | stage :: rest => do
    if stage.skips (← get) then run rest
    else
      match ← stage.enter with
      | none => return ()
      | some leave => leave (← (run rest).outcome)

end Chain

end GitGateway
