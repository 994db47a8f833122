/-!
# Ends of programs

A program that was started ends with a status of its own or by a signal.
-/

namespace GitGateway.Git

/-- How a program ended. -/
inductive Exit where
  | status (code : Nat)
  | signal (number : Nat)
deriving DecidableEq, Repr

namespace Exit

/-- Whether the program says that all went well. -/
def isSuccess (e : Exit) : Bool := e == .status 0

/-- The names of the signals, from the first on. -/
def signalNames : List String := [
  "SIGHUP", "SIGINT", "SIGQUIT", "SIGILL", "SIGTRAP", "SIGABRT", "SIGBUS", "SIGFPE", "SIGKILL",
  "SIGUSR1", "SIGSEGV", "SIGUSR2", "SIGPIPE", "SIGALRM", "SIGTERM", "SIGSTKFLT", "SIGCHLD",
  "SIGCONT", "SIGSTOP", "SIGTSTP", "SIGTTIN", "SIGTTOU", "SIGURG", "SIGXCPU", "SIGXFSZ",
  "SIGVTALRM", "SIGPROF", "SIGWINCH", "SIGIO", "SIGPWR", "SIGSYS"]

/-- The name of a signal in parentheses, if it has one. -/
def signalNote (number : Nat) : String :=
  match (0 :: List.range' 1 signalNames.length).zip ("" :: signalNames) |>.lookup number with
  | some "" | none => ""
  | some name => " (" ++ name ++ ")"

/-- The wording of an end. -/
def text : Exit → String
  | .status code => "exit status: " ++ toString code
  | .signal number => "signal: " ++ toString number ++ signalNote number

end Exit

end GitGateway.Git
