/-!
# Log events

What the gateway reports about its own work.  An event has a severity, the part of the gateway it
comes from, a message, and named details in a fixed order.
-/

namespace GitGateway

/-- How severe an event is. -/
inductive Severity where
  | trace
  | debug
  | info
  | warn
  | error
deriving DecidableEq, Repr

namespace Severity

/-- The name of a severity. -/
def name : Severity → String
  | .trace => "TRACE"
  | .debug => "DEBUG"
  | .info => "INFO"
  | .warn => "WARN"
  | .error => "ERROR"

end Severity

/-- One reported event. -/
structure LogEvent where
  severity : Severity
  /-- The part of the gateway that reports. -/
  origin : String
  message : String
  /-- Names and texts of the details, in order. -/
  details : List (String × String) := []
deriving DecidableEq, Repr

end GitGateway
