import GitGateway.Chain.AccessLog
import GitGateway.Chain.Containment
import GitGateway.Chain.Screens
import GitGateway.Chain.Transport

/-!
# The standard chain

The stages every session goes through, outermost first.
-/

namespace GitGateway.Chain

/-- The stages of a gateway. -/
def standard (config : Config) : List Stage :=
  [.containment, .welcome config, .builtins, .transport config.reposPath, .accessLog]

end GitGateway.Chain
