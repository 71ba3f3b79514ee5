import NotificationQueue.Time.Duration

/-!
What can go wrong. A store fails for one of three causes; a request fails because the store did, or
for a reason of its own. Only refused input is the caller's doing, and only failures of the store
may pass on another attempt.
-/
namespace NotificationQueue

inductive StoreFault where
  | database (reason : String)
  | serialization (reason : String)
  | unavailable (reason : String)
  deriving DecidableEq

inductive Failure where
  | store (fault : StoreFault)
  | invalidInput (reason : String)
  | cancelled
  | healthCheckTimeout (budget : Duration)
  | shutdownTimeout
  | invalidConfig (reason : String)
  | internal (reason : String)
  deriving DecidableEq

namespace StoreFault

/-- The fault of a stored value that has no text at all. -/
def emptyText : StoreFault :=
  .serialization "EOF while parsing a value at line 1 column 0"

def message : StoreFault → String
  | .database reason => "database error: " ++ reason
  | .serialization reason => "serialization error: " ++ reason
  | .unavailable reason => "store unavailable: " ++ reason

end StoreFault

namespace Failure

def message : Failure → String
  | .store fault => "store error: " ++ fault.message
  | .invalidInput reason => "invalid input: " ++ reason
  | .cancelled => "request cancelled"
  | .healthCheckTimeout budget => "health check timed out after " ++ budget.describe
  | .shutdownTimeout => "graceful shutdown timed out"
  | .invalidConfig reason => "invalid configuration: " ++ reason
  | .internal reason => "internal error: " ++ reason

def isClientError : Failure → Bool
  | .invalidInput _ => true
  | _ => false

def isRetryable : Failure → Bool
  | .store _ | .healthCheckTimeout _ => true
  | _ => false

end Failure

end NotificationQueue
