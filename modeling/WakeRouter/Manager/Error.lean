import WakeRouter.ControlPlane.Error

/-!
# Why a key has no running machine
-/

namespace WakeRouter

inductive ManagerError
  /-- No machine serves the key. -/
  | notFound (key : String)
  /-- The control plane did not say which machines serve the key. -/
  | transport (key : String) (source : ControlError)
  | wakeFailed (key : String) (source : ControlError)
  /-- The caller waited as long as it wanted to; the wake may still succeed. -/
  | wakeTimeout (key : String) (timeout : Duration)
  | cancelled (key : String)
deriving DecidableEq, Repr

namespace ManagerError

def key : ManagerError → String
  | .notFound key | .transport key _ | .wakeFailed key _ | .wakeTimeout key _ | .cancelled key => key

def reason : ManagerError → String
  | .notFound _ => "not found"
  | .transport _ source => s!"control plane lookup failed: {source.message}"
  | .wakeFailed _ source => s!"wake failed: {source.message}"
  | .wakeTimeout _ timeout => s!"wake timed out after {timeout.display}"
  | .cancelled _ => "cancelled while waiting for wake"

def message (e : ManagerError) : String :=
  s!"app {Text.quote e.key}: {e.reason}"

def isNotFound : ManagerError → Bool
  | .notFound _ => true
  | _ => false

/-- Whether a later call for the same key may succeed. -/
def isRetryable (e : ManagerError) : Bool :=
  !e.isNotFound

end ManagerError

end WakeRouter
