import WakeRouter.Duration
import WakeRouter.Text.Quoted

/-!
# What can go wrong with a control plane call
-/

namespace WakeRouter

inductive ControlError
  | connect (cause : String)
  | tls (cause : String)
  | handshake (cause : String)
  | serverName (name : String)
  | http (cause : String)
  | request (cause : String)
  | status (code : Nat) (body : String)
  | decode (cause : String)
  | timeout (after : Duration)
  /-- Reported by the control plane itself. -/
  | remote (text : String)
deriving DecidableEq, Repr

namespace ControlError

def message : ControlError → String
  | .connect cause => s!"connect to control plane: {cause}"
  | .tls cause => s!"tls setup: {cause}"
  | .handshake cause => s!"tls handshake with control plane: {cause}"
  | .serverName name => s!"invalid tls server name {Text.quote name}"
  | .http cause => s!"http error: {cause}"
  | .request cause => s!"invalid request: {cause}"
  | .status code body => s!"control plane returned {code}: {body}"
  | .decode cause => s!"invalid response body: {cause}"
  | .timeout after => s!"control plane call timed out after {after.display}"
  | .remote text => text

end ControlError

/-- How a call ends that asks for a change and not for data. -/
inductive Acknowledgement
  | done
  | failed (cause : ControlError)
deriving DecidableEq, Repr

end WakeRouter
