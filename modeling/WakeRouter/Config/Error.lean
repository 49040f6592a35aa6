import WakeRouter.Text.Quoted

/-!
# What can be wrong with a configuration

A configuration text may not parse, and a configuration that parses may not make
sense.  `ConfigError.message` gives the wording; of a text that does not parse, only
the faults that are this program's own have one.
-/

namespace WakeRouter

/-- Why a configuration text was refused. -/
inductive ConfigFault
  /-- The text is not a document, or a value has the wrong type or range. -/
  | malformed
  | invalidDuration (text : String)
  | missingField (name : String)
deriving DecidableEq, Repr

inductive ConfigError
  | unreadable (path : String) (cause : String)
  | unparsable (fault : ConfigFault)
  | missing (what : String)
  | idleTimeoutTooShort
  | invalidPort (port : Nat)
  | unsupportedScheme (url : String)
  | noHomeDirectory
deriving DecidableEq, Repr

def ConfigFault.message? : ConfigFault → Option String
  | .malformed => none
  | .invalidDuration text => some s!"invalid duration {Text.quote text}"
  | .missingField name => some s!"missing field `{name}`"

def ConfigError.message : ConfigError → String
  | .unreadable path cause => s!"failed to read {path}: {cause}"
  | .unparsable fault =>
      "failed to parse config: " ++ fault.message?.getD "not a valid configuration document"
  | .missing what => s!"{what} is required"
  | .idleTimeoutTooShort => "idle_timeout must be at least 30s"
  | .invalidPort port => s!"app_port must be between 1 and 65535, got {port}"
  | .unsupportedScheme url =>
      s!"unsupported control plane scheme in {Text.quote url}; " ++
        "use http://, https:// or a socket path"
  | .noHomeDirectory => "cannot expand ~ without a HOME directory"

end WakeRouter
