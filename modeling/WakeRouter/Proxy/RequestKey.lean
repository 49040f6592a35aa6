import WakeRouter.Http.Message
import WakeRouter.Proxy.HostKey

/-!
# The key of a request
-/

namespace WakeRouter

/-- The host that a request names: its first `Host` line when that is a text, otherwise
the authority of its target. -/
def requestHost? (headers : Http.Headers) (uri : Http.Uri) : Option (List Char) :=
  ((headers.find? "host").bind Http.Header.text?).or (uri.authority?.map String.toList)

def requestKey? (headers : Http.Headers) (uri : Http.Uri) : Option String :=
  ((requestHost? headers uri).bind hostKey?).map String.ofList

end WakeRouter
