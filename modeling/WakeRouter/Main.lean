import WakeRouter.CommandLine

/-!
# The program

Arguments, environment and file come in, and texts and an exit code go out.  There are no
sockets here, so `run` gets as far as its listeners.
-/

namespace WakeRouter.Main

/-- Why a file cannot be read. -/
def cause : IO.Error → String
  | .noFileOrDirectory .. => "No such file or directory (os error 2)"
  | .permissionDenied .. => "Permission denied (os error 13)"
  | .inappropriateType .. => "Is a directory (os error 21)"
  | e => toString e

def contentOf (path : String) : IO (Except String Bytes) := do
  try
    let bytes ← IO.FS.readBinFile path
    return .ok bytes.toList
  catch e => return .error (cause e)

def environment : IO Environment := do
  return ⟨← IO.getEnv "HOME", ← IO.getEnv "RELIGHT_TOKEN"⟩

/-- No address can be listened on. -/
def bind (_ : Net.SocketAddress) : Option String :=
  some "Operation not supported (os error 95)"

def outcome (arguments : List String) : IO Outcome := do
  match CommandLine.parse? false arguments with
  | none => return .usage
  | some .help => return .help
  | some .version => return .version
  | some (.command _ command) =>
    let content ← contentOf command.config
    return CommandLine.execute (← environment) (fun _ => content) bind command

def report : Outcome → IO Unit
  | .usage => IO.eprint CommandLine.usageText
  | .help => IO.print CommandLine.helpText
  | .version => IO.print CommandLine.versionText
  | .settings text => IO.print text
  | .unloadable e => IO.eprint e.report.text
  | .unbound r => IO.eprint r.text
  | .serving _ => return ()

end WakeRouter.Main

def main (arguments : List String) : IO UInt32 := do
  let outcome ← WakeRouter.Main.outcome arguments
  WakeRouter.Main.report outcome
  return UInt32.ofNat outcome.code
