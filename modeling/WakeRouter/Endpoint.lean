import WakeRouter.Config.Error
import WakeRouter.Text.Blank
import WakeRouter.Text.Number
import WakeRouter.Text.Split

/-!
# Where the control plane listens

An endpoint is a plain or a TLS connection to a host, with a path that every request
starts with, or a socket in the file system.  `Endpoint.read` classifies a configured
address; everything without a scheme is a path.
-/

namespace WakeRouter

inductive Endpoint
  | http (connectAddress authority basePath : String)
  | https (connectAddress authority serverName basePath : String)
  | socket (path : String)
deriving DecidableEq, Repr

namespace Endpoint

/-- Whether an authority ends in a port; colons inside brackets do not count. -/
def hasPort (authority : List Char) : Bool :=
  match Text.splitLast ':' authority with
  | some (_, port) => !port.contains ']'
  | none => false

def withDefaultPort (authority : List Char) (port : Nat) : List Char :=
  if hasPort authority then authority else authority ++ ':' :: Text.writeNumber port

/-- The host of an authority, without its port and without brackets. -/
def hostOf (authority : List Char) : List Char :=
  match authority with
  | '[' :: rest => rest.takeWhile (· != ']')
  | _ =>
    match Text.splitLast ':' authority with
    | some (host, _) => host
    | none => authority

def trimSlashes (path : List Char) : List Char :=
  (path.reverse.dropWhile (· == '/')).reverse

/-- The authority and the base path of what follows a scheme. -/
def splitAuthority (rest : List Char) : Except ConfigError (List Char × List Char) :=
  let authority := rest.takeWhile (· != '/')
  if authority.isEmpty then .error (.missing "control_plane.url host")
  else .ok (authority, trimSlashes (rest.dropWhile (· != '/')))

/-- An absolute path replaces the folder; otherwise one separator stands between them. -/
def joinPath (folder path : List Char) : List Char :=
  match path with
  | '/' :: _ => path
  | _ =>
    match folder.getLast? with
    | none => path
    | some c => if c = '/' then folder ++ path else folder ++ '/' :: path

/-- Classify an address; `home` is the folder that a leading `~/` stands for. -/
def read (home : Option String) (address : String) : Except ConfigError Endpoint :=
  let raw := Text.trim address.toList
  match Text.dropPrefix? "https://".toList raw with
  | some rest => do
    let (authority, basePath) ← splitAuthority rest
    .ok <| .https (String.ofList (withDefaultPort authority 443)) (String.ofList authority)
      (String.ofList (hostOf authority)) (String.ofList basePath)
  | none =>
    match Text.dropPrefix? "http://".toList raw with
    | some rest => do
      let (authority, basePath) ← splitAuthority rest
      .ok <| .http (String.ofList (withDefaultPort authority 80)) (String.ofList authority)
        (String.ofList basePath)
    | none =>
      if Text.occurs "://".toList raw then .error (.unsupportedScheme (String.ofList raw))
      else
        match Text.dropPrefix? "~/".toList raw with
        | some rest =>
          match home with
          | some folder => .ok (.socket (String.ofList (joinPath folder.toList rest)))
          | none => .error .noHomeDirectory
        | none => .ok (.socket (String.ofList raw))

end Endpoint

end WakeRouter
