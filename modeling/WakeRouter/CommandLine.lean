import WakeRouter.Config.Load

/-!
# The command line

`run` starts the router and `check` prints the settings it would run with.  Arguments
are read from left to right, and the first that cannot be understood decides; a request
for help or for the version is answered where it stands.
-/

namespace WakeRouter

inductive Command
  | run (config : String) (listen? askListen? : Option Net.SocketAddress)
  | check (config : String)
deriving DecidableEq, Repr

/-- The file that the configuration is read from. -/
def Command.config : Command → String
  | .run config _ _ | .check config => config

/-- What the arguments ask for. -/
inductive Invocation
  | help
  | version
  | command (logJson : Bool) (command : Command)
deriving DecidableEq, Repr

namespace CommandLine

def defaultConfig : String := "relight.toml"

def versionText : String := "relightd 0.1.0\n"

def helpText : String :=
  "\n".intercalate
    ["Scale-to-zero router for microVMs", "",
      "Usage: relightd [--log-json] run [--config PATH] [--listen ADDR] [--ask-listen ADDR]",
      "       relightd [--log-json] check [--config PATH]", ""]

def usageText : String := "error: the arguments cannot be understood; see --help\n"

/-- The options met so far. -/
structure Options where
  logJson : Bool
  config? : Option String
  listen? : Option Net.SocketAddress
  askListen? : Option Net.SocketAddress

inductive Verb
  | run
  | check
deriving DecidableEq

/-- Options that take a value. -/
inductive Setting
  | config
  | listen
  | askListen

/-- The long options of a command. -/
def setting? (verb : Verb) (name : String) : Option Setting :=
  match name, verb with
  | "config", _ => some .config
  | "listen", .run => some .listen
  | "ask-listen", .run => some .askListen
  | _, _ => none

/-- Give an option its value.  No option may be given twice, a path must not be empty
and an address must be one. -/
def Options.set (o : Options) (setting : Setting) (value : String) : Option Options :=
  match setting with
  | .config =>
    if o.config?.isSome || value.isEmpty then none else some { o with config? := some value }
  | .listen =>
    if o.listen?.isSome then none
    else (Net.SocketAddress.read? value.toList).map fun a => { o with listen? := some a }
  | .askListen =>
    if o.askListen?.isSome then none
    else (Net.SocketAddress.read? value.toList).map fun a => { o with askListen? := some a }

/-- A value that stands in an argument of its own does not begin with a hyphen, unless it
is nothing else. -/
def isValue (argument : String) : Bool :=
  !argument.startsWith "-" || argument == "-"

/-- One argument taken apart. -/
inductive Token
  | long (name : String) (value? : Option String)
  | short (letter : Char) (rest : List Char)
  /-- Two hyphens: no options follow. -/
  | stop
  | word (text : String)

def token (argument : String) : Token :=
  match argument.toList with
  | ['-', '-'] => .stop
  | '-' :: '-' :: s =>
    let name := String.ofList (s.takeWhile (· != '='))
    match s.dropWhile (· != '=') with
    | [] => .long name none
    | _ :: value => .long name (some (String.ofList value))
  | '-' :: c :: s => .short c s
  | _ => .word argument

/-- What the arguments of a command come to. -/
inductive Parsed
  | help
  | options (o : Options)

/-- The arguments after a command's name; `flagged` tells whether `--log-json` has been
among them. -/
def parseOptions (verb : Verb) (flagged : Bool) (o : Options) : List String → Option Parsed
  | [] => some (.options o)
  | argument :: rest =>
    match token argument with
    | .stop => if rest.isEmpty then some (.options o) else none
    | .word _ => none
    | .short 'h' _ => some .help
    | .short 'c' [] =>
      match rest with
      | value :: rest =>
        if isValue value then do parseOptions verb flagged (← o.set .config value) rest else none
      | [] => none
    | .short 'c' ('=' :: value) => do
      parseOptions verb flagged (← o.set .config (String.ofList value)) rest
    | .short 'c' value => do
      parseOptions verb flagged (← o.set .config (String.ofList value)) rest
    | .short _ _ => none
    | .long "help" none => some .help
    | .long "log-json" none =>
      if flagged then none else parseOptions verb true { o with logJson := true } rest
    | .long name value? =>
      match setting? verb name, value? with
      | none, _ => none
      | some setting, some value => do parseOptions verb flagged (← o.set setting value) rest
      | some setting, none =>
        match rest with
        | value :: rest =>
          if isValue value then do parseOptions verb flagged (← o.set setting value) rest
          else none
        | [] => none

def noOptions (logJson : Bool) : Options := ⟨logJson, none, none, none⟩

def invocation (verb : Verb) : Parsed → Invocation
  | .help => .help
  | .options o =>
    let config := o.config?.getD defaultConfig
    match verb with
    | .run => .command o.logJson (.run config o.listen? o.askListen?)
    | .check => .command o.logJson (.check config)

/-- The arguments of the whole program; `none` when they cannot be understood. -/
def parse? (logJson : Bool) : List String → Option Invocation
  | [] => none
  | argument :: rest =>
    match token argument with
    | .word "run" => (parseOptions .run false (noOptions logJson) rest).map (invocation .run)
    | .word "check" =>
      (parseOptions .check false (noOptions logJson) rest).map (invocation .check)
    | .word "help" =>
      match rest with
      | [] | ["run"] | ["check"] | ["help"] => some .help
      | _ => none
    | .short 'h' _ => some .help
    | .short 'V' _ => some .version
    | .long "help" none => some .help
    | .long "version" none => some .version
    | .long "log-json" none => if logJson then none else parse? true rest
    | _ => none

end CommandLine

/-- How the program ends, or that it goes on to serve. -/
inductive Outcome
  | usage
  | help
  | version
  /-- The settings that `check` prints. -/
  | settings (text : String)
  | unloadable (error : LoadError)
  | unbound (report : Report)
  | serving (config : Config)

namespace Outcome

def code : Outcome → Nat
  | .usage => 2
  | .unloadable _ => 1
  | .unbound _ => 1
  | _ => 0

end Outcome

namespace CommandLine

/-- Take up both listeners, the proxy's first; `bind` tells why an address cannot be
used. -/
def bindListeners (bind : Net.SocketAddress → Option String) (c : Config) : Outcome :=
  match bind c.server.listen with
  | some cause => .unbound ⟨s!"bind proxy listener on {c.server.listen.toText}", some cause⟩
  | none =>
    match c.server.askListen? with
    | none => .serving c
    | some address =>
      match bind address with
      | some cause => .unbound ⟨s!"bind ask listener on {address.toText}", some cause⟩
      | none => .serving c

def execute (env : Environment) (contentOf : String → Except String Bytes)
    (bind : Net.SocketAddress → Option String) : Command → Outcome
  | .run path listen? askListen? =>
    match Config.load env path (contentOf path) listen? askListen? with
    | .error e => .unloadable e
    | .ok config => bindListeners bind config
  | .check path =>
    match Config.load env path (contentOf path) none none with
    | .error e => .unloadable e
    | .ok config => .settings config.effective.write

def start (env : Environment) (contentOf : String → Except String Bytes)
    (bind : Net.SocketAddress → Option String) (arguments : List String) : Outcome :=
  match parse? false arguments with
  | none => .usage
  | some .help => .help
  | some .version => .version
  | some (.command _ command) => execute env contentOf bind command

end CommandLine

end WakeRouter
