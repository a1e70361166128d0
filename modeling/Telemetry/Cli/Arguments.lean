import Telemetry.Config
import Telemetry.Text.Decimal

/-! The arguments of the command line: options for all commands, then the command `dial` and its own
options. A value is looked at only when the next option begins or the arguments end, so that of two
faults a later one may be found first. -/

namespace Telemetry.Cli

/-- The ways in which arguments are not run as a command. Asking for help or for the version is one
of them. -/
inductive UsageFault
  | help
  | version
  | helpOnMissing
  | missingCommand
  | missingRequired
  | unknownArgument
  | unknownCommand
  | missingValue
  | invalidValue
  | unexpectedValue
  | repeatedArgument
  deriving DecidableEq, Repr

inductive Flag
  | insecure
  | skipVerify
  | proxyFromEnvironment
  | noPrefix
  | debug
  | help
  | version
  deriving DecidableEq, Repr

/-- Options that take a value. -/
inductive Setting
  | address
  | username
  | password
  | authorityPath
  | certificatePath
  | keyPath
  | timeout
  | maxMessageSize
  deriving DecidableEq, Repr

inductive Key
  | flag (flag : Flag)
  | setting (setting : Setting)
  deriving DecidableEq, Repr

def Key.ofName? (name : String) : Option Key :=
  match name with
  | "address" => some (.setting .address)
  | "username" => some (.setting .username)
  | "password" => some (.setting .password)
  | "insecure" => some (.flag .insecure)
  | "tls-ca" => some (.setting .authorityPath)
  | "tls-cert" => some (.setting .certificatePath)
  | "tls-key" => some (.setting .keyPath)
  | "timeout" => some (.setting .timeout)
  | "skip-verify" => some (.flag .skipVerify)
  | "proxy-from-env" => some (.flag .proxyFromEnvironment)
  | "max-msg-size" => some (.setting .maxMessageSize)
  | "no-prefix" => some (.flag .noPrefix)
  | "debug" => some (.flag .debug)
  | "help" => some (.flag .help)
  | "version" => some (.flag .version)
  | _ => none

def Key.ofLetter? (letter : Char) : Option Key :=
  match letter with
  | 'a' => some (.setting .address)
  | 'u' => some (.setting .username)
  | 'p' => some (.setting .password)
  | 'd' => some (.flag .debug)
  | 'h' => some (.flag .help)
  | 'V' => some (.flag .version)
  | _ => none

/-- The options that have been read. Only addresses may be given more than once. -/
structure Given where
  addresses : List String := []
  values : List (Setting × String) := []
  flags : List Flag := []
  deriving DecidableEq, Repr

namespace Given

def isEmpty (g : Given) : Bool := g.addresses.isEmpty && g.values.isEmpty && g.flags.isEmpty

def value? (g : Given) (s : Setting) : Option String := g.values.lookup s

def has (g : Given) (f : Flag) : Bool := g.flags.contains f

/-- The largest size of a message, in its unit. -/
def readSize? (value : String) : Option Nat := Text.readNat? Config.maxCount value.toList

/-- Adds a value. Addresses are separated by commas. -/
def addValue (g : Given) (s : Setting) (value : String) : Except UsageFault Given :=
  match s with
  | .address =>
    .ok { g with
      addresses := g.addresses ++ (Text.fieldsAt ',' value.toList).map String.ofList }
  | s =>
    if (g.value? s).isSome then .error .repeatedArgument
    else if s = .maxMessageSize && (readSize? value).isNone then .error .invalidValue
    else .ok { g with values := g.values ++ [(s, value)] }

def addFlag (g : Given) (f : Flag) : Except UsageFault Given :=
  match f with
  | .help => .error .help
  | .version => .error .version
  | f => if g.has f then .error .repeatedArgument else .ok { g with flags := g.flags ++ [f] }

end Given

/-- What has been read, and the option at the end that has not been looked at, with its value if
that is there. -/
structure Reading where
  given : Given := {}
  last : Option (Setting × Option String) := none
  deriving DecidableEq, Repr

namespace Reading

/-- Looks at the last option. -/
def settle (r : Reading) : Except UsageFault Given :=
  match r.last with
  | none => .ok r.given
  | some (_, none) => .error .missingValue
  | some (s, some value) => r.given.addValue s value

/-- The next argument is the value of the last option, unless it is an option. -/
def awaitsValue (r : Reading) : Bool :=
  match r.last with
  | some (_, none) => true
  | _ => false

def addFlag (r : Reading) (f : Flag) : Except UsageFault Reading := do
  return ⟨← (← r.settle).addFlag f, none⟩

def addAttached (r : Reading) (s : Setting) (value : List Char) :
    Except UsageFault Reading := do
  return ⟨← (← r.settle).addValue s (String.ofList value), none⟩

def begin (r : Reading) (s : Setting) : Except UsageFault Reading := do
  return ⟨← r.settle, some (s, none)⟩

/-- Reads an argument after its two dashes: a name, and perhaps a value after an equals sign. -/
def readLong (r : Reading) (cs : List Char) : Except UsageFault Reading :=
  let name := String.ofList (cs.takeWhile (· != '='))
  let value := Text.splitFirst '=' cs
  match Key.ofName? name, value with
  | none, _ => .error .unknownArgument
  | some (.flag _), some _ => .error .unexpectedValue
  | some (.flag f), none => r.addFlag f
  | some (.setting s), some (_, value) => r.addAttached s value
  | some (.setting s), none => r.begin s

/-- Reads letters after a dash. What follows the letter of a setting is its value. -/
def readShort (r : Reading) : List Char → Except UsageFault Reading
  | [] => .ok r
  | c :: cs =>
    match Key.ofLetter? c with
    | none => .error .unknownArgument
    | some (.flag f) => do (← r.addFlag f).readShort cs
    | some (.setting s) =>
      match cs with
      | [] => r.begin s
      | '=' :: value => r.addAttached s value
      | value => r.addAttached s value

end Reading

def commandNames : List String := ["dial", "help"]

/-- The arguments of `help` are the name of at most one command. -/
def readHelp : List String → UsageFault
  | [] => .help
  | [name] => if commandNames.contains name then .help else .unknownCommand
  | _ => .unknownCommand

/-- Reads the arguments of `dial`: whether the lines are collected. -/
def readDial (collect : Bool) : List String → Except UsageFault Bool
  | [] => .ok collect
  | arg :: args =>
    match arg.toList with
    | ['-', '-'] => if args.isEmpty then .ok collect else .error .unknownArgument
    | '-' :: '-' :: cs =>
      let name := String.ofList (cs.takeWhile (· != '='))
      if name ≠ "collect" ∧ name ≠ "help" then .error .unknownArgument
      else if cs.contains '=' then .error .unexpectedValue
      else if name = "help" then .error .help
      else if collect then .error .repeatedArgument
      else readDial true args
    | '-' :: 'h' :: _ => .error .help
    | _ => .error .unknownArgument

structure Arguments where
  given : Given
  collect : Bool
  deriving DecidableEq, Repr

/-- The address is required, and a password needs a username. -/
def Arguments.check (a : Arguments) : Except UsageFault Arguments :=
  if a.given.addresses.isEmpty then .error .missingRequired
  else if (a.given.value? .password).isSome && (a.given.value? .username).isNone then
    .error .missingRequired
  else .ok a

/-- Reads arguments up to the command and its own arguments. -/
def readArguments (r : Reading) : List String → Except UsageFault Arguments
  | [] => do
    let given ← r.settle
    .error (if given.isEmpty then .helpOnMissing else .missingCommand)
  | arg :: args =>
    if !r.awaitsValue && arg = "dial" then do
      let collect ← readDial false args
      Arguments.check ⟨← r.settle, collect⟩
    else if !r.awaitsValue && arg = "help" then .error (readHelp args)
    else
      match arg.toList with
      | ['-', '-'] =>
        match args with
        | [] => do
          let given ← r.settle
          .error (if given.isEmpty then .helpOnMissing else .missingCommand)
        | next :: _ =>
          .error (if commandNames.contains next then .unknownArgument else .unknownCommand)
      | '-' :: '-' :: cs => do readArguments (← r.readLong cs) args
      | '-' :: c :: cs => do readArguments (← r.readShort (c :: cs)) args
      | _ =>
        match r.last with
        | some (s, none) => readArguments ⟨r.given, some (s, some arg)⟩ args
        | _ => .error .unknownCommand

namespace Arguments

def parse (args : List String) : Except UsageFault Arguments := readArguments {} args

/-- The addresses that are not blank, without blanks around them. -/
def targets (a : Arguments) : List String :=
  (a.given.addresses.map fun s => String.ofList (Text.trim s.toList)).filter (· ≠ "")

/-- Lines start with their target when there are several of them. -/
def labelled (a : Arguments) : Bool := 1 < a.targets.length && !a.given.has .noPrefix

def credentials (a : Arguments) : Except ConfigFault (Option Credentials) :=
  match a.given.value? .username with
  | none => .ok none
  | some username =>
    (Credentials.make username ((a.given.value? .password).getD "")).map some

def paths (a : Arguments) : List String :=
  [.certificatePath, .keyPath, .authorityPath].filterMap a.given.value?

def config (a : Arguments) : Except ConfigFault Config := do
  let default : Config := {}
  let text (s : Setting) (otherwise : String) : String := (a.given.value? s).getD otherwise
  return {
    timeout := text .timeout default.timeout
    maxMessageSize :=
      ((a.given.value? .maxMessageSize).bind Given.readSize?).getD default.maxMessageSize
    proxyFromEnvironment := a.given.has .proxyFromEnvironment
    skipVerify := a.given.has .skipVerify
    insecure := a.given.has .insecure
    certificatePath := text .certificatePath ""
    keyPath := text .keyPath ""
    authorityPath := text .authorityPath ""
    credentials := ← a.credentials }

end Arguments

end Telemetry.Cli
