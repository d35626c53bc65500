/-
# The command line

A node is started with options, each of which has an environment variable behind it. A number on
the command line or in its variable must be one; elsewhere in the environment a text that is no
number counts as unset.
-/
import SharedLog.Node

namespace SharedLog

/-- An option of the command line. -/
inductive CommandOption
  | logLevel
  | chainLength
deriving DecidableEq

/-- Why a command line is refused. -/
inductive UsageError
  /-- The argument is no option. -/
  | unexpected (argument : String)
  /-- The option stands at the end, without a value. -/
  | noValue (option : CommandOption)
  /-- The option stands there twice. -/
  | repeated (option : CommandOption)
  /-- The value of an option is no number in range. -/
  | noNumber (option : CommandOption) (value : String)
deriving DecidableEq

/-- The values of the options that are given. -/
structure StartOptions where
  logLevel : Option String
  chainLength : Option String
deriving DecidableEq

namespace CommandOption

/-- The option's name. -/
def name : CommandOption → String
  | logLevel => "--log-level"
  | chainLength => "--chain-length"

/-- The option with the name of its value. -/
def usage : CommandOption → String
  | logLevel => "--log-level <LOG_LEVEL>"
  | chainLength => "--chain-length <CHAIN_LENGTH>"

/-- The environment variable behind the option. -/
def variableName : CommandOption → String
  | logLevel => "SEQLOG_LOG_LEVEL"
  | chainLength => "SEQLOG_CHAIN_LENGTH"

/-- The option with a name. -/
def ofName? (text : String) : Option CommandOption :=
  [logLevel, chainLength].find? (·.name = text)

end CommandOption

/-- The error in words. -/
def UsageError.message : UsageError → String
  | unexpected argument => s!"unexpected argument '{argument}' found"
  | noValue option => s!"a value is required for '{option.usage}' but none was supplied"
  | repeated option => s!"the argument '{option.usage}' cannot be used multiple times"
  | noNumber option value => s!"invalid value '{value}' for '{option.usage}': not a number in range"

namespace StartOptions

/-- The options of an empty command line. -/
def empty : StartOptions := ⟨none, none⟩

/-- The value of an option, if it is given. -/
def get? (o : StartOptions) : CommandOption → Option String
  | .logLevel => o.logLevel
  | .chainLength => o.chainLength

/-- The options with one more value. -/
def set (o : StartOptions) (option : CommandOption) (value : String) : StartOptions :=
  match option with
  | .logLevel => { o with logLevel := some value }
  | .chainLength => { o with chainLength := some value }

/-- An argument of the form `--name=value` in two; others as they are. -/
def splitAssignment (argument : String) : List String :=
  let cs := argument.toList
  let name := cs.takeWhile (· ≠ '=')
  if cs.take 2 = ['-', '-'] ∧ name.length < cs.length then
    [String.ofList name, String.ofList (cs.drop (name.length + 1))]
  else [argument]

/-- The options in the rest of a command line, added to those read before. -/
def read (o : StartOptions) : List String → Except UsageError StartOptions
  | [] => .ok o
  | [argument] =>
    match CommandOption.ofName? argument with
    | none => .error (.unexpected argument)
    | some option => .error (.noValue option)
  | argument :: value :: rest =>
    match CommandOption.ofName? argument with
    | none => .error (.unexpected argument)
    | some option =>
      if (o.get? option).isSome then .error (.repeated option) else (o.set option value).read rest

/-- The options on a command line. -/
def ofArguments (arguments : List String) : Except UsageError StartOptions :=
  empty.read (arguments.flatMap splitAssignment)

/-- The value of an option from the command line or, failing that, from its variable. -/
def value? (o : StartOptions) (env : Environment) (option : CommandOption) : Option String :=
  (o.get? option).or (env.text? option.variableName)

/-- The configuration that options and environment give together. -/
def configure (o : StartOptions) (env : Environment) : Except UsageError Config :=
  let config := Config.ofEnvironment env
  let config := { config with logLevel := (o.value? env .logLevel).getD Config.default.logLevel }
  match o.value? env .chainLength with
  | none => .ok config
  | some value =>
    match Text.Numeral.ofText? UInt64.size value with
    | none => .error (.noNumber .chainLength value)
    | some n =>
      .ok { config with
        replication := { config.replication with chainLength := UInt64.ofNat n } }

end StartOptions

/-- What is announced when a node has started. -/
def Node.announcement (config : Config) (node : Node) : String :=
  let epoch := config.sequencer.initialEpoch
  let tail := (node.mailbox.sequencer.map (·.globalTail)).getD Position.zero
  s!"Node ready epoch={epoch} global_tail={tail} chain_length={node.chain.length} " ++
    s!"hole_fill_policy={config.replication.holeFillKind.text}"

/-- Why a node could not start, in words. -/
def StartError.message : StartError → String
  | badBuffer => "the sequencer cannot have a command buffer of this size"
  | replication error => error.message

end SharedLog
