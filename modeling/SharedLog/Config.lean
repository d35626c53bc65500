/-
# Configuration of a node

Every setting has a default and an environment variable. A configuration is checked before a node
starts with it; the check looks at the limit on tokens, the length of the chain and the order of
the two delays.
-/
import SharedLog.Bootstrapper
import SharedLog.Config.Environment
import SharedLog.HoleFill.Kind

namespace SharedLog

/-- The settings of the sequencer. -/
structure SequencerSettings where
  /-- How many commands may be queued. -/
  bufferSize : UInt64
  /-- The epoch before any bootstrap. -/
  initialEpoch : Epoch
  /-- The longest run that one request may ask for. -/
  maxTokensPerRequest : UInt64
deriving DecidableEq

/-- The settings of the replication. -/
structure ReplicationSettings where
  holeFillKind : HoleFillKind
  /-- How often a reader looks at a position, for the fixed kind. -/
  holeFillMaxAttempts : UInt32
  /-- The delay between two looks for the fixed kind, the first delay for the backoff kind. -/
  holeFillDelayMillis : UInt64
  /-- The largest delay for the backoff kind. -/
  holeFillMaxDelayMillis : UInt64
  /-- How long a reader waits in all, for the backoff kind. -/
  holeFillMaxElapsedMillis : UInt64
  /-- How many log units keep each position. -/
  chainLength : UInt64
deriving DecidableEq

/-- The configuration of a node. -/
structure Config where
  logLevel : String
  sequencer : SequencerSettings
  replication : ReplicationSettings
  management : BootstrapSettings
  /-- How often an append takes a token before it gives up. -/
  maxAppendAttempts : UInt32
deriving DecidableEq

/-- The sequencer's settings by default. -/
def SequencerSettings.default : SequencerSettings := ⟨10000, Epoch.zero, 1000000⟩

/-- The replication's settings by default. -/
def ReplicationSettings.default : ReplicationSettings := ⟨.backoff, 10, 10, 100, 1000, 1⟩

/-- How bootstraps are tried by default. -/
def BootstrapSettings.default : BootstrapSettings := ⟨3, 10, 256⟩

/-- The configuration by default. -/
def Config.default : Config := ⟨"info", .default, .default, .default, 5⟩

/-- The environment variables that settings come from. -/
def Config.variables : List String :=
  ["SEQLOG_LOG_LEVEL", "SEQLOG_SEQUENCER_BUFFER_SIZE", "SEQLOG_INITIAL_EPOCH",
    "SEQLOG_MAX_TOKENS_PER_REQUEST", "SEQLOG_HOLE_FILL_POLICY", "SEQLOG_HOLE_FILL_MAX_ATTEMPTS",
    "SEQLOG_HOLE_FILL_DELAY_MS", "SEQLOG_HOLE_FILL_MAX_DELAY_MS",
    "SEQLOG_HOLE_FILL_MAX_ELAPSED_MS", "SEQLOG_CHAIN_LENGTH", "SEQLOG_BOOTSTRAP_RETRY_COUNT",
    "SEQLOG_BOOTSTRAP_RETRY_BASE_MS", "SEQLOG_REPLAY_BATCH_SIZE", "SEQLOG_APPEND_MAX_ATTEMPTS"]

/-- The sequencer's settings in an environment. -/
def SequencerSettings.ofEnvironment (env : Environment) : SequencerSettings where
  bufferSize := env.positiveWord "SEQLOG_SEQUENCER_BUFFER_SIZE" default.bufferSize
  initialEpoch :=
    ((env.number? UInt64.size "SEQLOG_INITIAL_EPOCH").bind Epoch.ofNat?).getD default.initialEpoch
  maxTokensPerRequest := env.word "SEQLOG_MAX_TOKENS_PER_REQUEST" default.maxTokensPerRequest

/-- The replication's settings in an environment. -/
def ReplicationSettings.ofEnvironment (env : Environment) : ReplicationSettings where
  holeFillKind :=
    ((env.text? "SEQLOG_HOLE_FILL_POLICY").bind fun word => (HoleFillKind.ofText word).toOption).getD
      default.holeFillKind
  holeFillMaxAttempts := env.halfWord "SEQLOG_HOLE_FILL_MAX_ATTEMPTS" default.holeFillMaxAttempts
  holeFillDelayMillis := env.word "SEQLOG_HOLE_FILL_DELAY_MS" default.holeFillDelayMillis
  holeFillMaxDelayMillis := env.word "SEQLOG_HOLE_FILL_MAX_DELAY_MS" default.holeFillMaxDelayMillis
  holeFillMaxElapsedMillis :=
    env.word "SEQLOG_HOLE_FILL_MAX_ELAPSED_MS" default.holeFillMaxElapsedMillis
  chainLength := env.positiveWord "SEQLOG_CHAIN_LENGTH" default.chainLength

/-- How bootstraps are tried in an environment. -/
def BootstrapSettings.ofEnvironment (env : Environment) : BootstrapSettings where
  retryCount := env.positiveHalfWord "SEQLOG_BOOTSTRAP_RETRY_COUNT" default.retryCount
  retryBaseMillis := env.word "SEQLOG_BOOTSTRAP_RETRY_BASE_MS" default.retryBaseMillis
  replayBatchSize := env.positiveWord "SEQLOG_REPLAY_BATCH_SIZE" default.replayBatchSize

/-- The configuration in an environment. -/
def Config.ofEnvironment (env : Environment) : Config where
  logLevel := (env.text? "SEQLOG_LOG_LEVEL").getD default.logLevel
  sequencer := .ofEnvironment env
  replication := .ofEnvironment env
  management := .ofEnvironment env
  maxAppendAttempts := env.positiveHalfWord "SEQLOG_APPEND_MAX_ATTEMPTS" default.maxAppendAttempts

/-- The policy that the settings describe. -/
def ReplicationSettings.policy (s : ReplicationSettings) : HoleFillPolicy :=
  match s.holeFillKind with
  | .immediate => .immediate
  | .fixed => .fixed s.holeFillMaxAttempts (.ofMillis s.holeFillDelayMillis)
  | .backoff =>
    .backoff (.ofMillis s.holeFillDelayMillis) (.ofMillis s.holeFillMaxDelayMillis)
      (.ofMillis s.holeFillMaxElapsedMillis)

/-- Refuses a configuration that a node cannot start with. -/
def Config.validate (c : Config) : Except ServerError Unit :=
  let r := c.replication
  if c.sequencer.maxTokensPerRequest = 0 then
    .error (.config "max_tokens_per_request must be at least 1")
  else if r.chainLength = 0 then
    .error (.config "chain_length must be at least 1")
  else if r.holeFillMaxDelayMillis < r.holeFillDelayMillis then
    .error (.config
      (s!"hole_fill_max_delay_ms ({r.holeFillMaxDelayMillis}) is below hole_fill_delay_ms " ++
        s!"({r.holeFillDelayMillis})"))
  else .ok ()

end SharedLog
