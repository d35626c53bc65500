/-
# Errors

What can go wrong in the sequencer, in the replication of a position and in the node as a whole.
Every error has a message, a code for responses and logs, and two verdicts: whether the caller can
try again, and whether an invariant of the system is broken.
-/
import SharedLog.Duration
import SharedLog.Epoch
import SharedLog.Position

namespace SharedLog

/-- Why the sequencer refused or lost a request. -/
inductive SequencerError
  /-- The request was made under an older layout. -/
  | staleEpoch (requested current : Epoch)
  /-- The request makes no sense; nothing was changed. -/
  | invalidArgument (detail : String)
  /-- The global tail would leave the range of positions. -/
  | tailOverflow (globalTail : Position) (count : UInt64)
  /-- The sequencer has shut down. -/
  | serviceUnavailable (detail : String)
  /-- The sequencer failed inside. -/
  | internal (detail : String)
deriving DecidableEq

namespace SequencerError

/-- The error in words. -/
def message : SequencerError → String
  | staleEpoch requested current =>
    s!"stale epoch {requested}, sequencer is at epoch {current}"
  | invalidArgument detail => s!"invalid argument: {detail}"
  | tailOverflow globalTail count =>
    s!"global tail overflow: tail {globalTail} cannot advance by {count}"
  | serviceUnavailable detail => s!"service unavailable: {detail}"
  | internal detail => s!"internal error: {detail}"

/-- The error's code. -/
def code : SequencerError → String
  | staleEpoch .. => "STALE_EPOCH"
  | invalidArgument _ => "INVALID_ARGUMENT"
  | tailOverflow .. => "TAIL_OVERFLOW"
  | serviceUnavailable _ => "SERVICE_UNAVAILABLE"
  | internal _ => "INTERNAL_ERROR"

/-- Whether the caller can try again, under a newer epoch where that is the trouble. -/
def isRecoverable : SequencerError → Bool
  | staleEpoch .. | serviceUnavailable _ => true
  | _ => false

/-- Whether an invariant is broken. -/
def isFatal : SequencerError → Bool
  | tailOverflow .. => true
  | _ => false

/-- Whether the error is a stale epoch. -/
def isStaleEpoch : SequencerError → Bool
  | staleEpoch .. => true
  | _ => false

end SequencerError

/-- Why a position could not be read or written. -/
inductive ReplicationError
  /-- Another value owns the position. -/
  | writeConflict (position : Position)
  /-- A log unit could not be reached. -/
  | network (detail : String)
  /-- Two log units hold different values at the position. -/
  | inconsistent (position : Position) (detail : String)
  /-- The position is not committed even after a hole fill. -/
  | unresolved (position : Position)
  /-- The request or the set-up makes no sense. -/
  | invalidArgument (detail : String)
deriving DecidableEq

namespace ReplicationError

/-- The error in words. -/
def message : ReplicationError → String
  | writeConflict position => s!"write conflict at position {position}"
  | network detail => s!"network error: {detail}"
  | inconsistent position detail => s!"inconsistent replicas at position {position}: {detail}"
  | unresolved position => s!"position {position} unresolved after hole fill"
  | invalidArgument detail => s!"invalid argument: {detail}"

/-- The error's code. -/
def code : ReplicationError → String
  | writeConflict _ => "WRITE_CONFLICT"
  | network _ => "NETWORK_ERROR"
  | inconsistent .. => "INCONSISTENT_REPLICAS"
  | unresolved _ => "UNRESOLVED_POSITION"
  | invalidArgument _ => "INVALID_ARGUMENT"

/-- Whether the caller can try again. -/
def isRecoverable : ReplicationError → Bool
  | network _ | unresolved _ => true
  | _ => false

/-- Whether an invariant is broken. -/
def isFatal : ReplicationError → Bool
  | inconsistent .. => true
  | _ => false

/-- Whether the error is a lost race for a position. -/
def isWriteConflict : ReplicationError → Bool
  | writeConflict _ => true
  | _ => false

end ReplicationError

/-- A reader has run out of patience with a position. -/
structure HoleFillRequired where
  position : Position
  /-- How many times the position was looked at. -/
  attempts : Nat
  /-- How long the reader has waited. -/
  elapsed : Duration
deriving DecidableEq

/-- The signal in words. -/
def HoleFillRequired.message (signal : HoleFillRequired) : String :=
  s!"hole fill required at position {signal.position} after {signal.attempts} peeks " ++
    s!"({signal.elapsed.text})"

/-- Why waiting for a position gave no value. -/
inductive PeekError
  /-- Patience has run out. -/
  | holeFillRequired (signal : HoleFillRequired)
  /-- Looking at the position failed. -/
  | replication (error : ReplicationError)
deriving DecidableEq

/-- The error in words. -/
def PeekError.message : PeekError → String
  | holeFillRequired signal => signal.message
  | replication error => error.message

/-- An error of the node as a whole. -/
inductive ServerError
  | sequencer (error : SequencerError)
  | replication (error : ReplicationError)
  /-- The configuration cannot be started with. -/
  | config (detail : String)
  /-- The node failed inside. -/
  | internal (detail : String)
deriving DecidableEq

namespace ServerError

/-- The error in words. -/
def message : ServerError → String
  | sequencer error => s!"sequencer error: {error.message}"
  | replication error => s!"replication error: {error.message}"
  | config detail => s!"configuration error: {detail}"
  | internal detail => s!"internal error: {detail}"

/-- The error's code. -/
def code : ServerError → String
  | sequencer error => error.code
  | replication error => error.code
  | config _ => "CONFIG_ERROR"
  | internal _ => "INTERNAL_ERROR"

/-- Whether the caller can try again. -/
def isRecoverable : ServerError → Bool
  | sequencer error => error.isRecoverable
  | replication error => error.isRecoverable
  | config _ | internal _ => false

/-- Whether an invariant is broken. -/
def isFatal : ServerError → Bool
  | sequencer error => error.isFatal
  | replication error => error.isFatal
  | config _ | internal _ => false

/-- What a failed wait means to the node: the signal to fill a hole should never get so far, and
is an internal error. -/
def ofPeekError : PeekError → ServerError
  | .replication error => replication error
  | .holeFillRequired signal => internal signal.message

end ServerError

end SharedLog
