/-
# Entries

What a position of the log can hold. An entry carries a payload for some streams and, for each of
them, the position of the stream's previous entry. A hole says that the position is decided and
holds no data.
-/
import SharedLog.Token

namespace SharedLog

/-- A client's append. -/
structure LogEntry where
  /-- The streams that the entry belongs to; none if it is for the whole log only. -/
  streams : StreamSet
  /-- The previous position of each stream. -/
  backpointers : StreamPositions
  payload : List UInt8
deriving DecidableEq

namespace LogEntry

/-- The entry with a payload for the whole log only. -/
def bare (payload : List UInt8) : LogEntry := ⟨∅, ∅, payload⟩

/-- The entry with a payload for the streams of a token, with the token's backpointers. -/
def forToken (token : Token) (payload : List UInt8) : LogEntry :=
  ⟨Std.ExtTreeSet.ofList token.backpointers.keys, token.backpointers, payload⟩

/-- The previous position of a stream, if the entry knows one. -/
def backpointer (entry : LogEntry) (stream : StreamId) : Option Position :=
  entry.backpointers.at? stream

/-- Whether the entry belongs to a stream. -/
def belongsTo (entry : LogEntry) (stream : StreamId) : Bool := entry.streams.contains stream

end LogEntry

/-- The value of a decided position. -/
inductive LogData
  | entry (entry : LogEntry)
  | hole
deriving DecidableEq

namespace LogData

/-- Whether the value is a hole. -/
def isHole : LogData → Bool
  | hole => true
  | entry _ => false

/-- The entry, if the value is one. -/
def entry? : LogData → Option LogEntry
  | entry e => some e
  | hole => none

end LogData

/-- What a look at a position shows. -/
inductive SlotState
  /-- Every log unit holds the value. -/
  | committed (data : LogData)
  /-- A value is on its way through the chain. -/
  | pending
  /-- Nothing is written. -/
  | empty
deriving DecidableEq

/-- The value, if the position is committed. -/
def SlotState.committed? : SlotState → Option LogData
  | committed data => some data
  | pending | empty => none

/-- The answer to a conditional write. -/
inductive WriteOutcome
  /-- The position was empty and holds the value now. -/
  | written
  /-- The position already held this value, which stays. -/
  | conflict (existing : LogData)
deriving DecidableEq

end SharedLog
