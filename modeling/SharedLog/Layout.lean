/-
# Layouts

The layout of the log's servers is decided elsewhere. A change of layout reaches the node as a new
epoch with what the decider knows of the tails, and becomes a request to bootstrap the sequencer:
either to merge these tails into the present ones, or to forget the present ones.
-/
import SharedLog.Epoch
import SharedLog.Stream.Id

namespace SharedLog

/-- A request to move the sequencer to an epoch and to give it new tails. -/
structure BootstrapRequest where
  newEpoch : Epoch
  /-- The first position that was never handed out, as far as the sender knows. -/
  globalTailHint : Position
  /-- The last position of each stream, as far as the sender knows. -/
  streamTailHints : StreamPositions
  /-- Where the replay began that the hints come from. -/
  rebuildStart : Position
  /-- Whether to forget the present tails. -/
  fullReset : Bool
deriving DecidableEq

/-- The request to merge some hints under a new epoch. -/
def BootstrapRequest.merge (newEpoch : Epoch) (globalTailHint : Position)
    (streamTailHints : StreamPositions) : BootstrapRequest :=
  ⟨newEpoch, globalTailHint, streamTailHints, Position.zero, false⟩

/-- The answer to an accepted bootstrap. -/
inductive BootstrapOutcome
  /-- The tails have been set. -/
  | applied
  /-- The same request was the last one applied in this epoch; nothing has changed. -/
  | alreadyApplied
deriving DecidableEq

/-- A change of layout. -/
structure LayoutChange where
  /-- The epoch of the new layout. -/
  epoch : Epoch
  /-- Whether to find the tails by replaying the log. -/
  fullReset : Bool
  /-- Where such a replay starts. -/
  rebuildStart : Position
  globalTailHint : Position
  streamTailHints : StreamPositions
deriving DecidableEq

/-- The answer to a change of layout. -/
inductive BootstrapReply
  | ack
  | nack (reason : String)
deriving DecidableEq

/-- Whether the change was accepted. -/
def BootstrapReply.isAck : BootstrapReply → Bool
  | ack => true
  | nack _ => false

end SharedLog
