/-
# Replaying the log

The tails of the streams can be found again by reading a range of the log. The reads decide every
position of the range, so that the range stays as it was found. A stream that an entry of the range
names has its tail at the last such entry, whatever was known before; other streams keep what was
known of them.

How positions are read is left to a replication protocol, which a replay asks for the values of many
positions at a time. The chain is such a protocol.
-/
import SharedLog.Node.Call

namespace SharedLog

/-- What a replay has found. -/
structure TailSnapshot where
  /-- The first position after the range. -/
  globalTail : Position
  /-- The last position of each stream that was seen or known. -/
  streamTails : StreamPositions
  /-- How many entries the range holds. -/
  entries : Nat
  /-- How many holes the range holds. -/
  holes : Nat
deriving DecidableEq

namespace TailSnapshot

/-- The snapshot before anything is read. -/
def start (globalTail : Position) (known : StreamPositions) : TailSnapshot :=
  ⟨globalTail, known, 0, 0⟩

/-- The snapshot after one more position. -/
def record (s : TailSnapshot) (position : Position) (data : LogData) : TailSnapshot :=
  match data with
  | .hole => { s with holes := s.holes + 1 }
  | .entry e =>
    { s with
      entries := s.entries + 1
      streamTails := e.streams.foldl (fun tails stream => tails.insert stream (some position))
        s.streamTails }

/-- The snapshot after more positions, in their order. -/
def recordAll (s : TailSnapshot) (readings : Readings) : TailSnapshot := readings.foldl record s

end TailSnapshot

/-- The positions from one number up to another, which does not count. -/
def positionsBetween (first stop : Nat) : List Position :=
  (List.range' first (stop - first)).filterMap Position.ofNat?

/-- A program that asks a replication protocol for the values of positions. -/
abbrev ReplayProgram (α : Type) :=
  Program (List Position) (fun _ => Except ReplicationError Readings) α

/-- Replays the rest of a range in batches. -/
def replayFrom (batchSize : Nat) (stop next : Nat) (found : TailSnapshot) :
    ReplayProgram (Except ReplicationError TailSnapshot) :=
  if _h : next < stop then
    let batchEnd := min (next + max batchSize 1) stop
    (Program.ask (positionsBetween next batchEnd)).andThen fun readings =>
      replayFrom batchSize stop batchEnd (found.recordAll readings)
  else .done (.ok found)
termination_by stop - next
decreasing_by omega

/-- Replays the positions from `start` up to `logTail`, given what is known of some streams. -/
def rebuildTails (start logTail : Position) (known : StreamPositions) (batchSize : Nat) :
    ReplayProgram (Except ReplicationError TailSnapshot) :=
  replayFrom batchSize logTail.val start.val (.start logTail known)

/-- Replays a range of the log that a chain keeps. -/
def Chain.rebuildTails (c : Chain) (start logTail : Position) (known : StreamPositions)
    (batchSize : Nat) : NodeProgram (Except ReplicationError TailSnapshot) :=
  (SharedLog.rebuildTails start logTail known batchSize).interpret c.readMany

end SharedLog
