/-
# Commands to the sequencer

The three things that the sequencer can be asked for, each with the type of its answer, and the
serving of one command.
-/
import SharedLog.Sequencer.State

namespace SharedLog

/-- A command to the sequencer. -/
inductive Command
  | allocate (request : TokenRequest)
  /-- A bootstrap with the moment it is served at. -/
  | bootstrap (request : BootstrapRequest) (now : Timestamp)
  | metrics
deriving DecidableEq

/-- What a command asks for. -/
abbrev Command.Answer : Command → Type
  | allocate _ => Token
  | bootstrap .. => BootstrapOutcome
  | metrics => SequencerMetrics

/-- What a command is told in the end. -/
abbrev Command.Result (command : Command) : Type := Except SequencerError command.Answer

/-- The result of a command served by the sequencer, and the sequencer after it. -/
def Sequencer.serve (s : Sequencer) : (command : Command) → command.Result × Sequencer
  | .allocate request => s.allocate request
  | .bootstrap request now => s.bootstrap request now
  | .metrics => (.ok s.metrics, s)

end SharedLog
