/-
# Bootstrapping the sequencer

A change of layout becomes a bootstrap of the sequencer: a merge of the hints that came with the
change, or a full reset to tails found by replaying the log. Failures that may pass are tried again
after growing delays. A change of an older epoch than the last one acknowledged is refused without
asking anybody.
-/
import SharedLog.Replay

namespace SharedLog

/-- How bootstraps are tried. -/
structure BootstrapSettings where
  /-- How often a bootstrap is tried. -/
  retryCount : UInt32
  /-- The delay in milliseconds before the second attempt; it doubles from attempt to attempt. -/
  retryBaseMillis : UInt64
  /-- How many positions a replay reads together. -/
  replayBatchSize : UInt64
deriving DecidableEq

/-- The party that bootstraps the sequencer on changes of layout. -/
structure Bootstrapper where
  settings : BootstrapSettings
  /-- The epoch of the last change that was acknowledged. -/
  lastApplied : Option Epoch

namespace Bootstrapper

/-- The request that a change amounts to. -/
def requestFor (b : Bootstrapper) (chain : Chain) (change : LayoutChange) :
    NodeOperation BootstrapRequest :=
  if change.fullReset then
    ((chain.rebuildTails change.rebuildStart change.globalTailHint change.streamTailHints
        b.settings.replayBatchSize.toNat).mapError ServerError.replication).andThen fun snapshot =>
      .done (.ok ⟨change.epoch, snapshot.globalTail, snapshot.streamTails, change.rebuildStart,
        true⟩)
  else
    .done (.ok (.merge change.epoch change.globalTailHint change.streamTailHints))

/-- One attempt to bootstrap the sequencer for a change. -/
def tryBootstrap (b : Bootstrapper) (chain : Chain) (change : LayoutChange) :
    NodeOperation BootstrapOutcome :=
  (b.requestFor chain change).andThen fun request =>
    (NodeProgram.act (.bootstrap request)).mapError ServerError.sequencer

/-- Whether a failure may pass. A stale epoch means that the sequencer has moved on, and stays. -/
def mayPass (e : ServerError) : Bool :=
  match e with
  | .sequencer (.staleEpoch ..) => false
  | _ => e.isRecoverable

/-- Twice a number of milliseconds, or the largest number of them. -/
def double (millis : UInt64) : UInt64 := UInt64.ofNat (min (2 * millis.toNat) (UInt64.size - 1))

/-- An attempt and, while its failure may pass, up to `more` further ones, the next after a delay
of `delay` milliseconds. -/
def attempts {α : Type} (attempt : NodeOperation α) : Nat → UInt64 → NodeOperation α
  | 0, _ => attempt
  | more + 1, delay =>
    attempt.bind fun
      | .ok a => .done (.ok a)
      | .error e =>
        if mayPass e then .sleep (.ofMillis delay) fun _ => attempts attempt more (double delay)
        else .done (.error e)

/-- The refusal of a change that is older than the last one acknowledged. -/
def outdated (change : LayoutChange) (last : Epoch) : BootstrapReply :=
  .nack s!"layout epoch {change.epoch} is older than applied epoch {last}"

/-- The epoch of the last change acknowledged, if the given change is older. -/
def newerEpoch? (b : Bootstrapper) (change : LayoutChange) : Option Epoch :=
  b.lastApplied.filter fun last => change.epoch < last

/-- Reacts to a change of layout. -/
def handle (b : Bootstrapper) (chain : Chain) (change : LayoutChange) :
    NodeProgram (BootstrapReply × Bootstrapper) :=
  match b.newerEpoch? change with
  | some last => .done (outdated change last, b)
  | none =>
    (attempts (b.tryBootstrap chain change) (b.settings.retryCount.toNat - 1)
        b.settings.retryBaseMillis).bind fun
      | .ok _ => .done (.ack, { b with lastApplied := some change.epoch })
      | .error e => .done (.nack e.message, b)

end Bootstrapper

end SharedLog
