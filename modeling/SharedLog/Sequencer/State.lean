/-
# The sequencer's state

The sequencer hands out positions. It keeps its epoch, the global tail (the first position never
handed out) and the tail of each stream (the last position handed out for it). Requests made under
an older epoch are refused before anything else is looked at, and a refused request changes
nothing but the count of such refusals.

A bootstrap moves the sequencer to an epoch. A merge only raises tails; a full reset forgets them
and takes the hints as they are, provided that every stream's hint stays below the global one.
-/
import SharedLog.Error
import SharedLog.Layout
import SharedLog.Timestamp
import SharedLog.Stream.Text
import SharedLog.Token

namespace SharedLog

/-- What the sequencer tells of itself. -/
structure SequencerMetrics where
  epoch : Epoch
  globalTail : Position
  /-- How many streams have a tail. -/
  streamCount : Nat
  /-- How many positions were handed out, up to the largest count. -/
  tokensIssued : UInt64
  /-- How many queries of the tails were answered. -/
  queriesServed : UInt64
  /-- How many requests were refused for their epoch. -/
  staleRejections : UInt64
  /-- How many bootstraps took effect. -/
  bootstraps : UInt64
  /-- When the last bootstrap took effect. -/
  lastBootstrapAt : Option Timestamp
deriving DecidableEq

/-- The state of a sequencer. -/
structure Sequencer where
  epoch : Epoch
  /-- The first position that was never handed out. -/
  globalTail : Position
  /-- The last position handed out for each stream. -/
  streamTails : StreamTails
  /-- The last bootstrap that took effect. -/
  lastBootstrap : Option BootstrapRequest
  lastBootstrapAt : Option Timestamp
  /-- The longest run that one request may ask for. -/
  maxTokens : UInt64
  tokensIssued : UInt64
  queriesServed : UInt64
  staleRejections : UInt64
  bootstraps : UInt64
deriving DecidableEq

namespace Sequencer

/-- A fresh sequencer. -/
def new (epoch : Epoch) (maxTokens : UInt64) : Sequencer where
  epoch
  globalTail := Position.zero
  streamTails := ∅
  lastBootstrap := none
  lastBootstrapAt := none
  maxTokens
  tokensIssued := 0
  queriesServed := 0
  staleRejections := 0
  bootstraps := 0

/-- The last position handed out for a stream. -/
def streamTail (s : Sequencer) (stream : StreamId) : Option Position := s.streamTails[stream]?

/-- The tails of some streams. -/
def tailsOf (s : Sequencer) (streams : StreamSet) : StreamPositions := streams.mapTo s.streamTail

@[simp] theorem at?_tailsOf (s : Sequencer) (streams : StreamSet) (stream : StreamId) :
    (s.tailsOf streams).at? stream = if stream ∈ streams then s.streamTail stream else none := by
  rw [tailsOf, StreamPositions.at?, StreamSet.getElem?_mapTo]
  split <;> rfl

/-- What the sequencer tells of itself. -/
def metrics (s : Sequencer) : SequencerMetrics where
  epoch := s.epoch
  globalTail := s.globalTail
  streamCount := s.streamTails.size
  tokensIssued := s.tokensIssued
  queriesServed := s.queriesServed
  staleRejections := s.staleRejections
  bootstraps := s.bootstraps
  lastBootstrapAt := s.lastBootstrapAt

/-- The sum of two counts, or the largest count if the sum is larger. -/
def addSaturating (m n : UInt64) : UInt64 :=
  if m.toNat + n.toNat < UInt64.size then m + n else UInt64.ofNat (UInt64.size - 1)

/-- The refusal of a request made under an older epoch. -/
def refuseStale {α : Type} (s : Sequencer) (requested : Epoch) :
    Except SequencerError α × Sequencer :=
  (.error (.staleEpoch requested s.epoch), { s with staleRejections := s.staleRejections + 1 })

/-! ## Handing out positions -/

/-- The state after a run up to the position before `tail`, its last one being `last`. -/
def grant (s : Sequencer) (request : TokenRequest) (tail last : Position) : Sequencer :=
  { s with
    globalTail := tail
    streamTails := s.streamTails.moveTo request.streams last
    tokensIssued := addSaturating s.tokensIssued request.count }

@[simp] theorem streamTail_grant (s : Sequencer) (request : TokenRequest) (tail last : Position)
    (stream : StreamId) :
    (s.grant request tail last).streamTail stream =
      if stream ∈ request.streams then some last else s.streamTail stream :=
  StreamTails.getElem?_moveTo ..

/-- Hands out a run of positions, or answers a query of the tails. -/
def allocate (s : Sequencer) (request : TokenRequest) : Except SequencerError Token × Sequencer :=
  if request.epoch < s.epoch then s.refuseStale request.epoch
  else if s.maxTokens < request.count then
    (.error (.invalidArgument
      s!"requested {request.count} tokens, at most {s.maxTokens} per request"), s)
  else if request.isQuery then
    (.ok ⟨s.epoch, s.globalTail, 0, s.tailsOf request.streams⟩,
      { s with queriesServed := s.queriesServed + 1 })
  else match s.globalTail.add? request.count.toNat with
    | none => (.error (.tailOverflow s.globalTail request.count), s)
    | some tail => match tail.prev? with
      | none => (.error (.internal s!"empty run allocated at {s.globalTail}"), s)
      | some last =>
        (.ok ⟨s.epoch, s.globalTail, request.count, s.tailsOf request.streams⟩,
          s.grant request tail last)

/-! ## Bootstrapping -/

/-- Whether the sequencer has neither handed out a position nor been bootstrapped. -/
def isUntouched (s : Sequencer) : Bool := s.lastBootstrap.isNone ∧ s.tokensIssued = 0

/-- A hint for a stream that does not stay below the hint for the global tail, the first in the
order of streams. -/
def misplacedHint? (request : BootstrapRequest) : Option (StreamId × Position) :=
  request.streamTailHints.toList.findSome? fun (stream, hint) =>
    match hint with
    | some tail => if request.globalTailHint ≤ tail then some (stream, tail) else none
    | none => none

/-- Why a full reset cannot be applied, if anything speaks against it. -/
def resetObjection? (s : Sequencer) (request : BootstrapRequest) : Option SequencerError :=
  if request.newEpoch = s.epoch ∧ ¬s.isUntouched then
    some (.invalidArgument s!"full reset must advance the epoch past {s.epoch}")
  else if request.globalTailHint < request.rebuildStart then
    some (.invalidArgument
      (s!"global tail hint {request.globalTailHint} is before rebuild start " ++
        s!"{request.rebuildStart}"))
  else match misplacedHint? request with
    | some (stream, tail) =>
      some (.invalidArgument
        (s!"stream {stream} tail {tail} is not below global tail hint " ++
          s!"{request.globalTailHint}"))
    | none => none

/-- The tails that a full reset takes from its hints. -/
def hintedTails (hints : StreamPositions) : StreamTails := hints.filterMap fun _ hint => hint

/-- The global tail raised past every hinted position; no tail can follow the last position. -/
def raiseGlobalTail (tail : Position) (hints : StreamPositions) : Except SequencerError Position :=
  hints.toList.foldlM (fun tail (_, hint) =>
    match hint with
    | none => .ok tail
    | some p => match p.next? with
      | some after => .ok (max tail after)
      | none => .error (.tailOverflow p 1)) tail

/-- The tails raised to every higher hint. -/
def raiseTails (tails : StreamTails) (hints : StreamPositions) : StreamTails :=
  hints.foldl (fun tails stream hint =>
    match hint with
    | none => tails
    | some p => tails.alter stream fun tail => some ((tail.map (max p)).getD p)) tails

/-- The global tail and the tails that a bootstrap gives. -/
def reseed (s : Sequencer) (request : BootstrapRequest) :
    Except SequencerError (Position × StreamTails) :=
  if request.fullReset then
    match s.resetObjection? request with
    | some objection => .error objection
    | none => .ok (request.globalTailHint, hintedTails request.streamTailHints)
  else
    match raiseGlobalTail (max s.globalTail request.globalTailHint) request.streamTailHints with
    | .error e => .error e
    | .ok globalTail => .ok (globalTail, raiseTails s.streamTails request.streamTailHints)

/-- Moves the sequencer to the request's epoch with new tails, at the given moment. The request
that was last applied in the present epoch is answered without doing anything. -/
def bootstrap (s : Sequencer) (request : BootstrapRequest) (now : Timestamp) :
    Except SequencerError BootstrapOutcome × Sequencer :=
  if request.newEpoch < s.epoch then s.refuseStale request.newEpoch
  else if request.newEpoch = s.epoch ∧ s.lastBootstrap = some request then (.ok .alreadyApplied, s)
  else match s.reseed request with
    | .error e => (.error e, s)
    | .ok (globalTail, streamTails) =>
      (.ok .applied,
        { s with
          epoch := request.newEpoch
          globalTail
          streamTails
          lastBootstrap := some request
          lastBootstrapAt := some now
          bootstraps := s.bootstraps + 1 })

end Sequencer

end SharedLog
