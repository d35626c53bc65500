/-
# Calls of a node

The operations of a node make requests to the units of the chain and to the sequencer, and look at
the epoch that a client has learned. They also read several positions of the chain together, which
is one call here, since the reads run beside each other.
-/
import SharedLog.Chain
import SharedLog.Layout
import SharedLog.Program.Together

namespace SharedLog

/-- One indivisible action. -/
inductive Action
  | onUnit (call : UnitCall)
  /-- Asks the sequencer for positions. -/
  | allocate (request : TokenRequest)
  /-- Asks the sequencer to bootstrap. -/
  | bootstrap (request : BootstrapRequest)
  /-- Looks up the newest epoch that a client has seen. -/
  | knownEpoch (client : Nat)
  /-- Tells a client of an epoch. -/
  | observeEpoch (client : Nat) (epoch : Epoch)

/-- The answer to an action. -/
abbrev Action.Answer : Action → Type
  | onUnit call => call.Answer
  | allocate _ => Except SequencerError Token
  | bootstrap _ => Except SequencerError BootstrapOutcome
  | knownEpoch _ => Epoch
  | observeEpoch .. => Unit

/-- Whether an action is a request to the sequencer. -/
def Action.asksSequencer : Action → Bool
  | allocate _ | bootstrap _ => true
  | _ => false

/-- A call of a node's operation. -/
inductive NodeCall
  | act (action : Action)
  /-- Reads positions of the chain together. -/
  | readTogether (reads : List (ChainOperation (Position × LogData)))

/-- The answer to a call. -/
abbrev NodeCall.Answer : NodeCall → Type
  | act action => action.Answer
  | readTogether _ => Except ReplicationError (List (Position × LogData))

/-- A program of a node. -/
abbrev NodeProgram (α : Type) := Program NodeCall NodeCall.Answer α

/-- An operation of a node, which may fail. -/
abbrev NodeOperation (α : Type) := NodeProgram (Except ServerError α)

/-- The values of some positions in the order of positions. -/
abbrev Readings := Std.ExtTreeMap Position LogData

namespace NodeProgram

/-- The program that does one action. -/
def act (action : Action) : NodeProgram action.Answer := Program.ask (NodeCall.act action)

/-- A program of the chain as a program of a node. -/
def ofChain {α : Type} (p : ChainProgram α) : NodeProgram α :=
  p.interpret fun call => act (.onUnit call)

/-- An operation on the chain as an operation of a node. -/
def onChain {α : Type} (p : ChainOperation α) : NodeOperation α :=
  (ofChain p).mapError ServerError.replication

/-- Runs a program of a node on a virtual clock, with its actions answered by `answer`. -/
def run {α σ : Type} (w : Worker) (answer : (action : Action) → Timeline σ action.Answer)
    (p : NodeProgram α) : Timeline σ α :=
  Program.run w (fun
    | .act action => answer action
    | .readTogether reads => Program.runTogether w (fun call => answer (.onUnit call)) reads) p

end NodeProgram

/-- The values of several positions in the order of positions, given how they are read together. -/
def readMany {Call : Type} {Answer : Call → Type}
    (together : List Position → Program Call Answer (Except ReplicationError
      (List (Position × LogData)))) (positions : List Position) :
    Program Call Answer (Except ReplicationError Readings) :=
  (together positions).andThen fun readings => .done (.ok (Std.ExtTreeMap.ofList readings))

namespace Chain

/-- The value of a position, with the position. -/
def readAt (c : Chain) (position : Position) : ChainOperation (Position × LogData) :=
  (c.read position).andThen fun data => .done (.ok (position, data))

/-- The values of several positions, read together from the chain. -/
def readMany (c : Chain) (positions : List Position) :
    NodeProgram (Except ReplicationError Readings) :=
  SharedLog.readMany (fun positions => Program.ask (NodeCall.readTogether (positions.map c.readAt)))
    positions

end Chain

end SharedLog
