/-
# Jobs

A job is anything that somebody asks of a node: an operation on the chain, on a client, on the
sequencer or on the bootstrapper. Every job is a program of the node's actions, and its result is
whatever the program ends with.
-/
import SharedLog.Node

namespace SharedLog

/-- Something asked of a node. Clients are named by their numbers. -/
inductive Job
  | peek (position : Position)
  | write (position : Position) (entry : LogEntry)
  | holeFill (position : Position)
  | read (position : Position)
  | readMany (positions : List Position)
  | append (client : Nat) (streams : StreamSet) (payload : List UInt8)
  | tails (client : Nat) (streams : StreamSet)
  | clientRead (client : Nat) (position : Position)
  | readStream (client : Nat) (stream : StreamId)
  /-- A request made to the sequencer without a client. -/
  | allocate (request : TokenRequest)
  | bootstrap (request : BootstrapRequest)
  | layout (change : LayoutChange)
deriving DecidableEq

deriving instance DecidableEq for Bootstrapper

/-- Two outcomes are told apart by what they hold. -/
instance decidableEqExcept {ε α : Type} [DecidableEq ε] [DecidableEq α] : DecidableEq (Except ε α)
  | .ok a, .ok b => decidable_of_iff (a = b) (by simp)
  | .error e, .error e' => decidable_of_iff (e = e') (by simp)
  | .ok _, .error _ | .error _, .ok _ => .isFalse (by simp)

namespace Job

/-- What a job ends with. A change of layout also leaves the bootstrapper in a new state. -/
abbrev Result : Job → Type
  | peek _ => Except ReplicationError SlotState
  | write .. | holeFill _ => Except ReplicationError Unit
  | read _ => Except ReplicationError LogData
  | readMany _ => Except ReplicationError Readings
  | append .. => Except ServerError Position
  | tails .. => Except ServerError Token
  | clientRead .. => Except ServerError LogData
  | readStream .. => Except ServerError (List (Position × LogEntry))
  | allocate _ => Except SequencerError Token
  | bootstrap _ => Except SequencerError BootstrapOutcome
  | layout _ => BootstrapReply × Bootstrapper

instance : (job : Job) → DecidableEq job.Result
  | peek _ => inferInstanceAs (DecidableEq (Except ReplicationError SlotState))
  | write .. | holeFill _ => inferInstanceAs (DecidableEq (Except ReplicationError Unit))
  | read _ => inferInstanceAs (DecidableEq (Except ReplicationError LogData))
  | readMany _ => inferInstanceAs (DecidableEq (Except ReplicationError Readings))
  | append .. => inferInstanceAs (DecidableEq (Except ServerError Position))
  | tails .. => inferInstanceAs (DecidableEq (Except ServerError Token))
  | clientRead .. => inferInstanceAs (DecidableEq (Except ServerError LogData))
  | readStream .. =>
    inferInstanceAs (DecidableEq (Except ServerError (List (Position × LogEntry))))
  | allocate _ => inferInstanceAs (DecidableEq (Except SequencerError Token))
  | bootstrap _ => inferInstanceAs (DecidableEq (Except SequencerError BootstrapOutcome))
  | layout _ => inferInstanceAs (DecidableEq (BootstrapReply × Bootstrapper))

/-- The program of a job at a node, if the node has the client it is for. -/
def program? (n : Node) : (job : Job) → Option (NodeProgram job.Result)
  | peek position => some (.ofChain (n.chain.peek position))
  | write position entry => some (.ofChain (n.chain.write position entry))
  | holeFill position => some (.ofChain (n.chain.holeFill position))
  | read position => some (.ofChain (n.chain.read position))
  | readMany positions => some (n.chain.readMany positions)
  | append client streams payload =>
    n.clients[client]?.map fun c => c.append n.chain streams payload
  | tails client streams => n.clients[client]?.map fun c => c.tails streams
  | clientRead client position => n.clients[client]?.map fun c => c.read n.chain position
  | readStream client stream => n.clients[client]?.map fun c => c.readStream n.chain stream
  | allocate request => some (.act (.allocate request))
  | bootstrap request => some (.act (.bootstrap request))
  | layout change => some (n.bootstrapper.handle n.chain change)

/-- Whether the job is a change of layout. These are handled one at a time. -/
def isLayout : Job → Bool
  | layout _ => true
  | _ => false

/-- The node after a job has ended. -/
def conclude (n : Node) : (job : Job) → job.Result → Node
  | layout _, (_, bootstrapper) => { n with bootstrapper }
  | _, _ => n

end Job

end SharedLog
