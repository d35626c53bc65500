/-
# Clients

A client appends to the log and reads from it. It remembers the newest epoch it has seen, and
learns of newer ones from the sequencer's tokens and refusals. An append takes a token for one
position and writes its entry there; if the position is lost to somebody else, or the token was
asked for under an old epoch, it tries again.
-/
import SharedLog.Node.Call

namespace SharedLog

/-- A client of a node. -/
structure Client where
  /-- The number that the client's epoch is kept under. -/
  index : Nat
  /-- How often an append takes a token before it gives up. -/
  maxAppendAttempts : UInt32

namespace Client

/-- The newest epoch that the client has seen. -/
def knownEpoch (c : Client) : NodeProgram Epoch := NodeProgram.act (.knownEpoch c.index)

/-- Tells the client of an epoch, which counts if it is newer than all it has seen. -/
def observeEpoch (c : Client) (epoch : Epoch) : NodeProgram Unit :=
  NodeProgram.act (.observeEpoch c.index epoch)

/-- Sends a request to the sequencer and learns the sequencer's epoch from the answer. -/
def requestToken (c : Client) (request : TokenRequest) : NodeOperation Token :=
  (NodeProgram.act (.allocate request)).bind fun
    | .ok token => (c.observeEpoch token.epoch).bind fun () => .done (.ok token)
    | .error (.staleEpoch requested current) =>
      (c.observeEpoch current).bind fun () =>
        .done (.error (.sequencer (.staleEpoch requested current)))
    | .error e => .done (.error (.sequencer e))

/-! ## Appending -/

/-- Whether an append that failed in this way is worth another attempt. -/
def isWorthRetrying : ServerError → Bool
  | .sequencer e => e.isStaleEpoch
  | .replication e => e.isWriteConflict
  | _ => false

/-- One attempt to append: a token, and the entry written at its position. -/
def tryAppend (c : Client) (chain : Chain) (streams : StreamSet) (payload : List UInt8) :
    NodeOperation Position :=
  c.knownEpoch.bind fun epoch =>
    (c.requestToken ⟨epoch, 1, streams⟩).andThen fun token =>
      (NodeProgram.onChain (chain.write token.first (.forToken token payload))).andThen fun () =>
        .done (.ok token.first)

/-- One attempt to append and, while it is worth it, up to `more` further ones. -/
def appendAttempts (c : Client) (chain : Chain) (streams : StreamSet) (payload : List UInt8) :
    Nat → NodeOperation Position
  | 0 => c.tryAppend chain streams payload
  | more + 1 =>
    (c.tryAppend chain streams payload).bind fun
      | .ok position => .done (.ok position)
      | .error e =>
        if isWorthRetrying e then appendAttempts c chain streams payload more
        else .done (.error e)

/-- Appends a payload to the log and to some streams, and tells its position. -/
def append (c : Client) (chain : Chain) (streams : StreamSet) (payload : List UInt8) :
    NodeOperation Position :=
  c.appendAttempts chain streams payload (c.maxAppendAttempts.toNat - 1)

/-! ## Reading -/

/-- Asks for the tails of some streams under the newest epoch that the client has seen. -/
def queryTails (c : Client) (streams : StreamSet) : NodeOperation Token :=
  c.knownEpoch.bind fun epoch => c.requestToken (.query epoch streams)

/-- The global tail and the tails of some streams. A refusal for an old epoch has taught the client
the present one, so it asks once more. -/
def tails (c : Client) (streams : StreamSet) : NodeOperation Token :=
  (c.queryTails streams).bind fun
    | .error (.sequencer (.staleEpoch ..)) => c.queryTails streams
    | result => .done result

/-- The value of a position. -/
def read (_ : Client) (chain : Chain) (position : Position) : NodeOperation LogData :=
  NodeProgram.onChain (chain.read position)

/-- The entries of a stream met on at most `n` steps back from a position, newest first, before
those found already. From an entry of the stream the way goes along its backpointer; anything else
is stepped over, so that a broken link is mended by looking at each position before it. -/
def walkBack (chain : Chain) (stream : StreamId) :
    Nat → Option Position → List (Position × LogEntry) →
      NodeOperation (List (Position × LogEntry))
  | _, none, found => .done (.ok found)
  | 0, some _, _ => .unfinished
  | n + 1, some position, found =>
    (NodeProgram.onChain (chain.read position)).andThen fun
      | .hole => walkBack chain stream n position.prev? found
      | .entry entry =>
        if entry.belongsTo stream then
          walkBack chain stream n (entry.backpointer stream) ((position, entry) :: found)
        else walkBack chain stream n position.prev? found

/-- All entries of a stream with their positions, oldest first. -/
def readStream (c : Client) (chain : Chain) (stream : StreamId) :
    NodeOperation (List (Position × LogEntry)) :=
  (c.tails (.ofList [stream])).andThen fun token =>
    .unbounded fun n => walkBack chain stream n (token.backpointer stream) []

end Client

end SharedLog
