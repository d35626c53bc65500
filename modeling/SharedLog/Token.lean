/-
# Tokens

A client asks the sequencer for a token: a run of consecutive positions for some streams, together
with the tail each of these streams had before the run. Asking for no position at all is a query of
the current tails.
-/
import SharedLog.Epoch
import SharedLog.Stream.Id

namespace SharedLog

/-- A request for consecutive positions. -/
structure TokenRequest where
  /-- The epoch that the client believes in. -/
  epoch : Epoch
  /-- How many positions; none is a query of the tails. -/
  count : UInt64
  /-- The streams that the positions are for. -/
  streams : StreamSet
deriving DecidableEq

/-- The query of the tails of some streams. -/
def TokenRequest.query (epoch : Epoch) (streams : StreamSet) : TokenRequest := ⟨epoch, 0, streams⟩

/-- Whether a request asks for no position. -/
def TokenRequest.isQuery (request : TokenRequest) : Bool := request.count = 0

/-- A run of positions handed out by the sequencer. -/
structure Token where
  /-- The sequencer's epoch when it handed out the run. -/
  epoch : Epoch
  /-- The first position of the run; for a query, the global tail. -/
  first : Position
  /-- The length of the run; none for a query. -/
  count : UInt64
  /-- The tail of each requested stream before the run; for a query, its current tail. -/
  backpointers : StreamPositions
deriving DecidableEq

namespace Token

/-- The last position of the run, if there is one in range. -/
def last? (token : Token) : Option Position :=
  if token.count = 0 then none else token.first.add? (token.count.toNat - 1)

/-- How many positions the run lists. A run lists no position from `2 ^ 64 - 1` on, since its end
is cut there. -/
def length (token : Token) : Nat :=
  min (token.first.val + token.count.toNat) (UInt64.size - 1) - token.first.val

/-- The first `n` positions of the run in order. -/
def firstPositions (token : Token) (n : Nat) : List Position :=
  (List.range' token.first.val (min n token.length)).filterMap Position.ofNat?

/-- All positions of the run in order. -/
def positions (token : Token) : List Position := token.firstPositions token.length

/-- The tail that the token tells of a stream. -/
def backpointer (token : Token) (stream : StreamId) : Option Position :=
  token.backpointers.at? stream

end Token

end SharedLog
