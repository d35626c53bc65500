/-
# The replication chain

Every position is kept by each log unit of a chain, head first and tail last. A value is written to
the head first; the head's conditional write decides which value owns the position, and the rest of
the chain only copies it. A position is committed once the tail holds its value.

The operations are programs whose calls are single requests to single units. A unit is named in a
call by its place in the chain, so different places are different units.
-/
import SharedLog.HoleFill.Patience
import SharedLog.LogUnit
import SharedLog.Text.Quoted

namespace SharedLog

/-- A request to one unit of the chain, the unit given by its place. -/
inductive UnitCall
  | peek (place : Nat) (position : Position)
  | write (place : Nat) (position : Position) (data : LogData)
deriving DecidableEq

/-- What a unit answers. -/
abbrev UnitCall.Answer : UnitCall → Type
  | peek .. => Except ReplicationError (Option LogData)
  | write .. => Except ReplicationError WriteOutcome

/-- A program of requests to units. -/
abbrev ChainProgram (α : Type) := Program UnitCall UnitCall.Answer α

/-- An operation on the chain, which may fail. -/
abbrev ChainOperation (α : Type) := ChainProgram (Except ReplicationError α)

/-- A chain of log units and the patience of its readers. -/
structure Chain where
  /-- The names of the units, head first. -/
  names : List String
  /-- There is a head. -/
  names_ne_nil : names ≠ []
  policy : HoleFillPolicy

namespace Chain

/-- The error of a chain without units. -/
def noUnits : ReplicationError :=
  .invalidArgument "replication chain needs at least one log unit"

/-- The chain of units with the given names. -/
def ofNames (names : List String) (policy : HoleFillPolicy) : Except ReplicationError Chain :=
  if h : names = [] then .error noUnits else .ok ⟨names, h, policy⟩

/-- The number of units. -/
def length (c : Chain) : Nat := c.names.length

/-- The place of the head. -/
def head : Nat := 0

/-- The place of the tail. -/
def tail (c : Chain) : Nat := c.length - 1

/-- The places and names of the units after the head. -/
def followers (c : Chain) : List (String × Nat) := c.names.zipIdx.tail

/-- The chain in words. -/
def text (c : Chain) : String :=
  "ChainReplicationProtocol \x7b chain: [" ++ ", ".intercalate (c.names.map Text.quoted) ++
    "], policy: " ++ c.policy.text ++ " \x7d"

/-! ## Single requests -/

/-- Asks the unit at a place for the value of a position. -/
def askPeek (place : Nat) (position : Position) : ChainOperation (Option LogData) :=
  Program.ask (UnitCall.peek place position)

/-- Asks the unit at a place to write a value to a position. -/
def askWrite (place : Nat) (position : Position) (data : LogData) : ChainOperation WriteOutcome :=
  Program.ask (UnitCall.write place position data)

/-! ## Propagation -/

/-- The error of a unit that holds another value than the head. -/
def diverged (position : Position) (name : String) : ReplicationError :=
  .inconsistent position s!"log unit {name} holds a different value"

/-- Copies a value that the head holds to the given units in order. A unit that holds the same
value already is as good as written. -/
def copyTo (position : Position) (data : LogData) : List (String × Nat) → ChainOperation Unit
  | [] => .done (.ok ())
  | (name, place) :: rest =>
    (askWrite place position data).andThen fun
      | .written => copyTo position data rest
      | .conflict existing =>
        if existing = data then copyTo position data rest
        else .done (.error (diverged position name))

/-- Copies a value that the head holds to all other units. -/
def propagate (c : Chain) (position : Position) (data : LogData) : ChainOperation Unit :=
  copyTo position data c.followers

/-! ## The operations -/

/-- Looks at a position: at the tail first, then, unless it is the same unit, at the head. Every
write starts at the head, so nothing can be elsewhere without being there. -/
def peek (c : Chain) (position : Position) : ChainOperation SlotState :=
  (askPeek c.tail position).andThen fun
    | some data => .done (.ok (.committed data))
    | none =>
      if c.length = 1 then .done (.ok .empty)
      else (askPeek head position).andThen fun
        | some _ => .done (.ok .pending)
        | none => .done (.ok .empty)

/-- Commits an entry at a position. Any value that the head holds already owns the position, even
an identical one. -/
def write (c : Chain) (position : Position) (entry : LogEntry) : ChainOperation Unit :=
  (askWrite head position (.entry entry)).andThen fun
    | .written => c.propagate position (.entry entry)
    | .conflict _ => .done (.error (.writeConflict position))

/-- Decides a position: with a hole, or with the value that the head holds already. -/
def holeFill (c : Chain) (position : Position) : ChainOperation Unit :=
  (askWrite head position .hole).andThen fun
    | .written => c.propagate position .hole
    | .conflict existing => c.propagate position existing

/-- The value of a position that was just decided. -/
def readDecided (c : Chain) (position : Position) : ChainOperation LogData :=
  (c.peek position).andThen fun state =>
    match state.committed? with
    | some data => .done (.ok data)
    | none => .done (.error (.unresolved position))

/-- The value of a position. The reader waits for it as its policy says and then decides the
position itself. -/
def read (c : Chain) (position : Position) : ChainOperation LogData :=
  (c.policy.awaitCommitted position (c.peek position)).bind fun
    | .ok data => .done (.ok data)
    | .error (.replication e) => .done (.error e)
    | .error (.holeFillRequired _) =>
      (c.holeFill position).andThen fun () => c.readDecided position

end Chain

end SharedLog
