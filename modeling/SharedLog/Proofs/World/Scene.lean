/-
# Scenes

A scene is a node together with the trace of everything that was done to it so far: which activity
did which action, and what it was answered. Nothing that runs looks at the trace. It is there to
speak of the past.
-/
import SharedLog.Node

namespace SharedLog

/-- An action that was done. -/
structure Event where
  /-- The number of the activity that did it. -/
  activity : Nat
  action : Action
  answer : action.Answer

/-- A node with its past. -/
structure Scene where
  node : Node
  /-- What was done so far, the last event at the end. -/
  trace : List Event

namespace Scene

/-- An activity does an action at some moment. -/
def act (s : Scene) (id : Nat) (now : Timestamp) (action : Action) : action.Answer × Scene :=
  let (answer, node) := s.node.act now action
  (answer, ⟨node, s.trace ++ [⟨id, action, answer⟩]⟩)

/-- An action done by an activity leads from one scene to another with the given answer. -/
def Acts (s : Scene) (id : Nat) (action : Action) (answer : action.Answer) (s' : Scene) : Prop :=
  ∃ now, s.act id now action = (answer, s')

/-- The value of a position at the unit in a place of the chain. -/
def slot (s : Scene) (place : Nat) (position : Position) : Option LogData :=
  s.node.units[place]?.bind fun unit => unit.slots[position]?

/-- Every unit of the chain holds a value at a position. -/
def Committed (s : Scene) (position : Position) (data : LogData) : Prop :=
  ∀ unit ∈ s.node.units, unit.slots[position]? = some data

/-- An activity wrote a value to an empty position of the head. -/
def Accepted (s : Scene) (id : Nat) (position : Position) (data : LogData) : Prop :=
  ⟨id, .onUnit (.write Chain.head position data), .ok .written⟩ ∈ s.trace

/-- A unit goes offline or comes back. -/
def switch (s : Scene) (place : Nat) (offline : Bool) : Scene :=
  { s with node.units := s.node.units.modify place fun unit => { unit with offline } }

/-- A client with the given epoch comes to the node. -/
def join (s : Scene) (epoch : Epoch) (maxAppendAttempts : UInt32) : Scene :=
  { s with node := s.node.addClient epoch maxAppendAttempts }

end Scene

end SharedLog
