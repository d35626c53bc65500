/-
# Log units

A log unit keeps one value per position and writes a position only while it is empty. A unit can
be offline, when it answers every request with a network error. Requests are counted whether they
are served or not.
-/
import SharedLog.Entry
import SharedLog.Error

namespace SharedLog

/-- A log unit that keeps its slots in memory. -/
structure LogUnit where
  name : String
  /-- The values of the positions that have one. -/
  slots : Std.ExtTreeMap Position LogData
  offline : Bool
  /-- How often the unit was asked for a value. -/
  peekCalls : Nat
  /-- How often the unit was asked to write a value. -/
  writeCalls : Nat

namespace LogUnit

/-- An empty unit. -/
def new (name : String) : LogUnit := ⟨name, ∅, false, 0, 0⟩

/-- The error of a request to a unit that is offline. -/
def unreachable (name : String) : ReplicationError := .network s!"log unit {name} unreachable"

/-- How many positions have a value. -/
def size (u : LogUnit) : Nat := u.slots.size

/-- Whether no position has a value. -/
def isEmpty (u : LogUnit) : Bool := u.size = 0

/-- Asks for the value of a position. -/
def peek (u : LogUnit) (position : Position) :
    Except ReplicationError (Option LogData) × LogUnit :=
  (if u.offline then .error (unreachable u.name) else .ok u.slots[position]?,
    { u with peekCalls := u.peekCalls + 1 })

/-- Asks to write a value to a position, if the position is empty. -/
def write (u : LogUnit) (position : Position) (data : LogData) :
    Except ReplicationError WriteOutcome × LogUnit :=
  let u := { u with writeCalls := u.writeCalls + 1 }
  if u.offline then (.error (unreachable u.name), u)
  else match u.slots[position]? with
    | some existing => (.ok (.conflict existing), u)
    | none => (.ok .written, { u with slots := u.slots.insert position data })

@[simp] theorem slots_peek (u : LogUnit) (p : Position) : (u.peek p).2.slots = u.slots := rfl

/-- A write fills its own position if that is empty, and changes nothing else. -/
theorem getElem?_slots_write (u : LogUnit) (p q : Position) (data : LogData) :
    (u.write p data).2.slots[q]? =
      if u.offline = false ∧ p = q ∧ u.slots[q]? = none then some data else u.slots[q]? := by
  unfold write
  cases ho : u.offline with
  | true => simp
  | false =>
    cases hp : u.slots[p]? with
    | some existing =>
      by_cases hq : p = q
      · subst hq
        simp [hp]
      · simp [hp, hq]
    | none =>
      by_cases hq : p = q
      · subst hq
        simp [hp]
      · simp [hp, hq, Std.ExtTreeMap.getElem?_insert]

/-- A value once written stays. -/
theorem getElem?_slots_write_of_eq_some {u : LogUnit} {q : Position} {v : LogData}
    (h : u.slots[q]? = some v) (p : Position) (data : LogData) :
    (u.write p data).2.slots[q]? = some v := by
  rw [getElem?_slots_write, if_neg (by simp [h]), h]

end LogUnit

end SharedLog
