/-
# Waiting for a position

A reader looks at a position until it finds a committed value or its policy gives the position up.
Between two looks it sleeps as long as the policy says, and the time it has waited is the sum of
what it has slept. A look that fails ends the wait.
-/
import SharedLog.Entry
import SharedLog.Error
import SharedLog.HoleFill.Policy
import SharedLog.Program

namespace SharedLog.HoleFillPolicy

variable {Call : Type} {Answer : Call → Type}

/-- At most `n` looks at a position, after `attempts` looks in vain and `elapsed` time. -/
def looks (policy : HoleFillPolicy) (position : Position)
    (look : Program Call Answer (Except ReplicationError SlotState)) :
    Nat → Nat → Duration → Program Call Answer (Except PeekError LogData)
  | 0, _, _ => .unfinished
  | n + 1, attempts, elapsed =>
    (look.mapError PeekError.replication).andThen fun state =>
      match state.committed? with
      | some data => .done (.ok data)
      | none =>
        let attempts := min (attempts + 1) attemptLimit
        match policy.retryDelay attempts elapsed with
        | some delay =>
          .sleep delay fun slept => looks policy position look n attempts (elapsed.add slept)
        | none => .done (.error (.holeFillRequired ⟨position, attempts, elapsed⟩))

/-- Waits for a position with a given way of looking at it: a committed value, the failure of a
look, or the signal that patience has run out. -/
def awaitCommitted (policy : HoleFillPolicy) (position : Position)
    (look : Program Call Answer (Except ReplicationError SlotState)) :
    Program Call Answer (Except PeekError LogData) :=
  .unbounded fun n => policy.looks position look n 0 Duration.zero

end SharedLog.HoleFillPolicy
