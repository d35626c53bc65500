/-
# Hole-fill policies

A reader that finds a position undecided looks at it again and again, until its policy gives the
position up; then it fills the hole itself. A policy says how long to wait before the next look,
given how many looks were in vain and how long the reader has waited so far.
-/
import SharedLog.Duration

namespace SharedLog

/-- How patient readers are. -/
inductive HoleFillPolicy
  /-- Gives up after the first look. -/
  | immediate
  /-- Looks a number of times, with a fixed delay between two looks. -/
  | fixed (maxAttempts : UInt32) (delay : Duration)
  /-- Doubles the delay after each look up to a largest delay, and gives up after some time. -/
  | backoff (initialDelay maxDelay maxElapsed : Duration)
deriving DecidableEq

namespace HoleFillPolicy

/-- The number that looks are counted up to; more looks count as this many. -/
def attemptLimit : Nat := UInt32.size - 1

/-- How often a delay is doubled at most. -/
def doublingLimit : Nat := 31

/-- How long to wait after `attempts` looks in vain and `elapsed` time, or `none` to give up. -/
def retryDelay (policy : HoleFillPolicy) (attempts : Nat) (elapsed : Duration) : Option Duration :=
  match policy with
  | immediate => none
  | fixed maxAttempts delay => if attempts < maxAttempts.toNat then some delay else none
  | backoff initialDelay maxDelay maxElapsed =>
    match maxElapsed.sub? elapsed with
    | none => none
    | some remaining =>
      if remaining = Duration.zero then none
      else
        let grown := initialDelay.scale (Nat.pow 2 (min (attempts - 1) doublingLimit))
        some (min (min grown maxDelay) remaining)

/-- The policy in words, with its parameters. -/
def text : HoleFillPolicy → String
  | immediate => "ImmediateHoleFill"
  | fixed maxAttempts delay =>
    "FixedRetryHoleFill \x7b max_attempts: " ++ toString maxAttempts ++ ", delay: " ++ delay.text
      ++ " \x7d"
  | backoff initialDelay maxDelay maxElapsed =>
    "BackoffHoleFill \x7b initial_delay: " ++ initialDelay.text ++ ", max_delay: " ++ maxDelay.text
      ++ ", max_elapsed: " ++ maxElapsed.text ++ " \x7d"

end HoleFillPolicy

end SharedLog
