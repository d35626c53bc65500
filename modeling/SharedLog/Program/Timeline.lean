/-
# Running programs on a virtual clock

On a virtual clock a call takes no time, and time passes only while a worker has nothing to do but
sleep. A worker works in turns. In one turn it takes in a limited number of waits that are over;
when a turn is used up, the next one begins at the same time. For a program alone this makes no
difference; it decides who goes on first when programs are run together.

The one that answers the calls has a state of its own. A loop is run in its cut-off after some
number of rounds; if that does not suffice, the run has no result.
-/
import SharedLog.Program

namespace SharedLog

/-- The habits of a worker. -/
structure Worker where
  /-- How long a sleep of a given length lasts. -/
  lasts : Duration → Duration
  /-- How many waits that are over can be taken in during one turn. -/
  turnLength : Nat
  /-- How many programs may be run together for every failure to count at once. -/
  fewLimit : Nat
  /-- The number of rounds after which a loop is cut off. -/
  rounds : Nat

namespace Worker

/-- The longest that anybody sleeps: thirty years of 365 days. -/
def longestSleep : Duration := .ofMillis 946_080_000_000

/-- The usual worker. Its sleeps end on whole milliseconds. -/
def usual (rounds : Nat) : Worker where
  lasts d := (min d longestSleep).roundUpToMillis
  turnLength := 128
  fewLimit := 30
  rounds := rounds

end Worker

/-- A state, the time on the virtual clock, and how far a worker is in its turn. -/
structure Clocked (σ : Type) where
  /-- The time in nanoseconds. -/
  now : Nat
  /-- How many waits that are over can still be taken in during the present turn. -/
  allowance : Nat
  state : σ

/-- A computation on a virtual clock, which may fail to end. -/
abbrev Timeline (σ : Type) := StateT (Clocked σ) Option

namespace Timeline

variable {σ : Type} (w : Worker)

/-- The next turn, at a given time. -/
def nextTurn (time : Nat) : Timeline σ Unit :=
  modify fun c => { c with now := time, allowance := w.turnLength }

/-- Takes in a wait that is over, in the next turn if the present one is used up. -/
def takeIn : Timeline σ Unit :=
  modify fun c =>
    { c with allowance := (if c.allowance = 0 then w.turnLength else c.allowance) - 1 }

/-- Waits for somebody else, who works between two turns of the worker. -/
def await : Timeline σ Unit := do
  nextTurn w (← get).now
  takeIn w

/-- Sleeps, and tells how long. -/
def pass (d : Duration) : Timeline σ Duration := do
  let slept := w.lasts d
  if slept ≠ Duration.zero then nextTurn w ((← get).now + slept.nanos)
  takeIn w
  return slept

/-- Changes the state at one moment. -/
def instantly {α : Type} (action : σ → α × σ) : Timeline σ α :=
  modifyGet fun c => let (a, s) := action c.state; (a, { c with state := s })

end Timeline

namespace Program

variable {Call : Type} {Answer : Call → Type} {α β σ : Type}
  (w : Worker) (answer : (c : Call) → Timeline σ (Answer c))

/-- Runs a program on a virtual clock, with its calls answered by `answer`. -/
def run : Program Call Answer α → Timeline σ α
  | done a => pure a
  | call c next => answer c >>= fun r => (next r).run
  | sleep d next => Timeline.pass w d >>= fun slept => (next slept).run
  | unbounded p => (p w.rounds).run
  | unfinished => failure

/-- Runs a program until it ends or a deadline has come. The deadline counts whenever the program
has to wait, be it for the next turn only; a sleep that ends with the deadline is over first. -/
def runUntil (deadline : Nat) : Program Call Answer α → Timeline σ (Option α)
  | done a => pure (some a)
  | call c next => answer c >>= fun r => (next r).runUntil deadline
  | sleep d next =>
    get >>= fun c =>
      if w.lasts d = Duration.zero ∧ 0 < c.allowance then
        Timeline.takeIn w >>= fun _ => (next (w.lasts d)).runUntil deadline
      else if deadline ≤ c.now then pure none
      else if c.now + (w.lasts d).nanos ≤ deadline then
        Timeline.pass w d >>= fun slept => (next slept).runUntil deadline
      else Timeline.nextTurn w deadline >>= fun _ => pure none
  | unbounded p => (p w.rounds).runUntil deadline
  | unfinished => failure

/-- Runs a program for at most `limit`. -/
def runWithin (limit : Duration) (p : Program Call Answer α) : Timeline σ (Option α) :=
  get >>= fun c => p.runUntil w answer (c.now + limit.nanos)

@[simp] theorem run_done (a : α) :
    (done a : Program Call Answer α).run w answer = pure a := rfl

@[simp] theorem run_call (c : Call) (next : Answer c → Program Call Answer α) :
    (call c next).run w answer = answer c >>= fun r => (next r).run w answer := rfl

@[simp] theorem run_sleep (d : Duration) (next : Duration → Program Call Answer α) :
    (sleep d next).run w answer =
      Timeline.pass w d >>= fun slept => (next slept).run w answer := rfl

@[simp] theorem run_unbounded (p : Nat → Program Call Answer α) :
    (unbounded p).run w answer = (p w.rounds).run w answer := rfl

@[simp] theorem run_unfinished :
    (unfinished : Program Call Answer α).run w answer = failure := rfl

/-- Running programs one after the other is running them as one. -/
theorem run_bind (p : Program Call Answer α) (f : α → Program Call Answer β) :
    (p.bind f).run w answer = p.run w answer >>= fun a => (f a).run w answer := by
  induction p with
  | done a => simp
  | call c next ih => simp [ih]
  | sleep d next ih => simp [ih]
  | unbounded p ih => simp [ih]
  | unfinished => rfl

end Program

end SharedLog
