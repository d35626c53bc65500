/-
# Programs run together

One worker can run several programs together. In each turn it goes through the programs that can go
on and lets each of them run until it sleeps, or until the turn has no room for a wait that is over;
such a program is held back for the next turn. When nobody is held back, time passes until the first
sleep ends.

With few programs, every turn goes through all of them in their order, and the first failure ends
them all. With many, a turn goes through those that have been woken: after a turn that was used up,
those held back, the last one first; else those whose sleep has ended, in the order in which they
fell asleep. Their results are delivered in the order of the programs, and a failure counts when
everything before it has been delivered.
-/
import SharedLog.Program.Timeline
import Std.Data.ExtTreeMap

namespace SharedLog.Program

variable {Call : Type} {Answer : Call → Type} {α β ε σ : Type}

/-! ## One program up to its next wait -/

/-- How a program has left its turn. -/
inductive Paused (Call : Type) (Answer : Call → Type) (α : Type)
  /-- The program has ended. -/
  | ended (value : α)
  /-- The program sleeps until some time. -/
  | asleep (wake : Nat) (rest : Program Call Answer α)
  /-- The program would sleep until some time, but the turn was used up. -/
  | held (wake : Nat) (rest : Program Call Answer α)

/-- Runs a program until it has to wait. -/
def runToPause (w : Worker) (answer : (c : Call) → Timeline σ (Answer c)) :
    Program Call Answer α → Timeline σ (Paused Call Answer α)
  | done a => pure (.ended a)
  | call c next => answer c >>= fun r => (next r).runToPause w answer
  | sleep d next =>
    get >>= fun c =>
      if c.allowance = 0 then pure (.held (c.now + (w.lasts d).nanos) (next (w.lasts d)))
      else if w.lasts d = Duration.zero then
        Timeline.takeIn w >>= fun _ => (next (w.lasts d)).runToPause w answer
      else pure (.asleep (c.now + (w.lasts d).nanos) (next (w.lasts d)))
  | unbounded p => (p w.rounds).runToPause w answer
  | unfinished => failure

/-- A program of a group between two turns. -/
structure Member (Call : Type) (Answer : Call → Type) (α : Type) where
  /-- Its place among the programs of the group. -/
  place : Nat
  /-- When its sleep ends, unless it has not begun yet. -/
  wake : Option Nat
  rest : Program Call Answer α

/-- Lets a program go on, if its sleep is over and the turn has room for it. -/
def Member.resume (w : Worker) (answer : (c : Call) → Timeline σ (Answer c))
    (m : Member Call Answer α) : Timeline σ (Paused Call Answer α) :=
  match m.wake with
  | none => m.rest.runToPause w answer
  | some wake =>
    get >>= fun c =>
      if c.allowance = 0 then pure (.held wake m.rest)
      else if c.now < wake then pure (.asleep wake m.rest)
      else Timeline.takeIn w >>= fun _ => m.rest.runToPause w answer

/-! ## Groups -/

/-- How far the programs of a group have got. -/
structure Group (Call : Type) (Answer : Call → Type) (ε α : Type) where
  /-- The programs that sleep, the last one to fall asleep first. -/
  asleep : List (Member Call Answer (Except ε α))
  /-- The programs held back, the last one first. -/
  held : List (Member Call Answer (Except ε α))
  /-- Results that cannot be delivered yet, by place. -/
  early : Std.ExtTreeMap Nat (Except ε α)
  /-- How many results have been delivered. -/
  delivered : Nat
  /-- The values delivered, the last one first. -/
  values : List α

namespace Group

/-- The group of which nothing has been done yet. -/
def empty : Group Call Answer ε α := ⟨[], [], ∅, 0, []⟩

/-- Delivers at most `n` results, or the failure that is met on the way. -/
def deliver : Nat → Group Call Answer ε α → Except ε (Group Call Answer ε α)
  | 0, g => .ok g
  | n + 1, g =>
    match g.early[g.delivered]? with
    | none => .ok g
    | some (.error e) => .error e
    | some (.ok a) =>
      deliver n { g with
        early := g.early.erase g.delivered
        delivered := g.delivered + 1
        values := a :: g.values }

/-- The group after the program at a place has ended, or the failure that ends them all. -/
def finish (many : Bool) (g : Group Call Answer ε α) (place : Nat) (result : Except ε α) :
    Except ε (Group Call Answer ε α) :=
  match many, result with
  | false, .error e => .error e
  | _, result => deliver (g.early.size + 1) { g with early := g.early.insert place result }

/-- Whether all programs have ended. -/
def isDone (g : Group Call Answer ε α) : Bool := g.asleep.isEmpty && g.held.isEmpty

/-- The time of the next turn, if there is to be one. -/
def nextTime (g : Group Call Answer ε α) (now : Nat) : Nat :=
  if g.held.isEmpty then ((g.asleep.filterMap (·.wake)).min?).getD now else now

/-- The programs that the turn at the given time goes through, and the rest of the group. -/
def called (many : Bool) (g : Group Call Answer ε α) (time : Nat) :
    List (Member Call Answer (Except ε α)) × Group Call Answer ε α :=
  if many then
    if g.held.isEmpty then
      let (woken, asleep) := g.asleep.partition fun m => m.wake = some time
      (woken.reverse, { g with asleep })
    else (g.held, { g with held := [] })
  else
    ((g.asleep ++ g.held).mergeSort fun m m' => m.place ≤ m'.place,
      { g with asleep := [], held := [] })

end Group

/-! ## Turns -/

/-- One turn of a worker, going through the given programs. -/
def turn (w : Worker) (answer : (c : Call) → Timeline σ (Answer c)) (many : Bool) :
    List (Member Call Answer (Except ε α)) → Group Call Answer ε α →
      Timeline σ (Except ε (Group Call Answer ε α))
  | [], g => pure (.ok g)
  | m :: rest, g =>
    m.resume w answer >>= fun
      | .asleep wake p => turn w answer many rest
          { g with asleep := ⟨m.place, some wake, p⟩ :: g.asleep }
      | .held wake p => turn w answer many rest
          { g with held := ⟨m.place, some wake, p⟩ :: g.held }
      | .ended result =>
        match g.finish many m.place result with
        | .error e => pure (.error e)
        | .ok g => turn w answer many rest g

/-- At most `n` turns of a worker, the first of them going through the given programs. -/
def turns (w : Worker) (answer : (c : Call) → Timeline σ (Answer c)) (many : Bool) :
    Nat → List (Member Call Answer (Except ε α)) → Group Call Answer ε α →
      Timeline σ (Except ε (List α))
  | 0, _, _ => failure
  | n + 1, ready, g =>
    turn w answer many ready g >>= fun
      | .error e => pure (.error e)
      | .ok g =>
        if g.isDone then pure (.ok g.values.reverse)
        else get >>= fun c =>
          let time := g.nextTime c.now
          let (ready, g) := g.called many time
          Timeline.nextTurn w time >>= fun _ => turns w answer many n ready g

/-- Runs several programs together, with their values in order or the failure that ended them. -/
def runTogether (w : Worker) (answer : (c : Call) → Timeline σ (Answer c))
    (programs : List (Program Call Answer (Except ε α))) : Timeline σ (Except ε (List α)) :=
  let many := decide (w.fewLimit < programs.length)
  turns w answer many w.rounds (programs.zipIdx.map fun (p, i) => ⟨i, none, p⟩) .empty

end SharedLog.Program
