/-
# Interleavings

In a world any number of activities run beside each other at one node. A move starts a job, lets one
activity go on by a single action, a single sleep or into a loop, drops an activity, switches a unit
on or off, or brings a new client. An interleaving is a list of moves. A move that cannot be made
changes nothing, so that every list of moves is an interleaving.

What the moves leave open is a choice: the moment of an action, how much longer than asked for a
sleep takes, after how many rounds a loop is cut off, and which of several reads that run together
goes on.
-/
import SharedLog.Proofs.World.Job
import SharedLog.Proofs.World.Scene

namespace SharedLog

/-- What is left open when an activity goes on. -/
structure Choice where
  /-- The moment of an action. -/
  now : Timestamp
  /-- How much longer than asked for a sleep takes. -/
  late : Duration
  /-- After how many rounds a loop is cut off. -/
  rounds : Nat
  /-- Which of the reads that run together goes on; a place behind the last one collects them. -/
  place : Nat

namespace Choice

/-- How long a sleep takes. Nobody sleeps longer in one go than `Worker.longestSleep` unless he is
late. -/
def slept (choice : Choice) (d : Duration) : Duration := (min d Worker.longestSleep).add choice.late

/-- Nothing is late, and loops are cut off after some number of rounds. -/
def prompt (rounds : Nat) : Choice := ⟨Timestamp.epoch, Duration.zero, rounds, 0⟩

end Choice

/-! ## One activity going on -/

/-- A program of the chain goes on by one step, unless it has ended or was cut off. -/
def ChainProgram.advance {α : Type} (id : Nat) (choice : Choice) (s : Scene) :
    ChainProgram α → Option (ChainProgram α × Scene)
  | .done _ => none
  | .call c next =>
    let (answer, s) := s.act id choice.now (.onUnit c)
    some (next answer, s)
  | .sleep d next => some (next (choice.slept d), s)
  | .unbounded p => some (p choice.rounds, s)
  | .unfinished => none

/-- The values of reads that have all ended well. -/
def ChainProgram.valuesOf {α : Type} (reads : List (ChainOperation α)) : Option (List α) :=
  reads.mapM fun
    | .done (.ok a) => some a
    | _ => none

/-- A program of a node goes on by one step, unless it has ended or was cut off. Of reads that run
together one goes on; the first failure that is noticed ends them all. -/
def NodeProgram.advance {α : Type} (id : Nat) (choice : Choice) (s : Scene) :
    NodeProgram α → Option (NodeProgram α × Scene)
  | .done _ => none
  | .call (.act action) next =>
    let (answer, s) := s.act id choice.now action
    some (next answer, s)
  | .call (.readTogether reads) next =>
    match reads[choice.place]? with
    | some (.done (.ok _)) => none
    | some (.done (.error e)) => some (next (.error e), s)
    | some read => (ChainProgram.advance id choice s read).map fun (read, s) =>
        (.call (.readTogether (reads.set choice.place read)) next, s)
    | none => (ChainProgram.valuesOf reads).map fun values => (next (.ok values), s)
  | .sleep d next => some (next (choice.slept d), s)
  | .unbounded p => some (p choice.rounds, s)
  | .unfinished => none

/-- How a program of the chain goes on. -/
inductive ChainProgram.Steps {α : Type} (id : Nat) (choice : Choice) (s : Scene) :
    ChainProgram α → ChainProgram α → Scene → Prop
  | call {c : UnitCall} {next : c.Answer → ChainProgram α} {answer : c.Answer} {s' : Scene}
      (acts : s.Acts id (.onUnit c) answer s') : Steps id choice s (.call c next) (next answer) s'
  | sleep {d : Duration} {next : Duration → ChainProgram α} :
      Steps id choice s (.sleep d next) (next (choice.slept d)) s
  | unbounded {p : Nat → ChainProgram α} : Steps id choice s (.unbounded p) (p choice.rounds) s

theorem ChainProgram.steps_of_advance {α : Type} {id : Nat} {choice : Choice} {s s' : Scene}
    {p p' : ChainProgram α} (h : advance id choice s p = some (p', s')) :
    Steps id choice s p p' s' := by
  cases p with
  | done a | unfinished => cases h
  | call c next =>
    cases h
    exact .call ⟨choice.now, rfl⟩
  | sleep d next =>
    cases h
    exact .sleep
  | unbounded p =>
    cases h
    exact .unbounded

/-- How a program of a node goes on. -/
inductive NodeProgram.Steps {α : Type} (id : Nat) (choice : Choice) (s : Scene) :
    NodeProgram α → NodeProgram α → Scene → Prop
  | act {action : Action} {next : action.Answer → NodeProgram α} {answer : action.Answer}
      {s' : Scene} (acts : s.Acts id action answer s') :
      Steps id choice s (.call (.act action) next) (next answer) s'
  /-- One of the reads that run together goes on. -/
  | read {reads : List (ChainOperation (Position × LogData))}
      {next : (NodeCall.readTogether reads).Answer → NodeProgram α}
      {read read' : ChainOperation (Position × LogData)} {s' : Scene}
      (here : reads[choice.place]? = some read)
      (step : ChainProgram.advance id choice s read = some (read', s')) :
      Steps id choice s (.call (.readTogether reads) next)
        (.call (.readTogether (reads.set choice.place read')) next) s'
  /-- One of the reads has failed. -/
  | failed {reads : List (ChainOperation (Position × LogData))}
      {next : (NodeCall.readTogether reads).Answer → NodeProgram α} {e : ReplicationError}
      (here : reads[choice.place]? = some (.done (.error e))) :
      Steps id choice s (.call (.readTogether reads) next) (next (.error e)) s
  /-- All reads have ended well. -/
  | collected {reads : List (ChainOperation (Position × LogData))}
      {next : (NodeCall.readTogether reads).Answer → NodeProgram α}
      {values : List (Position × LogData)} (ended : ChainProgram.valuesOf reads = some values) :
      Steps id choice s (.call (.readTogether reads) next) (next (.ok values)) s
  | sleep {d : Duration} {next : Duration → NodeProgram α} :
      Steps id choice s (.sleep d next) (next (choice.slept d)) s
  | unbounded {p : Nat → NodeProgram α} : Steps id choice s (.unbounded p) (p choice.rounds) s

theorem NodeProgram.steps_of_advance {α : Type} {id : Nat} {choice : Choice} {s s' : Scene}
    {p p' : NodeProgram α} (h : advance id choice s p = some (p', s')) :
    Steps id choice s p p' s' := by
  cases p with
  | done a | unfinished => cases h
  | call c next =>
    cases c with
    | act action =>
      cases h
      exact .act ⟨choice.now, rfl⟩
    | readTogether reads =>
      simp only [advance] at h
      split at h
      · cases h
      · cases h
        exact .failed ‹_›
      · obtain ⟨⟨read', s₁⟩, hstep, heq⟩ := Option.map_eq_some_iff.mp h
        cases heq
        exact .read ‹_› hstep
      · obtain ⟨values, hvalues, heq⟩ := Option.map_eq_some_iff.mp h
        cases heq
        exact .collected hvalues
  | sleep d next =>
    cases h
    exact .sleep
  | unbounded p =>
    cases h
    exact .unbounded

/-! ## Worlds -/

/-- A job under way or over. -/
inductive Activity
  /-- The job has still to do the rest of its program. -/
  | running (job : Job) (rest : NodeProgram job.Result)
  | returned (job : Job) (result : job.Result)
  /-- The job was given up before it ended. -/
  | dropped (job : Job)

/-- The job of an activity. -/
def Activity.job : Activity → Job
  | running job _ | returned job _ | dropped job => job

/-- Whether the activity is a change of layout under way. -/
def Activity.holdsLayout : Activity → Bool
  | running job _ => job.isLayout
  | _ => false

/-- A node with its past and with everything that runs on it. The number of an activity is its
place in the list. -/
structure World where
  scene : Scene
  activities : List Activity

/-- What can happen next. -/
inductive Move
  | start (job : Job)
  | advance (id : Nat) (choice : Choice)
  | drop (id : Nat)
  | switch (place : Nat) (offline : Bool)
  | join (epoch : Epoch) (maxAppendAttempts : UInt32)

namespace World

/-- A node on which nothing has happened yet. -/
def start (n : Node) : World := ⟨⟨n, []⟩, []⟩

/-- Whether a job can be started: a change of layout waits until no other one is under way. -/
def admits (w : World) (job : Job) : Bool :=
  !(job.isLayout && w.activities.any Activity.holdsLayout)

/-- The number that the next activity gets. -/
def nextId (w : World) : Nat := w.activities.length

/-- An activity goes on, or returns if its program has ended. -/
def advance (w : World) (id : Nat) (choice : Choice) : World :=
  match w.activities[id]? with
  | some (.running job (.done result)) =>
    { scene := { w.scene with node := job.conclude w.scene.node result }
      activities := w.activities.set id (.returned job result) }
  | some (.running job rest) =>
    match NodeProgram.advance id choice w.scene rest with
    | some (rest, scene) => { scene, activities := w.activities.set id (.running job rest) }
    | none => w
  | _ => w

/-- The world after a move. -/
def step (w : World) : Move → World
  | .start job =>
    match w.admits job, job.program? w.scene.node with
    | true, some program => { w with activities := w.activities ++ [.running job program] }
    | _, _ => w
  | .advance id choice => w.advance id choice
  | .drop id =>
    match w.activities[id]? with
    | some (.running job _) => { w with activities := w.activities.set id (.dropped job) }
    | _ => w
  | .switch place offline => { w with scene := w.scene.switch place offline }
  | .join epoch maxAppendAttempts => { w with scene := w.scene.join epoch maxAppendAttempts }

/-- The world after some moves. -/
def play (w : World) (moves : List Move) : World := moves.foldl step w

/-- The world after the first moves of an endless schedule. -/
def after (w : World) (schedule : Nat → Move) : Nat → World
  | 0 => w
  | n + 1 => (after w schedule n).step (schedule n)

/-- An activity has not ended yet. -/
def Runs (w : World) (id : Nat) : Prop := ∃ job rest, w.activities[id]? = some (.running job rest)

/-- An activity has returned a result. -/
def Returned (w : World) (id : Nat) (job : Job) (result : job.Result) : Prop :=
  w.activities[id]? = some (.returned job result)

instance (w : World) (id : Nat) (job : Job) (result : job.Result) :
    Decidable (w.Returned id job result) :=
  match h : w.activities[id]? with
  | some (.returned job' result') =>
    if hjob : job = job' then
      decidable_of_iff (result' = hjob ▸ result) (by subst hjob; simp [Returned, h])
    else .isFalse (by simp [Returned, h, Ne.symm hjob])
  | some (.running ..) | some (.dropped _) | none => .isFalse (by simp [Returned, h])

@[simp] theorem play_nil (w : World) : w.play [] = w := rfl

@[simp] theorem play_cons (w : World) (m : Move) (moves : List Move) :
    w.play (m :: moves) = (w.step m).play moves := rfl

theorem play_append (w : World) (moves more : List Move) :
    w.play (moves ++ more) = (w.play moves).play more := List.foldl_append

/-- The first moves of a schedule are an interleaving. -/
theorem after_eq_play (w : World) (schedule : Nat → Move) (n : Nat) :
    w.after schedule n = w.play ((List.range n).map schedule) := by
  induction n with
  | zero => rfl
  | succ n ih =>
    rw [after, ih, List.range_succ, List.map_append, play_append, List.map_singleton, play_cons,
      play_nil]

end World

end SharedLog
