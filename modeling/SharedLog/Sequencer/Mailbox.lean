/-
# The sequencer's mailbox

Commands reach the sequencer through a queue of bounded length. A sender that finds the queue full
waits for room; senders are let in, and commands served, in the order they came. When the sequencer
stops at once, queued commands lose their answer, and everybody else learns that it has shut down.
-/
import SharedLog.Sequencer.Command

namespace SharedLog

/-- A command on its way to the sequencer, with a number that tells its sender from others. -/
structure Letter where
  sender : Nat
  command : Command
deriving DecidableEq

/-- A letter with its result. -/
structure AnsweredLetter where
  letter : Letter
  result : letter.command.Result

/-- The sequencer with the commands that wait for it. -/
structure Mailbox where
  /-- How many commands the queue holds. -/
  capacity : Nat
  /-- The queue can hold a command. -/
  capacity_pos : 0 < capacity
  /-- The sequencer, until it stops. -/
  sequencer : Option Sequencer
  /-- Commands accepted and not yet served, oldest first. -/
  queue : List Letter
  /-- Commands whose senders wait for room, oldest first. -/
  waiting : List Letter

namespace Mailbox

/-- The error of a command sent to a sequencer that has stopped. -/
def shutDown : SequencerError := .serviceUnavailable "sequencer has shut down"

/-- The error of a command that was queued when the sequencer stopped. -/
def answerLost : SequencerError := .internal "sequencer dropped response channel"

/-- No mailbox holds more commands: the room in it is counted in 61 bits. -/
def largestCapacity : Nat := UInt64.size / 8 - 1

/-- The mailbox of a running sequencer, with nothing in it. -/
def start (capacity : Nat) (h : 0 < capacity) (s : Sequencer) : Mailbox :=
  ⟨capacity, h, some s, [], []⟩

/-- Whether the sequencer has stopped. -/
def isClosed (m : Mailbox) : Bool := m.sequencer.isNone

/-- Lets in waiting senders while there is room. -/
def settle (m : Mailbox) : Mailbox :=
  let room := m.capacity - m.queue.length
  { m with queue := m.queue ++ m.waiting.take room, waiting := m.waiting.drop room }

/-- A letter sent to the mailbox: it is refused at once after the sequencer has stopped, and else
waits its turn. -/
def send (m : Mailbox) (letter : Letter) : Option AnsweredLetter × Mailbox :=
  match m.sequencer with
  | none => (some ⟨letter, .error shutDown⟩, m)
  | some _ => (none, { m with waiting := m.waiting ++ [letter] }.settle)

/-- Serves the oldest queued command, if there is one. -/
def serveNext? (m : Mailbox) : Option (AnsweredLetter × Mailbox) :=
  match m.sequencer, m.queue with
  | some s, letter :: rest =>
    let (result, s) := s.serve letter.command
    some (⟨letter, result⟩, { m with sequencer := some s, queue := rest }.settle)
  | _, _ => none

/-- Serves at most `n` commands. -/
def serveUpTo : Nat → Mailbox → List AnsweredLetter × Mailbox
  | 0, m => ([], m)
  | n + 1, m =>
    match m.serveNext? with
    | none => ([], m)
    | some (answered, m) =>
      let (later, m) := serveUpTo n m
      (answered :: later, m)

/-- Serves everything that waits. -/
def serveAll (m : Mailbox) : List AnsweredLetter × Mailbox :=
  serveUpTo (m.queue.length + m.waiting.length) m

/-- Letters sent one after the other before any is served: those refused at once, and the mailbox
with the others. -/
def sendAll (m : Mailbox) (letters : List Letter) : List AnsweredLetter × Mailbox :=
  letters.foldl (fun (refused, m) letter =>
    let (answer, m) := m.send letter
    (refused ++ answer.toList, m)) ([], m)

/-- Takes a command out whose sender has gone, if the sender was still waiting for room. A command
already queued is served all the same. -/
def withdraw (m : Mailbox) (sender : Nat) : Mailbox :=
  { m with waiting := m.waiting.filter (·.sender ≠ sender) }

/-- Stops the sequencer at once. -/
def kill (m : Mailbox) : List AnsweredLetter × Mailbox :=
  (m.queue.map (fun letter => ⟨letter, .error answerLost⟩) ++
      m.waiting.map (fun letter => ⟨letter, .error shutDown⟩),
    { m with sequencer := none, queue := [], waiting := [] })

/-- The commands as letters of senders numbered in order. -/
def number (commands : List Command) : List Letter :=
  commands.zipIdx.map fun (command, i) => ⟨i, command⟩

/-- Commands sent together in order and served in order, with their results. -/
def pipeline (m : Mailbox) (commands : List Command) : List AnsweredLetter × Mailbox :=
  let (refused, m) := m.sendAll (number commands)
  let (answered, m) := m.serveAll
  (refused ++ answered, m)

/-- Commands sent together to a sequencer that stops before serving any of them. -/
def stop (m : Mailbox) (pending : List Command) : List AnsweredLetter × Mailbox :=
  let (refused, m) := m.sendAll (number pending)
  let (lost, m) := m.kill
  (refused ++ lost, m)

/-- One command sent to an idle mailbox, with its result. -/
def ask (m : Mailbox) (command : Command) : command.Result × Mailbox :=
  match m.sequencer with
  | none => (.error shutDown, m)
  | some s =>
    let (result, s) := s.serve command
    (result, { m with sequencer := some s })

end Mailbox

end SharedLog
