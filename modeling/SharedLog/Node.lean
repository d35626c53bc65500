/-
# Nodes

A node is a sequencer with its mailbox, a chain of log units in memory, some clients and a
bootstrapper. Here the actions of its operations meet their objects: a request to a unit changes
that unit, a request to the sequencer goes through the mailbox, and clients keep the epochs they
have seen.
-/
import SharedLog.Client
import SharedLog.Config
import SharedLog.Sequencer.Mailbox

namespace SharedLog

/-- A node. -/
structure Node where
  chain : Chain
  /-- The units of the chain, head first. -/
  units : List LogUnit
  mailbox : Mailbox
  clients : List Client
  /-- The newest epoch that each client has seen. -/
  epochs : List Epoch
  bootstrapper : Bootstrapper

/-- Why a node cannot start. -/
inductive StartError
  /-- The sequencer's mailbox cannot have the size it is to have. -/
  | badBuffer
  /-- The chain cannot be formed. -/
  | replication (error : ReplicationError)

namespace Node

/-- A fresh node with units of the given names. -/
def start (names : List String) (policy : HoleFillPolicy) (sequencer : SequencerSettings)
    (management : BootstrapSettings) : Except StartError Node :=
  let size := sequencer.bufferSize.toNat
  if h : 0 < size ∧ size ≤ Mailbox.largestCapacity then
    match Chain.ofNames names policy with
    | .error e => .error (.replication e)
    | .ok chain =>
      .ok {
        chain
        units := names.map LogUnit.new
        mailbox := .start size h.1
          (.new sequencer.initialEpoch sequencer.maxTokensPerRequest)
        clients := []
        epochs := []
        bootstrapper := ⟨management, none⟩ }
  else .error .badBuffer

/-- The names of the units of a configured chain. -/
def unitNames (length : Nat) : List String := (List.range length).map fun i => s!"log-unit-{i}"

/-- The node with one more client, whose number is that of the clients before it. -/
def addClient (n : Node) (epoch : Epoch) (maxAppendAttempts : UInt32) : Node :=
  { n with
    clients := n.clients ++ [⟨n.clients.length, maxAppendAttempts⟩]
    epochs := n.epochs ++ [epoch] }

/-- A fresh node with one client, as a configuration describes it. -/
def ofConfig (config : Config) : Except StartError Node :=
  (start (unitNames config.replication.chainLength.toNat) config.replication.policy
      config.sequencer config.management).map
    fun n => n.addClient config.sequencer.initialEpoch config.maxAppendAttempts

/-! ## Actions -/

/-- The error of a request to a place behind the tail. -/
def noSuchUnit : ReplicationError := .network "no log unit at this place"

/-- Does something with the unit at a place. -/
def onPlace {α : Type} (n : Node) (place : Nat)
    (request : LogUnit → Except ReplicationError α × LogUnit) :
    Except ReplicationError α × Node :=
  match n.units[place]? with
  | some unit =>
    let (answer, unit) := request unit
    (answer, { n with units := n.units.set place unit })
  | none => (.error noSuchUnit, n)

/-- A request to a unit. -/
def onUnit (n : Node) : (call : UnitCall) → call.Answer × Node
  | .peek place position => n.onPlace place (·.peek position)
  | .write place position data => n.onPlace place (·.write position data)

/-- A command to the sequencer. -/
def command (n : Node) (c : Command) : c.Result × Node :=
  let (result, mailbox) := n.mailbox.ask c
  (result, { n with mailbox })

/-- An action at a given moment. -/
def act (now : Timestamp) (n : Node) : (action : Action) → action.Answer × Node
  | .onUnit call => n.onUnit call
  | .allocate request => n.command (.allocate request)
  | .bootstrap request => n.command (.bootstrap request now)
  | .knownEpoch client => (n.epochs.getD client Epoch.zero, n)
  | .observeEpoch client epoch => ((), { n with epochs := n.epochs.modify client (max · epoch) })

/-- Waits for the sequencer, unless it has stopped and nobody answers. -/
def awaitSequencer (w : Worker) : Timeline Node Unit := do
  if (← get).state.mailbox.isClosed then Timeline.takeIn w else Timeline.await w

/-- Answers an action on the virtual clock, bootstraps being stamped with the given moment. -/
def answer (w : Worker) (now : Timestamp) (action : Action) : Timeline Node action.Answer := do
  if action.asksSequencer then awaitSequencer w
  Timeline.instantly fun n => n.act now action

/-- Runs an operation on the virtual clock. -/
def run {α : Type} (w : Worker) (now : Timestamp) (p : NodeProgram α) : Timeline Node α :=
  p.run w (answer w now)

end Node

end SharedLog
