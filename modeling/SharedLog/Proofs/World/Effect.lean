/-
# What actions do

A request to a unit changes that unit and nothing else, and of what the unit holds it changes at
most one empty position. No other action touches the units. A request to a serving sequencer is a
step of the sequencer. Every action is added to the trace.
-/
import Mathlib.Tactic.Common
import SharedLog.Proofs.Sequencer.Steps
import SharedLog.Proofs.World.Scene

namespace SharedLog

variable {s s' : Scene} {id i j : Nat} {p q : Position} {v data : LogData}

/-! ## What a request does to its unit -/

/-- The place of the unit that is asked. -/
def UnitCall.place : UnitCall → Nat
  | peek i _ | write i _ _ => i

/-- A request that failed with an error. -/
def UnitCall.FailsWith : (call : UnitCall) → call.Answer → ReplicationError → Prop
  | peek .., r, e => r = .error e
  | write .., r, e => r = .error e

/-- A unit after a request. -/
def LogUnit.after (u : LogUnit) : UnitCall → LogUnit
  | .peek _ p => (u.peek p).2
  | .write _ p data => (u.write p data).2

/-- No request renames a unit, and none switches it. -/
lemma LogUnit.label_after (u : LogUnit) (call : UnitCall) :
    ((u.after call).name, (u.after call).offline) = (u.name, u.offline) := by
  cases call with
  | peek i p => rfl
  | write i p data =>
    simp only [after, write]
    split
    · rfl
    · split <;> rfl

lemma Node.onPlace_eq_of_some {α : Type} {n : Node} {i : Nat} {unit : LogUnit}
    (request : LogUnit → Except ReplicationError α × LogUnit) (h : n.units[i]? = some unit) :
    n.onPlace i request =
      ((request unit).1, { n with units := n.units.set i (request unit).2 }) := by
  unfold onPlace
  rw [h]

/-- A request changes nothing but the unit that is asked. -/
lemma Node.onUnit_node (n : Node) (call : UnitCall) :
    (n.onUnit call).2 = { n with units := n.units.modify call.place (·.after call) } := by
  cases hunit : n.units[call.place]? with
  | none =>
    -- nobody is there to be asked
    rw [List.modify_eq_self (List.getElem?_eq_none_iff.mp hunit)]
    cases call <;> simp_all [onUnit, onPlace, UnitCall.place]
  | some unit =>
    obtain ⟨hi, heq⟩ := List.getElem?_eq_some_iff.mp hunit
    have hset : n.units.modify call.place (·.after call) =
        n.units.set call.place (unit.after call) := by
      apply List.ext_getElem?
      intro j
      rw [List.getElem?_set, List.getElem?_modify]
      split
      · rename_i hj
        subst hj
        simp [hi, heq]
      · simp
    rw [hset]
    cases call with
    | peek i p => exact congrArg Prod.snd (onPlace_eq_of_some (·.peek p) hunit)
    | write i p data => exact congrArg Prod.snd (onPlace_eq_of_some (·.write p data) hunit)

/-! ## What an action does to the units -/

namespace Scene

/-- The unit at a place is offline, and the error is its own. -/
def Blames (s : Scene) (i : Nat) (e : ReplicationError) : Prop :=
  ∀ unit, s.node.units[i]? = some unit → unit.offline = true ∧ e = LogUnit.unreachable unit.name

/-- What a unit can answer when it is asked to write a value, and what it holds then. -/
inductive WriteEffect (s : Scene) (i : Nat) (p : Position) (data : LogData) :
    Except ReplicationError WriteOutcome → Option LogData → Prop
  | failed {e : ReplicationError} (blames : s.Blames i e) :
      WriteEffect s i p data (.error e) (s.slot i p)
  | conflict {existing : LogData} (held : s.slot i p = some existing) :
      WriteEffect s i p data (.ok (.conflict existing)) (some existing)
  | written (free : s.slot i p = none) : WriteEffect s i p data (.ok .written) (some data)

namespace Acts

variable {action : Action} {answer : action.Answer}

/-- The node before and after an action. -/
lemma node_eq (h : s.Acts id action answer s') :
    ∃ now, (s.node.act now action).1 = answer ∧ s'.node = (s.node.act now action).2 := by
  obtain ⟨now, h⟩ := h
  simp only [act, Prod.mk.injEq] at h
  obtain ⟨rfl, rfl⟩ := h
  exact ⟨now, rfl, rfl⟩

lemma trace_eq (h : s.Acts id action answer s') :
    s'.trace = s.trace ++ [⟨id, action, answer⟩] := by
  obtain ⟨now, h⟩ := h
  simp only [act, Prod.mk.injEq] at h
  obtain ⟨rfl, rfl⟩ := h
  rfl

/-- A request to a unit changes nothing but that unit. -/
lemma node_of_unit {call : UnitCall} {r : call.Answer} (h : s.Acts id (.onUnit call) r s') :
    s'.node = { s.node with units := s.node.units.modify call.place (·.after call) } := by
  obtain ⟨now, -, hnode⟩ := h.node_eq
  rw [hnode]
  exact s.node.onUnit_node call

/-- No action changes the chain's set-up, and only requests to units change units. -/
lemma chain (h : s.Acts id action answer s') : s'.node.chain = s.node.chain := by
  cases action with
  | onUnit call => rw [h.node_of_unit]
  | _ =>
    obtain ⟨now, -, hnode⟩ := h.node_eq
    rw [hnode]
    rfl

lemma units_of_ne (h : s.Acts id action answer s') (hne : ∀ call, action ≠ .onUnit call) :
    s'.node.units = s.node.units := by
  obtain ⟨now, -, hnode⟩ := h.node_eq
  rw [hnode]
  cases action with
  | onUnit call => exact absurd rfl (hne call)
  | _ => rfl

/-- No action renames a unit, and none switches it. -/
lemma labels (h : s.Acts id action answer s') :
    s'.node.units.map (fun u => (u.name, u.offline)) =
      s.node.units.map fun u => (u.name, u.offline) := by
  cases action with
  | onUnit call =>
    rw [h.node_of_unit]
    apply List.ext_getElem?
    intro j
    simp only [List.getElem?_map, List.getElem?_modify]
    split <;> cases s.node.units[j]? <;> simp [LogUnit.label_after]
  | _ => rw [h.units_of_ne (by simp)]

lemma names (h : s.Acts id action answer s') :
    s'.node.units.map (·.name) = s.node.units.map (·.name) := by
  have hnames := congrArg (List.map Prod.fst) h.labels
  simpa [List.map_map, Function.comp_def] using hnames

/-- Nothing but a write to a place and a position changes what is held there. -/
lemma slot_of_ne (h : s.Acts id action answer s')
    (hne : ∀ data, action ≠ .onUnit (.write j q data)) : s'.slot j q = s.slot j q := by
  cases action with
  | onUnit call =>
    unfold Scene.slot
    rw [h.node_of_unit, List.getElem?_modify]
    cases s.node.units[j]? with
    | none => rfl
    | some unit =>
      simp only [Option.map_eq_map, Option.map_some, Option.bind_some]
      split
      · rename_i hj
        cases call with
        | peek i p => rfl
        | write i p data =>
          obtain rfl : i = j := hj
          have hq : p ≠ q := by
            rintro rfl
            exact hne data rfl
          simp [LogUnit.after, LogUnit.getElem?_slots_write, hq]
      · rfl
  | _ =>
    unfold Scene.slot
    rw [h.units_of_ne (by simp)]

/-- What comes of a request for a value. -/
lemma peek {r : Except ReplicationError (Option LogData)}
    (h : s.Acts id (.onUnit (.peek i p)) r s') : r = .ok (s'.slot i p) ∨
      ∃ e, r = .error e ∧ s.Blames i e := by
  have hslot := h.slot_of_ne (j := i) (q := p) (by simp)
  obtain ⟨now, rfl, -⟩ := h.node_eq
  rw [hslot]
  unfold Scene.slot Blames
  simp only [Node.act, Node.onUnit]
  cases hunit : s.node.units[i]? with
  | none => exact .inr ⟨Node.noSuchUnit, by simp [Node.onPlace, hunit], by simp⟩
  | some unit =>
    rw [Node.onPlace_eq_of_some _ hunit]
    cases hoffline : unit.offline with
    | false => exact .inl (by simp [LogUnit.peek, hoffline])
    | true =>
      refine .inr ⟨LogUnit.unreachable unit.name, by simp [LogUnit.peek, hoffline], ?_⟩
      simp [hoffline]

/-- What comes of a write. -/
lemma write {r : Except ReplicationError WriteOutcome}
    (h : s.Acts id (.onUnit (.write i p data)) r s') :
    s.WriteEffect i p data r (s'.slot i p) := by
  have hnode := h.node_of_unit
  obtain ⟨now, rfl, -⟩ := h.node_eq
  have hafter : s'.slot i p = (s.node.units[i]?).bind fun unit =>
      (unit.write p data).2.slots[p]? := by
    unfold Scene.slot
    rw [hnode, List.getElem?_modify]
    cases s.node.units[i]? <;> simp [UnitCall.place, LogUnit.after]
  simp only [Node.act, Node.onUnit]
  cases hunit : s.node.units[i]? with
  | none =>
    -- there is no unit at the place: nothing is held there, before or after
    have hslot : s'.slot i p = s.slot i p := by
      rw [hafter, hunit]
      simp [Scene.slot, hunit]
    rw [Node.onPlace, hunit, hslot]
    exact .failed (by simp [Blames, hunit])
  | some unit =>
    have hslot : s.slot i p = unit.slots[p]? := by simp [Scene.slot, hunit]
    rw [Node.onPlace_eq_of_some _ hunit, hafter, hunit, Option.bind_some,
      LogUnit.getElem?_slots_write]
    cases hoffline : unit.offline with
    | true =>
      simp only [LogUnit.write, hoffline, if_true, Bool.true_eq_false, false_and, if_false]
      rw [← hslot]
      exact .failed (by simp [Blames, hunit, hoffline])
    | false =>
      cases hheld : unit.slots[p]? with
      | none =>
        simp only [LogUnit.write, hoffline, hheld]
        exact .written (hslot.trans hheld)
      | some existing =>
        simp only [LogUnit.write, hoffline, hheld]
        exact .conflict (hslot.trans hheld)

/-- A request fails only if the unit that is asked is offline. -/
lemma blames {call : UnitCall} {r : call.Answer} {e : ReplicationError}
    (h : s.Acts id (.onUnit call) r s') (hfails : call.FailsWith r e) : s.Blames call.place e := by
  cases call with
  | peek i p =>
    obtain rfl : r = .error e := hfails
    rcases h.peek with heq | ⟨e', heq, hblames⟩
    · cases heq
    · cases heq
      exact hblames
  | write i p data =>
    obtain rfl : r = .error e := hfails
    have heffect := h.write
    generalize s'.slot i p = after at heffect
    cases heffect with
    | failed hblames => exact hblames

/-- Only a unit that takes a value changes, and it changes at one empty position. -/
lemma slot (h : s.Acts id action answer s') (j : Nat) (q : Position) :
    s'.slot j q = s.slot j q ∨ s.slot j q = none ∧ ∃ d, s'.slot j q = some d ∧
      (⟨id, action, answer⟩ : Event) = ⟨id, .onUnit (.write j q d), .ok .written⟩ := by
  by_cases hwrite : ∃ d, action = .onUnit (.write j q d)
  · obtain ⟨d, rfl⟩ := hwrite
    have heffect := h.write
    generalize hafter : s'.slot j q = after at heffect
    cases heffect with
    | failed => exact .inl rfl
    | conflict held => exact .inl held.symm
    | written free => exact .inr ⟨free, d, rfl, rfl⟩
  · exact .inl (h.slot_of_ne fun d hd => hwrite ⟨d, hd⟩)

/-- A value stays where it is. -/
lemma slot_of_some (h : s.Acts id action answer s') (hslot : s.slot j q = some v) :
    s'.slot j q = some v := by
  rcases h.slot j q with heq | ⟨hnone, -⟩
  · rw [heq, hslot]
  · rw [hslot] at hnone
    cases hnone

/-- What comes of a request for positions: it is served unless the sequencer has stopped. -/
lemma allocate {request : TokenRequest} {r : Except SequencerError Token}
    (h : s.Acts id (.allocate request) r s') :
    (s.node.mailbox.sequencer = none ∧ r = .error Mailbox.shutDown ∧
      s'.node.mailbox.sequencer = none) ∨
    ∃ q, s.node.mailbox.sequencer = some q ∧ r = (q.allocate request).1 ∧
      s'.node.mailbox.sequencer = some (q.allocate request).2 := by
  obtain ⟨now, hanswer, hnode⟩ := h.node_eq
  rw [hnode, ← hanswer]
  simp only [Node.act, Node.command, Mailbox.ask]
  cases hq : s.node.mailbox.sequencer with
  | none => exact .inl ⟨rfl, rfl, hq⟩
  | some q => exact .inr ⟨q, rfl, rfl, rfl⟩

/-- What comes of a bootstrap: it is served unless the sequencer has stopped. -/
lemma bootstrap {request : BootstrapRequest} {r : Except SequencerError BootstrapOutcome}
    (h : s.Acts id (.bootstrap request) r s') :
    (s.node.mailbox.sequencer = none ∧ r = .error Mailbox.shutDown ∧
      s'.node.mailbox.sequencer = none) ∨
    ∃ q now, s.node.mailbox.sequencer = some q ∧ r = (q.bootstrap request now).1 ∧
      s'.node.mailbox.sequencer = some (q.bootstrap request now).2 := by
  obtain ⟨now, hanswer, hnode⟩ := h.node_eq
  rw [hnode, ← hanswer]
  simp only [Node.act, Node.command, Mailbox.ask]
  cases hq : s.node.mailbox.sequencer with
  | none => exact .inl ⟨rfl, rfl, hq⟩
  | some q => exact .inr ⟨q, now, rfl, rfl, rfl⟩

/-- A running sequencer serves a request for a run or a query. -/
lemma allocate_of_some {request : TokenRequest} {r : Except SequencerError Token} {q : Sequencer}
    (h : s.Acts id (.allocate request) r s') (hq : s.node.mailbox.sequencer = some q) :
    r = (q.allocate request).1 ∧ s'.node.mailbox.sequencer = some (q.allocate request).2 := by
  obtain ⟨hstopped, -⟩ | ⟨q₀, hq₀, hserved⟩ := h.allocate
  · rw [hq] at hstopped
    cases hstopped
  · obtain rfl := Option.some.inj (hq.symm.trans hq₀)
    exact hserved

/-- A running sequencer serves a bootstrap. -/
lemma bootstrap_of_some {request : BootstrapRequest} {r : Except SequencerError BootstrapOutcome}
    {q : Sequencer} (h : s.Acts id (.bootstrap request) r s')
    (hq : s.node.mailbox.sequencer = some q) :
    ∃ now, r = (q.bootstrap request now).1 ∧
      s'.node.mailbox.sequencer = some (q.bootstrap request now).2 := by
  obtain ⟨hstopped, -⟩ | ⟨q₀, now, hq₀, hserved⟩ := h.bootstrap
  · rw [hq] at hstopped
    cases hstopped
  · obtain rfl := Option.some.inj (hq.symm.trans hq₀)
    exact ⟨now, hserved⟩

/-- A running sequencer takes one of its steps when positions are asked for. -/
lemma allocated {request : TokenRequest} {r : Except SequencerError Token} {q : Sequencer}
    (h : s.Acts id (.allocate request) r s') (hq : s.node.mailbox.sequencer = some q) :
    ∃ q', s'.node.mailbox.sequencer = some q' ∧ q.Allocated request r q' := by
  obtain ⟨rfl, hq'⟩ := h.allocate_of_some hq
  exact ⟨_, hq', q.allocated_allocate request⟩

/-- A running sequencer takes one of its steps when it is bootstrapped. -/
lemma bootstrapped {request : BootstrapRequest} {r : Except SequencerError BootstrapOutcome}
    {q : Sequencer} (h : s.Acts id (.bootstrap request) r s')
    (hq : s.node.mailbox.sequencer = some q) :
    ∃ now q', s'.node.mailbox.sequencer = some q' ∧ q.Bootstrapped request now r q' := by
  obtain ⟨now, rfl, hq'⟩ := h.bootstrap_of_some hq
  exact ⟨now, _, hq', q.bootstrapped_bootstrap request now⟩

/-- Only requests to the sequencer change its mailbox. -/
lemma mailbox (h : s.Acts id action answer s') (hasks : action.asksSequencer = false) :
    s'.node.mailbox = s.node.mailbox := by
  cases action with
  | onUnit call => rw [h.node_of_unit]
  | allocate request => cases hasks
  | bootstrap request => cases hasks
  | _ =>
    obtain ⟨now, -, hnode⟩ := h.node_eq
    rw [hnode]
    rfl

/-- What comes of looking up a client's epoch. -/
lemma knownEpoch {client : Nat} {epoch : Epoch} (h : s.Acts id (.knownEpoch client) epoch s') :
    epoch = s.node.epochs.getD client Epoch.zero := by
  obtain ⟨now, hanswer, -⟩ := h.node_eq
  exact hanswer.symm

/-- What comes of telling a client of an epoch. -/
lemma observeEpoch {client : Nat} {epoch : Epoch} {r : Unit}
    (h : s.Acts id (.observeEpoch client epoch) r s') :
    s'.node.epochs = s.node.epochs.modify client (max · epoch) := by
  obtain ⟨now, -, hnode⟩ := h.node_eq
  rw [hnode]
  rfl

/-- Nothing else changes what clients know. -/
lemma epochs_of_ne (h : s.Acts id action answer s')
    (hne : ∀ client epoch, action ≠ .observeEpoch client epoch) :
    s'.node.epochs = s.node.epochs := by
  cases action with
  | onUnit call => rw [h.node_of_unit]
  | observeEpoch client epoch => exact absurd rfl (hne client epoch)
  | _ =>
    obtain ⟨now, -, hnode⟩ := h.node_eq
    rw [hnode]
    rfl

/-- No action changes the bootstrapper. -/
lemma bootstrapper (h : s.Acts id action answer s') :
    s'.node.bootstrapper = s.node.bootstrapper := by
  cases action with
  | onUnit call => rw [h.node_of_unit]
  | _ =>
    obtain ⟨now, -, hnode⟩ := h.node_eq
    rw [hnode]
    rfl

/-- No action brings or takes a client. -/
lemma clients (h : s.Acts id action answer s') : s'.node.clients = s.node.clients := by
  cases action with
  | onUnit call => rw [h.node_of_unit]
  | _ =>
    obtain ⟨now, -, hnode⟩ := h.node_eq
    rw [hnode]
    rfl

/-- Clients forget no epoch. -/
lemma epoch_le (h : s.Acts id action answer s') {client : Nat} {epoch : Epoch}
    (hepoch : s.node.epochs[client]? = some epoch) :
    ∃ epoch', s'.node.epochs[client]? = some epoch' ∧ epoch ≤ epoch' := by
  by_cases hobserve : ∃ other learned, action = .observeEpoch other learned
  · obtain ⟨other, learned, rfl⟩ := hobserve
    rw [h.observeEpoch, List.getElem?_modify, hepoch]
    split
    · exact ⟨max epoch learned, rfl, by rw [Epoch.le_def, Epoch.val_max]; omega⟩
    · exact ⟨epoch, rfl, Nat.le_refl _⟩
  · rw [h.epochs_of_ne fun client epoch heq => hobserve ⟨client, epoch, heq⟩]
    exact ⟨epoch, hepoch, Nat.le_refl _⟩

lemma length_epochs (h : s.Acts id action answer s') :
    s'.node.epochs.length = s.node.epochs.length := by
  by_cases hobserve : ∃ other learned, action = .observeEpoch other learned
  · obtain ⟨other, learned, rfl⟩ := hobserve
    rw [h.observeEpoch, List.length_modify]
  · rw [h.epochs_of_ne fun client epoch heq => hobserve ⟨client, epoch, heq⟩]

end Acts

/-! ## Writes to one position -/

/-- From one scene to another nothing has changed but what units hold at one position. -/
structure OnlyAt (p : Position) (s s' : Scene) : Prop where
  chain : s'.node.chain = s.node.chain
  mailbox : s'.node.mailbox = s.node.mailbox
  clients : s'.node.clients = s.node.clients
  epochs : s'.node.epochs = s.node.epochs
  labels : s'.node.units.map (fun u => (u.name, u.offline)) =
    s.node.units.map fun u => (u.name, u.offline)
  slot : ∀ q, q ≠ p → ∀ i, s'.slot i q = s.slot i q

namespace OnlyAt

variable {s'' : Scene}

lemma refl (p : Position) (s : Scene) : OnlyAt p s s :=
  ⟨rfl, rfl, rfl, rfl, rfl, fun _ _ _ => rfl⟩

lemma trans (h : OnlyAt p s s') (h' : OnlyAt p s' s'') : OnlyAt p s s'' where
  chain := h'.chain.trans h.chain
  mailbox := h'.mailbox.trans h.mailbox
  clients := h'.clients.trans h.clients
  epochs := h'.epochs.trans h.epochs
  labels := h'.labels.trans h.labels
  slot q hq i := (h'.slot q hq i).trans (h.slot q hq i)

lemma of_write {r : Except ReplicationError WriteOutcome}
    (hacts : s.Acts id (.onUnit (.write i p v)) r s') : OnlyAt p s s' where
  chain := hacts.chain
  mailbox := hacts.mailbox rfl
  clients := hacts.clients
  epochs := hacts.epochs_of_ne (by simp)
  labels := hacts.labels
  slot q hq i := hacts.slot_of_ne fun data heq => hq (by cases heq; rfl)

lemma names (h : OnlyAt p s s') : s'.node.units.map (·.name) = s.node.units.map (·.name) := by
  simpa [List.map_map, Function.comp_def] using congrArg (List.map Prod.fst) h.labels

lemma length (h : OnlyAt p s s') : s'.node.units.length = s.node.units.length := by
  simpa using congrArg List.length h.labels

end OnlyAt

end Scene

end SharedLog
