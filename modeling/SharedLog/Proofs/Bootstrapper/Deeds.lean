/-
# What is done for a change of layout

Everything that is done for a change of layout before its last bootstrap is fruitless: units are
read and filled, and bootstraps are refused. If the change is acknowledged, then its last deed is a
bootstrap of its epoch that took effect or was in effect already; otherwise there is no such deed
(`Bootstrapper.HandleEnds`). This is shown of the bootstrapper's program alone, for any answers.

Fruitless deeds leave the sequencer as it is, the count of stale requests apart.
-/
import SharedLog.Proofs.Bootstrapper.Operations
import SharedLog.Proofs.Sequencer.Steps
import SharedLog.Proofs.World.Course

namespace SharedLog

variable {s s' : Scene} {id : Nat} {past : List Event} {change : LayoutChange} {b : Bootstrapper}
  {c : Chain}

/-! ## What is done for a change of layout -/

/-- An event that does not move the sequencer: a request to a unit, or a refused bootstrap. -/
inductive Event.Fruitless : Event → Prop
  | asked (id : Nat) (call : UnitCall) (answer : call.Answer) :
    Fruitless ⟨id, .onUnit call, answer⟩
  | refused (id : Nat) (request : BootstrapRequest) (e : SequencerError) :
    Fruitless ⟨id, .bootstrap request, .error e⟩

lemma Event.OnUnit.fruitless {e : Event} (h : e.OnUnit) : e.Fruitless := by
  obtain ⟨id, action, answer⟩ := e
  obtain ⟨call, rfl : action = .onUnit call⟩ := h
  exact .asked id call answer

lemma Event.not_fruitless {request : BootstrapRequest} {outcome : BootstrapOutcome} :
    ¬ Event.Fruitless ⟨id, .bootstrap request, .ok outcome⟩ := nofun

namespace Bootstrapper

open NodeProgram (Leads)

/-- What an attempt ends with, and what has been done for it and before it. -/
inductive AttemptEnds (id : Nat) (change : LayoutChange) :
    Except ServerError BootstrapOutcome → List Event → Prop
  | failed {e : ServerError} {past : List Event} (fruitless : ∀ event ∈ past, event.Fruitless) :
    AttemptEnds id change (.error e) past
  | sealed {outcome : BootstrapOutcome} {request : BootstrapRequest} {earlier : List Event}
      (fruitless : ∀ event ∈ earlier, event.Fruitless) (epoch : request.newEpoch = change.epoch) :
    AttemptEnds id change (.ok outcome) (earlier ++ [⟨id, .bootstrap request, .ok outcome⟩])

/-- What the handling of a change ends with, and what has been done for it. -/
inductive HandleEnds (b : Bootstrapper) (id : Nat) (change : LayoutChange) :
    BootstrapReply × Bootstrapper → List Event → Prop
  | outdated {last : Epoch} (newer : b.newerEpoch? change = some last) :
    HandleEnds b id change (outdated change last, b) []
  | refused {reason : String} {past : List Event} (current : b.newerEpoch? change = none)
      (fruitless : ∀ event ∈ past, event.Fruitless) : HandleEnds b id change (.nack reason, b) past
  | acknowledged {outcome : BootstrapOutcome} {request : BootstrapRequest} {earlier : List Event}
      (current : b.newerEpoch? change = none) (fruitless : ∀ event ∈ earlier, event.Fruitless)
      (epoch : request.newEpoch = change.epoch) :
    HandleEnds b id change (.ack, { b with lastApplied := some change.epoch })
      (earlier ++ [⟨id, .bootstrap request, .ok outcome⟩])

/-- What is refused has left the bootstrapper as it was, and nothing that was done for it moved the
sequencer. -/
lemma HandleEnds.of_nack {reason : String} {b' : Bootstrapper}
    (h : HandleEnds b id change (.nack reason, b') past) :
    b' = b ∧ ∀ event ∈ past, event.Fruitless := by
  generalize hr : (BootstrapReply.nack reason, b') = r at h
  cases h with
  | outdated =>
    cases hr
    exact ⟨rfl, List.forall_mem_nil _⟩
  | refused current fruitless =>
    cases hr
    exact ⟨rfl, fruitless⟩
  | acknowledged => cases hr

/-- What is acknowledged was sealed by a bootstrap of its epoch, before which nothing moved the
sequencer. -/
lemma HandleEnds.of_ack {b' : Bootstrapper} (h : HandleEnds b id change (.ack, b') past) :
    b'.lastApplied = some change.epoch ∧ ∃ earlier request outcome,
      past = earlier ++ [⟨id, .bootstrap request, .ok outcome⟩] ∧
        request.newEpoch = change.epoch ∧ ∀ event ∈ earlier, event.Fruitless := by
  cases h with
  | acknowledged current fruitless epoch => exact ⟨rfl, _, _, _, rfl, epoch, fruitless⟩

/-- A replay asks nobody but units. -/
lemma leads_replayFrom {batchSize stop next : Nat} {found : TailSnapshot}
    (hpast : ∀ event ∈ past, event.Fruitless) :
    Leads id (fun _ past => ∀ event ∈ past, event.Fruitless)
      ((replayFrom batchSize stop next found).interpret c.readMany) past := by
  induction next, found using replayFrom.induct batchSize stop generalizing past with
  | case1 next found hnext batchEnd =>
    rename_i ih
    rw [interpret_replayFrom_of_lt c.readMany hnext]
    have hread : Leads id (fun _ past => ∀ event ∈ past, event.Fruitless)
        (c.readMany (positionsBetween next batchEnd)) past := by
      intro more answer hmore
      have hfruitless : ∀ event ∈ past ++ more, event.Fruitless := fun event hmem =>
        (List.mem_append.mp hmem).elim (hpast event) fun hmem => (hmore event hmem).fruitless
      cases answer with
      | ok values | error e => exact hfruitless
    exact hread.andThen (fun readings past hpast => ih readings hpast) fun _ _ hpast => hpast
  | case2 next found hnext =>
    rw [interpret_replayFrom_of_le c.readMany (Nat.not_lt.mp hnext)]
    exact hpast

/-- The request is for the change's epoch, and until it is made nothing moves the sequencer. -/
lemma leads_requestFor (hpast : ∀ event ∈ past, event.Fruitless) :
    Leads id (fun r past => (∀ event ∈ past, event.Fruitless) ∧
        ∀ request, r = .ok request → request.newEpoch = change.epoch)
      (b.requestFor c change) past := by
  unfold requestFor
  split
  · have hreplay : Leads id (fun _ past => ∀ event ∈ past, event.Fruitless)
        ((c.rebuildTails change.rebuildStart change.globalTailHint change.streamTailHints
          b.settings.replayBatchSize.toNat).mapError ServerError.replication) past :=
      (Program.meets_mapError ..).mpr (leads_replayFrom hpast)
    refine hreplay.andThen (fun snapshot past hpast => ⟨hpast, ?_⟩) fun e past hpast => ⟨hpast, ?_⟩
    · rintro request heq
      cases heq
      rfl
    · nofun
  · refine ⟨hpast, ?_⟩
    rintro request heq
    cases heq
    rfl

lemma leads_tryBootstrap (hpast : ∀ event ∈ past, event.Fruitless) :
    Leads id (AttemptEnds id change) (b.tryBootstrap c change) past := by
  refine (leads_requestFor hpast).andThen (fun request past hrequest => ?_) fun e past hpast =>
    .failed hpast.1
  refine (Program.meets_mapError ..).mpr fun answer => ?_
  cases answer with
  | ok outcome => exact .sealed hrequest.1 (hrequest.2 request rfl)
  | error e =>
    refine .failed fun event hmem => ?_
    rcases List.mem_append.mp hmem with hmem | hmem
    · exact hrequest.1 event hmem
    · exact List.mem_singleton.mp hmem ▸ .refused ..

/-- Attempts are made until one seals the change or the last one has failed. -/
lemma leads_attempts {attempt : NodeOperation BootstrapOutcome}
    (hattempt : ∀ past, (∀ event ∈ past, Event.Fruitless event) →
      Leads id (AttemptEnds id change) attempt past)
    (hpast : ∀ event ∈ past, event.Fruitless) (more : Nat) (delay : UInt64) :
    Leads id (AttemptEnds id change) (attempts attempt more delay) past := by
  induction more generalizing past delay with
  | zero => exact hattempt past hpast
  | succ more ih =>
    refine (hattempt past hpast).bind fun r past hr => ?_
    cases hr with
    | sealed fruitless epoch => exact .sealed fruitless epoch
    | failed fruitless =>
      dsimp only
      split
      · exact fun late => ih fruitless _
      · exact .failed fruitless

/-- The handling of a change of layout, whatever it is answered. -/
theorem leads_handle : Leads id (HandleEnds b id change) (b.handle c change) [] := by
  unfold handle
  split
  · exact .outdated ‹_›
  · rename_i hcurrent
    refine (leads_attempts (fun past => leads_tryBootstrap) (List.forall_mem_nil _) _ _).bind
      fun r past hr => ?_
    cases hr with
    | sealed fruitless epoch => exact .acknowledged hcurrent fruitless epoch
    | failed fruitless => exact .refused hcurrent fruitless

end Bootstrapper

/-! ## What deeds mean for the sequencer -/

namespace Scene

/-- From one scene to the next a running sequencer has changed in nothing but the count of stale
requests. -/
def Spares (s s' : Scene) : Prop :=
  ∃ q n, s.node.mailbox.sequencer = some q ∧
    s'.node.mailbox.sequencer = some { q with staleRejections := n }

/-- A sequencer runs, in no older epoch than those of the bootstraps that have succeeded. -/
structure Governed (s : Scene) (q : Sequencer) : Prop where
  running : s.node.mailbox.sequencer = some q
  sealed : ∀ {id request outcome}, ⟨id, .bootstrap request, .ok outcome⟩ ∈ s.trace →
    request.newEpoch ≤ q.epoch

variable {q : Sequencer} {action : Action} {answer : action.Answer}

lemma spares_of_mailbox (hrunning : s.node.mailbox.sequencer = some q)
    (hmailbox : s'.node.mailbox = s.node.mailbox) : s.Spares s' :=
  ⟨q, q.staleRejections, hrunning, hmailbox ▸ hrunning⟩

/-- A fruitless event does not move the sequencer. -/
lemma Acts.spares (h : s.Acts id action answer s') (hrunning : s.node.mailbox.sequencer = some q)
    (hfruitless : Event.Fruitless ⟨id, action, answer⟩) : s.Spares s' := by
  cases hfruitless with
  | asked => exact spares_of_mailbox hrunning (h.mailbox rfl)
  | refused _ request e =>
    obtain ⟨now, q', hq', hbootstrapped⟩ := h.bootstrapped hrunning
    obtain ⟨n, rfl⟩ := hbootstrapped.failed
    exact ⟨q, n, hrunning, hq'⟩

/-- After an action the sequencer runs, and in no older epoch than before. -/
lemma Governed.of_acts (h : s.Governed q) (hacts : s.Acts id action answer s') :
    ∃ q', s'.Governed q' ∧ q.epoch ≤ q'.epoch := by
  -- of the events only the last one is new
  have hkeep : ∀ q' : Sequencer, s'.node.mailbox.sequencer = some q' → q.epoch ≤ q'.epoch →
      (∀ request outcome, (⟨id, .bootstrap request, .ok outcome⟩ : Event) = ⟨id, action, answer⟩ →
        request.newEpoch ≤ q'.epoch) → ∃ q', s'.Governed q' ∧ q.epoch ≤ q'.epoch := by
    refine fun q' hq' hle hnew => ⟨q', ⟨hq', fun {id' request outcome} hmem => ?_⟩, hle⟩
    rw [hacts.trace_eq, List.mem_append, List.mem_singleton] at hmem
    rcases hmem with hmem | heq
    · exact Nat.le_trans (h.sealed hmem) hle
    · obtain rfl : id' = id := congrArg Event.activity heq
      exact hnew request outcome heq
  cases action with
  | allocate request =>
    obtain ⟨q', hq', hallocated⟩ := hacts.allocated h.running
    have hepoch := hallocated.frame.1
    exact hkeep q' hq' (Nat.le_of_eq (congrArg Epoch.val hepoch.symm)) nofun
  | bootstrap request =>
    obtain ⟨now, q', hq', hbootstrapped⟩ := hacts.bootstrapped h.running
    cases answer with
    | ok outcome =>
      obtain ⟨hle, hepoch, -⟩ := hbootstrapped.succeeded
      refine hkeep q' hq' hle fun request' outcome' heq => ?_
      cases heq
      exact Nat.le_of_eq (congrArg Epoch.val hepoch.symm)
    | error e =>
      obtain ⟨n, rfl⟩ := hbootstrapped.failed
      exact hkeep _ hq' (Nat.le_refl _) nofun
  | onUnit | knownEpoch | observeEpoch =>
    have hrunning := h.running
    rw [← hacts.mailbox rfl] at hrunning
    exact hkeep q hrunning (Nat.le_refl _) nofun

lemma Governed.of_calm (h : s.Governed q) (hcalm : s.Calm s') : s'.Governed q :=
  ⟨hcalm.mailbox ▸ h.running, hcalm.trace ▸ h.sealed⟩

end Scene

end SharedLog
