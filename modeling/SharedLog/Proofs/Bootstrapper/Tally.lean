/-
# What a sequencer tells of its past

A sequencer that has not been bootstrapped and has handed out nothing may be reset within its epoch.
It tells this from a count of positions that stays at the largest number instead of starting anew,
and so it is never mistaken: it takes itself to be untouched if and only if no run was ever given
and no bootstrap ever took effect (`Scene.Unused`).
-/
import SharedLog.Proofs.Bootstrapper.InEffect
import SharedLog.Proofs.Sequencer.Admission
import SharedLog.Proofs.Sequencer.History

namespace SharedLog

variable {s s' : Scene} {id : Nat} {q : Sequencer} {action : Action} {answer : action.Answer}

namespace Scene

/-- No run of positions was given, and no bootstrap took effect. -/
def Unused (s : Scene) : Prop :=
  ∀ e ∈ s.trace, ¬ e.Applies ∧ ¬ ∃ request token, e.Gives request token

instance (s : Scene) : Decidable s.Unused :=
  inferInstanceAs (Decidable (∀ e ∈ s.trace, _ ∧ _))

lemma Acts.unused_iff (h : s.Acts id action answer s') : s'.Unused ↔
    s.Unused ∧ ¬ Event.Applies ⟨id, action, answer⟩ ∧
      ¬ ∃ request token, Event.Gives ⟨id, action, answer⟩ request token := by
  simp only [Unused, h.trace_eq, List.forall_mem_append, List.forall_mem_singleton]

/-- What the running sequencer tells of its past. -/
structure Tallies (s : Scene) (q : Sequencer) : Prop where
  running : s.node.mailbox.sequencer = some q
  untouched_iff : q.isUntouched = true ↔ s.Unused
  disciplined : q.Disciplined

namespace Tallies

/-- Whatever neither gives a run nor applies a bootstrap leaves the tally as it is. -/
lemma of_idle (h : s.Tallies q) (hacts : s.Acts id action answer s') {q' : Sequencer}
    (hrunning : s'.node.mailbox.sequencer = some q') (hlast : q'.lastBootstrap = q.lastBootstrap)
    (hissued : q'.tokensIssued = q.tokensIssued) (happlies : ¬ Event.Applies ⟨id, action, answer⟩)
    (hgives : ¬ ∃ request token, Event.Gives ⟨id, action, answer⟩ request token) :
    s'.Tallies q' where
  running := hrunning
  untouched_iff := by
    rw [hacts.unused_iff, ← h.untouched_iff, Sequencer.isUntouched, Sequencer.isUntouched, hlast,
      hissued]
    exact ⟨fun hu => ⟨hu, happlies, hgives⟩, And.left⟩
  disciplined := by
    rw [Sequencer.Disciplined, hlast]
    exact h.disciplined

lemma of_allocate (h : s.Tallies q) {request : TokenRequest} {r : Except SequencerError Token}
    (hacts : s.Acts id (.allocate request) r s') : ∃ q', s'.Tallies q' := by
  obtain ⟨q', hrunning, hallocated⟩ := hacts.allocated h.running
  have happlies : ¬ Event.Applies ⟨id, .allocate request, r⟩ := by simp [Event.Applies]
  refine ⟨q', ?_⟩
  cases hallocated with
  | stale | tooMany | overflow =>
    exact h.of_idle hacts hrunning rfl rfl happlies (by simp [Event.Gives])
  | queried hepoch hcount =>
    exact h.of_idle hacts hrunning rfl rfl happlies (by simp [Event.Gives, hcount])
  | @granted tail last hepoch hcount =>
    -- the count of positions does not come back to nothing
    have htouched : (q.grant request tail last).isUntouched = false := by
      simp [Sequencer.isUntouched, Sequencer.grant, Sequencer.addSaturating_ne_zero hcount]
    refine ⟨hrunning, ?_, h.disciplined⟩
    rw [hacts.unused_iff, htouched]
    simp [Event.Gives, hcount]

lemma of_bootstrap (h : s.Tallies q) {request : BootstrapRequest}
    {r : Except SequencerError BootstrapOutcome}
    (hacts : s.Acts id (.bootstrap request) r s') : ∃ q', s'.Tallies q' := by
  obtain ⟨now, q', hrunning, hbootstrapped⟩ := hacts.bootstrapped h.running
  refine ⟨q', ?_⟩
  have hdisciplined := h.disciplined.of_bootstrapped hbootstrapped
  cases hbootstrapped with
  | stale | already | refused =>
    exact h.of_idle hacts hrunning rfl rfl (by simp [Event.Applies]) (by simp [Event.Gives])
  | applied =>
    refine ⟨hrunning, ?_, hdisciplined⟩
    rw [hacts.unused_iff]
    simp [Sequencer.isUntouched, Event.Applies]

lemma of_acts (h : s.Tallies q) (hacts : s.Acts id action answer s') : ∃ q', s'.Tallies q' := by
  cases action with
  | allocate request => exact h.of_allocate hacts
  | bootstrap request => exact h.of_bootstrap hacts
  | onUnit | knownEpoch | observeEpoch =>
    have hrunning := h.running
    rw [← hacts.mailbox rfl] at hrunning
    exact ⟨q, h.of_idle hacts hrunning rfl rfl (by simp [Event.Applies]) (by simp [Event.Gives])⟩

lemma of_calm (h : s.Tallies q) (hcalm : s.Calm s') : s'.Tallies q where
  running := hcalm.mailbox ▸ h.running
  untouched_iff := by
    rw [Unused, hcalm.trace]
    exact h.untouched_iff
  disciplined := h.disciplined

end Tallies

end Scene

/-- The sequencer of a node tells whether it was ever used. -/
lemma World.tallies_play {names : List String} {policy : HoleFillPolicy}
    {sequencer : SequencerSettings} {management : BootstrapSettings} {node : Node}
    (h : Node.start names policy sequencer management = .ok node) (moves : List Move) :
    ∃ q, ((World.start node).play moves).scene.Tallies q := by
  induction moves using List.reverseRecOn with
  | nil =>
    obtain ⟨-, -, -, hq, -⟩ := Node.start_eq_ok h
    refine ⟨_, hq, ⟨fun _ e hmem => (List.not_mem_nil hmem).elim, fun _ => rfl⟩, ?_⟩
    intro request hlast
    cases hlast
  | append_singleton moves m ih =>
    obtain ⟨q, hq⟩ := ih
    rw [play_append, play_cons, play_nil]
    rcases ((World.start node).play moves).calm_or_acts m with
      hcalm | ⟨_, _, _, _, -, -, hacts⟩
    · exact ⟨q, hq.of_calm hcalm⟩
    · exact hq.of_acts hacts

end SharedLog
