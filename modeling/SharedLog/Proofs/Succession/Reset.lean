/-
# The reset

A bootstrapper that is to carry out the full reset replays the log, however others write to it
meanwhile, and asks the sequencer for what it has found. The sequencer serves from then on. Only an
offline unit can keep the bootstrapper from this, and a sequencer that was hasty.
-/
import SharedLog.Proofs.Bootstrapper.Operations
import SharedLog.Proofs.Succession.Law

namespace SharedLog

variable {L : Law} {s s' : Scene} {id : Nat} {c : Chain} {rounds : Option Nat} {l : Legacy}

namespace Bootstrapper

variable {b : Bootstrapper} {change : LayoutChange}

/-- A full reset asks for the tails that a replay has found. -/
lemma requestFor_meets (hL : L.Chainlike) (hwaits : c.Waits L) (hc : s.node.chain = c)
    (hholds : L.holds s) (hreset : change.fullReset = true) :
    L.Meets id (L.EndsNode id fun request s => ∃ tails, request = change.resetTo tails ∧
      s.Replayed (Position.Within change.rebuildStart.val change.globalTailHint.val)
        change.streamTailHints tails) (b.requestFor c change) s := by
  refine (requestFor_reset hreset (Chain.rebuildTails_meets hL hwaits hc hholds) hholds).mono
    fun r s₁ hr => ?_
  cases r with
  | error e => exact hr
  | ok request =>
    obtain ⟨snapshot, rfl, htail, hreplayed⟩ := hr
    exact ⟨snapshot.streamTails, by rw [htail]; rfl, hreplayed⟩

end Bootstrapper

namespace Legacy

variable {b : Bootstrapper}

/-- What an attempt at the reset ends with. -/
def AttemptEnds (l : Legacy) (id : Nat) : Except ServerError BootstrapOutcome → Scene → Prop
  | .ok _, s => l.base.Hasty s ∨ l.Serves s
  | .error _, s => l.base.Hasty s ∨ ∃ e, chainLaw.Fails id s e

/-- The reset itself is served, whether for the first time or again. -/
lemma bootstrap_meets {tails : StreamPositions} (hreplayed : l.Replayed s tails) :
    (l.law true rounds).ask id (.bootstrap (l.change.resetTo tails))
      (fun r s => l.AttemptEnds id (r.mapError ServerError.sequencer) s) s := by
  refine Law.ask_intro fun s₁ hlater ⟨hsound, hentered, hstage⟩ => ?_
  have hreplayed₁ : l.Replayed s₁ tails := hreplayed.later hlater.1 hsound
  refine ⟨⟨trivial, trivial, fun request heq => ⟨rfl, tails, ?_, hreplayed₁⟩⟩, ?_⟩
  · cases heq
    rfl
  · intro r s₂ hacts _ hlater₂ _
    cases hstage with
    | hasty h =>
      have hhasty := h.later hlater₂.1
      cases r with
      | ok o => exact .inl hhasty
      | error e => exact .inl hhasty
    | awaits h =>
      obtain ⟨rfl, hserves⟩ := h.reset hsound hentered hreplayed₁ hacts
      exact .inr hserves
    | serves h _ =>
      obtain ⟨rfl, -⟩ := h.bootstrap hreplayed₁ hacts
      exact .inr (hlater₂.2 h)

lemma tryBootstrap_meets (hwaits : c.Waits (l.law true rounds)) (hc : s.node.chain = c)
    (hholds : (l.law true rounds).holds s) :
    (l.law true rounds).Meets id (l.AttemptEnds id) (b.tryBootstrap c l.change) s := by
  refine (Bootstrapper.requestFor_meets law_clientlike.toChainlike hwaits hc hholds
    l.restores.fullReset).andThen hholds ?_ ?_
  · rintro request s₁ - - ⟨tails, rfl, hreplayed⟩
    exact (Program.meets_mapError ..).mpr (bootstrap_meets hreplayed)
  · rintro e s₁ - - ⟨e', -, hfails⟩
    exact .inr ⟨e', hfails⟩

/-- What handling the change ends with: the reset is acknowledged and the sequencer serves, unless
a unit was offline or the sequencer was hasty. -/
def ChangeEnds (l : Legacy) (id : Nat) (settings : BootstrapSettings) :
    BootstrapReply × Bootstrapper → Scene → Prop :=
  fun r s => l.base.Hasty s ∨ (r = (.ack, ⟨settings, some l.change.epoch⟩) ∧ l.Serves s) ∨
    r.1 ≠ .ack ∧ ∃ e, chainLaw.Fails id s e

lemma lasting_changeEnds {delivered : Bool} (settings : BootstrapSettings) :
    (l.law delivered rounds).Lasting (l.ChangeEnds id settings) := by
  rintro r s s' hr hlater -
  rcases hr with hasty | ⟨hr, hserves⟩ | ⟨hr, e, hfails⟩
  · exact .inl (hasty.later hlater.1)
  · exact .inr (.inl ⟨hr, hlater.2 hserves⟩)
  · exact .inr (.inr ⟨hr, e, chainLaw_chainlike.fails hfails hlater.1⟩)

/-- The change is handled as it should be. -/
theorem handle_meets (hwaits : c.Waits (l.law true rounds)) (hc : s.node.chain = c)
    (hholds : (l.law true rounds).holds s) (settings : BootstrapSettings) :
    (l.law true rounds).Meets id (l.ChangeEnds id settings)
      (Bootstrapper.handle ⟨settings, none⟩ c l.change) s := by
  refine (Bootstrapper.handle_ends rfl (fun s₁ hlater hholds₁ => tryBootstrap_meets hwaits
    (hlater.1.chain.trans hc) hholds₁) hholds).mono fun r s₁ hr => ?_
  rcases hr with ⟨o, hends, rfl⟩ | ⟨e, hends, rfl⟩
  · rcases hends with hasty | hserves
    · exact .inl hasty
    · exact .inr (.inl ⟨rfl, hserves⟩)
  · rcases hends with hasty | hfails
    · exact .inl hasty
    · exact .inr (.inr ⟨by simp, hfails⟩)

end Legacy

end SharedLog
