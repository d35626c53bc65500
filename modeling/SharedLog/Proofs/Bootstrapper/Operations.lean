/-
# Bootstraps as programs

Nothing that a bootstrapper does endangers the chain: a replay only reads, and the sequencer is
asked for nothing but a merge unless the change is a full reset.
-/
import SharedLog.Bootstrapper
import SharedLog.Proofs.Bootstrapper.Snapshot
import SharedLog.Proofs.Client.Operations

namespace SharedLog

variable {L : Law} {s : Scene} {id : Nat} {c : Chain}

namespace Bootstrapper

variable {b : Bootstrapper} {change : LayoutChange}

/-- A full reset asks for what its replay ends with. -/
lemma requestFor_reset {good : TailSnapshot → Scene → Prop} (hreset : change.fullReset = true)
    (hreplay : L.Meets id (L.Ends id good) (c.rebuildTails change.rebuildStart
      change.globalTailHint change.streamTailHints b.settings.replayBatchSize.toNat) s)
    (hholds : L.holds s) :
    L.Meets id (L.EndsNode id fun request s => ∃ snapshot, request = ⟨change.epoch,
      snapshot.globalTail, snapshot.streamTails, change.rebuildStart, true⟩ ∧ good snapshot s)
      (b.requestFor c change) s := by
  rw [requestFor, if_pos hreset]
  exact hreplay.mapReplication.andThenEnds hholds fun snapshot _ _ _ hgood => ⟨snapshot, rfl, hgood⟩

lemma tryBootstrap_meets (hL : L.Chainlike) (hwaits : c.Waits L) (hc : s.node.chain = c)
    (hholds : L.holds s) (hallows : ∀ request s,
      (request.fullReset = true → change.fullReset = true) → L.holds s →
        L.allows (.bootstrap request) s) :
    L.Meets id (fun _ _ => True) (b.tryBootstrap c change) s := by
  have hrequest : L.Meets id (fun r _ => ∀ request, r = .ok request →
      request.fullReset = true → change.fullReset = true) (b.requestFor c change) s := by
    by_cases hreset : change.fullReset = true
    · exact (requestFor_reset hreset (Chain.rebuildTails_meets hL hwaits hc hholds) hholds).mono
        fun _ _ _ _ _ _ => hreset
    · rw [requestFor, if_neg hreset]
      rintro request heq hreset'
      cases heq
      cases hreset'
  refine hrequest.andThen hholds ?_ fun _ _ _ _ _ => trivial
  intro request s₁ _ hholds₁ hreset
  refine (Program.meets_mapError ..).mpr (Law.ask_intro fun s₂ _ hholds₂ => ⟨?_, ?_⟩)
  · exact hallows request s₂ (hreset request rfl) hholds₂
  · exact fun _ _ _ _ _ _ => trivial

/-- Attempts end with what every one of them ends with. -/
lemma attempts_meets {α : Type} {attempt : NodeOperation α}
    {post : Except ServerError α → Scene → Prop}
    (hattempt : ∀ s₁, L.later s s₁ → L.holds s₁ → L.Meets id post attempt s₁)
    (hholds : L.holds s) (more : Nat) (delay : UInt64) :
    L.Meets id post (attempts attempt more delay) s := by
  induction more generalizing s delay with
  | zero => exact hattempt s (L.later_refl s) hholds
  | succ more ih =>
    refine (hattempt s (L.later_refl s) hholds).bind hholds fun r s₁ hlater hholds₁ hr => ?_
    cases r with
    | ok a => exact hr
    | error e =>
      dsimp only
      split
      · exact fun late => ih (fun s₂ hlater₂ => hattempt s₂ (L.later_trans hlater hlater₂))
          hholds₁ _
      · exact hr

/-- A change of layout that is not refused as too old ends with what its attempts end with. -/
lemma handle_ends {ends : Except ServerError BootstrapOutcome → Scene → Prop}
    (hnewer : b.newerEpoch? change = none) (hattempt : ∀ s₁, L.later s s₁ → L.holds s₁ →
      L.Meets id ends (b.tryBootstrap c change) s₁) (hholds : L.holds s) :
    L.Meets id (fun r s =>
        (∃ o, ends (.ok o) s ∧ r = (.ack, { b with lastApplied := some change.epoch })) ∨
          ∃ e, ends (.error e) s ∧ r = (.nack e.message, b)) (b.handle c change) s := by
  unfold handle
  rw [hnewer]
  refine (attempts_meets hattempt hholds _ _).bind hholds fun r s₁ _ _ hr => ?_
  cases r with
  | ok o => exact .inl ⟨o, hr, rfl⟩
  | error e => exact .inr ⟨e, hr, rfl⟩

/-- A change of layout keeps a law under which the sequencer may be asked for what the change
amounts to. -/
theorem handle_meets (hL : L.Chainlike) (hwaits : c.Waits L) (hc : s.node.chain = c)
    (hholds : L.holds s) (hallows : ∀ request s,
      (request.fullReset = true → change.fullReset = true) → L.holds s →
        L.allows (.bootstrap request) s) :
    L.Meets id (fun _ _ => True) (b.handle c change) s := by
  cases hnewer : b.newerEpoch? change with
  | some last =>
    unfold handle
    rw [hnewer]
    trivial
  | none =>
    exact (handle_ends hnewer (fun s₁ hlater hholds₁ => tryBootstrap_meets hL hwaits
      ((hL.grows hlater).chain.trans hc) hholds₁ hallows) hholds).mono fun _ _ _ => trivial

end Bootstrapper

end SharedLog
