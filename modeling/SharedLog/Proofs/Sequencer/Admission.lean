/-
# Full resets that are admitted

Whether a sequencer takes a full reset is a matter of its epoch, of the bootstrap that it remembers
and of whether it was ever used; all else is up to the request. A sequencer that is asked for one
full reset time and again is as it was, or it was reset once (`Sequencer.Asked`), and it gives the
same kind of answer every time.
-/
import SharedLog.Proofs.Sequencer.Steps

namespace SharedLog

/-- The hints of a request are in order: its range does not lead backwards, and no stream reaches
the global tail. -/
structure BootstrapRequest.Orderly (request : BootstrapRequest) : Prop where
  start_le : request.rebuildStart ≤ request.globalTailHint
  hints_lt : ∀ stream p, request.streamTailHints.at? stream = some p → p < request.globalTailHint

namespace Sequencer

variable {q q' : Sequencer} {request : BootstrapRequest} {now : Timestamp}
  {r : Except SequencerError BootstrapOutcome}

/-! ## What is admitted -/

/-- A request is the one that was applied last, and it is one of the present epoch. -/
def Repeats (q : Sequencer) (request : BootstrapRequest) : Prop :=
  request.newEpoch = q.epoch ∧ q.lastBootstrap = some request

instance (q : Sequencer) (request : BootstrapRequest) : Decidable (q.Repeats request) :=
  inferInstanceAs (Decidable (_ ∧ _))

/-- A full reset is in effect already, or nothing speaks against it. -/
def Admits (q : Sequencer) (request : BootstrapRequest) : Prop :=
  q.Repeats request ∨ q.epoch ≤ request.newEpoch ∧ q.resetObjection? request = none

/-- The hints of a full reset that is remembered are in order. -/
def Disciplined (q : Sequencer) : Prop :=
  ∀ request, q.lastBootstrap = some request → request.fullReset = true → request.Orderly

/-- A full reset that takes effect makes of the sequencer what the request says. -/
lemma reset_of_reseed {globalTail : Position} {streamTails : StreamTails}
    (hreset : request.fullReset = true) (h : q.reseed request = .ok (globalTail, streamTails)) :
    q.resetObjection? request = none ∧ globalTail = request.globalTailHint ∧
      streamTails = hintedTails request.streamTailHints := by
  rw [reseed, if_pos hreset] at h
  split at h
  · cases h
  · cases h
    exact ⟨‹_›, rfl, rfl⟩

lemma Disciplined.of_bootstrapped (h : q.Disciplined) (hb : q.Bootstrapped request now r q') :
    q'.Disciplined := by
  cases hb with
  | stale | already | refused => exact h
  | applied hepoch hseed =>
    intro request' hlast hreset
    obtain rfl := Option.some.inj hlast
    obtain ⟨-, hstart, hhints⟩ :=
      resetObjection?_eq_none_iff.mp (reset_of_reseed hreset hseed).1
    exact ⟨hstart, hhints⟩

/-- A full reset is admitted if its hints are in order, and if it is one of a later epoch, or the
sequencer was never used, or it is in effect already. -/
theorem admits_iff (h : q.Disciplined) (hreset : request.fullReset = true) :
    q.Admits request ↔ request.Orderly ∧ (q.epoch < request.newEpoch ∨
      q.epoch = request.newEpoch ∧ q.isUntouched = true ∨ q.Repeats request) := by
  rw [Admits, resetObjection?_eq_none_iff]
  constructor
  · rintro (hrepeats | ⟨hepoch, huntouched, hstart, hhints⟩)
    · exact ⟨h request hrepeats.2 hreset, .inr (.inr hrepeats)⟩
    · refine ⟨⟨hstart, hhints⟩, ?_⟩
      rcases Nat.lt_or_eq_of_le hepoch with hlt | heq
      · exact .inl hlt
      · have hsame : q.epoch = request.newEpoch := Epoch.ext heq
        exact .inr (.inl ⟨hsame, huntouched hsame.symm⟩)
  · rintro ⟨⟨hstart, hhints⟩, hlt | ⟨heq, huntouched⟩ | hrepeats⟩
    · refine .inr ⟨Nat.le_of_lt hlt, fun heq => ?_, hstart, hhints⟩
      rw [heq] at hlt
      exact absurd hlt (Nat.lt_irrefl _)
    · exact .inr ⟨Nat.le_of_eq (congrArg Epoch.val heq), fun _ => huntouched, hstart, hhints⟩
    · exact .inl hrepeats

/-! ## What a sequencer becomes -/

/-- The state after a full reset, at the given moment. -/
def resetBy (q : Sequencer) (request : BootstrapRequest) (now : Timestamp) : Sequencer :=
  { q with
    epoch := request.newEpoch
    globalTail := request.globalTailHint
    streamTails := hintedTails request.streamTailHints
    lastBootstrap := some request
    lastBootstrapAt := some now
    bootstraps := q.bootstraps + 1 }

/-- What a sequencer can have become by being asked for nothing but one full reset. -/
inductive Asked (q : Sequencer) (request : BootstrapRequest) : Sequencer → Prop
  | spared (n : UInt64) : Asked q request { q with staleRejections := n }
  | reset (n : UInt64) (now : Timestamp) (new : ¬ q.Repeats request)
      (epoch : q.epoch ≤ request.newEpoch) (free : q.resetObjection? request = none) :
    Asked q request (resetBy { q with staleRejections := n } request now)

/-- Asked once more, the sequencer is still one or the other, and it answers as it would have
answered at first. -/
theorem Asked.bootstrap (h : q.Asked request q') (hreset : request.fullReset = true)
    (now : Timestamp) : q.Asked request (q'.bootstrap request now).2 ∧
      ((∃ outcome, (q'.bootstrap request now).1 = .ok outcome) ↔ q.Admits request) := by
  cases h with
  | spared n =>
    by_cases hrepeats : q.Repeats request
    · have hagain : Sequencer.bootstrap { q with staleRejections := n } request now =
          (.ok .alreadyApplied, { q with staleRejections := n }) :=
        bootstrap_again (q := { q with staleRejections := n }) hrepeats.1 hrepeats.2 now
      rw [hagain]
      exact ⟨.spared n, fun _ => .inl hrepeats, fun _ => ⟨_, rfl⟩⟩
    · have hb := bootstrapped_bootstrap { q with staleRejections := n } request now
      generalize (Sequencer.bootstrap { q with staleRejections := n } request now).1 = r,
        (Sequencer.bootstrap { q with staleRejections := n } request now).2 = q'' at hb ⊢
      cases hb with
      | stale hstale =>
        refine ⟨.spared (n + 1), by simp, ?_⟩
        rintro (h | ⟨hepoch, -⟩)
        · exact absurd h hrepeats
        · exact absurd hstale (Nat.not_lt.mpr hepoch)
      | already hepoch hlast => exact absurd ⟨hepoch, hlast⟩ hrepeats
      | refused herror =>
        refine ⟨.spared n, by simp, ?_⟩
        rintro (h | ⟨-, hfree⟩)
        · exact absurd h hrepeats
        · -- only an objection makes a full reset fail
          have hseed : q.reseed request =
              .ok (request.globalTailHint, hintedTails request.streamTailHints) := by
            rw [reseed, if_pos hreset, hfree]
          cases herror.symm.trans hseed
      | applied hepoch hseed =>
        obtain ⟨hfree, rfl, rfl⟩ := reset_of_reseed hreset hseed
        exact ⟨.reset n now hrepeats hepoch hfree, fun _ => .inr ⟨hepoch, hfree⟩, fun _ => ⟨_, rfl⟩⟩
  | reset n now' new epoch free =>
    rw [bootstrap_again rfl rfl]
    exact ⟨.reset n now' new epoch free, fun _ => .inr ⟨epoch, free⟩, fun _ => ⟨_, rfl⟩⟩

end Sequencer

end SharedLog
