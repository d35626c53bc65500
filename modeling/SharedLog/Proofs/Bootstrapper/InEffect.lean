/-
# Resets in effect

The sequencer remembers the bootstrap that was applied last. So a bootstrap that was served is in
effect until another one is applied, and the sequencer has its epoch and remembers it.

A change of layout that was acknowledged as a full reset had the sequencer served with the tails of
a replay of its range. What that replay has found is determined by the range alone.
-/
import SharedLog.Proofs.Bootstrapper.Atomicity
import SharedLog.Proofs.Bootstrapper.Snapshot
import SharedLog.Proofs.Succession.Law

namespace SharedLog

variable {L : Law} {s s' : Scene} {id : Nat} {change : LayoutChange} {request : BootstrapRequest}
  {action : Action} {answer : action.Answer} {found found' : TailSnapshot}

/-! ## Bootstraps that are remembered -/

/-- A bootstrap took effect. -/
def Event.Applies (e : Event) : Prop :=
  ∃ id request, e = ⟨id, .bootstrap request, .ok .applied⟩

/-- An activity had a bootstrap served, which took effect or was in effect already. -/
def Event.Seals (id : Nat) (request : BootstrapRequest) (e : Event) : Prop :=
  ∃ outcome, e = ⟨id, .bootstrap request, .ok outcome⟩

instance (e : Event) : Decidable e.Applies :=
  match e with
  | ⟨id, .bootstrap request, .ok .applied⟩ => .isTrue ⟨id, request, rfl⟩
  | ⟨_, .bootstrap _, .ok .alreadyApplied⟩ | ⟨_, .bootstrap _, .error _⟩ | ⟨_, .allocate _, _⟩
  | ⟨_, .onUnit _, _⟩ | ⟨_, .knownEpoch _, _⟩ | ⟨_, .observeEpoch .., _⟩ =>
    .isFalse (by simp [Event.Applies])

instance (id : Nat) (request : BootstrapRequest) (e : Event) : Decidable (e.Seals id request) :=
  match e with
  | ⟨id', .bootstrap request', .ok outcome⟩ =>
    decidable_of_iff (id' = id ∧ request' = request) <| by
      constructor
      · rintro ⟨rfl, rfl⟩
        exact ⟨outcome, rfl⟩
      · rintro ⟨outcome', heq⟩
        cases heq
        exact ⟨rfl, rfl⟩
  | ⟨_, .bootstrap _, .error _⟩ | ⟨_, .allocate _, _⟩ | ⟨_, .onUnit _, _⟩
  | ⟨_, .knownEpoch _, _⟩ | ⟨_, .observeEpoch .., _⟩ => .isFalse (by simp [Event.Seals])

namespace Scene

/-- An activity had a bootstrap served, and no other one has taken effect since. -/
def InEffect (s : Scene) (id : Nat) (request : BootstrapRequest) : Prop :=
  ∃ before e after, s.trace = before ++ e :: after ∧ e.Seals id request ∧ ∀ e' ∈ after, ¬ e'.Applies

lemma inEffect_iff : s.InEffect id request ↔ ∃ i : Fin s.trace.length,
    s.trace[i].Seals id request ∧ ∀ e ∈ s.trace.drop (i + 1), ¬ e.Applies := by
  constructor
  · rintro ⟨before, e, after, htrace, hseals, hnone⟩
    exact ⟨⟨before.length, by simp [htrace]⟩, by simpa [htrace] using hseals,
      by simpa [htrace] using hnone⟩
  · rintro ⟨i, hseals, hnone⟩
    exact ⟨s.trace.take i, s.trace[i], s.trace.drop (i + 1), by simp, hseals, hnone⟩

instance (s : Scene) (id : Nat) (request : BootstrapRequest) : Decidable (s.InEffect id request) :=
  decidable_of_iff _ inEffect_iff.symm

/-- The sequencer is in the epoch of a bootstrap, and this was applied last. -/
def Remembers (s : Scene) (request : BootstrapRequest) : Prop :=
  ∃ q, s.node.mailbox.sequencer = some q ∧ q.epoch = request.newEpoch ∧
    q.lastBootstrap = some request

namespace Remembers

/-- Served again, the bootstrap changes nothing. -/
lemma again (h : s.Remembers request) {r : Except SequencerError BootstrapOutcome}
    (hacts : s.Acts id (.bootstrap request) r s') :
    r = .ok .alreadyApplied ∧ s'.node.mailbox.sequencer = s.node.mailbox.sequencer := by
  obtain ⟨q, hq, hepoch, hlast⟩ := h
  obtain ⟨now, hr, hq'⟩ := hacts.bootstrap_of_some hq
  rw [Sequencer.bootstrap_again hepoch.symm hlast] at hr hq'
  exact ⟨hr, hq'.trans hq.symm⟩

/-- The sequencer forgets a bootstrap only for another one that is applied. -/
lemma of_acts (h : s.Remembers request) (hacts : s.Acts id action answer s')
    (hnot : ¬ Event.Applies ⟨id, action, answer⟩) : s'.Remembers request := by
  obtain ⟨q, hq, hepoch, hlast⟩ := h
  cases action with
  | allocate request' =>
    obtain ⟨q', hq', hallocated⟩ := hacts.allocated hq
    obtain ⟨hepoch', hlast', -⟩ := hallocated.frame
    exact ⟨q', hq', hepoch'.trans hepoch, hlast'.trans hlast⟩
  | bootstrap request' =>
    obtain ⟨now, q', hq', hbootstrapped⟩ := hacts.bootstrapped hq
    refine ⟨q', hq', ?_⟩
    cases hbootstrapped with
    | stale | already | refused => exact ⟨hepoch, hlast⟩
    | applied => exact absurd ⟨id, request', rfl⟩ hnot
  | onUnit | knownEpoch | observeEpoch => exact ⟨q, hacts.mailbox rfl ▸ hq, hepoch, hlast⟩

lemma of_calm (h : s.Remembers request) (hcalm : s.Calm s') : s'.Remembers request := by
  obtain ⟨q, hq, hrest⟩ := h
  exact ⟨q, hcalm.mailbox ▸ hq, hrest⟩

end Remembers

/-- After one more action a bootstrap is in effect if it was so before, or if it was served now. -/
lemma InEffect.of_acts (h : s'.InEffect id request) {id' : Nat}
    (hacts : s.Acts id' action answer s') :
    s.InEffect id request ∧ ¬ Event.Applies ⟨id', action, answer⟩ ∨
      Event.Seals id request ⟨id', action, answer⟩ := by
  obtain ⟨before, e, after, htrace, hseals, hnone⟩ := h
  rw [hacts.trace_eq] at htrace
  induction after using List.reverseRecOn with
  | nil =>
    obtain ⟨-, heq⟩ := List.append_inj' htrace rfl
    rw [List.cons.inj heq |>.1]
    exact .inr hseals
  | append_singleton after last _ =>
    rw [← List.cons_append, ← List.append_assoc] at htrace
    obtain ⟨htrace, heq⟩ := List.append_inj' htrace rfl
    rw [List.cons.inj heq |>.1]
    exact .inl ⟨⟨before, e, after, htrace, hseals,
      fun e' hmem => hnone e' (List.mem_append_left _ hmem)⟩, hnone last (by simp)⟩

lemma InEffect.of_calm (h : s'.InEffect id request) (hcalm : s.Calm s') :
    s.InEffect id request := by
  obtain ⟨before, e, after, htrace, hrest⟩ := h
  exact ⟨before, e, after, hcalm.trace.symm.trans htrace, hrest⟩

end Scene

namespace World

variable {w : World} {moves : List Move} {names : List String} {policy : HoleFillPolicy}
  {sequencer : SequencerSettings} {management : BootstrapSettings} {node : Node}

/-- A bootstrap in effect is remembered. -/
theorem remembers_of_inEffect (h : Node.start names policy sequencer management = .ok node)
    (heffect : ((World.start node).play moves).scene.InEffect id request) :
    ((World.start node).play moves).scene.Remembers request := by
  induction moves using List.reverseRecOn with
  | nil =>
    obtain ⟨before, e, after, htrace, -⟩ := heffect
    exact absurd (congrArg List.length htrace) (by simp [World.start])
  | append_singleton moves m ih =>
    have hmanaged := (managed_start h).play moves
    rw [play_append, play_cons, play_nil] at heffect ⊢
    rcases ((World.start node).play moves).calm_or_acts m with
      hcalm | ⟨id', choice, action, answer, -, -, hacts⟩
    · exact (ih (heffect.of_calm hcalm)).of_calm hcalm
    · rcases heffect.of_acts hacts with ⟨hbefore, hnot⟩ | ⟨outcome, heq⟩
      · exact (ih hbefore).of_acts hacts hnot
      · -- the bootstrap was served just now
        cases heq
        obtain ⟨q, hq, -⟩ := hmanaged.governed
        obtain ⟨now, q', hq', hbootstrapped⟩ := hacts.bootstrapped hq.running
        obtain ⟨-, hepoch, hlast, -⟩ := hbootstrapped.succeeded
        exact ⟨q', hq', hepoch, hlast⟩

end World

/-! ## Resets and their replays -/

/-- What a replay for a full reset finds. -/
def LayoutChange.Finds (change : LayoutChange) (found : TailSnapshot) (s : Scene) : Prop :=
  Chain.RangeFound change.rebuildStart change.globalTailHint change.streamTailHints found s

namespace Bootstrapper

variable {b : Bootstrapper} {c : Chain}

/-- A full reset asks for the tails that a replay has found. -/
lemma requestFor_finds (hL : L.Watching) (hreset : change.fullReset = true)
    (hread : ∀ {s₁ first stop}, L.later s s₁ → L.holds s₁ → change.rebuildStart.val ≤ first →
      stop ≤ change.globalTailHint.val →
      L.Meets id (L.Ends id (Chain.ReadAll (positionsBetween first stop)))
        (c.readMany (positionsBetween first stop)) s₁) (hholds : L.holds s) :
    L.Meets id (L.EndsNode id fun request s => ∃ found,
      request = change.resetTo found.streamTails ∧ change.Finds found s) (b.requestFor c change)
      s := by
  refine (requestFor_reset hreset (Chain.rebuildTails_finds hL hread hholds) hholds).mono
    fun r s₁ hr => ?_
  cases r with
  | error e => exact hr
  | ok request =>
    obtain ⟨found, rfl, hfound⟩ := hr
    exact ⟨found, by rw [hfound.globalTail]; rfl, hfound⟩

/-- An activity had the sequencer served with the tails of a replay. -/
def Resets (change : LayoutChange) (id : Nat) (s : Scene) : Prop :=
  ∃ found, change.Finds found s ∧ ∃ e ∈ s.trace, e.Seals id (change.resetTo found.streamTails)

lemma Resets.later (h : Resets change id s) (hgrows : s.Grows s') (hsound : s'.Sound) :
    Resets change id s' := by
  obtain ⟨found, hfound, e, hmem, hseals⟩ := h
  exact ⟨found, hfound.later hgrows hsound, e, hgrows.trace.subset hmem, hseals⟩

/-- What an attempt at a full reset ends with. -/
def AttemptResets (change : LayoutChange) (id : Nat) :
    Except ServerError BootstrapOutcome → Scene → Prop
  | .ok _, s => Resets change id s
  | .error _, _ => True

lemma tryBootstrap_resets (hreset : change.fullReset = true) (hc : s.node.chain = c)
    (hsound : s.Sound) :
    chainLaw.Meets id (AttemptResets change id) (b.tryBootstrap c change) s := by
  have hrequest : chainLaw.Meets id _ (b.requestFor c change) s :=
    requestFor_finds chainLaw_chainlike.toWatching hreset (fun hlater hholds _ _ =>
      Chain.readMany_reads chainLaw_chainlike.toWatching (hlater.chain.trans hc) hholds
        (Chain.waits_of_rounds rfl) fun p _ => chainLaw_chainlike.filling p) hsound
  refine hrequest.andThen hsound ?_ fun _ _ _ _ _ => trivial
  rintro request s₁ - - ⟨found, rfl, hfound⟩
  refine (Program.meets_mapError ..).mpr (Law.ask_intro fun s₂ hlater₂ _ => ⟨trivial, ?_⟩)
  intro r s₃ hacts _ hlater₃ hsound₃
  cases r with
  | error e => trivial
  | ok outcome =>
    refine ⟨found, hfound.later (hlater₂.trans hlater₃) hsound₃, _, ?_, outcome, rfl⟩
    simp [hacts.trace_eq]

/-- What is known of a full reset that was acknowledged. -/
def resetsIfAcked (id : Nat) : Outcome
  | .layout change => fun r s => change.fullReset = true → r.1 = .ack → Resets change id s
  | _ => fun _ _ => True

lemma lasting_resetsIfAcked (id : Nat) (job : Job) : chainLaw.Lasting (resetsIfAcked id job) := by
  cases job with
  | layout change => exact fun r s s' hr hlater hholds hreset hack =>
      (hr hreset hack).later hlater hholds
  | _ => exact fun _ _ _ _ _ _ => trivial

lemma handle_resets (hc : s.node.chain = c) (hsound : s.Sound) :
    chainLaw.Meets id (resetsIfAcked id (.layout change)) (b.handle c change) s := by
  by_cases hreset : change.fullReset = true
  · cases hnewer : b.newerEpoch? change with
    | some last =>
      unfold handle
      rw [hnewer]
      intro _ hack
      cases hack
    | none =>
      refine (handle_ends hnewer (fun s₁ hlater hsound₁ =>
        tryBootstrap_resets hreset (hlater.chain.trans hc) hsound₁) hsound).mono fun r s₁ hr => ?_
      rcases hr with ⟨outcome, hresets, rfl⟩ | ⟨e, -, rfl⟩
      · exact fun _ _ => hresets
      · exact fun _ hack => by cases hack
  · exact (handle_meets chainLaw_chainlike (Chain.waits_of_rounds rfl) hc hsound
      fun _ _ _ _ => trivial).mono fun _ _ _ hreset' => absurd hreset' hreset

end Bootstrapper

namespace World

variable {w : World} {moves : List Move} {names : List String} {policy : HoleFillPolicy}
  {sequencer : SequencerSettings} {management : BootstrapSettings} {node : Node}

/-- An acknowledged full reset had the sequencer served with the tails of a replay. -/
theorem resets_of_ack (h : Node.start names policy sequencer management = .ok node)
    (hreset : change.fullReset = true) {b : Bootstrapper}
    (hack : ((World.start node).play moves).Returned id (.layout change) (.ack, b)) :
    Bootstrapper.Resets change id ((World.start node).play moves).scene := by
  have hlawful : (World.start node).Lawful chainLaw Bootstrapper.resetsIfAcked fun _ => True := by
    intro id job s program hid _ hlater hholds hprogram
    cases job with
    | layout change =>
      obtain rfl := Option.some.inj hprogram
      exact Bootstrapper.handle_resets rfl hholds
    | _ =>
      exact (lawful chainLaw_permits _ id _ s program hid trivial hlater hholds hprogram).mono
        fun _ _ _ => trivial
  exact (keeps_chainLaw h []).returned_later chainLaw_unconditional
    Bootstrapper.lasting_resetsIfAcked hlawful (fun _ _ => trivial) (Nat.zero_le _) hack hreset rfl

/-- What an acknowledged change had the sequencer served with, it had served once. -/
theorem seals_unique (h : Node.start names policy sequencer management = .ok node)
    {b : Bootstrapper}
    (hack : ((World.start node).play moves).Returned id (.layout change) (.ack, b))
    {request request' : BootstrapRequest} {e e' : Event}
    (hmem : e ∈ ((World.start node).play moves).scene.trace) (he : e.Seals id request)
    (hmem' : e' ∈ ((World.start node).play moves).scene.trace) (he' : e'.Seals id request') :
    request = request' := by
  obtain ⟨b₀, hends⟩ := ((managed_start h).play moves).answered hack
  obtain ⟨-, earlier, request₀, outcome₀, hdeeds, -, hfruitless⟩ := hends.of_ack
  -- of the deeds only the last one is no fruitless one
  have hlast : ∀ {e request}, e ∈ ((World.start node).play moves).scene.trace →
      e.Seals id request → request = request₀ := by
    rintro _ request hmem ⟨outcome, rfl⟩
    have hdeed := Scene.mem_deeds.mpr ⟨hmem, rfl⟩
    rw [hdeeds, List.mem_append, List.mem_singleton] at hdeed
    rcases hdeed with hdeed | hdeed
    · exact absurd (hfruitless _ hdeed) Event.not_fruitless
    · cases hdeed
      rfl
  exact (hlast hmem he).trans (hlast hmem' he').symm

end World

end SharedLog
