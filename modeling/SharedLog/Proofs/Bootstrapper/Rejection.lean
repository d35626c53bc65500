/-
# Changes that are rejected

For a full reset the log is replayed before the sequencer is asked, and the sequencer may reject
what it is asked for then. It is left as it was, but the log is not: the replay has decided every
position of its range, and where the head held nothing, it did so with a hole.
-/
import SharedLog.Proofs.Bootstrapper.InEffect
import SharedLog.Proofs.World.Following

namespace SharedLog

variable {s s' base : Scene} {id : Nat} {change : LayoutChange} {p : Position} {action : Action}
  {answer : action.Answer}

/-- The positions that are replayed for a change before the sequencer is asked. -/
def LayoutChange.Covers (change : LayoutChange) (p : Position) : Prop :=
  change.fullReset = true ∧ p.Within change.rebuildStart.val change.globalTailHint.val

instance (change : LayoutChange) (p : Position) : Decidable (change.Covers p) :=
  inferInstanceAs (Decidable (_ ∧ _ ∧ _))

/-- The positions that a replay for a change finds empty at the head, and fills. -/
def LayoutChange.Burns (change : LayoutChange) (s : Scene) (p : Position) : Prop :=
  change.Covers p ∧ s.slot Chain.head p = none

instance (change : LayoutChange) (s : Scene) (p : Position) : Decidable (change.Burns s p) :=
  inferInstanceAs (Decidable (_ ∧ _))

/-! ## The law of a replay -/

namespace Scene

/-- An activity has asked the sequencer for something. -/
def Asked (s : Scene) (id : Nat) : Prop :=
  ∃ event ∈ s.trace, event.activity = id ∧ event.action.asksSequencer = true

instance (s : Scene) (id : Nat) : Decidable (s.Asked id) :=
  inferInstanceAs (Decidable (∃ event ∈ s.trace, _ ∧ _))

/-- An activity that has asked the sequencer has done so just now, or before. -/
lemma Asked.before (h : s'.Asked id) {id' : Nat} (hacts : s.Acts id' action answer s') :
    s.Asked id ∨ action.asksSequencer = true := by
  obtain ⟨event, hmem, hself, hasks⟩ := h
  rw [hacts.trace_eq, List.mem_append, List.mem_singleton] at hmem
  rcases hmem with hmem | rfl
  · exact .inl ⟨event, hmem, hself, hasks⟩
  · exact .inr hasks

/-- All positions that are replayed for a change are decided. -/
def Decided (change : LayoutChange) (s : Scene) : Prop :=
  ∀ p, change.Covers p → ∃ v, s.Committed p v

lemma Decided.later (h : Decided change s) (hgrows : s.Grows s') : Decided change s' := by
  intro p hp
  obtain ⟨v, hv⟩ := h p hp
  exact ⟨v, hgrows.committed hv⟩

/-- What may be done for a change of layout: its range is decided, and then the sequencer is
asked. -/
inductive Replays (change : LayoutChange) (s : Scene) : Action → Prop
  | peek (i : Nat) (p : Position) : Replays change s (.onUnit (.peek i p))
  | fill {p : Position} (covers : change.Covers p) :
    Replays change s (.onUnit (.write Chain.head p .hole))
  | copy {i : Nat} {p : Position} {v : LogData} (covers : change.Covers p)
      (held : s.slot i p = some v) : Replays change s (.onUnit (.write (i + 1) p v))
  | bootstrap (request : BootstrapRequest) (decided : Decided change s) :
    Replays change s (.bootstrap request)

lemma Replays.copies (h : s.Replays change action) : s.Copies action := by
  cases h with
  | peek | fill | bootstrap => trivial
  | copy covers held => exact held

/-- From one scene to another the head was filled with nothing but holes. -/
def HeadFilled (base s : Scene) : Prop :=
  ∀ p, s.slot Chain.head p = base.slot Chain.head p ∨
    base.slot Chain.head p = none ∧ s.slot Chain.head p = some .hole

lemma HeadFilled.refl (s : Scene) : s.HeadFilled s := fun _ => .inl rfl

lemma HeadFilled.of_calm (h : base.HeadFilled s) (hcalm : s.Calm s') : base.HeadFilled s' := by
  intro p
  rw [hcalm.slot]
  exact h p

/-- A position of the head is left alone or filled with a hole. -/
lemma HeadFilled.of_acts (h : base.HeadFilled s) (hreplays : s.Replays change action)
    (hacts : s.Acts id action answer s') : base.HeadFilled s' := by
  intro p
  rcases hacts.slot Chain.head p with heq | ⟨hnone, d, hd, hevent⟩
  · rw [heq]
    exact h p
  · -- the head has taken something just now
    have hbase : base.slot Chain.head p = none := by
      rcases h p with heq | ⟨hbase, -⟩
      · exact heq ▸ hnone
      · exact hbase
    cases hevent
    cases hreplays
    exact .inr ⟨hbase, hd⟩

/-- From one scene to another only the range of a change was decided: with what the head held, or
else with holes. -/
structure Fills (change : LayoutChange) (base s : Scene) : Prop where
  chain : s.node.chain = base.node.chain
  clients : s.node.clients = base.node.clients
  epochs : s.node.epochs = base.node.epochs
  labels : s.node.units.map (fun u => (u.name, u.offline)) =
    base.node.units.map fun u => (u.name, u.offline)
  outside : ∀ p, ¬ change.Covers p → ∀ i, s.slot i p = base.slot i p
  head : ∀ p, s.slot Chain.head p = base.slot Chain.head p ∨
    base.slot Chain.head p = none ∧ s.slot Chain.head p = some .hole

namespace Fills

lemma refl (change : LayoutChange) (s : Scene) : Fills change s s :=
  ⟨rfl, rfl, rfl, rfl, fun _ _ _ => rfl, fun _ => .inl rfl⟩

lemma of_acts (h : Fills change base s) (hreplays : s.Replays change action)
    (hacts : s.Acts id action answer s') : Fills change base s' where
  chain := hacts.chain.trans h.chain
  clients := hacts.clients.trans h.clients
  epochs := by
    refine (hacts.epochs_of_ne fun client epoch heq => ?_).trans h.epochs
    cases heq
    cases hreplays
  labels := hacts.labels.trans h.labels
  outside p hp i := by
    refine (hacts.slot_of_ne fun data heq => ?_).trans (h.outside p hp i)
    cases heq
    cases hreplays with
    | fill covers | copy covers => exact hp covers
  head := HeadFilled.of_acts h.head hreplays hacts

lemma of_conclude (h : Fills change base s) (job : Job) (result : job.Result) :
    Fills change base { s with node := job.conclude s.node result } := by
  cases job <;> exact { h with }

end Fills

end Scene

/-- The range of a change is decided before its activity asks the sequencer. -/
def replayLaw (change : LayoutChange) (id : Nat) : Law where
  holds s := s.Sound ∧ (s.Asked id → s.Decided change)
  later := Scene.Grows
  allows action s := s.Replays change action
  heeds _ _ := True
  rounds := none
  later_refl := .refl
  later_trans := .trans
  act_keeps h hreplays hacts := by
    refine ⟨.of_acts hacts, h.1.of_acts hreplays.copies hacts, fun hasked => ?_⟩
    rcases hasked.before hacts with hbefore | hnow
    · exact (h.2 hbefore).later (.of_acts hacts)
    · cases hreplays with
      | bootstrap _ decided => exact decided.later (.of_acts hacts)
      | peek | fill | copy => cases hnow
  calm_keeps h hcalm := ⟨.of_calm hcalm, h.1.of_calm hcalm, fun hasked =>
    (h.2 (by rwa [Scene.Asked, hcalm.trace] at hasked)).later (.of_calm hcalm)⟩

lemma replayLaw_unconditional : (replayLaw change id).Unconditional := ⟨fun _ _ => trivial, rfl⟩

lemma replayLaw_watching : (replayLaw change id).Watching where
  sound h := h.1
  grows h := h
  allows_peek i p _ := .peek i p

lemma replayLaw_filling (hp : change.Covers p) : (replayLaw change id).Filling p where
  toWatching := replayLaw_watching
  allows_hole _ := .fill hp
  allows_copy _ hslot := .copy hp hslot

/-! ## The program -/

namespace Bootstrapper

variable {b : Bootstrapper} {c : Chain}

lemma tryBootstrap_replays (hc : s.node.chain = c) (hholds : (replayLaw change id).holds s) :
    (replayLaw change id).Meets id (fun _ _ => True) (b.tryBootstrap c change) s := by
  have hrequest : (replayLaw change id).Meets id (fun r s => ∀ request, r = .ok request →
      s.Decided change) (b.requestFor c change) s := by
    by_cases hreset : change.fullReset = true
    · have hfinds : (replayLaw change id).Meets id _ (b.requestFor c change) s :=
        requestFor_finds replayLaw_watching hreset (fun {_ _ _} hlater hholds hfirst hstop =>
          Chain.readMany_reads replayLaw_watching (hlater.chain.trans hc) hholds
            (Chain.waits_of_rounds rfl) fun p hp => by
              obtain ⟨hle, hlt⟩ := mem_positionsBetween.mp hp
              exact replayLaw_filling ⟨hreset, Nat.le_trans hfirst hle,
                Nat.lt_of_lt_of_le hlt hstop⟩) hholds
      refine hfinds.mono ?_
      rintro _ s₁ hr request rfl
      obtain ⟨found, -, hfound⟩ := hr
      exact fun p hp => hfound.decided p hp.2
    · unfold requestFor
      rw [if_neg hreset]
      exact fun _ _ p hp => absurd hp.1 hreset
  refine hrequest.andThen hholds ?_ fun _ _ _ _ _ => trivial
  intro request s₁ _ _ hdecided
  refine (Program.meets_mapError ..).mpr (Law.ask_intro fun s₂ hlater₂ _ => ⟨?_, ?_⟩)
  · exact .bootstrap request ((hdecided request rfl).later hlater₂)
  · exact fun _ _ _ _ _ _ => trivial

theorem handle_replays (hc : s.node.chain = c) (hholds : (replayLaw change id).holds s) :
    (replayLaw change id).Meets id (fun _ _ => True) (b.handle c change) s := by
  cases hnewer : b.newerEpoch? change with
  | some last =>
    unfold handle
    rw [hnewer]
    trivial
  | none =>
    exact (handle_ends hnewer (fun s₁ hlater hholds₁ =>
      tryBootstrap_replays (hlater.chain.trans hc) hholds₁) hholds).mono fun _ _ _ => trivial

end Bootstrapper

/-! ## Changes that are handled alone -/

lemma Scene.Spares.trans {s'' : Scene} (h : s.Spares s') (h' : s'.Spares s'') : s.Spares s'' := by
  obtain ⟨q, n, hq, hq'⟩ := h
  obtain ⟨q', n', hq'', hlast⟩ := h'
  obtain rfl := Option.some.inj (hq'.symm.trans hq'')
  exact ⟨q, n', hq, hlast⟩

namespace World

variable {w : World} {moves turns before : List Move} {names : List String}
  {policy : HoleFillPolicy} {sequencer : SequencerSettings} {management : BootstrapSettings}
  {node : Node}

/-- Of a change that is handled alone the log keeps that its range is decided, if the sequencer was
asked. -/
theorem fills_of_turns (h : Node.start names policy sequencer management = .ok node)
    (hw : w = (World.start node).play moves) (hadmits : w.admits (.layout change) = true)
    (hturns : Turns w.nextId turns) {w₁ : World}
    (hw₁ : w₁ = (w.step (.start (.layout change))).play turns) :
    w₁.scene.Sound ∧ w.scene.Fills change w₁.scene ∧
      (w₁.scene.Asked w.nextId → w₁.scene.Decided change) := by
  subst hw₁
  have hsound : w.scene.Sound := hw ▸ (keeps_chainLaw h moves).holds
  have hattributed : w.Attributed := hw ▸ (attributed_start node).play moves
  obtain ⟨hscene, hrunning⟩ := handles_start hadmits
  have hholds : (replayLaw change w.nextId).holds (w.step (.start (.layout change))).scene := by
    rw [hscene]
    refine ⟨hsound, fun ⟨event, hmem, hself, _⟩ => ?_⟩
    exact absurd (hself ▸ hattributed event hmem) (Nat.lt_irrefl _)
  have hmeets : (replayLaw change w.nextId).Fulfils w.nextId (fun _ _ _ => True)
      (.running (.layout change) (w.scene.node.bootstrapper.handle w.scene.node.chain change))
      (w.step (.start (.layout change))).scene :=
    Bootstrapper.handle_replays (by rw [hscene]) hholds
  have hacts : ∀ {s s' : Scene} {action : Action} {answer : action.Answer},
      (replayLaw change w.nextId).holds s → w.scene.Fills change s →
        (replayLaw change w.nextId).allows action s → s.Acts w.nextId action answer s' →
        w.scene.Fills change s' :=
    fun _ hfills hreplays hacts => hfills.of_acts hreplays hacts
  obtain ⟨⟨hsound₁, hdecided⟩, hfills⟩ := holds_of_turns replayLaw_unconditional
    (fun _ _ _ _ _ _ _ => trivial) hacts (fun job result hfills => hfills.of_conclude job result)
    hturns hholds (hscene.symm ▸ .refl change w.scene) hrunning hmeets
  exact ⟨hsound₁, hfills, hdecided⟩

/-- While a change is handled alone that is refused in the end, the sequencer is spared. -/
theorem Managed.spares_of_turns (h : w.Managed) {reason : String} {b : Bootstrapper}
    (hreturned : (w.play turns).Returned id (.layout change) (.nack reason, b))
    (hturns : Turns id turns) (hbefore : before <+: turns) :
    w.scene.Spares (w.play before).scene := by
  induction before using List.reverseRecOn with
  | nil =>
    obtain ⟨q, hq, -⟩ := h.governed
    exact Scene.spares_of_mailbox hq.running rfl
  | append_singleton before m ih =>
    obtain ⟨choice, rfl⟩ := hturns m (hbefore.subset (by simp))
    exact (ih ((List.prefix_append ..).trans hbefore)).trans (h.turn_of_nack hreturned hbefore).1

end World

end SharedLog
