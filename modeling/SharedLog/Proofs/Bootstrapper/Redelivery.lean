/-
# Resets that are delivered again

A full reset that was acknowledged may be delivered again, by someone who did not hear of the
acknowledgement. Its replay has decided every position of the range, so that the second replay finds
the same, whatever was done in between; it does nothing but look at the tail, and the sequencer,
asked for the bootstrap that it remembers, does nothing either.

The law of this is one for the redelivery alone (`redeliveryLaw`). The others do as they like, as
long as no other bootstrap is applied.
-/
import SharedLog.Proofs.Bootstrapper.InEffect
import SharedLog.Proofs.Node.Outcome
import SharedLog.Proofs.Stream.Reading
import SharedLog.Proofs.World.Following
import SharedLog.Proofs.World.Together

namespace SharedLog

variable {s s' : Scene} {id id₀ least : Nat} {change : LayoutChange} {found : TailSnapshot}
  {rounds : Option Nat} {action : Action} {answer : action.Answer}

/-! ## The law of a redelivery -/

namespace Scene

/-- From one scene to the next neither the sequencer nor the content of any unit has changed. -/
structure Untouched (s s' : Scene) : Prop where
  slot : ∀ place p, s'.slot place p = s.slot place p
  sequencer : s'.node.mailbox.sequencer = s.node.mailbox.sequencer

lemma Untouched.of_calm (h : s.Calm s') : s.Untouched s' := ⟨h.slot, congrArg _ h.mailbox⟩

/-- A look at a unit, or the bootstrap for a reset that a replay has found. -/
inductive Redelivers (change : LayoutChange) (found : TailSnapshot) : Action → Prop
  | peek (place : Nat) (p : Position) : Redelivers change found (.onUnit (.peek place p))
  | bootstrap : Redelivers change found (.bootstrap (change.resetTo found.streamTails))

lemma Redelivers.copies (h : Redelivers change found action) : s.Copies action := by
  cases h <;> trivial

/-- While the sequencer remembers the reset, a redelivery leaves everything as it is. -/
lemma Redelivers.untouched (h : Redelivers change found action)
    (hremembers : s.Remembers (change.resetTo found.streamTails))
    (hacts : s.Acts id action answer s') : s.Untouched s' := by
  cases h with
  | peek place p => exact ⟨fun _ _ => hacts.slot_of_ne (by simp), congrArg _ (hacts.mailbox rfl)⟩
  | bootstrap => exact ⟨fun _ _ => hacts.slot_of_ne (by simp), (hremembers.again hacts).2⟩

/-- A redelivery makes the sequencer forget nothing. -/
lemma Redelivers.remembers (h : Redelivers change found action)
    (hremembers : s.Remembers (change.resetTo found.streamTails))
    (hacts : s.Acts id action answer s') :
    s'.Remembers (change.resetTo found.streamTails) := by
  obtain ⟨q, hq, hrest⟩ := hremembers
  exact ⟨q, (h.untouched ⟨q, hq, hrest⟩ hacts).sequencer.trans hq, hrest⟩

end Scene

open Scene (Redelivers)

/-- The range of a reset is decided, and the sequencer goes on remembering the reset. -/
def redeliveryLaw (change : LayoutChange) (found : TailSnapshot) (rounds : Option Nat) : Law where
  holds s := s.Sound ∧ change.Finds found s
  later s s' := s.Grows s' ∧ (s.Remembers (change.resetTo found.streamTails) →
    s'.Remembers (change.resetTo found.streamTails))
  allows action _ := Redelivers change found action
  heeds _ _ := True
  rounds
  later_refl s := ⟨.refl s, fun h => h⟩
  later_trans h h' := ⟨h.1.trans h'.1, fun hs => h'.2 (h.2 hs)⟩
  act_keeps h hallows hacts := by
    have hsound' := h.1.of_acts hallows.copies hacts
    exact ⟨⟨.of_acts hacts, fun hs => hallows.remembers hs hacts⟩, hsound',
      h.2.later (.of_acts hacts) hsound'⟩
  calm_keeps h hcalm := by
    have hsound' := h.1.of_calm hcalm
    exact ⟨⟨.of_calm hcalm, fun hs => hs.of_calm hcalm⟩, hsound',
      h.2.later (.of_calm hcalm) hsound'⟩

lemma redeliveryLaw_watching : (redeliveryLaw change found rounds).Watching where
  sound h := h.1
  grows h := h.1
  allows_peek i p _ := .peek i p

lemma redeliveryLaw_unconditional : (redeliveryLaw change found none).Unconditional :=
  ⟨fun _ _ => trivial, rfl⟩

/-! ## The program -/

namespace Bootstrapper

variable {b : Bootstrapper} {c : Chain}

/-- Positions of the range are read without anything being written. -/
lemma readMany_again (hpos : ∀ least ∈ rounds, 0 < least) (hc : s.node.chain = c)
    (hholds : (redeliveryLaw change found rounds).holds s) {first stop : Nat}
    (hfirst : change.rebuildStart.val ≤ first) (hstop : stop ≤ change.globalTailHint.val) :
    (redeliveryLaw change found rounds).Meets id
      ((redeliveryLaw change found rounds).Ends id (Chain.ReadAll (positionsBetween first stop)))
      (c.readMany (positionsBetween first stop)) s := by
  refine Chain.readMany_of_readAt redeliveryLaw_watching hholds fun p hp => ?_
  obtain ⟨hle, hlt⟩ := mem_positionsBetween.mp hp
  obtain ⟨v, hv⟩ := hholds.2.decided p ⟨Nat.le_trans hfirst hle, Nat.lt_of_lt_of_le hlt hstop⟩
  exact (Chain.read_decided redeliveryLaw_watching hpos hc hholds hv).andThenEnds hholds
    fun _ _ _ _ hv => ⟨rfl, hv⟩

/-- What an attempt at the reset ends with. -/
def AttemptAgain (id : Nat) : Except ServerError BootstrapOutcome → Scene → Prop
  | .ok _, _ => True
  | .error _, s => ∃ e, chainLaw.Fails id s e

lemma tryBootstrap_again (hpos : ∀ least ∈ rounds, 0 < least) (hreset : change.fullReset = true)
    (hc : s.node.chain = c) (hholds : (redeliveryLaw change found rounds).holds s)
    (hremembers : s.Remembers (change.resetTo found.streamTails)) :
    (redeliveryLaw change found rounds).Meets id (AttemptAgain id) (b.tryBootstrap c change) s := by
  have hrequest : (redeliveryLaw change found rounds).Meets id _ (b.requestFor c change) s :=
    requestFor_finds redeliveryLaw_watching hreset (fun hlater hholds hfirst hstop =>
      readMany_again hpos (hlater.1.chain.trans hc) hholds hfirst hstop) hholds
  refine hrequest.andThen hholds ?_ ?_
  · rintro request s₁ hlater hholds₁ ⟨found', rfl, hfound'⟩
    -- the range has one snapshot
    obtain rfl := hfound'.unique hholds₁.2
    refine (Program.meets_mapError ..).mpr (Law.ask_intro fun s₂ hlater₂ _ => ⟨.bootstrap, ?_⟩)
    intro r s₃ hacts _ _ _
    obtain ⟨rfl, -⟩ := (hlater₂.2 (hlater.2 hremembers)).again hacts
    trivial
  · rintro e s₁ - - ⟨e', -, hfails⟩
    exact ⟨e', hfails⟩

/-- What is known of a reset that is delivered again: it is acknowledged, unless a unit fails it. -/
def acksAgain (id : Nat) : Outcome
  | .layout _ => fun r s => r.1 = .ack ∨ ∃ e, chainLaw.Fails id s e
  | _ => fun _ _ => True

lemma lasting_acksAgain (id : Nat) (job : Job) :
    (redeliveryLaw change found rounds).Lasting (acksAgain id job) := by
  cases job with
  | layout change' =>
    intro r s s' hr hlater _
    refine hr.imp_right ?_
    rintro ⟨e, hfails⟩
    exact ⟨e, chainLaw_chainlike.fails hfails hlater.1⟩
  | _ => exact fun _ _ _ _ _ _ => trivial

theorem handle_again (hpos : ∀ least ∈ rounds, 0 < least) (hreset : change.fullReset = true)
    (hnewer : b.newerEpoch? change = none) (hc : s.node.chain = c)
    (hholds : (redeliveryLaw change found rounds).holds s)
    (hremembers : s.Remembers (change.resetTo found.streamTails)) :
    (redeliveryLaw change found rounds).Meets id (acksAgain id (.layout change))
      (b.handle c change) s := by
  refine (handle_ends hnewer (fun s₁ hlater hholds₁ => tryBootstrap_again hpos hreset
    (hlater.1.chain.trans hc) hholds₁ (hlater.2 hremembers)) hholds).mono fun r s₁ hr => ?_
  rcases hr with ⟨o, -, rfl⟩ | ⟨e, hfails, rfl⟩
  · exact .inl rfl
  · exact .inr hfails

end Bootstrapper

/-! ## Replays -/

/-- The replay that a reset asks for. -/
def LayoutChange.replay (change : LayoutChange) (c : Chain) (batchSize : Nat) :
    NodeProgram (Except ReplicationError TailSnapshot) :=
  c.rebuildTails change.rebuildStart change.globalTailHint change.streamTailHints batchSize

lemma LayoutChange.replay_finds {c : Chain} (hc : s.node.chain = c) (hsound : s.Sound)
    (batchSize : Nat) :
    chainLaw.Meets id (chainLaw.Ends id change.Finds) (change.replay c batchSize) s := by
  refine Chain.rebuildTails_finds chainLaw_chainlike.toWatching (fun hlater hholds _ _ => ?_) hsound
  exact Chain.readMany_reads chainLaw_chainlike.toWatching (hlater.chain.trans hc) hholds
    (Chain.waits_of_rounds rfl) fun p _ => chainLaw_chainlike.filling p

namespace World

variable {w : World} {m : Move} {moves more : List Move} {names : List String}
  {policy : HoleFillPolicy} {sequencer : SequencerSettings} {management : BootstrapSettings}
  {node : Node}

/-- All replays for a reset find one snapshot, with batches of whatever size: those that have ended
on the way to some world, and those that are begun in it. -/
structure ReplaysFind (node : Node) (moves : List Move) (change : LayoutChange)
    (found : TailSnapshot) : Prop where
  before : ∀ earlier, earlier <+: moves → ∀ id batchSize, chainLaw.Meets id
    (chainLaw.Ends id fun found' s => s.Grows ((World.start node).play moves).scene →
      found' = found)
    (change.replay node.chain batchSize) ((World.start node).play earlier).scene
  after : ∀ id batchSize, chainLaw.Meets id (chainLaw.Ends id fun found' _ => found' = found)
    (change.replay node.chain batchSize) ((World.start node).play moves).scene

lemma replaysFind (h : Node.start names policy sequencer management = .ok node)
    (hfound : change.Finds found ((World.start node).play moves).scene) :
    ReplaysFind node moves change found where
  before earlier _ id batchSize := by
    have hnow := (keeps_chainLaw h moves).holds
    have hkeeps := keeps_chainLaw h earlier
    have hchain := ((keeps_chainLaw h []).more earlier).1.chain
    refine (LayoutChange.replay_finds hchain hkeeps.holds batchSize).mono fun r s hr => ?_
    cases r with
    | ok found' => exact fun hgrows => (hr.later hgrows hnow).unique hfound
    | error e => exact hr
  after id batchSize := by
    have hkeeps := keeps_chainLaw h moves
    have hchain := ((keeps_chainLaw h []).more moves).1.chain
    refine ((LayoutChange.replay_finds hchain hkeeps.holds batchSize).kept hkeeps.holds).mono ?_
    rintro r s ⟨hr, hlater, hholds⟩
    cases r with
    | ok found' => exact hr.unique (hfound.later hlater hholds)
    | error e => exact hr

/-! ## Redeliveries among others -/

/-- In the course of some moves no bootstrap is applied. -/
def Undisturbed (w : World) (moves : List Move) : Prop :=
  ∀ before m, before ++ [m] <+: moves → ¬ (w.play before).AppliesBootstrap m

lemma remembers_step {request : BootstrapRequest} (hremembers : w.scene.Remembers request)
    (hnone : ¬ w.AppliesBootstrap m) : (w.step m).scene.Remembers request := by
  rcases w.calm_or_acts m with hcalm | ⟨id, choice, action, answer, -, -, hacts⟩
  · exact hremembers.of_calm hcalm
  · refine hremembers.of_acts hacts ?_
    rintro ⟨id', request', heq⟩
    exact hnone ⟨id', request', heq ▸ hacts.trace_eq⟩

/-- What others do while a reset is delivered again its law foresees. -/
lemma Keeps.foresees (h : w.Keeps chainLaw (Job.Ends chainLaw))
    (hfound : change.Finds found w.scene) (hundisturbed : w.Undisturbed moves) :
    w.Foresees (redeliveryLaw change found none) moves where
  holds before _ := by
    obtain ⟨hgrows, hkeeps⟩ := h.more before
    exact ⟨hkeeps.holds, hfound.later hgrows hkeeps.holds⟩
  later before m hbefore := by
    have hgrows := ((h.more before).2.more [m]).1
    have hnone := hundisturbed before m hbefore
    rw [play_append, play_cons, play_nil] at *
    exact ⟨hgrows, fun hremembers => remembers_step hremembers hnone⟩

/-- A change of the sequencer's epoch is not too old. -/
lemma Managed.newerEpoch?_eq_none (h : w.Managed)
    (hremembers : w.scene.Remembers (change.resetTo found.streamTails)) :
    w.scene.node.bootstrapper.newerEpoch? change = none := by
  obtain ⟨q, hq, hepoch, -⟩ := hremembers
  obtain ⟨q', hq', hlast⟩ := h.governed
  obtain rfl := Option.some.inj (hq.symm.trans hq'.running)
  rw [newerEpoch?_eq_none_iff]
  intro last hlast'
  have hle := hlast last hlast'
  rwa [hepoch] at hle

/-- A reset is under way that was delivered again. -/
structure Redelivers (w w₀ : World) (change : LayoutChange) (found : TailSnapshot) : Prop where
  keeps : w₀.Keeps chainLaw (Job.Ends chainLaw)
  new : ∀ e ∈ w₀.scene.trace, e.activity ≠ w.nextId
  finds : change.Finds found w₀.scene
  running : w₀.activities[w.nextId]? = some (.running (.layout change)
    (w₀.scene.node.bootstrapper.handle w₀.scene.node.chain change))
  meets : ∀ {rounds}, (∀ least ∈ rounds, 0 < least) → (redeliveryLaw change found rounds).Meets
    w.nextId (Bootstrapper.acksAgain w.nextId (.layout change))
    (w₀.scene.node.bootstrapper.handle w₀.scene.node.chain change) w₀.scene
  remembers : w₀.scene.Remembers (change.resetTo found.streamTails)

lemma redelivers_start (hkeeps : w.Keeps chainLaw (Job.Ends chainLaw)) (hmanaged : w.Managed)
    (hreset : change.fullReset = true) (hfound : change.Finds found w.scene)
    (hremembers : w.scene.Remembers (change.resetTo found.streamTails))
    (hadmits : w.admits (.layout change) = true) :
    w.Redelivers (w.step (.start (.layout change))) change found := by
  have hkeeps₀ := (hkeeps.more [.start (.layout change)]).2
  rw [play_cons, play_nil] at hkeeps₀
  obtain ⟨hscene, hrunning⟩ := handles_start hadmits
  refine ⟨hkeeps₀, ?_, hscene ▸ hfound, ?_, fun hpos => ?_, hscene ▸ hremembers⟩
  · intro e hmem heq
    rw [hscene] at hmem
    exact Nat.lt_irrefl _ (heq ▸ hmanaged.attributed e hmem)
  · rw [hscene]
    exact hrunning
  · rw [hscene]
    exact Bootstrapper.handle_again hpos hreset (hmanaged.newerEpoch?_eq_none hremembers) rfl
      ⟨hkeeps.holds, hfound⟩ hremembers

namespace Redelivers

variable {w₀ : World} {choice : Choice}

/-- A turn of the redelivery does nothing but what its law allows. -/
lemma allowed (h : w.Redelivers w₀ change found) (hundisturbed : w₀.Undisturbed more)
    {before : List Move} (hturn : before ++ [.advance w.nextId choice] <+: more) :
    (w₀.play before).scene.Calm (w₀.play (before ++ [.advance w.nextId choice])).scene ∨
      ∃ action answer, (w₀.play before).scene.Acts w.nextId action answer
        (w₀.play (before ++ [.advance w.nextId choice])).scene ∧
        Scene.Redelivers change found action ∧
        (w₀.play before).scene.Remembers (change.resetTo found.streamTails) := by
  have hforesees := h.keeps.foresees h.finds hundisturbed
  have hbefore := (List.prefix_append ..).trans hturn
  have hremembers : (w₀.play before).scene.Remembers (change.resetTo found.streamTails) := by
    clear hturn
    induction before using List.reverseRecOn with
    | nil => exact h.remembers
    | append_singleton before m ih =>
      have hnone := hundisturbed before m hbefore
      rw [play_append, play_cons, play_nil]
      exact remembers_step (ih ((List.prefix_append ..).trans hbefore)) hnone
  refine (hforesees.allowed redeliveryLaw_unconditional
    (Bootstrapper.lasting_acksAgain w.nextId) h.running (h.meets nofun) hturn).imp_right ?_
  rintro ⟨action, answer, hacts, hallows⟩
  exact ⟨action, answer, hacts, hallows, hremembers⟩

/-- A turn of the redelivery leaves everything as it is. -/
theorem untouched (h : w.Redelivers w₀ change found) (hundisturbed : w₀.Undisturbed more)
    {before : List Move} (hturn : before ++ [.advance w.nextId choice] <+: more) :
    (w₀.play before).scene.Untouched (w₀.play (before ++ [.advance w.nextId choice])).scene := by
  rcases h.allowed hundisturbed hturn with hcalm | ⟨action, answer, hacts, hallows, hremembers⟩
  · exact .of_calm hcalm
  · exact hallows.untouched hremembers hacts

/-- The redelivery has asked the sequencer for nothing but the reset, which was in effect. -/
theorem already (h : w.Redelivers w₀ change found) (hundisturbed : w₀.Undisturbed more)
    {request : BootstrapRequest} {r : Except SequencerError BootstrapOutcome}
    (hmem : ⟨w.nextId, .bootstrap request, r⟩ ∈ (w₀.play more).scene.trace) :
    request = change.resetTo found.streamTails ∧ r = .ok .alreadyApplied := by
  obtain ⟨before, choice, hturn, hacts⟩ :=
    exists_acts_of_mem_trace hmem fun hold => h.new _ hold rfl
  have htrace := hacts.trace_eq
  rcases h.allowed hundisturbed hturn with hcalm | ⟨action, answer, hacts', hallows, hremembers⟩
  · rw [hcalm.trace] at htrace
    simpa using congrArg List.length htrace
  · -- the turn has done one thing only
    have hsame := (List.append_inj' (htrace.symm.trans hacts'.trace_eq) rfl).2
    cases hsame
    cases hallows
    exact ⟨rfl, (hremembers.again hacts).1⟩

/-- The redelivery is acknowledged, or a unit was offline when it was asked. -/
theorem acked (h : w.Redelivers w₀ change found) (hundisturbed : w₀.Undisturbed more)
    {reply : BootstrapReply} {b : Bootstrapper}
    (hreturned : (w₀.play more).Returned w.nextId (.layout change) (reply, b)) :
    reply = .ack ∨ ∃ e, chainLaw.Fails w.nextId (w₀.play more).scene e := by
  obtain ⟨a, ha, hfulfils⟩ := (h.keeps.foresees h.finds hundisturbed).fulfils
    redeliveryLaw_unconditional (Bootstrapper.lasting_acksAgain w.nextId) h.running (h.meets nofun)
  obtain rfl := Option.some.inj (ha.symm.trans hreturned)
  exact hfulfils

/-- The redelivery comes to its end. -/
theorem returns (h : w.Redelivers w₀ change found) {schedule : Nat → Move}
    (htends : TendsAll schedule w.nextId 1)
    (honline : ∀ n, (w₀.after schedule n).Runs w.nextId → (w₀.after schedule n).Online)
    (hnone : ∀ n, (w₀.after schedule n).Runs w.nextId →
      ¬ (w₀.after schedule n).AppliesBootstrap (schedule n)) :
    ∃ n b, (w₀.after schedule n).Returned w.nextId (.layout change) (.ack, b) := by
  have hholds : ∀ n, (redeliveryLaw change found (some 1)).holds (w₀.after schedule n).scene := by
    intro n
    rw [after_eq_play]
    obtain ⟨hgrows, hkeeps⟩ := h.keeps.more ((List.range n).map schedule)
    exact ⟨hkeeps.holds, h.finds.later hgrows hkeeps.holds⟩
  have hlater : ∀ n, (w₀.after schedule n).Runs w.nextId → (redeliveryLaw change found
      (some 1)).later (w₀.after schedule n).scene (w₀.after schedule (n + 1)).scene := by
    intro n hruns
    have hkeeps : (w₀.after schedule n).Keeps chainLaw (Job.Ends chainLaw) :=
      w₀.after_eq_play schedule n ▸ (h.keeps.more _).2
    have hgrows := (hkeeps.more [schedule n]).1
    exact ⟨hgrows, fun hremembers => remembers_step hremembers (hnone n hruns)⟩
  have hpos : ∀ least ∈ some 1, 0 < least := by
    rintro least ⟨⟩
    exact Nat.one_pos
  obtain ⟨n, r, hreturned, hr⟩ := htends.returns (n := 0) rfl hlater hholds
    (fun _ _ _ _ => trivial) (Bootstrapper.lasting_acksAgain w.nextId (.layout change)) h.running
    (h.meets hpos)
  obtain ⟨reply, b⟩ := r
  obtain rfl | ⟨e, hfails⟩ := hr
  · exact ⟨n, b, hreturned⟩
  · exact absurd hfails (not_fails_of_online h.keeps h.new honline n)

end Redelivers

end World

/-- Delivering an acknowledged full reset again changes nothing.

Take any interleaving in which a full reset was acknowledged and no other bootstrap was applied
since it took effect. Then all replays of its range find one snapshot, the first one as well as
those begun now, with batches of whatever size. The same change delivered again asks the sequencer
for the bootstrap to that snapshot and is told that it was applied already; as long as no other
bootstrap is applied, none of its turns changes what a unit holds or the sequencer. It is
acknowledged unless it meets a unit that is offline, and it is acknowledged in the end if all units
are online while it runs. -/
theorem redelivered_reset_changes_nothing {names : List String} {policy : HoleFillPolicy}
    {sequencer : SequencerSettings} {management : BootstrapSettings} {node : Node}
    (h : Node.start names policy sequencer management = .ok node) (moves : List Move) (w : World)
    (hw : w = (World.start node).play moves) (id : Nat) (change : LayoutChange) (b : Bootstrapper)
    (request : BootstrapRequest) (hreset : change.fullReset = true)
    (hack : w.Returned id (.layout change) (.ack, b)) (heffect : w.scene.InEffect id request)
    (hadmits : w.admits (.layout change) = true) (w₀ : World)
    (hw₀ : w₀ = w.step (.start (.layout change))) :
    ∃ found, request = change.resetTo found.streamTails ∧
      World.ReplaysFind node moves change found ∧
      (∀ more, w₀.Undisturbed more →
        (∀ before choice, before ++ [.advance w.nextId choice] <+: more →
          (w₀.play before).scene.Untouched
            (w₀.play (before ++ [.advance w.nextId choice])).scene) ∧
        (∀ request' r, ⟨w.nextId, .bootstrap request', r⟩ ∈ (w₀.play more).scene.trace →
          request' = request ∧ r = .ok .alreadyApplied) ∧
        ∀ reply b', (w₀.play more).Returned w.nextId (.layout change) (reply, b') →
          reply = .ack ∨ ∃ e, (World.start node).MetOffline
            (moves ++ .start (.layout change) :: more) w.nextId e) ∧
      ∀ schedule, World.TendsAll schedule w.nextId 1 →
        (∀ n, (w₀.after schedule n).Runs w.nextId → (w₀.after schedule n).Online) →
        (∀ n, (w₀.after schedule n).Runs w.nextId →
          ¬ (w₀.after schedule n).AppliesBootstrap (schedule n)) →
        ∃ n b', (w₀.after schedule n).Returned w.nextId (.layout change) (.ack, b') := by
  subst hw hw₀
  have hremembers := World.remembers_of_inEffect h heffect
  obtain ⟨found, hfound, e, hmem, hseals⟩ := World.resets_of_ack h hreset hack
  obtain ⟨before, e', after, htrace, hseals', -⟩ := heffect
  obtain rfl := World.seals_unique h hack (htrace ▸ by simp) hseals' hmem hseals
  have hredelivers := World.redelivers_start (World.keeps_chainLaw h moves)
    ((World.managed_start h).play moves) hreset hfound hremembers hadmits
  refine ⟨found, rfl, World.replaysFind h hfound, fun more hundisturbed =>
    ⟨fun before choice hturn => hredelivers.untouched hundisturbed hturn,
      fun request' r hmem => hredelivers.already hundisturbed hmem, fun reply b' hreturned => ?_⟩,
    fun schedule htends honline hnone => hredelivers.returns htends honline hnone⟩
  refine (hredelivers.acked hundisturbed hreturned).imp_right ?_
  rintro ⟨e, hfails⟩
  rw [← World.play_cons, ← World.play_append] at hfails
  exact ⟨e, World.metOffline h hfails⟩

/-- Two clients get positions, and only the second one writes. A full reset fills the first position
with a hole and is acknowledged. Then the first client writes with its old token, is refused, and
appends behind the reset; the unit goes offline and comes back. Delivered again, the reset looks at
both positions and is acknowledged. -/
theorem redelivered_reset_changes_nothing_after_late_write : ∃ node,
    Node.start ["a"] .immediate ⟨1, Epoch.zero, 5⟩ ⟨2, 1, 4⟩ = .ok node ∧
    let turn (id place : Nat) : Move := .advance id ⟨Timestamp.epoch, Duration.zero, 1, place⟩
    let stream : StreamId := ⟨7, by decide⟩
    let change : LayoutChange :=
      ⟨⟨1, by decide⟩, true, Position.zero, ⟨2, by decide⟩, ∅⟩
    let second : Position := ⟨1, by decide⟩
    let request := change.resetTo (.ofList [(stream, some second)])
    let moves : List Move := [.join Epoch.zero 3, .start (.append 0 (.ofList [stream]) [1]),
        turn 0 0, turn 0 0, .start (.append 0 (.ofList [stream]) [2])] ++
      List.replicate 4 (turn 1 0) ++ [.start (.layout change)] ++ List.replicate 4 (turn 2 0) ++
      List.replicate 2 (turn 2 1) ++ List.replicate 3 (turn 2 2) ++ List.replicate 9 (turn 0 0) ++
      [.switch 0 true, .switch 0 false]
    let w := (World.start node).play moves
    let again : List Move := List.replicate 2 (turn 3 0) ++ List.replicate 2 (turn 3 1) ++
      List.replicate 3 (turn 3 2)
    let w₀ := w.step (.start (.layout change))
    let acked : BootstrapReply × Bootstrapper := (.ack, ⟨⟨2, 1, 4⟩, some ⟨1, by decide⟩⟩)
    w.Returned 2 (.layout change) acked ∧ w.scene.InEffect 2 request ∧
      (w₀.play again).Returned 3 (.layout change) acked ∧
      ∃ found, request = change.resetTo found.streamTails ∧
        World.ReplaysFind node moves change found := by
  have h : Node.start ["a"] .immediate ⟨1, Epoch.zero, 5⟩ ⟨2, 1, 4⟩ = .ok _ := rfl
  refine ⟨_, h, ?_⟩
  intro turn stream change second request moves w again w₀ acked
  have hack : w.Returned 2 (.layout change) acked := by decide +kernel
  have heffect : w.scene.InEffect 2 request := by decide +kernel
  have hagain : (w₀.play again).Returned 3 (.layout change) acked := by decide +kernel
  obtain ⟨found, hrequest, hreplays, -⟩ := redelivered_reset_changes_nothing h moves w rfl 2 change
    _ request rfl hack heffect (by decide +kernel) w₀ rfl
  exact ⟨hack, heffect, hagain, found, hrequest, hreplays⟩

end SharedLog
