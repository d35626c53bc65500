/-
# Full resets that are acknowledged

A full reset that is handled while nobody else goes on is acknowledged exactly if it is not too old,
if its hints are in order, and if the sequencer is behind it, was never used, or has the reset in
effect already (`World.Accepts`). Of the hints only those count whose streams the range does not
name; so no position that is replayed can be a reason to refuse the change.

What the replay finds is known beforehand, from the head of the chain: a position that the head
holds is decided with what it holds, and any other one with a hole.
-/
import SharedLog.Proofs.Bootstrapper.Batches
import SharedLog.Proofs.Bootstrapper.Rejection
import SharedLog.Proofs.Bootstrapper.Tally
import SharedLog.Proofs.World.Together

namespace SharedLog

variable {s base : Scene} {id : Nat} {change : LayoutChange} {q : Sequencer}
  {tails : StreamPositions} {p : Position} {rounds : Option Nat}

/-! ## Tails that a reset rebuilds -/

namespace LayoutChange

/-- A position that is replayed for a change holds an entry of a stream. -/
def Names (change : LayoutChange) (s : Scene) (stream : StreamId) (p : Position) : Prop :=
  change.Covers p ∧ ∃ entry, s.slot Chain.head p = some (.entry entry) ∧ stream ∈ entry.streams

/-- The tails that a full reset comes to: of a stream the last position of the range with an entry
of it, and of a stream without such a position what the hints say, if they say anything. -/
def Rebuilds (change : LayoutChange) (s : Scene) (tails : StreamPositions) : Prop :=
  ∀ stream : StreamId,
    (∃ p, IsGreatest {p | change.Names s stream p} p ∧ tails[stream]? = some (some p)) ∨
      (∀ p, ¬ change.Names s stream p) ∧ tails[stream]? = change.streamTailHints[stream]?

/-- The snapshot of a replay, if the head gets nothing but holes before it is done. -/
def foresight (change : LayoutChange) (s : Scene) : TailSnapshot :=
  (TailSnapshot.start change.globalTailHint change.streamTailHints).recordEach
    (fun p => (s.slot Chain.head p).getD .hole)
    (positionsBetween change.rebuildStart.val change.globalTailHint.val)

lemma rebuilds_foresight (hreset : change.fullReset = true) (s : Scene) :
    change.Rebuilds s (change.foresight s).streamTails := by
  intro stream
  have hnames : ∀ p, change.Names s stream p ↔
      p.Within change.rebuildStart.val change.globalTailHint.val ∧
        ((s.slot Chain.head p).getD .hole).Names stream := by
    intro p
    rw [Names, Covers, LogData.Names]
    cases s.slot Chain.head p <;> simp [hreset]
  simp only [hnames, not_and]
  exact (TailSnapshot.describes_recordEach _ _ _ change.streamTailHints).streamTails stream

/-- Nothing is found but what was foreseen. -/
lemma Finds.eq_foresight {found : TailSnapshot} (h : change.Finds found s) (hsound : s.Sound)
    (hfilled : base.HeadFilled s) : found = change.foresight base := by
  refine h.eq_recordEach _ fun p hp => ?_
  obtain ⟨v, hv⟩ := h.decided p hp
  have hhead := hsound.head_of_committed hv
  rcases hfilled p with heq | ⟨hnone, hhole⟩
  · rwa [← heq, hhead]
  · rw [hnone]
    obtain rfl := Option.some.inj (hhead.symm.trans hhole)
    exact hv

/-- With the tails that are rebuilt the hints are in order, unless the range leads backwards or the
hint for a stream that the range does not name is not. -/
lemma Rebuilds.orderly_iff (h : change.Rebuilds s tails) :
    (change.resetTo tails).Orderly ↔ change.rebuildStart ≤ change.globalTailHint ∧
      ∀ stream p, change.streamTailHints.at? stream = some p →
        (∀ p', ¬ change.Names s stream p') → p < change.globalTailHint := by
  constructor
  · rintro ⟨hstart, hhints⟩
    refine ⟨hstart, fun stream p hp hnone => hhints stream p ?_⟩
    rcases h stream with ⟨p', hp', -⟩ | ⟨-, heq⟩
    · exact absurd hp'.1 (hnone p')
    · rwa [resetTo, StreamPositions.at?, heq]
  · rintro ⟨hstart, hhints⟩
    refine ⟨hstart, fun stream p hp => ?_⟩
    rw [resetTo, StreamPositions.at?] at hp
    rcases h stream with ⟨p', hp', heq⟩ | ⟨hnone, heq⟩
    · -- a position of the range is before its end
      rw [heq] at hp
      obtain rfl : p' = p := by simpa using hp
      exact hp'.1.1.2.2
    · rw [heq] at hp
      exact hhints stream p hp hnone

end LayoutChange

/-! ## The law of a reset that is handled alone -/

/-- The request that a full reset comes to. -/
def LayoutChange.foreseen (change : LayoutChange) (base : Scene) : BootstrapRequest :=
  change.resetTo (change.foresight base).streamTails

/-- The head is filled with holes, and the sequencer is asked for nothing but the reset. -/
def resetLaw (change : LayoutChange) (base : Scene) (q : Sequencer) (rounds : Option Nat) :
    Law where
  holds s := s.Sound ∧ base.HeadFilled s ∧ ∃ q', s.node.mailbox.sequencer = some q' ∧
    q.Asked (change.foreseen base) q'
  later s s' := s.Grows s' ∧
    (s.Remembers (change.foreseen base) → s'.Remembers (change.foreseen base))
  allows action s := s.Replays change action ∧
    ∀ request, action = .bootstrap request → request = change.foreseen base
  heeds _ _ := True
  rounds
  later_refl s := ⟨.refl s, fun h => h⟩
  later_trans h h' := ⟨h.1.trans h'.1, fun hs => h'.2 (h.2 hs)⟩
  act_keeps := by
    rintro s s' id action answer ⟨hsound, hfilled, q', hq', hasked⟩ ⟨hreplays, hrequest⟩ hacts
    refine ⟨⟨.of_acts hacts, fun hremembers => hremembers.of_acts hacts ?_⟩,
      hsound.of_acts hreplays.copies hacts, hfilled.of_acts hreplays hacts, ?_⟩
    · rintro ⟨id', request, heq⟩
      cases heq
      cases hrequest request rfl
      cases (hremembers.again hacts).1
    · cases hreplays with
      | bootstrap request =>
        cases hrequest request rfl
        obtain ⟨now, -, hserved⟩ := hacts.bootstrap_of_some hq'
        exact ⟨_, hserved, (hasked.bootstrap rfl now).1⟩
      | peek | fill | copy => exact ⟨q', (congrArg _ (hacts.mailbox rfl)).trans hq', hasked⟩
  calm_keeps := by
    rintro s s' ⟨hsound, hfilled, q', hq', hasked⟩ hcalm
    exact ⟨⟨.of_calm hcalm, fun hremembers => hremembers.of_calm hcalm⟩, hsound.of_calm hcalm,
      hfilled.of_calm hcalm, q', (congrArg _ hcalm.mailbox).trans hq', hasked⟩

lemma resetLaw_unconditional : (resetLaw change base q none).Unconditional :=
  ⟨fun _ _ => trivial, rfl⟩

lemma resetLaw_watching : (resetLaw change base q rounds).Watching where
  sound h := h.1
  grows h := h.1
  allows_peek i p _ := ⟨.peek i p, by simp⟩

lemma resetLaw_filling (hp : change.Covers p) : (resetLaw change base q rounds).Filling p where
  toWatching := resetLaw_watching
  allows_hole _ := ⟨.fill hp, by simp⟩
  allows_copy _ hslot := ⟨.copy hp hslot, by simp⟩

/-! ## The program -/

namespace Bootstrapper

variable {b : Bootstrapper} {c : Chain} {request : BootstrapRequest}

/-- What an attempt at a full reset ends with: with what the sequencer had to answer at first, or
since a unit is offline. -/
def AttemptAnswers (q : Sequencer) (request : BootstrapRequest) (id : Nat) :
    Except ServerError BootstrapOutcome → Scene → Prop
  | .ok _, s => q.Admits request ∧ s.Remembers request
  | .error _, s => ¬ q.Admits request ∨ ∃ e, chainLaw.Fails id s e

lemma tryBootstrap_answers (hwaits : c.Waits (resetLaw change base q rounds))
    (hreset : change.fullReset = true) (hc : s.node.chain = c)
    (hholds : (resetLaw change base q rounds).holds s) :
    (resetLaw change base q rounds).Meets id (AttemptAnswers q (change.foreseen base) id)
      (b.tryBootstrap c change) s := by
  have hrequest : (resetLaw change base q rounds).Meets id _ (b.requestFor c change) s :=
    requestFor_finds resetLaw_watching hreset (fun hlater hholds hfirst hstop =>
      Chain.readMany_reads resetLaw_watching (hlater.1.chain.trans hc) hholds hwaits fun p hp => by
        obtain ⟨hle, hlt⟩ := mem_positionsBetween.mp hp
        exact resetLaw_filling ⟨hreset, Nat.le_trans hfirst hle, Nat.lt_of_lt_of_le hlt hstop⟩)
      hholds
  refine hrequest.andThen hholds ?_ ?_
  · rintro request s₁ - ⟨hsound₁, hfilled₁, -⟩ ⟨found, rfl, hfound⟩
    have hforeseen : found = change.foresight base := hfound.eq_foresight hsound₁ hfilled₁
    subst hforeseen
    refine (Program.meets_mapError ..).mpr (Law.ask_intro fun s₂ hlater₂ hholds₂ => ⟨?_, ?_⟩)
    · have hdecided : Scene.Decided change s₁ := fun p hp => hfound.decided p hp.2
      exact ⟨.bootstrap _ (hdecided.later hlater₂.1), fun request heq => by cases heq; rfl⟩
    · intro r s₃ hacts _ _ _
      obtain ⟨-, -, q', hq', hasked⟩ := hholds₂
      obtain ⟨now, rfl, hserved⟩ := hacts.bootstrap_of_some hq'
      obtain ⟨-, hok⟩ := hasked.bootstrap rfl now
      have hbootstrapped := q'.bootstrapped_bootstrap (change.foreseen base) now
      change AttemptAnswers q _ id (Except.mapError ServerError.sequencer
        (q'.bootstrap (change.foreseen base) now).1) s₃
      generalize hr : (q'.bootstrap (change.foreseen base) now).1 = r at hok hbootstrapped ⊢
      cases r with
      | ok outcome =>
        obtain ⟨-, hepoch, hlast, -⟩ := hbootstrapped.succeeded
        exact ⟨hok.mp ⟨outcome, rfl⟩, _, hserved, hepoch, hlast⟩
      | error e =>
        refine .inl fun hadmits => ?_
        obtain ⟨outcome, heq⟩ := hok.mpr hadmits
        cases heq
  · rintro e s₁ - - ⟨e', -, hfails⟩
    exact .inr ⟨e', hfails⟩

/-- What the handling of a full reset ends with. -/
inductive Answers (b : Bootstrapper) (id : Nat) (change : LayoutChange) (q : Sequencer)
    (request : BootstrapRequest) : BootstrapReply × Bootstrapper → Scene → Prop
  | acked {b' : Bootstrapper} {s : Scene} (current : b.newerEpoch? change = none)
      (admits : q.Admits request) (remembers : s.Remembers request) :
    Answers b id change q request (.ack, b') s
  | nacked {reason : String} {b' : Bootstrapper} {s : Scene}
      (why : b.newerEpoch? change ≠ none ∨ ¬ q.Admits request ∨ ∃ e, chainLaw.Fails id s e) :
    Answers b id change q request (.nack reason, b') s

/-- Unless a unit was offline, the answer is decided by the bootstrapper and the sequencer. -/
lemma Answers.ack_iff {reply : BootstrapReply} {b' : Bootstrapper}
    (h : Answers b id change q request (reply, b') s) (hnot : ∀ e, ¬ chainLaw.Fails id s e) :
    reply = .ack ↔ b.newerEpoch? change = none ∧ q.Admits request := by
  cases h with
  | acked current admits => exact ⟨fun _ => ⟨current, admits⟩, fun _ => rfl⟩
  | nacked why =>
    refine ⟨by simp, ?_⟩
    rintro ⟨hcurrent, hadmits⟩
    rcases why with hnewer | hrefused | ⟨e, hfails⟩
    · exact absurd hcurrent hnewer
    · exact absurd hadmits hrefused
    · exact absurd hfails (hnot e)

lemma Answers.remembers_of_ack {b' : Bootstrapper}
    (h : Answers b id change q request (.ack, b') s) : s.Remembers request := by
  cases h with
  | acked _ _ remembers => exact remembers

/-- What is known of a full reset that is handled alone. -/
def answers (b : Bootstrapper) (id : Nat) (change : LayoutChange) (q : Sequencer)
    (request : BootstrapRequest) : Outcome
  | .layout _ => Answers b id change q request
  | _ => fun _ _ => True

lemma lasting_answers (b : Bootstrapper) (id : Nat) (job : Job) :
    (resetLaw change base q rounds).Lasting (answers b id change q (change.foreseen base) job) := by
  cases job with
  | layout change' =>
    intro r s s' hr hlater _
    cases hr with
    | acked current admits remembers => exact .acked current admits (hlater.2 remembers)
    | nacked why =>
      refine .nacked (why.imp_right fun h => h.imp_right ?_)
      rintro ⟨e, hfails⟩
      exact ⟨e, chainLaw_chainlike.fails hfails hlater.1⟩
  | _ => exact fun _ _ _ _ _ _ => trivial

theorem handle_answers (hwaits : c.Waits (resetLaw change base q rounds))
    (hreset : change.fullReset = true) (hc : s.node.chain = c)
    (hholds : (resetLaw change base q rounds).holds s) :
    (resetLaw change base q rounds).Meets id (answers b id change q (change.foreseen base)
      (.layout change)) (b.handle c change) s := by
  cases hnewer : b.newerEpoch? change with
  | some last =>
    unfold handle
    rw [hnewer]
    exact .nacked (.inl (by simp [hnewer]))
  | none =>
    refine (handle_ends hnewer (fun s₁ hlater hholds₁ => tryBootstrap_answers hwaits hreset
      (hlater.1.chain.trans hc) hholds₁) hholds).mono fun r s₁ hr => ?_
    rcases hr with ⟨o, ⟨hadmits, hremembers⟩, rfl⟩ | ⟨e, hwhy, rfl⟩
    · exact .acked hnewer hadmits hremembers
    · exact .nacked (.inr hwhy)

end Bootstrapper

/-! ## Resets that are handled alone -/

namespace World

variable {w w₀ : World} {moves turns : List Move} {names : List String} {policy : HoleFillPolicy}
  {sequencer : SequencerSettings} {management : BootstrapSettings} {node : Node}

/-- What it takes for a full reset to be acknowledged, when it comes to some tails. -/
structure Accepts (w : World) (change : LayoutChange) (q : Sequencer) (tails : StreamPositions) :
    Prop where
  /-- No change of a later epoch was acknowledged. -/
  current : ∀ last, w.lastApplied = some last → last ≤ change.epoch
  start_le : change.rebuildStart ≤ change.globalTailHint
  /-- Of the hints only those count whose streams the range does not name. -/
  hints_lt : ∀ stream p, change.streamTailHints.at? stream = some p →
    (∀ p', ¬ change.Names w.scene stream p') → p < change.globalTailHint
  /-- The sequencer is of an earlier epoch. Or it is of the change's epoch, and was never used or
  has the reset in effect. -/
  sequencer : q.epoch < change.epoch ∨ q.epoch = change.epoch ∧ w.scene.Unused ∨
    q.Repeats (change.resetTo tails)

/-- The conditions are those of the bootstrapper and of the sequencer. -/
lemma accepts_iff (htallies : w.scene.Tallies q) (hrebuilds : change.Rebuilds w.scene tails) :
    w.Accepts change q tails ↔ w.scene.node.bootstrapper.newerEpoch? change = none ∧
      q.Admits (change.resetTo tails) := by
  rw [Sequencer.admits_iff htallies.disciplined rfl, hrebuilds.orderly_iff,
    htallies.untouched_iff, newerEpoch?_eq_none_iff]
  constructor
  · rintro ⟨hcurrent, hstart, hhints, hsequencer⟩
    exact ⟨hcurrent, ⟨hstart, hhints⟩, hsequencer⟩
  · rintro ⟨hcurrent, ⟨hstart, hhints⟩, hsequencer⟩
    exact ⟨hcurrent, hstart, hhints, hsequencer⟩

/-- A full reset was started in a world, and is handled alone. -/
structure Resetting (w w₀ : World) (change : LayoutChange) (q : Sequencer) : Prop where
  keeps : w₀.Keeps chainLaw (Job.Ends chainLaw)
  managed : w₀.Managed
  online : w₀.Online
  scene : w₀.scene = w.scene
  running : w₀.Handles w.nextId change
    (w.scene.node.bootstrapper.handle w.scene.node.chain change)
  new : ∀ e ∈ w₀.scene.trace, e.activity ≠ w.nextId
  holds : (resetLaw change w.scene q none).holds w₀.scene
  meets : ∀ {rounds}, w.scene.node.chain.Waits (resetLaw change w.scene q rounds) →
    (resetLaw change w.scene q rounds).Meets w.nextId
      (Bootstrapper.answers w.scene.node.bootstrapper w.nextId change q (change.foreseen w.scene)
        (.layout change)) (w.scene.node.bootstrapper.handle w.scene.node.chain change) w₀.scene

lemma resetting_start (hkeeps : w.Keeps chainLaw (Job.Ends chainLaw)) (hmanaged : w.Managed)
    (honline : w.Online) (hq : w.scene.node.mailbox.sequencer = some q)
    (hreset : change.fullReset = true) (hadmits : w.admits (.layout change) = true) :
    w.Resetting (w.step (.start (.layout change))) change q := by
  have hkeeps₀ := (hkeeps.more [.start (.layout change)]).2
  rw [play_cons, play_nil] at hkeeps₀
  obtain ⟨hscene, hrunning⟩ := handles_start hadmits
  have hholds : (resetLaw change w.scene q none).holds w.scene :=
    ⟨hkeeps.holds, .refl w.scene, q, hq, .spared q.staleRejections⟩
  refine ⟨hkeeps₀, hmanaged.step _, honline.step (by simp), hscene, hrunning, ?_, ?_, ?_⟩
  · intro e hmem heq
    rw [hscene] at hmem
    exact Nat.lt_irrefl _ (heq ▸ hmanaged.attributed e hmem)
  · rw [hscene]
    exact hholds
  · intro rounds hwaits
    rw [hscene]
    exact Bootstrapper.handle_answers hwaits hreset rfl hholds

namespace Resetting

/-- What is known of the change after some turns. -/
lemma fulfils (h : w.Resetting w₀ change q) (hturns : Turns w.nextId turns) :
    ∃ a, (w₀.play turns).activities[w.nextId]? = some a ∧
      (resetLaw change w.scene q none).Fulfils w.nextId
        (Bootstrapper.answers w.scene.node.bootstrapper w.nextId change q
          (change.foreseen w.scene)) a (w₀.play turns).scene ∧
      (resetLaw change w.scene q none).later w₀.scene (w₀.play turns).scene ∧
      (resetLaw change w.scene q none).holds (w₀.play turns).scene :=
  fulfils_of_turns resetLaw_unconditional (Bootstrapper.lasting_answers _ _) hturns h.holds
    h.running (h.meets (Chain.waits_of_rounds rfl))

variable {reply : BootstrapReply} {b : Bootstrapper}

lemma answered (h : w.Resetting w₀ change q) (hturns : Turns w.nextId turns)
    (hreturned : (w₀.play turns).Returned w.nextId (.layout change) (reply, b)) :
    Bootstrapper.Answers w.scene.node.bootstrapper w.nextId change q (change.foreseen w.scene)
      (reply, b) (w₀.play turns).scene := by
  obtain ⟨a, ha, hfulfils, -⟩ := h.fulfils hturns
  obtain rfl := Option.some.inj (ha.symm.trans hreturned)
  exact hfulfils

/-- The change is acknowledged if neither the bootstrapper nor the sequencer has an objection. -/
lemma acked_iff (h : w.Resetting w₀ change q) (hturns : Turns w.nextId turns)
    (hreturned : (w₀.play turns).Returned w.nextId (.layout change) (reply, b)) :
    reply = .ack ↔ w.scene.node.bootstrapper.newerEpoch? change = none ∧
      q.Admits (change.foreseen w.scene) :=
  (h.answered hturns hreturned).ack_iff fun _ =>
    not_fails_of_turns h.keeps h.new h.online hturns

/-- A reset that was not in effect before and is acknowledged has set the sequencer to its epoch and
to the tails that it came to. -/
theorem applied_of_ack (h : w.Resetting w₀ change q) (hturns : Turns w.nextId turns)
    (hreturned : (w₀.play turns).Returned w.nextId (.layout change) (.ack, b))
    (hnew : ¬ q.Repeats (change.foreseen w.scene)) :
    ∃ q', (w₀.play turns).scene.node.mailbox.sequencer = some q' ∧ q'.epoch = change.epoch ∧
      q'.globalTail = change.globalTailHint ∧ ∀ stream,
        q'.streamTail stream = (change.foresight w.scene).streamTails.at? stream := by
  obtain ⟨_, -, -, -, -, -, q', hq', hasked⟩ := h.fulfils hturns
  obtain ⟨q'', hq'', hepoch, hlast⟩ := (h.answered hturns hreturned).remembers_of_ack
  obtain rfl := Option.some.inj (hq'.symm.trans hq'')
  cases hasked with
  | spared n => exact absurd ⟨hepoch.symm, hlast⟩ hnew
  | reset n now =>
    exact ⟨_, hq', rfl, rfl, fun stream => Sequencer.getElem?_hintedTails _ stream⟩

/-- A reset that is refused, or that was in effect before, spares the sequencer. -/
theorem spares (h : w.Resetting w₀ change q) (hq : w.scene.node.mailbox.sequencer = some q)
    (hturns : Turns w.nextId turns)
    (hreturned : (w₀.play turns).Returned w.nextId (.layout change) (reply, b))
    (hold : reply ≠ .ack ∨ q.Repeats (change.foreseen w.scene)) :
    w.scene.Spares (w₀.play turns).scene := by
  cases reply with
  | nack reason =>
    have hspares := h.managed.spares_of_turns hreturned hturns List.prefix_rfl
    rwa [h.scene] at hspares
  | ack =>
    obtain ⟨_, -, -, -, -, -, q', hq', hasked⟩ := h.fulfils hturns
    cases hasked with
    | spared n => exact ⟨q, n, hq, hq'⟩
    | reset n now new => exact absurd (hold.resolve_left fun hne => hne rfl) new

/-- A reset that is handled alone comes to its end. -/
theorem returns (h : w.Resetting w₀ change q) {schedule : Nat → Move} {least : Nat}
    (hleast : ∀ n, least ≤ n → w.scene.node.chain.policy.GivesUp n 0 Duration.zero)
    (htends : TendsAll schedule w.nextId least)
    (hschedule : ∀ n, ∃ choice, schedule n = .advance w.nextId choice) :
    ∃ n reply b, (w₀.after schedule n).Returned w.nextId (.layout change) (reply, b) := by
  have hturns : ∀ moves : List Nat, Turns w.nextId (moves.map schedule) := by
    intro moves m hm
    obtain ⟨n, -, rfl⟩ := List.mem_map.mp hm
    exact hschedule n
  have hwaits : w.scene.node.chain.Waits (resetLaw change w.scene q (some least)) := by
    rintro _ ⟨⟩
    exact hleast
  have hholds : ∀ n, (resetLaw change w.scene q none).holds (w₀.after schedule n).scene := by
    intro n
    rw [after_eq_play]
    obtain ⟨-, -, -, -, hholds⟩ := h.fulfils (hturns _)
    exact hholds
  have hlater : ∀ n, (resetLaw change w.scene q none).later (w₀.after schedule n).scene
      (w₀.after schedule (n + 1)).scene := by
    intro n
    obtain ⟨choice, hchoice⟩ := hschedule n
    have hn := h.fulfils (hturns (List.range n))
    rw [← after_eq_play] at hn
    obtain ⟨a, ha, hfulfils, -, hholds⟩ := hn
    obtain ⟨-, -, -, hlater, -⟩ := fulfils_turn resetLaw_unconditional
      (Bootstrapper.lasting_answers _ _) hholds ha hfulfils choice
    rwa [after, hchoice]
  obtain ⟨n, ⟨reply, b⟩, hreturned, -⟩ := htends.returns (n := 0)
    (L := resetLaw change w.scene q (some least)) rfl (fun n _ => hlater n) hholds
    (fun _ _ _ _ => trivial) (Bootstrapper.lasting_answers _ _ (.layout change)) h.running
    (h.meets hwaits)
  exact ⟨n, reply, b, hreturned⟩

end Resetting

end World

/-- Full resets are accepted exactly as they ought to be, and do exactly what they say.

Take a node in any state that it can come to, with all units online and readers whose patience runs
out, and a full reset that is handled while nobody else goes on. The tails that the reset comes to
are known beforehand. The reset is acknowledged if and only if it is not older than the last change
acknowledged, its range does not lead backwards, the hints are before the hint for the global tail
where the range does not name their streams, and the sequencer is of an earlier epoch, or of the
same one and never used, or has the reset in effect already. Acknowledged and not in effect before,
it has given the sequencer its epoch, its hint for the global tail and the rebuilt tails, whatever
the sequencer held; otherwise the sequencer is spared. And it comes to its end. -/
theorem full_reset_acked_iff {names : List String} {policy : HoleFillPolicy}
    {sequencer : SequencerSettings} {management : BootstrapSettings} {node : Node}
    (h : Node.start names policy sequencer management = .ok node) (hbounded : policy.Bounded)
    (moves : List Move) (w : World) (hw : w = (World.start node).play moves) (honline : w.Online)
    (change : LayoutChange) (hreset : change.fullReset = true)
    (hadmits : w.admits (.layout change) = true) (w₀ : World)
    (hw₀ : w₀ = w.step (.start (.layout change))) :
    ∃ q tails, w.scene.node.mailbox.sequencer = some q ∧ change.Rebuilds w.scene tails ∧
      (∀ turns reply b w₁, World.Turns w.nextId turns → w₁ = w₀.play turns →
        w₁.Returned w.nextId (.layout change) (reply, b) →
          (reply = .ack ↔ w.Accepts change q tails) ∧
          (reply = .ack → ¬ q.Repeats (change.resetTo tails) →
            ∃ q', w₁.scene.node.mailbox.sequencer = some q' ∧ q'.epoch = change.epoch ∧
              q'.globalTail = change.globalTailHint ∧
              ∀ stream, q'.streamTail stream = tails.at? stream) ∧
          (reply ≠ .ack ∨ q.Repeats (change.resetTo tails) → w.scene.Spares w₁.scene)) ∧
      ∃ least, ∀ schedule, World.TendsAll schedule w.nextId least →
        (∀ n, ∃ choice, schedule n = .advance w.nextId choice) →
        ∃ n reply b, (w₀.after schedule n).Returned w.nextId (.layout change) (reply, b) := by
  have hkeeps : w.Keeps chainLaw (Job.Ends chainLaw) := hw ▸ World.keeps_chainLaw h moves
  have hmanaged : w.Managed := hw ▸ (World.managed_start h).play moves
  obtain ⟨q, htallies⟩ : ∃ q, w.scene.Tallies q := hw ▸ World.tallies_play h moves
  obtain ⟨least, hleast⟩ := hbounded.exists_givesUp
  have hrebuilds := LayoutChange.rebuilds_foresight hreset w.scene
  have hresetting : w.Resetting w₀ change q :=
    hw₀ ▸ World.resetting_start hkeeps hmanaged honline htallies.running hreset hadmits
  have hpolicy : w.scene.node.chain.policy = policy := hw ▸ World.policy_play h moves
  refine ⟨q, _, htallies.running, hrebuilds, ?_, least, fun schedule htends hschedule =>
    hresetting.returns (hpolicy ▸ hleast) htends hschedule⟩
  rintro turns reply b _ hturns rfl hreturned
  refine ⟨?_, ?_, hresetting.spares htallies.running hturns hreturned⟩
  · rw [World.accepts_iff htallies hrebuilds]
    exact hresetting.acked_iff hturns hreturned
  · rintro rfl
    exact hresetting.applied_of_ack hturns hreturned

/-- Two clients get positions, and only the second one writes. A full reset comes with a hint that
is too late for a stream. If the range names the stream, the reset is acknowledged, and the hint
counts for nothing; if not, the reset is refused. -/
theorem full_reset_acked_iff_late_hint : ∃ node,
    Node.start ["a"] .immediate ⟨1, Epoch.zero, 5⟩ ⟨2, 1, 4⟩ = .ok node ∧
    let turn (id place : Nat) : Move := .advance id ⟨Timestamp.epoch, Duration.zero, 1, place⟩
    let named : StreamId := ⟨7, by decide⟩
    let other : StreamId := ⟨8, by decide⟩
    let second : Position := ⟨1, by decide⟩
    let late : Position := ⟨9, by decide⟩
    let change (stream : StreamId) : LayoutChange :=
      ⟨⟨1, by decide⟩, true, Position.zero, ⟨2, by decide⟩, .ofList [(stream, some late)]⟩
    let w := (World.start node).play ([.join Epoch.zero 3, .start (.append 0 (.ofList [named]) [1]),
        turn 0 0, turn 0 0, .start (.append 0 (.ofList [named]) [2])] ++
      List.replicate 4 (turn 1 0))
    let turns := [0, 0, 0, 0, 1, 1, 2, 2, 2].map (turn 2)
    let after (stream : StreamId) := (w.step (.start (.layout (change stream)))).play turns
    (∃ q tails, w.Accepts (change named) q tails ∧
      ∃ q', (after named).scene.node.mailbox.sequencer = some q' ∧
        q'.streamTail named = some second) ∧
    ∃ q tails, ¬ w.Accepts (change other) q tails ∧ w.scene.Spares (after other).scene := by
  have h : Node.start ["a"] .immediate ⟨1, Epoch.zero, 5⟩ ⟨2, 1, 4⟩ = .ok _ := rfl
  refine ⟨_, h, ?_⟩
  intro turn named other second late change w turns after
  have honline : w.Online := by
    change ∀ unit ∈ w.scene.node.units, unit.offline = false
    decide +kernel
  have hid : w.nextId = 2 := by decide +kernel
  have hturns : World.Turns w.nextId turns := by
    intro m hm
    obtain ⟨place, -, rfl⟩ := List.mem_map.mp hm
    rw [hid]
    exact ⟨_, rfl⟩
  constructor
  · have hack : (after named).Returned w.nextId (.layout (change named))
        (.ack, ⟨⟨2, 1, 4⟩, some ⟨1, by decide⟩⟩) := by decide +kernel
    obtain ⟨q, tails, hq, hrebuilds, hends, -⟩ := full_reset_acked_iff h trivial _ w rfl honline
      (change named) rfl (by decide +kernel) _ rfl
    obtain ⟨haccepts, hreset, -⟩ := hends turns _ _ (after named) hturns rfl hack
    have hnew : ¬ q.Repeats ((change named).resetTo tails) := by
      have hlast : w.scene.node.mailbox.sequencer.bind (·.lastBootstrap) = none := by
        decide +kernel
      rw [hq, Option.bind_some] at hlast
      rintro ⟨-, heq⟩
      cases hlast.symm.trans heq
    obtain ⟨q', hq', -, -, htails⟩ := hreset rfl hnew
    refine ⟨q, tails, haccepts.mp rfl, q', hq', (htails named).trans ?_⟩
    -- the second position is the last one of the range
    have hsecond : (change named).Names w.scene named second := by
      let token : Token := ⟨Epoch.zero, second, 1, .ofList [(named, some Position.zero)]⟩
      exact ⟨by decide, .forToken token [2], by decide +kernel⟩
    rcases hrebuilds named with ⟨p, ⟨hp, hgreatest⟩, heq⟩ | ⟨hnone, -⟩
    · have hle : second.val ≤ p.val := hgreatest hsecond
      have hlt : p.val < 2 := hp.1.2.2
      have hone : second.val = 1 := rfl
      obtain rfl : p = second := Position.ext (by omega)
      rw [StreamPositions.at?, heq]
      rfl
    · exact absurd hsecond (hnone second)
  · have hnack : (after other).Returned w.nextId (.layout (change other))
        (.nack ("sequencer error: invalid argument: stream " ++
          "00000000-0000-0000-0000-000000000008 tail 9 is not below global tail hint 2"),
          ⟨⟨2, 1, 4⟩, none⟩) := by decide +kernel
    obtain ⟨q, tails, -, -, hends, -⟩ := full_reset_acked_iff h trivial _ w rfl honline
      (change other) rfl (by decide +kernel) _ rfl
    obtain ⟨haccepts, -, hspares⟩ := hends turns _ _ (after other) hturns rfl hnack
    have hrefused : ¬ w.Accepts (change other) q tails := fun hh => by cases haccepts.mpr hh
    exact ⟨q, tails, hrefused, hspares (.inl (by simp))⟩

end SharedLog
