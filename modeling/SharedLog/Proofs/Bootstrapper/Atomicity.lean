/-
# Changes of layout are taken whole or not at all

Changes are handled one at a time, so that the program of the one that is under way was made from
the bootstrapper as it still is (`World.Managed`). From that it follows what a change comes to: if
it is refused, then none of its turns has moved the sequencer, and if it is acknowledged, then
exactly one of its turns has sealed it (`World.Sealed`).
-/
import SharedLog.Proofs.Bootstrapper.Deeds

namespace SharedLog

variable {w : World} {m : Move} {moves : List Move} {id : Nat} {choice : Choice}
  {change : LayoutChange}

/-! ## Changes that are handled one at a time -/

namespace World

open NodeProgram (Leads)
open Bootstrapper (HandleEnds)

/-- The epoch of the last change of layout that was acknowledged. -/
def lastApplied (w : World) : Option Epoch := w.scene.node.bootstrapper.lastApplied

/-- A change is not too old if no change of a later epoch was acknowledged. -/
lemma newerEpoch?_eq_none_iff : w.scene.node.bootstrapper.newerEpoch? change = none ↔
    ∀ last, w.lastApplied = some last → last ≤ change.epoch := by
  rw [Bootstrapper.newerEpoch?, Option.filter_eq_none_iff]
  refine forall₂_congr fun last _ => ?_
  rw [decide_eq_true_eq]
  exact Nat.not_lt

/-- A change of layout is under way, and the rest of its program is still to be done. -/
def Handles (w : World) (id : Nat) (change : LayoutChange)
    (rest : NodeProgram (BootstrapReply × Bootstrapper)) : Prop :=
  w.activities[id]? = some (.running (.layout change) rest)

variable {rest rest' : NodeProgram (BootstrapReply × Bootstrapper)}
  {result : BootstrapReply × Bootstrapper}

/-- Nothing changes the bootstrapper but the end of a change of layout. -/
lemma bootstrapper_step (w : World) (m : Move) :
    (w.step m).scene.node.bootstrapper = w.scene.node.bootstrapper ∨
      ∃ id choice change result, m = .advance id choice ∧ w.Handles id change (.done result) ∧
        (w.step m).Returned id (.layout change) result ∧
        (w.step m).scene.node.bootstrapper = result.2 := by
  cases m with
  | start job =>
    rcases step_start w job with heq | ⟨program, -, heq⟩ <;> rw [heq] <;> exact .inl rfl
  | drop id =>
    rcases step_drop w id with heq | ⟨job, rest, -, heq⟩ <;> rw [heq] <;> exact .inl rfl
  | switch place offline | join epoch n => exact .inl rfl
  | advance id choice =>
    have hadvanced := advanced_advance w id choice
    simp only [step]
    generalize w.advance id choice = w' at hadvanced ⊢
    cases hadvanced with
    | idle => exact .inl rfl
    | onward running step =>
      rcases NodeProgram.scene_advance step with rfl | ⟨action, answer, hacts⟩
      · exact .inl rfl
      · exact .inl hacts.bootstrapper
    | returned running =>
      rename_i job result
      cases job with
      | layout change =>
        have hid := (List.getElem?_eq_some_iff.mp running).1
        exact .inr ⟨id, choice, change, result, rfl, running, List.getElem?_set_self hid, rfl⟩
      | _ => exact .inl rfl

/-- With the end of a change the bootstrapper gets the state that its program ended with. -/
lemma Handles.bootstrapper_step (h : w.Handles id change (.done result)) (choice : Choice) :
    (w.step (.advance id choice)).scene.node.bootstrapper = result.2 := by
  rw [Handles] at h
  simp only [World.step, World.advance, h, Job.conclude]

/-- A change that is under way after a move was so before, or it has been started, no other one
being under way. -/
lemma handles_step (h : (w.step m).Handles id change rest') : (∃ rest, w.Handles id change rest) ∨
    m = .start (.layout change) ∧ id = w.nextId ∧ (w.step m).scene = w.scene ∧
      rest' = w.scene.node.bootstrapper.handle w.scene.node.chain change ∧
      ∀ id' change' rest, ¬ w.Handles id' change' rest := by
  have hbecame := became h
  generalize ha : Activity.running (.layout change) rest' = a at hbecame
  cases hbecame with
  | same before =>
    subst ha
    exact .inl ⟨rest', before⟩
  | onward running =>
    cases ha
    exact .inl ⟨_, running⟩
  | started start new admits program? scene =>
    cases ha
    refine .inr ⟨start, new, scene, (Option.some.inj program?).symm, fun id' change' rest h' => ?_⟩
    simp only [World.admits, Job.isLayout, Bool.true_and, Bool.not_eq_true', List.any_eq_false]
      at admits
    exact admits _ (List.mem_of_getElem? h') rfl
  | returned | dropped => cases ha

/-- What is known of the changes of layout in a world. -/
structure Managed (w : World) : Prop where
  attributed : w.Attributed
  /-- No two changes are under way. -/
  alone : ∀ {id id' change change' rest rest'}, w.Handles id change rest →
    w.Handles id' change' rest' → id = id'
  /-- The change under way ends as its program was shown to, given the bootstrapper as it is. -/
  course : ∀ {id change rest}, w.Handles id change rest →
    Leads id (HandleEnds w.scene.node.bootstrapper id change) rest (w.scene.deeds id)
  answered : ∀ {id change result}, w.Returned id (.layout change) result →
    ∃ b, HandleEnds b id change result (w.scene.deeds id)
  governed : ∃ q, w.scene.Governed q ∧ ∀ last, w.lastApplied = some last → last ≤ q.epoch

namespace Managed

/-- While a change is under way the bootstrapper stays as it is. -/
lemma bootstrapper_eq (h : w.Managed) (hrunning : (w.step m).Handles id change rest') :
    (w.step m).scene.node.bootstrapper = w.scene.node.bootstrapper := by
  rcases w.bootstrapper_step m with heq | ⟨other, choice, change', result, rfl, hends, hreturned, -⟩
  · exact heq
  · rcases handles_step hrunning with ⟨rest, hbefore⟩ | ⟨hstart, -⟩
    · -- the change that ends is the only one
      obtain rfl := h.alone hbefore hends
      cases hrunning.symm.trans hreturned
    · cases hstart

lemma alone_step (h : w.Managed) {id' : Nat} {change' : LayoutChange}
    (hrunning : (w.step m).Handles id change rest)
    (hrunning' : (w.step m).Handles id' change' rest') : id = id' := by
  rcases handles_step hrunning with ⟨_, hbefore⟩ | ⟨-, rfl, -, -, hnone⟩
  · rcases handles_step hrunning' with ⟨_, hbefore'⟩ | ⟨-, rfl, -, -, hnone⟩
    · exact h.alone hbefore hbefore'
    · exact absurd hbefore (hnone _ _ _)
  · rcases handles_step hrunning' with ⟨_, hbefore'⟩ | ⟨-, rfl, -, -, -⟩
    · exact absurd hbefore' (hnone _ _ _)
    · rfl

lemma course_step (h : w.Managed) (hrunning : (w.step m).Handles id change rest') :
    Leads id (HandleEnds (w.step m).scene.node.bootstrapper id change) rest'
      ((w.step m).scene.deeds id) := by
  rw [h.bootstrapper_eq hrunning]
  have hbecame := became hrunning
  generalize ha : Activity.running (.layout change) rest' = a at hbecame
  cases hbecame with
  | same before deeds =>
    subst ha
    exact deeds ▸ h.course before
  | onward running step =>
    cases ha
    exact (h.course running).advance step
  | started start new admits program? scene =>
    cases ha
    rw [scene, new, h.attributed.deeds_nextId, ← Option.some.inj program?]
    exact Bootstrapper.leads_handle
  | returned | dropped => cases ha

lemma answered_step (h : w.Managed) (hreturned : (w.step m).Returned id (.layout change) result) :
    ∃ b, HandleEnds b id change result ((w.step m).scene.deeds id) := by
  have hbecame := became hreturned
  generalize ha : Activity.returned (.layout change) result = a at hbecame
  cases hbecame with
  | same before deeds =>
    subst ha
    exact deeds ▸ h.answered before
  | returned turn running deeds =>
    cases ha
    exact ⟨_, deeds ▸ h.course running⟩
  | onward | dropped | started => cases ha

/-- The record of epochs after a move is as before, or it tells the epoch of a change that was
acknowledged just now, which is not an older one. -/
lemma lastApplied_step (h : w.Managed) (m : Move) : (w.step m).lastApplied = w.lastApplied ∨
    ∃ id choice change b, m = .advance id choice ∧ w.Handles id change (.done (.ack, b)) ∧
      (w.step m).Returned id (.layout change) (.ack, b) ∧
      (w.step m).lastApplied = some change.epoch ∧
      ∀ last, w.lastApplied = some last → last ≤ change.epoch := by
  rcases w.bootstrapper_step m with heq | ⟨id, choice, change, result, rfl, hends, hreturned, heq⟩
  · exact .inl (congrArg Bootstrapper.lastApplied heq)
  · have hcourse : HandleEnds _ _ _ _ _ := h.course hends
    unfold lastApplied
    rw [heq]
    generalize w.scene.deeds id = past at hcourse
    cases hcourse with
    | outdated | refused => exact .inl rfl
    | acknowledged current fruitless epoch =>
      refine .inr ⟨id, choice, change, _, rfl, hends, hreturned, rfl, fun last hlast => ?_⟩
      exact newerEpoch?_eq_none_iff.mp current last hlast

lemma governed_step (h : w.Managed) (m : Move) : ∃ q, (w.step m).scene.Governed q ∧
    ∀ last, (w.step m).lastApplied = some last → last ≤ q.epoch := by
  obtain ⟨q, hq, hlast⟩ := h.governed
  have hmoved : ∃ q', (w.step m).scene.Governed q' ∧ q.epoch ≤ q'.epoch := by
    rcases w.calm_or_acts m with hcalm | ⟨id, choice, action, answer, -, -, hacts⟩
    · exact ⟨q, hq.of_calm hcalm, Nat.le_refl _⟩
    · exact hq.of_acts hacts
  obtain ⟨q', hq', hle⟩ := hmoved
  refine ⟨q', hq', fun last hlast' => ?_⟩
  rcases h.lastApplied_step m with heq | ⟨id, choice, change, b, -, hends, -, heq, -⟩
  · exact Nat.le_trans (hlast last (heq ▸ hlast')) hle
  · obtain rfl := Option.some.inj (heq.symm.trans hlast')
    obtain ⟨-, earlier, request, outcome, hdeeds, hepoch, -⟩ :=
      Bootstrapper.HandleEnds.of_ack (h.course hends)
    have hmem : ⟨id, .bootstrap request, .ok outcome⟩ ∈ w.scene.deeds id := by simp [hdeeds]
    exact Nat.le_trans (hepoch ▸ hq.sealed (Scene.mem_deeds.mp hmem).1) hle

theorem step (h : w.Managed) (m : Move) : (w.step m).Managed where
  attributed := h.attributed.step m
  alone := h.alone_step
  course := h.course_step
  answered := h.answered_step
  governed := h.governed_step m

lemma play (h : w.Managed) (moves : List Move) : (w.play moves).Managed :=
  List.foldlRecOn moves World.step h fun _ hw m _ => hw.step m

/-- The record of epochs never goes back. -/
lemma lastApplied_play (h : w.Managed) {last : Epoch} (hlast : w.lastApplied = some last)
    (moves : List Move) : ∃ last', (w.play moves).lastApplied = some last' ∧ last ≤ last' := by
  induction moves generalizing w last with
  | nil => exact ⟨last, hlast, Nat.le_refl _⟩
  | cons m moves ih =>
    rcases h.lastApplied_step m with heq | ⟨id, choice, change, b, -, -, -, heq, hle⟩
    · exact ih (h.step m) (heq.trans hlast)
    · obtain ⟨last', hlast', hle'⟩ := ih (h.step m) heq
      exact ⟨last', hlast', Nat.le_trans (hle last hlast) hle'⟩

/-- A turn of an activity spares the sequencer, or something was done that is not fruitless. -/
lemma spares_or_acts (h : w.Managed) (id : Nat) (choice : Choice) :
    w.scene.Spares (w.step (.advance id choice)).scene ∨
      ∃ action answer, w.scene.Acts id action answer (w.step (.advance id choice)).scene ∧
        ¬ Event.Fruitless ⟨id, action, answer⟩ := by
  obtain ⟨q, hq, -⟩ := h.governed
  rcases w.calm_or_acts (.advance id choice) with hcalm | ⟨_, _, action, answer, heq, -, hacts⟩
  · exact .inl (Scene.spares_of_mailbox hq.running hcalm.mailbox)
  · cases heq
    by_cases hfruitless : Event.Fruitless ⟨id, action, answer⟩
    · exact .inl (hacts.spares hq.running hfruitless)
    · exact .inr ⟨action, answer, hacts, hfruitless⟩

end Managed

variable {names : List String} {policy : HoleFillPolicy} {sequencer : SequencerSettings}
  {management : BootstrapSettings} {node : Node}

lemma managed_start (h : Node.start names policy sequencer management = .ok node) :
    (World.start node).Managed where
  attributed := attributed_start node
  alone := nofun
  course := nofun
  answered := nofun
  governed := by
    obtain ⟨-, -, -, hq, -, -, hb⟩ := Node.start_eq_ok h
    refine ⟨_, ⟨hq, nofun⟩, fun last hlast => ?_⟩
    have hnone : (World.start node).lastApplied = none := congrArg Bootstrapper.lastApplied hb
    rw [hnone] at hlast
    cases hlast

lemma step_start_layout (hadmits : w.admits (.layout change) = true) :
    w.step (.start (.layout change)) = { w with
      activities := w.activities ++ [.running (.layout change)
        (w.scene.node.bootstrapper.handle w.scene.node.chain change)] } := by
  simp only [step, hadmits, Job.program?]

/-- A change has been started, and nothing was done for it. -/
lemma handles_start (hadmits : w.admits (.layout change) = true) :
    (w.step (.start (.layout change))).scene = w.scene ∧
      (w.step (.start (.layout change))).Handles w.nextId change
        (w.scene.node.bootstrapper.handle w.scene.node.chain change) := by
  rw [step_start_layout hadmits]
  exact ⟨rfl, List.getElem?_concat_length⟩

/-! ## Changes that are too old -/

/-- The program of an activity has ended with a result before anything was done for it. -/
structure Settled (w : World) (id : Nat) (job : Job) (result : job.Result) : Prop where
  deeds : w.scene.deeds id = []
  activity : w.activities[id]? = some (.running job (.done result)) ∨ w.Returned id job result ∨
    w.activities[id]? = some (.dropped job)

lemma Settled.step {job : Job} {result : job.Result} (h : w.Settled id job result) (m : Move) :
    (w.step m).Settled id job result := by
  have hid : id < w.activities.length := by
    rcases h.activity with ha | ha | ha <;> exact (List.getElem?_eq_some_iff.mp ha).1
  obtain ⟨a, ha⟩ : ∃ a, (w.step m).activities[id]? = some a :=
    ⟨_, List.getElem?_eq_getElem (Nat.lt_of_lt_of_le hid (nextId_le_step w m))⟩
  -- an activity that is running has nothing left to do
  have hdone : ∀ {job' rest}, w.activities[id]? = some (.running job' rest) →
      Activity.running job' rest = .running job (.done result) := by
    intro job' rest hrunning
    rcases h.activity with hactivity | hactivity | hactivity
    · exact Option.some.inj (hrunning.symm.trans hactivity)
    · cases hrunning.symm.trans hactivity
    · cases hrunning.symm.trans hactivity
  have hbecame := became ha
  cases hbecame with
  | same before deeds =>
    refine ⟨deeds.trans h.deeds, ?_⟩
    rw [Returned, ha, ← before]
    exact h.activity
  | onward running step =>
    cases hdone running
    cases step
  | returned turn running deeds =>
    cases hdone running
    exact ⟨deeds.trans h.deeds, .inr (.inl ha)⟩
  | dropped running deeds =>
    cases hdone running
    exact ⟨deeds.trans h.deeds, .inr (.inr ha)⟩
  | started start new => exact absurd hid (by simp [new, nextId])

lemma Settled.play {job : Job} {result : job.Result} (h : w.Settled id job result)
    (moves : List Move) : (w.play moves).Settled id job result :=
  List.foldlRecOn (motive := fun w => w.Settled id job result) moves World.step h
    fun _ hw m _ => hw.step m

lemma Settled.eq_of_returned {job : Job} {result result' : job.Result}
    (h : w.Settled id job result) (hr : w.Returned id job result') : result' = result := by
  rcases h.activity with ha | ha | ha
  · cases hr.symm.trans ha
  · cases hr.symm.trans ha
    rfl
  · cases hr.symm.trans ha

/-- A change that is older than the last one acknowledged has its answer as soon as it is begun. -/
lemma settled_of_lt {last : Epoch} (h : w.Attributed) (hadmits : w.admits (.layout change) = true)
    (hlast : w.lastApplied = some last) (hlt : change.epoch < last) :
    (w.step (.start (.layout change))).Settled w.nextId (.layout change)
      (Bootstrapper.outdated change last, w.scene.node.bootstrapper) := by
  have hnewer : w.scene.node.bootstrapper.newerEpoch? change = some last := by
    rw [Bootstrapper.newerEpoch?, show w.scene.node.bootstrapper.lastApplied = some last from hlast]
    simpa using hlt
  have hstep : w.step (.start (.layout change)) = { w with activities := w.activities ++
      [.running (.layout change)
        (.done (Bootstrapper.outdated change last, w.scene.node.bootstrapper))] } := by
    simp only [World.step, hadmits, Job.program?, Bootstrapper.handle, hnewer]
  rw [hstep]
  exact ⟨h.deeds_nextId, .inl (by simp [nextId])⟩

/-! ## Turns of a change -/

/-- The world after one more turn of an activity. -/
lemma play_turn (w : World) (before : List Move) (id : Nat) (choice : Choice) :
    w.play (before ++ [.advance id choice]) = (w.play before).step (.advance id choice) := by
  rw [play_append, play_cons, play_nil]

/-- An activity that has done the same before two turns had not acted in the first one, unless the
second one came no later. -/
lemma length_le_of_acts {before before' : List Move} {action : Action} {answer : action.Answer}
    (hturn : before ++ [.advance id choice] <+: moves) (hbefore' : before' <+: moves)
    (hacts : (w.play before).scene.Acts id action answer
      (w.play (before ++ [.advance id choice])).scene)
    (hdeeds : (w.play before').scene.deeds id = (w.play before).scene.deeds id) :
    before'.length ≤ before.length := by
  by_contra hlt
  have hpre : before ++ [.advance id choice] <+: before' :=
    List.prefix_of_prefix_length_le hturn hbefore' (by simp; omega)
  have hgrown := (deeds_mono (w := w) hpre id).length_le
  rw [hacts.deeds_self, hdeeds, List.length_append, List.length_singleton] at hgrown
  omega

/-- A change of layout is sealed by one of its turns. -/
structure Sealed (w : World) (moves : List Move) (id : Nat) (change : LayoutChange)
    (before : List Move) (choice : Choice) (request : BootstrapRequest)
    (outcome : BootstrapOutcome) : Prop where
  turn : before ++ [.advance id choice] <+: moves
  acts : (w.play before).scene.Acts id (.bootstrap request) (.ok outcome)
    (w.play (before ++ [.advance id choice])).scene
  epoch : request.newEpoch = change.epoch
  /-- Afterwards the sequencer has the change's epoch, and remembers the bootstrap. -/
  inEffect : ∃ q, (w.play (before ++ [.advance id choice])).scene.node.mailbox.sequencer = some q ∧
    q.epoch = change.epoch ∧ q.lastBootstrap = some request
  /-- A bootstrap that was in effect already changes nothing. -/
  already : outcome = .alreadyApplied →
    (w.play (before ++ [.advance id choice])).scene.node.mailbox.sequencer =
      (w.play before).scene.node.mailbox.sequencer
  /-- No other turn moves the sequencer. -/
  others : ∀ before' choice', before' ++ [.advance id choice'] <+: moves → before' ≠ before →
    (w.play before').scene.Spares (w.play (before' ++ [.advance id choice'])).scene
  /-- A later turn takes the epoch down as the last one acknowledged. -/
  recorded : ∃ later choice', before ++ [.advance id choice] <+: later ∧
    later ++ [.advance id choice'] <+: moves ∧
    (w.play (later ++ [.advance id choice'])).lastApplied = some change.epoch

namespace Managed

/-- No turn of a change that was refused moves the sequencer or changes the record of epochs. -/
theorem turn_of_nack (h : w.Managed) {reason : String} {b : Bootstrapper}
    (hreturned : (w.play moves).Returned id (.layout change) (.nack reason, b))
    {before : List Move} (hturn : before ++ [.advance id choice] <+: moves) :
    (w.play before).scene.Spares (w.play (before ++ [.advance id choice])).scene ∧
      (w.play (before ++ [.advance id choice])).lastApplied = (w.play before).lastApplied := by
  obtain ⟨b₀, hends⟩ := (h.play moves).answered hreturned
  have hdeeds := deeds_mono (w := w) hturn id
  obtain ⟨more, hmore⟩ := hturn
  rw [play_turn] at hdeeds ⊢
  constructor
  · rcases (h.play before).spares_or_acts id choice with hspares | ⟨action, answer, hacts, hnot⟩
    · exact hspares
    · rw [hacts.deeds_self] at hdeeds
      exact absurd (hends.of_nack.2 _ (hdeeds.subset (by simp))) hnot
  · rcases (h.play before).lastApplied_step (.advance id choice) with
      heq | ⟨_, _, change', b', heq, -, hack, -⟩
    · exact heq
    · -- a change has one answer
      cases heq
      have hkept := hack.play more
      rw [← play_turn, ← play_append, hmore] at hkept
      cases hkept.symm.trans hreturned

/-- If nothing fruitful was done but at the end, then nothing but what was done before the end was
done before anything fruitful. -/
lemma eq_of_concat_prefix {earlier earlier' : List Event} {event last : Event}
    (h : earlier ++ [event] <+: earlier' ++ [last]) (hnot : ¬ event.Fruitless)
    (hfruitless : ∀ e ∈ earlier', e.Fruitless) : earlier = earlier' := by
  rcases List.prefix_concat_iff.mp h with heq | hpre
  · exact (List.append_inj' heq rfl).1
  · exact absurd (hfruitless event (hpre.subset (by simp))) hnot

/-- A change that was acknowledged was sealed by one of its turns. -/
theorem sealed_of_ack (h : Node.start names policy sequencer management = .ok node)
    {b : Bootstrapper}
    (hreturned : ((World.start node).play moves).Returned id (.layout change) (.ack, b)) :
    ∃ before choice request outcome,
      (World.start node).Sealed moves id change before choice request outcome := by
  have hmanaged := managed_start h
  obtain ⟨later, choice', hlater, hends⟩ := hreturned.exists_turn
  obtain ⟨hb, earlier, request, outcome, hdeeds, hepoch, -⟩ :=
    HandleEnds.of_ack ((hmanaged.play later).course hends)
  obtain ⟨b₀, hended⟩ := (hmanaged.play moves).answered hreturned
  obtain ⟨-, earlier', _, _, hdeeds', -, hfruitless⟩ := hended.of_ack
  -- whatever turn brings something fruitful, the same was done before it
  have hbefore : ∀ {before choice action answer}, before ++ [.advance id choice] <+: moves →
      ((World.start node).play before).scene.Acts id action answer
        ((World.start node).play (before ++ [.advance id choice])).scene →
      ¬ Event.Fruitless ⟨id, action, answer⟩ →
      ((World.start node).play before).scene.deeds id = earlier' := by
    intro before choice action answer hturn hacts hnot
    have hpre := deeds_mono (w := World.start node) hturn id
    rw [hacts.deeds_self, hdeeds'] at hpre
    exact eq_of_concat_prefix hpre hnot hfruitless
  have hmem : ⟨id, .bootstrap request, .ok outcome⟩ ∈
      ((World.start node).play later).scene.deeds id := by simp [hdeeds]
  obtain ⟨before, choice, hpre, hacts⟩ :=
    exists_acts_of_mem_trace (Scene.mem_deeds.mp hmem).1 List.not_mem_nil
  have hturn := hpre.trans ((List.prefix_append ..).trans hlater)
  obtain ⟨q, hq, -⟩ := (hmanaged.play before).governed
  obtain ⟨now, q', hserved, hbootstrapped⟩ := hacts.bootstrapped hq.running
  obtain ⟨-, hsame, hlast, halready⟩ := hbootstrapped.succeeded
  refine ⟨before, choice, request, outcome, hturn, hacts, hepoch,
    ⟨_, hserved, hsame.trans hepoch, hlast⟩, fun heq => ?_, fun before' choice₂ hturn' hne => ?_,
    later, choice', hpre, hlater, ?_⟩
  · rw [hserved, halready heq, hq.running]
  · have hturns := (hmanaged.play before').spares_or_acts id choice₂
    rw [← play_turn] at hturns
    rcases hturns with hspares | ⟨action, answer, hacts', hnot⟩
    · exact hspares
    · -- two turns that bring something fruitful are one
      have hdeeds : ((World.start node).play before').scene.deeds id =
          ((World.start node).play before).scene.deeds id :=
        (hbefore hturn' hacts' hnot).trans (hbefore hturn hacts Event.not_fruitless).symm
      have hle := length_le_of_acts hturn ((List.prefix_append ..).trans hturn') hacts hdeeds
      have hge := length_le_of_acts hturn' ((List.prefix_append ..).trans hturn) hacts' hdeeds.symm
      have hpre' : before' <+: before := List.prefix_of_prefix_length_le
        ((List.prefix_append ..).trans hturn') ((List.prefix_append ..).trans hturn) hle
      exact absurd (hpre'.eq_of_length (Nat.le_antisymm hle hge)) hne
  · rw [play_turn, World.lastApplied, Handles.bootstrapper_step hends]
    exact hb

end Managed

end World

/-- Changes of layout are all or nothing for the sequencer, and ordered by their epochs, whatever
else is asked of the node at the same time and whichever units are offline.

A change that is refused moves the sequencer in none of its turns, and leaves the epoch of the last
change acknowledged as it is. A change that is acknowledged has one turn in which a bootstrap of its
epoch took effect or was in effect already, and a later one in which its epoch becomes the last one
acknowledged. That epoch never goes back and never exceeds the sequencer's. A change of an older
epoch than it asks neither the sequencer nor any unit for anything, and is refused. -/
theorem layout_changes_all_or_nothing {names : List String} {policy : HoleFillPolicy}
    {sequencer : SequencerSettings} {management : BootstrapSettings} {node : Node}
    (h : Node.start names policy sequencer management = .ok node) (moves : List Move) (w : World)
    (hw : w = (World.start node).play moves) :
    (∀ id change reason b, w.Returned id (.layout change) (.nack reason, b) →
      ∀ before choice, before ++ [.advance id choice] <+: moves →
        ∀ w₁ w₂, w₁ = (World.start node).play before → w₂ = w₁.step (.advance id choice) →
          w₁.scene.Spares w₂.scene ∧ w₂.lastApplied = w₁.lastApplied) ∧
    (∀ id change b, w.Returned id (.layout change) (.ack, b) →
      ∃ before choice request outcome,
        (World.start node).Sealed moves id change before choice request outcome) ∧
    (∃ q, w.scene.node.mailbox.sequencer = some q ∧ ∀ last, w.lastApplied = some last →
      last ≤ q.epoch ∧ ∀ more, ∃ last', (w.play more).lastApplied = some last' ∧ last ≤ last') ∧
    ∀ change last, w.lastApplied = some last → change.epoch < last →
      w.admits (.layout change) = true → ∀ more w', w' = w.play (.start (.layout change) :: more) →
        (∀ event ∈ w'.scene.trace, event.activity ≠ w.nextId) ∧
        ∀ reply b, w'.Returned w.nextId (.layout change) (reply, b) →
          reply = Bootstrapper.outdated change last ∧ b = w.scene.node.bootstrapper := by
  have hmanaged := World.managed_start h
  have hnow : w.Managed := hw ▸ hmanaged.play moves
  obtain ⟨q, hq, hlast⟩ := hnow.governed
  refine ⟨fun id change reason b hr before choice hturn w₁ w₂ hw₁ hw₂ => ?_,
    fun id change b hr => World.Managed.sealed_of_ack h (hw ▸ hr),
    ⟨q, hq.running, fun last hl => ⟨hlast last hl, hnow.lastApplied_play hl⟩⟩,
    fun change last hl hlt hadmits more w' hw' => ?_⟩
  · have hunmoved := hmanaged.turn_of_nack (hw ▸ hr) hturn
    rw [World.play_turn, ← hw₁, ← hw₂] at hunmoved
    exact hunmoved
  · have hsettled : w'.Settled w.nextId (.layout change) _ :=
      hw' ▸ (World.settled_of_lt hnow.attributed hadmits hl hlt).play more
    refine ⟨fun event hmem hself => ?_, fun reply b hr => ?_⟩
    · exact List.not_mem_nil (hsettled.deeds ▸ Scene.mem_deeds.mpr ⟨hmem, hself⟩)
    · exact Prod.mk.inj (hsettled.eq_of_returned hr)

/-- Somebody else has moved the sequencer to the first epoch. A change to the second epoch finds the
unit offline in both of its attempts and is refused. A change to the third epoch replays the log and
is acknowledged. When the change to the second epoch comes again, it is too old. -/
theorem layout_changes_all_or_nothing_in_outage : ∃ node,
    Node.start ["a"] .immediate ⟨1, Epoch.zero, 5⟩ ⟨2, 1, 4⟩ = .ok node ∧
    let turn (id place : Nat) : Move := .advance id ⟨Timestamp.epoch, Duration.zero, 1, place⟩
    let change (epoch : Epoch) : LayoutChange :=
      ⟨epoch, true, Position.zero, ⟨1, by decide⟩, ∅⟩
    let second : Epoch := ⟨2, by decide⟩
    let third : Epoch := ⟨3, by decide⟩
    let moves : List Move :=
      [.start (.bootstrap (.merge ⟨1, by decide⟩ Position.zero ∅)), turn 0 0, turn 0 0,
        .switch 0 true, .start (.layout (change second))] ++ List.replicate 8 (turn 1 0) ++
      [.switch 0 false, .start (.layout (change third))] ++ List.replicate 5 (turn 2 0) ++
        List.replicate 3 (turn 2 1)
    let w := (World.start node).play moves
    let w' := w.play [.start (.layout (change second)), turn 3 0]
    w.Returned 1 (.layout (change second))
        (.nack "replication error: network error: log unit a unreachable", ⟨⟨2, 1, 4⟩, none⟩) ∧
      w.Returned 2 (.layout (change third)) (.ack, ⟨⟨2, 1, 4⟩, some third⟩) ∧
      w'.Returned 3 (.layout (change second))
        (.nack "layout epoch 2 is older than applied epoch 3", ⟨⟨2, 1, 4⟩, some third⟩) ∧
      (∀ before choice, before ++ [.advance 1 choice] <+: moves →
        ((World.start node).play before).scene.Spares
          (((World.start node).play before).step (.advance 1 choice)).scene) ∧
      (∃ before choice request outcome,
        (World.start node).Sealed moves 2 (change third) before choice request outcome) ∧
      ∀ event ∈ w'.scene.trace, event.activity ≠ 3 := by
  have h : Node.start ["a"] .immediate ⟨1, Epoch.zero, 5⟩ ⟨2, 1, 4⟩ = .ok _ := rfl
  refine ⟨_, h, ?_⟩
  intro turn change second third moves w w'
  have hnack : w.Returned 1 (.layout (change second))
      (.nack "replication error: network error: log unit a unreachable", ⟨⟨2, 1, 4⟩, none⟩) := by
    decide +kernel
  have hack : w.Returned 2 (.layout (change third)) (.ack, ⟨⟨2, 1, 4⟩, some third⟩) := by
    decide +kernel
  have hold : w'.Returned 3 (.layout (change second))
      (.nack "layout epoch 2 is older than applied epoch 3", ⟨⟨2, 1, 4⟩, some third⟩) := by
    decide +kernel
  have hid : w.nextId = 3 := by decide +kernel
  obtain ⟨hunmoved, hsealed, -, hsilent⟩ := layout_changes_all_or_nothing h moves w rfl
  have hnone := (hsilent (change second) third (by decide +kernel) (by decide +kernel)
    (by decide +kernel) [turn 3 0] w' rfl).1
  rw [hid] at hnone
  exact ⟨hnack, hack, hold, fun before choice hturn =>
    (hunmoved 1 _ _ _ hnack before choice hturn _ _ rfl rfl).1, hsealed 2 _ _ hack, hnone⟩

end SharedLog
