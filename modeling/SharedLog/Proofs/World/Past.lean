/-
# What happened before

Every event of a trace was an action of its activity, at some point of the interleaving. So a
request that failed did so because the unit was offline just then.
-/
import Mathlib.Data.List.Induction
import SharedLog.Proofs.World.Keeping

namespace SharedLog

variable {s s' : Scene} {w : World} {m : Move} {moves : List Move} {id : Nat} {choice : Choice}
  {α : Type}

/-! ## What a move does -/

lemma ChainProgram.scene_advance {p p' : ChainProgram α}
    (h : ChainProgram.advance id choice s p = some (p', s')) :
    s' = s ∨ ∃ action answer, s.Acts id action answer s' := by
  cases steps_of_advance h with
  | call acts => exact .inr ⟨_, _, acts⟩
  | sleep | unbounded => exact .inl rfl

/-- A step of a program does at most one action. -/
lemma NodeProgram.scene_advance {p p' : NodeProgram α}
    (h : NodeProgram.advance id choice s p = some (p', s')) :
    s' = s ∨ ∃ action answer, s.Acts id action answer s' := by
  cases steps_of_advance h with
  | act acts => exact .inr ⟨_, _, acts⟩
  | read here step => exact ChainProgram.scene_advance step
  | failed | collected | sleep | unbounded => exact .inl rfl

/-- No action brings a client. -/
lemma Scene.Numbered.of_acts {action : Action} {answer : action.Answer} (h : s.Numbered)
    (hacts : s.Acts id action answer s') : s'.Numbered := by
  rw [Numbered, hacts.clients, hacts.length_epochs]
  exact h

namespace World

/-- An activity that goes on does one action or none. -/
lemma Advanced.calm_or_acts {w' : World} (h : Advanced w id choice w') :
    w.scene.Calm w'.scene ∨
      w.Runs id ∧ ∃ action answer, w.scene.Acts id action answer w'.scene := by
  cases h with
  | returned running => exact .inl (Scene.calm_conclude ..)
  | onward running step =>
    rcases NodeProgram.scene_advance step with rfl | hacts
    · exact .inl (Scene.calm_refl _)
    · exact .inr ⟨⟨_, _, running⟩, hacts⟩
  | idle => exact .inl (Scene.calm_refl _)

/-- A move does nothing that lasts, or it is an action of the activity whose turn it is. -/
lemma calm_or_acts (w : World) (m : Move) : w.scene.Calm (w.step m).scene ∨
    ∃ id choice action answer, m = .advance id choice ∧ w.Runs id ∧
      w.scene.Acts id action answer (w.step m).scene := by
  cases m with
  | start job =>
    rcases step_start w job with heq | ⟨program, -, heq⟩ <;> rw [heq] <;>
      exact .inl (Scene.calm_refl _)
  | advance id choice =>
    refine (advanced_advance w id choice).calm_or_acts.imp_right ?_
    exact fun ⟨hruns, action, answer, hacts⟩ => ⟨id, choice, action, answer, rfl, hruns, hacts⟩
  | drop id =>
    rcases step_drop w id with heq | ⟨job, rest, -, heq⟩ <;> rw [heq] <;>
      exact .inl (Scene.calm_refl _)
  | switch place offline => exact .inl (w.scene.calm_switch place offline)
  | join epoch n => exact .inl (w.scene.calm_join epoch n)

/-! ## Events of the past -/

/-- An event that was added to the trace in the course of some moves was an action of its activity,
done when it was the activity's turn. -/
lemma exists_acts_of_mem_trace {event : Event} (h : event ∈ (w.play moves).scene.trace)
    (hnew : event ∉ w.scene.trace) :
    ∃ before choice, before ++ [.advance event.activity choice] <+: moves ∧
      (w.play before).scene.Acts event.activity event.action event.answer
        (w.play (before ++ [.advance event.activity choice])).scene := by
  induction moves using List.reverseRecOn with
  | nil => exact absurd h hnew
  | append_singleton moves m ih =>
    rw [play_append, play_cons, play_nil] at h
    have hearlier : event ∈ (w.play moves).scene.trace →
        ∃ before choice, before ++ [.advance event.activity choice] <+: moves ++ [m] ∧
          (w.play before).scene.Acts event.activity event.action event.answer
            (w.play (before ++ [.advance event.activity choice])).scene := by
      intro hmem
      obtain ⟨before, choice, hbefore, hacts⟩ := ih hmem
      exact ⟨before, choice, hbefore.trans (List.prefix_append ..), hacts⟩
    rcases (w.play moves).calm_or_acts m with hcalm | ⟨id, choice, action, answer, rfl, -, hacts⟩
    · rw [hcalm.trace] at h
      exact hearlier h
    · rw [hacts.trace_eq, List.mem_append, List.mem_singleton] at h
      rcases h with hmem | rfl
      · exact hearlier hmem
      · refine ⟨moves, choice, List.prefix_rfl, ?_⟩
        rw [play_append, play_cons, play_nil]
        exact hacts

/-- In the course of some moves an activity turned to a unit that was offline just then, and the
error is that unit's. -/
def MetOffline (w : World) (moves : List Move) (id : Nat) (e : ReplicationError) : Prop :=
  ∃ before choice, before ++ [.advance id choice] <+: moves ∧
    ∃ unit ∈ (w.play before).scene.node.units,
      unit.offline = true ∧ e = LogUnit.unreachable unit.name

/-! ## Who has done what -/

/-- Everything was done by activities that were there. -/
def Attributed (w : World) : Prop := ∀ event ∈ w.scene.trace, event.activity < w.nextId

lemma Attributed.step (h : w.Attributed) (m : Move) : (w.step m).Attributed := by
  intro event hmem
  have hnext := nextId_le_step w m
  rcases w.calm_or_acts m with
    hcalm | ⟨id, choice, action, answer, -, ⟨job, rest, hruns⟩, hacts⟩
  · exact Nat.lt_of_lt_of_le (h event (hcalm.trace ▸ hmem)) hnext
  · rw [hacts.trace_eq, List.mem_append, List.mem_singleton] at hmem
    rcases hmem with hmem | rfl
    · exact Nat.lt_of_lt_of_le (h event hmem) hnext
    · exact Nat.lt_of_lt_of_le (List.getElem?_eq_some_iff.mp hruns).1 hnext

lemma Attributed.play (h : w.Attributed) (moves : List Move) : (w.play moves).Attributed :=
  List.foldlRecOn moves World.step h fun _ hw m _ => hw.step m

lemma attributed_start (node : Node) : (World.start node).Attributed := by
  intro event hmem
  cases hmem

/-- Clients are numbered in order at any time. -/
lemma numbered_play (h : w.scene.Numbered) (moves : List Move) :
    (w.play moves).scene.Numbered := by
  induction moves generalizing w with
  | nil => exact h
  | cons m moves ih =>
    refine ih ?_
    rcases w.calm_or_acts m with hcalm | ⟨_, _, _, _, -, -, hacts⟩
    · exact hcalm.numbered h
    · exact h.of_acts hacts

end World

end SharedLog
