/-
# One activity among others

Of one activity it may be known that it keeps a law, while the others are only known to do nothing
that the law does not foresee. Then what has been shown of the activity stays true, and all that it
does is allowed.
-/
import SharedLog.Proofs.World.Past

namespace SharedLog

variable {L : Law} {id : Nat} {s s' : Scene} {w : World} {moves : List Move} {choice : Choice}
  {α : Type}

/-! ## Steps -/

namespace Law

variable {post : α → Scene → Prop}

lemma ChainMeets.allowed {p p' : ChainProgram α} (h : L.ChainMeets id post p s)
    (hholds : L.holds s) (hadvance : ChainProgram.advance id choice s p = some (p', s')) :
    s' = s ∨ ∃ action answer, s.Acts id action answer s' ∧ L.allows action s := by
  cases ChainProgram.steps_of_advance hadvance with
  | call acts => exact .inr ⟨_, _, acts, (h s (L.later_refl s) hholds).1⟩
  | sleep | unbounded => exact .inl rfl

/-- A step of a program that keeps a law does nothing but what is allowed. -/
lemma Meets.allowed {p p' : NodeProgram α} (h : L.Meets id post p s) (hholds : L.holds s)
    (hadvance : NodeProgram.advance id choice s p = some (p', s')) :
    s' = s ∨ ∃ action answer, s.Acts id action answer s' ∧ L.allows action s := by
  cases NodeProgram.steps_of_advance hadvance with
  | act acts => exact .inr ⟨_, _, acts, (h s (L.later_refl s) hholds).1⟩
  | read here step =>
    obtain ⟨each, -, hreads, -⟩ := h
    exact (hreads _ _ here).allowed hholds step
  | failed | collected | sleep | unbounded => exact .inl rfl

end Law

/-! ## Interleavings -/

namespace World

/-- In the course of some moves nothing happens that a law does not foresee. -/
structure Foresees (L : Law) (w : World) (moves : List Move) : Prop where
  holds : ∀ before, before <+: moves → L.holds (w.play before).scene
  later : ∀ before m, before ++ [m] <+: moves →
    L.later (w.play before).scene (w.play (before ++ [m])).scene

lemma Foresees.earlier {before : List Move} (h : w.Foresees L moves) (hbefore : before <+: moves) :
    w.Foresees L before :=
  ⟨fun _ h' => h.holds _ (h'.trans hbefore), fun _ _ h' => h.later _ _ (h'.trans hbefore)⟩

variable {post : Nat → Outcome} {a : Activity}

/-- What has been shown of an activity stays true while nothing unforeseen happens. -/
theorem Foresees.fulfils (h : w.Foresees L moves) (hL : L.Unconditional)
    (hpost : ∀ job, L.Lasting (post id job)) (ha : w.activities[id]? = some a)
    (hfulfils : L.Fulfils id (post id) a w.scene) :
    ∃ a', (w.play moves).activities[id]? = some a' ∧
      L.Fulfils id (post id) a' (w.play moves).scene := by
  induction moves using List.reverseRecOn with
  | nil => exact ⟨a, ha, hfulfils⟩
  | append_singleton moves m ih =>
    obtain ⟨a', ha', hfulfils'⟩ := ih (h.earlier (List.prefix_append ..))
    have hlater := h.later moves m List.prefix_rfl
    have hholds' := h.holds _ List.prefix_rfl
    rw [play_append, play_cons, play_nil] at hlater hholds' ⊢
    refine fulfils_step hpost (h.holds moves (List.prefix_append ..)) ?_ hlater hholds'
      (fun event _ _ => hL.heeds ..) ha' hfulfils'
    rintro choice - least hleast
    rw [hL.rounds] at hleast
    cases hleast

/-- All that an activity does is allowed, if it keeps the law and nothing unforeseen happens. -/
theorem Foresees.allowed (h : w.Foresees L moves) (hL : L.Unconditional)
    (hpost : ∀ job, L.Lasting (post id job)) (ha : w.activities[id]? = some a)
    (hfulfils : L.Fulfils id (post id) a w.scene) {before : List Move}
    (hturn : before ++ [.advance id choice] <+: moves) :
    (w.play before).scene.Calm (w.play (before ++ [.advance id choice])).scene ∨
      ∃ action answer, (w.play before).scene.Acts id action answer
        (w.play (before ++ [.advance id choice])).scene ∧
        L.allows action (w.play before).scene := by
  have hbefore := (List.prefix_append ..).trans hturn
  obtain ⟨a', ha', hfulfils'⟩ := (h.earlier hbefore).fulfils hL hpost ha hfulfils
  rw [play_append, play_cons, play_nil]
  have hadvanced := advanced_advance (w.play before) id choice
  simp only [step]
  generalize (w.play before).advance id choice = w' at hadvanced
  cases hadvanced with
  | returned running => exact .inl (Scene.calm_conclude ..)
  | onward running step =>
    obtain rfl := Option.some.inj (ha'.symm.trans running)
    rcases Law.Meets.allowed hfulfils' (h.holds before hbefore) step with rfl | hacts
    · exact .inl (Scene.calm_refl _)
    · exact .inr hacts
  | idle => exact .inl (Scene.calm_refl _)

/-! ## Activities alone -/

/-- All moves are turns of one activity. -/
def Turns (id : Nat) (moves : List Move) : Prop := ∀ m ∈ moves, ∃ choice, m = .advance id choice

/-- Turns of an activity start nothing. -/
lemma Turns.starts (h : Turns id moves) {jobs : Job → Prop} : Starts moves jobs := by
  intro job hjob
  obtain ⟨choice, heq⟩ := h _ hjob
  cases heq

/-- What has been shown of an activity is true after a turn of its own, and the law was kept. -/
lemma fulfils_turn {post : Outcome} (hL : L.Unconditional) (hpost : ∀ job, L.Lasting (post job))
    (hholds : L.holds w.scene) (ha : w.activities[id]? = some a)
    (hfulfils : L.Fulfils id post a w.scene) (choice : Choice) :
    ∃ a', (w.step (.advance id choice)).activities[id]? = some a' ∧
      L.Fulfils id post a' (w.step (.advance id choice)).scene ∧
      L.later w.scene (w.step (.advance id choice)).scene ∧
      L.holds (w.step (.advance id choice)).scene := by
  have hadvanced := advanced_advance w id choice
  have hpatient : Patient L id (.advance id choice) := by
    intro _ _ least hleast
    rw [hL.rounds] at hleast
    cases hleast
  obtain ⟨hlater, hholds'⟩ := hadvanced.scene hholds hpatient fun a' ha' => by
    obtain rfl := Option.some.inj (ha.symm.trans ha')
    exact hfulfils
  obtain ⟨a', ha', hfulfils'⟩ := hadvanced.fulfils hpost hholds hpatient
    (fun _ _ _ => hL.heeds ..) ha hfulfils
  exact ⟨a', ha', hfulfils', hlater, hholds'⟩

/-- While nobody else goes on, what has been shown of an activity stays true, and the law is
kept. -/
theorem fulfils_of_turns {post : Outcome} (hL : L.Unconditional)
    (hpost : ∀ job, L.Lasting (post job)) (hturns : Turns id moves) (hholds : L.holds w.scene)
    (ha : w.activities[id]? = some a) (hfulfils : L.Fulfils id post a w.scene) :
    ∃ a', (w.play moves).activities[id]? = some a' ∧
      L.Fulfils id post a' (w.play moves).scene ∧ L.later w.scene (w.play moves).scene ∧
      L.holds (w.play moves).scene := by
  induction moves generalizing w a with
  | nil => exact ⟨a, ha, hfulfils, L.later_refl _, hholds⟩
  | cons m moves ih =>
    obtain ⟨choice, rfl⟩ := hturns m List.mem_cons_self
    obtain ⟨a₁, ha₁, hfulfils₁, hlater₁, hholds₁⟩ :=
      fulfils_turn hL hpost hholds ha hfulfils choice
    obtain ⟨a', ha', hfulfils', hlater', hholds'⟩ :=
      ih (fun m hm => hturns m (List.mem_cons_of_mem _ hm)) hholds₁ ha₁ hfulfils₁
    exact ⟨a', ha', hfulfils', L.later_trans hlater₁ hlater', hholds'⟩

/-- While nobody else goes on, whatever is kept by all that an activity may do is kept. -/
theorem holds_of_turns {good : Scene → Prop} {post : Outcome} (hL : L.Unconditional)
    (hpost : ∀ job, L.Lasting (post job)) (hacts : ∀ {s s' action} {answer : action.Answer},
      L.holds s → good s → L.allows action s → s.Acts id action answer s' → good s')
    (hconclude : ∀ {s} (job : Job) (result : job.Result), good s →
      good { s with node := job.conclude s.node result })
    (hturns : Turns id moves) (hholds : L.holds w.scene) (hgood : good w.scene)
    (ha : w.activities[id]? = some a) (hfulfils : L.Fulfils id post a w.scene) :
    L.holds (w.play moves).scene ∧ good (w.play moves).scene := by
  induction moves generalizing w a with
  | nil => exact ⟨hholds, hgood⟩
  | cons m moves ih =>
    obtain ⟨choice, rfl⟩ := hturns m List.mem_cons_self
    have hgood' : good (w.step (.advance id choice)).scene := by
      have hadvanced := advanced_advance w id choice
      simp only [step]
      generalize w.advance id choice = w' at hadvanced
      cases hadvanced with
      | returned running => exact hconclude _ _ hgood
      | idle => exact hgood
      | onward running step =>
        obtain rfl := Option.some.inj (ha.symm.trans running)
        rcases Law.Meets.allowed hfulfils hholds step with rfl | ⟨action, answer, hdone, hallows⟩
        · exact hgood
        · exact hacts hholds hgood hallows hdone
    obtain ⟨a', ha', hfulfils', -, hholds'⟩ := fulfils_turn hL hpost hholds ha hfulfils choice
    exact ih (fun m hm => hturns m (List.mem_cons_of_mem _ hm)) hholds' hgood' ha' hfulfils'

end World

end SharedLog
