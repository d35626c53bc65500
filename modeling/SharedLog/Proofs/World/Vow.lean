/-
# What an activity keeps to

Some of what is true of an activity's deeds is true of them at any moment, and not only when the
activity has returned: also of one that is still under way, or that was dropped. A program that
keeps to such a condition does so after each of its actions, whatever it is answered
(`NodeProgram.Vows`). Then so does every activity that runs it, in every interleaving.
-/
import SharedLog.Proofs.World.Course

namespace SharedLog

variable {s s' : Scene} {w : World} {moves : List Move} {id : Nat} {choice : Choice}
  {always : List Event → Prop} {past : List Event} {α β ε ε' : Type}

/-- What a call must satisfy for the deeds to stay as they should be, and for something to hold of
the answer and of what has been done then. Of reads that run together it is only said that they ask
nobody but units. -/
def NodeCall.Vows (id : Nat) (always : List Event → Prop) :
    (c : NodeCall) → (c.Answer → List Event → Prop) → List Event → Prop
  | .act action, post, past => ∀ answer,
    always (past ++ [⟨id, action, answer⟩]) ∧ post answer (past ++ [⟨id, action, answer⟩])
  | .readTogether _, post, past => ∀ more answer, (∀ event ∈ more, event.OnUnit) →
    always (past ++ more) ∧ post answer (past ++ more)

lemma NodeCall.Vows.mono {c : NodeCall} {P Q : c.Answer → List Event → Prop}
    (hPQ : ∀ r past, P r past → Q r past) (h : NodeCall.Vows id always c P past) :
    NodeCall.Vows id always c Q past := by
  cases c with
  | act action => exact fun answer => (h answer).imp_right (hPQ _ _)
  | readTogether reads => exact fun more answer hmore => (h more answer hmore).imp_right (hPQ _ _)

/-- An activity that runs a program, and has done what is in `past` before, has always done what it
should have. It ends with a value and with deeds of which `post` holds. -/
def NodeProgram.Vows (id : Nat) (always : List Event → Prop) (post : α → List Event → Prop)
    (p : NodeProgram α) (past : List Event) : Prop :=
  p.Meets (NodeCall.Vows id always) none post past

namespace NodeProgram

namespace Vows

variable {p : NodeProgram α} {mid post : α → List Event → Prop}

lemma mono (h : Vows id always mid p past) (hpost : ∀ a past, mid a past → post a past) :
    Vows id always post p past := by
  refine Program.Meets.mono (fun c P Q past hPQ hP => ?_) hpost h
  exact NodeCall.Vows.mono hPQ hP

lemma bind {post : β → List Event → Prop} {f : α → NodeProgram β} (h : Vows id always mid p past)
    (hf : ∀ a past, mid a past → Vows id always post (f a) past) :
    Vows id always post (p.bind f) past :=
  (Program.meets_bind ..).mpr (h.mono hf)

lemma andThen {p : NodeProgram (Except ε α)} {f : α → NodeProgram (Except ε β)}
    {post : Except ε β → List Event → Prop} {mid : Except ε α → List Event → Prop}
    (h : Vows id always mid p past)
    (hok : ∀ a past, mid (.ok a) past → Vows id always post (f a) past)
    (herror : ∀ e past, mid (.error e) past → post (.error e) past) :
    Vows id always post (p.andThen f) past := by
  refine h.bind fun r past hr => ?_
  cases r with
  | ok a => exact hok a past hr
  | error e => exact herror e past hr

lemma mapError {p : NodeProgram (Except ε α)} {g : ε → ε'}
    {post : Except ε' α → List Event → Prop}
    (h : Vows id always (fun r past => post (r.mapError g) past) p past) :
    Vows id always post (p.mapError g) past :=
  (Program.meets_mapError ..).mpr h

/-- What has been done is as it should be at the end as well. -/
lemma kept (h : Vows id always mid p past) (hpast : always past) :
    Vows id always (fun a past => mid a past ∧ always past) p past := by
  refine Program.Meets.kept h hpast (fun _ _ _ _ hPQ hP => NodeCall.Vows.mono hPQ hP)
    fun c P past _ hP => ?_
  cases c with
  | act action => exact fun answer => ⟨(hP answer).1, (hP answer).2, (hP answer).1⟩
  | readTogether reads => exact fun more answer hmore =>
      ⟨(hP more answer hmore).1, (hP more answer hmore).2, (hP more answer hmore).1⟩

end Vows

/-- A program of the chain adds requests to units, and keeps to all that these do not disturb. -/
lemma vows_ofChain {p : ChainProgram α} (hpast : always past)
    (hkeep : ∀ past event, always past → event.OnUnit → always (past ++ [event])) :
    Vows id always (fun _ past' => ∃ more, (∀ event ∈ more, event.OnUnit) ∧ past' = past ++ more)
      (ofChain p) past := by
  induction p generalizing past with
  | done a => exact ⟨[], List.forall_mem_nil _, (List.append_nil _).symm⟩
  | call c next ih =>
    intro answer
    have hevent : Event.OnUnit ⟨id, .onUnit c, answer⟩ := ⟨c, rfl⟩
    have hnext := hkeep past _ hpast hevent
    refine ⟨hnext, (ih answer hnext).mono fun _ past' ⟨more, hmore, heq⟩ => ?_⟩
    refine ⟨⟨id, .onUnit c, answer⟩ :: more, fun event hmem => ?_, ?_⟩
    · rcases List.mem_cons.mp hmem with rfl | hmem
      · exact hevent
      · exact hmore event hmem
    · rw [heq, List.append_assoc]
      rfl
  | sleep d next ih => exact fun late => ih _ hpast
  | unbounded p ih => exact fun n _ => ih n hpast
  | unfinished => rfl

/-- Reads that run together keep to all that requests to units do not disturb. -/
lemma vows_readTogether {reads : List (ChainOperation (Position × LogData))} (hpast : always past)
    (hkeep : ∀ past event, always past → event.OnUnit → always (past ++ [event])) :
    Vows id always (fun _ _ => True) (Program.ask (NodeCall.readTogether reads)) past := by
  intro more answer hmore
  refine ⟨?_, trivial⟩
  induction more using List.reverseRecOn with
  | nil => rwa [List.append_nil]
  | append_singleton more event ih =>
    rw [← List.append_assoc]
    exact hkeep _ _ (ih fun e he => hmore e (List.mem_append_left _ he)) (hmore event (by simp))

/-- What has been shown of a program is true of the rest, and what was done in between is as it
should be. -/
lemma Vows.advance {post : α → List Event → Prop} {p p' : NodeProgram α}
    (h : Vows id always post p (s.deeds id)) (halways : always (s.deeds id))
    (hadvance : NodeProgram.advance id choice s p = some (p', s')) :
    Vows id always post p' (s'.deeds id) ∧ always (s'.deeds id) := by
  cases steps_of_advance hadvance with
  | act acts =>
    rw [acts.deeds_self]
    exact (h _).symm
  | read here step =>
    obtain ⟨done, hdone, hdeeds⟩ := ChainProgram.deeds_of_advance step
    rw [hdeeds]
    refine ⟨fun more answer hmore => ?_, (h done (.error (.network "")) hdone).1⟩
    rw [List.append_assoc]
    exact h (done ++ more) answer fun event hmem =>
      (List.mem_append.mp hmem).elim (hdone event) (hmore event)
  | failed | collected =>
    -- nothing more is done for the reads
    refine ⟨?_, halways⟩
    rw [← List.append_nil (s.deeds id)]
    exact (h [] _ nofun).2
  | sleep => exact ⟨h choice.late, halways⟩
  | unbounded => exact ⟨h choice.rounds (by simp), halways⟩

end NodeProgram

/-! ## In every interleaving -/

namespace World

/-- An activity keeps to what the program of its job keeps to. -/
theorem vowed {node : Node} {always : Nat → Job → List Event → Prop}
    (hnil : ∀ id job, always id job [])
    (hvows : ∀ id (job : Job) moves (program : NodeProgram job.Result),
      job.program? ((World.start node).play moves).scene.node = some program →
      program.Vows id (always id job) (fun _ _ => True) []) (moves : List Move) {a : Activity}
    (ha : ((World.start node).play moves).activities[id]? = some a) :
    always id a.job (((World.start node).play moves).scene.deeds id) := by
  -- while the activity is under way, the rest of its program has to be followed as well
  have hrest : always id a.job (((World.start node).play moves).scene.deeds id) ∧
      ∀ job rest, a = .running job rest → rest.Vows id (always id job) (fun _ _ => True)
        (((World.start node).play moves).scene.deeds id) := by
    induction moves using List.reverseRecOn generalizing a with
    | nil => cases ha
    | append_singleton moves m ih =>
      rw [play_append, play_cons, play_nil] at ha ⊢
      cases became ha with
      | same before deeds => exact deeds ▸ ih before
      | onward running step =>
        obtain ⟨halways, hrest⟩ := ih running
        obtain ⟨hrest', halways'⟩ := (hrest _ _ rfl).advance halways step
        refine ⟨halways', ?_⟩
        rintro job rest ⟨⟩
        exact hrest'
      | returned turn running deeds => exact ⟨deeds ▸ (ih running).1, fun _ _ h => by cases h⟩
      | dropped running deeds => exact ⟨deeds ▸ (ih running).1, fun _ _ h => by cases h⟩
      | started start new admits program? scene =>
        rw [scene, new, ((attributed_start node).play moves).deeds_nextId]
        refine ⟨hnil _ _, ?_⟩
        rintro job rest ⟨⟩
        exact hvows _ _ moves _ program?
  exact hrest.1

end World

end SharedLog
