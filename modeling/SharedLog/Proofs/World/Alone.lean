/-
# Running alone

While nobody else goes on, a program of single actions does one after the other, each in the scene
that the one before has led to. `NodeProgram.Alone` says what it ends with then, and in which scene;
the world gets there by turns of this one activity.
-/
import SharedLog.Proofs.World.Following
import SharedLog.Proofs.World.Progress

namespace SharedLog

variable {s : Scene} {id : Nat} {α β ε : Type}

/-- What a call must satisfy for something to hold of its answer and of the scene after it, while
nobody else goes on. Reads that run together are left out. -/
def NodeCall.Alone (id : Nat) : (c : NodeCall) → (c.Answer → Scene → Prop) → Scene → Prop
  | .act action, post, s => ∀ answer s', s.Acts id action answer s' → post answer s'
  | .readTogether _, _, _ => False

lemma NodeCall.Alone.mono {c : NodeCall} {P Q : c.Answer → Scene → Prop}
    (hPQ : ∀ r s, P r s → Q r s) (h : c.Alone id P s) : c.Alone id Q s := by
  cases c with
  | act action => exact fun answer s' hacts => hPQ _ _ (h answer s' hacts)
  | readTogether reads => exact h.elim

/-- Run alone, a program of the chain ends with a value and in a scene of which `post` holds. -/
def ChainProgram.Alone (id : Nat) (post : α → Scene → Prop) (p : ChainProgram α) (s : Scene) :
    Prop :=
  p.Meets (fun c => NodeCall.Alone id (.act (.onUnit c))) (some 0) post s

lemma ChainProgram.Alone.mono {post post' : α → Scene → Prop} {p : ChainProgram α}
    (h : ChainProgram.Alone id post p s) (hpost : ∀ a s, post a s → post' a s) :
    ChainProgram.Alone id post' p s := by
  refine Program.Meets.mono (fun c P Q s hPQ hP => ?_) hpost h
  exact NodeCall.Alone.mono hPQ hP

namespace NodeProgram

/-- Run alone, a program of a node ends with a value and in a scene of which `post` holds. -/
def Alone (id : Nat) (post : α → Scene → Prop) (p : NodeProgram α) (s : Scene) : Prop :=
  p.Meets (NodeCall.Alone id) (some 0) post s

variable {post : α → Scene → Prop}

lemma Alone.mono {post' : α → Scene → Prop} {p : NodeProgram α} (h : Alone id post p s)
    (hpost : ∀ a s, post a s → post' a s) : Alone id post' p s := by
  refine Program.Meets.mono (fun c P Q s hPQ hP => ?_) hpost h
  exact NodeCall.Alone.mono hPQ hP

lemma alone_bind {post : β → Scene → Prop} {p : NodeProgram α} {f : α → NodeProgram β}
    (h : Alone id (fun a s => Alone id post (f a) s) p s) : Alone id post (p.bind f) s :=
  (Program.meets_bind post p f s).mpr h

lemma alone_ofChain {p : ChainProgram α} (h : p.Alone id post s) : Alone id post (ofChain p) s :=
  (meets_ofChain p).mpr h

lemma alone_onChain {post : Except ServerError α → Scene → Prop} {p : ChainOperation α}
    (h : p.Alone id (fun r s => post (r.mapError ServerError.replication) s) s) :
    Alone id post (onChain p) s :=
  (Program.meets_mapError ..).mpr (alone_ofChain h)

end NodeProgram

namespace World

variable {w : World} {choice : Choice} {job : Job} {post : job.Result → Scene → Prop}

/-- Some turns of an activity lead to its return, with a result and after a scene of which `post`
holds. -/
def Completes (w : World) (id : Nat) (job : Job) (post : job.Result → Scene → Prop) : Prop :=
  ∃ turns result s, Turns id turns ∧ (w.play turns).Returned id job result ∧ post result s ∧
    (w.play turns).scene = { s with node := job.conclude s.node result } ∧
    (w.play turns).nextId = w.nextId

/-- One turn more comes before the others. -/
lemma Completes.of_turn (h : (w.step (.advance id choice)).Completes id job post) :
    w.Completes id job post := by
  obtain ⟨turns, result, s, hturns, hreturned, hpost, hscene, hid⟩ := h
  refine ⟨.advance id choice :: turns, result, s, fun m hm => ?_, hreturned, hpost, hscene, ?_⟩
  · rcases List.mem_cons.mp hm with rfl | hm
    · exact ⟨choice, rfl⟩
    · exact hturns m hm
  · exact hid.trans (advanced_advance w id choice).length_activities

/-- What a program ends with alone, its activity returns after some turns. -/
theorem completes_of_alone {rest : NodeProgram job.Result}
    (ha : w.activities[id]? = some (.running job rest))
    (halone : NodeProgram.Alone id post rest w.scene) : w.Completes id job post := by
  induction rest generalizing w with
  | done result =>
    have hid : id < w.activities.length := (List.getElem?_eq_some_iff.mp ha).1
    have hstep : w.step (.advance id (.prompt 0)) =
        { scene := { w.scene with node := job.conclude w.scene.node result }
          activities := w.activities.set id (.returned job result) } := by
      simp only [step, advance, ha]
    refine ⟨[.advance id (.prompt 0)], result, w.scene, ?_, ?_, halone, ?_, ?_⟩
    · exact fun m hm => ⟨_, List.mem_singleton.mp hm⟩
    · rw [play_cons, play_nil, hstep]
      exact List.getElem?_set_self hid
    · rw [play_cons, play_nil, hstep]
    · rw [play_cons, play_nil, hstep]
      exact List.length_set
  | call c next ih =>
    cases c with
    | act action =>
      have hstep : NodeProgram.advance id (.prompt 0) w.scene (.call (.act action) next) =
          some (_, _) := rfl
      obtain ⟨ha', hscene⟩ := activity_advance ha hstep
      refine (ih _ ha' ?_).of_turn
      rw [hscene]
      exact halone _ _ ⟨_, rfl⟩
    | readTogether reads => exact halone.elim
  | sleep d next ih =>
    have hstep : NodeProgram.advance id (.prompt 0) w.scene (.sleep d next) = some (_, _) := rfl
    obtain ⟨ha', hscene⟩ := activity_advance ha hstep
    refine (ih _ ha' ?_).of_turn
    rw [hscene]
    exact halone _
  | unbounded p ih =>
    have hstep : NodeProgram.advance id (.prompt 0) w.scene (.unbounded p) = some (_, _) := rfl
    obtain ⟨ha', hscene⟩ := activity_advance ha hstep
    refine (ih _ ha' ?_).of_turn
    rw [hscene]
    exact halone _ (by simp)
  | unfinished => cases halone

end World

/-! ## Jobs alone -/

/-- Only a change of layout leaves something behind when it returns. -/
lemma Job.conclude_eq {job : Job} (h : job.isLayout = false) (n : Node) (result : job.Result) :
    job.conclude n result = n := by
  cases job with
  | layout change => cases h
  | _ => rfl

/-- What has been shown of a program that runs alone is true of its rest. -/
lemma NodeProgram.Alone.advance {post : α → Scene → Prop} {p p' : NodeProgram α} {s' : Scene}
    {choice : Choice} (h : Alone id post p s)
    (hadvance : NodeProgram.advance id choice s p = some (p', s')) : Alone id post p' s' := by
  cases steps_of_advance hadvance with
  | act acts => exact h _ _ acts
  | read | failed | collected => exact h.elim
  | sleep => exact h choice.late
  | unbounded => exact h choice.rounds (by simp)

namespace World

variable {w : World} {choice : Choice} {job : Job} {post : job.Result → Scene → Prop}

/-- What is known of a job that runs alone: of what it has still to do, or of what it has ended
with. -/
inductive Stands (w : World) (id : Nat) (job : Job) (post : job.Result → Scene → Prop) : Prop
  | running {rest : NodeProgram job.Result}
      (here : w.activities[id]? = some (.running job rest))
      (alone : NodeProgram.Alone id post rest w.scene) : Stands w id job post
  | returned {result : job.Result} (here : w.Returned id job result)
      (ended : post result w.scene) : Stands w id job post

lemma Stands.advance (hjob : job.isLayout = false) (h : w.Stands id job post) (choice : Choice) :
    (w.step (.advance id choice)).Stands id job post := by
  have hadvanced := advanced_advance w id choice
  simp only [step]
  generalize w.advance id choice = w' at hadvanced
  cases hadvanced with
  | idle => exact h
  | returned running =>
    have hid := (List.getElem?_eq_some_iff.mp running).1
    cases h with
    | running here alone =>
      cases here.symm.trans running
      rw [Job.conclude_eq hjob]
      exact .returned (List.getElem?_set_self hid) alone
    | returned here ended => cases here.symm.trans running
  | onward running step =>
    have hid := (List.getElem?_eq_some_iff.mp running).1
    cases h with
    | running here alone =>
      cases here.symm.trans running
      exact .running (List.getElem?_set_self hid) (alone.advance step)
    | returned here ended => cases here.symm.trans running

lemma Stands.play (hjob : job.isLayout = false) {turns : List Move} (h : w.Stands id job post)
    (hturns : Turns id turns) : (w.play turns).Stands id job post := by
  induction turns generalizing w with
  | nil => exact h
  | cons m turns ih =>
    obtain ⟨choice, rfl⟩ := hturns m List.mem_cons_self
    exact ih (h.advance hjob choice) fun m hm => hturns m (List.mem_cons_of_mem _ hm)

/-- A turn in which the program of an activity goes on. -/
lemma alone_turn {schedule : Nat → Move} {n : Nat} (hchoice : schedule n = .advance id choice)
    {rest rest' : NodeProgram job.Result} {s' : Scene}
    (ha : (w.after schedule n).activities[id]? = some (.running job rest))
    (halone : NodeProgram.Alone id post rest (w.after schedule n).scene)
    (hstep : NodeProgram.advance id choice (w.after schedule n).scene rest = some (rest', s')) :
    (w.after schedule (n + 1)).activities[id]? = some (.running job rest') ∧
      NodeProgram.Alone id post rest' (w.after schedule (n + 1)).scene := by
  obtain ⟨ha', hscene⟩ := activity_advance ha hstep
  rw [after, hchoice, hscene]
  exact ⟨ha', halone.advance hstep⟩

/-- An activity comes to its end if every turn is its own. -/
lemma returns_of_alone {schedule : Nat → Move} {n : Nat}
    (hturns : ∀ n, ∃ choice, schedule n = .advance id choice) {rest : NodeProgram job.Result}
    (ha : (w.after schedule n).activities[id]? = some (.running job rest))
    (halone : NodeProgram.Alone id post rest (w.after schedule n).scene) :
    ∃ m result, (w.after schedule m).Returned id job result := by
  -- down the program, each turn being a step of it
  induction rest generalizing n with
  | done result =>
    have hid := (List.getElem?_eq_some_iff.mp ha).1
    obtain ⟨choice, hchoice⟩ := hturns n
    refine ⟨n + 1, result, ?_⟩
    simp only [Returned, after, hchoice, step, advance, ha]
    exact List.getElem?_set_self hid
  | call c next ih =>
    cases c with
    | act action =>
      obtain ⟨choice, hchoice⟩ := hturns n
      obtain ⟨ha', halone'⟩ := alone_turn hchoice ha halone rfl
      exact ih _ ha' halone'
    | readTogether reads => exact halone.elim
  | sleep d next ih =>
    obtain ⟨choice, hchoice⟩ := hturns n
    obtain ⟨ha', halone'⟩ := alone_turn hchoice ha halone rfl
    exact ih _ ha' halone'
  | unbounded p ih =>
    obtain ⟨choice, hchoice⟩ := hturns n
    obtain ⟨ha', halone'⟩ := alone_turn hchoice ha halone rfl
    exact ih _ ha' halone'
  | unfinished => cases halone

/-- While nobody else goes on, a job that is started now comes to its end, and `post` holds of its
result and of the world it has ended in. -/
structure RunsAlone (w : World) (job : Job) (post : job.Result → World → Prop) : Prop where
  /-- Some number of turns is enough, whatever is left open in them. -/
  returns : ∀ schedule : Nat → Move, (∀ n, ∃ choice, schedule n = .advance w.nextId choice) →
    ∃ n result, ((w.step (.start job)).after schedule n).Returned w.nextId job result
  ends : ∀ turns result, Turns w.nextId turns →
    ((w.step (.start job)).play turns).Returned w.nextId job result →
      post result ((w.step (.start job)).play turns)

lemma RunsAlone.mono {post post' : job.Result → World → Prop} (h : w.RunsAlone job post)
    (hpost : ∀ result w', post result w' → post' result w') : w.RunsAlone job post' where
  returns := h.returns
  ends turns result hturns hreturned := hpost _ _ (h.ends turns result hturns hreturned)

/-- A job has just been started. -/
lemma stands_start {program : NodeProgram job.Result} (hjob : job.isLayout = false)
    (hprogram : job.program? w.scene.node = some program)
    (halone : NodeProgram.Alone w.nextId post program w.scene) :
    (w.step (.start job)).Stands w.nextId job post := by
  rw [step_start_eq hjob hprogram]
  exact .running List.getElem?_concat_length halone

/-- What a job's program ends with alone, the job returns. -/
theorem runsAlone_of_alone {program : NodeProgram job.Result} (hjob : job.isLayout = false)
    (hprogram : job.program? w.scene.node = some program)
    (halone : NodeProgram.Alone w.nextId post program w.scene) :
    w.RunsAlone job fun result w' => post result w'.scene where
  returns schedule hturns := by
    have hstart := step_start_eq hjob hprogram
    have ha : ((w.step (.start job)).after schedule 0).activities[w.nextId]? =
        some (.running job program) := by
      rw [after, hstart]
      exact List.getElem?_concat_length
    have halone' : NodeProgram.Alone w.nextId post program
        ((w.step (.start job)).after schedule 0).scene := by
      rw [after, hstart]
      exact halone
    exact returns_of_alone hturns ha halone'
  ends turns result hturns hreturned := by
    have hstands := (stands_start hjob hprogram halone).play hjob hturns
    cases hstands with
    | running here alone => cases here.symm.trans hreturned
    | returned here ended =>
      cases here.symm.trans hreturned
      exact ended

lemma runsAlone_ofChain {program : ChainProgram job.Result} (hjob : job.isLayout = false)
    (hprogram : job.program? w.scene.node = some (.ofChain program))
    (halone : program.Alone w.nextId post w.scene) :
    w.RunsAlone job fun result w' => post result w'.scene :=
  runsAlone_of_alone hjob hprogram (NodeProgram.alone_ofChain halone)

end World

end SharedLog
