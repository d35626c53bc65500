/-
# What an activity has done

The deeds of an activity are its events of the trace, in their order. Nobody else adds to them, so
that what is said of a program's own deeds needs no law: one goes through the program with the list
of what has been done for it so far, and any answer may come (`NodeProgram.Leads`). In a world the
list is the one that is found in the trace.

What a move makes of one activity is said once (`World.Became`).
-/
import SharedLog.Proofs.World.Past

namespace SharedLog

variable {s s' : Scene} {w : World} {m : Move} {moves : List Move} {id : Nat} {choice : Choice}
  {α β ε : Type} {past : List Event}

/-! ## Deeds -/

/-- Where an element of a filtered list comes from. -/
lemma exists_split_of_filter {α : Type} {p : α → Bool} {l a b : List α} {x : α}
    (h : l.filter p = a ++ x :: b) :
    ∃ l₁ l₂, l = l₁ ++ x :: l₂ ∧ l₁.filter p = a ∧ l₂.filter p = b := by
  obtain ⟨l₁, l', rfl, hl₁, hl'⟩ := List.filter_eq_append_iff.mp h
  obtain ⟨l₂, l₃, rfl, hl₂, -, hl₃⟩ := List.filter_eq_cons_iff.mp hl'
  refine ⟨l₁ ++ l₂, l₃, (List.append_assoc ..).symm, ?_, hl₃⟩
  rw [List.filter_append, hl₁, List.filter_eq_nil_iff.mpr hl₂, List.append_nil]

/-- What an activity has done so far, in order. -/
def Scene.deeds (s : Scene) (id : Nat) : List Event :=
  s.trace.filter fun event => event.activity = id

namespace Scene

lemma mem_deeds {event : Event} : event ∈ s.deeds id ↔ event ∈ s.trace ∧ event.activity = id := by
  simp [deeds]

lemma Calm.deeds (h : s.Calm s') (id : Nat) : s'.deeds id = s.deeds id := by
  rw [Scene.deeds, Scene.deeds, h.trace]

namespace Acts

variable {action : Action} {answer : action.Answer}

lemma deeds_self (h : s.Acts id action answer s') :
    s'.deeds id = s.deeds id ++ [⟨id, action, answer⟩] := by
  simp [deeds, h.trace_eq]

lemma deeds_of_ne {other : Nat} (h : s.Acts other action answer s') (hne : other ≠ id) :
    s'.deeds id = s.deeds id := by
  simp [deeds, h.trace_eq, hne]

end Acts

end Scene

/-! ## Programs and what is done for them -/

/-- A request to a unit. -/
def Event.OnUnit (e : Event) : Prop := ∃ call, e.action = .onUnit call

/-- What a call must satisfy for something to hold of its answer and of what has been done then. Of
reads that run together it is only said that they ask nobody but units. -/
def NodeCall.Leads (id : Nat) :
    (c : NodeCall) → (c.Answer → List Event → Prop) → List Event → Prop
  | .act action, post, past => ∀ answer, post answer (past ++ [⟨id, action, answer⟩])
  | .readTogether _, post, past =>
    ∀ more answer, (∀ event ∈ more, event.OnUnit) → post answer (past ++ more)

/-- An activity that runs a program ends with a value and with deeds of which `post` holds, if it
has done what is in `past` before. -/
def NodeProgram.Leads (id : Nat) (post : α → List Event → Prop) (p : NodeProgram α)
    (past : List Event) : Prop := p.Meets (NodeCall.Leads id) none post past

lemma NodeCall.Leads.mono {c : NodeCall} {P Q : c.Answer → List Event → Prop}
    (hPQ : ∀ r past, P r past → Q r past) (h : NodeCall.Leads id c P past) :
    NodeCall.Leads id c Q past := by
  cases c with
  | act action => exact fun answer => hPQ _ _ (h answer)
  | readTogether reads => exact fun more answer hmore => hPQ _ _ (h more answer hmore)

namespace NodeProgram

namespace Leads

variable {p : NodeProgram α} {mid : α → List Event → Prop}

lemma mono {post : α → List Event → Prop} (h : Leads id mid p past)
    (hpost : ∀ a past, mid a past → post a past) : Leads id post p past := by
  refine Program.Meets.mono (fun c P Q past hPQ hP => ?_) hpost h
  exact NodeCall.Leads.mono hPQ hP

lemma bind {post : β → List Event → Prop} {f : α → NodeProgram β} (h : Leads id mid p past)
    (hf : ∀ a past, mid a past → Leads id post (f a) past) : Leads id post (p.bind f) past :=
  (Program.meets_bind ..).mpr (h.mono hf)

lemma andThen {p : NodeProgram (Except ε α)} {f : α → NodeProgram (Except ε β)}
    {post : Except ε β → List Event → Prop} {mid : Except ε α → List Event → Prop}
    (h : Leads id mid p past) (hok : ∀ a past, mid (.ok a) past → Leads id post (f a) past)
    (herror : ∀ e past, mid (.error e) past → post (.error e) past) :
    Leads id post (p.andThen f) past := by
  refine h.bind fun r past hr => ?_
  cases r with
  | ok a => exact hok a past hr
  | error e => exact herror e past hr

end Leads

end NodeProgram

/-- A step of a program of the chain is a request to a unit or nothing. -/
lemma ChainProgram.deeds_of_advance {p p' : ChainProgram α}
    (h : ChainProgram.advance id choice s p = some (p', s')) :
    ∃ more, (∀ event ∈ more, event.OnUnit) ∧ s'.deeds id = s.deeds id ++ more := by
  cases steps_of_advance h with
  | call acts =>
    refine ⟨[_], fun event hmem => ?_, acts.deeds_self⟩
    exact List.mem_singleton.mp hmem ▸ ⟨_, rfl⟩
  | sleep | unbounded => exact ⟨[], nofun, (List.append_nil _).symm⟩

/-- What has been shown of a program is true of the rest, and of what has been done then. -/
lemma NodeProgram.Leads.advance {post : α → List Event → Prop} {p p' : NodeProgram α}
    (h : Leads id post p (s.deeds id))
    (hadvance : NodeProgram.advance id choice s p = some (p', s')) :
    Leads id post p' (s'.deeds id) := by
  cases steps_of_advance hadvance with
  | act acts =>
    rw [acts.deeds_self]
    exact h _
  | read here step =>
    obtain ⟨done, hdone, hdeeds⟩ := ChainProgram.deeds_of_advance step
    intro more answer hmore
    rw [hdeeds, List.append_assoc]
    exact h (done ++ more) answer fun event hmem =>
      (List.mem_append.mp hmem).elim (hdone event) (hmore event)
  | failed | collected =>
    -- nothing more is done for the reads
    rw [← List.append_nil (s.deeds id)]
    exact h [] _ nofun
  | sleep => exact h choice.late
  | unbounded => exact h choice.rounds nofun

/-! ## What a move makes of an activity -/

namespace World

/-- What an activity is after a move, and how it became so. -/
inductive Became (w : World) (m : Move) (w' : World) (id : Nat) : Activity → Prop
  | same {a : Activity} (before : w.activities[id]? = some a)
      (deeds : w'.scene.deeds id = w.scene.deeds id) : Became w m w' id a
  | onward {job : Job} {rest rest' : NodeProgram job.Result} {choice : Choice}
      (running : w.activities[id]? = some (.running job rest))
      (step : NodeProgram.advance id choice w.scene rest = some (rest', w'.scene)) :
      Became w m w' id (.running job rest')
  | returned {job : Job} {result : job.Result} {choice : Choice} (turn : m = .advance id choice)
      (running : w.activities[id]? = some (.running job (.done result)))
      (deeds : w'.scene.deeds id = w.scene.deeds id) : Became w m w' id (.returned job result)
  | dropped {job : Job} {rest : NodeProgram job.Result}
      (running : w.activities[id]? = some (.running job rest))
      (deeds : w'.scene.deeds id = w.scene.deeds id) : Became w m w' id (.dropped job)
  | started {job : Job} {program : NodeProgram job.Result} (start : m = .start job)
      (new : id = w.nextId) (admits : w.admits job = true)
      (program? : job.program? w.scene.node = some program) (scene : w'.scene = w.scene) :
      Became w m w' id (.running job program)

/-- A job that has to wait is not started. -/
lemma step_start_of_not_admits {job : Job} (h : w.admits job = false) :
    w.step (.start job) = w := by
  simp only [step, h]

/-- An activity does nothing but in its turn. -/
lemma deeds_step (hturn : ∀ choice, m ≠ .advance id choice) :
    (w.step m).scene.deeds id = w.scene.deeds id := by
  rcases w.calm_or_acts m with hcalm | ⟨other, choice, action, answer, rfl, -, hacts⟩
  · exact hcalm.deeds id
  · refine hacts.deeds_of_ne ?_
    rintro rfl
    exact hturn choice rfl

lemma Advanced.became {w' : World} {a : Activity} (h : Advanced w id choice w')
    (ha : w'.activities[id]? = some a) : Became w (.advance id choice) w' id a := by
  have hset : ∀ {a' : Activity}, w.activities[id]? = some a' → ∀ b : Activity,
      (w.activities.set id b)[id]? = some b := by
    intro a' ha' b
    exact List.getElem?_set_self (List.getElem?_eq_some_iff.mp ha').1
  cases h with
  | returned running =>
    obtain rfl := Option.some.inj ((hset running _).symm.trans ha)
    exact .returned rfl running ((Scene.calm_conclude ..).deeds id)
  | onward running step =>
    obtain rfl := Option.some.inj ((hset running _).symm.trans ha)
    exact .onward running step
  | idle => exact .same ha rfl

theorem became {a : Activity} (ha : (w.step m).activities[id]? = some a) :
    Became w m (w.step m) id a := by
  by_cases hid : id < w.activities.length
  · by_cases hturn : ∃ choice, m = .advance id choice
    · obtain ⟨choice, rfl⟩ := hturn
      exact (advanced_advance w id choice).became ha
    · have hdeeds := deeds_step (w := w) fun choice heq => hturn ⟨choice, heq⟩
      cases m with
      | start job =>
        rcases step_start w job with heq | ⟨program, -, heq⟩ <;> rw [heq] at ha
        · exact .same ha hdeeds
        · rw [List.getElem?_append_left hid] at ha
          exact .same ha hdeeds
      | advance other choice =>
        have hne : other ≠ id := by
          rintro rfl
          exact hturn ⟨choice, rfl⟩
        exact .same (((advanced_advance w other choice).activities_of_ne hne).symm.trans ha) hdeeds
      | drop other =>
        rcases step_drop w other with heq | ⟨job, rest, hrunning, heq⟩ <;> rw [heq] at ha
        · exact .same ha hdeeds
        · by_cases hother : other = id
          · subst hother
            rw [List.getElem?_set_self hid] at ha
            obtain rfl := Option.some.inj ha
            exact .dropped hrunning hdeeds
          · rw [List.getElem?_set_ne hother] at ha
            exact .same ha hdeeds
      | switch place offline | join epoch n => exact .same ha hdeeds
  · obtain ⟨job, program, rfl, rfl, rfl, hprogram, hscene⟩ := activity_new hid ha
    cases hadmits : w.admits job with
    | true => exact .started rfl rfl hadmits hprogram hscene
    | false =>
      -- nothing is started, so that the activity was there before
      rw [step_start_of_not_admits hadmits] at ha
      exact absurd (List.getElem?_eq_some_iff.mp ha).1 hid

/-! ## Whole interleavings -/

/-- Nothing has been done yet by the activity that will be started next. -/
lemma Attributed.deeds_nextId (h : w.Attributed) : w.scene.deeds w.nextId = [] := by
  refine List.eq_nil_iff_forall_not_mem.mpr fun event hmem => ?_
  obtain ⟨hmem, hself⟩ := Scene.mem_deeds.mp hmem
  exact Nat.lt_irrefl _ (hself ▸ h event hmem)

lemma trace_prefix_play (w : World) (moves : List Move) :
    w.scene.trace <+: (w.play moves).scene.trace := by
  induction moves generalizing w with
  | nil => exact List.prefix_rfl
  | cons m moves ih =>
    refine List.IsPrefix.trans ?_ (ih (w.step m))
    rcases w.calm_or_acts m with hcalm | ⟨other, choice, action, answer, -, -, hacts⟩
    · exact hcalm.trace.symm ▸ List.prefix_rfl
    · rw [hacts.trace_eq]
      exact List.prefix_append ..

/-- What an activity has done it goes on to have done. -/
lemma deeds_mono {before : List Move} (h : before <+: moves) (id : Nat) :
    (w.play before).scene.deeds id <+: (w.play moves).scene.deeds id := by
  obtain ⟨more, rfl⟩ := h
  rw [play_append]
  exact ((w.play before).trace_prefix_play more).filter _

/-- An event of the trace happened in a turn of its activity, before which the trace was just what
comes before it. -/
lemma exists_turn_of_trace {event : Event} {more : List Event} (hnew : w.scene.trace <+: past)
    (h : (w.play moves).scene.trace = past ++ event :: more) :
    ∃ before choice, before ++ [.advance event.activity choice] <+: moves ∧
      (w.play before).scene.trace = past ∧
      (w.play before).scene.Acts event.activity event.action event.answer
        (w.play (before ++ [.advance event.activity choice])).scene := by
  induction moves using List.reverseRecOn generalizing more with
  | nil =>
    have hlength := hnew.length_le
    rw [play_nil] at h
    rw [h, List.length_append, List.length_cons] at hlength
    omega
  | append_singleton moves m ih =>
    have hearlier : ∀ {more}, (w.play moves).scene.trace = past ++ event :: more →
        ∃ before choice, before ++ [.advance event.activity choice] <+: moves ++ [m] ∧
          (w.play before).scene.trace = past ∧
          (w.play before).scene.Acts event.activity event.action event.answer
            (w.play (before ++ [.advance event.activity choice])).scene := by
      intro more htrace
      obtain ⟨before, choice, hturn, hrest⟩ := ih htrace
      exact ⟨before, choice, hturn.trans (List.prefix_append ..), hrest⟩
    rw [play_append, play_cons, play_nil] at h
    rcases (w.play moves).calm_or_acts m with
      hcalm | ⟨id, choice, action, answer, rfl, -, hacts⟩
    · exact hearlier (hcalm.trace ▸ h)
    · rw [hacts.trace_eq] at h
      rcases List.eq_nil_or_concat more with rfl | ⟨more, last, rfl⟩
      · -- it was done just now
        obtain ⟨hpast, hevent⟩ := List.append_inj' h rfl
        cases hevent
        refine ⟨moves, choice, List.prefix_rfl, hpast, ?_⟩
        rw [play_append, play_cons, play_nil]
        exact hacts
      · rw [List.concat_eq_append, ← List.cons_append, ← List.append_assoc] at h
        exact hearlier (List.append_inj' h rfl).1

/-- A deed was done in a turn of its activity, before which the activity had done just what comes
before it. -/
lemma exists_turn_of_deeds {event : Event} {more : List Event} (hnew : w.scene.deeds id <+: past)
    (h : (w.play moves).scene.deeds id = past ++ event :: more) :
    ∃ before choice, before ++ [.advance id choice] <+: moves ∧
      (w.play before).scene.deeds id = past ∧ (w.play before).scene.Acts id event.action
        event.answer (w.play (before ++ [.advance id choice])).scene := by
  have hself : event.activity = id :=
    (Scene.mem_deeds.mp (h ▸ List.mem_append_right _ List.mem_cons_self)).2
  obtain ⟨earlier, later, htrace, hearlier, -⟩ := exists_split_of_filter h
  -- the deed is none of those that were there in the beginning
  have hbegin : w.scene.trace <+: earlier := by
    have hprefix := w.trace_prefix_play moves
    rw [htrace] at hprefix
    rcases List.prefix_or_prefix_of_prefix hprefix (List.prefix_append ..) with
      hbegin | ⟨rest, heq⟩
    · exact hbegin
    · rw [← heq, List.prefix_append_right_inj] at hprefix
      cases rest with
      | nil => exact heq ▸ (List.append_nil earlier).symm ▸ List.prefix_rfl
      | cons first rest =>
        obtain rfl := (List.cons_prefix_cons.mp hprefix).1
        have hlength := hnew.length_le
        rw [Scene.deeds, ← heq, List.filter_append, hearlier,
          List.filter_cons_of_pos (by simpa using hself), List.length_append,
          List.length_cons] at hlength
        omega
  obtain ⟨before, choice, hturn, hbefore, hacts⟩ := exists_turn_of_trace hbegin htrace
  subst hself
  exact ⟨before, choice, hturn, (congrArg _ hbefore).trans hearlier, hacts⟩

/-- A result stays. -/
lemma Returned.step {job : Job} {result : job.Result} (h : w.Returned id job result) (m : Move) :
    (w.step m).Returned id job result := by
  have hid : id < w.activities.length := (List.getElem?_eq_some_iff.mp h).1
  have hlength : id < (w.step m).activities.length := Nat.lt_of_lt_of_le hid (nextId_le_step w m)
  have ha := List.getElem?_eq_getElem hlength
  have hbecame := became ha
  generalize (w.step m).activities[id] = a at ha hbecame
  unfold Returned at h ⊢
  cases hbecame with
  | same before => exact ha.trans (before.symm.trans h)
  | onward running | returned turn running | dropped running =>
    rw [running] at h
    cases h
  | started start new => exact absurd hid (by simp [new, nextId])

lemma Returned.play {job : Job} {result : job.Result} (h : w.Returned id job result)
    (moves : List Move) : (w.play moves).Returned id job result :=
  List.foldlRecOn (motive := fun w => w.Returned id job result) moves World.step h
    fun _ hw m _ => hw.step m

/-- A result was returned in some turn, in which the program had ended. -/
lemma Returned.exists_turn {node : Node} {job : Job} {result : job.Result}
    (h : ((World.start node).play moves).Returned id job result) :
    ∃ before choice, before ++ [.advance id choice] <+: moves ∧
      ((World.start node).play before).activities[id]? = some (.running job (.done result)) := by
  induction moves using List.reverseRecOn with
  | nil => cases h
  | append_singleton moves m ih =>
    rw [play_append, play_cons, play_nil] at h
    have hbecame := became h
    generalize ha : Activity.returned job result = a at hbecame
    cases hbecame with
    | same before =>
      subst ha
      obtain ⟨earlier, choice, hpre, hrunning⟩ := ih before
      exact ⟨earlier, choice, hpre.trans (List.prefix_append ..), hrunning⟩
    | returned turn running =>
      cases ha
      subst turn
      exact ⟨moves, _, List.prefix_rfl, running⟩
    | onward | dropped | started => cases ha

/-- Whoever has returned a result has done what the program of the job leads to. -/
theorem Returned.of_leads {node : Node} {job : Job} {post : job.Result → List Event → Prop}
    (hleads : ∀ moves program,
      job.program? ((World.start node).play moves).scene.node = some program →
      program.Leads id post []) {result : job.Result}
    (h : ((World.start node).play moves).Returned id job result) :
    post result (((World.start node).play moves).scene.deeds id) := by
  have hrunning : ∀ moves rest, ((World.start node).play moves).activities[id]? =
      some (.running job rest) →
      rest.Leads id post (((World.start node).play moves).scene.deeds id) := by
    intro moves
    induction moves using List.reverseRecOn with
    | nil => exact fun _ ha => by cases ha
    | append_singleton moves m ih =>
      intro rest ha
      rw [play_append, play_cons, play_nil] at ha ⊢
      have hbecame := became ha
      generalize hrest : Activity.running job rest = a at hbecame
      cases hbecame with
      | same before deeds =>
        subst hrest
        exact deeds ▸ ih rest before
      | onward running step =>
        cases hrest
        exact (ih _ running).advance step
      | started start new admits program? scene =>
        cases hrest
        rw [scene, new, ((attributed_start node).play moves).deeds_nextId]
        exact new ▸ hleads moves _ program?
      | returned | dropped => cases hrest
  induction moves using List.reverseRecOn with
  | nil => cases h
  | append_singleton moves m ih =>
    rw [play_append, play_cons, play_nil] at h ⊢
    have hbecame := became h
    generalize ha : Activity.returned job result = a at hbecame
    cases hbecame with
    | same before deeds =>
      subst ha
      exact deeds ▸ ih before
    | returned turn running deeds =>
      cases ha
      exact deeds ▸ hrunning moves _ running
    | onward | dropped | started => cases ha

end World

end SharedLog
