/-
# Interleavings keep the law

If every program that is started keeps a law, then so does every interleaving: what holds of every
scene holds throughout, and whatever is returned satisfies the condition that was shown of its
program. One step is `World.Keeps.step`, a whole interleaving `World.Keeps.play`.
-/
import SharedLog.Proofs.World.Effect
import SharedLog.Proofs.World.Law

namespace SharedLog

variable {L : Law} {id : Nat} {α : Type} {s s' : Scene}

/-- Every answer that an activity got so far is one that is counted on. -/
def Law.Heeded (L : Law) (id : Nat) (s : Scene) : Prop :=
  ∀ event ∈ s.trace, event.activity = id → L.heeds event.action event.answer

/-- A law that counts on nothing: any answer may come, and loops may be cut off at any time. -/
structure Law.Unconditional (L : Law) : Prop where
  heeds : ∀ action answer, L.heeds action answer
  rounds : L.rounds = none

lemma Law.Heeded.of_acts {action : Action} {answer : action.Answer} (h : L.Heeded id s')
    (hacts : s.Acts id action answer s') : L.heeds action answer :=
  h ⟨id, action, answer⟩ (by simp [hacts.trace_eq]) rfl

lemma ChainProgram.valuesOf_eq_some {reads : List (ChainOperation α)} {values : List α}
    (h : valuesOf reads = some values) : values.length = reads.length ∧
      ∀ (i : Nat) (v : α), values[i]? = some v → reads[i]? = some (.done (.ok v)) := by
  induction reads generalizing values with
  | nil =>
    obtain rfl : [] = values := by simpa [valuesOf] using h
    simp
  | cons read reads ih =>
    simp only [valuesOf, List.mapM_cons, Option.bind_eq_bind, Option.bind_eq_some_iff] at h
    obtain ⟨a, ha, rest, hrest, hvalues⟩ := h
    obtain rfl : a :: rest = values := by simpa using hvalues
    obtain rfl : read = .done (.ok a) := by
      split at ha
      · cases ha
        rfl
      · cases ha
    obtain ⟨hlength, hi⟩ := ih hrest
    refine ⟨by simp [hlength], fun i v hv => ?_⟩
    cases i with
    | zero => simpa using hv
    | succ i => exact hi i v hv

/-! ## One step of one program -/

namespace Law

variable {post : α → Scene → Prop} {choice : Choice}

/-- An action whose turn has come keeps the law, and its answer is as it was shown to be. -/
lemma ask_advance {action : Action} {answer : action.Answer} {post : action.Answer → Scene → Prop}
    (h : L.ask id action post s) (hholds : L.holds s) (hacts : s.Acts id action answer s') :
    L.later s s' ∧ L.holds s' ∧ (L.Heeded id s' → post answer s') := by
  obtain ⟨hallows, hanswer⟩ := h s (L.later_refl s) hholds
  obtain ⟨hlater, hholds'⟩ := L.act_keeps hholds hallows hacts
  exact ⟨hlater, hholds', fun hheeded => hanswer _ _ hacts (hheeded.of_acts hacts)⟩

/-- A step of a program of the chain keeps the law, and what has been shown of the program is true
of the rest. -/
lemma ChainMeets.advance {p p' : ChainProgram α} (h : L.ChainMeets id post p s)
    (hholds : L.holds s) (hrounds : ∀ least ∈ L.rounds, least ≤ choice.rounds)
    (hadvance : ChainProgram.advance id choice s p = some (p', s')) :
    L.later s s' ∧ L.holds s' ∧ (L.Heeded id s' → L.ChainMeets id post p' s') := by
  cases ChainProgram.steps_of_advance hadvance with
  | call acts => exact ask_advance h hholds acts
  | sleep => exact ⟨L.later_refl s, hholds, fun _ => h choice.late⟩
  | unbounded => exact ⟨L.later_refl s, hholds, fun _ => h choice.rounds hrounds⟩

/-- When one of several reads that run together goes on, what has been shown of them stays true. -/
lemma askNode_advance {reads : List (ChainOperation (Position × LogData))}
    {post : (NodeCall.readTogether reads).Answer → Scene → Prop}
    {read read' : ChainOperation (Position × LogData)}
    (h : L.askNode id (.readTogether reads) post s) (hholds : L.holds s)
    (hrounds : ∀ least ∈ L.rounds, least ≤ choice.rounds)
    (hread : reads[choice.place]? = some read)
    (hadvance : ChainProgram.advance id choice s read = some (read', s')) :
    L.later s s' ∧ L.holds s' ∧ (L.Heeded id s' →
      L.askNode id (.readTogether (reads.set choice.place read')) post s') := by
  obtain ⟨each, hlasting, hreads, hend⟩ := h
  obtain ⟨hlater, hholds', hmeets⟩ := (hreads _ _ hread).advance hholds hrounds hadvance
  refine ⟨hlater, hholds', fun hheeded => ⟨each, hlasting, fun i r hi => ?_, ?_⟩⟩
  · rw [List.getElem?_set] at hi
    split at hi
    · -- the read that went on
      rename_i hplace
      subst hplace
      split at hi
      · cases hi
        exact hmeets hheeded
      · cases hi
    · exact (hreads i r hi).later (hlasting i) hlater hholds'
  · intro s₂ hlater₂ hholds₂
    rw [List.length_set]
    exact hend s₂ (L.later_trans hlater hlater₂) hholds₂

/-- A step of a node's program keeps the law, and what has been shown of the program is true of the
rest. -/
lemma Meets.advance {p p' : NodeProgram α} (h : L.Meets id post p s) (hholds : L.holds s)
    (hrounds : ∀ least ∈ L.rounds, least ≤ choice.rounds)
    (hadvance : NodeProgram.advance id choice s p = some (p', s')) :
    L.later s s' ∧ L.holds s' ∧ (L.Heeded id s' → L.Meets id post p' s') := by
  cases NodeProgram.steps_of_advance hadvance with
  | act acts => exact ask_advance h hholds acts
  | @read reads next _ _ _ here step =>
    have hask : L.askNode id (.readTogether reads) (fun r s => L.Meets id post (next r) s) s := h
    exact askNode_advance hask hholds hrounds here step
  | failed here =>
    obtain ⟨each, hlasting, hreads, hend⟩ := h
    obtain ⟨hi, -⟩ := List.getElem?_eq_some_iff.mp here
    exact ⟨L.later_refl s, hholds, fun _ =>
      (hend s (L.later_refl s) hholds).1 _ _ hi (hreads _ _ here)⟩
  | @collected reads next values ended =>
    obtain ⟨each, hlasting, hreads, hend⟩ := h
    obtain ⟨hlength, hi⟩ := ChainProgram.valuesOf_eq_some ended
    exact ⟨L.later_refl s, hholds, fun _ => (hend s (L.later_refl s) hholds).2 values hlength
      fun i v hv => hreads i _ (hi i v hv)⟩
  | sleep => exact ⟨L.later_refl s, hholds, fun _ => h choice.late⟩
  | unbounded => exact ⟨L.later_refl s, hholds, fun _ => h choice.rounds hrounds⟩

end Law

/-! ## Steps of a world -/

/-- A condition on the result of every job. -/
abbrev Outcome : Type := (job : Job) → job.Result → Scene → Prop

/-- What has been shown of an activity: its rest keeps the law and leads to a result that satisfies
the condition, or its result does so already. -/
def Law.Fulfils (L : Law) (id : Nat) (post : Outcome) : Activity → Scene → Prop
  | .running job rest, s => L.Meets id (post job) rest s
  | .returned job result, s => post job result s
  | .dropped _, _ => True

lemma Law.Fulfils.later {post : Outcome} (hpost : ∀ job, L.Lasting (post job)) {a : Activity}
    (h : L.Fulfils id post a s) (hlater : L.later s s') (hholds : L.holds s') :
    L.Fulfils id post a s' := by
  cases a with
  | running job rest => exact Law.Meets.later (hpost job) h hlater hholds
  | returned job result => exact hpost job result s s' h hlater hholds
  | dropped job => trivial

namespace World

variable {w : World} {m : Move} {choice : Choice} {a : Activity}

/-- Loops of an activity that a move enters are cut off late enough for a law. -/
def Patient (L : Law) (id : Nat) (m : Move) : Prop :=
  ∀ choice, m = .advance id choice → ∀ least ∈ L.rounds, least ≤ choice.rounds

/-- What an activity's going on does: its program ends, or goes on by one step, or nothing happens.
The other activities stay as they are. -/
inductive Advanced (w : World) (id : Nat) (choice : Choice) : World → Prop
  | returned {job : Job} {result : job.Result}
      (running : w.activities[id]? = some (.running job (.done result))) :
      Advanced w id choice
        { scene := { w.scene with node := job.conclude w.scene.node result }
          activities := w.activities.set id (.returned job result) }
  | onward {job : Job} {rest rest' : NodeProgram job.Result} {scene : Scene}
      (running : w.activities[id]? = some (.running job rest))
      (step : NodeProgram.advance id choice w.scene rest = some (rest', scene)) :
      Advanced w id choice { scene, activities := w.activities.set id (.running job rest') }
  | idle : Advanced w id choice w

lemma advanced_advance (w : World) (id : Nat) (choice : Choice) :
    Advanced w id choice (w.advance id choice) := by
  unfold advance
  split
  · exact .returned ‹_›
  · split
    · exact .onward ‹_› ‹_›
    · exact .idle
  · exact .idle

lemma step_start (w : World) (job : Job) :
    w.step (.start job) = w ∨ ∃ program, job.program? w.scene.node = some program ∧
      w.step (.start job) = { w with activities := w.activities ++ [.running job program] } := by
  simp only [step]
  split
  · exact .inr ⟨_, ‹_›, rfl⟩
  · exact .inl rfl

/-- A job that is no change of layout can be started at any time. -/
lemma step_start_eq {job : Job} {program : NodeProgram job.Result} (hjob : job.isLayout = false)
    (hprogram : job.program? w.scene.node = some program) :
    w.step (.start job) = { w with activities := w.activities ++ [.running job program] } := by
  simp [step, admits, hjob, hprogram]

lemma step_drop (w : World) (id : Nat) :
    w.step (.drop id) = w ∨ ∃ job rest, w.activities[id]? = some (.running job rest) ∧
      w.step (.drop id) = { w with activities := w.activities.set id (.dropped job) } := by
  simp only [step]
  split
  · exact .inr ⟨_, _, ‹_›, rfl⟩
  · exact .inl rfl

namespace Advanced

variable {w' : World} {post : Outcome}

/-- An activity of which it has been shown that it keeps the law, keeps the law. -/
lemma scene (h : Advanced w id choice w') (hholds : L.holds w.scene)
    (hpatient : Patient L id (.advance id choice))
    (hall : ∀ a, w.activities[id]? = some a → L.Fulfils id post a w.scene) :
    L.later w.scene w'.scene ∧ L.holds w'.scene := by
  cases h with
  | returned running => exact L.calm_keeps hholds (Scene.calm_conclude ..)
  | onward running step =>
    have hmeets := (hall _ running).advance hholds (hpatient choice rfl) step
    exact ⟨hmeets.1, hmeets.2.1⟩
  | idle => exact ⟨L.later_refl _, hholds⟩

/-- What has been shown of an activity stays true when it goes on. -/
lemma fulfils (h : Advanced w id choice w') (hpost : ∀ job, L.Lasting (post job))
    (hholds : L.holds w.scene) (hpatient : Patient L id (.advance id choice))
    (hheeded : L.Heeded id w'.scene) (ha : w.activities[id]? = some a)
    (hfulfils : L.Fulfils id post a w.scene) :
    ∃ a', w'.activities[id]? = some a' ∧ L.Fulfils id post a' w'.scene := by
  have hid : id < w.activities.length := (List.getElem?_eq_some_iff.mp ha).1
  cases h with
  | returned running =>
    -- the condition was shown of the result at the end of the program already
    obtain rfl := Option.some.inj (ha.symm.trans running)
    obtain ⟨hlater, hholds'⟩ := L.calm_keeps hholds (Scene.calm_conclude ..)
    exact ⟨_, List.getElem?_set_self hid, hpost _ _ _ _ hfulfils hlater hholds'⟩
  | onward running step =>
    obtain rfl := Option.some.inj (ha.symm.trans running)
    have hmeets := Law.Meets.advance hfulfils hholds (hpatient choice rfl) step
    exact ⟨_, List.getElem?_set_self hid, hmeets.2.2 hheeded⟩
  | idle => exact ⟨a, ha, hfulfils⟩

/-- The other activities are left alone. -/
lemma activities_of_ne {other : Nat} (h : Advanced w other choice w') (hne : other ≠ id) :
    w'.activities[id]? = w.activities[id]? := by
  cases h with
  | returned running => exact List.getElem?_set_ne hne
  | onward running step => exact List.getElem?_set_ne hne
  | idle => rfl

lemma length_activities (h : Advanced w id choice w') :
    w'.activities.length = w.activities.length := by
  cases h with
  | returned running => exact List.length_set
  | onward running step => exact List.length_set
  | idle => rfl

end Advanced

/-- What has been shown of an activity stays true under every move that keeps the law. -/
lemma fulfils_step {post : Outcome} (hpost : ∀ job, L.Lasting (post job))
    (hholds : L.holds w.scene) (hpatient : Patient L id m)
    (hlater : L.later w.scene (w.step m).scene) (hholds' : L.holds (w.step m).scene)
    (hheeded : L.Heeded id (w.step m).scene) (ha : w.activities[id]? = some a)
    (h : L.Fulfils id post a w.scene) :
    ∃ a', (w.step m).activities[id]? = some a' ∧ L.Fulfils id post a' (w.step m).scene := by
  have hid : id < w.activities.length := (List.getElem?_eq_some_iff.mp ha).1
  cases m with
  | start job =>
    rcases step_start w job with heq | ⟨program, -, heq⟩
    · exact ⟨a, by rw [heq, ha], by rwa [heq]⟩
    · exact ⟨a, by rw [heq, List.getElem?_append_left hid, ha], by rwa [heq]⟩
  | advance other choice =>
    have hadvanced := advanced_advance w other choice
    by_cases hother : other = id
    · subst hother
      exact hadvanced.fulfils hpost hholds hpatient hheeded ha h
    · refine ⟨a, (hadvanced.activities_of_ne hother).trans ha, ?_⟩
      exact h.later hpost hlater hholds'
  | drop other =>
    rcases step_drop w other with heq | ⟨job, rest, hrunning, heq⟩
    · exact ⟨a, by rw [heq, ha], by rwa [heq]⟩
    · by_cases hother : other = id
      · subst hother
        obtain rfl := Option.some.inj (ha.symm.trans hrunning)
        exact ⟨.dropped job, by rw [heq]; exact List.getElem?_set_self hid, trivial⟩
      · exact ⟨a, by rw [heq, List.getElem?_set_ne hother, ha], by rwa [heq]⟩
  | switch place offline => exact ⟨a, ha, h.later hpost hlater hholds'⟩
  | join epoch n => exact ⟨a, ha, h.later hpost hlater hholds'⟩

/-! ## Interleavings -/

lemma nextId_le_step (w : World) (m : Move) : w.nextId ≤ (w.step m).nextId := by
  unfold nextId
  cases m with
  | start job =>
    rcases step_start w job with heq | ⟨program, -, heq⟩ <;> simp [heq]
  | advance id choice => exact (advanced_advance w id choice).length_activities ▸ Nat.le_refl _
  | drop id => rcases step_drop w id with heq | ⟨job, rest, -, heq⟩ <;> simp [heq]
  | switch place offline => exact Nat.le_refl _
  | join epoch n => exact Nat.le_refl _

lemma nextId_le_play (w : World) (moves : List Move) : w.nextId ≤ (w.play moves).nextId := by
  induction moves generalizing w with
  | nil => exact Nat.le_refl _
  | cons m moves ih => exact Nat.le_trans (nextId_le_step w m) (ih _)

/-- A move brings no other activity than the one that it starts. -/
lemma activity_new (hid : ¬ id < w.activities.length) (ha : (w.step m).activities[id]? = some a) :
    ∃ job program, m = .start job ∧ id = w.nextId ∧ .running job program = a ∧
      job.program? w.scene.node = some program ∧ (w.step m).scene = w.scene := by
  have hlength : id < (w.step m).activities.length := (List.getElem?_eq_some_iff.mp ha).1
  cases m with
  | start job =>
    rcases step_start w job with heq | ⟨program, hprogram, heq⟩
    · rw [heq] at hlength
      exact absurd hlength hid
    · rw [heq] at ha hlength ⊢
      obtain rfl : id = w.nextId := by
        simp only [List.length_append, List.length_singleton] at hlength
        unfold nextId
        omega
      have hnew : .running job program = a := by simpa [nextId] using ha
      exact ⟨job, program, rfl, rfl, hnew, hprogram, rfl⟩
  | advance other choice =>
    have hsame := (advanced_advance w other choice).length_activities
    exact absurd (hsame ▸ hlength) hid
  | drop other =>
    rcases step_drop w other with heq | ⟨job, rest, -, heq⟩ <;> rw [heq] at hlength
    · exact absurd hlength hid
    · rw [List.length_set] at hlength
      exact absurd hlength hid
  | switch place offline => exact absurd hlength hid
  | join epoch n => exact absurd hlength hid

/-- The law holds of the scene, and what has been shown of the activities is true. -/
structure Keeps (L : Law) (post : Nat → Outcome) (w : World) : Prop where
  holds : L.holds w.scene
  fulfils : ∀ id a, w.activities[id]? = some a → L.Fulfils id (post id) a w.scene

/-- The programs of some jobs keep the law when they are started later than in a world. -/
def Lawful (L : Law) (post : Nat → Outcome) (w : World) (jobs : Job → Prop) : Prop :=
  ∀ id job s program, w.nextId ≤ id → jobs job → L.later w.scene s → L.holds s →
    job.program? s.node = some program → L.Meets id (post id job) program s

/-- The jobs that are started by some moves. -/
def Starts (moves : List Move) (jobs : Job → Prop) : Prop := ∀ job, .start job ∈ moves → jobs job

lemma starts_nil {jobs : Job → Prop} : Starts [] jobs := nofun

lemma starts_cons {moves : List Move} {jobs : Job → Prop} :
    Starts (m :: moves) jobs ↔ (∀ job, m = .start job → jobs job) ∧ Starts moves jobs := by
  simp only [Starts, List.mem_cons, or_imp, forall_and, eq_comm]

lemma starts_append {moves more : List Move} {jobs : Job → Prop} :
    Starts (moves ++ more) jobs ↔ Starts moves jobs ∧ Starts more jobs := by
  simp only [Starts, List.mem_append, or_imp, forall_and]

lemma starts_singleton {jobs : Job → Prop} :
    Starts [m] jobs ↔ ∀ job, m = .start job → jobs job :=
  starts_cons.trans (and_iff_left starts_nil)

/-- The jobs that are started by the first moves of a schedule. -/
lemma starts_range {schedule : Nat → Move} {jobs : Job → Prop}
    (h : ∀ n job, schedule n = .start job → jobs job) (n : Nat) :
    Starts ((List.range n).map schedule) jobs := by
  intro job hjob
  obtain ⟨i, -, heq⟩ := List.mem_map.mp hjob
  exact h i job heq

/-- Each job that is started by some moves is of a kind that depends on the scene of that moment. -/
def StartsIn (jobs : Scene → Job → Prop) (w : World) : List Move → Prop
  | [] => True
  | m :: moves => (∀ job, m = .start job → jobs w.scene job) ∧ (w.step m).StartsIn jobs moves

lemma startsIn_append {jobs : Scene → Job → Prop} {moves more : List Move} :
    w.StartsIn jobs (moves ++ more) ↔
      w.StartsIn jobs moves ∧ (w.play moves).StartsIn jobs more := by
  induction moves generalizing w with
  | nil => exact (and_iff_right trivial).symm
  | cons m moves ih => simp only [List.cons_append, StartsIn, play_cons, ih, and_assoc]

lemma Starts.startsIn {jobs : Scene → Job → Prop} {moves : List Move} {always : Job → Prop}
    (h : Starts moves always) (hjobs : ∀ s job, always job → jobs s job) :
    w.StartsIn jobs moves := by
  induction moves generalizing w with
  | nil => trivial
  | cons m moves ih =>
    obtain ⟨hm, hmoves⟩ := starts_cons.mp h
    exact ⟨fun job hjob => hjobs _ job (hm job hjob), ih hmoves⟩

/-- The same of the first moves of a schedule. -/
lemma startsIn_range {schedule : Nat → Move} {jobs : Scene → Job → Prop}
    (h : ∀ n job, schedule n = .start job → jobs (w.after schedule n).scene job) (n : Nat) :
    w.StartsIn jobs ((List.range n).map schedule) := by
  induction n with
  | zero => trivial
  | succ n ih =>
    rw [List.range_succ, List.map_append, startsIn_append, ← after_eq_play]
    exact ⟨ih, h n, trivial⟩

lemma Lawful.later {post : Nat → Outcome} {jobs : Job → Prop} {w' : World}
    (h : w.Lawful L post jobs) (hlater : L.later w.scene w'.scene) (hnext : w.nextId ≤ w'.nextId) :
    w'.Lawful L post jobs := fun id job s program hid hjob hs =>
  h id job s program (Nat.le_trans hnext hid) hjob (L.later_trans hlater hs)

namespace Keeps

variable {post : Nat → Outcome} {jobs : Job → Prop} {jobsIn : Scene → Job → Prop}

/-- If the activities keep the law, then so does a move. -/
lemma scene_step (h : w.Keeps L post) (hpatient : ∀ id, Patient L id m) :
    L.later w.scene (w.step m).scene ∧ L.holds (w.step m).scene := by
  cases m with
  | start job =>
    rcases step_start w job with heq | ⟨program, -, heq⟩ <;> rw [heq] <;>
      exact ⟨L.later_refl _, h.holds⟩
  | advance id choice =>
    exact (advanced_advance w id choice).scene h.holds (hpatient id) (h.fulfils id)
  | drop id =>
    rcases step_drop w id with heq | ⟨job, rest, -, heq⟩ <;> rw [heq] <;>
      exact ⟨L.later_refl _, h.holds⟩
  | switch place offline => exact L.calm_keeps h.holds (w.scene.calm_switch place offline)
  | join epoch n => exact L.calm_keeps h.holds (w.scene.calm_join epoch n)

/-- If only programs that keep the law are started, a move keeps the law. -/
theorem step (h : w.Keeps L post) (hL : L.Unconditional)
    (hpost : ∀ id job, L.Lasting (post id job)) (hlawful : Lawful L post w jobs)
    (hm : ∀ job, m = .start job → jobs job) :
    L.later w.scene (w.step m).scene ∧ (w.step m).Keeps L post := by
  have hpatient : ∀ id, Patient L id m := by
    intro id choice _ least hleast
    rw [hL.rounds] at hleast
    cases hleast
  obtain ⟨hlater, hholds⟩ := h.scene_step hpatient
  refine ⟨hlater, hholds, fun id a ha => ?_⟩
  by_cases hid : id < w.activities.length
  · -- an activity that was there before
    obtain ⟨a', ha', hfulfils⟩ := fulfils_step (hpost id) h.holds (hpatient id) hlater hholds
      (fun event _ _ => hL.heeds ..) (List.getElem?_eq_getElem hid)
      (h.fulfils id _ (List.getElem?_eq_getElem hid))
    obtain rfl := Option.some.inj (ha.symm.trans ha')
    exact hfulfils
  · -- an activity that was started by the move
    obtain ⟨job, program, rfl, rfl, rfl, hprogram, hscene⟩ := activity_new hid ha
    rw [hscene]
    exact hlawful _ job _ program (Nat.le_refl _) (hm job rfl) (L.later_refl _) h.holds hprogram

/-- If only programs that keep the law are started, every interleaving keeps the law. -/
theorem play_in (h : w.Keeps L post) (hL : L.Unconditional)
    (hpost : ∀ id job, L.Lasting (post id job))
    (hlawful : ∀ w' : World, L.later w.scene w'.scene → L.holds w'.scene →
      w.nextId ≤ w'.nextId → w'.Lawful L post (jobsIn w'.scene))
    {moves : List Move} (hmoves : w.StartsIn jobsIn moves) :
    L.later w.scene (w.play moves).scene ∧ (w.play moves).Keeps L post := by
  induction moves generalizing w with
  | nil => exact ⟨L.later_refl _, h⟩
  | cons m moves ih =>
    obtain ⟨hm, hmoves⟩ := hmoves
    obtain ⟨hlater, hkeeps⟩ :=
      h.step hL hpost (hlawful w (L.later_refl _) h.holds (Nat.le_refl _)) hm
    obtain ⟨hlater', hkeeps'⟩ := ih hkeeps (fun w' hw' hholds hnext =>
      hlawful w' (L.later_trans hlater hw') hholds (Nat.le_trans (nextId_le_step w m) hnext))
      hmoves
    exact ⟨L.later_trans hlater hlater', hkeeps'⟩

theorem play (h : w.Keeps L post) (hL : L.Unconditional)
    (hpost : ∀ id job, L.Lasting (post id job)) (hlawful : Lawful L post w jobs)
    {moves : List Move} (hmoves : Starts moves jobs) :
    L.later w.scene (w.play moves).scene ∧ (w.play moves).Keeps L post :=
  h.play_in hL hpost (fun _ hlater _ hnext => hlawful.later hlater hnext)
    (hmoves.startsIn fun _ _ hjob => hjob)

/-- What was shown of a job's program holds of the result that it returned. -/
lemma of_returned (h : w.Keeps L post) {job : Job} {result : job.Result}
    (hreturned : w.Returned id job result) : post id job result w.scene :=
  h.fulfils id _ hreturned

/-- Nothing need be shown of the results of the jobs under way. -/
lemma forget (h : w.Keeps L post) (later : Nat → Outcome) :
    w.Keeps L fun id job r s => w.nextId ≤ id → later id job r s := by
  refine ⟨h.holds, fun id a ha => ?_⟩
  have hid : id < w.nextId := (List.getElem?_eq_some_iff.mp ha).1
  have hold := h.fulfils id a ha
  cases a with
  | running job rest =>
    exact Law.Meets.mono hold fun r s _ hnext => absurd hid (Nat.not_lt.mpr hnext)
  | returned job result => exact fun hnext => absurd hid (Nat.not_lt.mpr hnext)
  | dropped job => trivial

/-- What is shown of jobs started from now on holds of what they return, whatever was shown of the
jobs that are under way. -/
theorem returned_in {later : Nat → Outcome} (h : w.Keeps L post) (hL : L.Unconditional)
    (hlater : ∀ id job, L.Lasting (later id job))
    (hlawful : ∀ w' : World, L.later w.scene w'.scene → L.holds w'.scene →
      w.nextId ≤ w'.nextId → w'.Lawful L later (jobsIn w'.scene))
    {moves : List Move} (hmoves : w.StartsIn jobsIn moves) {job : Job} {result : job.Result}
    (hid : w.nextId ≤ id) (hreturned : (w.play moves).Returned id job result) :
    later id job result (w.play moves).scene := by
  refine ((h.forget later).play_in hL (fun id job r s s' hr hs hholds hnext => ?_)
    (fun w' hw' hw hnextId id job s program hnext hjob hs hholds hprogram => ?_)
    hmoves).2.of_returned hreturned hid
  · exact hlater id job r s s' (hr hnext) hs hholds
  · exact (hlawful w' hw' hw hnextId id job s program hnext hjob hs hholds hprogram).mono
      fun r s hr _ => hr

theorem returned_later {later : Nat → Outcome} (h : w.Keeps L post) (hL : L.Unconditional)
    (hlater : ∀ id job, L.Lasting (later id job)) (hlawful : Lawful L later w jobs)
    {moves : List Move} (hmoves : Starts moves jobs) {job : Job} {result : job.Result}
    (hid : w.nextId ≤ id) (hreturned : (w.play moves).Returned id job result) :
    later id job result (w.play moves).scene :=
  h.returned_in hL hlater (fun _ hs _ hnext => hlawful.later hs hnext)
    (hmoves.startsIn fun _ _ hjob => hjob) hid hreturned

end Keeps

end World

end SharedLog
