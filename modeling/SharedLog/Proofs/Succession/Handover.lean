/-
# Handing over

A world in which the sequencer is lost goes on with another one. The clients keep what they are
doing; what was under way to bootstrap the lost sequencer is lost with it. All that the clients do
keeps the law under which the other sequencer takes over (`Legacy.keeps_succeed`), as it writes
nothing to the head but entries of tokens and never speaks of tails.
-/
import SharedLog.Proofs.Succession.Reset
import SharedLog.Proofs.World.Together
import SharedLog.Proofs.World.Within

namespace SharedLog

variable {L : Law} {w : World} {m : Move} {moves : List Move} {id : Nat} {s : Scene}
  {a : Activity} {mailbox : Mailbox} {settings : BootstrapSettings} {schedule : Nat → Move}

/-! ## The other sequencer -/

/-- Whether a job is one for those who look after the sequencer. -/
def Job.manages : Job → Bool
  | bootstrap _ | layout _ => true
  | _ => false

/-- What becomes of an activity when the sequencer is lost. -/
def Activity.outlive : Activity → Activity
  | .running job rest => if job.manages then .dropped job else .running job rest
  | a => a

/-- Another sequencer and another bootstrapper take the places of the old ones. -/
def World.succeed (w : World) (mailbox : Mailbox) (settings : BootstrapSettings) : World where
  scene := { w.scene with
    node := { w.scene.node with mailbox, bootstrapper := ⟨settings, none⟩ } }
  activities := w.activities.map Activity.outlive

lemma Scene.grows_succeed (w : World) (mailbox : Mailbox) (settings : BootstrapSettings) :
    w.scene.Grows (w.succeed mailbox settings).scene := ⟨rfl, rfl, id, List.prefix_rfl⟩

lemma Scene.Sound.succeed (h : w.scene.Sound) : (w.succeed mailbox settings).scene.Sound :=
  ⟨h.names, h.headward, h.accepted, h.accepted_once⟩

lemma Law.Fulfils.outlive {post : Outcome} (h : L.Fulfils id post a s) :
    L.Fulfils id post a.outlive s := by
  cases a with
  | running job rest =>
    rw [Activity.outlive]
    split
    · trivial
    · exact h
  | returned job result | dropped job => exact h

namespace World

lemma exists_of_succeed (ha : (w.succeed mailbox settings).activities[id]? = some a) :
    ∃ a₀, w.activities[id]? = some a₀ ∧ a₀.outlive = a := by
  rw [succeed, List.getElem?_map] at ha
  exact Option.map_eq_some_iff.mp ha

@[simp] lemma nextId_succeed (w : World) (mailbox : Mailbox) (settings : BootstrapSettings) :
    (w.succeed mailbox settings).nextId = w.nextId := List.length_map ..

/-- The law of the chain does not depend on the sequencer. -/
lemma Keeps.succeed (h : w.Keeps chainLaw (Job.Ends chainLaw)) :
    (w.succeed mailbox settings).Keeps chainLaw (Job.Ends chainLaw) := by
  have hsound : (w.succeed mailbox settings).scene.Sound := Scene.Sound.succeed h.holds
  refine ⟨hsound, fun id a ha => ?_⟩
  obtain ⟨a₀, ha₀, rfl⟩ := exists_of_succeed ha
  exact ((h.fulfils id a₀ ha₀).later (Job.lasting_ends chainLaw_chainlike id)
    (Scene.grows_succeed ..) hsound).outlive

end World

/-! ## What the clients were shown to do -/

/-- Units are filled from the head on with entries of tokens, by operations that do not bootstrap
the sequencer. -/
def tokenLaw : Law where
  holds s := s.Sound ∧ s.Entered
  later := Scene.Grows
  allows action s := s.Copies action ∧ s.Enters action ∧ ∀ request, action ≠ .bootstrap request
  heeds _ _ := True
  rounds := none
  later_refl := Scene.Grows.refl
  later_trans := Scene.Grows.trans
  act_keeps h hallows hacts :=
    ⟨.of_acts hacts, h.1.of_acts hallows.1 hacts, h.2.of_acts hallows.2.1 hacts⟩
  calm_keeps h hcalm := ⟨.of_calm hcalm, h.1.of_calm hcalm, h.2.of_calm hcalm⟩

/-- The jobs that outlive a sequencer: those of clients and readers. -/
def Job.Outliving : Job → Prop
  | .write .. | .bootstrap _ | .layout _ => False
  | _ => True

lemma tokenLaw_permits : tokenLaw.Permits Job.Outliving where
  sound h := h.1
  grows h := h
  allows_peek _ _ _ := ⟨trivial, trivial, nofun⟩
  allows_hole _ _ := ⟨trivial, trivial, nofun⟩
  allows_copy _ hslot := ⟨hslot, trivial, nofun⟩
  allows_allocate _ _ := ⟨trivial, trivial, nofun⟩
  allows_knownEpoch _ _ := ⟨trivial, trivial, nofun⟩
  allows_observeEpoch _ _ _ := ⟨trivial, trivial, nofun⟩
  allows_append payload _ hmem hcount :=
    ⟨trivial, fun _ => ⟨_, _, payload, ⟨⟨_, hmem⟩, hcount⟩, rfl, rfl⟩, nofun⟩
  rounds := rfl
  write h _ := h.elim
  bootstrap h _ := h.elim
  layout h _ _ := h.elim

namespace World

variable {names : List String} {policy : HoleFillPolicy} {sequencer : SequencerSettings}
  {management : BootstrapSettings} {node : Node}

/-- While the first sequencer serves, its clients write nothing to the head but entries of tokens,
and bootstrap nothing. -/
lemma beside_tokenLaw (h : Node.start names policy sequencer management = .ok node)
    (hmoves : Starts moves Job.Appending) :
    ((World.start node).play moves).Beside tokenLaw (Job.Ends tokenLaw) Job.Outliving := by
  have hstart : (World.start node).Keeps streamLaw (Job.Ends streamLaw) :=
    keeps_streamLaw h starts_nil
  exact hstart.beside streamLaw_unconditional (Job.lasting_ends streamLaw_permits.toChainlike)
    (lawful streamLaw_permits _) ⟨fun _ _ => trivial, rfl⟩ (fun h => ⟨h.1, h.2.1.entered⟩)
    (fun h => h) (Job.lasting_ends tokenLaw_permits.toChainlike) (lawful tokenLaw_permits _)
    (fun id a ha => by cases ha) hmoves

end World

/-! ## The bootstrapper until the change is delivered -/

namespace World

/-- The bootstrapper is in some state, and nothing is under way that could change it. -/
structure Rests (w : World) (b : Bootstrapper) : Prop where
  bootstrapper : w.scene.node.bootstrapper = b
  none : ∀ a ∈ w.activities, a.holdsLayout = false

variable {b : Bootstrapper} {jobs : Job → Prop}

lemma Rests.of_set {w' : World} {a : Activity} (h : w.Rests b)
    (hscene : w'.scene.node.bootstrapper = w.scene.node.bootstrapper)
    (hset : w'.activities = w.activities.set id a) (ha : a.holdsLayout = false) : w'.Rests b := by
  refine ⟨hscene.trans h.bootstrapper, fun a' hmem => ?_⟩
  rw [hset] at hmem
  rcases List.mem_or_eq_of_mem_set hmem with hmem | rfl
  · exact h.none a' hmem
  · exact ha

/-- Nothing but a change of layout gives the bootstrapper something to do. -/
lemma Rests.step (h : w.Rests b) (hm : ∀ job, m = .start job → job.isLayout = false) :
    (w.step m).Rests b := by
  cases m with
  | start job =>
    rcases step_start w job with heq | ⟨program, -, heq⟩
    · rwa [heq]
    · rw [heq]
      refine ⟨h.bootstrapper, fun a hmem => ?_⟩
      rcases List.mem_append.mp hmem with hmem | hmem
      · exact h.none a hmem
      · rw [List.mem_singleton.mp hmem]
        exact hm job rfl
  | advance id choice =>
    have hadvanced := advanced_advance w id choice
    change (w.advance id choice).Rests b
    generalize w.advance id choice = w' at hadvanced ⊢
    cases hadvanced with
    | idle => exact h
    | returned running =>
      rename_i job result
      have hjob : job.isLayout = false := h.none _ (List.mem_of_getElem? running)
      refine h.of_set ?_ rfl rfl
      cases job <;> first | rfl | cases hjob
    | onward running step =>
      rename_i job rest rest' scene
      have hjob : job.isLayout = false := h.none _ (List.mem_of_getElem? running)
      refine h.of_set ?_ rfl hjob
      rcases NodeProgram.scene_advance step with rfl | ⟨action, answer, hacts⟩
      · rfl
      · exact hacts.bootstrapper
  | drop id =>
    rcases step_drop w id with heq | ⟨job, rest, -, heq⟩
    · rwa [heq]
    · rw [heq]
      exact h.of_set rfl rfl rfl
  | switch place offline | join epoch n => exact ⟨h.bootstrapper, h.none⟩

lemma Rests.play (h : w.Rests b) (hmoves : Starts moves jobs)
    (hjobs : ∀ job, jobs job → job.isLayout = false) : (w.play moves).Rests b := by
  induction moves generalizing w with
  | nil => exact h
  | cons m moves ih =>
    obtain ⟨hm, hmoves⟩ := starts_cons.mp hmoves
    exact ih (h.step fun job hjob => hjobs job (hm job hjob)) hmoves

/-- A change of layout that is delivered to a bootstrapper at rest is begun at once. -/
lemma Rests.step_layout (h : w.Rests b) (change : LayoutChange) :
    w.step (.start (.layout change)) = { w with activities :=
      w.activities ++ [.running (.layout change) (b.handle w.scene.node.chain change)] } := by
  have hnone : w.activities.any Activity.holdsLayout = false :=
    List.any_eq_false.mpr fun a hmem => by simp [h.none a hmem]
  simp only [World.step, admits, hnone, Bool.and_false, Bool.not_false, Job.program?,
    h.bootstrapper]

/-- When the sequencer is lost, changes of layout that were under way are lost too. -/
lemma rests_succeed (w : World) (mailbox : Mailbox) (settings : BootstrapSettings) :
    (w.succeed mailbox settings).Rests ⟨settings, none⟩ := by
  refine ⟨rfl, fun a hmem => ?_⟩
  obtain ⟨a₀, -, rfl⟩ := List.mem_map.mp hmem
  cases a₀ with
  | running job rest =>
    rw [Activity.outlive]
    split
    · rfl
    · rename_i hmanages
      cases job <;> first | rfl | exact absurd rfl hmanages
  | returned job result | dropped job => rfl

/-- Losing the sequencer does not change who has done what. -/
lemma Attributed.succeed (h : w.Attributed) : (w.succeed mailbox settings).Attributed := by
  intro event hmem
  rw [nextId_succeed]
  exact h event hmem

end World

/-! ## The law of the succession -/

namespace Legacy

variable {l : Legacy} {delivered : Bool}

lemma within_law : tokenLaw.Within (l.law delivered none) where
  holds h := ⟨h.1, h.2.1⟩
  later h := h.1
  allows _ h := ⟨h.1, h.2.1, fun request heq => absurd heq (h.2.2 request)⟩
  heeds h := h
  rounds := rfl

/-- What is asked of the activities: that the change of layout ends as it should. -/
def tells (l : Legacy) (settings : BootstrapSettings) (change : Nat) (id : Nat) : Outcome
  | .layout _ => fun r s => id = change → l.ChangeEnds id settings r s
  | _ => fun _ _ => True

lemma lasting_tells (settings : BootstrapSettings) (change id : Nat) (job : Job) :
    (l.law delivered none).Lasting (l.tells settings change id job) := by
  cases job with
  | layout c =>
    exact fun r s s' hr hlater hholds hid => lasting_changeEnds settings r s s' (hr hid) hlater
      hholds
  | _ => exact fun _ _ _ _ _ _ => trivial

lemma lawful_tells (w : World) (settings : BootstrapSettings) (change : Nat) :
    w.Lawful (l.law delivered none) (l.tells settings change) (Job.Following l.base) := by
  intro id job s program hid hjob hlater hholds hprogram
  cases job with
  | layout c => exact hjob.elim
  | _ =>
    refine (World.lawful law_permits w id _ s program hid hjob hlater hholds hprogram).mono ?_
    exact fun _ _ _ => trivial

/-- The activities that outlive the sequencer keep the law under which another one takes over. -/
theorem keeps_succeed {q : Sequencer} (hbase : l.base = w.scene) (hsound : w.scene.Sound)
    (hentered : w.scene.Entered) (hjobs : ∀ a ∈ w.activities, a.job.Appending)
    (hbeside : w.Beside tokenLaw (Job.Ends tokenLaw) Job.Outliving)
    (hq : mailbox.sequencer = some q) (huntouched : q.isUntouched = true)
    (hepoch : q.epoch ≤ l.change.epoch) {change : Nat} (hchange : w.nextId ≤ change) :
    (w.succeed mailbox settings).Keeps (l.law delivered none) (l.tells settings change) := by
  have hawaits : l.Awaits (w.succeed mailbox settings).scene :=
    ⟨⟨q, hq, huntouched, hepoch⟩, [], by simp [World.succeed, hbase], by simp⟩
  have hsound' : (w.succeed mailbox settings).scene.Sound := hsound.succeed
  have hentered' : (w.succeed mailbox settings).scene.Entered := hentered
  refine ⟨⟨hsound', hentered', .awaits hawaits⟩, fun id a ha => ?_⟩
  have hid : id < (w.succeed mailbox settings).nextId := (List.getElem?_eq_some_iff.mp ha).1
  rw [World.nextId_succeed] at hid
  obtain ⟨a₀, ha₀, rfl⟩ := World.exists_of_succeed ha
  -- nothing is asked of activities that were there before
  have hold : ∀ (job : Job) (r : job.Result) (s : Scene), l.tells settings change id job r s := by
    intro job r s
    cases job with
    | layout c => exact fun heq => absurd (heq ▸ hid) (Nat.not_lt.mpr hchange)
    | _ => trivial
  cases a₀ with
  | returned job result => exact hold job result _
  | dropped job => trivial
  | running job rest =>
    rw [Activity.outlive]
    split
    · trivial
    · rename_i hmanages
      have hjob : job.Appending := hjobs _ (List.mem_of_getElem? ha₀)
      have houtlives : job.Outliving := by
        cases job <;> trivial
      have hfulfils := (hbeside id _ ha₀ houtlives).later
        (Job.lasting_ends tokenLaw_permits.toChainlike id) (Scene.grows_succeed w mailbox settings)
        ⟨hsound', hentered'⟩
      exact Law.Meets.mono (hfulfils.within within_law) fun r s _ => hold job r s

end Legacy

end SharedLog
