/-
# Worlds without an activity

An activity that has done nothing but look leaves no trace in what lasts: without it everything
would be as it is. So a world in which it is there is compared with one in which it never was, move
by move. The activities that were started after it have other numbers there, and units have been
asked less often; nobody notices either.
-/
import SharedLog.Proofs.World.Alone
import SharedLog.Proofs.World.Course
import SharedLog.Proofs.World.Together
import SharedLog.Proofs.World.Within

namespace SharedLog

variable {n n' : Node} {s s' : Scene} {id i : Nat} {choice : Choice} {α : Type}

/-! ## Nodes but for how often units were asked -/

/-- A unit, but for how often it was asked for values. -/
def LogUnit.uncounted (u : LogUnit) : LogUnit := { u with peekCalls := 0 }

/-- A node, but for how often its units were asked for values. -/
def Node.uncounted (n : Node) : Node := { n with units := n.units.map LogUnit.uncounted }

lemma LogUnit.write_uncounted (u : LogUnit) (p : Position) (data : LogData) :
    (u.uncounted.write p data).1 = (u.write p data).1 ∧
      (u.uncounted.write p data).2.uncounted = (u.write p data).2.uncounted := by
  cases hoffline : u.offline <;> cases hslot : u.slots[p]? <;>
    simp [write, uncounted, hoffline, hslot]

namespace Node

lemma uncounted_uncounted (n : Node) : n.uncounted.uncounted = n.uncounted := by
  simp only [uncounted, List.map_map]
  rfl

/-- A request to a unit for which it makes no difference how often the unit was asked. -/
lemma onPlace_uncounted (n : Node) (place : Nat)
    {request : LogUnit → Except ReplicationError α × LogUnit}
    (hrequest : ∀ u, (request u.uncounted).1 = (request u).1 ∧
      (request u.uncounted).2.uncounted = (request u).2.uncounted) :
    (n.uncounted.onPlace place request).1 = (n.onPlace place request).1 ∧
      (n.uncounted.onPlace place request).2.uncounted = (n.onPlace place request).2.uncounted := by
  cases hunit : n.units[place]? with
  | none =>
    have hunit' : n.uncounted.units[place]? = none := by
      simp only [uncounted, List.getElem?_map, hunit, Option.map_none]
    simp only [onPlace, hunit, hunit']
    exact ⟨trivial, n.uncounted_uncounted⟩
  | some unit =>
    have hunit' : n.uncounted.units[place]? = some unit.uncounted := by
      simp only [uncounted, List.getElem?_map, hunit, Option.map_some]
    rw [onPlace_eq_of_some _ hunit, onPlace_eq_of_some _ hunit']
    refine ⟨(hrequest unit).1, ?_⟩
    simp only [uncounted, List.map_set, List.map_map, (hrequest unit).2]
    rfl

/-- Nobody is told how often units were asked. -/
lemma act_uncounted (n : Node) (now : Timestamp) (action : Action) :
    (n.uncounted.act now action).1 = (n.act now action).1 ∧
      (n.uncounted.act now action).2.uncounted = (n.act now action).2.uncounted := by
  cases action with
  | onUnit call =>
    cases call with
    | peek place position => exact n.onPlace_uncounted place fun u => ⟨rfl, rfl⟩
    | write place position data =>
      have hwrite := fun u : LogUnit => u.write_uncounted position data
      exact n.onPlace_uncounted place hwrite
  | allocate request => exact ⟨rfl, (n.act now (.allocate request)).2.uncounted_uncounted⟩
  | bootstrap request => exact ⟨rfl, (n.act now (.bootstrap request)).2.uncounted_uncounted⟩
  | knownEpoch client => exact ⟨rfl, n.uncounted_uncounted⟩
  | observeEpoch client epoch =>
    exact ⟨rfl, (n.act now (.observeEpoch client epoch)).2.uncounted_uncounted⟩

/-- Looks change nothing but how often units were asked. -/
lemma uncounted_peek (n : Node) (now : Timestamp) (place : Nat) (p : Position) :
    (n.act now (.onUnit (.peek place p))).2.uncounted = n.uncounted := by
  cases hunit : n.units[place]? with
  | none => simp only [act, onUnit, onPlace, hunit]
  | some unit =>
    have hself : (n.units.map LogUnit.uncounted)[place]? = some unit.uncounted := by
      rw [List.getElem?_map, hunit, Option.map_some]
    obtain ⟨hplace, heq⟩ := List.getElem?_eq_some_iff.mp hself
    have hset : (n.units.map LogUnit.uncounted).set place (unit.peek p).2.uncounted =
        n.units.map LogUnit.uncounted := by
      rw [show (unit.peek p).2.uncounted = unit.uncounted from rfl, ← heq]
      exact List.set_getElem_self hplace
    simp only [act, onUnit, onPlace_eq_of_some _ hunit, uncounted, List.map_set, hset]

/-- The same action at two nodes that differ in nothing else is answered in the same way. -/
lemma act_congr (h : n'.uncounted = n.uncounted) (now : Timestamp) (action : Action) :
    (n'.act now action).1 = (n.act now action).1 ∧
      (n'.act now action).2.uncounted = (n.act now action).2.uncounted := by
  obtain ⟨hanswer, hnode⟩ := n.act_uncounted now action
  obtain ⟨hanswer', hnode'⟩ := n'.act_uncounted now action
  rw [h] at hanswer' hnode'
  exact ⟨hanswer'.symm.trans hanswer, hnode'.symm.trans hnode⟩

end Node

/-- What units hold has nothing to do with how often they were asked. -/
lemma Scene.slot_congr (h : s'.node.uncounted = s.node.uncounted) (place : Nat) (p : Position) :
    s'.slot place p = s.slot place p := by
  have hslot : ∀ s : Scene, s.slot place p =
      (s.node.uncounted.units[place]?).bind fun unit => unit.slots[p]? := by
    intro s
    simp only [slot, Node.uncounted, List.getElem?_map, Option.bind_map]
    rfl
  rw [hslot, hslot, h]

/-! ## Single steps -/

/-- What goes on, apart from the counts. -/
def goesOn (x : Option (α × Scene)) : Option (α × Node) := x.map fun y => (y.1, y.2.node.uncounted)

/-- The same goes on at two scenes if it goes on to the same, apart from the counts. -/
lemma of_goesOn {x x' : Option (α × Scene)} (h : goesOn x' = goesOn x) :
    x = none ∧ x' = none ∨ ∃ a s s', x = some (a, s) ∧ x' = some (a, s') ∧
      s'.node.uncounted = s.node.uncounted := by
  rcases x with _ | ⟨a, s⟩ <;> rcases x' with _ | ⟨a', s'⟩
  · exact .inl ⟨rfl, rfl⟩
  · cases h
  · cases h
  · simp only [goesOn, Option.map_some, Option.some.injEq, Prod.mk.injEq] at h
    obtain ⟨rfl, hnode⟩ := h
    exact .inr ⟨_, s, s', rfl, rfl, hnode⟩

lemma goesOn_map {β : Type} (f : α → β) (x : Option (α × Scene)) :
    goesOn (x.map fun y => (f y.1, y.2)) = (goesOn x).map fun y => (f y.1, y.2) := by
  cases x <;> rfl

lemma ChainProgram.advance_uncounted (h : s'.node.uncounted = s.node.uncounted) (id id' : Nat)
    (choice : Choice) (p : ChainProgram α) :
    goesOn (advance id' choice s' p) = goesOn (advance id choice s p) := by
  cases p with
  | done a | unfinished => rfl
  | call c next =>
    obtain ⟨hanswer, hnode⟩ := Node.act_congr h choice.now (.onUnit c)
    simp only [advance, Scene.act, goesOn, Option.map_some, hanswer, hnode]
  | sleep d next | unbounded p => simp only [advance, goesOn, Option.map_some, h]

lemma NodeProgram.advance_uncounted (h : s'.node.uncounted = s.node.uncounted) (id id' : Nat)
    (choice : Choice) (p : NodeProgram α) :
    goesOn (advance id' choice s' p) = goesOn (advance id choice s p) := by
  cases p with
  | done a | unfinished => rfl
  | call c next =>
    cases c with
    | act action =>
      obtain ⟨hanswer, hnode⟩ := Node.act_congr h choice.now action
      simp only [advance, Scene.act, goesOn, Option.map_some, hanswer, hnode]
    | readTogether reads =>
      simp only [advance]
      split
      · rfl
      · simp only [goesOn, Option.map_some, h]
      · rename_i read _ _ _
        have hread := ChainProgram.advance_uncounted h id id' choice read
        let rest (read : ChainOperation (Position × LogData)) : NodeProgram α :=
          .call (.readTogether (reads.set choice.place read)) next
        exact (goesOn_map rest _).trans ((congrArg _ hread).trans (goesOn_map rest _).symm)
      · cases ChainProgram.valuesOf reads with
        | none => rfl
        | some values => simp only [goesOn, Option.map_some, h]
  | sleep d next | unbounded p => simp only [advance, goesOn, Option.map_some, h]

/-! ## Whole interleavings -/

/-- The event is a look at a unit. -/
def Event.IsLook (event : Event) : Prop := ∃ place p, event.action = .onUnit (.peek place p)

/-- The number of another activity if there is no activity `id`. -/
def renumbered (id other : Nat) : Nat := if other < id then other else other - 1

/-- A move if there is no activity `id`. -/
def Move.without (id : Nat) : Move → Option Move
  | advance other choice =>
    if other = id then none else some (advance (renumbered id other) choice)
  | drop other => if other = id then none else some (drop (renumbered id other))
  | m => some m

section

variable {l : List α} {other : Nat} {a : α}

lemma getElem?_eraseIdx_renumbered (hne : other ≠ id) :
    (l.eraseIdx id)[renumbered id other]? = l[other]? := by
  rw [renumbered, List.getElem?_eraseIdx]
  split
  · rfl
  · rw [if_neg (by omega), Nat.sub_add_cancel (by omega)]

lemma eraseIdx_set_renumbered (hne : other ≠ id) :
    (l.set other a).eraseIdx id = (l.eraseIdx id).set (renumbered id other) a := by
  rw [renumbered]
  split
  · exact List.eraseIdx_set_gt ‹_›
  · exact List.eraseIdx_set_lt (by omega)

lemma any_eraseIdx {f : α → Bool} (ha : l[i]? = some a) (hf : f a = false) :
    (l.eraseIdx i).any f = l.any f := by
  obtain ⟨hi, rfl⟩ := List.getElem?_eq_some_iff.mp ha
  have hsplit : l = l.take i ++ l[i] :: l.drop (i + 1) := by
    rw [← List.drop_eq_getElem_cons hi, List.take_append_drop]
  rw [List.eraseIdx_eq_take_drop_succ, List.any_append, congrArg (List.any · f) hsplit,
    List.any_append, List.any_cons, hf, Bool.false_or]

end

/-- Counts make no difference to what a job ends with, or leaves behind. -/
lemma Job.conclude_uncounted (job : Job) (n : Node) (result : job.Result) :
    (job.conclude n result).uncounted = job.conclude n.uncounted result := by
  cases job <;> rfl

lemma Job.program?_congr (h : n'.uncounted = n.uncounted) (job : Job) :
    job.program? n' = job.program? n := by
  have hsame : ∀ n : Node, job.program? n.uncounted = job.program? n := by
    intro n
    cases job <;> rfl
  rw [← hsame n', h, hsame n]

lemma Scene.switch_uncounted (h : s'.node.uncounted = s.node.uncounted) (place : Nat)
    (offline : Bool) :
    (s'.switch place offline).node.uncounted = (s.switch place offline).node.uncounted := by
  have hswitch : ∀ s : Scene, (s.switch place offline).node.uncounted = { s.node.uncounted with
      units := s.node.uncounted.units.modify place fun unit => { unit with offline } } := by
    intro s
    simp only [switch, Node.uncounted]
    congr 1
    apply List.ext_getElem?
    intro i
    simp only [List.getElem?_map, List.getElem?_modify]
    split <;> cases s.node.units[i]? <;> rfl
  rw [hswitch, hswitch, h]

namespace World

variable {w w' : World} {m : Move} {moves : List Move}

/-- A job goes on. -/
lemma step_advance_of_some {job : Job} {rest rest' : NodeProgram job.Result} {scene : Scene}
    (ha : w.activities[id]? = some (.running job rest))
    (hstep : NodeProgram.advance id choice w.scene rest = some (rest', scene)) :
    w.step (.advance id choice) =
      { scene, activities := w.activities.set id (.running job rest') } := by
  cases rest with
  | done result => cases hstep
  | _ => simp only [step, advance, ha, hstep]

/-- A world and another one without one of its activities. -/
structure Without (id : Nat) (w w' : World) : Prop where
  node : w'.scene.node.uncounted = w.scene.node.uncounted
  activities : w'.activities = w.activities.eraseIdx id
  here : ∃ a, w.activities[id]? = some a ∧ a.job.isLayout = false

namespace Without

/-- The activity keeps its job. -/
lemma here_step (h : Without id w w') (m : Move) :
    ∃ a, (w.step m).activities[id]? = some a ∧ a.job.isLayout = false := by
  obtain ⟨a, ha, hjob⟩ := h.here
  have hid : id < w.activities.length := (List.getElem?_eq_some_iff.mp ha).1
  obtain ⟨a', ha'⟩ : ∃ a', (w.step m).activities[id]? = some a' :=
    ⟨_, List.getElem?_eq_getElem (Nat.lt_of_lt_of_le hid (nextId_le_step w m))⟩
  obtain ⟨a₀, ha₀, hsame⟩ := exists_job_eq hid ha'
  obtain rfl := Option.some.inj (ha₀.symm.trans ha)
  exact ⟨a', ha', hsame ▸ hjob⟩

/-- Another activity is there with its other number. -/
lemma getElem?_renumbered (h : Without id w w') {other : Nat} (hne : other ≠ id) :
    w'.activities[renumbered id other]? = w.activities[other]? := by
  rw [h.activities, getElem?_eraseIdx_renumbered hne]

lemma set_renumbered (h : Without id w w') {other : Nat} (hne : other ≠ id) (a : Activity) :
    w'.activities.set (renumbered id other) a = (w.activities.set other a).eraseIdx id := by
  rw [h.activities, eraseIdx_set_renumbered hne]

lemma start (h : Without id w w') (job : Job) :
    Without id (w.step (.start job)) (w'.step (.start job)) := by
  obtain ⟨a, ha, hjob⟩ := h.here
  have hholds : a.holdsLayout = false := by
    cases a with
    | running job rest => exact hjob
    | returned | dropped => rfl
  have hadmits : w'.admits job = w.admits job := by
    rw [admits, admits, h.activities, any_eraseIdx ha hholds]
  have hprogram := job.program?_congr h.node
  have hid : id < w.activities.length := (List.getElem?_eq_some_iff.mp ha).1
  refine ⟨?_, ?_, h.here_step (.start job)⟩
  · simp only [step, hadmits, hprogram]
    split <;> exact h.node
  · simp only [step, hadmits, hprogram]
    split
    · rw [List.eraseIdx_append_of_lt_length hid, h.activities]
    · exact h.activities

/-- A turn of another activity. -/
lemma advance (h : Without id w w') {other : Nat} (hne : other ≠ id) (choice : Choice) :
    Without id (w.step (.advance other choice))
      (w'.step (.advance (renumbered id other) choice)) := by
  have hhere := h.here_step (.advance other choice)
  have hlookup := h.getElem?_renumbered hne
  cases ha : w.activities[other]? with
  | none =>
    simp only [step, World.advance, hlookup, ha]
    exact h
  | some a =>
    cases a with
    | returned | dropped =>
      simp only [step, World.advance, hlookup, ha]
      exact h
    | running job rest =>
      have ha' : w'.activities[renumbered id other]? = some (.running job rest) := hlookup.trans ha
      by_cases hdone : ∃ result, rest = .done result
      · obtain ⟨result, rfl⟩ := hdone
        simp only [step, World.advance, ha', ha] at hhere ⊢
        refine ⟨?_, h.set_renumbered hne _, hhere⟩
        rw [Job.conclude_uncounted, Job.conclude_uncounted, h.node]
      · have hrest := fun result heq => hdone ⟨result, heq⟩
        have hgoesOn := NodeProgram.advance_uncounted h.node other (renumbered id other) choice rest
        rcases of_goesOn hgoesOn with ⟨hnone, hnone'⟩ | ⟨next, s, s', hnext, hnext', hnode⟩
        · rwa [step_advance_of_none ha hrest hnone, step_advance_of_none ha' hrest hnone']
        · rw [step_advance_of_some ha hnext] at hhere ⊢
          rw [step_advance_of_some ha' hnext']
          exact ⟨hnode, h.set_renumbered hne _, hhere⟩

/-- A turn of the activity itself, unless it does more than to look. -/
lemma own_turn (h : Without id w w') (choice : Choice)
    (hlook : ∀ event ∈ (w.step (.advance id choice)).scene.deeds id, event.IsLook) :
    Without id (w.step (.advance id choice)) w' := by
  have hhere := h.here_step (.advance id choice)
  have hset : ∀ a, w'.activities = (w.activities.set id a).eraseIdx id := by
    intro a
    rw [List.eraseIdx_set_eq, h.activities]
  have hadvanced := advanced_advance w id choice
  change Without id (w.advance id choice) w'
  change ∀ event ∈ (w.advance id choice).scene.deeds id, event.IsLook at hlook
  change ∃ a, (w.advance id choice).activities[id]? = some a ∧ a.job.isLayout = false at hhere
  obtain ⟨a, ha, hjob⟩ := h.here
  generalize w.advance id choice = W at hadvanced hlook hhere
  cases hadvanced with
  | @returned job result running =>
    obtain rfl := Option.some.inj (running.symm.trans ha)
    have hsame : job.conclude w.scene.node result = w.scene.node := Job.conclude_eq hjob _ _
    exact ⟨hsame.symm ▸ h.node, hset _, hhere⟩
  | onward running step =>
    refine ⟨?_, hset _, hhere⟩
    rcases NodeProgram.scene_advance step with rfl | ⟨action, answer, hacts⟩
    · exact h.node
    · have hdeed : ⟨id, action, answer⟩ ∈ Scene.deeds _ id :=
        hacts.deeds_self ▸ List.mem_append_right _ (List.mem_singleton_self _)
      obtain ⟨place, p, rfl⟩ := hlook _ hdeed
      obtain ⟨now, hact⟩ := hacts
      have hnode := w.scene.node.uncounted_peek now place p
      rw [h.node, ← hnode]
      exact congrArg (fun x => x.2.node.uncounted) hact
  | idle => exact h

/-- Another activity is dropped. -/
lemma drop (h : Without id w w') {other : Nat} (hne : other ≠ id) :
    Without id (w.step (.drop other)) (w'.step (.drop (renumbered id other))) := by
  have hhere := h.here_step (.drop other)
  have hlookup := h.getElem?_renumbered hne
  cases ha : w.activities[other]? with
  | none =>
    simp only [step, hlookup, ha]
    exact h
  | some a =>
    cases a with
    | returned | dropped =>
      simp only [step, hlookup, ha]
      exact h
    | running job rest =>
      simp only [step, hlookup, ha] at hhere ⊢
      exact ⟨h.node, h.set_renumbered hne _, hhere⟩

/-- The activity itself is dropped. -/
lemma own_drop (h : Without id w w') : Without id (w.step (.drop id)) w' := by
  have hhere := h.here_step (.drop id)
  rcases step_drop w id with heq | ⟨job, rest, -, heq⟩
  · exact heq.symm ▸ h
  · rw [heq] at hhere ⊢
    refine ⟨h.node, ?_, hhere⟩
    rw [List.eraseIdx_set_eq, h.activities]

/-- A move, unless the activity does more than to look. -/
theorem step (h : Without id w w') (m : Move)
    (hlook : ∀ event ∈ (w.step m).scene.deeds id, event.IsLook) :
    Without id (w.step m) (w'.play (m.without id).toList) := by
  have hhere := h.here_step m
  cases m with
  | start job => exact h.start job
  | advance other choice =>
    by_cases hother : other = id
    · subst hother
      simpa [Move.without] using h.own_turn choice hlook
    · simpa [Move.without, hother] using h.advance hother choice
  | drop other =>
    by_cases hother : other = id
    · subst hother
      simpa [Move.without] using h.own_drop
    · simpa [Move.without, hother] using h.drop hother
  | switch place offline => exact ⟨Scene.switch_uncounted h.node place offline, h.activities, hhere⟩
  | join epoch maxAppendAttempts =>
    exact ⟨congrArg (fun n => n.addClient epoch maxAppendAttempts) h.node, h.activities, hhere⟩

/-- Some moves, in the course of which the activity does nothing but look. -/
theorem play (h : Without id w w') (moves : List Move)
    (hlook : ∀ event ∈ (w.play moves).scene.deeds id, event.IsLook) :
    Without id (w.play moves) (w'.play (moves.filterMap (Move.without id))) := by
  induction moves generalizing w w' with
  | nil => exact h
  | cons m moves ih =>
    have hearlier : (w.step m).scene.deeds id <+: (w.play (m :: moves)).scene.deeds id :=
      ((w.step m).trace_prefix_play moves).filter _
    have hstep := h.step m fun event hmem => hlook event (hearlier.subset hmem)
    have hplay := ih hstep hlook
    rw [List.filterMap_cons]
    generalize m.without id = m' at hplay
    cases m' <;> exact hplay

end Without

/-- An activity that has just been started. -/
lemma without_start {job : Job} (hjob : job.isLayout = false) {program : NodeProgram job.Result}
    (hprogram : job.program? w.scene.node = some program) :
    Without w.nextId (w.step (.start job)) w := by
  rw [step_start_eq hjob hprogram]
  refine ⟨rfl, ?_, _, List.getElem?_concat_length, hjob⟩
  change w.activities = (w.activities ++ [_]).eraseIdx w.activities.length
  rw [List.eraseIdx_append_of_length_le (Nat.le_refl _), Nat.sub_self, List.eraseIdx_cons_zero,
    List.append_nil]

end World

end SharedLog
