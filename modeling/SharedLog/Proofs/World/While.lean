/-
# Activities that come to an end while all goes well

What a program leads to may depend on how it goes: on the answers that it is given, and on how
early its loops are cut off. Here this is said of what the activity has done so far. As long as that
stays good, and loops go on for some number of rounds at least, the program ends with a value and
with deeds of which something holds (`Program.LeadsWhile`).

No law is needed for this. An activity that has its turns comes to the end of its program if the
program cannot be left unfinished.
-/
import SharedLog.Proofs.World.Course
import SharedLog.Proofs.World.Progress

namespace SharedLog

variable {w : World} {id least n : Nat} {choice : Choice} {schedule : Nat → Move}
  {good : List Event → Prop} {rounds : Option Nat} {past : List Event} {α β ε : Type}

/-! ## Programs -/

namespace Program

variable {Call : Type} {Answer : Call → Type} {record : (c : Call) → Option (Answer c → Event)}

/-- What a call must satisfy for something to hold of its answer and of what has been done then, as
long as that is good. A call that is not recorded as one event satisfies nothing. -/
def AsksWhile (record : (c : Call) → Option (Answer c → Event)) (good : List Event → Prop)
    (c : Call) (post : Answer c → List Event → Prop) (past : List Event) : Prop :=
  ∃ event, record c = some event ∧
    ∀ answer, good (past ++ [event answer]) → post answer (past ++ [event answer])

/-- A program ends with a value and with deeds of which `post` holds, if `past` has been done
before, if what is done stays good and if no loop is cut off too early. -/
def LeadsWhile (record : (c : Call) → Option (Answer c → Event)) (good : List Event → Prop)
    (rounds : Option Nat) (post : α → List Event → Prop) (p : Program Call Answer α)
    (past : List Event) : Prop :=
  p.Meets (AsksWhile record good) rounds post past

lemma AsksWhile.mono {c : Call} {P Q : Answer c → List Event → Prop}
    (hPQ : ∀ r past, P r past → Q r past) (h : AsksWhile record good c P past) :
    AsksWhile record good c Q past := by
  obtain ⟨event, hevent, hanswer⟩ := h
  exact ⟨event, hevent, fun answer hgood => hPQ _ _ (hanswer answer hgood)⟩

namespace LeadsWhile

variable {p : Program Call Answer α} {mid : α → List Event → Prop}

lemma mono {post : α → List Event → Prop} (h : p.LeadsWhile record good rounds mid past)
    (hpost : ∀ a past, mid a past → post a past) : p.LeadsWhile record good rounds post past := by
  refine Program.Meets.mono (fun c P Q past hPQ hP => ?_) hpost h
  exact AsksWhile.mono hPQ hP

/-- What has been done is good at the end as well. -/
lemma kept (h : p.LeadsWhile record good rounds mid past) (hpast : good past) :
    p.LeadsWhile record good rounds (fun a past => mid a past ∧ good past) past := by
  refine Program.Meets.kept h hpast (fun _ _ _ _ hPQ hP => AsksWhile.mono hPQ hP)
    fun c P past _ hP => ?_
  obtain ⟨event, hevent, hanswer⟩ := hP
  exact ⟨event, hevent, fun answer hgood => ⟨hanswer answer hgood, hgood⟩⟩

lemma bind {post : β → List Event → Prop} {f : α → Program Call Answer β}
    (h : p.LeadsWhile record good rounds mid past)
    (hf : ∀ a past, mid a past → (f a).LeadsWhile record good rounds post past) :
    (p.bind f).LeadsWhile record good rounds post past :=
  (Program.meets_bind ..).mpr (h.mono hf)

lemma andThen {p : Program Call Answer (Except ε α)} {f : α → Program Call Answer (Except ε β)}
    {post : Except ε β → List Event → Prop} {mid : Except ε α → List Event → Prop}
    (h : p.LeadsWhile record good rounds mid past)
    (hok : ∀ a past, mid (.ok a) past → (f a).LeadsWhile record good rounds post past)
    (herror : ∀ e past, mid (.error e) past → post (.error e) past) :
    (p.andThen f).LeadsWhile record good rounds post past := by
  refine h.bind fun r past hr => ?_
  cases r with
  | ok a => exact hok a past hr
  | error e => exact herror e past hr

end LeadsWhile

end Program

/-- What a request to a unit adds to the deeds of an activity. -/
def UnitCall.record (id : Nat) (c : UnitCall) : Option (c.Answer → Event) :=
  some fun answer => ⟨id, .onUnit c, answer⟩

/-- What a call of a node's program adds to the deeds of an activity, if it is a single action. -/
def NodeCall.record (id : Nat) : (c : NodeCall) → Option (c.Answer → Event)
  | .act action => some fun answer => ⟨id, action, answer⟩
  | .readTogether _ => none

/-- An activity that runs a program of the chain ends with a value and deeds of which `post` holds,
while all goes well. -/
abbrev ChainProgram.LeadsWhile (good : List Event → Prop) (rounds : Option Nat) (id : Nat)
    (post : α → List Event → Prop) (p : ChainProgram α) (past : List Event) : Prop :=
  Program.LeadsWhile (UnitCall.record id) good rounds post p past

namespace NodeProgram

/-- An activity that runs a program of a node ends with a value and deeds of which `post` holds,
while all goes well. -/
abbrev LeadsWhile (good : List Event → Prop) (rounds : Option Nat) (id : Nat)
    (post : α → List Event → Prop) (p : NodeProgram α) (past : List Event) : Prop :=
  Program.LeadsWhile (NodeCall.record id) good rounds post p past

variable {post : α → List Event → Prop}

lemma leadsWhile_act {action : Action} {post : action.Answer → List Event → Prop}
    (h : ∀ answer, good (past ++ [⟨id, action, answer⟩]) →
      post answer (past ++ [⟨id, action, answer⟩])) :
    LeadsWhile good rounds id post (act action) past := ⟨_, rfl, h⟩

lemma leadsWhile_ofChain {p : ChainProgram α} (h : p.LeadsWhile good rounds id post past) :
    LeadsWhile good rounds id post (ofChain p) past := by
  induction p generalizing past with
  | done a => exact h
  | call c next ih =>
    obtain ⟨_, ⟨⟩, hanswer⟩ := h
    exact ⟨_, rfl, fun answer hgood => ih answer (hanswer answer hgood)⟩
  | sleep d next ih => exact fun late => ih _ (h late)
  | unbounded p ih => exact fun n hn => ih n (h n hn)
  | unfinished => exact h

/-- What is led to whatever happens. -/
lemma leads_of_leadsWhile {p : NodeProgram α}
    (h : LeadsWhile (fun _ => True) none id post p past) : Leads id post p past := by
  induction p generalizing past with
  | done a => exact h
  | call c next ih =>
    obtain ⟨event, hevent, hanswer⟩ := h
    cases c with
    | act action =>
      cases hevent
      exact fun answer => ih answer (hanswer answer trivial)
    | readTogether reads => cases hevent
  | sleep d next ih => exact fun late => ih _ (h late)
  | unbounded p ih => exact fun n hn => ih n (h n hn)
  | unfinished => rfl

end NodeProgram

/-! ## Schedules -/

namespace World

variable {job : Job}

/-- What comes later on a schedule is some moves away. -/
lemma exists_after_eq_play (w : World) (schedule : Nat → Move) {k : Nat} (h : n ≤ k) :
    ∃ more, w.after schedule k = (w.after schedule n).play more := by
  induction h with
  | refl => exact ⟨[], rfl⟩
  | step _ ih =>
    obtain ⟨more, heq⟩ := ih
    exact ⟨more ++ [schedule _], by rw [after, heq, play_append, play_cons, play_nil]⟩

/-- An activity waits for its next turn, and does nothing until then. -/
lemma Tends.waits (h : Tends schedule id least) {a : Activity}
    (ha : (w.after schedule n).activities[id]? = some a) :
    ∃ m choice, schedule m = .advance id choice ∧
      (w.after schedule m).activities[id]? = some a ∧
      (w.after schedule m).scene.deeds id = (w.after schedule n).scene.deeds id := by
  obtain ⟨m, hnm, hturn⟩ := h.again n
  obtain ⟨d, rfl⟩ := Nat.exists_eq_add_of_le hnm
  clear hnm
  -- on the distance to a turn that will come
  induction d generalizing n with
  | zero =>
    obtain ⟨choice, hchoice⟩ := hturn
    exact ⟨n, choice, hchoice, ha, rfl⟩
  | succ d ih =>
    by_cases hnow : ∃ choice, schedule n = .advance id choice
    · obtain ⟨choice, hchoice⟩ := hnow
      exact ⟨n, choice, hchoice, ha, rfl⟩
    · have hother : ∀ choice, schedule n ≠ .advance id choice := fun choice hc => hnow ⟨choice, hc⟩
      have ha' : (w.after schedule (n + 1)).activities[id]? = some a :=
        activity_step hother (h.kept n) ha
      obtain ⟨m, choice, hchoice, hm, hdeeds⟩ := ih ha' (by rwa [Nat.add_assoc, Nat.add_comm 1 d])
      exact ⟨m, choice, hchoice, hm, hdeeds.trans (deeds_step hother)⟩

/-- What an activity leads to while all goes well it still leads to after its turn. -/
lemma Tends.turn_while {post : job.Result → List Event → Prop}
    {rest rest' : NodeProgram job.Result} {scene : Scene}
    (hchoice : schedule n = .advance id choice)
    (ha : (w.after schedule n).activities[id]? = some (.running job rest))
    (hstep : NodeProgram.advance id choice (w.after schedule n).scene rest = some (rest', scene))
    (hleads : rest'.LeadsWhile good rounds id post (scene.deeds id)) :
    (w.after schedule (n + 1)).activities[id]? = some (.running job rest') ∧
      rest'.LeadsWhile good rounds id post ((w.after schedule (n + 1)).scene.deeds id) := by
  obtain ⟨ha', hscene⟩ := activity_advance ha hstep
  rw [after, hchoice, hscene]
  exact ⟨ha', hleads⟩

/-- An activity returns if it has its turns, if all goes well and if its program cannot be left
unfinished then. -/
theorem Tends.returns_while (h : Tends schedule id least)
    (hgood : ∀ n, good ((w.after schedule n).scene.deeds id))
    {post : job.Result → List Event → Prop} {rest : NodeProgram job.Result}
    (ha : (w.after schedule n).activities[id]? = some (.running job rest))
    (hleads : rest.LeadsWhile good (some least) id post ((w.after schedule n).scene.deeds id)) :
    ∃ m result, (w.after schedule m).Returned id job result := by
  -- down the program; what it leads to stays so until the activity's next turn
  induction rest generalizing n with
  | done result =>
    obtain ⟨m, choice, hchoice, ha', -⟩ := h.waits ha
    have hid : id < (w.after schedule m).activities.length := (List.getElem?_eq_some_iff.mp ha').1
    refine ⟨m + 1, result, ?_⟩
    rw [Returned, after, hchoice]
    simp only [step, advance, ha']
    exact List.getElem?_set_self hid
  | call c next ih =>
    obtain ⟨event, hevent, hanswer⟩ := hleads
    cases c with
    | readTogether reads => cases hevent
    | act action =>
      cases hevent
      obtain ⟨m, choice, hchoice, ha', hdeeds⟩ := h.waits ha
      rw [← hdeeds] at hanswer
      obtain ⟨answer, scene, hact⟩ : ∃ answer scene,
          (w.after schedule m).scene.act id choice.now action = (answer, scene) := ⟨_, _, rfl⟩
      have hacts : (w.after schedule m).scene.Acts id action answer scene := ⟨choice.now, hact⟩
      have hstep : NodeProgram.advance id choice (w.after schedule m).scene
          (.call (.act action) next) = some (next answer, scene) := by
        simp only [NodeProgram.advance, hact]
      obtain ⟨-, hscene⟩ := activity_advance ha' hstep
      have hafter : (w.after schedule (m + 1)).scene = scene := by
        rw [after, hchoice, hscene]
      have hnow := hgood (m + 1)
      rw [hafter, hacts.deeds_self] at hnow
      obtain ⟨ha'', hleads''⟩ := turn_while hchoice ha' hstep
        (hacts.deeds_self ▸ hanswer answer hnow)
      exact ih answer ha'' hleads''
  | sleep d next ih =>
    obtain ⟨m, choice, hchoice, ha', hdeeds⟩ := h.waits ha
    obtain ⟨ha'', hleads''⟩ := turn_while hchoice ha' rfl (hdeeds ▸ hleads choice.late)
    exact ih _ ha'' hleads''
  | unbounded p ih =>
    obtain ⟨m, choice, hchoice, ha', hdeeds⟩ := h.waits ha
    have hlate : ∀ k ∈ some least, k ≤ choice.rounds := by
      rintro k ⟨⟩
      exact h.patient m choice hchoice
    obtain ⟨ha'', hleads''⟩ := turn_while hchoice ha' rfl (hdeeds ▸ hleads choice.rounds hlate)
    exact ih _ ha'' hleads''
  | unfinished => cases hleads

end World

end SharedLog
