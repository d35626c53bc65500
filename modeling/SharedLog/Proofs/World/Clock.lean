/-
# Interleavings on a clock

An interleaving says in which order things happen, but not when. Here one activity is followed on a
clock. Nothing that it does takes time, and it never tarries: time passes only while it sleeps, or
after it has ended. How long a sleep lasts is a habit of the worker. Others may go on whenever they
like, so that what is true here is true in particular if all of them keep to the clock.

What is shown of a program is shown step by step with the time that it has come to and with what has
been done for it so far, each event with its time (`ChainProgram.Paced`).
-/
import SharedLog.Program.Timeline
import SharedLog.Proofs.World.Course
import SharedLog.Proofs.World.Together

namespace SharedLog

variable {habits : Worker} {id : Nat} {job : Job} {α β ε : Type}

/-! ## One activity on a clock -/

/-- What can happen next: a move, which takes no time, or that time passes. -/
inductive Tick
  | move (m : Move)
  | pass (nanos : Nat)

/-- The move that is made, if one is. -/
def Tick.move? : Tick → Option Move
  | move m => some m
  | pass _ => none

/-- Only one activity goes on in the tick, with its loops cut off after some number of rounds. -/
def Tick.IsOwn (id rounds : Nat) : Tick → Prop
  | move m => ∃ choice, m = .advance id choice ∧ choice.rounds = rounds
  | pass _ => True

/-- Whether it is the turn of an activity. -/
def Move.isTurnOf (id : Nat) : Move → Bool
  | advance other _ => other = id
  | _ => false

lemma Move.isTurnOf_eq_false {m : Move} (h : ∀ choice, m ≠ .advance id choice) :
    m.isTurnOf id = false := by
  cases m with
  | advance other choice =>
    refine decide_eq_false fun hother => h choice ?_
    rw [hother]
  | start | drop | switch | join => rfl

/-- Whether an activity is under way. -/
def Activity.isRunning : Activity → Bool
  | running .. => true
  | _ => false

/-- How long an activity is about to sleep, if it is. -/
def World.sleeps? (w : World) (id : Nat) : Option Duration :=
  match w.activities[id]? with
  | some (.running _ (.sleep d _)) => some d
  | _ => none

/-- A world on a clock, with one activity that is followed. -/
structure Watch where
  world : World
  /-- The time in nanoseconds. -/
  now : Nat
  /-- When the activity goes on. -/
  due : Nat
  /-- When the activity has returned or was dropped. -/
  ended : Option Nat
  /-- What the activity has done, and when. -/
  log : List (Nat × Event)

namespace Watch

/-- A job is started at some time. -/
def start (w : World) (job : Job) (begun : Nat) : Watch :=
  ⟨w.step (.start job), begun, begun, none, []⟩

/-- A turn of the activity comes when it is due, and its sleeps last as long as they usually do. -/
def permits (habits : Worker) (id : Nat) (v : Watch) : Move → Bool
  | .advance other choice => other ≠ id || v.due ≤ v.now &&
      (v.world.sleeps? id).all fun d => choice.slept d = habits.lasts d
  | _ => true

/-- What comes of a move. -/
def make (habits : Worker) (id : Nat) (v : Watch) (m : Move) : Watch where
  world := v.world.step m
  now := v.now
  due := match m.isTurnOf id, v.world.sleeps? id with
    | true, some d => v.now + (habits.lasts d).nanos
    | _, _ => v.due
  ended :=
    if v.ended.isSome || (v.world.step m).activities[id]?.any Activity.isRunning then v.ended
    else some v.now
  log := v.log ++
    (((v.world.step m).scene.deeds id).drop v.log.length).map fun event => (v.now, event)

/-- What comes of a tick, if it can be. -/
def step (habits : Worker) (id : Nat) (v : Watch) : Tick → Option Watch
  | .pass nanos =>
    if v.ended.isSome || v.now + nanos ≤ v.due then some { v with now := v.now + nanos } else none
  | .move m => if v.permits habits id m then some (v.make habits id m) else none

/-- The time has come at which the activity goes on. -/
def atDue (v : Watch) : Watch := { v with now := v.due }

/-- What comes of some ticks, if they can be. -/
def run (habits : Worker) (id : Nat) (v : Watch) (ticks : List Tick) : Option Watch :=
  ticks.foldlM (step habits id) v

variable {v v' : Watch} {m : Move} {tick : Tick} {ticks : List Tick}

/-- How a tick comes about. -/
inductive Stepped (habits : Worker) (id : Nat) (v : Watch) : Tick → Watch → Prop
  | pass {nanos : Nat} (idle : v.ended = none → v.now + nanos ≤ v.due) :
    Stepped habits id v (.pass nanos) { v with now := v.now + nanos }
  | move {m : Move} (permits : ∀ choice, m = .advance id choice →
      v.due ≤ v.now ∧ ∀ d, v.world.sleeps? id = some d → choice.slept d = habits.lasts d) :
    Stepped habits id v (.move m) (v.make habits id m)

lemma stepped_of_step (h : v.step habits id tick = some v') : Stepped habits id v tick v' := by
  cases tick with
  | pass nanos =>
    obtain ⟨hidle, heq⟩ := Option.ite_none_right_eq_some.mp h
    obtain rfl := Option.some.inj heq
    refine .pass fun hended => ?_
    simpa [hended] using hidle
  | move m =>
    obtain ⟨hpermits, heq⟩ := Option.ite_none_right_eq_some.mp h
    obtain rfl := Option.some.inj heq
    refine .move fun choice hm => ?_
    subst hm
    simpa [permits, Option.all_eq_true] using hpermits

lemma run_append (v : Watch) (ticks more : List Tick) :
    v.run habits id (ticks ++ more) = (v.run habits id ticks).bind fun v' =>
      v'.run habits id more := List.foldlM_append

/-- What every tick keeps is kept by all of them. -/
lemma run_induction {P : Watch → Prop} (hv : P v)
    (hstep : ∀ {v tick v'}, tick ∈ ticks → P v → Stepped habits id v tick v' → P v')
    (hrun : v.run habits id ticks = some v') : P v' := by
  induction ticks generalizing v with
  | nil =>
    obtain rfl := Option.some.inj hrun
    exact hv
  | cons tick ticks ih =>
    obtain ⟨v₁, htick, hticks⟩ := Option.bind_eq_some_iff.mp hrun
    exact ih (hstep List.mem_cons_self hv (stepped_of_step htick))
      (fun hmem => hstep (List.mem_cons_of_mem _ hmem)) hticks

/-- What was noted down stays. -/
lemma log_prefix_run (hrun : v.run habits id ticks = some v') : v.log <+: v'.log := by
  refine run_induction (P := fun v' => v.log <+: v'.log) List.prefix_rfl (fun _ h hstep => ?_) hrun
  cases hstep with
  | pass => exact h
  | move => exact h.trans (List.prefix_append ..)

/-- What was noted down had happened by then. -/
lemma log_le_now {w : World} {begun : Nat}
    (hrun : (start w job begun).run habits id ticks = some v) :
    ∀ entry ∈ v.log, entry.1 ≤ v.now := by
  refine run_induction (P := fun v => ∀ entry ∈ v.log, entry.1 ≤ v.now) (fun _ h => by cases h)
    (fun _ h hstep entry hmem => ?_) hrun
  cases hstep with
  | pass => exact Nat.le_trans (h entry hmem) (Nat.le_add_right ..)
  | move =>
    rcases List.mem_append.mp hmem with hmem | hmem
    · exact h entry hmem
    · obtain ⟨event, -, rfl⟩ := List.mem_map.mp hmem
      exact Nat.le_refl _

/-- What the clock lets happen is an interleaving. -/
lemma world_run (hrun : v.run habits id ticks = some v') :
    v'.world = v.world.play (ticks.filterMap Tick.move?) := by
  induction ticks generalizing v with
  | nil =>
    obtain rfl := Option.some.inj hrun
    rfl
  | cons tick ticks ih =>
    obtain ⟨v₁, htick, hticks⟩ := Option.bind_eq_some_iff.mp hrun
    rw [ih hticks]
    cases stepped_of_step htick with
    | pass | move => rfl

end Watch

/-! ## Programs on the clock -/

/-- Events with the time at which they happen. -/
def stamped (t : Nat) (events : List Event) : List (Nat × Event) :=
  events.map fun event => (t, event)

@[simp] lemma stamped_nil (t : Nat) : stamped t [] = [] := rfl

lemma append_stamped (past : List (Nat × Event)) (t : Nat) (events more : List Event) :
    past ++ stamped t events ++ stamped t more = past ++ stamped t (events ++ more) := by
  simp [stamped]

@[simp] lemma map_snd_stamped (t : Nat) (events : List Event) :
    (stamped t events).map Prod.snd = events := by
  simp [stamped, Function.comp_def]

lemma mem_stamped {t : Nat} {events : List Event} {entry : Nat × Event} :
    entry ∈ stamped t events ↔ entry.1 = t ∧ entry.2 ∈ events := by
  simp only [stamped, List.mem_map]
  constructor
  · rintro ⟨event, hmem, rfl⟩
    exact ⟨rfl, hmem⟩
  · rintro ⟨rfl, hmem⟩
    exact ⟨entry.2, hmem, rfl⟩

/-- A program that has come to a time, with what has been done for it so far, is as it should be as
long as it goes on. It ends at a time with a value and with deeds of which `post` holds. It does end
if its loops are not cut off before some number of rounds. -/
def ChainProgram.Paced (habits : Worker) (id : Nat) (rounds : Option Nat)
    (always : Nat → List (Nat × Event) → Prop) (post : α → Nat → List (Nat × Event) → Prop) :
    ChainProgram α → Nat → List (Nat × Event) → Prop
  | .done a, t, past => post a t past
  | .call c next, t, past => always t past ∧ ∀ answer, Paced habits id rounds always post
    (next answer) t (past ++ stamped t [⟨id, .onUnit c, answer⟩])
  | .sleep d next, t, past => always t past ∧ Paced habits id rounds always post
    (next (habits.lasts d)) (t + (habits.lasts d).nanos) past
  | .unbounded p, t, past => always t past ∧ ∀ n, (∀ least ∈ rounds, least ≤ n) →
    Paced habits id rounds always post (p n) t past
  | .unfinished, t, past => always t past ∧ rounds = none

namespace ChainProgram.Paced

variable {rounds : Option Nat} {always : Nat → List (Nat × Event) → Prop} {t : Nat}
  {past : List (Nat × Event)} {mid post : α → Nat → List (Nat × Event) → Prop} {p : ChainProgram α}

/-- A program goes on or has ended. -/
lemma now (h : p.Paced habits id rounds always post t past) :
    always t past ∨ ∃ a, p = .done a ∧ post a t past := by
  cases p with
  | done a => exact .inr ⟨a, rfl, h⟩
  | call | sleep | unbounded | unfinished => exact .inl h.1

lemma bind {post : β → Nat → List (Nat × Event) → Prop} {f : α → ChainProgram β}
    (h : p.Paced habits id rounds always mid t past)
    (hf : ∀ a t past, mid a t past →
      ChainProgram.Paced habits id rounds always post (f a) t past) :
    ChainProgram.Paced habits id rounds always post (p.bind f) t past := by
  induction p generalizing t past with
  | done a => exact hf a t past h
  | call c next ih => exact ⟨h.1, fun answer => ih answer (h.2 answer)⟩
  | sleep d next ih => exact ⟨h.1, ih _ h.2⟩
  | unbounded p ih => exact ⟨h.1, fun n hn => ih n (h.2 n hn)⟩
  | unfinished => exact h

lemma mono (h : p.Paced habits id rounds always mid t past)
    (hpost : ∀ a t past, mid a t past → post a t past) :
    p.Paced habits id rounds always post t past := by
  rw [← p.bind_done]
  exact h.bind fun a t past hmid => hpost a t past hmid

lemma andThen {p : ChainProgram (Except ε α)} {f : α → ChainProgram (Except ε β)}
    {mid : Except ε α → Nat → List (Nat × Event) → Prop}
    {post : Except ε β → Nat → List (Nat × Event) → Prop}
    (h : p.Paced habits id rounds always mid t past)
    (hok : ∀ a t past, mid (.ok a) t past →
      ChainProgram.Paced habits id rounds always post (f a) t past)
    (herror : ∀ e t past, mid (.error e) t past → post (.error e) t past) :
    ChainProgram.Paced habits id rounds always post (p.andThen f) t past := by
  refine h.bind fun r t past hr => ?_
  cases r with
  | ok a => exact hok a t past hr
  | error e => exact herror e t past hr

/-- Failures are renamed before the program goes on. -/
lemma mapErrorThen {ε' : Type} {g : ε → ε'} {p : ChainProgram (Except ε α)}
    {f : α → ChainProgram (Except ε' β)} {mid : Except ε α → Nat → List (Nat × Event) → Prop}
    {post : Except ε' β → Nat → List (Nat × Event) → Prop}
    (h : p.Paced habits id rounds always mid t past)
    (hok : ∀ a t past, mid (.ok a) t past →
      ChainProgram.Paced habits id rounds always post (f a) t past)
    (herror : ∀ e t past, mid (.error e) t past → post (.error (g e)) t past) :
    ChainProgram.Paced habits id rounds always post ((p.mapError g).andThen f) t past := by
  rw [Program.mapError, Program.andThen, Program.bind_assoc]
  refine h.bind fun r t past hr => ?_
  cases r with
  | ok a => exact hok a t past hr
  | error e => exact herror e t past hr

end ChainProgram.Paced

/-! ## Activities on the clock -/

/-- An activity that is over stays as it is, and does nothing more. -/
lemma World.over_step {w : World} {a : Activity} (ha : w.activities[id]? = some a)
    (hover : a.isRunning = false) (m : Move) :
    (w.step m).activities[id]? = some a ∧ (w.step m).scene.deeds id = w.scene.deeds id := by
  have hid : id < w.activities.length := (List.getElem?_eq_some_iff.mp ha).1
  obtain ⟨a', ha'⟩ : ∃ a', (w.step m).activities[id]? = some a' :=
    ⟨_, List.getElem?_eq_getElem (Nat.lt_of_lt_of_le hid (nextId_le_step w m))⟩
  have hbecame := became ha'
  cases hbecame with
  | same before deeds => exact ⟨ha'.trans (before.symm.trans ha), deeds⟩
  | onward running | returned turn running | dropped running =>
    obtain rfl := Option.some.inj (running.symm.trans ha)
    cases hover
  | started start new => exact absurd hid (by simp [new, nextId])

namespace Watch

variable {rounds : Option Nat} {always : Nat → List (Nat × Event) → Prop}
  {post : job.Result → Nat → List (Nat × Event) → Prop}
  {v v' : Watch} {m : Move} {tick : Tick} {ticks : List Tick} {more : List Event}
  {p : ChainProgram job.Result}

/-- The log tells of all deeds of the activity. -/
def Logs (id : Nat) (v : Watch) : Prop := v.log.map Prod.snd = v.world.scene.deeds id

/-- What is done in a move is noted down with the time. -/
lemma Logs.log_make (h : v.Logs id)
    (hmore : (v.world.step m).scene.deeds id = v.world.scene.deeds id ++ more) :
    (v.make habits id m).log = v.log ++ stamped v.now more := by
  have hlength : v.log.length = (v.world.scene.deeds id).length := by
    rw [← h, List.length_map]
  simp only [make, hmore, hlength, List.drop_left, stamped]

lemma Logs.log_make_of_silent (h : v.Logs id)
    (hsilent : (v.world.step m).scene.deeds id = v.world.scene.deeds id) :
    (v.make habits id m).log = v.log := by
  rw [h.log_make (hsilent.trans (List.append_nil _).symm)]
  exact List.append_nil _

lemma Logs.step (h : v.Logs id) (hstep : Stepped habits id v tick v') : v'.Logs id := by
  cases hstep with
  | pass => exact h
  | @move m =>
    obtain ⟨more, hmore⟩ := World.deeds_mono (w := v.world) (List.nil_prefix (l := [m])) id
    rw [Logs, h.log_make hmore.symm, List.map_append, h, map_snd_stamped]
    exact hmore

/-- An activity under way that has still to do a program. -/
structure Running (habits : Worker) (id : Nat) (job : Job) (rounds : Option Nat)
    (always : Nat → List (Nat × Event) → Prop)
    (post : job.Result → Nat → List (Nat × Event) → Prop) (p : ChainProgram job.Result)
    (v : Watch) : Prop where
  here : v.world.activities[id]? = some (.running job (.ofChain p))
  ended : v.ended = none
  time : v.now ≤ v.due
  paced : p.Paced habits id rounds always post v.due v.log

/-- An activity that has returned. -/
structure Over (id : Nat) (job : Job) (post : job.Result → Nat → List (Nat × Event) → Prop)
    (result : job.Result) (v : Watch) : Prop where
  here : v.world.Returned id job result
  ended : v.ended = some v.due
  ends : post result v.due v.log

/-- What is known of an activity on the clock whose program was shown to be as it should: of what it
has still to do, of what it has ended with, or that it was dropped. -/
inductive Pacing (habits : Worker) (id : Nat) (job : Job) (rounds : Option Nat)
    (always : Nat → List (Nat × Event) → Prop)
    (post : job.Result → Nat → List (Nat × Event) → Prop) (v : Watch) : Prop
  | running {p : ChainProgram job.Result} (h : v.Running habits id job rounds always post p) :
    Pacing habits id job rounds always post v
  | returned {result : job.Result} (h : v.Over id job post result) :
    Pacing habits id job rounds always post v
  | dropped (here : v.world.activities[id]? = some (.dropped job)) (ended : v.ended.isSome)
      (held : always v.due v.log ∨ ∃ result, post result v.due v.log) :
      Pacing habits id job rounds always post v

/-- A move that leaves the activity as it is. -/
lemma make_of_idle (habits : Worker) (h : v.Logs id) {a : Activity}
    (ha : (v.world.step m).activities[id]? = some a)
    (hdeeds : (v.world.step m).scene.deeds id = v.world.scene.deeds id)
    (hended : v.ended = none → a.isRunning = true)
    (hdue : m.isTurnOf id = true → v.world.sleeps? id = none) :
    (v.make habits id m).log = v.log ∧ (v.make habits id m).ended = v.ended ∧
      (v.make habits id m).due = v.due := by
  refine ⟨?_, ?_, ?_⟩
  · exact h.log_make_of_silent hdeeds
  · simp only [make, ha, Option.any_some]
    cases hover : v.ended with
    | none => simp [hended hover]
    | some t => simp
  · simp only [make]
    cases hturn : m.isTurnOf id with
    | false => rfl
    | true => simp [hdue hturn]

namespace Running

/-- A turn in which the activity goes on. -/
lemma onward (h : v.Running habits id job rounds always post p) (hlog : v.Logs id)
    {p' : ChainProgram job.Result}
    (here : (v.world.step m).activities[id]? = some (.running job (.ofChain p')))
    (hdeeds : (v.world.step m).scene.deeds id = v.world.scene.deeds id ++ more) {t : Nat}
    (hdue : (v.make habits id m).due = t) (htime : v.now ≤ t)
    (hpaced : p'.Paced habits id rounds always post t (v.log ++ stamped v.now more)) :
    (v.make habits id m).Running habits id job rounds always post p' := by
  subst hdue
  refine ⟨here, ?_, htime, ?_⟩
  · simp [make, here, h.ended, Activity.isRunning]
  · rwa [hlog.log_make hdeeds]

/-- A turn in which the activity goes on without doing anything. -/
lemma onward_silent (h : v.Running habits id job rounds always post p) (hlog : v.Logs id)
    {p' : ChainProgram job.Result}
    (here : (v.world.step m).activities[id]? = some (.running job (.ofChain p')))
    (hscene : (v.world.step m).scene = v.world.scene) {t : Nat}
    (hdue : (v.make habits id m).due = t) (htime : v.now ≤ t)
    (hpaced : p'.Paced habits id rounds always post t v.log) :
    (v.make habits id m).Running habits id job rounds always post p' := by
  have hdeeds : (v.world.step m).scene.deeds id = v.world.scene.deeds id ++ [] := by
    rw [hscene, List.append_nil]
  refine h.onward hlog here hdeeds hdue htime ?_
  rwa [stamped_nil, List.append_nil]

/-- A turn of an activity that has nothing left to do. -/
lemma returns {result : job.Result}
    (h : v.Running habits id job rounds always post (.done result)) (hlog : v.Logs id)
    (htime : v.now = v.due) (choice : Choice) :
    (v.make habits id (.advance id choice)).Over id job post result := by
  have here' : v.world.activities[id]? = some (.running job (.done result)) := h.here
  have hsleeps : v.world.sleeps? id = none := by simp only [World.sleeps?, here']
  have hstep : v.world.step (.advance id choice) =
      { scene := { v.world.scene with node := job.conclude v.world.scene.node result }
        activities := v.world.activities.set id (.returned job result) } := by
    simp only [World.step, World.advance, here']
  have hreturned : (v.world.step (.advance id choice)).Returned id job result := by
    rw [hstep]
    exact List.getElem?_set_self (List.getElem?_eq_some_iff.mp h.here).1
  have hlog' : (v.make habits id (.advance id choice)).log = v.log := by
    refine hlog.log_make_of_silent ?_
    rw [hstep]
    rfl
  have hturn : (Move.advance id choice).isTurnOf id = true := decide_eq_true rfl
  have hdue : (v.make habits id (.advance id choice)).due = v.due := by
    simp only [make, hturn, hsleeps]
  refine ⟨hreturned, ?_, ?_⟩
  · have hover : ((v.world.step (.advance id choice)).activities[id]?.any
        Activity.isRunning) = false := by
      rw [show (v.world.step (.advance id choice)).activities[id]? = _ from hreturned]
      rfl
    rw [hdue]
    simp [make, hover, h.ended, htime]
  · rw [hdue, hlog']
    exact h.paced

/-- A turn of an activity that has something left to do. It goes on, unless its loop was cut off. -/
lemma turn (h : v.Running habits id job rounds always post p) (hlog : v.Logs id)
    (htime : v.now = v.due) (hdone : ∀ result, p ≠ .done result) {choice : Choice}
    (hslept : ∀ d, v.world.sleeps? id = some d → choice.slept d = habits.lasts d)
    (hrounds : ∀ least ∈ rounds, least ≤ choice.rounds) :
    ∃ p', (v.make habits id (.advance id choice)).Running habits id job rounds always post p' ∧
      (Program.Rest p' p ∨ rounds = none) := by
  have hturn : (Move.advance id choice).isTurnOf id = true := decide_eq_true rfl
  have here := h.here
  have hpaced := h.paced
  -- only a sleep puts off the next turn
  have hdue : v.world.sleeps? id = none →
      (v.make habits id (.advance id choice)).due = v.due := fun hsleeps => by
    simp only [make, hturn, hsleeps]
  cases p with
  | done result => exact absurd rfl (hdone result)
  | call c next =>
    have hstep : NodeProgram.advance id choice v.world.scene (.ofChain (.call c next)) =
        some (.ofChain (next (v.world.scene.act id choice.now (.onUnit c)).1),
          (v.world.scene.act id choice.now (.onUnit c)).2) := rfl
    obtain ⟨ha, hscene⟩ := World.activity_advance here hstep
    have hdeeds : (v.world.step (.advance id choice)).scene.deeds id = v.world.scene.deeds id ++
        [⟨id, .onUnit c, (v.world.scene.act id choice.now (.onUnit c)).1⟩] := by
      rw [hscene]
      exact Scene.Acts.deeds_self ⟨choice.now, rfl⟩
    refine ⟨_, h.onward hlog ha hdeeds (hdue ?_) (Nat.le_of_eq htime) ?_, .inl (.call ..)⟩
    · simp only [World.sleeps?, here]
      rfl
    · rw [htime]
      exact hpaced.2 _
  | sleep d next =>
    have hstep : NodeProgram.advance id choice v.world.scene (.ofChain (.sleep d next)) =
        some (.ofChain (next (choice.slept d)), v.world.scene) := rfl
    obtain ⟨ha, hscene⟩ := World.activity_advance here hstep
    have hsleeps : v.world.sleeps? id = some d := by
      simp only [World.sleeps?, here]
      rfl
    rw [hslept d hsleeps] at ha
    have hlater : (v.make habits id (.advance id choice)).due =
        v.due + (habits.lasts d).nanos := by
      simp only [make, hturn, hsleeps, htime]
    exact ⟨_, h.onward_silent hlog ha hscene hlater (by omega) hpaced.2, .inl (.sleep ..)⟩
  | unbounded p =>
    have hstep : NodeProgram.advance id choice v.world.scene (.ofChain (.unbounded p)) =
        some (.ofChain (p choice.rounds), v.world.scene) := rfl
    obtain ⟨ha, hscene⟩ := World.activity_advance here hstep
    refine ⟨_, h.onward_silent hlog ha hscene (hdue ?_) (Nat.le_of_eq htime)
      (hpaced.2 choice.rounds hrounds), .inl (.unbounded ..)⟩
    simp only [World.sleeps?, here]
    rfl
  | unfinished =>
    have hstep : v.world.step (.advance id choice) = v.world := by
      simp only [World.step, World.advance, here]
      rfl
    refine ⟨.unfinished, h.onward_silent hlog (by rw [hstep, here]) (congrArg World.scene hstep)
      (hdue ?_) (Nat.le_of_eq htime) hpaced, .inr hpaced.2⟩
    simp only [World.sleeps?, here]
    rfl

/-- A move of others. -/
lemma aside (h : v.Running habits id job rounds always post p) (hlog : v.Logs id)
    (hturn : ∀ choice, m ≠ .advance id choice) (hdrop : m ≠ .drop id) :
    (v.make habits id m).Running habits id job rounds always post p := by
  have hnot := Move.isTurnOf_eq_false hturn
  have here' := World.activity_step hturn hdrop h.here
  obtain ⟨hlog', hended', hdue'⟩ := make_of_idle habits hlog here' (World.deeds_step hturn)
    (fun _ => rfl) fun hturn' => absurd hturn' (by simp [hnot])
  refine ⟨here', hended'.trans h.ended, hdue'.symm ▸ h.time, ?_⟩
  rw [hdue', hlog']
  exact h.paced

/-- An activity is dropped on its way. -/
lemma drop (h : v.Running habits id job rounds always post p) (hlog : v.Logs id) :
    (v.make habits id (.drop id)).world.activities[id]? = some (.dropped job) ∧
      (v.make habits id (.drop id)).ended.isSome ∧ (v.make habits id (.drop id)).log = v.log := by
  have hdropped : (v.world.step (.drop id)).activities[id]? = some (.dropped job) := by
    simp only [World.step, h.here]
    exact List.getElem?_set_self (List.getElem?_eq_some_iff.mp h.here).1
  refine ⟨hdropped, ?_, hlog.log_make_of_silent (World.deeds_step ?_)⟩
  · simp [make, hdropped, h.ended, Activity.isRunning]
  · rintro choice ⟨⟩

/-- The next turn of an activity can come when it is due. -/
lemma exists_turn (h : v.Running habits id job rounds always post p)
    (hlate : ∀ d, ∃ late, habits.lasts d = (min d Worker.longestSleep).add late) (n : Nat) :
    ∃ choice, choice.rounds = n ∧
      (∀ d, v.world.sleeps? id = some d → choice.slept d = habits.lasts d) ∧
      ∀ more, v.run habits id (.pass (v.due - v.now) :: .move (.advance id choice) :: more) =
        (v.atDue.make habits id (.advance id choice)).run habits id more := by
  have hpass : v.step habits id (.pass (v.due - v.now)) = some v.atDue := by
    have htime := h.time
    simp only [step, atDue, h.ended, Nat.add_sub_cancel' htime, Nat.le_refl, decide_true,
      Bool.or_true, if_true]
  obtain ⟨choice, hchoice, hslept⟩ : ∃ choice : Choice, choice.rounds = n ∧
      ∀ d, v.world.sleeps? id = some d → choice.slept d = habits.lasts d := by
    cases v.world.sleeps? id with
    | none => exact ⟨.prompt n, rfl, nofun⟩
    | some d =>
      obtain ⟨late, hd⟩ := hlate d
      refine ⟨⟨Timestamp.epoch, late, n, 0⟩, rfl, fun d' hd' => ?_⟩
      obtain rfl := Option.some.inj hd'
      exact hd.symm
  refine ⟨choice, hchoice, hslept, fun more => ?_⟩
  have hpermits : v.atDue.permits habits id (.advance id choice) := by
    simpa [permits, atDue, Option.all_eq_true] using hslept
  have hmove : v.atDue.step habits id (.move (.advance id choice)) =
      some (v.atDue.make habits id (.advance id choice)) := if_pos hpermits
  rw [run, List.foldlM_cons, hpass, Option.bind_eq_bind, Option.bind_some, List.foldlM_cons, hmove,
    Option.bind_eq_bind, Option.bind_some, run]

/-- If nobody else goes on, and its loops are not cut off too early, an activity ends. -/
lemma settles {least : Nat} (h : v.Running habits id job (some least) always post p)
    (hlog : v.Logs id)
    (hlate : ∀ d, ∃ late, habits.lasts d = (min d Worker.longestSleep).add late) :
    ∃ more v' result, (∀ tick ∈ more, tick.IsOwn id least) ∧ v.run habits id more = some v' ∧
      v'.Over id job post result := by
  induction p using Program.wellFounded_rest.induction generalizing v with
  | _ p ih =>
    obtain ⟨choice, hchoice, hslept, hrun⟩ := h.exists_turn hlate least
    have hdue : v.atDue.Running habits id job (some least) always post p :=
      ⟨h.here, h.ended, Nat.le_refl _, h.paced⟩
    have hlog' : v.atDue.Logs id := hlog
    have hown : ∀ more : List Tick, (∀ tick ∈ more, tick.IsOwn id least) →
        ∀ tick ∈ .pass (v.due - v.now) :: .move (.advance id choice) :: more,
          tick.IsOwn id least := by
      intro more hmore tick hmem
      rcases List.mem_cons.mp hmem with rfl | hmem
      · trivial
      · rcases List.mem_cons.mp hmem with rfl | hmem
        · exact ⟨choice, rfl, hchoice⟩
        · exact hmore tick hmem
    by_cases hdone : ∃ result, p = .done result
    · obtain ⟨result, rfl⟩ := hdone
      exact ⟨_, _, result, hown [] nofun, hrun [], hdue.returns hlog' rfl choice⟩
    · obtain ⟨p', hnext, hrest⟩ := hdue.turn hlog' rfl (fun result heq => hdone ⟨result, heq⟩)
        hslept fun least' hleast' => hchoice.symm ▸ (Option.some.inj hleast').symm ▸ Nat.le_refl _
      obtain ⟨more, v', result, hmore, hend, hover⟩ := ih p' (hrest.resolve_right nofun) hnext
        (hlog'.step (.move fun choice' heq => ⟨Nat.le_refl _, by cases heq; exact hslept⟩))
      exact ⟨_, v', result, hown more hmore, (hrun more).trans hend, hover⟩

end Running

namespace Pacing

/-- An activity goes on, or what it ends with is settled. -/
lemma held (h : v.Pacing habits id job rounds always post) :
    always v.due v.log ∨ ∃ result, post result v.due v.log := by
  cases h with
  | running h => exact h.paced.now.imp_right (Exists.imp fun _ => And.right)
  | returned h => exact .inr ⟨_, h.ends⟩
  | dropped here ended held => exact held

/-- An activity has returned what is settled. -/
lemma ends {result : job.Result} (h : v.Pacing habits id job rounds always post)
    (hreturned : v.world.Returned id job result) :
    v.ended = some v.due ∧ post result v.due v.log := by
  cases h with
  | running h => cases hreturned.symm.trans h.here
  | returned h =>
    cases hreturned.symm.trans h.here
    exact ⟨h.ended, h.ends⟩
  | dropped here => cases hreturned.symm.trans here

/-- The time does not go on without an activity that is under way. -/
lemma now_le (h : v.Pacing habits id job rounds always post) (hended : v.ended = none) :
    v.now ≤ v.due := by
  cases h with
  | running h => exact h.time
  | returned h => cases h.ended.symm.trans hended
  | dropped here ended => simp [hended] at ended

/-- A tick. -/
lemma step (h : v.Pacing habits id job rounds always post) (hlog : v.Logs id)
    (hrounds : ∀ choice, tick = .move (.advance id choice) → ∀ least ∈ rounds,
      least ≤ choice.rounds)
    (hstep : Stepped habits id v tick v') : v'.Pacing habits id job rounds always post := by
  cases hstep with
  | pass idle =>
    cases h with
    | running h => exact .running ⟨h.here, h.ended, idle h.ended, h.paced⟩
    | returned h => exact .returned ⟨h.here, h.ended, h.ends⟩
    | dropped here ended held => exact .dropped here ended held
  | @move m permits =>
    cases h with
    | @running p h =>
      by_cases hturn : ∃ choice, m = .advance id choice
      · obtain ⟨choice, rfl⟩ := hturn
        obtain ⟨hdue, hslept⟩ := permits choice rfl
        have htime := Nat.le_antisymm h.time hdue
        by_cases hdone : ∃ result, p = .done result
        · obtain ⟨result, rfl⟩ := hdone
          exact .returned (h.returns hlog htime choice)
        · obtain ⟨p', h', -⟩ := h.turn hlog htime (fun result heq => hdone ⟨result, heq⟩) hslept
            (hrounds choice rfl)
          exact .running h'
      · by_cases hdrop : m = .drop id
        · subst hdrop
          obtain ⟨here', hended', hlog'⟩ := h.drop hlog
          exact .dropped here' hended' (hlog'.symm ▸ (running h).held)
        · exact .running (h.aside hlog (fun choice heq => hturn ⟨choice, heq⟩) hdrop)
    | returned h =>
      obtain ⟨here', hdeeds⟩ := World.over_step h.here rfl m
      obtain ⟨hlog', hended', hdue'⟩ := make_of_idle habits hlog here' hdeeds
        (fun hnone => by simp [h.ended] at hnone) fun _ => by
          simp only [World.sleeps?, show v.world.activities[id]? = _ from h.here]
      refine .returned ⟨here', ?_, ?_⟩
      · rw [hended', hdue', h.ended]
      · rw [hdue', hlog']
        exact h.ends
    | dropped here ended held =>
      obtain ⟨here', hdeeds⟩ := World.over_step here rfl m
      obtain ⟨hlog', hended', hdue'⟩ := make_of_idle habits hlog here' hdeeds
        (fun hnone => by simp [hnone] at ended) fun _ => by
          simp only [World.sleeps?, here]
      exact .dropped here' (hended'.symm ▸ ended) (by rwa [hdue', hlog'])

end Pacing

/-! ## Whole runs -/

/-- The loops that an activity enters are cut off late enough. -/
def Lets (id : Nat) (rounds : Option Nat) (ticks : List Tick) : Prop :=
  ∀ choice, .move (.advance id choice) ∈ ticks → ∀ least ∈ rounds, least ≤ choice.rounds

/-- A job whose program was shown to be as it should, on the clock. -/
theorem pacing_run {w : World} {begun : Nat} (hw : w.Attributed)
    (hjob : job.isLayout = false) (hprogram : job.program? w.scene.node = some (.ofChain p))
    (hpaced : p.Paced habits w.nextId rounds always post begun [])
    (hrounds : Lets w.nextId rounds ticks)
    (hrun : (Watch.start w job begun).run habits w.nextId ticks = some v) :
    v.Logs w.nextId ∧ v.Pacing habits w.nextId job rounds always post := by
  have hstart : w.step (.start job) =
      { w with activities := w.activities ++ [.running job (.ofChain p)] } :=
    World.step_start_eq hjob hprogram
  refine run_induction (P := fun v => v.Logs w.nextId ∧
    v.Pacing habits w.nextId job rounds always post) ?_ (fun hmem h hstep => ?_) hrun
  · constructor
    · rw [Logs, start, hstart]
      exact hw.deeds_nextId.symm
    · refine .running ⟨?_, rfl, Nat.le_refl _, hpaced⟩
      rw [start, hstart, World.nextId]
      exact List.getElem?_concat_length
  · exact ⟨h.1.step hstep, h.2.step h.1 (fun choice heq => hrounds choice (heq ▸ hmem)) hstep⟩

end Watch

end SharedLog
