/-
# Reads whose order does not matter

What a read of a position comes to is decided before it begins, if nobody writes: the value that the
head holds, or a hole where it holds nothing. Readers of other positions do not change that, and
other readers of the same position come to the same. So positions that are read together, with their
reads interleaved in any way, have the values that they have when they are read one by one, in any
order and as often as one likes, and the units hold the same in the end.
-/
import Mathlib.Data.Nat.Pairing
import SharedLog.Proofs.Node.Outcome
import SharedLog.Proofs.World.Following
import SharedLog.Proofs.World.Together

namespace SharedLog

variable {base s s' : Scene} {positions order : List Position} {id i : Nat} {p : Position}
  {v : LogData} {w w' : World} {job : Job}

/-! ## Decisions -/

namespace Scene

/-- What a read decides at a position: on the value that the head holds, or on a hole. -/
def decision (s : Scene) (p : Position) : LogData := (s.slot Chain.head p).getD .hole

/-- All units hold the decisions at some positions, and nothing has changed elsewhere. -/
def Decides (s : Scene) (positions : List Position) (s' : Scene) : Prop :=
  ∀ i p, s'.slot i p =
    if p ∈ positions ∧ i < s.node.units.length then some (s.decision p) else s.slot i p

namespace Decides

lemma refl (s : Scene) : s.Decides [] s := by simp [Decides]

/-- The order in which the positions are listed does not matter. -/
lemma congr (h : s.Decides positions s') (hsame : ∀ p, p ∈ order ↔ p ∈ positions) :
    s.Decides order s' := by
  simpa only [Decides, hsame] using h

/-- A decision stays as it is. -/
lemma decision (h : s.Decides positions s') (p : Position) : s'.decision p = s.decision p := by
  rw [Scene.decision, h Chain.head p]
  split <;> rfl

/-- Some positions are decided after other ones. -/
lemma trans {s'' : Scene} (h : s.Decides positions s') (h' : s'.Decides order s'')
    (hlength : s'.node.units.length = s.node.units.length) :
    s.Decides (positions ++ order) s'' := by
  intro i p
  rw [h' i p, h i p, hlength, h.decision]
  simp only [List.mem_append]
  split_ifs <;> first | rfl | tauto

end Decides

/-- A value that any unit holds is decided on. -/
lemma Sound.decision_eq (h : s.Sound) (hv : s.slot i p = some v) : s.decision p = v := by
  have hhead : s.slot Chain.head p = some v := h.headward (Nat.zero_le i) hv
  rw [decision, hhead, Option.getD_some]

/-- Some positions are being decided. -/
structure Deciding (base : Scene) (positions : List Position) (s : Scene) : Prop where
  origin : base.Sound
  sound : s.Sound
  grows : base.Grows s
  slot : ∀ i p, s.slot i p = base.slot i p ∨
    p ∈ positions ∧ s.slot i p = some (base.decision p)

/-- What is done to decide some positions. -/
def Resolves (positions : List Position) (s : Scene) : Action → Prop
  | .onUnit (.peek ..) => True
  | .onUnit (.write 0 p data) => p ∈ positions ∧ data = .hole
  | .onUnit (.write (i + 1) p data) => p ∈ positions ∧ s.slot i p = some data
  | _ => False

namespace Deciding

lemma refl (h : s.Sound) (positions : List Position) : s.Deciding positions s :=
  ⟨h, h, .refl s, fun _ _ => .inl rfl⟩

/-- What a unit holds is the decision. -/
lemma decision_eq (h : base.Deciding positions s) (hv : s.slot i p = some v) :
    base.decision p = v := by
  rcases h.slot i p with heq | ⟨-, heq⟩
  · exact h.origin.decision_eq (heq ▸ hv)
  · exact Option.some.inj (heq.symm.trans hv)

lemma of_calm (h : base.Deciding positions s) (hcalm : s.Calm s') :
    base.Deciding positions s' :=
  ⟨h.origin, h.sound.of_calm hcalm, h.grows.trans (.of_calm hcalm),
    fun i p => by rw [hcalm.slot]; exact h.slot i p⟩

lemma of_acts (h : base.Deciding positions s) {action : Action} {answer : action.Answer}
    (hresolves : s.Resolves positions action) (hacts : s.Acts id action answer s') :
    base.Deciding positions s' := by
  have hcopies : s.Copies action := by
    match action, hresolves with
    | .onUnit (.peek ..), _ => trivial
    | .onUnit (.write 0 ..), _ => trivial
    | .onUnit (.write (i + 1) ..), hresolves => exact hresolves.2
  refine ⟨h.origin, h.sound.of_acts hcopies hacts, h.grows.trans (.of_acts hacts), fun i p => ?_⟩
  rcases hacts.slot i p with heq | ⟨hnone, d, hd, hevent⟩
  · rw [heq]
    exact h.slot i p
  · obtain rfl : action = .onUnit (.write i p d) := by injection hevent
    rw [hd]
    cases i with
    | zero =>
      -- the head held nothing in the beginning
      obtain ⟨hp, rfl⟩ := hresolves
      have hempty : base.slot Chain.head p = none := by
        cases hslot : base.slot Chain.head p with
        | none => rfl
        | some v => cases hnone.symm.trans (h.grows.slot hslot)
      exact .inr ⟨hp, by rw [decision, hempty]; rfl⟩
    | succ i =>
      obtain ⟨hp, hbefore⟩ := hresolves
      exact .inr ⟨hp, congrArg some (h.decision_eq hbefore).symm⟩

/-- When all positions are committed, they are decided. -/
lemma decides (h : base.Deciding positions s)
    (hcommitted : ∀ p ∈ positions, ∃ v, s.Committed p v) : base.Decides positions s := by
  intro i p
  split
  next hp =>
    obtain ⟨v, hv⟩ := hcommitted p hp.1
    have hslot : s.slot i p = some v := committed_iff.mp hv i (h.grows.length ▸ hp.2)
    rw [hslot, h.decision_eq hslot]
  next hother =>
    rcases h.slot i p with heq | ⟨hp, heq⟩
    · exact heq
    · -- there is a unit, since it holds something
      refine absurd ⟨hp, ?_⟩ hother
      rw [← h.grows.length]
      by_contra hi
      rw [Scene.slot, List.getElem?_eq_none (Nat.not_lt.mp hi)] at heq
      cases heq

end Deciding

end Scene

/-- Some positions are decided, and nothing else is done. -/
def decidingLaw (base : Scene) (positions : List Position) (rounds : Option Nat) : Law where
  holds := base.Deciding positions
  later := Scene.Grows
  allows action s := s.Resolves positions action
  heeds _ _ := True
  rounds := rounds
  later_refl := Scene.Grows.refl
  later_trans := Scene.Grows.trans
  act_keeps h hallows hacts := ⟨.of_acts hacts, h.of_acts hallows hacts⟩
  calm_keeps h hcalm := ⟨.of_calm hcalm, h.of_calm hcalm⟩

lemma decidingLaw_unconditional : (decidingLaw base positions none).Unconditional :=
  ⟨fun _ _ => trivial, rfl⟩

/-- Who keeps the law may decide any of the positions. -/
lemma decidingLaw_filling {rounds : Option Nat} (hp : p ∈ positions) :
    (decidingLaw base positions rounds).Filling p where
  sound h := h.sound
  grows h := h
  allows_peek _ _ _ := trivial
  allows_hole _ := ⟨hp, rfl⟩
  allows_copy _ h := ⟨hp, h⟩

lemma decidingLaw_watching {rounds : Option Nat} :
    (decidingLaw base positions rounds).Watching where
  sound h := h.sound
  grows h := h
  allows_peek _ _ _ := trivial

/-! ## Jobs that read -/

namespace Job

/-- A job reads nothing but some positions. -/
def ReadsIn (positions : List Position) : Job → Prop
  | .read p => p ∈ positions
  | .readMany order => ∀ p ∈ order, p ∈ positions
  | _ => False

/-- What jobs that read end with: all that was asked for, committed. -/
def readsCommitted (L : Law) (id : Nat) : Outcome
  | .read p => L.Ends id fun v s => s.Committed p v
  | .readMany order => L.Ends id (Chain.ReadAll order)
  | _ => fun _ _ => True

lemma lasting_readsCommitted {L : Law} (hL : L.Growing) (id : Nat) (job : Job) :
    L.Lasting (readsCommitted L id job) := by
  cases job with
  | read p => exact hL.lasting_ends fun v s s' hv hlater _ => (hL.grows hlater).committed hv
  | readMany order =>
    exact hL.lasting_ends fun readings s s' h hlater _ =>
      ⟨h.1, fun q v hv => (hL.grows hlater).committed (h.2 q v hv)⟩
  | _ => exact fun _ _ _ _ _ _ => trivial

/-- The law of the chain counts on the same answers. -/
lemma readsCommitted_decidingLaw {rounds : Option Nat} :
    readsCommitted (decidingLaw base positions rounds) id job = readsCommitted chainLaw id job := by
  cases job <;> rfl

/-- A job that reads decides its positions, and does nothing else. -/
lemma ReadsIn.meets (hjob : job.ReadsIn positions) {rounds : Option Nat}
    (hholds : base.Deciding positions s)
    (hwaits : s.node.chain.Waits (decidingLaw base positions rounds)) :
    job.isLayout = false ∧ ∃ program, job.program? s.node = some program ∧
      (decidingLaw base positions rounds).Meets id
        (readsCommitted (decidingLaw base positions rounds) id job) program s := by
  match job, hjob with
  | .read p, hp =>
    exact ⟨rfl, _, rfl, (Law.meets_ofChain _).mpr
      (Chain.read_meets (decidingLaw_filling hp) rfl hholds hwaits)⟩
  | .readMany order, horder =>
    exact ⟨rfl, _, rfl, Chain.readMany_reads decidingLaw_watching rfl hholds hwaits
      fun p hp => decidingLaw_filling (horder p hp)⟩

end Job

/-! ## Reading while nobody else goes on -/

namespace World

/-- While nobody else goes on, a job that is started now comes to its end on every schedule with
turns for all that it may wait for, and `post` holds of its result and of the world it has ended
in. -/
structure EndsAlone (w : World) (job : Job) (post : job.Result → World → Prop) : Prop where
  returns : ∃ least, ∀ schedule : Nat → Move,
    (∀ n, ∃ choice, schedule n = .advance w.nextId choice) → TendsAll schedule w.nextId least →
      ∃ n result, ((w.step (.start job)).after schedule n).Returned w.nextId job result
  ends : ∀ turns result, Turns w.nextId turns →
    ((w.step (.start job)).play turns).Returned w.nextId job result →
      post result ((w.step (.start job)).play turns)

lemma EndsAlone.mono {post post' : job.Result → World → Prop} (h : w.EndsAlone job post)
    (hpost : ∀ result w', post result w' → post' result w') : w.EndsAlone job post' where
  returns := h.returns
  ends turns result hturns hreturned := hpost _ _ (h.ends turns result hturns hreturned)

/-- There is such a schedule for every activity. -/
lemma exists_tendsAll (id least : Nat) : ∃ schedule : Nat → Move,
    (∀ n, ∃ choice, schedule n = .advance id choice) ∧ TendsAll schedule id least := by
  refine ⟨fun n => .advance id ⟨Timestamp.epoch, Duration.zero, least, n.unpair.1⟩,
    fun n => ⟨_, rfl⟩, fun place n => ?_, fun n choice hchoice => ?_, fun n hdrop => ?_⟩
  · exact ⟨Nat.pair place n, Nat.right_le_pair place n, _, rfl, by rw [Nat.unpair_pair]⟩
  · cases hchoice
    exact Nat.le_refl _
  · cases hdrop

/-- The first moves of a schedule with no other turns. -/
lemma turns_range {schedule : Nat → Move}
    (h : ∀ n, ∃ choice, schedule n = .advance id choice) (n : Nat) :
    Turns id ((List.range n).map schedule) := by
  intro m hm
  obtain ⟨k, -, rfl⟩ := List.mem_map.mp hm
  exact h k

/-- A job that reads has just been started as the last activity, with all units online. -/
structure Reading (w₀ : World) (id : Nat) (job : Job) (positions : List Position) : Prop where
  keeps : w₀.Keeps chainLaw (Job.Ends chainLaw)
  online : w₀.Online
  new : ∀ event ∈ w₀.scene.trace, event.activity ≠ id
  reads : job.ReadsIn positions
  running : ∃ program, job.program? w₀.scene.node = some program ∧
    w₀.activities[id]? = some (.running job program)

lemma reading_start (hkeeps : w.Keeps chainLaw (Job.Ends chainLaw)) (hattributed : w.Attributed)
    (honline : w.Online) (hjob : job.ReadsIn positions) :
    (w.step (.start job)).Reading w.nextId job positions := by
  obtain ⟨hlayout, program, hprogram, -⟩ : job.isLayout = false ∧ ∃ program,
      job.program? w.scene.node = some program ∧
      (decidingLaw w.scene positions none).Meets w.nextId _ program w.scene :=
    hjob.meets (.refl hkeeps.holds positions) (Chain.waits_of_rounds rfl)
  have hstart := step_start_eq hlayout hprogram
  have hkeeps' := (hkeeps.more [.start job]).2
  rw [play_cons, play_nil] at hkeeps'
  refine ⟨hkeeps', honline.step fun _ _ => by simp, ?_, hjob, program, ?_, ?_⟩ <;> rw [hstart]
  · exact fun event hmem => Nat.ne_of_lt (hattributed event hmem)
  · exact hprogram
  · exact List.getElem?_concat_length

namespace Reading

variable {w₀ : World} {turns : List Move}

lemma origin (h : w₀.Reading id job positions) : w₀.scene.Deciding positions w₀.scene :=
  .refl h.keeps.holds positions

lemma meets (h : w₀.Reading id job positions) (rounds : Option Nat)
    (hwaits : w₀.scene.node.chain.Waits (decidingLaw w₀.scene positions rounds)) :
    ∃ program, w₀.activities[id]? = some (.running job program) ∧
      (decidingLaw w₀.scene positions rounds).Meets id
        (Job.readsCommitted chainLaw id job) program w₀.scene := by
  obtain ⟨program, hprogram, hrunning⟩ := h.running
  obtain ⟨-, _, hprogram', hmeets⟩ := h.reads.meets h.origin hwaits
  obtain rfl := Option.some.inj (hprogram.symm.trans hprogram')
  exact ⟨program, hrunning, Job.readsCommitted_decidingLaw ▸ hmeets⟩

lemma lasting {rounds : Option Nat} (job : Job) :
    (decidingLaw w₀.scene positions rounds).Lasting (Job.readsCommitted chainLaw id job) :=
  Job.readsCommitted_decidingLaw ▸
    Job.lasting_readsCommitted decidingLaw_watching.toGrowing id job

/-- In the course of its turns only decisions are made. -/
lemma fulfils (h : w₀.Reading id job positions) (hturns : Turns id turns) :
    ∃ a, (w₀.play turns).activities[id]? = some a ∧
      (decidingLaw w₀.scene positions none).Fulfils id (Job.readsCommitted chainLaw id) a
        (w₀.play turns).scene ∧
      w₀.scene.Deciding positions (w₀.play turns).scene := by
  obtain ⟨program, hrunning, hmeets⟩ := h.meets none (Chain.waits_of_rounds rfl)
  obtain ⟨a, ha, hfulfils, -, hholds⟩ :=
    fulfils_of_turns decidingLaw_unconditional lasting hturns h.origin hrunning hmeets
  exact ⟨a, ha, hfulfils, hholds⟩

/-- The job returns what is committed then. -/
lemma ends (h : w₀.Reading id job positions) (hturns : Turns id turns) {result : job.Result}
    (hreturned : (w₀.play turns).Returned id job result) :
    w₀.scene.Deciding positions (w₀.play turns).scene ∧
      Job.readsCommitted chainLaw id job result (w₀.play turns).scene ∧
      ∀ e, ¬ chainLaw.Fails id (w₀.play turns).scene e := by
  obtain ⟨a, ha, hfulfils, hholds⟩ := h.fulfils hturns
  obtain rfl := Option.some.inj (hreturned.symm.trans ha)
  exact ⟨hholds, hfulfils, fun e => not_fails_of_turns h.keeps h.new h.online hturns⟩

/-- The job comes to its end. -/
lemma returns (h : w₀.Reading id job positions) {schedule : Nat → Move} {least : Nat}
    (hleast : ∀ n, least ≤ n → w₀.scene.node.chain.policy.GivesUp n 0 Duration.zero)
    (hschedule : ∀ n, ∃ choice, schedule n = .advance id choice)
    (htends : TendsAll schedule id least) :
    ∃ n result, (w₀.after schedule n).Returned id job result := by
  have hwaits : w₀.scene.node.chain.Waits (decidingLaw w₀.scene positions (some least)) := by
    rintro _ ⟨⟩
    exact hleast
  obtain ⟨program, hrunning, hmeets⟩ := h.meets (some least) hwaits
  have hlater (n : Nat) : (w₀.after schedule n).scene.Grows (w₀.after schedule (n + 1)).scene := by
    have hkeeps := (h.keeps.more ((List.range n).map schedule)).2
    rw [← after_eq_play] at hkeeps
    exact (hkeeps.more [schedule n]).1
  have hholds (n : Nat) : w₀.scene.Deciding positions (w₀.after schedule n).scene := by
    rw [after_eq_play]
    obtain ⟨-, -, -, hholds⟩ := h.fulfils (turns_range hschedule n)
    exact hholds
  obtain ⟨n, result, hreturned, -⟩ := htends.returns (n := 0)
    (L := decidingLaw w₀.scene positions (some least)) rfl (fun n _ => hlater n) hholds
    (fun _ _ _ _ => trivial) (lasting job) hrunning hmeets
  exact ⟨n, result, hreturned⟩

end Reading

variable {names : List String} {policy : HoleFillPolicy} {sequencer : SequencerSettings}
  {management : BootstrapSettings} {node : Node}

/-- A job that reads returns what is committed, and has decided its positions and done nothing
else. -/
theorem endsAlone_reads (h : Node.start names policy sequencer management = .ok node)
    (hbounded : policy.Bounded) (moves : List Move) (hw : w = (World.start node).play moves)
    (honline : w.Online) (hjob : job.ReadsIn positions) :
    w.EndsAlone job fun r w' => w.scene.Deciding positions w'.scene ∧
      Job.readsCommitted chainLaw w.nextId job r w'.scene ∧
      ∀ e, ¬ chainLaw.Fails w.nextId w'.scene e := by
  have hkeeps : w.Keeps chainLaw (Job.Ends chainLaw) := hw ▸ keeps_chainLaw h moves
  have hreading : (w.step (.start job)).Reading w.nextId job positions :=
    reading_start hkeeps (hw ▸ (attributed_start node).play moves) honline hjob
  have hscene : (w.step (.start job)).scene = w.scene := by
    rcases step_start w job with heq | ⟨program, -, heq⟩ <;> rw [heq]
  obtain ⟨least, hleast⟩ := hbounded.exists_givesUp
  constructor
  · refine ⟨least, fun schedule hschedule htends => hreading.returns ?_ hschedule htends⟩
    rw [hscene, hw, policy_play h]
    exact hleast
  · intro turns result hturns hreturned
    exact hscene ▸ hreading.ends hturns hreturned

/-- A read returns the decision on its position. -/
theorem endsAlone_read (h : Node.start names policy sequencer management = .ok node)
    (hbounded : policy.Bounded) (moves : List Move) (hw : w = (World.start node).play moves)
    (honline : w.Online) (p : Position) :
    w.EndsAlone (.read p) fun r w' => r = .ok (w.scene.decision p) ∧
      w.scene.Decides [p] w'.scene ∧ w.scene.Grows w'.scene := by
  have hjob : (Job.read p).ReadsIn [p] := List.mem_singleton_self p
  refine (endsAlone_reads h hbounded moves hw honline hjob).mono ?_
  rintro (e | v) w' ⟨hdeciding, hcommitted, hfails⟩
  · exact absurd hcommitted (hfails e)
  · have hslot := hdeciding.sound.head_of_committed hcommitted
    refine ⟨by rw [hdeciding.decision_eq hslot], hdeciding.decides fun q hq => ?_, hdeciding.grows⟩
    exact ⟨v, List.mem_singleton.mp hq ▸ hcommitted⟩

/-- Positions that are read together have the values of their decisions. -/
theorem endsAlone_readMany (h : Node.start names policy sequencer management = .ok node)
    (hbounded : policy.Bounded) (moves : List Move) (hw : w = (World.start node).play moves)
    (honline : w.Online) (positions : List Position) :
    w.EndsAlone (.readMany positions) fun r w' => (∃ readings : Readings, r = .ok readings ∧
      ∀ p, readings[p]? = if p ∈ positions then some (w.scene.decision p) else none) ∧
      w.scene.Decides positions w'.scene := by
  have hjob : (Job.readMany positions).ReadsIn positions := fun _ hp => hp
  refine (endsAlone_reads h hbounded moves hw honline hjob).mono ?_
  rintro (e | readings) w' ⟨hdeciding, hcommitted, hfails⟩
  · exact absurd hcommitted (hfails e)
  · obtain ⟨hkeys, hvalues⟩ := hcommitted
    have hread (p : Position) (hp : p ∈ positions) :
        readings[p]? = some (w.scene.decision p) ∧ w'.scene.Committed p (w.scene.decision p) := by
      have hmem : p ∈ readings := (hkeys p).mpr hp
      have hvalue : readings[p]? = some readings[p] := Std.ExtTreeMap.getElem?_eq_some_getElem hmem
      have hv := hvalues p _ hvalue
      rw [hdeciding.decision_eq (hdeciding.sound.head_of_committed hv)]
      exact ⟨hvalue, hv⟩
    refine ⟨⟨readings, rfl, fun p => ?_⟩, hdeciding.decides fun p hp => ⟨_, (hread p hp).2⟩⟩
    split
    next hp => exact (hread p hp).1
    next hp => exact Std.ExtTreeMap.getElem?_eq_none fun hmem => hp ((hkeys p).mp hmem)

/-! ## Reading one by one -/

/-- Positions are read one by one, each read being started after the one before it has returned and
while nobody else goes on. The positions are listed with what their reads have returned. -/
inductive ReadsInTurn : World → List (Position × Except ReplicationError LogData) → World → Prop
  | nil (w : World) : ReadsInTurn w [] w
  | cons {w w' : World} {p : Position} {turns : List Move}
      {result : Except ReplicationError LogData}
      {rest : List (Position × Except ReplicationError LogData)} (hturns : Turns w.nextId turns)
      (hreturned : ((w.step (.start (.read p))).play turns).Returned w.nextId (.read p) result)
      (hrest : ReadsInTurn ((w.step (.start (.read p))).play turns) rest w') :
      ReadsInTurn w ((p, result) :: rest) w'

lemma Online.turns (h : w.Online) {turns : List Move} (hturns : Turns id turns) :
    (w.play turns).Online := by
  induction turns generalizing w with
  | nil => exact h
  | cons m turns ih =>
    refine ih (h.step ?_) fun m' hm' => hturns m' (List.mem_cons_of_mem _ hm')
    rintro place offline rfl
    obtain ⟨choice, hchoice⟩ := hturns _ List.mem_cons_self
    cases hchoice

/-- Reads one by one return the decisions on their positions, and have made no other ones. -/
theorem ReadsInTurn.decides (h : Node.start names policy sequencer management = .ok node)
    (hbounded : policy.Bounded) {found : List (Position × Except ReplicationError LogData)}
    (hreads : w.ReadsInTurn found w') (moves : List Move)
    (hw : w = (World.start node).play moves) (honline : w.Online) :
    (∀ p r, (p, r) ∈ found → r = .ok (w.scene.decision p)) ∧
      w.scene.Decides (found.map Prod.fst) w'.scene := by
  induction hreads generalizing moves with
  | nil w => exact ⟨fun _ _ hmem => (List.not_mem_nil hmem).elim, .refl w.scene⟩
  | @cons w w' p turns result rest hturns hreturned _ ih =>
    obtain ⟨hresult, hdecides, hgrows⟩ :=
      (endsAlone_read h hbounded moves hw honline p).ends turns result hturns hreturned
    have hreached : (w.step (.start (.read p))).play turns =
        (World.start node).play (moves ++ .start (.read p) :: turns) := by
      rw [play_append, ← hw, play_cons]
    have honline' : ((w.step (.start (.read p))).play turns).Online :=
      (honline.step fun _ _ => by simp).turns hturns
    obtain ⟨hfound, hrest⟩ := ih _ hreached honline'
    refine ⟨fun q r hmem => ?_, hdecides.trans hrest hgrows.length⟩
    rcases List.mem_cons.mp hmem with heq | hmem
    · cases heq
      exact hresult
    · rw [hfound q r hmem, hdecides.decision]

/-- Positions can be read one by one in any order. -/
theorem exists_readsInTurn (h : Node.start names policy sequencer management = .ok node)
    (hbounded : policy.Bounded) (order : List Position) (moves : List Move)
    (hw : w = (World.start node).play moves) (honline : w.Online) :
    ∃ found w', found.map Prod.fst = order ∧ w.ReadsInTurn found w' := by
  induction order generalizing moves w with
  | nil => exact ⟨[], w, rfl, .nil w⟩
  | cons p order ih =>
    obtain ⟨least, hreturns⟩ := (endsAlone_read h hbounded moves hw honline p).returns
    obtain ⟨schedule, hschedule, htends⟩ := exists_tendsAll w.nextId least
    obtain ⟨n, result, hreturned⟩ := hreturns schedule hschedule htends
    rw [after_eq_play] at hreturned
    have hturns := turns_range hschedule n
    obtain ⟨found, w', hfound, hrest⟩ := ih
      (moves ++ .start (.read p) :: (List.range n).map schedule) (by rw [play_append, ← hw]; rfl)
      ((honline.step fun _ _ => by simp).turns hturns)
    exact ⟨(p, result) :: found, w', by rw [List.map_cons, hfound],
      .cons hturns hreturned hrest⟩

/-- The decisions on some positions. -/
lemma exists_readings (s : Scene) (positions : List Position) : ∃ readings : Readings,
    ∀ p, readings[p]? = if p ∈ positions then some (s.decision p) else none := by
  refine ⟨.ofList (positions.map fun p => (p, s.decision p)), fun p => ?_⟩
  have hmem : p ∈ Std.ExtTreeMap.ofList (positions.map fun p => (p, s.decision p)) ↔
      p ∈ positions := by
    rw [Std.ExtTreeMap.mem_ofList, List.map_map, List.contains_iff_mem]
    exact iff_of_eq (congrArg _ (List.map_id positions))
  split
  next hp =>
    have hvalue := Std.ExtTreeMap.getElem?_eq_some_getElem (hmem.mpr hp)
    obtain ⟨q, -, heq⟩ := List.mem_map.mp (Chain.mem_of_getElem?_ofList hvalue)
    obtain ⟨rfl, hdecision⟩ := Prod.mk.inj heq
    rw [hvalue, hdecision]
  next hp => exact Std.ExtTreeMap.getElem?_eq_none fun h => hp (hmem.mp h)

end World

/-- Reading positions together is the same as reading them one by one.

Take a node in any state that it can come to, with all units online and readers whose patience runs
out, and any list of positions. There are values for these positions, and for no other ones, such
that: each of them is what a single read of its position returns, namely what the head holds or else
a hole; they are what any list of the same positions returns when it is read together, with its
reads interleaved in any way; and they are what reads one by one return, in any order and with any
repetitions. In each case the units hold the same in the end, and nothing else than before at other
positions. All these reads come to their ends.

If others go on in the meantime, then every value that is returned is committed at its position, and
stays so whatever happens later. -/
theorem readMany_eq_reads {names : List String} {policy : HoleFillPolicy}
    {sequencer : SequencerSettings} {management : BootstrapSettings} {node : Node}
    (h : Node.start names policy sequencer management = .ok node) (hbounded : policy.Bounded)
    (moves : List Move) (w : World) (hw : w = (World.start node).play moves) (honline : w.Online)
    (positions : List Position) :
    (∃ readings : Readings, (∀ p, p ∈ readings ↔ p ∈ positions) ∧
      (∀ p ∈ positions, readings[p]? = some (w.scene.decision p)) ∧
      (∀ p v, readings[p]? = some v → w.EndsAlone (.read p) fun r _ => r = .ok v) ∧
      ∀ order : List Position, (∀ p, p ∈ order ↔ p ∈ positions) →
        (w.EndsAlone (.readMany order) fun r w' =>
          r = .ok readings ∧ w.scene.Decides positions w'.scene) ∧
        (∃ found w', found.map Prod.fst = order ∧ w.ReadsInTurn found w') ∧
        ∀ found w', found.map Prod.fst = order → w.ReadsInTurn found w' →
          (∀ p r, (p, r) ∈ found → ∃ v, readings[p]? = some v ∧ r = .ok v) ∧
          w.scene.Decides positions w'.scene) ∧
    ∀ (moves later : List Move) (id : Nat) (readings : Readings),
      ((World.start node).play moves).Returned id (.readMany positions) (.ok readings) →
      ∀ p v, readings[p]? = some v →
        (((World.start node).play moves).play later).scene.Committed p v := by
  refine ⟨?_, fun moves later id readings hreturned p v hv => ?_⟩
  · obtain ⟨readings, hreadings⟩ := World.exists_readings w.scene positions
    refine ⟨readings, fun p => ?_, fun p hp => by rw [hreadings, if_pos hp], fun p v hv => ?_,
      fun order horder => ⟨?_, ?_, ?_⟩⟩
    · rw [Std.ExtTreeMap.mem_iff_isSome_getElem?, hreadings]
      split <;> simpa
    · obtain rfl : w.scene.decision p = v := by
        rw [hreadings] at hv
        exact Option.some.inj (Option.ite_none_right_eq_some.mp hv).2
      exact (World.endsAlone_read h hbounded moves hw honline p).mono fun r w' hr => hr.1
    · refine (World.endsAlone_readMany h hbounded moves hw honline order).mono ?_
      rintro r w' ⟨⟨found, rfl, hfound⟩, hdecides⟩
      refine ⟨congrArg Except.ok (Std.ExtTreeMap.ext_getElem? fun p => ?_),
        hdecides.congr fun p => (horder p).symm⟩
      simp only [hfound, hreadings, horder]
    · exact World.exists_readsInTurn h hbounded order moves hw honline
    · rintro found w' rfl hreads
      obtain ⟨hfound, hdecides⟩ := hreads.decides h hbounded moves hw honline
      refine ⟨fun p r hmem => ⟨_, ?_, hfound p r hmem⟩, hdecides.congr fun p => (horder p).symm⟩
      rw [hreadings, if_pos ((horder p).mp (List.mem_map_of_mem hmem))]
  · have hkeeps := World.keeps_chainLaw h moves
    exact (hkeeps.more later).1.committed (hkeeps.of_returned hreturned p v hv)

/-- A write was given up after the head had taken its value, and the next position is empty. -/
theorem readMany_eq_reads_partly_written : ∃ node,
    Node.start ["a", "b"] .immediate ⟨1, Epoch.zero, 5⟩ .default = .ok node ∧
    let entry : LogEntry := .bare [1]
    let next : Position := ⟨1, by decide⟩
    let w := (World.start node).play
      [.start (.write Position.zero entry), .advance 0 (.prompt 1), .drop 0]
    w.scene.slot 0 Position.zero = some (.entry entry) ∧ w.scene.slot 1 Position.zero = none ∧
      ∃ readings : Readings, readings[Position.zero]? = some (.entry entry) ∧
        readings[next]? = some .hole ∧
        w.EndsAlone (.readMany [next, Position.zero, next]) fun r w' => r = .ok readings ∧
          w'.scene.slot 1 Position.zero = some (.entry entry) := by
  have h : Node.start ["a", "b"] .immediate ⟨1, Epoch.zero, 5⟩ .default = .ok _ := rfl
  refine ⟨_, h, ?_⟩
  intro entry next w
  have honline : w.Online := (by decide +kernel : ∀ unit ∈ w.scene.node.units, unit.offline = false)
  obtain ⟨⟨readings, -, hvalues, -, hmany⟩, -⟩ :=
    readMany_eq_reads h trivial _ w rfl honline [next, Position.zero, next]
  have hzero : w.scene.decision Position.zero = .entry entry := by decide +kernel
  refine ⟨by decide +kernel, by decide +kernel, readings, ?_, ?_, ?_⟩
  · rw [hvalues _ (by simp), hzero]
  · rw [hvalues _ (by simp)]
    decide +kernel
  · refine (hmany [next, Position.zero, next] fun p => Iff.rfl).1.mono fun r w' hr => ⟨hr.1, ?_⟩
    have hcondition : Position.zero ∈ [next, Position.zero, next] ∧
        1 < w.scene.node.units.length := ⟨by simp, by decide +kernel⟩
    rw [hr.2 1 Position.zero, if_pos hcondition, hzero]

end SharedLog
