/-
# What jobs end with

Whatever is asked of a node keeps the law of the chain, so that every interleaving of jobs does. Of
the results this gives what can be said without looking at the sequencer: what is read is committed,
an append has committed its own entry, and nothing but an offline unit makes an operation on the
chain fail, a lost race apart.
-/
import SharedLog.Proofs.Bootstrapper.Operations
import SharedLog.Proofs.Client.Operations
import SharedLog.Proofs.World.Past

namespace SharedLog

variable {L : Law} {s : Scene} {w : World} {id : Nat} {p : Position} {v : LogData}
  {jobs : Job → Prop}

/-- What every job ends with, as far as the chain is concerned. -/
def Job.Ends (L : Law) (id : Nat) : Outcome
  | .peek p => L.Ends id fun state s => ∀ v, state = .committed v → s.Committed p v
  | .write p entry => Chain.WriteEnds L id p entry
  | .holeFill p => L.Ends id fun _ s => ∃ v, s.Committed p v
  | .read p => L.Ends id fun v s => s.Committed p v
  | .readMany _ => L.Ends id fun readings s => ∀ q v, readings[q]? = some v → s.Committed q v
  | .append _ streams payload => Client.AppendEnds id streams payload
  | .clientRead _ p => L.EndsNode id fun v s => s.Committed p v
  | .readStream .. => fun r s => ∀ list, r = .ok list →
      ∀ p entry, (p, entry) ∈ list → s.Committed p (.entry entry)
  | .tails .. | .allocate _ | .bootstrap _ | .layout _ => fun _ _ => True

lemma Job.lasting_ends (hL : L.Chainlike) (id : Nat) (job : Job) :
    L.Lasting (Job.Ends L id job) := by
  cases job with
  | peek p =>
    exact hL.lasting_ends fun state s s' h hlater _ v hv => (hL.grows hlater).committed (h v hv)
  | write p entry =>
    intro r s s' hr hlater _
    cases r with
    | ok u => exact ⟨(hL.grows hlater).committed hr.1, (hL.grows hlater).accepted hr.2⟩
    | error e => exact hr.imp_left fun he => hL.fails he hlater
  | holeFill p =>
    exact hL.lasting_ends fun _ s s' ⟨v, hv⟩ hlater _ => ⟨v, (hL.grows hlater).committed hv⟩
  | read p => exact hL.lasting_ends fun v s s' hv hlater _ => (hL.grows hlater).committed hv
  | readMany positions =>
    exact hL.lasting_ends fun readings s s' h hlater _ q v hv =>
      (hL.grows hlater).committed (h q v hv)
  | append client streams payload => exact Client.AppendEnds.lasting hL.toGrowing streams payload
  | clientRead client p =>
    exact hL.lasting_endsNode fun v s s' hv hlater _ => (hL.grows hlater).committed hv
  | readStream client stream =>
    exact fun r s s' h hlater _ list hr p entry hmem =>
      (hL.grows hlater).committed (h list hr p entry hmem)
  | tails | allocate | bootstrap | layout => exact fun _ _ _ _ _ _ => trivial

/-- What a walk back has found is committed. -/
lemma Client.trail_committed (hL : L.Chainlike) (stream : StreamId) :
    Trail L stream fun _ found s =>
      ∀ p entry, (p, entry) ∈ found → s.Committed p (.entry entry) where
  later h hlater _ p entry hmem := (hL.grows hlater).committed (h p entry hmem)
  skip _ h _ _ := h
  take := by
    intro q found s entry' _ h hdata _ p entry hmem
    rcases List.mem_cons.mp hmem with heq | hmem
    · cases heq
      exact hdata
    · exact h p entry hmem

/-- A law that loops may break off, and under which some jobs may be started. -/
structure Law.Permits (L : Law) (jobs : Job → Prop) : Prop extends L.Clientlike where
  rounds : L.rounds = none
  write : ∀ {p entry s}, jobs (.write p entry) → L.holds s →
    L.allows (.onUnit (.write Chain.head p (.entry entry))) s
  bootstrap : ∀ {request s}, jobs (.bootstrap request) → L.holds s →
    L.allows (.bootstrap request) s
  layout : ∀ {change request s}, jobs (.layout change) →
    (request.fullReset = true → change.fullReset = true) → L.holds s →
    L.allows (.bootstrap request) s

/-- Jobs that are permitted keep the law. -/
theorem World.lawful (hL : L.Permits jobs) (w : World) : w.Lawful L (Job.Ends L) jobs := by
  intro id job s program _ hjob _ hholds hprogram
  have hchain := hL.toClientlike.toChainlike
  have hwaits : s.node.chain.Waits L := Chain.waits_of_rounds hL.rounds
  -- a single action of which nothing is said
  have hact : ∀ {action : Action}, (∀ s, L.holds s → L.allows action s) →
      L.ask id action (fun _ _ => True) s := fun hallows =>
    Law.ask_intro fun s₁ _ hholds₁ => ⟨hallows s₁ hholds₁, fun _ _ _ _ _ _ => trivial⟩
  have htails : ∀ (c : Client) (streams : StreamSet),
      L.Meets id (fun _ _ => True) (c.tails streams) s := fun c streams =>
    (Client.tails_meets hL.toAppending hholds (fun _ _ _ _ _ _ => trivial) fun _ _ _ _ =>
      Law.ask_intro fun _ _ hholds₁ => ⟨hL.allows_allocate _ hholds₁,
        fun _ _ _ _ _ _ => trivial⟩).mono fun _ _ _ => trivial
  cases job with
  | peek p =>
    obtain rfl := Option.some.inj hprogram
    refine (Law.meets_ofChain _).mpr
      ((Chain.peek_meets hchain.toWatching rfl hholds).mono_ends fun state s hs v heq => ?_)
    subst heq
    exact hs.1
  | write p entry =>
    obtain rfl := Option.some.inj hprogram
    exact (Law.meets_ofChain _).mpr
      (Chain.write_meets hchain.toGrowing rfl hholds (fun _ _ hholds₁ => hL.write hjob hholds₁)
        fun _ hholds₁ _ => hL.allows_copy hholds₁)
  | holeFill p =>
    obtain rfl := Option.some.inj hprogram
    exact (Law.meets_ofChain _).mpr (Chain.holeFill_meets (hchain.filling _) rfl hholds)
  | read p =>
    obtain rfl := Option.some.inj hprogram
    exact (Law.meets_ofChain _).mpr (Chain.read_meets (hchain.filling _) rfl hholds hwaits)
  | readMany positions =>
    obtain rfl := Option.some.inj hprogram
    exact Chain.readMany_meets hchain rfl hholds hwaits
  | append client streams payload =>
    obtain ⟨c, -, rfl⟩ := Option.map_eq_some_iff.mp hprogram
    exact Client.append_meets hL.toAppending rfl hholds
  | tails client streams =>
    obtain ⟨c, -, rfl⟩ := Option.map_eq_some_iff.mp hprogram
    exact htails c streams
  | clientRead client p =>
    obtain ⟨c, -, rfl⟩ := Option.map_eq_some_iff.mp hprogram
    exact Client.read_meets hchain rfl hholds hwaits
  | readStream client stream =>
    obtain ⟨c, -, rfl⟩ := Option.map_eq_some_iff.mp hprogram
    refine Client.readStream_meets hchain (Client.trail_committed hchain stream) (.inl hL.rounds)
      rfl hwaits hholds (htails c _) ?_ ?_ ?_
    · intro token s₁ _ _ _ p entry hmem
      cases hmem
    · intro e s₁ _ list heq
      cases heq
    · intro r s₁ hr list heq
      subst heq
      exact hr
  | allocate request =>
    obtain rfl := Option.some.inj hprogram
    exact hact fun _ hholds₁ => hL.allows_allocate request hholds₁
  | bootstrap request =>
    obtain rfl := Option.some.inj hprogram
    exact hact fun _ hholds₁ => hL.bootstrap hjob hholds₁
  | layout change =>
    obtain rfl := Option.some.inj hprogram
    exact Bootstrapper.handle_meets hchain hwaits rfl hholds fun _ _ hreset hholds₁ =>
      hL.layout hjob hreset hholds₁

/-! ## Under the law of the chain -/

/-- The law of the chain permits everything. -/
lemma chainLaw_permits : chainLaw.Permits fun _ => True where
  toChainlike := chainLaw_chainlike
  allows_allocate _ _ := trivial
  allows_knownEpoch _ _ := trivial
  allows_observeEpoch _ _ _ := trivial
  allows_append _ _ _ _ := trivial
  rounds := rfl
  write _ _ := trivial
  bootstrap _ _ := trivial
  layout _ _ _ := trivial

namespace World

variable {names : List String} {policy : HoleFillPolicy} {sequencer : SequencerSettings}
  {management : BootstrapSettings} {node : Node}

/-- A node that was started keeps the law of the chain in every interleaving. -/
theorem keeps_chainLaw (h : Node.start names policy sequencer management = .ok node)
    (moves : List Move) :
    ((World.start node).play moves).Keeps chainLaw (Job.Ends chainLaw) := by
  have hstart : (World.start node).Keeps chainLaw (Job.Ends chainLaw) :=
    ⟨Scene.sound_start h, fun id a ha => by cases ha⟩
  exact (hstart.play chainLaw_unconditional (Job.lasting_ends chainLaw_chainlike)
    (lawful chainLaw_permits _) fun _ _ => trivial).2

/-- What holds of a node now holds of it after further moves. -/
lemma Keeps.more (h : w.Keeps chainLaw (Job.Ends chainLaw)) (moves : List Move) :
    w.scene.Grows (w.play moves).scene ∧ (w.play moves).Keeps chainLaw (Job.Ends chainLaw) :=
  h.play chainLaw_unconditional (Job.lasting_ends chainLaw_chainlike) (lawful chainLaw_permits _)
    fun _ _ => trivial

/-- Readers stay as patient as they were. -/
lemma policy_play (h : Node.start names policy sequencer management = .ok node)
    (moves : List Move) :
    ((World.start node).play moves).scene.node.chain.policy = policy := by
  have hgrows := ((keeps_chainLaw h []).more moves).1
  rw [play_nil] at hgrows
  rw [hgrows.chain]
  exact (Node.start_eq_ok h).2.1

/-- A unit that failed an activity was offline just then. -/
lemma metOffline (h : Node.start names policy sequencer management = .ok node) {moves : List Move}
    {e : ReplicationError} (hfails : chainLaw.Fails id ((World.start node).play moves).scene e) :
    (World.start node).MetOffline moves id e := by
  obtain ⟨call, answer, hplace, hmem, hcall, -⟩ := hfails
  -- back to the scene in which the unit was asked
  obtain ⟨before, choice, hbefore, hacts⟩ := exists_acts_of_mem_trace hmem List.not_mem_nil
  refine ⟨before, choice, hbefore, ?_⟩
  obtain ⟨more, rfl⟩ := (List.prefix_append ..).trans hbefore
  have hkeeps := keeps_chainLaw h before
  have hunit : call.place < ((World.start node).play before).scene.node.units.length := by
    rw [hkeeps.holds.length, ← (hkeeps.more more).1.chain, ← play_append]
    exact hplace
  exact ⟨_, List.getElem_mem hunit, hacts.blames hcall _ (List.getElem?_eq_getElem hunit)⟩

variable {schedule : Nat → Move}

/-- All units are online. -/
def Online (w : World) : Prop := ∀ unit ∈ w.scene.node.units, unit.offline = false

lemma online_start (h : Node.start names policy sequencer management = .ok node) :
    (World.start node).Online := by
  intro unit hmem
  rw [World.start, (Node.start_eq_ok h).2.2.1] at hmem
  obtain ⟨name, -, rfl⟩ := List.mem_map.mp hmem
  rfl

/-- Whether units are online is told by their labels. -/
lemma online_of_labels {s s' : Scene} (h : ∀ unit ∈ s.node.units, unit.offline = false)
    (hlabels : s'.node.units.map (fun u => (u.name, u.offline)) =
      s.node.units.map fun u => (u.name, u.offline)) : ∀ unit ∈ s'.node.units,
      unit.offline = false := by
  intro unit hmem
  have hlabel : (unit.name, unit.offline) ∈ s.node.units.map fun u => (u.name, u.offline) :=
    hlabels ▸ List.mem_map_of_mem hmem
  obtain ⟨before, hbefore, heq⟩ := List.mem_map.mp hlabel
  exact (Prod.mk.inj heq).2.symm.trans (h before hbefore)

/-- Units stay online unless they are switched. -/
lemma Online.step (h : w.Online) {m : Move} (hm : ∀ place offline, m ≠ .switch place offline) :
    (w.step m).Online := by
  cases m with
  | start job => rcases step_start w job with heq | ⟨program, -, heq⟩ <;> rw [heq] <;> exact h
  | advance id choice =>
    have hadvanced := advanced_advance w id choice
    rw [World.step]
    generalize w.advance id choice = w' at hadvanced
    cases hadvanced with
    | @returned job result running => cases job <;> exact h
    | onward running step =>
      rcases NodeProgram.scene_advance step with rfl | ⟨action, answer, hacts⟩
      · exact h
      · exact online_of_labels h hacts.labels
    | idle => exact h
  | drop id => rcases step_drop w id with heq | ⟨job, rest, -, heq⟩ <;> rw [heq] <;> exact h
  | switch place offline => exact absurd rfl (hm place offline)
  | join epoch n => exact h

lemma Online.after (h : w.Online)
    (hschedule : ∀ n place offline, schedule n ≠ .switch place offline) (n : Nat) :
    (w.after schedule n).Online := by
  induction n with
  | zero => exact h
  | succ n ih => exact ih.step (hschedule n)

/-- A unit that has failed an activity was offline while the activity was running. -/
lemma not_fails_of_online (hchain : w.Keeps chainLaw (Job.Ends chainLaw))
    (hnew : ∀ event ∈ w.scene.trace, event.activity ≠ id)
    (honline : ∀ n, (w.after schedule n).Runs id → (w.after schedule n).Online) (n : Nat)
    {e : ReplicationError} : ¬ chainLaw.Fails id (w.after schedule n).scene e := by
  have hkeeps : ∀ n, (w.after schedule n).Keeps chainLaw (Job.Ends chainLaw) := fun n =>
    w.after_eq_play schedule n ▸ (hchain.more _).2
  rintro ⟨call, answer, hplace, hmem, hfails, -⟩
  induction n with
  | zero => exact hnew _ hmem rfl
  | succ n ih =>
    rw [after] at hplace hmem
    have hgrows := ((hkeeps n).more [schedule n]).1
    rw [play_cons, play_nil] at hgrows
    rw [hgrows.chain] at hplace
    rcases (w.after schedule n).calm_or_acts (schedule n) with
      hcalm | ⟨id', choice, action, answer', -, hruns, hacts⟩
    · exact ih hplace (hcalm.trace ▸ hmem)
    · rw [hacts.trace_eq, List.mem_append, List.mem_singleton] at hmem
      rcases hmem with hmem | heq
      · exact ih hplace hmem
      · -- the unit was asked just now
        cases heq
        have hunit : call.place < (w.after schedule n).scene.node.units.length := by
          rw [(hkeeps n).holds.length]
          exact hplace
        have hoffline := hacts.blames hfails _ (List.getElem?_eq_getElem hunit)
        rw [honline n hruns _ (List.getElem_mem hunit)] at hoffline
        cases hoffline.1

/-- No unit fails an activity that goes on alone while all units are online. -/
lemma not_fails_of_turns (hchain : w.Keeps chainLaw (Job.Ends chainLaw))
    (hnew : ∀ event ∈ w.scene.trace, event.activity ≠ id) (honline : w.Online)
    {turns : List Move} (hturns : ∀ m ∈ turns, ∃ choice, m = .advance id choice)
    {e : ReplicationError} : ¬ chainLaw.Fails id (w.play turns).scene e := by
  -- a schedule that begins with these turns and goes on with others
  let schedule (n : Nat) : Move := turns.getD n (.advance id (.prompt 0))
  have hlist : (List.range turns.length).map schedule = turns := by
    refine List.ext_getElem (by simp) fun n hn hn' => ?_
    simp [schedule, List.getElem?_eq_getElem hn']
  have hschedule : ∀ n, ∃ choice, schedule n = .advance id choice := by
    intro n
    simp only [schedule, List.getD_eq_getElem?_getD]
    cases hm : turns[n]? with
    | none => exact ⟨_, rfl⟩
    | some m => exact hturns m (List.mem_of_getElem? hm)
  have honlines : ∀ n, (w.after schedule n).Online := honline.after fun n place offline heq => by
    obtain ⟨choice, hchoice⟩ := hschedule n
    cases hchoice.symm.trans heq
  have hnot := not_fails_of_online hchain hnew (fun n _ => honlines n) turns.length (e := e)
  rwa [after_eq_play, hlist] at hnot

/-! ## Values that were told -/

/-- An activity has returned a value of a position to whoever asked. -/
inductive Tells (w : World) (id : Nat) (p : Position) : LogData → Prop
  | peek {v : LogData} (h : w.Returned id (.peek p) (.ok (.committed v))) : Tells w id p v
  | read {v : LogData} (h : w.Returned id (.read p) (.ok v)) : Tells w id p v
  | readMany {v : LogData} {positions : List Position} {readings : Readings}
      (h : w.Returned id (.readMany positions) (.ok readings)) (hv : readings[p]? = some v) :
      Tells w id p v
  | clientRead {v : LogData} {client : Nat} (h : w.Returned id (.clientRead client p) (.ok v)) :
      Tells w id p v
  | readStream {entry : LogEntry} {client : Nat} {stream : StreamId}
      {list : List (Position × LogEntry)}
      (h : w.Returned id (.readStream client stream) (.ok list)) (hmem : (p, entry) ∈ list) :
      Tells w id p (.entry entry)

/-- Only committed values are told. -/
lemma Keeps.committed (h : w.Keeps chainLaw (Job.Ends chainLaw)) (htells : w.Tells id p v) :
    w.scene.Committed p v := by
  cases htells with
  | peek hr => exact h.of_returned hr v rfl
  | read hr => exact h.of_returned hr
  | readMany hr hv => exact h.of_returned hr p v hv
  | clientRead hr => exact h.of_returned hr
  | readStream hr hmem => exact h.of_returned hr _ rfl p _ hmem

/-- What is known of a look at a position that began when a value was committed there. -/
def showsValue (p : Position) (v : LogData) (_ : Nat) : Outcome
  | .peek q => fun r _ => q = p → ∀ state, r = .ok state → state = .committed v
  | _ => fun _ _ => True

/-- A look at a position that begins when a value is committed there shows that value, or it fails
since a unit is offline. -/
lemma peek_later (h : Node.start names policy sequencer management = .ok node) {moves : List Move}
    (hv : ((World.start node).play moves).scene.Committed p v) (more : List Move)
    (hid : ((World.start node).play moves).nextId ≤ id) {r : Except ReplicationError SlotState}
    (hr : (((World.start node).play moves).play more).Returned id (.peek p) r) :
    r = .ok (.committed v) ∨
      ∃ e, r = .error e ∧ (World.start node).MetOffline (moves ++ more) id e := by
  have hkeeps := keeps_chainLaw h moves
  have hlasting : ∀ id job, chainLaw.Lasting (showsValue p v id job) := by
    intro id job
    cases job <;> exact fun _ _ _ h _ _ => h
  have hlawful : ((World.start node).play moves).Lawful chainLaw (showsValue p v)
      fun _ => True := by
    intro id job s program hid _ hlater hholds hprogram
    cases job with
    | peek q =>
      obtain rfl := Option.some.inj hprogram
      refine (Law.meets_ofChain _).mpr
        ((Chain.peek_meets chainLaw_chainlike.toWatching rfl hholds).mono
          fun r s' hr hq state heq => ?_)
      subst hq heq
      exact hr.2 v (Scene.Grows.committed hlater hv)
    | _ =>
      refine (lawful chainLaw_permits _ id _ s program hid trivial hlater hholds hprogram).mono ?_
      exact fun _ _ _ => trivial
  have hshows := hkeeps.returned_later chainLaw_unconditional hlasting hlawful
    (fun _ _ => trivial) hid hr rfl
  cases r with
  | ok state => exact .inl (congrArg _ (hshows state rfl))
  | error e =>
    have hfails := (hkeeps.more more).2.of_returned hr
    rw [← play_append] at hfails
    exact .inr ⟨e, rfl, metOffline h hfails⟩

end World

end SharedLog
