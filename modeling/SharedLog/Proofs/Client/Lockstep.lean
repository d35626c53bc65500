/-
# Runs side by side

Two nodes may differ in what they hold at some positions without those noticing who only append and
ask for tails. It is enough that nobody writes where the heads differ, and that elsewhere, where
other units differ, both heads hold a value already: then no write there gets past the head. So
clients that do the same at both nodes are told the same.
-/
import SharedLog.Proofs.Bootstrapper.Deeds
import SharedLog.Proofs.Client.Operations

namespace SharedLog

variable {s s' : Scene} {id : Nat} {p : Position} {settled burnt : Position → Prop}

/-! ## Single actions -/

/-- The count of refusals makes no difference to a request for positions. -/
lemma Sequencer.allocate_of_staleRejections (q : Sequencer) (n : UInt64) (request : TokenRequest) :
    ({ q with staleRejections := n }.allocate request).1 = (q.allocate request).1 ∧
      ∃ m, ({ q with staleRejections := n }.allocate request).2 =
        { (q.allocate request).2 with staleRejections := m } := by
  simp only [allocate]
  split
  · exact ⟨rfl, _, rfl⟩
  · split
    · exact ⟨rfl, n, rfl⟩
    · split
      · exact ⟨rfl, n, rfl⟩
      · cases q.globalTail.add? request.count.toNat with
        | none => exact ⟨rfl, n, rfl⟩
        | some tail =>
          dsimp only
          cases tail.prev? <;> exact ⟨rfl, n, rfl⟩

/-- What a unit answers to a write depends on its name, on whether it is offline, and on what it
holds at the position. -/
lemma LogUnit.write_congr {u u' : LogUnit} (hname : u'.name = u.name)
    (hoffline : u'.offline = u.offline) (hslot : u'.slots[p]? = u.slots[p]?) (data : LogData) :
    (u'.write p data).1 = (u.write p data).1 := by
  simp only [write, hname, hoffline, hslot]
  split
  · rfl
  · split <;> rfl

namespace Scene

/-- Switching a unit changes its own label only. -/
lemma labels_switch (s : Scene) (place : Nat) (offline : Bool) :
    (s.switch place offline).node.units.map (fun u => (u.name, u.offline)) =
      (s.node.units.map fun u => (u.name, u.offline)).modify place fun l => (l.1, offline) := by
  apply List.ext_getElem?
  intro i
  simp only [switch, List.getElem?_map, List.getElem?_modify]
  split <;> cases s.node.units[i]? <;> rfl

/-- Of units that hold the same, a write that is answered in the same way makes the same. -/
lemma WriteEffect.congr {i : Nat} {data : LogData} {r : Except ReplicationError WriteOutcome}
    {after after' : Option LogData} (h : s.WriteEffect i p data r after)
    (h' : s'.WriteEffect i p data r after') (hslot : s'.slot i p = s.slot i p) :
    after' = after := by
  cases h with
  | failed =>
    cases h'
    exact hslot
  | conflict | written =>
    cases h'
    rfl

/-- Two scenes differ in nothing that lasts but in what units hold at some settled positions, the
heads only at those that are burnt. -/
structure Alike (settled burnt : Position → Prop) (s s' : Scene) : Prop where
  chain : s'.node.chain = s.node.chain
  clients : s'.node.clients = s.node.clients
  epochs : s'.node.epochs = s.node.epochs
  labels : s'.node.units.map (fun u => (u.name, u.offline)) =
    s.node.units.map fun u => (u.name, u.offline)
  spares : s.Spares s'
  head : ∀ p, ¬ burnt p → s'.slot Chain.head p = s.slot Chain.head p
  slot : ∀ p, ¬ settled p → ∀ i, s'.slot i p = s.slot i p

/-- What may be done so that no difference shows: entries are written to the head where nothing is
burnt, and copied only where nothing is settled. -/
inductive Passes (settled burnt : Position → Prop) (s : Scene) : Action → Prop
  | write {p : Position} (entry : LogEntry) (free : ¬ burnt p) :
    Passes settled burnt s (.onUnit (.write Chain.head p (.entry entry)))
  | copy {i : Nat} {p : Position} {v : LogData} (free : ¬ settled p) (held : s.slot i p = some v) :
    Passes settled burnt s (.onUnit (.write (i + 1) p v))
  | allocate (request : TokenRequest) : Passes settled burnt s (.allocate request)
  | knownEpoch (client : Nat) : Passes settled burnt s (.knownEpoch client)
  | observeEpoch (client : Nat) (epoch : Epoch) :
    Passes settled burnt s (.observeEpoch client epoch)

lemma Passes.copies {action : Action} (h : s.Passes settled burnt action) : s.Copies action := by
  cases h with
  | write | allocate | knownEpoch | observeEpoch => trivial
  | copy free held => exact held

namespace Alike

/-- The units at a place are of the same name, and offline at the same time. -/
lemma unit (h : Alike settled burnt s s') {i : Nat} {unit : LogUnit}
    (hunit : s.node.units[i]? = some unit) : ∃ unit', s'.node.units[i]? = some unit' ∧
      unit'.name = unit.name ∧ unit'.offline = unit.offline := by
  have hi := congrArg (·[i]?) h.labels
  simp only [List.getElem?_map, hunit, Option.map_some] at hi
  obtain ⟨unit', hunit', heq⟩ := Option.map_eq_some_iff.mp hi
  exact ⟨unit', hunit', congrArg Prod.fst heq, congrArg Prod.snd heq⟩

/-- Where units hold the same at a position, they answer a write in the same way and then hold the
same. -/
lemma write (h : Alike settled burnt s s') {i : Nat} {data : LogData}
    (hslot : s'.slot i p = s.slot i p) :
    (s'.node.onUnit (.write i p data)).1 = (s.node.onUnit (.write i p data)).1 := by
  simp only [Node.onUnit]
  cases hunit : s.node.units[i]? with
  | none =>
    have hnone : s'.node.units[i]? = none := by
      have hi := congrArg (·[i]?) h.labels
      simpa [List.getElem?_map, hunit] using hi
    simp only [Node.onPlace, hunit, hnone]
  | some unit =>
    obtain ⟨unit', hunit', hname, hoffline⟩ := h.unit hunit
    rw [Node.onPlace_eq_of_some _ hunit, Node.onPlace_eq_of_some _ hunit']
    simp only [Scene.slot, hunit, hunit', Option.bind_some] at hslot
    exact LogUnit.write_congr hname hoffline hslot data

variable {action : Action} {answer : action.Answer} {s₁ s₁' : Scene}

/-- What may be done is answered in the same way. -/
lemma answer_eq (h : Alike settled burnt s s') (hpasses : s.Passes settled burnt action)
    (now : Timestamp) : (s'.node.act now action).1 = (s.node.act now action).1 := by
  cases hpasses with
  | write entry free => exact h.write (h.head _ free)
  | copy free held => exact h.write (h.slot _ free _)
  | allocate request =>
    obtain ⟨q, n, hq, hq'⟩ := h.spares
    simp only [Node.act, Node.command, Mailbox.ask, hq, hq', Sequencer.serve]
    exact (q.allocate_of_staleRejections n request).1
  | knownEpoch client => simp only [Node.act, h.epochs]
  | observeEpoch client epoch => rfl

/-- Where units hold the same they do so after the same was done. -/
lemma slot_of_acts (hacts : s.Acts id action answer s₁) (hacts' : s'.Acts id action answer s₁')
    {i : Nat} (hslot : s'.slot i p = s.slot i p) : s₁'.slot i p = s₁.slot i p := by
  by_cases hwrite : ∃ data, action = .onUnit (.write i p data)
  · obtain ⟨data, rfl⟩ := hwrite
    exact hacts.write.congr hacts'.write hslot
  · have hne : ∀ data, action ≠ .onUnit (.write i p data) := fun data heq => hwrite ⟨data, heq⟩
    rw [hacts.slot_of_ne hne, hacts'.slot_of_ne hne, hslot]

/-- The sequencers differ in nothing but the count of refusals after the same was done. -/
lemma spares_of_acts (h : Alike settled burnt s s') (hpasses : s.Passes settled burnt action)
    (hacts : s.Acts id action answer s₁) (hacts' : s'.Acts id action answer s₁') :
    s₁.Spares s₁' := by
  obtain ⟨q, n, hq, hq'⟩ := h.spares
  cases hpasses with
  | allocate request =>
    obtain ⟨-, m, hm⟩ := q.allocate_of_staleRejections n request
    obtain ⟨-, hserved⟩ := hacts.allocate_of_some hq
    obtain ⟨-, hserved'⟩ := hacts'.allocate_of_some hq'
    exact ⟨_, m, hserved, hserved'.trans (congrArg some hm)⟩
  | write | copy | knownEpoch | observeEpoch =>
    exact ⟨q, n, hacts.mailbox rfl ▸ hq, hacts'.mailbox rfl ▸ hq'⟩

/-- Scenes stay alike when the same is done and answered. -/
lemma of_acts (h : Alike settled burnt s s') (hpasses : s.Passes settled burnt action)
    (hacts : s.Acts id action answer s₁) (hacts' : s'.Acts id action answer s₁') :
    Alike settled burnt s₁ s₁' where
  chain := hacts'.chain.trans (h.chain.trans hacts.chain.symm)
  clients := hacts'.clients.trans (h.clients.trans hacts.clients.symm)
  epochs := by
    by_cases hobserve : ∃ client epoch, action = .observeEpoch client epoch
    · obtain ⟨client, epoch, rfl⟩ := hobserve
      rw [hacts.observeEpoch, hacts'.observeEpoch, h.epochs]
    · have hne : ∀ client epoch, action ≠ .observeEpoch client epoch :=
        fun client epoch heq => hobserve ⟨client, epoch, heq⟩
      rw [hacts.epochs_of_ne hne, hacts'.epochs_of_ne hne, h.epochs]
  labels := hacts'.labels.trans (h.labels.trans hacts.labels.symm)
  spares := h.spares_of_acts hpasses hacts hacts'
  head q hq := slot_of_acts hacts hacts' (h.head q hq)
  slot q hq i := slot_of_acts hacts hacts' (h.slot q hq i)

/-- What may be done is answered in the same way, and leaves the scenes alike. -/
theorem act (h : Alike settled burnt s s') (hpasses : s.Passes settled burnt action) (id : Nat)
    (now : Timestamp) : (s'.act id now action).1 = (s.act id now action).1 ∧
      Alike settled burnt (s.act id now action).2 (s'.act id now action).2 := by
  have hanswer : (s'.act id now action).1 = (s.act id now action).1 := h.answer_eq hpasses now
  exact ⟨hanswer, h.of_acts hpasses ⟨now, rfl⟩ ⟨now, Prod.ext hanswer rfl⟩⟩

lemma of_conclude (h : Alike settled burnt s s') (job : Job) (result : job.Result) :
    Alike settled burnt { s with node := job.conclude s.node result }
      { s' with node := job.conclude s'.node result } := by
  cases job <;> exact { h with }

lemma switch (h : Alike settled burnt s s') (place : Nat) (offline : Bool) :
    Alike settled burnt (s.switch place offline) (s'.switch place offline) where
  chain := h.chain
  clients := h.clients
  epochs := h.epochs
  labels := by rw [labels_switch, labels_switch, h.labels]
  spares := h.spares
  head p hp := by
    rw [(s.calm_switch place offline).slot, (s'.calm_switch place offline).slot, h.head p hp]
  slot p hp i := by
    rw [(s.calm_switch place offline).slot, (s'.calm_switch place offline).slot, h.slot p hp i]

lemma join (h : Alike settled burnt s s') (epoch : Epoch) (n : UInt32) :
    Alike settled burnt (s.join epoch n) (s'.join epoch n) :=
  { h with
    clients := by simp only [Scene.join, Node.addClient, h.clients]
    epochs := by simp only [Scene.join, Node.addClient, h.epochs] }

end Alike

/-! ## Those who pass -/

/-- What holds while nothing else is done than what passes: the head holds something wherever
something is settled without being burnt, and no token is for a burnt position. -/
structure Clear (settled burnt : Position → Prop) (s : Scene) : Prop where
  sound : s.Sound
  held : ∀ p, settled p → ¬ burnt p → ∃ v, s.slot Chain.head p = some v
  accepted : ∀ {id p v}, s.Accepted id p v → ¬ settled p
  ahead : ∃ q, s.node.mailbox.sequencer = some q ∧ ∀ p, burnt p → p < q.globalTail
  tokens : ∀ {id request token}, ⟨id, .allocate request, .ok token⟩ ∈ s.trace →
    request.count ≠ 0 → ¬ burnt token.first

namespace Clear

variable {action : Action} {answer : action.Answer}

/-- The head takes nothing at a settled position. -/
lemma accepted_of_acts (h : Clear settled burnt s) (hpasses : s.Passes settled burnt action)
    (hacts : s.Acts id action answer s') {id' : Nat} {v : LogData}
    (haccepted : s'.Accepted id' p v) : ¬ settled p := by
  rw [Accepted, hacts.trace_eq, List.mem_append, List.mem_singleton] at haccepted
  rcases haccepted with hbefore | hnew
  · exact h.accepted hbefore
  · -- what was taken just now was no burnt position, and the head held nothing there
    cases hnew
    intro hsettled
    have heffect := hacts.write
    generalize s'.slot Chain.head p = after at heffect
    cases heffect with
    | written empty =>
      cases hpasses with
      | write entry free =>
        obtain ⟨v, hv⟩ := h.held p hsettled free
        rw [empty] at hv
        cases hv

/-- A token is for a position that the sequencer has not given away before, and so for none that is
burnt. -/
lemma ahead_of_acts (h : Clear settled burnt s) (hpasses : s.Passes settled burnt action)
    (hacts : s.Acts id action answer s') :
    (∃ q, s'.node.mailbox.sequencer = some q ∧ ∀ p, burnt p → p < q.globalTail) ∧
      ∀ request token, (⟨id, .allocate request, .ok token⟩ : Event) = ⟨id, action, answer⟩ →
        request.count ≠ 0 → ¬ burnt token.first := by
  obtain ⟨q, hq, hahead⟩ := h.ahead
  cases hpasses with
  | allocate request =>
    obtain ⟨q', hserved, hallocated⟩ := hacts.allocated hq
    refine ⟨⟨q', hserved, fun p hp => Nat.lt_of_lt_of_le (hahead p hp) hallocated.frame.2.2⟩, ?_⟩
    intro request' token heq hcount hburnt
    cases heq
    cases hallocated with
    | queried hepoch hzero => exact hcount hzero
    | granted => exact Nat.lt_irrefl _ (hahead _ hburnt)
  | write | copy | knownEpoch | observeEpoch =>
    exact ⟨⟨q, hacts.mailbox rfl ▸ hq, hahead⟩, nofun⟩

lemma of_acts (h : Clear settled burnt s) (hpasses : s.Passes settled burnt action)
    (hacts : s.Acts id action answer s') : Clear settled burnt s' where
  sound := h.sound.of_acts hpasses.copies hacts
  held p hp hfree := by
    obtain ⟨v, hv⟩ := h.held p hp hfree
    exact ⟨v, hacts.slot_of_some hv⟩
  accepted := h.accepted_of_acts hpasses hacts
  ahead := (h.ahead_of_acts hpasses hacts).1
  tokens := by
    intro id' request token hmem
    rw [hacts.trace_eq, List.mem_append, List.mem_singleton] at hmem
    rcases hmem with hmem | heq
    · exact h.tokens hmem
    · obtain rfl : id' = id := congrArg Event.activity heq
      exact (h.ahead_of_acts hpasses hacts).2 request token heq

lemma of_calm (h : Clear settled burnt s) (hcalm : s.Calm s') : Clear settled burnt s' where
  sound := h.sound.of_calm hcalm
  held p hp hfree := by
    rw [hcalm.slot]
    exact h.held p hp hfree
  accepted := by
    intro id p v haccepted
    rw [Accepted, hcalm.trace] at haccepted
    exact h.accepted haccepted
  ahead := hcalm.mailbox ▸ h.ahead
  tokens := hcalm.trace ▸ h.tokens

end Clear

end Scene

/-- Nothing is done but what passes. -/
def passingLaw (settled burnt : Position → Prop) : Law where
  holds := Scene.Clear settled burnt
  later := Scene.Grows
  allows action s := s.Passes settled burnt action
  heeds _ _ := True
  rounds := none
  later_refl := .refl
  later_trans := .trans
  act_keeps h hpasses hacts := ⟨.of_acts hacts, h.of_acts hpasses hacts⟩
  calm_keeps h hcalm := ⟨.of_calm hcalm, h.of_calm hcalm⟩

lemma passingLaw_unconditional : (passingLaw settled burnt).Unconditional :=
  ⟨fun _ _ => trivial, rfl⟩

lemma passingLaw_appending : (passingLaw settled burnt).Appending where
  sound h := h.sound
  grows h := h
  allows_allocate request _ := .allocate request
  allows_knownEpoch client _ := .knownEpoch client
  allows_observeEpoch client epoch _ := .observeEpoch client epoch
  allows_append _ hholds hmem hcount := .write _ (hholds.tokens hmem hcount)
  allows_carry hholds haccepted hslot := .copy (hholds.accepted haccepted) hslot

/-- Appends, queries of tails, and writes to positions that are not burnt. -/
def Job.Avoids (burnt : Position → Prop) : Job → Prop
  | .append .. | .tails .. => True
  | .write p _ => ¬ burnt p
  | _ => False

/-- Appends, queries of tails and writes to other positions do nothing but what passes. -/
theorem World.lawful_avoids (w : World) :
    w.Lawful (passingLaw settled burnt) (fun _ _ _ _ => True) (Job.Avoids burnt) := by
  intro id job s program _ hjob _ hholds hprogram
  have hL : (passingLaw settled burnt).Appending := passingLaw_appending
  cases job with
  | write p entry =>
    obtain rfl := Option.some.inj hprogram
    exact (Law.meets_ofChain _).mpr
      ((Chain.write_meets hL.toGrowing rfl hholds (fun _ _ _ => .write entry hjob)
        fun _ hholds₁ => hL.allows_carry hholds₁).mono fun _ _ _ => trivial)
  | append client streams payload =>
    obtain ⟨c, -, rfl⟩ := Option.map_eq_some_iff.mp hprogram
    exact (Client.append_meets hL rfl hholds).mono fun _ _ _ => trivial
  | tails client streams =>
    obtain ⟨c, -, rfl⟩ := Option.map_eq_some_iff.mp hprogram
    exact (Client.tails_meets hL hholds (fun _ _ _ _ _ _ => trivial) fun _ _ _ _ =>
      Law.ask_intro fun _ _ _ => ⟨.allocate _, fun _ _ _ _ _ _ => trivial⟩).mono
        fun _ _ _ => trivial
  | peek | holeFill | read | readMany | clientRead | readStream | allocate | bootstrap | layout =>
    exact hjob.elim

/-! ## Side by side -/

section

variable {α : Type} {post : α → Scene → Prop}

/-- Two programs go on in the same way, in scenes that are alike, or neither goes on. -/
inductive Scene.Onward (settled burnt : Position → Prop) :
    Option (α × Scene) → Option (α × Scene) → Prop
  | neither : Onward settled burnt none none
  | both {rest : α} {s s' : Scene} (alike : s.Alike settled burnt s') :
    Onward settled burnt (some (rest, s)) (some (rest, s'))

/-- A step of a program of the chain that does nothing but what passes goes the same way in two
scenes that are alike. -/
lemma ChainProgram.advance_alike {p : ChainProgram α} (h : s.Alike settled burnt s')
    (hholds : s.Clear settled burnt) (hmeets : (passingLaw settled burnt).ChainMeets id post p s)
    (choice : Choice) :
    Scene.Onward settled burnt (advance id choice s p) (advance id choice s' p) := by
  cases p with
  | done a | unfinished => exact .neither
  | call c next =>
    obtain ⟨hanswer, halike⟩ := h.act (hmeets s (.refl s) hholds).1 id choice.now
    simp only [advance, hanswer]
    exact .both halike
  | sleep d next | unbounded p => exact .both h

/-- A step of a node's program that does nothing but what passes goes the same way in two scenes
that are alike. -/
lemma NodeProgram.advance_alike {p : NodeProgram α} (h : s.Alike settled burnt s')
    (hholds : s.Clear settled burnt) (hmeets : (passingLaw settled burnt).Meets id post p s)
    (choice : Choice) :
    Scene.Onward settled burnt (advance id choice s p) (advance id choice s' p) := by
  cases p with
  | done a | unfinished => exact .neither
  | call c next =>
    cases c with
    | act action =>
      obtain ⟨hanswer, halike⟩ := h.act (hmeets s (.refl s) hholds).1 id choice.now
      simp only [advance, hanswer]
      exact .both halike
    | readTogether reads =>
      obtain ⟨each, -, hreads, -⟩ := hmeets
      simp only [advance]
      split
      · exact .neither
      · exact .both h
      · -- one of the reads goes on
        rename_i read _ _ hread
        have hstep := ChainProgram.advance_alike h hholds (hreads _ _ hread) choice
        generalize ChainProgram.advance id choice s read = x at hstep ⊢
        generalize ChainProgram.advance id choice s' read = y at hstep ⊢
        cases hstep with
        | neither => exact .neither
        | both halike => exact .both halike
      · cases ChainProgram.valuesOf reads with
        | none => exact .neither
        | some values => exact .both h
  | sleep d next | unbounded p => exact .both h

end

namespace World

variable {w w' : World} {m : Move} {moves : List Move} {post : Nat → Outcome}

/-- In two worlds the same activities have come equally far. -/
structure Alike (settled burnt : Position → Prop) (w w' : World) : Prop where
  scene : w.scene.Alike settled burnt w'.scene
  activities : w'.activities = w.activities

namespace Alike

/-- The jobs that may be started have the same programs in both worlds. -/
lemma program?_eq (h : Alike settled burnt w w') {job : Job} (hjob : job.Avoids burnt) :
    job.program? w'.scene.node = job.program? w.scene.node := by
  cases job with
  | write | append | tails => simp only [Job.program?, h.scene.chain, h.scene.clients]
  | peek | holeFill | read | readMany | clientRead | readStream | allocate | bootstrap | layout =>
    exact hjob.elim

lemma start (h : Alike settled burnt w w') {job : Job} (hjob : job.Avoids burnt) :
    Alike settled burnt (w.step (.start job)) (w'.step (.start job)) := by
  simp only [step, admits, h.activities, h.program?_eq hjob]
  split
  · exact ⟨h.scene, rfl⟩
  · exact h

lemma advance (h : Alike settled burnt w w') (hkeeps : w.Keeps (passingLaw settled burnt) post)
    (id : Nat) (choice : Choice) :
    Alike settled burnt (w.advance id choice) (w'.advance id choice) := by
  unfold World.advance
  rw [h.activities]
  split
  · exact ⟨h.scene.of_conclude .., rfl⟩
  · rename_i job rest _ hrunning
    have hstep := NodeProgram.advance_alike h.scene hkeeps.holds
      (hkeeps.fulfils id _ hrunning) choice
    generalize NodeProgram.advance id choice w.scene rest = x at hstep ⊢
    generalize NodeProgram.advance id choice w'.scene rest = y at hstep ⊢
    cases hstep with
    | neither => exact h
    | both halike => exact ⟨halike, rfl⟩
  · exact h

/-- A move leads to worlds that are alike. -/
theorem step (h : Alike settled burnt w w') (hkeeps : w.Keeps (passingLaw settled burnt) post)
    (hm : ∀ job, m = .start job → job.Avoids burnt) :
    Alike settled burnt (w.step m) (w'.step m) := by
  cases m with
  | start job => exact h.start (hm job rfl)
  | advance id choice => exact h.advance hkeeps id choice
  | drop id =>
    simp only [World.step, h.activities]
    split
    · exact ⟨h.scene, rfl⟩
    · exact h
  | switch place offline => exact ⟨h.scene.switch place offline, h.activities⟩
  | join epoch n => exact ⟨h.scene.join epoch n, h.activities⟩

/-- Any interleaving of jobs that keep away from what is burnt leads to worlds that are alike. -/
theorem play (h : Alike settled burnt w w')
    (hkeeps : w.Keeps (passingLaw settled burnt) fun _ _ _ _ => True)
    (hmoves : Starts moves (Job.Avoids burnt)) :
    Alike settled burnt (w.play moves) (w'.play moves) := by
  induction moves using List.reverseRecOn with
  | nil => exact h
  | append_singleton moves m ih =>
    have hbefore : Starts moves (Job.Avoids burnt) := fun job hjob =>
      hmoves job (List.mem_append_left _ hjob)
    have hkeeps' := (hkeeps.play passingLaw_unconditional (fun _ _ _ _ _ _ _ _ => trivial)
      (lawful_avoids w) hbefore).2
    simp only [play_append, play_cons, play_nil]
    exact (ih hbefore).step hkeeps' fun job hjob => hmoves job (by simp [hjob])

end Alike

end World

end SharedLog
