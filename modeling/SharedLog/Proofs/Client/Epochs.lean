/-
# What clients know of epochs

The trace tells the sequencer's epoch at any time of the past, since nothing but a bootstrap that is
applied moves the sequencer to another epoch. A client never knows of a later epoch than the
sequencer's, if it did not come with one; and it knows every epoch that it was told of. So a request
made after the answer to an earlier one can be stale only if the sequencer was moved to a later
epoch in between.
-/
import SharedLog.Proofs.Bootstrapper.Deeds
import SharedLog.Proofs.Client.Heed

namespace SharedLog

variable {s s' : Scene} {w : World} {id i : Nat} {e e₀ : Epoch} {events more : List Event}

open Client (toldEpoch?)

/-! ## The epochs of a trace -/

/-- The epoch that an event moves the sequencer to. -/
def Event.appliedEpoch? : Event → Option Epoch
  | ⟨_, .bootstrap request, .ok .applied⟩ => some request.newEpoch
  | _ => none

/-- The sequencer's epoch after some events. -/
def epochAfter (e : Epoch) : List Event → Epoch
  | [] => e
  | event :: events => epochAfter (event.appliedEpoch?.getD e) events

/-- How many of some events have moved the sequencer to a later epoch. -/
def raises (e : Epoch) : List Event → Nat
  | [] => 0
  | event :: events =>
    (if e < event.appliedEpoch?.getD e then 1 else 0) + raises (event.appliedEpoch?.getD e) events

/-- Some events have moved the sequencer to a later epoch than a given one. -/
def RaisedAbove (e : Epoch) (events : List Event) : Prop :=
  ∃ b request, ⟨b, .bootstrap request, .ok .applied⟩ ∈ events ∧ e < request.newEpoch

/-- The event is a stale request of an activity. -/
def Event.staleFor (id : Nat) : Event → Bool
  | ⟨activity, .allocate _, .error (.staleEpoch ..)⟩ => activity = id
  | _ => false

lemma Event.eq_of_appliedEpoch? {event : Event} (h : event.appliedEpoch? = some e) :
    ∃ b request, event = ⟨b, .bootstrap request, .ok .applied⟩ ∧ request.newEpoch = e := by
  unfold appliedEpoch? at h
  split at h
  · exact ⟨_, _, rfl, Option.some.inj h⟩
  · cases h

lemma Event.staleFor_iff {event : Event} : event.staleFor id = true ↔
    ∃ request requested current,
      event = ⟨id, .allocate request, .error (.staleEpoch requested current)⟩ := by
  unfold staleFor
  split
  · simp only [decide_eq_true_eq]
    constructor
    · rintro rfl
      exact ⟨_, _, _, rfl⟩
    · rintro ⟨request, requested, current, heq⟩
      cases heq
      rfl
  · rename_i hne
    simp only [Bool.false_eq_true, false_iff]
    rintro ⟨request, requested, current, rfl⟩
    exact hne _ _ _ _ rfl

lemma Event.appliedEpoch?_of_staleFor {event : Event} (h : event.staleFor id = true) :
    event.appliedEpoch? = none := by
  obtain ⟨request, requested, current, rfl⟩ := staleFor_iff.mp h
  rfl

lemma epochAfter_append :
    epochAfter e (events ++ more) = epochAfter (epochAfter e events) more := by
  induction events generalizing e with
  | nil => rfl
  | cons event events ih => exact ih

/-- Whatever has moved the sequencer to a later epoch was a bootstrap of a later epoch. -/
lemma raisedAbove_of_lt (h : e < epochAfter e events) : RaisedAbove e events := by
  -- from any epoch that is no later
  suffices hall : ∀ e', e' ≤ e → e < epochAfter e' events → RaisedAbove e events from
    hall e (Nat.le_refl _) h
  clear h
  induction events with
  | nil => exact fun e' hle hlt => absurd (Nat.lt_of_lt_of_le hlt hle) (Nat.lt_irrefl _)
  | cons event events ih =>
    intro e' hle hlt
    rcases Nat.lt_or_ge e.val (event.appliedEpoch?.getD e').val with hraise | hno
    · cases happlied : event.appliedEpoch? with
      | none =>
        rw [happlied] at hraise
        exact absurd hraise (Nat.not_lt.mpr hle)
      | some e₁ =>
        rw [happlied] at hraise
        obtain ⟨b, request, rfl, rfl⟩ := Event.eq_of_appliedEpoch? happlied
        exact ⟨b, request, List.mem_cons_self, hraise⟩
    · obtain ⟨b, request, hmem, hlater⟩ := ih _ hno hlt
      exact ⟨b, request, List.mem_cons_of_mem _ hmem, hlater⟩

/-- The stale requests of an activity come at ever later epochs of the sequencer. -/
def StalesRise (id : Nat) (e : Epoch) (events : List Event) : Prop :=
  ∀ before a₁ mid a₂ after, events = before ++ a₁ :: mid ++ a₂ :: after → a₁.staleFor id = true →
    a₂.staleFor id = true → epochAfter e before < epochAfter e (before ++ a₁ :: mid)

/-- At most one stale request comes before the first time that the epoch rises, and at most one
between any two such times. -/
lemma countP_staleFor_le (h : StalesRise id e events) :
    events.countP (·.staleFor id) ≤ 1 + raises e events ∧
      ((∀ before a after, events = before ++ a :: after → a.staleFor id = true →
        e < epochAfter e before) → events.countP (·.staleFor id) ≤ raises e events) := by
  induction events generalizing e with
  | nil => exact ⟨Nat.zero_le _, fun _ => Nat.le_refl _⟩
  | cons x events ih =>
    have hrest : StalesRise id (x.appliedEpoch?.getD e) events :=
      fun before a₁ mid a₂ after heq => h (x :: before) a₁ mid a₂ after (by rw [heq]; rfl)
    obtain ⟨hfirst, hlater⟩ := ih hrest
    by_cases hx : x.staleFor id = true
    · have hnone := Event.appliedEpoch?_of_staleFor hx
      rw [hnone, Option.getD_none] at hlater
      rw [List.countP_cons_of_pos (by exact hx)]
      simp only [raises, hnone, Option.getD_none, Epoch.lt_def, Nat.lt_irrefl, if_false,
        Nat.zero_add]
      constructor
      · -- the next one comes at a later epoch
        have hnext := hlater fun before a after heq ha => by
          have hlt := h [] x before a after (by rw [heq]; rfl) hx ha
          simp only [List.nil_append, epochAfter, hnone, Option.getD_none] at hlt
          exact hlt
        omega
      · intro hall
        exact absurd (hall [] x events rfl hx) (Nat.lt_irrefl _)
    · rw [List.countP_cons_of_neg (by exact hx)]
      simp only [raises]
      refine ⟨by omega, fun hall => ?_⟩
      split
      · omega
      · rename_i hno
        have hle := hlater fun before a after heq ha =>
          Nat.lt_of_le_of_lt (Nat.not_lt.mp hno) (hall (x :: before) a after (by rw [heq]; rfl) ha)
        omega

/-! ## In every interleaving -/

section Interleavings

variable {names : List String} {policy : HoleFillPolicy} {sequencer : SequencerSettings}
  {management : BootstrapSettings} {node : Node} {moves : List Move} {q : Sequencer}

/-- Clients that come leave the others' epochs alone. -/
lemma Scene.Calm.epoch (h : s.Calm s') (hknown : s.node.epochs[i]? = some e) :
    s'.node.epochs[i]? = some e := by
  obtain ⟨more, hmore⟩ := h.epochs
  rw [← hmore, List.getElem?_append_left (List.getElem?_eq_some_iff.mp hknown).1, hknown]

/-- The epoch of a running sequencer is the one that its events tell of. -/
lemma Scene.Acts.epoch_sequencer {action : Action} {answer : action.Answer}
    (h : s.Acts id action answer s') (hq : s.node.mailbox.sequencer = some q) :
    ∃ q', s'.node.mailbox.sequencer = some q' ∧ q.epoch ≤ q'.epoch ∧
      q'.epoch = (⟨id, action, answer⟩ : Event).appliedEpoch?.getD q.epoch := by
  cases action with
  | allocate request =>
    obtain ⟨q', hq', hallocated⟩ := h.allocated hq
    have hepoch := hallocated.frame.1
    exact ⟨q', hq', Nat.le_of_eq (congrArg Epoch.val hepoch.symm), hepoch⟩
  | bootstrap request =>
    obtain ⟨now, q', hq', hbootstrapped⟩ := h.bootstrapped hq
    refine ⟨q', hq', ?_⟩
    cases hbootstrapped with
    | stale | already | refused => exact ⟨Nat.le_refl _, rfl⟩
    | applied hepoch => exact ⟨hepoch, rfl⟩
  | onUnit | knownEpoch | observeEpoch => exact ⟨q, (h.mailbox rfl).symm ▸ hq, Nat.le_refl _, rfl⟩

/-- What a client knows stays, or the client is told of an epoch. -/
lemma Scene.Acts.knows {action : Action} {answer : action.Answer}
    (h : s.Acts id action answer s') (hknown : s.node.epochs[i]? = some e) :
    s'.node.epochs[i]? = some e ∨
      ∃ told, action = .observeEpoch i told ∧ s'.node.epochs[i]? = some (max e told) := by
  by_cases hobserve : ∃ told, action = .observeEpoch i told
  · obtain ⟨told, rfl⟩ := hobserve
    refine .inr ⟨told, rfl, ?_⟩
    rw [h.observeEpoch, List.getElem?_modify, hknown]
    simp
  · left
    by_cases hother : ∃ j told, action = .observeEpoch j told
    · obtain ⟨j, told, rfl⟩ := hother
      have hne : j ≠ i := fun heq => hobserve ⟨told, heq ▸ rfl⟩
      rw [h.observeEpoch, List.getElem?_modify, hknown]
      simp [hne]
    · rw [h.epochs_of_ne fun j told heq => hother ⟨j, told, heq⟩]
      exact hknown

namespace World

/-- The sequencer is in the epoch that the trace tells of. -/
lemma exists_sequencer (h : Node.start names policy sequencer management = .ok node)
    (moves : List Move) :
    ∃ q, ((World.start node).play moves).scene.node.mailbox.sequencer = some q ∧
      q.epoch = epochAfter sequencer.initialEpoch ((World.start node).play moves).scene.trace := by
  induction moves using List.reverseRecOn with
  | nil => exact ⟨_, (Node.start_eq_ok h).2.2.2.1, rfl⟩
  | append_singleton moves m ih =>
    obtain ⟨q, hq, hepoch⟩ := ih
    rw [play_append, play_cons, play_nil]
    rcases ((World.start node).play moves).calm_or_acts m with
      hcalm | ⟨id, choice, action, answer, -, -, hacts⟩
    · exact ⟨q, hcalm.mailbox ▸ hq, hcalm.trace ▸ hepoch⟩
    · obtain ⟨q', hq', -, hepoch'⟩ := hacts.epoch_sequencer hq
      refine ⟨q', hq', ?_⟩
      rw [hacts.trace_eq, epochAfter_append, ← hepoch]
      exact hepoch'

/-- The sequencer goes back to no earlier epoch. -/
lemma epoch_le_play (hq : w.scene.node.mailbox.sequencer = some q) (moves : List Move) :
    ∃ q', (w.play moves).scene.node.mailbox.sequencer = some q' ∧ q.epoch ≤ q'.epoch := by
  induction moves using List.reverseRecOn with
  | nil => exact ⟨q, hq, Nat.le_refl _⟩
  | append_singleton moves m ih =>
    obtain ⟨q', hq', hle⟩ := ih
    rw [play_append, play_cons, play_nil]
    rcases (w.play moves).calm_or_acts m with hcalm | ⟨id, choice, action, answer, -, -, hacts⟩
    · exact ⟨q', hcalm.mailbox ▸ hq', hle⟩
    · obtain ⟨q'', hq'', hle', -⟩ := hacts.epoch_sequencer hq'
      exact ⟨q'', hq'', Nat.le_trans hle hle'⟩

/-- What the sequencer told of its epoch was so when it answered, and it refused as stale only what
was asked for under an earlier epoch. -/
lemma told_of_trace (h : Node.start names policy sequencer management = .ok node)
    {before after : List Event} {request : TokenRequest} {r : Except SequencerError Token}
    (htrace : ((World.start node).play moves).scene.trace =
      before ++ ⟨id, .allocate request, r⟩ :: after) :
    (∀ epoch, toldEpoch? r = some epoch → epoch = epochAfter sequencer.initialEpoch before) ∧
      ∀ requested current, r = .error (.staleEpoch requested current) →
        request.epoch < epochAfter sequencer.initialEpoch before := by
  obtain ⟨earlier, choice, -, hbefore, hacts⟩ :=
    exists_turn_of_trace (w := World.start node) List.nil_prefix htrace
  obtain ⟨q, hq, hepoch⟩ := exists_sequencer h earlier
  rw [hbefore] at hepoch
  rw [← hepoch]
  obtain ⟨q', -, hallocated⟩ := hacts.allocated hq
  cases hallocated with
  | stale hstale =>
    exact ⟨fun epoch htold => (Option.some.inj htold).symm, fun _ _ _ => hstale⟩
  | queried | granted =>
    exact ⟨fun epoch htold => (Option.some.inj htold).symm, fun _ _ heq => (by cases heq)⟩
  | tooMany | overflow =>
    exact ⟨fun epoch htold => (by cases htold), fun _ _ heq => (by cases heq)⟩

/-- What the sequencer has told of its epoch is no later than its epoch now. -/
lemma told_le (h : Node.start names policy sequencer management = .ok node)
    {request : TokenRequest} {r : Except SequencerError Token} {epoch : Epoch}
    (hmem : ⟨id, .allocate request, r⟩ ∈ ((World.start node).play moves).scene.trace)
    (htold : toldEpoch? r = some epoch) :
    ∃ q, ((World.start node).play moves).scene.node.mailbox.sequencer = some q ∧
      epoch ≤ q.epoch := by
  obtain ⟨before, after, htrace⟩ := List.append_of_mem hmem
  obtain ⟨earlier, choice, ⟨more, rfl⟩, hbefore, -⟩ :=
    exists_turn_of_trace (w := World.start node) List.nil_prefix htrace
  obtain ⟨q, hq, hepoch⟩ := exists_sequencer h earlier
  obtain ⟨q', hq', hle⟩ := epoch_le_play hq (.advance id choice :: more)
  rw [List.append_assoc, play_append]
  refine ⟨q', hq', ?_⟩
  rw [(told_of_trace h htrace).1 epoch htold, ← hbefore, ← hepoch]
  exact hle

/-! ## Clients -/

/-- Every activity does with its client's epochs what clients do. -/
lemma heeds (h : Node.start names policy sequencer management = .ok node) {a : Activity}
    (ha : ((World.start node).play moves).activities[id]? = some a) :
    Heeds id a.job (((World.start node).play moves).scene.deeds id) :=
  vowed (fun _ _ => Heeds.nil) (fun _ _ moves _ hprogram =>
    Job.heeds (numbered_play (Scene.numbered_start h) moves).2 hprogram) moves ha

/-- Who has done something is there. -/
lemma exists_activity {event : Event}
    (hmem : event ∈ ((World.start node).play moves).scene.trace) :
    ∃ a, ((World.start node).play moves).activities[event.activity]? = some a :=
  ⟨_, List.getElem?_eq_getElem (((attributed_start node).play moves) event hmem)⟩

/-- The client of a job is there. -/
lemma client_lt (h : Node.start names policy sequencer management = .ok node) {a : Activity}
    (ha : ((World.start node).play moves).activities[id]? = some a)
    (hi : a.job.client? = some i) :
    i < ((World.start node).play moves).scene.node.epochs.length := by
  induction moves using List.reverseRecOn generalizing a with
  | nil => cases ha
  | append_singleton moves m ih =>
    rw [play_append, play_cons, play_nil] at ha ⊢
    have hlength : ((World.start node).play moves).scene.node.epochs.length ≤
        (((World.start node).play moves).step m).scene.node.epochs.length := by
      rcases ((World.start node).play moves).calm_or_acts m with
        hcalm | ⟨id, choice, action, answer, -, -, hacts⟩
      · exact hcalm.epochs.length_le
      · exact Nat.le_of_eq hacts.length_epochs.symm
    refine Nat.lt_of_lt_of_le ?_ hlength
    cases became ha with
    | same before => exact ih before hi
    | onward running | returned turn running | dropped running => exact ih running hi
    | @started job program start new admits program? scene =>
      have hnumbered := (numbered_play (Scene.numbered_start h) moves).1
      rw [← hnumbered]
      have hsome : ∃ c, ((World.start node).play moves).scene.node.clients[i]? = some c := by
        cases job with
        | append client | tails client | clientRead client | readStream client =>
          obtain rfl : client = i := Option.some.inj hi
          obtain ⟨c, hc, -⟩ := Option.map_eq_some_iff.mp program?
          exact ⟨c, hc⟩
        | peek | write | holeFill | read | readMany | allocate | bootstrap | layout => cases hi
      exact (List.getElem?_eq_some_iff.mp hsome.choose_spec).1

/-- A client knows whatever it was told. -/
lemma knows_of_observed (h : Node.start names policy sequencer management = .ok node)
    {epoch : Epoch} {u : Unit}
    (hmem : ⟨id, .observeEpoch i epoch, u⟩ ∈ ((World.start node).play moves).scene.trace) :
    ∃ known, ((World.start node).play moves).scene.node.epochs[i]? = some known ∧
      epoch ≤ known := by
  induction moves using List.reverseRecOn with
  | nil => cases hmem
  | append_singleton moves m ih =>
    have hplay : (World.start node).play (moves ++ [m]) =
        ((World.start node).play moves).step m := by rw [play_append, play_cons, play_nil]
    rcases ((World.start node).play moves).calm_or_acts m with
      hcalm | ⟨id', choice, action, answer, -, -, hacts⟩
    · rw [hplay, hcalm.trace] at hmem
      obtain ⟨known, hknown, hle⟩ := ih hmem
      rw [hplay]
      exact ⟨known, hcalm.epoch hknown, hle⟩
    · have hmem' := hmem
      rw [hplay, hacts.trace_eq, List.mem_append, List.mem_singleton] at hmem'
      rcases hmem' with hmem' | heq
      · obtain ⟨known, hknown, hle⟩ := ih hmem'
        obtain ⟨known', hknown', hle'⟩ := hacts.epoch_le hknown
        rw [hplay]
        exact ⟨known', hknown', Nat.le_trans hle hle'⟩
      · -- the client of the activity is there to be told
        obtain ⟨a, ha⟩ := exists_activity hmem
        have hdeed := Scene.mem_deeds.mpr ⟨hmem, rfl⟩
        have hi := client_lt h ha ((heeds h ha).told hdeed).1
        rw [hplay, hacts.length_epochs] at hi
        cases heq
        refine ⟨max ((World.start node).play moves).scene.node.epochs[i] epoch, ?_, ?_⟩
        · rw [hplay, hacts.observeEpoch, List.getElem?_modify, List.getElem?_eq_getElem hi]
          simp
        · rw [Epoch.le_def, Epoch.val_max]
          omega

/-- A client that looks up what it knows finds no earlier epoch than it was told of. -/
lemma told_le_known (h : Node.start names policy sequencer management = .ok node)
    {before after : List Event} {id' : Nat} {told known : Epoch} {u : Unit}
    (htrace : ((World.start node).play moves).scene.trace =
      before ++ ⟨id', .knownEpoch i, known⟩ :: after)
    (hmem : ⟨id, .observeEpoch i told, u⟩ ∈ before) : told ≤ known := by
  obtain ⟨earlier, choice, -, hbefore, hacts⟩ :=
    exists_turn_of_trace (w := World.start node) List.nil_prefix htrace
  obtain ⟨known', hknown', hle⟩ := knows_of_observed h (hbefore ▸ hmem)
  have hknown : known = _ := hacts.knownEpoch
  rw [List.getD_eq_getElem?_getD, hknown', Option.getD_some] at hknown
  exact hknown ▸ hle

/-- A stale request after another one of the same activity: the sequencer has moved on from what it
told of in the first answer. -/
lemma epoch_lt_of_stale (h : Node.start names policy sequencer management = .ok node)
    {a : Activity} (ha : ((World.start node).play moves).activities[id]? = some a)
    (hi : a.job.client? = some i) {before mid after : List Event} {request request' : TokenRequest}
    {r : Except SequencerError Token} {requested current : Epoch}
    (htrace : ((World.start node).play moves).scene.trace =
      before ++ ⟨id, .allocate request, r⟩ :: mid ++
        ⟨id, .allocate request', .error (.staleEpoch requested current)⟩ :: after) :
    toldEpoch? r = some (epochAfter sequencer.initialEpoch before) ∧
      epochAfter sequencer.initialEpoch before <
        epochAfter sequencer.initialEpoch (before ++ ⟨id, .allocate request, r⟩ :: mid) := by
  -- the activity's own deeds, of which it keeps to the pattern
  have hdeeds : ((World.start node).play moves).scene.deeds id =
      before.filter (·.activity = id) ++ ⟨id, .allocate request, r⟩ ::
        mid.filter (·.activity = id) ++
        ⟨id, .allocate request', .error (.staleEpoch requested current)⟩ ::
          after.filter (·.activity = id) := by
    simp [Scene.deeds, htrace]
  obtain ⟨earlier, hearlier, hsettled⟩ := (heeds h ha).asked i hi _ _ _ _ hdeeds
  rcases eq_of_concat_eq_append_cons hearlier.symm with ⟨-, hself, -⟩ | ⟨mid', hmid, hsplit⟩
  · cases hself
  obtain ⟨told, htold, hobserved⟩ := hsettled _ _ _ _ hsplit
  -- so it looked up what the client knew, after the client was told of the first answer
  obtain ⟨mid₁, mid₂, rfl, hmid₁, -⟩ := exists_split_of_filter hmid
  have hle : told ≤ request'.epoch := by
    have hlookup : ((World.start node).play moves).scene.trace =
        (before ++ ⟨id, .allocate request, r⟩ :: mid₁) ++ ⟨id, .knownEpoch i, request'.epoch⟩ ::
          (mid₂ ++ ⟨id, .allocate request', .error (.staleEpoch requested current)⟩ :: after) := by
      rw [htrace]
      simp
    have hmem : ⟨id, .observeEpoch i told, ()⟩ ∈ mid₁ :=
      (List.mem_filter.mp (hmid₁ ▸ hobserved)).1
    exact told_le_known h hlookup (List.mem_append_right _ (List.mem_cons_of_mem _ hmem))
  have hfirst := (told_of_trace h (by rw [htrace, List.append_assoc]; rfl)).1 told htold
  have hstale := (told_of_trace h htrace).2 _ _ rfl
  rw [← hfirst]
  exact ⟨htold, Nat.lt_of_le_of_lt hle hstale⟩

/-- Between the two answers a bootstrap to a later epoch was applied. -/
lemma raisedAbove_of_stale (h : Node.start names policy sequencer management = .ok node)
    {a : Activity} (ha : ((World.start node).play moves).activities[id]? = some a)
    (hi : a.job.client? = some i) {before mid after : List Event} {request request' : TokenRequest}
    {r : Except SequencerError Token} {requested current : Epoch}
    (htrace : ((World.start node).play moves).scene.trace =
      before ++ ⟨id, .allocate request, r⟩ :: mid ++
        ⟨id, .allocate request', .error (.staleEpoch requested current)⟩ :: after) :
    ∃ told, toldEpoch? r = some told ∧ RaisedAbove told mid := by
  obtain ⟨htold, hlt⟩ := epoch_lt_of_stale h ha hi htrace
  rw [epochAfter_append] at hlt
  exact ⟨_, htold, raisedAbove_of_lt hlt⟩

/-- From then on that a client knows an epoch, it knows that one or a later one, but none that is
later than both that one and the sequencer's. -/
lemma knows_play (h : Node.start names policy sequencer management = .ok node) {more : List Move}
    {known : Epoch} (hknown : ((World.start node).play moves).scene.node.epochs[i]? = some known) :
    ∃ known' q', ((World.start node).play (moves ++ more)).scene.node.epochs[i]? = some known' ∧
      ((World.start node).play (moves ++ more)).scene.node.mailbox.sequencer = some q' ∧
      known ≤ known' ∧ known' ≤ max known q'.epoch := by
  induction more using List.reverseRecOn with
  | nil =>
    rw [List.append_nil]
    obtain ⟨q, hq, -⟩ := exists_sequencer h moves
    refine ⟨known, q, hknown, hq, Nat.le_refl _, ?_⟩
    rw [Epoch.le_def, Epoch.val_max]
    exact Nat.le_max_left ..
  | append_singleton more m ih =>
    obtain ⟨known', q', hknown', hq', hle, hmax⟩ := ih
    have hplay : (World.start node).play (moves ++ (more ++ [m])) =
        ((World.start node).play (moves ++ more)).step m := by
      rw [← List.append_assoc, play_append, play_cons, play_nil]
    rcases ((World.start node).play (moves ++ more)).calm_or_acts m with
      hcalm | ⟨id, choice, action, answer, -, -, hacts⟩
    · rw [hplay]
      exact ⟨known', q', hcalm.epoch hknown', hcalm.mailbox ▸ hq', hle, hmax⟩
    · obtain ⟨q'', hq'', hraise, -⟩ := hacts.epoch_sequencer hq'
      rw [Epoch.le_def, Epoch.val_max] at hmax
      simp only [Epoch.le_def, Epoch.val_max] at hle hraise ⊢
      rcases hacts.knows hknown' with hsame | ⟨told, rfl, htold⟩
      · exact ⟨known', q'', hplay ▸ hsame, hplay ▸ hq'', hle, by omega⟩
      · -- of an epoch that the sequencer was in
        have hmem : ⟨id, .observeEpoch i told, answer⟩ ∈
            ((World.start node).play (moves ++ (more ++ [m]))).scene.trace := by
          rw [hplay, hacts.trace_eq]
          exact List.mem_concat_self
        obtain ⟨a, ha⟩ := exists_activity hmem
        obtain ⟨-, request, r, hrequest, htells⟩ :=
          (heeds h ha).told (Scene.mem_deeds.mpr ⟨hmem, rfl⟩)
        obtain ⟨q₀, hq₀, hbound⟩ := told_le h (Scene.mem_deeds.mp hrequest).1 htells
        obtain rfl : q₀ = q'' := Option.some.inj (hq₀.symm.trans (hplay ▸ hq''))
        rw [Epoch.le_def] at hbound
        refine ⟨max known' told, q₀, hplay ▸ htold, hq₀, ?_⟩
        rw [Epoch.val_max]
        omega

/-- In the course of an interleaving, the stale requests of an activity that serves a client come at
ever later epochs of the sequencer. -/
lemma stalesRise (h : Node.start names policy sequencer management = .ok node) {more : List Move}
    {a : Activity} (ha : ((World.start node).play (moves ++ more)).activities[id]? = some a)
    (hi : a.job.client? = some i)
    (hq : ((World.start node).play moves).scene.node.mailbox.sequencer = some q)
    {events : List Event} (hevents : ((World.start node).play (moves ++ more)).scene.trace =
      ((World.start node).play moves).scene.trace ++ events) :
    StalesRise id q.epoch events := by
  rintro before a₁ mid a₂ after rfl hstale₁ hstale₂
  obtain ⟨request, requested, current, rfl⟩ := Event.staleFor_iff.mp hstale₁
  obtain ⟨request', requested', current', rfl⟩ := Event.staleFor_iff.mp hstale₂
  obtain ⟨q', hq', hepoch⟩ := exists_sequencer h moves
  obtain rfl : q = q' := Option.some.inj (hq.symm.trans hq')
  rw [← List.append_assoc, ← List.append_assoc] at hevents
  have hlt := (epoch_lt_of_stale h ha hi hevents).2
  rw [List.append_assoc, epochAfter_append, ← hepoch, epochAfter_append, ← hepoch] at hlt
  exact hlt

end World

end Interleavings

/-! ## Queries that fail -/

namespace Client

variable {c : Client} {streams : StreamSet} {past : List Event}

/-- What is done for a query that is refused as stale. -/
def staleQuery (id index : Nat) (streams : StreamSet) (known requested current : Epoch) :
    List Event :=
  [⟨id, .knownEpoch index, known⟩,
    ⟨id, .allocate (.query known streams), .error (.staleEpoch requested current)⟩,
    ⟨id, .observeEpoch index current, ()⟩]

lemma leads_queryTails : NodeProgram.Leads id (fun r past' => ∀ requested current,
      r = .error (.sequencer (.staleEpoch requested current)) →
      ∃ known, past' = past ++ staleQuery id c.index streams known requested current)
    (c.queryTails streams) past := by
  intro known r
  cases r with
  | ok token => rintro _ _ _ ⟨⟩
  | error e =>
    cases e with
    | staleEpoch requested current =>
      rintro _ _ _ ⟨⟩
      exact ⟨known, by simp [staleQuery]⟩
    | invalidArgument | tailOverflow | serviceUnavailable | internal => rintro _ _ ⟨⟩

/-- A client that does not get tails, since it was refused as stale, has asked twice. -/
def AskedTwice (id : Nat) (streams : StreamSet) (r : Except ServerError Token)
    (past : List Event) : Prop :=
  ∀ requested current, r = .error (.sequencer (.staleEpoch requested current)) →
    ∃ index known requested' told known', past =
      staleQuery id index streams known requested' told ++
        staleQuery id index streams known' requested current

lemma leads_tails : NodeProgram.Leads id (AskedTwice id streams) (c.tails streams) [] := by
  refine leads_queryTails.bind fun r past₁ h₁ => ?_
  split
  · rename_i requested' told
    obtain ⟨known, rfl⟩ := h₁ _ _ rfl
    refine leads_queryTails.mono fun r past h requested current hr => ?_
    obtain ⟨known', rfl⟩ := h _ _ hr
    exact ⟨c.index, known, requested', told, known', rfl⟩
  · rename_i hne
    rintro requested current rfl
    exact absurd rfl (hne requested current)

end Client

namespace World

open Client (AskedTwice leads_tails)

variable {names : List String} {policy : HoleFillPolicy} {sequencer : SequencerSettings}
  {management : BootstrapSettings} {node : Node} {moves : List Move}

/-- The two requests of a client that does not get tails, since it was refused as stale. Between the
answers to them the sequencer was moved to a later epoch. -/
lemma Returned.tails_stale (h : Node.start names policy sequencer management = .ok node)
    {streams : StreamSet} {requested current : Epoch} {r : Except ServerError Token}
    (hreturned : ((World.start node).play moves).Returned id (.tails i streams) r)
    (hr : r = .error (.sequencer (.staleEpoch requested current))) :
    ∃ before request requested' told mid request' after,
      ((World.start node).play moves).scene.trace =
        before ++ ⟨id, .allocate request, .error (.staleEpoch requested' told)⟩ :: mid ++
          ⟨id, .allocate request', .error (.staleEpoch requested current)⟩ :: after ∧
      (∀ event ∈ before ++ mid ++ after, event.activity = id →
        ∀ other, event.action ≠ .allocate other) ∧
      RaisedAbove told mid := by
  have hends : AskedTwice id streams r (((World.start node).play moves).scene.deeds id) := by
    refine hreturned.of_leads fun moves program hprogram => ?_
    obtain ⟨c, -, rfl⟩ := Option.map_eq_some_iff.mp hprogram
    exact leads_tails
  obtain ⟨index, known, requested', told, known', hdeeds⟩ := hends _ _ hr
  obtain ⟨before, rest, htrace, hbefore, hrest⟩ := exists_split_of_filter (a := [_]) hdeeds
  obtain ⟨mid, after, rfl, hmid, hafter⟩ := exists_split_of_filter (a := [_, _]) hrest
  rw [← List.cons_append, ← List.append_assoc] at htrace
  refine ⟨before, _, requested', told, mid, _, after, htrace, ?_, ?_⟩
  · intro event hmem hself other hother
    have hfiltered : event ∈ (before ++ mid ++ after).filter (·.activity = id) :=
      List.mem_filter.mpr ⟨hmem, decide_eq_true hself⟩
    rw [List.filter_append, List.filter_append, hbefore, hmid, hafter] at hfiltered
    simp only [List.cons_append, List.nil_append, List.mem_cons, List.not_mem_nil, or_false]
      at hfiltered
    rcases hfiltered with rfl | rfl | rfl | rfl <;> cases hother
  · obtain ⟨told', htold, hraised⟩ := raisedAbove_of_stale h hreturned rfl htrace
    exact Option.some.inj htold ▸ hraised

end World

open Client (toldEpoch?) in
/-- Clients learn epochs, in every interleaving and from any moment `w` on. What a client knows
grows, but to nothing later than both what it knew at `w` and the sequencer's epoch. When a request
for a client is refused as stale, after another one of the same operation was answered, then a
bootstrap to a later epoch than that of the earlier answer has been applied in between. So an
operation is refused as stale at most once more than the sequencer is moved to a later epoch in the
meantime. And a query of tails fails as stale only if both its requests were stale, with such a
bootstrap between them. -/
theorem epochs_learned {names : List String} {policy : HoleFillPolicy}
    {sequencer : SequencerSettings} {management : BootstrapSettings} {node : Node}
    (h : Node.start names policy sequencer management = .ok node) (moves more : List Move)
    (w w' : World) (hw : w = (World.start node).play moves) (hw' : w' = w.play more) :
    (∀ (client : Nat) known, w.scene.node.epochs[client]? = some known → ∃ known' q',
      w'.scene.node.epochs[client]? = some known' ∧ w'.scene.node.mailbox.sequencer = some q' ∧
      known ≤ known' ∧ known' ≤ max known q'.epoch) ∧
    (∀ (id : Nat) a client, w'.activities[id]? = some a → a.job.client? = some client →
      ∀ before request r mid request' requested current after,
        w'.scene.trace = before ++ ⟨id, .allocate request, r⟩ :: mid ++
          ⟨id, .allocate request', .error (.staleEpoch requested current)⟩ :: after →
        ∃ told, toldEpoch? r = some told ∧ RaisedAbove told mid) ∧
    (∀ (id : Nat) a client, w'.activities[id]? = some a → a.job.client? = some client →
      ∃ q events, w.scene.node.mailbox.sequencer = some q ∧
        w'.scene.trace = w.scene.trace ++ events ∧
        events.countP (·.staleFor id) ≤ 1 + raises q.epoch events) ∧
    ∀ id client streams requested current (r : Except ServerError Token),
      w'.Returned id (.tails client streams) r →
      r = .error (.sequencer (.staleEpoch requested current)) →
      ∃ before request requested' told mid request' after,
        w'.scene.trace =
          before ++ ⟨id, .allocate request, .error (.staleEpoch requested' told)⟩ :: mid ++
            ⟨id, .allocate request', .error (.staleEpoch requested current)⟩ :: after ∧
        (∀ event ∈ before ++ mid ++ after, event.activity = id →
          ∀ other, event.action ≠ .allocate other) ∧
        RaisedAbove told mid := by
  subst hw hw'
  rw [← World.play_append]
  refine ⟨fun client known hknown => World.knows_play h hknown, ?_, ?_, ?_⟩
  · intro id a client ha hclient before request r mid request' requested current after htrace
    exact World.raisedAbove_of_stale h ha hclient htrace
  · intro id a client ha hclient
    obtain ⟨q, hq, -⟩ := World.exists_sequencer h moves
    obtain ⟨events, hevents⟩ := ((World.start node).play moves).trace_prefix_play more
    rw [← World.play_append] at hevents
    exact ⟨q, events, hq, hevents.symm,
      (countP_staleFor_le (World.stalesRise h ha hclient hq hevents.symm)).1⟩
  · exact fun id client streams requested current r hreturned hr => hreturned.tails_stale h hr

/-- An append that is refused as stale twice, the second time since the sequencer has moved on after
the first refusal. The query of another client fails in the same way. -/
theorem epochs_learned_too_late : ∃ node,
    Node.start ["a"] .immediate ⟨1, Epoch.zero, 5⟩ .default = .ok node ∧
    let epoch (n : Fin 20) : Epoch := ⟨n, Nat.lt_trans n.isLt (by decide)⟩
    let turns (id n : Nat) : List Move := List.replicate n (.advance id (.prompt 1))
    let raising (id : Nat) (n : Fin 20) : List Move :=
      .start (.bootstrap (.merge (epoch n) Position.zero ∅)) :: turns id 1
    let w := (World.start node).play (.join Epoch.zero 3 :: .join Epoch.zero 3 :: raising 0 1)
    let w' := w.play
      ((.start (.append 0 ∅ []) :: turns 1 2) ++ raising 2 2 ++ turns 1 9 ++
        (.start (.tails 1 ∅) :: turns 3 2) ++ raising 4 3 ++ turns 3 5)
    w'.scene.node.epochs = [epoch 2, epoch 3] ∧
      w'.Returned 1 (.append 0 ∅ []) (.ok Position.zero) ∧
      w'.Returned 3 (.tails 1 ∅) (.error (.sequencer (.staleEpoch (epoch 2) (epoch 3)))) ∧
      (∃ q events, w.scene.node.mailbox.sequencer = some q ∧
        w'.scene.trace = w.scene.trace ++ events ∧ events.countP (·.staleFor 1) = 2 ∧
        2 ≤ 1 + raises q.epoch events) ∧
      ∃ told mid, (∀ event ∈ mid, event ∈ w'.scene.trace) ∧ RaisedAbove told mid := by
  have h : Node.start ["a"] .immediate ⟨1, Epoch.zero, 5⟩ .default = .ok _ := rfl
  refine ⟨_, h, ?_⟩
  intro epoch turns raising w w'
  have happend : w'.Returned 1 (.append 0 ∅ []) (.ok Position.zero) := by decide +kernel
  have htails : w'.Returned 3 (.tails 1 ∅)
      (.error (.sequencer (.staleEpoch (epoch 2) (epoch 3)))) := by decide +kernel
  have hbefore : w.scene.trace.countP (·.staleFor 1) = 0 := by decide +kernel
  have hafter : w'.scene.trace.countP (·.staleFor 1) = 2 := by decide +kernel
  obtain ⟨-, -, hcount, hstale⟩ := epochs_learned h _ _ w w' rfl rfl
  obtain ⟨q, events, hq, hevents, hle⟩ := hcount 1 _ 0 happend rfl
  rw [hevents, List.countP_append, hbefore, Nat.zero_add] at hafter
  obtain ⟨before, request, requested, told, mid, request', after, htrace, -, hraised⟩ :=
    hstale 3 1 ∅ _ _ _ htails rfl
  refine ⟨by decide +kernel, happend, htails, ⟨q, events, hq, hevents, hafter, hafter ▸ hle⟩,
    told, mid, fun event hmem => ?_, hraised⟩
  rw [htrace]
  simp [hmem]

end SharedLog
