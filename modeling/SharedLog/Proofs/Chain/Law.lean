/-
# The law of the chain

At every position the units that hold a value are the first ones of the chain, and all of them hold
the value that the head took. For that nobody has to know who else is at work. It is enough that a
value is written to a unit after the head only while the unit before it holds the value already: the
value is then the head's, and no other one can come to the place.

The head takes one value for each position, and the trace tells from whom.
-/
import SharedLog.Proofs.World.Keeping

namespace SharedLog

namespace Scene

variable {s s' s'' : Scene} {id i j : Nat} {p q : Position} {v data : LogData}

/-! ## What holds of every scene -/

/-- The state that a chain is always in. -/
structure Sound (s : Scene) : Prop where
  names : s.node.units.map (·.name) = s.node.chain.names
  /-- What a unit holds, the units before it hold as well. -/
  headward : ∀ {i j p v}, i ≤ j → s.slot j p = some v → s.slot i p = some v
  /-- The head holds what it took. -/
  accepted : ∀ {id p v}, s.Accepted id p v → s.slot Chain.head p = some v
  /-- A position is taken by one activity. -/
  accepted_once : ∀ {id id' p v v'}, s.Accepted id p v → s.Accepted id' p v' → id = id'

/-- What may be different in a later scene: more positions are filled, and more was done. -/
structure Grows (s s' : Scene) : Prop where
  chain : s'.node.chain = s.node.chain
  names : s'.node.units.map (·.name) = s.node.units.map (·.name)
  slot : ∀ {i p v}, s.slot i p = some v → s'.slot i p = some v
  trace : s.trace <+: s'.trace

/-- What may be written to a unit after the head: a value that the unit before it holds. -/
def Copies (s : Scene) : Action → Prop
  | .onUnit (.write (i + 1) p data) => s.slot i p = some data
  | _ => True

namespace Grows

lemma refl (s : Scene) : s.Grows s := ⟨rfl, rfl, id, List.prefix_rfl⟩

lemma trans (h : s.Grows s') (h' : s'.Grows s'') : s.Grows s'' :=
  ⟨h'.chain.trans h.chain, h'.names.trans h.names, fun hv => h'.slot (h.slot hv),
    h.trace.trans h'.trace⟩

lemma of_calm (h : s.Calm s') : s.Grows s' :=
  ⟨h.chain, h.names, fun hv => (h.slot ..).trans hv, h.trace ▸ List.prefix_rfl⟩

lemma of_acts {action : Action} {answer : action.Answer} (h : s.Acts id action answer s') :
    s.Grows s' :=
  ⟨h.chain, h.names, h.slot_of_some, h.trace_eq ▸ List.prefix_append ..⟩

lemma length (h : s.Grows s') : s'.node.units.length = s.node.units.length := by
  simpa using congrArg List.length h.names

lemma accepted (h : s.Grows s') (ha : s.Accepted id p v) : s'.Accepted id p v := h.trace.subset ha

end Grows

/-! ## Committed positions -/

/-- Being committed, unit by unit. -/
lemma committed_iff : s.Committed p v ↔ ∀ i < s.node.units.length, s.slot i p = some v := by
  unfold Committed slot
  constructor
  · intro h i hi
    rw [List.getElem?_eq_getElem hi]
    exact h _ (List.getElem_mem hi)
  · intro h unit hunit
    obtain ⟨i, hi, rfl⟩ := List.mem_iff_getElem.mp hunit
    simpa [List.getElem?_eq_getElem hi] using h i hi

lemma Grows.committed (h : s.Grows s') (hv : s.Committed p v) : s'.Committed p v := by
  rw [committed_iff] at hv ⊢
  intro i hi
  exact h.slot (hv i (h.length ▸ hi))

namespace Sound

lemma length (h : s.Sound) : s.node.units.length = s.node.chain.length := by
  simpa [Chain.length] using congrArg List.length h.names

lemma length_pos (h : s.Sound) : 0 < s.node.units.length := by
  rw [h.length]
  exact List.length_pos_iff.mpr s.node.chain.names_ne_nil

/-- A position that the tail holds is committed. -/
lemma committed_of_tail (h : s.Sound) (hv : s.slot s.node.chain.tail p = some v) :
    s.Committed p v := by
  rw [committed_iff]
  intro i hi
  refine h.headward ?_ hv
  have hlength := h.length
  unfold Chain.tail
  omega

lemma tail_of_committed (h : s.Sound) (hv : s.Committed p v) :
    s.slot s.node.chain.tail p = some v := by
  refine committed_iff.mp hv _ ?_
  have hlength := h.length
  have hpos := h.length_pos
  unfold Chain.tail
  omega

lemma head_of_committed (h : s.Sound) (hv : s.Committed p v) :
    s.slot Chain.head p = some v := committed_iff.mp hv _ h.length_pos

/-- A position is committed with one value only. -/
lemma committed_unique (h : s.Sound) {v' : LogData} (hv : s.Committed p v)
    (hv' : s.Committed p v') : v = v' :=
  Option.some.inj ((h.head_of_committed hv).symm.trans (h.head_of_committed hv'))

/-! ## Keeping the law -/

lemma of_calm (h : s.Sound) (hcalm : s.Calm s') : s'.Sound where
  names := by rw [hcalm.names, hcalm.chain, h.names]
  headward := by
    intro i j p v hij hv
    rw [hcalm.slot] at hv ⊢
    exact h.headward hij hv
  accepted := by
    intro id p v hv
    rw [hcalm.slot]
    exact h.accepted (by rwa [Accepted, hcalm.trace] at hv)
  accepted_once := by
    intro id id' p v v' hv hv'
    rw [Accepted, hcalm.trace] at hv hv'
    exact h.accepted_once hv hv'

/-- A value that was just written came to the head, or it is the value of the unit before. -/
lemma headward_of_acts (h : s.Sound) {action : Action} {answer : action.Answer}
    (hcopies : s.Copies action) (hacts : s.Acts id action answer s') (hij : i ≤ j)
    (hv : s'.slot j p = some v) : s'.slot i p = some v := by
  rcases hacts.slot j p with heq | ⟨-, d, hd, hevent⟩
  · exact hacts.slot_of_some (h.headward hij (heq ▸ hv))
  · obtain rfl : d = v := Option.some.inj (hd.symm.trans hv)
    obtain rfl : action = .onUnit (.write j p d) := by injection hevent
    rcases Nat.eq_or_lt_of_le hij with rfl | hlt
    · exact hv
    · -- the unit before holds the value, and so do all units before that one
      obtain ⟨k, rfl⟩ : ∃ k, j = k + 1 := ⟨j - 1, by omega⟩
      have hbefore : s.slot k p = some d := hcopies
      exact hacts.slot_of_some (h.headward (by omega) hbefore)

lemma of_acts (h : s.Sound) {action : Action} {answer : action.Answer} (hcopies : s.Copies action)
    (hacts : s.Acts id action answer s') : s'.Sound where
  names := by rw [hacts.names, hacts.chain, h.names]
  headward hij hv := h.headward_of_acts hcopies hacts hij hv
  accepted := by
    intro id' p v hv
    rw [Accepted, hacts.trace_eq, List.mem_append, List.mem_singleton] at hv
    rcases hv with hv | hv
    · exact hacts.slot_of_some (h.accepted hv)
    · -- the value that the head has just taken
      cases hv
      have heffect := hacts.write
      generalize s'.slot Chain.head p = after at heffect ⊢
      cases heffect
      rfl
  accepted_once := by
    -- the head takes nothing for a position that it holds a value of
    have hfree : ∀ {id₁ id₂ p v v'}, s.Accepted id₁ p v →
        (⟨id₂, .onUnit (.write Chain.head p v'), .ok .written⟩ : Event) ≠ ⟨id, action, answer⟩ := by
      intro id₁ id₂ p v v' hv heq
      cases heq
      have heffect := hacts.write
      generalize s'.slot Chain.head p = after at heffect
      cases heffect with
      | written free => simp [h.accepted hv] at free
    intro id₁ id₂ p v v' hv hv'
    rw [Accepted, hacts.trace_eq, List.mem_append, List.mem_singleton] at hv hv'
    rcases hv with hv | hv <;> rcases hv' with hv' | hv'
    · exact h.accepted_once hv hv'
    · exact absurd hv' (hfree hv)
    · exact absurd hv (hfree hv')
    · cases hv
      cases hv'
      rfl

end Sound

end Scene

/-! ## The law -/

/-- Units are filled from the head on. -/
def chainLaw : Law where
  holds := Scene.Sound
  later := Scene.Grows
  allows action s := s.Copies action
  heeds _ _ := True
  rounds := none
  later_refl := Scene.Grows.refl
  later_trans := Scene.Grows.trans
  act_keeps h hallows hacts := ⟨.of_acts hacts, h.of_acts hallows hacts⟩
  calm_keeps h hcalm := ⟨.of_calm hcalm, h.of_calm hcalm⟩

lemma chainLaw_unconditional : chainLaw.Unconditional := ⟨fun _ _ => trivial, rfl⟩

namespace Law

/-- A law that keeps the chain's. -/
structure Growing (L : Law) : Prop where
  sound : ∀ {s}, L.holds s → s.Sound
  grows : ∀ {s s'}, L.later s s' → s.Grows s'

/-- A law under which everybody may look at units. -/
structure Watching (L : Law) : Prop extends L.Growing where
  allows_peek : ∀ {s} (i p), L.holds s → L.allows (.onUnit (.peek i p)) s

/-- A law under which everybody may decide a position: fill it with a hole, and copy what a unit
holds to the next one. -/
structure Filling (L : Law) (p : Position) : Prop extends L.Watching where
  allows_hole : ∀ {s}, L.holds s → L.allows (.onUnit (.write Chain.head p .hole)) s
  allows_copy : ∀ {s i v}, L.holds s → s.slot i p = some v →
    L.allows (.onUnit (.write (i + 1) p v)) s

/-- A law under which everybody may decide any position. -/
structure Chainlike (L : Law) : Prop extends L.Watching where
  allows_hole : ∀ {s} (p), L.holds s → L.allows (.onUnit (.write Chain.head p .hole)) s
  allows_copy : ∀ {s i p v}, L.holds s → s.slot i p = some v →
    L.allows (.onUnit (.write (i + 1) p v)) s

lemma Chainlike.filling {L : Law} (hL : L.Chainlike) (p : Position) : L.Filling p :=
  { hL with
    allows_hole := hL.allows_hole p
    allows_copy := hL.allows_copy }

/-- An activity was failed by a unit of the chain, which is an answer that the law counts on. -/
def Fails (L : Law) (id : Nat) (s : Scene) (e : ReplicationError) : Prop :=
  ∃ (call : UnitCall) (answer : call.Answer), call.place < s.node.chain.length ∧
    ⟨id, .onUnit call, answer⟩ ∈ s.trace ∧ call.FailsWith answer e ∧ L.heeds (.onUnit call) answer

lemma Growing.fails {L : Law} (hL : L.Growing) {s s' : Scene} {id : Nat}
    {e : ReplicationError} (h : L.Fails id s e) (hlater : L.later s s') : L.Fails id s' e := by
  obtain ⟨call, answer, hplace, hmem, hfails, hheeds⟩ := h
  have hgrows := hL.grows hlater
  exact ⟨call, answer, hgrows.chain ▸ hplace, hgrows.trace.subset hmem, hfails, hheeds⟩

end Law

lemma chainLaw_chainlike : chainLaw.Chainlike where
  sound := id
  grows := id
  allows_peek _ _ _ := trivial
  allows_hole _ _ := trivial
  allows_copy _ h := h

/-! ## The beginning -/

/-- What a fresh node is made of. -/
lemma Node.start_eq_ok {names : List String} {policy : HoleFillPolicy}
    {sequencer : SequencerSettings} {management : BootstrapSettings} {node : Node}
    (h : Node.start names policy sequencer management = .ok node) :
    node.chain.names = names ∧ node.chain.policy = policy ∧ node.units = names.map LogUnit.new ∧
      node.mailbox.sequencer =
        some (.new sequencer.initialEpoch sequencer.maxTokensPerRequest) ∧
      node.clients = [] ∧ node.epochs = [] ∧ node.bootstrapper = ⟨management, none⟩ := by
  unfold start Chain.ofNames at h
  dsimp only at h
  split at h
  · split at h
    · cases h
    · rename_i chain hchain
      cases h
      split at hchain
      · cases hchain
      · cases hchain
        exact ⟨rfl, rfl, rfl, rfl, rfl, rfl, rfl⟩
  · cases h

/-- The units of a fresh node hold nothing. -/
lemma Scene.slot_start {names : List String} {policy : HoleFillPolicy}
    {sequencer : SequencerSettings} {management : BootstrapSettings} {node : Node}
    (h : Node.start names policy sequencer management = .ok node) (i : Nat) (p : Position) :
    (World.start node).scene.slot i p = none := by
  obtain ⟨-, -, hunits, -⟩ := Node.start_eq_ok h
  simp only [slot, World.start, hunits, List.getElem?_map]
  cases names[i]? <;> simp [LogUnit.new]

/-- A fresh node keeps the law. -/
lemma Scene.sound_start {names : List String} {policy : HoleFillPolicy}
    {sequencer : SequencerSettings} {management : BootstrapSettings} {node : Node}
    (h : Node.start names policy sequencer management = .ok node) :
    (World.start node).scene.Sound := by
  obtain ⟨hnames, -, hunits, -⟩ := Node.start_eq_ok h
  constructor
  case names => simp [World.start, hunits, hnames, Function.comp_def, LogUnit.new]
  case headward =>
    intro i j p v _ hv
    rw [slot_start h] at hv
    cases hv
  case accepted =>
    intro id p v hv
    cases hv
  case accepted_once =>
    intro id id' p v v' hv
    cases hv

/-- A fresh node has no clients. -/
lemma Scene.numbered_start {names : List String} {policy : HoleFillPolicy}
    {sequencer : SequencerSettings} {management : BootstrapSettings} {node : Node}
    (h : Node.start names policy sequencer management = .ok node) :
    (World.start node).scene.Numbered := by
  obtain ⟨-, -, -, -, hclients, hepochs, -⟩ := Node.start_eq_ok h
  simp [Numbered, World.start, hclients, hepochs]

end SharedLog
