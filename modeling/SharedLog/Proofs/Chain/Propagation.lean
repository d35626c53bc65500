/-
# How far a value is copied

A write and a hole fill decide a position at the head, and then copy the head's value from one unit
to the next until a unit resists: it is offline, or it holds another value. Here this is said of
units that hold anything at all. They may be at odds with each other as no interleaving leaves them,
and any of them may be offline; but nobody else goes on.
-/
import SharedLog.Proofs.Node.Outcome
import SharedLog.Proofs.World.Alone

namespace SharedLog

variable {s s' s₁ s₂ : Scene} {w : World} {unit : LogUnit} {id j k : Nat} {p q : Position}
  {v : LogData} {entry : LogEntry} {r : Except ReplicationError Unit}

/-! ## Units that resist -/

namespace LogUnit

/-- A unit takes no copy of a value: it is offline, or it holds another value. -/
def Resists (u : LogUnit) (p : Position) (v : LogData) : Prop :=
  u.offline = true ∨ ∃ existing, u.slots[p]? = some existing ∧ existing ≠ v

/-- The error with which the copying of a value ends at a unit that resists it. -/
def objection (u : LogUnit) (p : Position) : ReplicationError :=
  if u.offline then unreachable u.name else Chain.diverged p u.name

lemma not_resists_iff {u : LogUnit} : ¬ u.Resists p v ↔
    u.offline = false ∧ (u.slots[p]? = none ∨ u.slots[p]? = some v) := by
  unfold Resists
  cases u.offline <;> cases u.slots[p]? <;> simp

/-- An empty unit takes any value. -/
lemma not_resists_new (name : String) : ¬ (new name).Resists p v :=
  not_resists_iff.mpr ⟨rfl, .inl (by simp [new])⟩

/-- What a unit that does not resist answers when it is asked to write the value. -/
lemma write_of_not_resists {u : LogUnit} (h : ¬ u.Resists p v) :
    (u.write p v).1 = .ok .written ∨ (u.write p v).1 = .ok (.conflict v) := by
  obtain ⟨honline, hnone | hsome⟩ := not_resists_iff.mp h
  · exact .inl (by simp [write, honline, hnone])
  · exact .inr (by simp [write, honline, hsome])

/-- What a unit that resists answers. -/
lemma write_of_resists {u : LogUnit} (h : u.Resists p v) :
    (u.write p v).1 = .error (u.objection p) ∨
      ∃ existing, existing ≠ v ∧ (u.write p v).1 = .ok (.conflict existing) ∧
        u.objection p = Chain.diverged p u.name := by
  cases hoffline : u.offline with
  | true => exact .inl (by simp [write, objection, hoffline])
  | false =>
    obtain ⟨existing, hsome, hne⟩ := h.resolve_left (by simp [hoffline])
    exact .inr ⟨existing, hne, by simp [write, hoffline, hsome], by simp [objection, hoffline]⟩

/-- A unit that does not resist holds the value then. -/
lemma slots_write_of_not_resists {u : LogUnit} (h : ¬ u.Resists p v) :
    (u.write p v).2.slots[p]? = some v := by
  obtain ⟨honline, hslot⟩ := not_resists_iff.mp h
  rw [getElem?_slots_write]
  rcases hslot with hnone | hsome
  · rw [if_pos ⟨honline, rfl, hnone⟩]
  · rw [if_neg (by simp [hsome]), hsome]

/-- A unit that resists is left as it is. -/
lemma slots_write_of_resists {u : LogUnit} (h : u.Resists p v) :
    (u.write p v).2.slots[p]? = u.slots[p]? := by
  rw [getElem?_slots_write, if_neg]
  rintro ⟨honline, -, hnone⟩
  rcases h with hoffline | ⟨existing, hsome, -⟩
  · rw [honline] at hoffline
    cases hoffline
  · rw [hnone] at hsome
    cases hsome

end LogUnit

namespace Scene

/-! ## One request -/

/-- What the unit at a place answers to a write, and what it holds then. -/
lemma Acts.write_unit {answer : Except ReplicationError WriteOutcome}
    (h : s.Acts id (.onUnit (.write j p v)) answer s') (hunit : s.node.units[j]? = some unit) :
    answer = (unit.write p v).1 ∧ s'.slot j p = (unit.write p v).2.slots[p]? := by
  have hslot : s'.slot j p = (unit.write p v).2.slots[p]? := by
    rw [Scene.slot, h.node_of_unit, List.getElem?_modify, hunit]
    simp [UnitCall.place, LogUnit.after]
  obtain ⟨now, rfl, -⟩ := h.node_eq
  exact ⟨congrArg Prod.fst (Node.onPlace_eq_of_some (·.write p v) hunit), hslot⟩

/-- A request to one unit leaves the others as they are. -/
lemma Acts.units_of_place_ne {call : UnitCall} {answer : call.Answer}
    (h : s.Acts id (.onUnit call) answer s') (hne : call.place ≠ j) :
    s'.node.units[j]? = s.node.units[j]? := by
  rw [h.node_of_unit, List.getElem?_modify]
  simp [hne]

/-- A write to a unit that resists changes what no unit holds. -/
lemma Acts.slot_of_resists {answer : Except ReplicationError WriteOutcome}
    (h : s.Acts id (.onUnit (.write j p v)) answer s') (hunit : s.node.units[j]? = some unit)
    (hresists : unit.Resists p v) (i : Nat) (q : Position) : s'.slot i q = s.slot i q := by
  by_cases hwrite : i = j ∧ q = p
  · obtain ⟨rfl, rfl⟩ := hwrite
    rw [(h.write_unit hunit).2, LogUnit.slots_write_of_resists hresists, Scene.slot, hunit,
      Option.bind_some]
  · refine h.slot_of_ne fun data heq => hwrite ?_
    cases heq
    exact ⟨rfl, rfl⟩

/-! ## Copying from unit to unit -/

/-- No unit holds anything else than before. -/
def SameSlots (s s' : Scene) : Prop := ∀ i q, s'.slot i q = s.slot i q

/-- A value that was decided at the head went as far as it could. -/
structure Settles (s : Scene) (p : Position) (v : LogData) (r : Except ReplicationError Unit)
    (s' : Scene) : Prop where
  /-- If no unit after the head resists, all units hold the value. -/
  through : (∀ i u, 0 < i → s.node.units[i]? = some u → ¬ u.Resists p v) →
    r = .ok () ∧ s'.Committed p v
  /-- The first unit that resists is where it ends: the units before hold the value, this unit and
  those after it hold what they held. -/
  upTo : ∀ j u, 0 < j → s.node.units[j]? = some u → u.Resists p v →
    (∀ i u, 0 < i → i < j → s.node.units[i]? = some u → ¬ u.Resists p v) →
      r = .error (u.objection p) ∧ (∀ i < j, s'.slot i p = some v) ∧
        ∀ i q, j ≤ i → s'.slot i q = s.slot i q
  only : s.OnlyAt p s'

/-- A value has come to all units before a place, and those from there on are as they were. -/
structure Reached (s : Scene) (k : Nat) (p : Position) (v : LogData) (s₁ : Scene) : Prop where
  pos : 0 < k
  filled : ∀ i < k, s₁.slot i p = some v
  ahead : ∀ i, k ≤ i → s₁.node.units[i]? = s.node.units[i]?
  passed : ∀ i u, 0 < i → i < k → s.node.units[i]? = some u → ¬ u.Resists p v
  only : s.OnlyAt p s₁

namespace Reached

/-- One unit more takes the value, or holds it already. -/
lemma next (h : s.Reached k p v s₁) {answer : Except ReplicationError WriteOutcome}
    (hacts : s₁.Acts id (.onUnit (.write k p v)) answer s₂)
    (hunit : s.node.units[k]? = some unit) (hresists : ¬ unit.Resists p v) :
    s.Reached (k + 1) p v s₂ where
  pos := Nat.succ_pos k
  filled i hi := by
    rcases Nat.lt_succ_iff_lt_or_eq.mp hi with hlt | rfl
    · exact hacts.slot_of_some (h.filled i hlt)
    · have hunit' := (h.ahead i (Nat.le_refl i)).trans hunit
      rw [(hacts.write_unit hunit').2, LogUnit.slots_write_of_not_resists hresists]
  ahead i hi := by
    have hne : k ≠ i := by omega
    rw [hacts.units_of_place_ne hne, h.ahead i (by omega)]
  passed i u hpos hi hu := by
    rcases Nat.lt_succ_iff_lt_or_eq.mp hi with hlt | rfl
    · exact h.passed i u hpos hlt hu
    · obtain rfl := Option.some.inj (hunit.symm.trans hu)
      exact hresists
  only := h.only.trans (.of_write hacts)

/-- The next unit resists. -/
lemma stop (h : s.Reached k p v s₁) {answer : Except ReplicationError WriteOutcome}
    (hacts : s₁.Acts id (.onUnit (.write k p v)) answer s₂)
    (hunit : s.node.units[k]? = some unit) (hresists : unit.Resists p v) :
    s.Settles p v (.error (unit.objection p)) s₂ where
  through hnone := absurd hresists (hnone k unit h.pos hunit)
  upTo j u hpos hu hj hfirst := by
    obtain rfl : j = k := by
      rcases Nat.lt_trichotomy j k with hlt | heq | hgt
      · exact absurd hj (h.passed j u hpos hlt hu)
      · exact heq
      · exact absurd hresists (hfirst k unit h.pos hgt hunit)
    obtain rfl := Option.some.inj (hunit.symm.trans hu)
    have hunit' := (h.ahead j (Nat.le_refl j)).trans hunit
    refine ⟨rfl, fun i hi => hacts.slot_of_some (h.filled i hi), fun i q hi => ?_⟩
    rw [hacts.slot_of_resists hunit' hresists, slot, slot, h.ahead i hi]
  only := h.only.trans (.of_write hacts)

/-- There is no unit left. -/
lemma finish (h : s.Reached k p v s₁) (hend : s.node.units.length ≤ k) :
    s.Settles p v (.ok ()) s₁ where
  through _ := by
    refine ⟨rfl, committed_iff.mpr fun i hi => h.filled i ?_⟩
    rw [h.only.length] at hi
    exact Nat.lt_of_lt_of_le hi hend
  upTo j u hpos hu hj _ := by
    have hlt : j < k := Nat.lt_of_lt_of_le (List.getElem?_eq_some_iff.mp hu).1 hend
    exact absurd hj (h.passed j u hpos hlt hu)
  only := h.only

end Reached

end Scene

namespace Chain

/-- A value is copied as far as it can be. -/
lemma copyTo_settles {units : List LogUnit} (h : s.Reached k p v s₁)
    (hunits : s.node.units.drop k = units) :
    ChainProgram.Alone id (s.Settles p v) (copyTo p v ((units.map (·.name)).zipIdx k)) s₁ := by
  -- on the units that are still to come
  induction units generalizing k s₁ with
  | nil => exact h.finish (List.drop_eq_nil_iff.mp hunits)
  | cons unit units ih =>
    have hunit : s.node.units[k]? = some unit := by
      rw [← Nat.add_zero k, ← List.getElem?_drop, hunits]
      rfl
    have hnext : s.node.units.drop (k + 1) = units := by
      rw [← List.tail_drop, hunits]
      rfl
    intro answer s₂ hacts
    have hunit' := (h.ahead k (Nat.le_refl k)).trans hunit
    obtain ⟨rfl, -⟩ := hacts.write_unit hunit'
    by_cases hresists : unit.Resists p v
    · have hstop := h.stop hacts hunit hresists
      rcases LogUnit.write_of_resists hresists with heq | ⟨existing, hne, heq, hobjection⟩
      · rw [heq]
        exact hstop
      · rw [heq]
        simp only [Program.done_bind, if_neg hne]
        exact hobjection ▸ hstop
    · have hgo := ih (h.next hacts hunit hresists) hnext
      rcases LogUnit.write_of_not_resists hresists with heq | heq
      · rw [heq]
        exact hgo
      · rw [heq]
        simp only [Program.done_bind, if_pos]
        exact hgo

/-- The places and names of the units after the head. -/
lemma followers_eq {c : Chain} {units : List LogUnit} (hnames : units.map (·.name) = c.names) :
    c.followers = ((units.drop 1).map (·.name)).zipIdx 1 := by
  rw [followers, ← hnames]
  cases units <;> rfl

lemma propagate_settles {c : Chain} (hnames : s.node.units.map (·.name) = c.names)
    (h : s.Reached 1 p v s₁) : ChainProgram.Alone id (s.Settles p v) (c.propagate p v) s₁ := by
  rw [propagate, followers_eq hnames]
  exact copyTo_settles h rfl

end Chain

/-! ## The operations -/

namespace Scene

/-- The head holds a value after it was asked to write one. -/
lemma Reached.of_head {data : LogData} {answer : Except ReplicationError WriteOutcome}
    (hacts : s.Acts id (.onUnit (.write Chain.head p data)) answer s₁)
    (hheld : s₁.slot Chain.head p = some v) : s.Reached 1 p v s₁ where
  pos := Nat.one_pos
  filled i hi := by
    obtain rfl : i = Chain.head := Nat.lt_one_iff.mp hi
    exact hheld
  ahead i hi := hacts.units_of_place_ne (Nat.ne_of_lt hi)
  passed i u hpos hi := absurd hi (Nat.not_lt.mpr hpos)
  only := .of_write hacts

/-- A write to a unit that holds a value already changes what no unit holds. -/
lemma Acts.sameSlots_of_held {data : LogData} {answer : Except ReplicationError WriteOutcome}
    (h : s.Acts id (.onUnit (.write j p data)) answer s') (hheld : s.slot j p = some v) :
    s.SameSlots s' := by
  intro i q
  rcases h.slot i q with heq | ⟨hnone, d, -, hevent⟩
  · exact heq
  · cases hevent
    rw [hheld] at hnone
    cases hnone

end Scene

namespace Chain

variable {c : Chain}

/-- An operation whose first request is a write to a head that is offline. -/
lemma alone_of_head_offline {data : LogData} {next : WriteOutcome → ChainOperation Unit}
    (hunit : s.node.units[head]? = some unit) (hoffline : unit.offline = true) :
    ChainProgram.Alone id (fun r s' => r = .error (LogUnit.unreachable unit.name) ∧ s.SameSlots s' ∧
      s.OnlyAt p s') ((askWrite head p data).andThen next) s := by
  intro answer s₁ hacts
  obtain ⟨rfl, -⟩ := hacts.write_unit hunit
  have hanswer : (unit.write p data).1 = .error (LogUnit.unreachable unit.name) := by
    simp [LogUnit.write, hoffline]
  rw [hanswer]
  exact ⟨rfl, hacts.slot_of_resists hunit (.inl hoffline), .of_write hacts⟩

/-- A write finds a value at the head. -/
lemma write_of_head_held (hunit : s.node.units[head]? = some unit) (honline : unit.offline = false)
    (hheld : unit.slots[p]? = some v) :
    ChainProgram.Alone id (fun r s' => r = .error (.writeConflict p) ∧ s.SameSlots s' ∧
      s.OnlyAt p s') (c.write p entry) s := by
  intro answer s₁ hacts
  obtain ⟨rfl, -⟩ := hacts.write_unit hunit
  have hanswer : (unit.write p (.entry entry)).1 = .ok (.conflict v) := by
    simp [LogUnit.write, honline, hheld]
  have hslot : s.slot head p = some v := by
    rw [Scene.slot, hunit, Option.bind_some, hheld]
  rw [hanswer]
  exact ⟨rfl, hacts.sameSlots_of_held hslot, .of_write hacts⟩

/-- A write finds the head empty. -/
lemma write_settles (hnames : s.node.units.map (·.name) = c.names)
    (hunit : s.node.units[head]? = some unit) (honline : unit.offline = false)
    (hempty : unit.slots[p]? = none) :
    ChainProgram.Alone id (s.Settles p (.entry entry)) (c.write p entry) s := by
  intro answer s₁ hacts
  obtain ⟨rfl, hslot⟩ := hacts.write_unit hunit
  have hanswer : (unit.write p (.entry entry)).1 = .ok .written := by
    simp [LogUnit.write, honline, hempty]
  rw [LogUnit.slots_write_of_not_resists
    (LogUnit.not_resists_iff.mpr ⟨honline, .inl hempty⟩)] at hslot
  rw [hanswer]
  exact propagate_settles hnames (.of_head hacts hslot)

/-- A hole fill finds the head online. -/
lemma holeFill_settles (hnames : s.node.units.map (·.name) = c.names)
    (hunit : s.node.units[head]? = some unit) (honline : unit.offline = false) :
    ChainProgram.Alone id (s.Settles p (unit.slots[p]?.getD .hole)) (c.holeFill p) s := by
  intro answer s₁ hacts
  obtain ⟨rfl, hslot⟩ := hacts.write_unit hunit
  rw [LogUnit.getElem?_slots_write] at hslot
  cases hheld : unit.slots[p]? with
  | none =>
    have hanswer : (unit.write p .hole).1 = .ok .written := by
      simp [LogUnit.write, honline, hheld]
    rw [if_pos ⟨honline, rfl, hheld⟩] at hslot
    rw [hanswer]
    exact propagate_settles hnames (.of_head hacts hslot)
  | some existing =>
    have hanswer : (unit.write p .hole).1 = .ok (.conflict existing) := by
      simp [LogUnit.write, honline, hheld]
    rw [if_neg (by simp [hheld]), hheld] at hslot
    rw [hanswer]
    exact propagate_settles hnames (.of_head hacts hslot)

end Chain

/-! ## In a world -/

/-- A program that runs alone gets to its end, in a scene in which no value is lost. -/
lemma NodeProgram.Alone.exists_end {α : Type} {post : α → Scene → Prop} {program : NodeProgram α}
    (h : Alone id post program s) : ∃ result s', s.Grows s' ∧ post result s' := by
  induction program generalizing s with
  | done result => exact ⟨result, s, .refl s, h⟩
  | call c next ih =>
    cases c with
    | act action =>
      have hacts : s.Acts id action _ _ := ⟨Timestamp.epoch, rfl⟩
      obtain ⟨result, s', hgrows, hend⟩ := ih _ (h _ _ hacts)
      exact ⟨result, s', (Scene.Grows.of_acts hacts).trans hgrows, hend⟩
    | readTogether reads => exact h.elim
  | sleep d next ih => exact ih _ (h Duration.zero)
  | unbounded cutOff ih => exact ih 0 (h 0 (by simp))
  | unfinished => cases h

namespace World

lemma grows_play (w : World) (moves : List Move) : w.scene.Grows (w.play moves).scene := by
  induction moves generalizing w with
  | nil => exact .refl _
  | cons m moves ih =>
    refine Scene.Grows.trans ?_ (ih (w.step m))
    rcases w.calm_or_acts m with hcalm | ⟨_, _, _, _, -, -, hacts⟩
    · exact .of_calm hcalm
    · exact .of_acts hacts

/-- However far a job gets that is started now and runs alone, the values that are there stay, and
nothing comes to other positions. -/
def TouchesOnly (w : World) (job : Job) (p : Position) : Prop :=
  ∀ turns, Turns w.nextId turns → ∀ i q, q ≠ p ∨ (w.scene.slot i q).isSome →
    ((w.step (.start job)).play turns).scene.slot i q = w.scene.slot i q

/-- It is enough to look at the end, since no value is ever lost. -/
lemma touchesOnly_of_alone {job : Job} {post : job.Result → Scene → Prop}
    {program : ChainProgram job.Result} (hjob : job.isLayout = false)
    (hprogram : job.program? w.scene.node = some (.ofChain program))
    (halone : program.Alone w.nextId post w.scene)
    (honly : ∀ result s', post result s' → w.scene.OnlyAt p s') : w.TouchesOnly job p := by
  intro turns hturns i q hq
  have hgrows : w.scene.Grows ((w.step (.start job)).play turns).scene :=
    w.grows_play (.start job :: turns)
  cases hslot : w.scene.slot i q with
  | some v => exact hgrows.slot hslot
  | none =>
    have hne : q ≠ p := hq.resolve_right (by simp [hslot])
    obtain ⟨result, s', hgrows', hend⟩ : ∃ result s',
        ((w.step (.start job)).play turns).scene.Grows s' ∧ post result s' := by
      cases (stands_start hjob hprogram (NodeProgram.alone_ofChain halone)).play hjob hturns with
      | running here alone => exact alone.exists_end
      | returned here ended => exact ⟨_, _, .refl _, ended⟩
    cases hnow : ((w.step (.start job)).play turns).scene.slot i q with
    | none => rfl
    | some v =>
      have hlast := (honly _ _ hend).slot q hne i
      rw [hgrows'.slot hnow, hslot] at hlast
      cases hlast

variable {head : LogUnit}

/-- A hole fill that has ended well has nothing to do when it is repeated. -/
lemma holeFill_again (hnames : w.scene.node.units.map (·.name) = w.scene.node.chain.names)
    (honline : ∀ u ∈ w.scene.node.units, u.offline = false) (hcommitted : w.scene.Committed p v) :
    w.RunsAlone (.holeFill p) fun r w' => r = .ok () ∧ w.scene.SameSlots w'.scene := by
  obtain ⟨head, hhead⟩ : ∃ head, w.scene.node.units[Chain.head]? = some head := by
    have hpos : 0 < w.scene.node.units.length := by
      rw [← List.length_map, hnames]
      exact List.length_pos_iff.mpr w.scene.node.chain.names_ne_nil
    exact ⟨_, List.getElem?_eq_getElem hpos⟩
  have hmem := List.mem_of_getElem? hhead
  have hend : ChainProgram.Alone w.nextId (w.scene.Settles p (head.slots[p]?.getD .hole))
      (w.scene.node.chain.holeFill p) w.scene :=
    Chain.holeFill_settles hnames hhead (honline head hmem)
  rw [hcommitted head hmem, Option.getD_some] at hend
  refine (runsAlone_ofChain rfl rfl hend).mono fun r w' hr => ?_
  obtain ⟨rfl, hcommitted'⟩ := hr.through fun i u _ hu => by
    have hu' := List.mem_of_getElem? hu
    exact LogUnit.not_resists_iff.mpr ⟨honline u hu', .inr (hcommitted u hu')⟩
  refine ⟨rfl, fun i q => ?_⟩
  by_cases hq : q = p
  · subst hq
    rcases Nat.lt_or_ge i w.scene.node.units.length with hi | hi
    · rw [Scene.committed_iff.mp hcommitted i hi,
        Scene.committed_iff.mp hcommitted' i (hr.only.length ▸ hi)]
    · have hi' : w'.scene.node.units.length ≤ i := hr.only.length ▸ hi
      simp [Scene.slot, List.getElem?_eq_none_iff.mpr hi, List.getElem?_eq_none_iff.mpr hi']
  · exact hr.only.slot q hq i

/-- A write and a hole fill touch their own position only, whatever the head is like. -/
lemma decisions_touchOnly (hnames : w.scene.node.units.map (·.name) = w.scene.node.chain.names)
    (hhead : w.scene.node.units[Chain.head]? = some head) (p : Position) (entry : LogEntry) :
    w.TouchesOnly (.write p entry) p ∧ w.TouchesOnly (.holeFill p) p := by
  cases hoffline : head.offline with
  | true =>
    exact ⟨touchesOnly_of_alone rfl rfl (Chain.alone_of_head_offline hhead hoffline)
        fun _ _ h => h.2.2,
      touchesOnly_of_alone rfl rfl (Chain.alone_of_head_offline hhead hoffline)
        fun _ _ h => h.2.2⟩
  | false =>
    refine ⟨?_, touchesOnly_of_alone rfl rfl (Chain.holeFill_settles hnames hhead hoffline)
      fun _ _ h => h.only⟩
    cases hheld : head.slots[p]? with
    | none =>
      exact touchesOnly_of_alone rfl rfl (Chain.write_settles hnames hhead hoffline hheld)
        fun _ _ h => h.only
    | some v =>
      exact touchesOnly_of_alone rfl rfl (Chain.write_of_head_held hhead hoffline hheld)
        fun _ _ h => h.2.2

end World

/-- A decision that ended well met no unit that resists. -/
lemma Scene.Settles.not_resists (h : s.Settles p v (.ok ()) s') (i : Nat) (u : LogUnit)
    (hpos : 0 < i) (hu : s.node.units[i]? = some u) : ¬ u.Resists p v := by
  -- the first one would have ended it
  induction i using Nat.strongRecOn generalizing u with
  | _ i ih =>
    intro hresists
    obtain ⟨heq, -⟩ := h.upTo i u hpos hu hresists fun k u' hk hlt hu' => ih k hlt u' hk hu'
    cases heq

/-- A write and a hole fill, run alone on a chain whose units hold anything at all and of which any
may be offline.

If the head is offline its error is the result, and no unit changes. A write that finds a value at
the head ends in a conflict, and no unit changes. Otherwise the entry, or what the head holds, or
else a hole is copied up to the first unit that resists. Never does a value change that a unit
holds, nor anything at another position. A hole fill that has ended well ends well again, and then
no unit changes. -/
theorem decisions_settle {head : LogUnit}
    (hnames : w.scene.node.units.map (·.name) = w.scene.node.chain.names)
    (hhead : w.scene.node.units[Chain.head]? = some head) (p : Position) (entry : LogEntry) :
    (head.offline = true →
      w.RunsAlone (.write p entry) (fun r w' =>
        r = .error (LogUnit.unreachable head.name) ∧ w.scene.SameSlots w'.scene) ∧
      w.RunsAlone (.holeFill p) fun r w' =>
        r = .error (LogUnit.unreachable head.name) ∧ w.scene.SameSlots w'.scene) ∧
    (head.offline = false → (head.slots[p]?).isSome →
      w.RunsAlone (.write p entry) fun r w' =>
        r = .error (.writeConflict p) ∧ w.scene.SameSlots w'.scene) ∧
    (head.offline = false → head.slots[p]? = none →
      w.RunsAlone (.write p entry) fun r w' => w.scene.Settles p (.entry entry) r w'.scene) ∧
    (head.offline = false →
      w.RunsAlone (.holeFill p) fun r w' =>
        w.scene.Settles p (head.slots[p]?.getD .hole) r w'.scene) ∧
    (w.TouchesOnly (.write p entry) p ∧ w.TouchesOnly (.holeFill p) p) ∧
    w.RunsAlone (.holeFill p) fun r w' => r = .ok () →
      w'.RunsAlone (.holeFill p) fun r' w'' => r' = .ok () ∧ w'.scene.SameSlots w''.scene := by
  have hoff (hoffline : head.offline = true) : w.RunsAlone (.holeFill p) fun r w' =>
      r = .error (LogUnit.unreachable head.name) ∧ w.scene.SameSlots w'.scene :=
    (World.runsAlone_ofChain rfl rfl (Chain.alone_of_head_offline hhead hoffline)).mono
      fun r w' h => ⟨h.1, h.2.1⟩
  have hsettles (honline : head.offline = false) : w.RunsAlone (.holeFill p) fun r w' =>
      w.scene.Settles p (head.slots[p]?.getD .hole) r w'.scene :=
    World.runsAlone_ofChain rfl rfl (Chain.holeFill_settles hnames hhead honline)
  refine ⟨fun hoffline => ⟨?_, hoff hoffline⟩, fun honline hheld => ?_, fun honline hempty => ?_,
    hsettles, World.decisions_touchOnly hnames hhead p entry, ?_⟩
  · exact (World.runsAlone_ofChain rfl rfl (Chain.alone_of_head_offline hhead hoffline)).mono
      fun r w' h => ⟨h.1, h.2.1⟩
  · obtain ⟨v, hv⟩ := Option.isSome_iff_exists.mp hheld
    exact (World.runsAlone_ofChain rfl rfl (Chain.write_of_head_held hhead honline hv)).mono
      fun r w' h => ⟨h.1, h.2.1⟩
  · exact World.runsAlone_ofChain rfl rfl (Chain.write_settles hnames hhead honline hempty)
  · cases hoffline : head.offline with
    | true =>
      refine (hoff hoffline).mono fun r w' h hok => ?_
      cases h.1.symm.trans hok
    | false =>
      refine (hsettles hoffline).mono fun r w' h hok => ?_
      subst hok
      -- nobody has resisted, so all units are online and hold the value
      have honline : ∀ u ∈ w.scene.node.units, u.offline = false := by
        intro u hmem
        obtain ⟨i, hi⟩ := List.mem_iff_getElem?.mp hmem
        rcases Nat.eq_zero_or_pos i with rfl | hpos
        · obtain rfl := Option.some.inj (hhead.symm.trans hi)
          exact hoffline
        · exact (LogUnit.not_resists_iff.mp (h.not_resists i u hpos hi)).1
      refine World.holeFill_again ?_ (World.online_of_labels honline h.only.labels)
        (h.through h.not_resists).2
      rw [h.only.names, h.only.chain, hnames]

/-- A write that meets a unit with another value. The unit behind that one is offline. -/
theorem decisions_settle_at_odds : ∃ node,
    Node.start ["a", "b", "c", "d"] .immediate ⟨1, Epoch.zero, 5⟩ .default = .ok node ∧
    let odd := ((LogUnit.new "c").write Position.zero .hole).2
    let w := World.start { node with
      units := [.new "a", .new "b", odd, { LogUnit.new "d" with offline := true }] }
    w.scene.node.units.map (·.name) = w.scene.node.chain.names ∧
      w.scene.node.units[Chain.head]? = some (.new "a") ∧
      w.RunsAlone (.write Position.zero (.bare [])) fun r w' =>
        r = .error (Chain.diverged Position.zero "c") ∧
        (∀ i < 2, w'.scene.slot i Position.zero = some (.entry (.bare []))) ∧
        w'.scene.slot 2 Position.zero = some .hole ∧ w'.scene.slot 3 Position.zero = none := by
  have h : Node.start ["a", "b", "c", "d"] .immediate ⟨1, Epoch.zero, 5⟩ .default = .ok _ := rfl
  refine ⟨_, h, ?_⟩
  intro odd w
  refine ⟨rfl, rfl, ?_⟩
  have hempty : (LogUnit.new "a").slots[Position.zero]? = none := by simp [LogUnit.new]
  have hodd : odd.slots[Position.zero]? = some .hole :=
    LogUnit.slots_write_of_not_resists (LogUnit.not_resists_new "c")
  have hsettles := (decisions_settle (w := w) rfl rfl Position.zero (.bare [])).2.2.1 rfl hempty
  refine hsettles.mono fun r w' hr => ?_
  -- the third unit is the first one that resists
  obtain ⟨rfl, hfilled, hrest⟩ := hr.upTo 2 odd (by decide) rfl (.inr ⟨.hole, hodd, by simp⟩) <| by
    intro i u hpos hi hu
    obtain rfl : i = 1 := by omega
    cases hu
    exact LogUnit.not_resists_new "b"
  refine ⟨rfl, hfilled, ?_, ?_⟩
  · rw [hrest 2 _ (Nat.le_refl 2)]
    exact hodd
  · rw [hrest 3 _ (by decide)]
    simp [Scene.slot, w, World.start, LogUnit.new]

end SharedLog
