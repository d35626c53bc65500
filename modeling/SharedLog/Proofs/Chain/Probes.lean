/-
# Two probes for the whole chain

A look at a position asks the tail, and then the head if the tail holds nothing. Someone who could
look at all units at once would see no more: what any unit holds the head holds too, and what the
tail holds they all hold. So in every scene that an interleaving leads to, a look that nobody
disturbs gives what a scan of the chain gives. Others may go on between the two probes; then the
position was empty at every unit, or committed, when the tail was asked.
-/
import SharedLog.Proofs.Chain.Propagation
import SharedLog.Proofs.Chain.Shown

namespace SharedLog

variable {names : List String} {policy : HoleFillPolicy} {sequencer : SequencerSettings}
  {management : BootstrapSettings} {node : Node} {s s' : Scene} {w : World} {moves : List Move}
  {id i : Nat} {p : Position} {v : LogData} {past : List Event}

/-! ## Scanning the chain -/

namespace Scene

/-- What the chain holds at a position, by the units themselves: committed if the last unit holds a
value, pending if any other one does, or else empty. -/
def scan (s : Scene) (p : Position) : SlotState :=
  match s.node.units.getLast?.bind fun unit => unit.slots[p]? with
  | some v => .committed v
  | none => if s.node.units.any fun unit => unit.slots[p]?.isSome then .pending else .empty

namespace Sound

/-- The tail is the last unit. -/
lemma getLast?_units (h : s.Sound) : s.node.units.getLast? = s.node.units[s.node.chain.tail]? := by
  rw [List.getLast?_eq_getElem?, h.length, Chain.tail]

/-- A position that the head does not hold is held by no unit. -/
lemma slots_of_head (h : s.Sound) (hhead : s.slot Chain.head p = none) :
    ∀ unit ∈ s.node.units, unit.slots[p]? = none := by
  intro unit hmem
  obtain ⟨i, hi⟩ := List.mem_iff_getElem?.mp hmem
  cases hslot : unit.slots[p]? with
  | none => rfl
  | some v =>
    have hv : s.slot i p = some v := by rw [slot, hi, Option.bind_some, hslot]
    have hv' : s.slot Chain.head p = some v := h.headward (Nat.zero_le i) hv
    rw [hhead] at hv'
    cases hv'

/-- A scan finds what the tail and the head hold. -/
lemma scan_eq (h : s.Sound) (p : Position) : s.scan p =
    match s.slot s.node.chain.tail p, s.slot Chain.head p with
    | some v, _ => .committed v
    | none, some _ => .pending
    | none, none => .empty := by
  have hlast : (s.node.units.getLast?.bind fun unit => unit.slots[p]?) =
      s.slot s.node.chain.tail p := by
    rw [h.getLast?_units, slot]
  rw [scan, hlast]
  cases s.slot s.node.chain.tail p with
  | some v => rfl
  | none =>
    cases hhead : s.slot Chain.head p with
    | some v =>
      obtain ⟨unit, hunit, hv⟩ := Option.bind_eq_some_iff.mp hhead
      exact if_pos (List.any_eq_true.mpr ⟨unit, List.mem_of_getElem? hunit, by rw [hv]; rfl⟩)
    | none =>
      refine if_neg fun hany => ?_
      obtain ⟨unit, hmem, hsome⟩ := List.any_eq_true.mp hany
      rw [h.slots_of_head hhead unit hmem] at hsome
      cases hsome

end Sound

/-- A unit that shows something holds it. -/
lemma Acts.slot_of_peek {v? : Option LogData} (h : s.Acts id (.onUnit (.peek i p)) (.ok v?) s') :
    s.slot i p = v? := by
  rw [← h.slot_of_ne (by simp)]
  rcases h.peek with heq | ⟨e, heq, -⟩
  · exact (Except.ok.inj heq).symm
  · cases heq

/-- A unit that is online shows what it holds. -/
lemma Acts.peek_of_online {answer : Except ReplicationError (Option LogData)} {unit : LogUnit}
    (h : s.Acts id (.onUnit (.peek i p)) answer s') (hunit : s.node.units[i]? = some unit)
    (honline : unit.offline = false) : answer = .ok (s.slot i p) := by
  rcases h.peek with rfl | ⟨e, -, hblames⟩
  · rw [h.slot_of_ne (by simp)]
  · rw [(hblames unit hunit).1] at honline
    cases honline

end Scene

namespace Chain

/-- A look that nobody disturbs gives what a scan gives, if the head and the tail are online. -/
lemma peek_alone (hsound : s.Sound)
    (hhead : ∀ u, s.node.units[head]? = some u → u.offline = false)
    (htail : ∀ u, s.node.units[s.node.chain.tail]? = some u → u.offline = false) :
    ChainProgram.Alone id (fun r s' => r = .ok (s.scan p) ∧ s.SameSlots s')
      (s.node.chain.peek p) s := by
  obtain ⟨first, hfirst⟩ : ∃ u, s.node.units[head]? = some u :=
    ⟨_, List.getElem?_eq_getElem hsound.length_pos⟩
  obtain ⟨last, hlast⟩ : ∃ u, s.node.units[s.node.chain.tail]? = some u := by
    have hlt : s.node.chain.tail < s.node.units.length := by
      have hpos := hsound.length_pos
      rw [tail, ← hsound.length]
      omega
    exact ⟨_, List.getElem?_eq_getElem hlt⟩
  intro answer s₁ hacts
  obtain rfl := hacts.peek_of_online hlast (htail last hlast)
  have hsame : s.SameSlots s₁ := fun i q => hacts.slot_of_ne (by simp)
  cases hdone : s.slot s.node.chain.tail p with
  | some v => exact ⟨by rw [hsound.scan_eq, hdone], hsame⟩
  | none =>
    simp only [Program.done_bind]
    by_cases hone : s.node.chain.length = 1
    · -- the tail is the head
      have heq : s.node.chain.tail = head := by rw [tail, hone, head]
      rw [if_pos hone]
      exact ⟨by rw [hsound.scan_eq, ← heq, hdone], hsame⟩
    · rw [if_neg hone]
      intro answer s₂ hacts₂
      -- the head is online still
      have hlabel := congrArg (·[head]?) hacts.labels
      simp only [List.getElem?_map, hfirst, Option.map_some] at hlabel
      obtain ⟨first', hfirst', heq⟩ := Option.map_eq_some_iff.mp hlabel
      have honline : first'.offline = false :=
        (Prod.mk.inj heq).2.trans (hhead first hfirst)
      obtain rfl := hacts₂.peek_of_online hfirst' honline
      have hsame₂ : s.SameSlots s₂ := fun i q => (hacts₂.slot_of_ne (by simp)).trans (hsame i q)
      rw [hsame head p]
      cases hheld : s.slot head p with
      | some v => exact ⟨by rw [hsound.scan_eq, hdone, hheld], hsame₂⟩
      | none => exact ⟨by rw [hsound.scan_eq, hdone, hheld], hsame₂⟩

/-! ## What the probes have shown -/

/-- What somebody has done who has looked at a position and was told its state. -/
def PeekProbes (c : Chain) (id : Nat) (p : Position) :
    Except ReplicationError SlotState → List Event → Prop
  | .ok (.committed v), past => past = [⟨id, .onUnit (.peek c.tail p), .ok (some v)⟩]
  | .ok .pending, past => ∃ v, past = [⟨id, .onUnit (.peek c.tail p), .ok none⟩,
      ⟨id, .onUnit (.peek head p), .ok (some v)⟩]
  | .ok .empty, past => c.length = 1 ∧ past = [⟨id, .onUnit (.peek c.tail p), .ok none⟩] ∨
      past = [⟨id, .onUnit (.peek c.tail p), .ok none⟩, ⟨id, .onUnit (.peek head p), .ok none⟩]
  | .error _, _ => True

lemma peek_probes {c : Chain} {good : List Event → Prop} {rounds : Option Nat} :
    ChainProgram.LeadsWhile good rounds id (c.PeekProbes id p) (c.peek p) [] := by
  have hask : ∀ {place past}, ChainProgram.LeadsWhile good rounds id
      (fun (r : Except _ _) past' => past' = past ++ [⟨id, .onUnit (.peek place p), r⟩])
      (askPeek place p) past := leadsWhile_ask fun _ => rfl
  refine hask.andThen (fun v? past₁ h => ?_) fun e past₁ h => trivial
  subst h
  cases v? with
  | some v => exact rfl
  | none =>
    dsimp only
    split
    · exact .inl ⟨‹_›, rfl⟩
    · refine hask.andThen (fun v? past₂ h => ?_) fun e past₂ h => trivial
      subst h
      cases v? with
      | some v => exact ⟨v, rfl⟩
      | none => exact .inr rfl

end Chain

namespace World

/-- Whoever was told the state of a position has asked for it so. -/
lemma Returned.probes {r : Except ReplicationError SlotState}
    (h : ((World.start node).play moves).Returned id (.peek p) r) :
    node.chain.PeekProbes id p r (((World.start node).play moves).scene.deeds id) := by
  refine h.of_leads fun before program hprogram => ?_
  obtain rfl := Option.some.inj hprogram
  rw [(grows_play (World.start node) before).chain]
  exact NodeProgram.leads_of_leadsWhile (NodeProgram.leadsWhile_ofChain Chain.peek_probes)

/-- It was an activity's turn, and it asked the tail for the value of a position. -/
def ProbesTail (w : World) (moves : List Move) (id : Nat) (p : Position) (v? : Option LogData)
    (before : List Move) : Prop :=
  ∃ choice, before ++ [.advance id choice] <+: moves ∧
    (w.play before).scene.Acts id (.onUnit (.peek w.scene.node.chain.tail p)) (.ok v?)
      (w.play (before ++ [.advance id choice])).scene

/-- A position that is told to be empty was empty at every unit when the tail was asked. -/
lemma exists_probe_of_empty (h : Node.start names policy sequencer management = .ok node)
    (hr : ((World.start node).play moves).Returned id (.peek p) (.ok .empty)) :
    ∃ before, (World.start node).ProbesTail moves id p none before ∧
      ∀ unit ∈ ((World.start node).play before).scene.node.units, unit.slots[p]? = none := by
  have hnew : ∀ past, (World.start node).scene.deeds id <+: past := fun _ => List.nil_prefix
  rcases hr.probes with ⟨hone, hdeeds⟩ | hdeeds
  · obtain ⟨before, choice, hturn, -, hacts⟩ := exists_turn_of_deeds (hnew []) hdeeds
    have htail : node.chain.tail = Chain.head := by rw [Chain.tail, hone, Chain.head]
    refine ⟨before, ⟨choice, hturn, hacts⟩, (keeps_chainLaw h before).holds.slots_of_head ?_⟩
    rw [← htail]
    exact hacts.slot_of_peek
  · obtain ⟨before, choice, hturn, hpast, hacts⟩ := exists_turn_of_deeds (hnew []) hdeeds
    obtain ⟨before', choice', hturn', hpast', hacts'⟩ := exists_turn_of_deeds (hnew [_]) hdeeds
    -- the head was asked after the tail, and held nothing then
    have horder : before <+: before' := by
      have htotal := List.prefix_or_prefix_of_prefix ((List.prefix_append ..).trans hturn)
        ((List.prefix_append ..).trans hturn')
      refine htotal.resolve_right fun hle => ?_
      have hdeeds' : ((World.start node).play before').scene.deeds id <+:
          ((World.start node).play before).scene.deeds id := deeds_mono hle id
      rw [hpast, hpast'] at hdeeds'
      cases List.prefix_nil.mp hdeeds'
    refine ⟨before, ⟨choice, hturn, hacts⟩, (keeps_chainLaw h before).holds.slots_of_head ?_⟩
    cases hhead : ((World.start node).play before).scene.slot Chain.head p with
    | none => rfl
    | some v =>
      obtain ⟨more, rfl⟩ := horder
      have hlater := (grows_play ((World.start node).play before) more).slot hhead
      rw [← play_append, hacts'.slot_of_peek] at hlater
      cases hlater

/-- A position that is told to be committed was committed when the tail was asked. -/
lemma exists_probe_of_committed (h : Node.start names policy sequencer management = .ok node)
    (hr : ((World.start node).play moves).Returned id (.peek p) (.ok (.committed v))) :
    ∃ before, (World.start node).ProbesTail moves id p (some v) before ∧
      ((World.start node).play before).scene.Committed p v := by
  have hnew : (World.start node).scene.deeds id <+: [] := List.nil_prefix
  obtain ⟨before, choice, hturn, -, hacts⟩ := exists_turn_of_deeds hnew hr.probes
  refine ⟨before, ⟨choice, hturn, hacts⟩, (keeps_chainLaw h before).holds.committed_of_tail ?_⟩
  rw [(grows_play (World.start node) before).chain]
  exact hacts.slot_of_peek

end World

/-- A look at a position agrees with a scan of the whole chain.

In every scene that an interleaving leads to, a look that nobody disturbs gives what a scan finds,
if the head and the tail are online, and changes no unit. If others go on between the two probes, a
position that is told to be empty was empty at every unit when the tail was asked, and one that is
told to be committed was held by every unit then, and still is. -/
theorem peek_agrees_with_scan (h : Node.start names policy sequencer management = .ok node)
    (moves : List Move) (w : World) (hw : w = (World.start node).play moves) :
    (∀ p, (∀ u ∈ w.scene.node.units.head?, u.offline = false) →
      (∀ u ∈ w.scene.node.units.getLast?, u.offline = false) →
      w.RunsAlone (.peek p) fun r w' => r = .ok (w.scene.scan p) ∧ w.scene.SameSlots w'.scene) ∧
    (∀ id p, w.Returned id (.peek p) (.ok .empty) →
      ∃ before, (World.start node).ProbesTail moves id p none before ∧
        ∀ unit ∈ ((World.start node).play before).scene.node.units, unit.slots[p]? = none) ∧
    ∀ id p v, w.Returned id (.peek p) (.ok (.committed v)) →
      ∃ before, (World.start node).ProbesTail moves id p (some v) before ∧
        ((World.start node).play before).scene.Committed p v ∧ w.scene.Committed p v := by
  subst hw
  have hsound := (World.keeps_chainLaw h moves).holds
  refine ⟨fun p hhead htail => ?_, fun id p hr => World.exists_probe_of_empty h hr,
    fun id p v hr => ?_⟩
  · rw [List.head?_eq_getElem?] at hhead
    rw [hsound.getLast?_units] at htail
    exact (World.runsAlone_ofChain rfl rfl (Chain.peek_alone hsound hhead htail)).mono
      fun _ _ hr => hr
  · obtain ⟨before, ⟨choice, hturn, hacts⟩, hcommitted⟩ := World.exists_probe_of_committed h hr
    refine ⟨before, ⟨choice, hturn, hacts⟩, hcommitted, ?_⟩
    obtain ⟨more, rfl⟩ := (List.prefix_append ..).trans hturn
    rw [World.play_append]
    exact (World.grows_play _ more).committed hcommitted

/-- A write begins between the two probes of a look, and is then stuck at a unit that is offline. -/
theorem peek_agrees_with_scan_halfway : ∃ node,
    Node.start ["a", "b", "c"] .immediate ⟨1, Epoch.zero, 5⟩ .default = .ok node ∧
    let moves := [.start (.peek Position.zero), .advance 0 (.prompt 1),
      .start (.write Position.zero (.bare [])), .advance 0 (.prompt 1), .advance 0 (.prompt 1),
      .switch 1 true, .advance 1 (.prompt 1), .advance 1 (.prompt 1)]
    let w := (World.start node).play moves
    w.Returned 0 (.peek Position.zero) (.ok .empty) ∧
      (∃ before, (World.start node).ProbesTail moves 0 Position.zero none before ∧
        ∀ unit ∈ ((World.start node).play before).scene.node.units,
          unit.slots[Position.zero]? = none) ∧
      w.RunsAlone (.peek Position.zero) fun r _ => r = .ok .pending := by
  have h : Node.start ["a", "b", "c"] .immediate ⟨1, Epoch.zero, 5⟩ .default = .ok _ := rfl
  refine ⟨_, h, ?_⟩
  intro moves w
  have hreturned : w.Returned 0 (.peek Position.zero) (.ok .empty) := rfl
  obtain ⟨halone, hempty, -⟩ := peek_agrees_with_scan h moves w rfl
  have hscan : w.scene.scan Position.zero = .pending := rfl
  refine ⟨hreturned, hempty 0 Position.zero hreturned, ?_⟩
  refine (halone Position.zero ?_ ?_).mono fun r w' hr => hr.1.trans (congrArg _ hscan)
  · rintro u ⟨⟩
    rfl
  · rintro u ⟨⟩
    rfl

end SharedLog
