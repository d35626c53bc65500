/-
# What shows of a rejected change

A change of layout that the sequencer rejects leaves the sequencer as it was, but the replay has
filled what was empty of its range. Those who append notice nothing of it as long as all of that has
been handed out already; a position that has not will never be anybody's.
-/
import SharedLog.Proofs.Bootstrapper.Rejection
import SharedLog.Proofs.Client.Lockstep
import SharedLog.Proofs.Client.Reach

namespace SharedLog

variable {s s' : Scene} {id : Nat} {change : LayoutChange} {p : Position}

/-! ## Nodes without their past -/

namespace Scene

/-- What holds of the units of a node holds of them when its past is forgotten. -/
lemma Sound.forget (h : s.Sound) : (World.start s.node).scene.Sound where
  names := h.names
  headward hij hv := h.headward hij hv
  accepted := nofun
  accepted_once := nofun

/-- The head holds what it held, or a hole at a burnt position. -/
lemma Fills.head_eq_or (h : s.Fills change s') (p : Position) :
    s'.slot Chain.head p = s.slot Chain.head p ∨
      change.Burns s p ∧ s'.slot Chain.head p = some .hole := by
  by_cases hcovers : change.Covers p
  · exact (h.head p).imp_right fun ⟨hnone, hhole⟩ => ⟨⟨hcovers, hnone⟩, hhole⟩
  · exact .inl (h.outside p hcovers Chain.head)

/-- The nodes of two scenes that differ in what a change has filled are alike. -/
lemma Fills.alike (h : s.Fills change s') (hspares : s.Spares s') :
    (World.start s.node).scene.Alike change.Covers (change.Burns s)
      (World.start s'.node).scene where
  chain := h.chain
  clients := h.clients
  epochs := h.epochs
  labels := h.labels
  spares := hspares
  head p hp := (h.head_eq_or p).resolve_right fun hburns => hp hburns.1
  slot p hp i := h.outside p hp i

/-- Once the range of a change is decided, all of it that was burnt is a hole. -/
lemma Fills.hole_of_burns (h : s.Fills change s') (hsound : s'.Sound) (hdecided : s'.Decided change)
    (hburns : change.Burns s p) : s'.Committed p .hole := by
  obtain ⟨v, hv⟩ := hdecided p hburns.1
  have hhead := hsound.head_of_committed hv
  rcases h.head p with heq | ⟨-, hhole⟩
  · rw [heq, hburns.2] at hhead
    cases hhead
  · rw [hhole] at hhead
    cases hhead
    exact hv

/-- No token is for a burnt position if all of them have been handed out already. -/
lemma Sound.clear (h : s.Sound) {q : Sequencer} (hq : s.node.mailbox.sequencer = some q)
    (hahead : ∀ p, change.Burns s p → p < q.globalTail) :
    (World.start s.node).scene.Clear change.Covers (change.Burns s) where
  sound := h.forget
  held _ hp hfree := Option.ne_none_iff_exists'.mp fun hnone => hfree ⟨hp, hnone⟩
  accepted := nofun
  ahead := ⟨q, hq, hahead⟩
  tokens := nofun

end Scene

/-! ## What shows of a rejected change -/

namespace World

variable {w w₁ : World} {moves turns more : List Move} {names : List String}
  {policy : HoleFillPolicy} {sequencer : SequencerSettings} {management : BootstrapSettings}
  {node : Node}

/-- Those who keep away from what a change has burnt are told the same as without the change. -/
theorem activities_of_fills (hsound : w.scene.Sound) (hfills : w.scene.Fills change w₁.scene)
    (hspares : w.scene.Spares w₁.scene) {q : Sequencer}
    (hq : w.scene.node.mailbox.sequencer = some q)
    (hahead : ∀ p, change.Burns w.scene p → p < q.globalTail)
    (hmore : Starts more (Job.Avoids (change.Burns w.scene))) :
    ((World.start w₁.scene.node).play more).activities =
      ((World.start w.scene.node).play more).activities := by
  have halike : Alike change.Covers (change.Burns w.scene) (World.start w.scene.node)
      (World.start w₁.scene.node) := ⟨hfills.alike hspares, rfl⟩
  have hkeeps : (World.start w.scene.node).Keeps
      (passingLaw change.Covers (change.Burns w.scene)) fun _ _ _ _ => True :=
    ⟨hsound.clear hq hahead, nofun⟩
  exact (halike.play hkeeps hmore).activities

/-- A hole stays, and nobody who comes later gets its position. -/
theorem hole_play (hsound : s.Sound) (hhole : s.Committed p .hole) {w : World}
    (hw : w = (World.start s.node).play more) :
    w.scene.Committed p .hole ∧ ∀ id,
      (∀ client streams payload, ¬ w.Returned id (.append client streams payload) (.ok p)) ∧
      ∀ entry, ¬ w.Returned id (.write p entry) (.ok ()) := by
  subst hw
  have hstart : (World.start s.node).Keeps chainLaw (Job.Ends chainLaw) := ⟨hsound.forget, nofun⟩
  obtain ⟨hgrows, hkeeps⟩ := hstart.more more
  have hkept := hgrows.committed hhole
  have hnot : ∀ entry, ¬ ((World.start s.node).play more).scene.Committed p (.entry entry) :=
    fun entry hentry => nomatch hkeeps.holds.committed_unique hkept hentry
  refine ⟨hkept, fun id => ⟨fun client streams payload hr => ?_, fun entry hr => ?_⟩⟩
  · obtain ⟨entry, happended⟩ := hkeeps.of_returned hr
    exact hnot entry happended.committed
  · exact hnot entry (hkeeps.of_returned hr).1

end World

/-- What shows of a rejected change of layout.

A change is handled while nothing else goes on, and refused. Then the sequencer has changed in
nothing but a count of refusals, and the log at most in the range that is replayed for the change,
where the head has got holes at positions that were empty. If the refusal is the sequencer's, the
whole range is decided: these positions are burnt, and no append or write that comes later ever gets
one of them.

Nothing else shows. If the sequencer had handed out all burnt positions before, then whatever
clients append, ask for or write elsewhere, they are told the same as if the change had never come.
If it had not, then appends alone are told something else, as long as the units are online and the
sequencer hands out positions at all. -/
theorem rejected_change_shows_in_burnt_positions {names : List String} {policy : HoleFillPolicy}
    {sequencer : SequencerSettings} {management : BootstrapSettings} {node : Node}
    (h : Node.start names policy sequencer management = .ok node) (moves : List Move) (w : World)
    (hw : w = (World.start node).play moves) (change : LayoutChange)
    (hadmits : w.admits (.layout change) = true) (turns : List Move)
    (hturns : World.Turns w.nextId turns) (w₁ : World)
    (hw₁ : w₁ = w.play (.start (.layout change) :: turns)) (reason : String) (b : Bootstrapper)
    (hrefused : w₁.Returned w.nextId (.layout change) (.nack reason, b)) :
    ∃ q, w.scene.node.mailbox.sequencer = some q ∧
      (∃ n, w₁.scene.node.mailbox.sequencer = some { q with staleRejections := n }) ∧
      (∀ p, ¬ change.Covers p → ∀ i, w₁.scene.slot i p = w.scene.slot i p) ∧
      (∀ p, w₁.scene.slot Chain.head p = w.scene.slot Chain.head p ∨
        change.Burns w.scene p ∧ w₁.scene.slot Chain.head p = some .hole) ∧
      (w₁.scene.Asked w.nextId →
        (∀ p, change.Covers p → ∃ v, w₁.scene.Committed p v) ∧
        ∀ p, change.Burns w.scene p → ∀ more w₂, w₂ = (World.start w₁.scene.node).play more →
          w₂.scene.Committed p .hole ∧ ∀ id,
            (∀ client streams payload, ¬ w₂.Returned id (.append client streams payload) (.ok p)) ∧
            ∀ entry, ¬ w₂.Returned id (.write p entry) (.ok ())) ∧
      ((∀ p, change.Burns w.scene p → p < q.globalTail) →
        ∀ more, World.Starts more (Job.Avoids (change.Burns w.scene)) →
          ((World.start w₁.scene.node).play more).activities =
            ((World.start w.scene.node).play more).activities) ∧
      (w₁.scene.Asked w.nextId → w.Online → 0 < q.maxTokens →
        (∀ more, World.Starts more Job.IsAppend →
          ((World.start w₁.scene.node).play more).activities =
            ((World.start w.scene.node).play more).activities) →
        ∀ p, change.Burns w.scene p → p < q.globalTail) := by
  have hmanaged : w.Managed := hw ▸ (World.managed_start h).play moves
  have hsound : w.scene.Sound := hw ▸ (World.keeps_chainLaw h moves).holds
  rw [World.play_cons] at hw₁
  obtain ⟨hsound₁, hfills, hdecided⟩ := World.fills_of_turns h hw hadmits hturns hw₁
  have hspares : w.scene.Spares w₁.scene := by
    have hscene : (w.step (.start (.layout change))).scene = w.scene := by
      rw [World.step_start_layout hadmits]
    rw [← hscene, hw₁]
    exact (hmanaged.step _).spares_of_turns (hw₁ ▸ hrefused) hturns List.prefix_rfl
  obtain ⟨q, n, hq, hq₁⟩ := id hspares
  refine ⟨q, hq, ⟨n, hq₁⟩, hfills.outside, hfills.head_eq_or, fun hasked => ?_,
    fun hahead more hmore => World.activities_of_fills hsound hfills hspares hq hahead hmore,
    fun hasked honline hgrants hsame p hburns => ?_⟩
  · refine ⟨hdecided hasked, fun p hburns more w₂ hw₂ => World.hole_play hsound₁ ?_ hw₂⟩
    exact hfills.hole_of_burns hsound₁ (hdecided hasked) hburns
  · -- without the change an append gets the position, and nobody does after it
    by_contra hbehind
    have hnumbered : w.scene.Numbered := hw ▸ World.numbered_play (Scene.numbered_start h) moves
    have hroom : p.val + 1 < Position.bound :=
      Nat.lt_of_le_of_lt hburns.1.2.2 change.globalTailHint.isLt
    obtain ⟨more, id, client, hmore, hgets⟩ := World.newcomer_reaches hq hgrants hsound hnumbered
      honline hroom (Nat.not_lt.mp hbehind) hburns.2
    have hlost := World.hole_play hsound₁ (hfills.hole_of_burns hsound₁ (hdecided hasked) hburns)
      (rfl : (World.start w₁.scene.node).play more = _)
    refine (hlost.2 id).1 client ∅ [] ?_
    rw [World.Returned, hsame more hmore]
    exact hgets

/-- A change to the epoch that the sequencer has already comes too late. Its replay has burnt the
position that somebody holds a token for; but the next append gets the position after that one, as
it does without the change. -/
theorem rejected_change_shows_in_burnt_positions_of_token : ∃ node,
    Node.start ["a"] .immediate ⟨1, Epoch.zero, 5⟩ ⟨1, 1, 4⟩ = .ok node ∧
    let turn (id place : Nat) : Move := .advance id ⟨Timestamp.epoch, Duration.zero, 1, place⟩
    let pos (n : Fin 3) : Position := ⟨n, Nat.lt_trans n.isLt (by decide)⟩
    let change : LayoutChange := ⟨Epoch.zero, true, pos 0, pos 2, ∅⟩
    let moves : List Move := [.join Epoch.zero 3, .start (.append 0 ∅ [])] ++
      List.replicate 6 (turn 0 0) ++ [.start (.allocate ⟨Epoch.zero, 1, ∅⟩), turn 1 0, turn 1 0]
    let w := (World.start node).play moves
    let turns := List.replicate 3 (turn 2 0) ++ List.replicate 6 (turn 2 1) ++
      List.replicate 3 (turn 2 2)
    let w₁ := w.play (.start (.layout change) :: turns)
    let more : List Move := .start (.append 0 ∅ []) :: List.replicate 6 (turn 0 0)
    let w₂ := (World.start w₁.scene.node).play more
    w₁.Returned 2 (.layout change)
        (.nack "sequencer error: invalid argument: full reset must advance the epoch past 0",
          ⟨⟨1, 1, 4⟩, none⟩) ∧
      change.Burns w.scene (pos 1) ∧ w₂.scene.Committed (pos 1) .hole ∧
      (∀ id entry, ¬ w₂.Returned id (.write (pos 1) entry) (.ok ())) ∧
      w₂.Returned 0 (.append 0 ∅ []) (.ok (pos 2)) ∧
      w₂.activities = ((World.start w.scene.node).play more).activities := by
  have h : Node.start ["a"] .immediate ⟨1, Epoch.zero, 5⟩ ⟨1, 1, 4⟩ = .ok _ := rfl
  refine ⟨_, h, ?_⟩
  intro turn pos change moves w turns w₁ more w₂
  have hrefused : w₁.Returned 2 (.layout change)
      (.nack "sequencer error: invalid argument: full reset must advance the epoch past 0",
        ⟨⟨1, 1, 4⟩, none⟩) := by decide +kernel
  have hburns : change.Burns w.scene (pos 1) := by decide +kernel
  have hid : w.nextId = 2 := by decide +kernel
  have hreturned : w₂.Returned 0 (.append 0 ∅ []) (.ok (pos 2)) := by decide +kernel
  have hturns : World.Turns w.nextId turns := by
    rw [hid]
    simp only [turns, World.Turns, List.forall_mem_append, List.mem_replicate]
    exact ⟨⟨fun m hm => ⟨_, hm.2⟩, fun m hm => ⟨_, hm.2⟩⟩, fun m hm => ⟨_, hm.2⟩⟩
  obtain ⟨q, hq, -, -, -, hlost, hsame, -⟩ := rejected_change_shows_in_burnt_positions h moves w rfl
    change (by decide +kernel) turns hturns w₁ rfl _ _ (hid.symm ▸ hrefused)
  obtain ⟨hhole, hnobody⟩ := (hlost (by decide +kernel)).2 (pos 1) hburns more w₂ rfl
  refine ⟨hrefused, hburns, hhole, fun id => (hnobody id).2, hreturned, hsame ?_ more ?_⟩
  · -- everything that is covered has been handed out
    have htail : w.scene.node.mailbox.sequencer.map (·.globalTail) = some (pos 2) := by
      decide +kernel
    rw [hq] at htail
    have hq' : q.globalTail = pos 2 := Option.some.inj htail
    intro p hp
    rw [hq']
    exact hp.1.2.2
  · refine World.starts_cons.mpr ⟨fun job heq => ?_, fun job hjob => ?_⟩
    · cases heq
      trivial
    · cases (List.mem_replicate.mp hjob).2

/-- A malformed change is rejected after its replay has burnt the position that would have been the
next one. The next append gets it if the change never came, and else the one after it. -/
theorem rejected_change_shows_in_next_append : ∃ node,
    Node.start ["a"] .immediate ⟨1, Epoch.zero, 5⟩ ⟨1, 1, 4⟩ = .ok node ∧
    let turn (id place : Nat) : Move := .advance id ⟨Timestamp.epoch, Duration.zero, 1, place⟩
    let pos (n : Fin 4) : Position := ⟨n, Nat.lt_trans n.isLt (by decide)⟩
    let stream : StreamId := ⟨0, by decide⟩
    let change : LayoutChange :=
      ⟨⟨1, by decide⟩, true, pos 0, pos 2, .ofList [(stream, some (pos 3))]⟩
    let w := (World.start node).play
      ([.join Epoch.zero 3, .start (.append 0 ∅ [])] ++ List.replicate 6 (turn 0 0))
    let w₁ := w.play (.start (.layout change) :: (List.replicate 3 (turn 1 0) ++
      List.replicate 6 (turn 1 1) ++ List.replicate 3 (turn 1 2)))
    let more : List Move := .start (.append 0 ∅ []) :: List.replicate 10 (turn 0 0)
    (∀ unit ∈ w.scene.node.units, unit.offline = false) ∧
      w.Returned 0 (.append 0 ∅ []) (.ok (pos 0)) ∧ w.nextId = 1 ∧
      w₁.Returned 1 (.layout change)
        (.nack ("sequencer error: invalid argument: stream 00000000-0000-0000-0000-000000000000 " ++
          "tail 3 is not below global tail hint 2"), ⟨⟨1, 1, 4⟩, none⟩) ∧
      ((World.start w.scene.node).play more).Returned 0 (.append 0 ∅ []) (.ok (pos 1)) ∧
      ((World.start w₁.scene.node).play more).Returned 0 (.append 0 ∅ []) (.ok (pos 2)) := by
  have h : Node.start ["a"] .immediate ⟨1, Epoch.zero, 5⟩ ⟨1, 1, 4⟩ = .ok _ := rfl
  refine ⟨_, h, ?_⟩
  decide +kernel

end SharedLog
