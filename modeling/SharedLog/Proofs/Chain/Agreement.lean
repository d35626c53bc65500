/-
# Agreement on the chain

In every interleaving, whatever is dropped and whichever units are offline, the units that hold a
value of a position are the first ones of the chain, and what they hold is what the head took. So
all who are told a value of the position are told the same, now and later, and no operation ever
finds two units at odds.
-/
import SharedLog.Proofs.Node.Outcome

namespace SharedLog

variable {names : List String} {policy : HoleFillPolicy} {sequencer : SequencerSettings}
  {management : BootstrapSettings} {node : Node} {s : Scene} {w : World} {id : Nat} {p : Position}
  {v : LogData}

/-! ## Units are filled from the head on -/

/-- The first `n` units, split into those that hold the value and those that hold nothing. -/
lemma Scene.Sound.exists_filled (h : s.Sound) (p : Position) (n : Nat) :
    ∃ v k, ∀ i < n, s.slot i p = if i < k then some v else none := by
  induction n with
  | zero => exact ⟨.hole, 0, fun i hi => absurd hi (Nat.not_lt_zero i)⟩
  | succ n ih =>
    cases hn : s.slot n p with
    | some v =>
      -- all units up to this one hold the value
      refine ⟨v, n + 1, fun i hi => ?_⟩
      rw [if_pos hi]
      exact h.headward (Nat.le_of_lt_succ hi) hn
    | none =>
      obtain ⟨v, k, hk⟩ := ih
      refine ⟨v, min k n, fun i hi => ?_⟩
      rcases Nat.lt_succ_iff_lt_or_eq.mp hi with hlt | rfl
      · rw [hk i hlt]
        simp only [Nat.lt_min, hlt, and_true]
      · rw [hn, if_neg (by omega)]

/-- A unit that is offline is not at odds with others. -/
lemma World.MetOffline.not_inconsistent {moves : List Move} {q : Position} {detail : String} :
    ¬ w.MetOffline moves id (.inconsistent q detail) := by
  rintro ⟨before, choice, -, unit, -, -, h⟩
  cases h

/-- In every interleaving the units that hold a value of a position are the first ones of the chain,
and they hold the same value. No write, hole fill or read ever finds two units at odds. -/
theorem units_filled_from_head (h : Node.start names policy sequencer management = .ok node)
    (moves : List Move) :
    (∀ p, ∃ v k, ∀ i < names.length,
      ((World.start node).play moves).scene.slot i p = if i < k then some v else none) ∧
    ∀ id p q detail,
      (∀ entry, ¬ ((World.start node).play moves).Returned id (.write p entry)
        (.error (.inconsistent q detail))) ∧
      ¬ ((World.start node).play moves).Returned id (.holeFill p)
        (.error (.inconsistent q detail)) ∧
      ¬ ((World.start node).play moves).Returned id (.read p)
        (.error (.inconsistent q detail)) := by
  have hkeeps := World.keeps_chainLaw h moves
  refine ⟨fun p => hkeeps.holds.exists_filled p names.length, fun id p q detail => ⟨?_, ?_, ?_⟩⟩
  · intro entry hr
    rcases hkeeps.of_returned hr with hfails | heq
    · exact (World.metOffline h hfails).not_inconsistent
    · cases heq
  · exact fun hr => (World.metOffline h (hkeeps.of_returned hr)).not_inconsistent
  · exact fun hr => (World.metOffline h (hkeeps.of_returned hr)).not_inconsistent

/-- Between the requests of a write the units differ. -/
theorem units_filled_from_head_midway : ∃ node,
    Node.start ["a", "b"] .immediate ⟨1, Epoch.zero, 5⟩ .default = .ok node ∧
    let w := (World.start node).play
      [.start (.write Position.zero (.bare [])), .advance 0 (.prompt 1)]
    w.scene.slot 0 Position.zero = some (.entry (.bare [])) ∧ w.scene.slot 1 Position.zero = none ∧
      ∀ p, ∃ v k, ∀ i < 2, w.scene.slot i p = if i < k then some v else none := by
  have h : Node.start ["a", "b"] .immediate ⟨1, Epoch.zero, 5⟩ .default = .ok _ := rfl
  exact ⟨_, h, rfl, rfl, (units_filled_from_head h _).1⟩

/-! ## The head decides -/

/-- What the head holds is all that anybody is ever told. -/
lemma World.Keeps.tells_head (h : w.Keeps chainLaw (Job.Ends chainLaw))
    (hv : w.scene.slot Chain.head p = some v) (moves : List Move) {v' : LogData}
    (htells : (w.play moves).Tells id p v') : v' = v := by
  obtain ⟨hgrows, hkeeps⟩ := h.more moves
  have hhead := hkeeps.holds.head_of_committed (hkeeps.committed htells)
  rw [hgrows.slot hv] at hhead
  exact (Option.some.inj hhead).symm

/-- The head decides a position, and all readers agree.

What the head has taken for a position it keeps, and whoever is told a value of the position, then
or later, is told this one. So any two who are told a value are told the same; an entry that the
head took from a write is all that its position can hold, however the write went on; a look that
begins after somebody was told a value shows it or fails; a hole fill that ended well has left the
head's value with every unit; and a read fails only with the error of a unit that was offline when
the read turned to it. -/
theorem head_decides (h : Node.start names policy sequencer management = .ok node)
    (moves : List Move) (w : World) (hw : w = (World.start node).play moves) :
    (∀ p v, w.scene.slot Chain.head p = some v → ∀ more,
      (w.play more).scene.slot Chain.head p = some v ∧
      ∀ id v', (w.play more).Tells id p v' → v' = v) ∧
    (∀ id id' p v v' more, w.Tells id p v → (w.play more).Tells id' p v' → v' = v) ∧
    (∀ id p entry, w.scene.Accepted id p (.entry entry) → ∀ more id' v,
      (w.play more).Tells id' p v → v = .entry entry) ∧
    (∀ id p v, w.Tells id p v → ∀ more id' r, w.nextId ≤ id' →
      (w.play more).Returned id' (.peek p) r → r = .ok (.committed v) ∨
        ∃ e, r = .error e ∧ (World.start node).MetOffline (moves ++ more) id' e) ∧
    (∀ id p, w.Returned id (.holeFill p) (.ok ()) →
      ∃ v, w.scene.slot Chain.head p = some v ∧ w.scene.Committed p v) ∧
    (∀ id p e, w.Returned id (.read p) (.error e) → (World.start node).MetOffline moves id e) ∧
    (∀ id positions e, w.Returned id (.readMany positions) (.error e) →
      (World.start node).MetOffline moves id e) ∧
    ∀ id client p e, w.Returned id (.clientRead client p) (.error e) →
      ∃ e', e = .replication e' ∧ (World.start node).MetOffline moves id e' := by
  subst hw
  have hkeeps := World.keeps_chainLaw h moves
  have hhead : ∀ {id p v}, ((World.start node).play moves).Tells id p v →
      ((World.start node).play moves).scene.slot Chain.head p = some v :=
    fun htells => hkeeps.holds.head_of_committed (hkeeps.committed htells)
  refine ⟨fun p v hv more => ⟨(hkeeps.more more).1.slot hv, ?_⟩, ?_, ?_, ?_, ?_, ?_, ?_, ?_⟩
  · exact fun id v' htells => hkeeps.tells_head hv more htells
  · exact fun id id' p v v' more htells htells' => hkeeps.tells_head (hhead htells) more htells'
  · intro id p entry haccepted more id' v htells
    exact hkeeps.tells_head (hkeeps.holds.accepted haccepted) more htells
  · intro id p v htells more id' r hid hr
    exact World.peek_later h (hkeeps.committed htells) more hid hr
  · intro id p hr
    obtain ⟨v, hv⟩ := hkeeps.of_returned hr
    exact ⟨v, hkeeps.holds.head_of_committed hv, hv⟩
  · exact fun id p e hr => World.metOffline h (hkeeps.of_returned hr)
  · exact fun id positions e hr => World.metOffline h (hkeeps.of_returned hr)
  · intro id client p e hr
    obtain ⟨e', heq, hfails⟩ := hkeeps.of_returned hr
    exact ⟨e', heq, World.metOffline h hfails⟩

/-- A reader carries on a write that was given up after the head had taken its entry. -/
theorem head_decides_after_dropped_write : ∃ node,
    Node.start ["a", "b"] .immediate ⟨1, Epoch.zero, 5⟩ .default = .ok node ∧
    let w := (World.start node).play
      ([.start (.write Position.zero (.bare [])), .advance 0 (.prompt 1), .drop 0,
        .start (.read Position.zero)] ++ List.replicate 8 (.advance 1 (.prompt 1)))
    w.Returned 1 (.read Position.zero) (.ok (.entry (.bare []))) ∧
      ∀ more id v, (w.play more).Tells id Position.zero v → v = .entry (.bare []) := by
  have h : Node.start ["a", "b"] .immediate ⟨1, Epoch.zero, 5⟩ .default = .ok _ := rfl
  refine ⟨_, h, ?_⟩
  intro w
  have hread : w.Returned 1 (.read Position.zero) (.ok (.entry (.bare []))) := rfl
  refine ⟨hread, fun more id v htells => ?_⟩
  exact (head_decides h _ w rfl).2.1 1 id _ _ _ more (.read hread) htells

end SharedLog
