/-
# Appends last

An append that has returned a position owns it: from then on every unit holds the append's own entry
there, all who read the position get this entry, and no other append returns the same position. This
rests on the chain alone. The sequencer may hand out a position again, as it does after a full reset
to an earlier tail, but the head takes only one of the entries that are written there.
-/
import SharedLog.Proofs.Chain.Agreement

namespace SharedLog

variable {names : List String} {policy : HoleFillPolicy} {sequencer : SequencerSettings}
  {management : BootstrapSettings} {node : Node} {w : World} {id id' client client' : Nat}
  {p : Position} {streams streams' : StreamSet} {payload payload' : List UInt8}

/-- What an append wrote, everybody reads, whenever they read it. -/
lemma World.Keeps.tells_appended (h : w.Keeps chainLaw (Job.Ends chainLaw)) {entry : LogEntry}
    (happended : Client.Appended id streams payload p entry w.scene) (more : List Move)
    {v : LogData} (htells : (w.play more).Tells id' p v) : v = .entry entry :=
  h.tells_head (h.holds.accepted happended.accepted) more htells

/-- No other append than the one that wrote it returns the position of an entry. -/
lemma World.Keeps.append_unique (h : w.Keeps chainLaw (Job.Ends chainLaw)) {entry : LogEntry}
    (happended : Client.Appended id streams payload p entry w.scene)
    (hr : w.Returned id' (.append client' streams' payload') (.ok p)) : id' = id := by
  obtain ⟨entry', happended'⟩ := h.of_returned hr
  exact h.holds.accepted_once happended'.accepted happended.accepted

/-- An append that has returned a position has committed its payload there, for exactly its streams
and with a backpointer for each of them. All units hold the entry from then on; whoever reads the
position, before or after, gets it; a look at the position that begins after the append has returned
shows it or fails; and no other append ever returns the position. -/
theorem append_durable (h : Node.start names policy sequencer management = .ok node)
    (moves : List Move) (w : World) (hw : w = (World.start node).play moves)
    (hr : w.Returned id (.append client streams payload) (.ok p)) :
    ∃ entry : LogEntry, entry.payload = payload ∧ entry.streams = streams ∧
      (∀ t, t ∈ entry.backpointers ↔ t ∈ streams) ∧
      ∀ more, (w.play more).scene.Committed p (.entry entry) ∧
        (∀ id' v, (w.play more).Tells id' p v → v = .entry entry) ∧
        (∀ id' r, w.nextId ≤ id' → (w.play more).Returned id' (.peek p) r →
          r = .ok (.committed (.entry entry)) ∨
            ∃ e, r = .error e ∧ (World.start node).MetOffline (moves ++ more) id' e) ∧
        ∀ id' client' streams' payload',
          (w.play more).Returned id' (.append client' streams' payload') (.ok p) → id' = id := by
  subst hw
  have hkeeps := World.keeps_chainLaw h moves
  obtain ⟨entry, happended⟩ := hkeeps.of_returned hr
  refine ⟨entry, happended.carries, happended.belongs, happended.pointsBack, fun more => ?_⟩
  obtain ⟨hgrows, hkeeps'⟩ := hkeeps.more more
  refine ⟨hgrows.committed happended.committed, fun id' v htells => ?_, fun id' r hid hr' => ?_, ?_⟩
  · exact hkeeps.tells_appended happended more htells
  · exact World.peek_later h happended.committed more hid hr'
  · exact fun id' client' streams' payload' hr' =>
      hkeeps'.append_unique (happended.later hgrows) hr'

/-- After a full reset to an empty log the first position is handed out again. An append of the same
payload loses it to the entry that is there, and returns the next one. -/
theorem append_durable_after_reset : ∃ node,
    Node.start ["a", "b"] .immediate ⟨1, Epoch.zero, 5⟩ .default = .ok node ∧
    let w := (World.start node).play
      ([.join Epoch.zero 3, .start (.append 0 ∅ [1])] ++ List.replicate 6 (.advance 0 (.prompt 1)))
    let reset : BootstrapRequest := ⟨⟨1, by decide⟩, Position.zero, ∅, Position.zero, true⟩
    let more : List Move :=
      [.start (.bootstrap reset), .advance 1 (.prompt 1), .start (.append 0 ∅ [1])] ++
        List.replicate 13 (.advance 2 (.prompt 1))
    w.Returned 0 (.append 0 ∅ [1]) (.ok Position.zero) ∧
      (w.play more).Returned 2 (.append 0 ∅ [1]) (.ok ⟨1, by decide⟩) ∧
      ∃ entry : LogEntry, entry.payload = [1] ∧
        (w.play more).scene.Committed Position.zero (.entry entry) := by
  have h : Node.start ["a", "b"] .immediate ⟨1, Epoch.zero, 5⟩ .default = .ok _ := rfl
  refine ⟨_, h, ?_⟩
  intro w reset more
  have hr : w.Returned 0 (.append 0 ∅ [1]) (.ok Position.zero) := by decide +kernel
  obtain ⟨entry, hpayload, -, -, hmore⟩ := append_durable h _ w rfl hr
  exact ⟨hr, by decide +kernel, entry, hpayload, (hmore more).1⟩

end SharedLog
