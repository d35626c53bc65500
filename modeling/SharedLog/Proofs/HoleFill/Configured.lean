/-
# Configured patience

The patience that a configuration describes runs out, and every read on a chain whose units stay
online returns, unless the configuration asks for delays that grow from a delay of no length. The
check of a configuration lets such delays pass.
-/
import SharedLog.Proofs.HoleFill.Exhaustion
import SharedLog.Proofs.Node.Outcome
import SharedLog.Proofs.World.Progress

namespace SharedLog

variable {c : Config} {w : World} {id least : Nat} {p : Position} {schedule : Nat → Move}

/-! ## Configurations -/

/-- A reader doubles a delay of no length for a time that never passes. -/
def ReplicationSettings.Restless (s : ReplicationSettings) : Prop :=
  s.holeFillKind = .backoff ∧ s.holeFillDelayMillis = 0 ∧ s.holeFillMaxElapsedMillis ≠ 0

lemma ofMillis_eq_zero {n : UInt64} : Duration.ofMillis n = Duration.zero ↔ n = 0 := by
  rw [Duration.ext_iff, Duration.nanos_ofMillis, Duration.nanos_zero, ← UInt64.toNat_inj,
    UInt64.toNat_zero]
  omega

/-- The largest delay of a configuration that was accepted is no less than the first one. -/
lemma Config.delay_le_of_validate (h : c.validate = .ok ()) :
    c.replication.holeFillDelayMillis ≤ c.replication.holeFillMaxDelayMillis := by
  unfold validate at h
  dsimp only at h
  split at h
  · cases h
  · split at h
    · cases h
    · split at h
      · cases h
      · exact UInt64.not_lt.mp ‹_›

lemma Config.bounded_iff (h : c.validate = .ok ()) :
    c.replication.policy.Bounded ↔ ¬ c.replication.Restless := by
  have hle := delay_le_of_validate h
  unfold ReplicationSettings.Restless ReplicationSettings.policy
  cases c.replication.holeFillKind with
  | immediate | fixed => simp [HoleFillPolicy.Bounded]
  | backoff =>
    have hmax : c.replication.holeFillDelayMillis ≠ 0 →
        c.replication.holeFillMaxDelayMillis ≠ 0 := by
      intro hdelay hzero
      rw [hzero] at hle
      exact hdelay (UInt64.le_zero_iff.mp hle)
    simp only [HoleFillPolicy.Bounded, ne_eq, ofMillis_eq_zero, true_and, not_and, not_not]
    tauto

/-! ## Reads that return -/

/-- The law of the chain, when no loop is cut off before `least` rounds and nothing may be left
unfinished. -/
def readingLaw (least : Nat) : Law := { chainLaw with rounds := some least }

lemma readingLaw_chainlike (least : Nat) : (readingLaw least).Chainlike where
  sound := id
  grows := id
  allows_peek _ _ _ := trivial
  allows_hole _ _ := trivial
  allows_copy _ h := h

/-- A read that has its turns and meets no unit that is offline returns a value, if the patience of
readers runs out. -/
theorem World.Keeps.read_returns (h : w.Keeps chainLaw (Job.Ends chainLaw))
    (hattributed : w.Attributed) (hwaits : w.scene.node.chain.Waits (readingLaw least)) {w₀ : World}
    (hw₀ : w₀ = w.step (.start (.read p))) (htends : World.Tends schedule w.nextId least)
    (honline : ∀ n, (w₀.after schedule n).Runs w.nextId → (w₀.after schedule n).Online) :
    ∃ n v, (w₀.after schedule n).Returned w.nextId (.read p) (.ok v) := by
  have hprogram : (Job.read p).program? w.scene.node =
      some (.ofChain (w.scene.node.chain.read p)) := rfl
  have hstart := hw₀.trans (World.step_start_eq rfl hprogram)
  have hscene : w₀.scene = w.scene := by rw [hstart]
  have hrunning : w₀.activities[w.nextId]? =
      some (.running (.read p) (.ofChain (w.scene.node.chain.read p))) := by
    simp [hstart, World.nextId]
  have hnew : ∀ event ∈ w₀.scene.trace, event.activity ≠ w.nextId := by
    rw [hscene]
    exact fun event hmem => Nat.ne_of_lt (hattributed event hmem)
  have hmeets : (readingLaw least).Meets w.nextId ((readingLaw least).Ends w.nextId fun v s =>
      s.Committed p v) (.ofChain (w.scene.node.chain.read p)) (w₀.after schedule 0).scene := by
    rw [World.after, hscene]
    exact (Law.meets_ofChain _).mpr
      (Chain.read_meets ((readingLaw_chainlike least).filling _) rfl h.holds hwaits)
  have hkeeps : ∀ n, (w₀.after schedule n).Keeps chainLaw (Job.Ends chainLaw) := by
    intro n
    rw [World.after_eq_play, hw₀]
    exact ((h.more [.start (.read p)]).2.more _).2
  have hlasting : (readingLaw least).Lasting ((readingLaw least).Ends w.nextId fun v s =>
      s.Committed p v) :=
    (readingLaw_chainlike least).lasting_ends fun v _ _ hv hlater _ =>
      Scene.Grows.committed hlater hv
  obtain ⟨n, r, hreturned, hr⟩ := htends.returns (L := readingLaw least) rfl
    (fun n _ => ((hkeeps n).more [schedule n]).1) (fun n => (hkeeps n).holds)
    (fun _ _ _ _ => trivial) hlasting (NodeProgram.single_ofChain _) (n := 0) hrunning hmeets
  cases r with
  | ok v => exact ⟨n, v, hreturned⟩
  | error e =>
    have hw₀keeps : w₀.Keeps chainLaw (Job.Ends chainLaw) := hkeeps 0
    exact absurd hr (World.not_fails_of_online hw₀keeps hnew honline n)

/-! ## When patience runs out -/

/-- The patience of a configuration that was accepted runs out after finitely many looks in vain,
unless readers are restless. Then also every read on a chain whose units stay online returns. -/
theorem configured_patience_runs_out_iff (h : c.validate = .ok ()) :
    (c.replication.policy.RunsOut ↔ ¬ c.replication.Restless) ∧
    (¬ c.replication.Restless → ∀ names sequencer management node,
      Node.start names c.replication.policy sequencer management = .ok node →
      ∃ least, ∀ moves w, w = (World.start node).play moves → ∀ p w₀,
        w₀ = w.step (.start (.read p)) → ∀ schedule, World.Tends schedule w.nextId least →
        (∀ n, (w₀.after schedule n).Runs w.nextId → (w₀.after schedule n).Online) →
        ∃ n v, (w₀.after schedule n).Returned w.nextId (.read p) (.ok v)) := by
  refine ⟨HoleFillPolicy.runsOut_iff.trans (Config.bounded_iff h), ?_⟩
  intro hrestless names sequencer management node hstart
  obtain ⟨least, hleast⟩ := ((Config.bounded_iff h).mpr hrestless).exists_givesUp
  refine ⟨least, fun moves w hw p w₀ hw₀ schedule htends honline => ?_⟩
  have hkeeps : w.Keeps chainLaw (Job.Ends chainLaw) := hw ▸ World.keeps_chainLaw hstart moves
  refine hkeeps.read_returns (hw ▸ (World.attributed_start node).play moves) ?_ hw₀ htends honline
  intro least' hleast' n hn
  obtain rfl := Option.some.inj hleast'
  rw [hw, World.policy_play hstart]
  exact hleast n hn

/-- A node with the default configuration reads its empty log. -/
theorem configured_patience_runs_out_by_default :
    Config.default.validate = .ok () ∧ Config.default.replication.policy.RunsOut ∧
    ∃ node, Node.start ["a"] Config.default.replication.policy Config.default.sequencer
        Config.default.management = .ok node ∧
      ∃ schedule n v, (((World.start node).step (.start (.read Position.zero))).after schedule
        n).Returned 0 (.read Position.zero) (.ok v) := by
  have h : Config.default.validate = .ok () := rfl
  have hrestless : ¬ Config.default.replication.Restless := fun hr => absurd hr.2.1 (by decide)
  obtain ⟨hrunsOut, hreads⟩ := configured_patience_runs_out_iff h
  have hstart : Node.start ["a"] Config.default.replication.policy Config.default.sequencer
      Config.default.management = .ok _ := rfl
  obtain ⟨least, hleast⟩ := hreads hrestless _ _ _ _ hstart
  refine ⟨h, hrunsOut.mpr hrestless, _, hstart, ?_⟩
  refine ⟨fun _ => .advance 0 (.prompt least), hleast [] _ rfl Position.zero _ rfl _ ?_ ?_⟩
  · exact ⟨fun n => ⟨n, Nat.le_refl n, _, rfl⟩,
      fun _ choice heq => by cases heq; exact Nat.le_refl _, nofun⟩
  · exact fun n _ => ((World.online_start hstart).step (by simp)).after (by simp) n

/-- The check accepts a configuration whose readers are restless. With it no wait ends that looks
in vain, however many rounds it has, and the delay is as short as ever after the last attempt that
is counted. -/
theorem restless_configuration_accepted :
    ∃ c : Config, c.replication = ⟨.backoff, 10, 0, 0, 1, 1⟩ ∧ c.validate = .ok () ∧
    c.replication.policy.retryDelay HoleFillPolicy.attemptLimit Duration.zero =
      some Duration.zero ∧
    ∀ rounds, c.replication.policy.awaiting (.usual rounds) (fun _ (s : Unit) => (.ok .empty, s))
      Position.zero ⟨0, 0, ()⟩ = none := by
  let c : Config := { Config.default with replication := ⟨.backoff, 10, 0, 0, 1, 1⟩ }
  have hvalid : c.validate = .ok () := rfl
  have hbounded : ¬ c.replication.policy.Bounded := fun h =>
    (Config.bounded_iff hvalid).mp h ⟨rfl, rfl, by decide⟩
  exact ⟨c, rfl, hvalid, HoleFillPolicy.retryDelay_of_not_bounded hbounded _, fun rounds =>
    HoleFillPolicy.awaiting_eq_none hbounded (Worker.usual_faithful rounds)
      (fun _ _ => .inl rfl) _⟩

end SharedLog
