/-
# Commands that leave no trace

A query of the tails, a bootstrap that is in effect already, and a command that is refused change
nothing but the counts of queries and of refusals for their epoch. No answer depends on these
counts, except that they are told to whoever asks for them. So such commands can be struck out of a
history, and everything else is answered as before and leaves the same sequencer, up to the two
counts (`Alike`).
-/
import SharedLog.Proofs.Sequencer.History

namespace SharedLog

/-! ## Histories with commands struck out -/

/-- The service was a query of the tails, found a bootstrap in effect already, or was refused. -/
inductive Service.Traceless : Service → Prop
  | query {request : TokenRequest} {result : Except SequencerError Token}
      (h : request.isQuery = true) : Traceless ⟨.allocate request, result⟩
  | already {request : BootstrapRequest} {now : Timestamp} :
      Traceless ⟨.bootstrap request now, .ok .alreadyApplied⟩
  | refused {command : Command} {e : SequencerError} : Traceless ⟨command, .error e⟩

/-- Some services, and what is left of them when any that leave no trace are struck out. -/
inductive Pruned : List Service → List Service → Prop
  | nil : Pruned [] []
  | keep (x : Service) {past kept : List Service} (h : Pruned past kept) :
      Pruned (x :: past) (x :: kept)
  | strike {x : Service} (traceless : x.Traceless) {past kept : List Service}
      (h : Pruned past kept) : Pruned (x :: past) kept

namespace Sequencer

variable {q q' : Sequencer} {command : Command}

/-! ## Sequencers that differ in counts -/

/-- Two sequencers differ in nothing but the queries they have answered and the requests they have
refused for their epoch. -/
def Alike (q q' : Sequencer) : Prop :=
  q' = { q with queriesServed := q'.queriesServed, staleRejections := q'.staleRejections }

namespace Alike

lemma refl (q : Sequencer) : q.Alike q := rfl

lemma symm (h : q.Alike q') : q'.Alike q := by
  rw [h]
  rfl

lemma trans {q'' : Sequencer} (h : q.Alike q') (h' : q'.Alike q'') : q.Alike q'' := by
  unfold Alike at h h' ⊢
  rw [h'] at *
  rw [h]

/-- The two counts have no part in what comes of a request for positions. -/
lemma allocate (h : q.Alike q') (request : TokenRequest) :
    (q.allocate request).1 = (q'.allocate request).1 ∧
      (q.allocate request).2.Alike (q'.allocate request).2 := by
  rw [h]
  unfold Sequencer.allocate refuseStale
  split_ifs
  · exact ⟨rfl, rfl⟩
  · exact ⟨rfl, rfl⟩
  · exact ⟨rfl, rfl⟩
  · cases q.globalTail.add? request.count.toNat with
    | none => exact ⟨rfl, rfl⟩
    | some tail =>
      dsimp only
      cases tail.prev? <;> exact ⟨rfl, rfl⟩

lemma reseed (h : q.Alike q') (request : BootstrapRequest) :
    q'.reseed request = q.reseed request := by
  rw [h]
  rfl

/-- Nor in what comes of a bootstrap. -/
lemma bootstrap (h : q.Alike q') (request : BootstrapRequest) (now : Timestamp) :
    (q.bootstrap request now).1 = (q'.bootstrap request now).1 ∧
      (q.bootstrap request now).2.Alike (q'.bootstrap request now).2 := by
  unfold Sequencer.bootstrap refuseStale
  rw [h.reseed request, h]
  split_ifs
  · exact ⟨rfl, rfl⟩
  · exact ⟨rfl, rfl⟩
  · cases q.reseed request <;> exact ⟨rfl, rfl⟩

lemma serve (h : q.Alike q') (hcommand : command ≠ .metrics) :
    (q.serve command).1 = (q'.serve command).1 ∧
      (q.serve command).2.Alike (q'.serve command).2 := by
  cases command with
  | allocate request => exact h.allocate request
  | bootstrap request now => exact h.bootstrap request now
  | metrics => exact absurd rfl hcommand

end Alike

/-! ## Commands that change counts only -/

lemma Allocated.alike {request : TokenRequest} {r : Except SequencerError Token}
    (h : q.Allocated request r q') (htraceless : Service.Traceless ⟨.allocate request, r⟩) :
    q.Alike q' := by
  cases h with
  | stale | tooMany | queried | overflow => rfl
  | granted hepoch hcount =>
    -- a run is no query
    cases htraceless with
    | query hquery => exact absurd (by simpa [TokenRequest.isQuery] using hquery) hcount

lemma Bootstrapped.alike {request : BootstrapRequest} {now : Timestamp}
    {r : Except SequencerError BootstrapOutcome} (h : q.Bootstrapped request now r q')
    (htraceless : Service.Traceless ⟨.bootstrap request now, r⟩) : q.Alike q' := by
  cases h with
  | stale | already | refused => rfl
  | applied => cases htraceless

lemma alike_of_traceless (h : Service.Traceless ⟨command, (q.serve command).1⟩) :
    q.Alike (q.serve command).2 := by
  cases command with
  | allocate request => exact (q.allocated_allocate request).alike h
  | bootstrap request now => exact (q.bootstrapped_bootstrap request now).alike h
  | metrics => rfl

/-! ## Whole histories -/

lemma Alike.of_pruned {commands : List Command} {kept : List Service} (h : q.Alike q')
    (hcommands : ∀ command ∈ commands, command ≠ .metrics)
    (hkept : Pruned (q.history commands) kept) :
    q'.history (kept.map (·.command)) = kept ∧
      (q'.after (kept.map (·.command))).Alike (q.after commands) := by
  induction commands generalizing q q' kept with
  | nil =>
    cases hkept with
    | nil => exact ⟨rfl, h.symm⟩
  | cons command commands ih =>
    obtain ⟨hcommand, hrest⟩ := List.forall_mem_cons.mp hcommands
    cases hkept with
    | keep _ hkept =>
      obtain ⟨hanswer, hnext⟩ := h.serve hcommand
      obtain ⟨hhistory, hend⟩ := ih hnext hrest hkept
      refine ⟨?_, hend⟩
      simp only [List.map_cons, history, hhistory, hanswer]
    | strike htraceless hkept =>
      exact ih ((alike_of_traceless htraceless).symm.trans h) hrest hkept

/-- Queries, refused commands and bootstraps that are in effect already leave no trace.

Whatever a sequencer is asked for, except to tell its counts, any of these commands can be struck
out: all others are answered as before, and in the end the sequencer differs in nothing but how many
queries it has answered and how many requests it has refused for their epoch. -/
theorem history_pruned (q : Sequencer) (commands : List Command)
    (hcommands : ∀ command ∈ commands, command ≠ .metrics) (kept : List Service)
    (hkept : Pruned (q.history commands) kept) :
    q.history (kept.map (·.command)) = kept ∧
      ∃ queriesServed staleRejections, q.after (kept.map (·.command)) =
        { q.after commands with queriesServed, staleRejections } := by
  obtain ⟨hhistory, hend⟩ := (Alike.refl q).of_pruned hcommands hkept
  exact ⟨hhistory, _, _, hend.symm⟩

/-- A query, a bootstrap that is repeated and a request of an older epoch, struck out from between
two runs. -/
theorem history_pruned_of_three :
    let stream : StreamId := ⟨7, by decide⟩
    let next : Epoch := ⟨1, by decide⟩
    let run (epoch : Epoch) (count : UInt64) : Command := .allocate ⟨epoch, count, .ofList [stream]⟩
    let merge : Command := .bootstrap (.merge next Position.zero ∅) Timestamp.epoch
    let q := new Epoch.zero 5
    let commands := [run Epoch.zero 3, run Epoch.zero 0, merge, merge, run Epoch.zero 1, run next 2]
    let rest := [run Epoch.zero 3, merge, run next 2]
    Pruned (q.history commands) (q.history rest) ∧
      (q.after commands).queriesServed = 1 ∧ (q.after commands).staleRejections = 1 ∧
      (q.after rest).queriesServed = 0 ∧ (q.after rest).staleRejections = 0 ∧
      ∃ queriesServed staleRejections,
        q.after rest = { q.after commands with queriesServed, staleRejections } := by
  intro stream next run merge q commands rest
  have hcommands : ∀ command ∈ commands, command ≠ .metrics := by decide
  have halready : ((q.after (commands.take 3)).bootstrap (.merge next Position.zero ∅)
      Timestamp.epoch).1 = .ok .alreadyApplied := by decide +kernel
  have hrefused : ((q.after (commands.take 4)).allocate ⟨Epoch.zero, 1, .ofList [stream]⟩).1 =
      .error (.staleEpoch Epoch.zero next) := by decide +kernel
  obtain ⟨kept, hcommand, hpruned⟩ :
      ∃ kept, kept.map (·.command) = rest ∧ Pruned (q.history commands) kept :=
    ⟨_, rfl, .keep _ (.strike (.query rfl) (.keep _ (.strike (halready ▸ .already)
      (.strike (hrefused ▸ .refused) (.keep _ .nil)))))⟩
  obtain ⟨hhistory, hend⟩ := history_pruned q commands hcommands kept hpruned
  rw [hcommand] at hhistory hend
  exact ⟨hhistory ▸ hpruned, by decide +kernel, by decide +kernel, by decide +kernel,
    by decide +kernel, hend⟩

end Sequencer

end SharedLog
