/-
# Reading streams

A log that is filled by appends and by readers, with a sequencer that never forgets its tails, can
be read stream by stream. Whoever reads a stream gets entries of the stream only, each of them
permanent, in the order of their positions, and misses none that was appended before. The reading
ends well if it meets no unit that is offline and no bootstrap is applied meanwhile.
-/
import SharedLog.Proofs.Client.Durability
import SharedLog.Proofs.Stream.Progress

namespace SharedLog

variable {names : List String} {policy : HoleFillPolicy} {sequencer : SequencerSettings}
  {management : BootstrapSettings} {node : Node} {w : World} {id client : Nat} {stream : StreamId}
  {schedule : Nat → Move} {least n : Nat}

/-! ## Schedules under the law of streams -/

namespace World

/-- A move by which a bootstrap is applied. -/
def AppliesBootstrap (w : World) (m : Move) : Prop :=
  ∃ id request,
    (w.step m).scene.trace = w.scene.trace ++ [⟨id, .bootstrap request, .ok .applied⟩]

/-- An activity has met no unit that was offline. -/
def NoFailureOf (id : Nat) (w : World) : Prop :=
  ∀ event ∈ w.scene.trace, event.activity = id → ¬ event.action.Failed event.answer

lemma Keeps.after (h : w.Keeps streamLaw (Job.Ends streamLaw))
    (hschedule : ∀ n job, schedule n = .start job → job.Appending) (n : Nat) :
    (w.after schedule n).Keeps streamLaw (Job.Ends streamLaw) := by
  rw [after_eq_play]
  exact (h.play streamLaw_unconditional (Job.lasting_ends streamLaw_permits.toChainlike)
    (lawful streamLaw_permits _) (starts_range hschedule n)).2

/-- A move by which no bootstrap is applied is steady. -/
lemma steady_step {m : Move} (hnone : ¬ w.AppliesBootstrap m) :
    w.scene.Steady (w.step m).scene := by
  rcases w.calm_or_acts m with hcalm | ⟨id, choice, action, answer, -, -, hacts⟩
  · exact .of_calm hcalm
  · refine .of_acts hacts fun request heq => hnone ⟨id, request, ?_⟩
    rw [hacts.trace_eq, heq]

end World

/-! ## Readings -/

/-- A reading of a stream that has its turns comes to its end, whatever law is kept meanwhile. -/
theorem World.readStream_returns {L : Law} (hL : L.Trailing)
    (hclient : client < w.scene.node.clients.length) (hnumbered : w.scene.Numbered)
    (hwaits : w.scene.node.chain.Waits (L.steady least)) (hleast : Position.bound ≤ least)
    {w₀ : World} (hw₀ : w₀ = w.step (.start (.readStream client stream)))
    (hholds : ∀ n, L.holds (w₀.after schedule n).scene)
    (htends : World.Tends schedule w.nextId least)
    (hserved : ∀ n, World.NoFailureOf w.nextId (w₀.after schedule n))
    (hnone : ∀ n, (w₀.after schedule n).Runs w.nextId →
      ¬ (w₀.after schedule n).AppliesBootstrap (schedule n)) :
    ∃ n list, (w₀.after schedule n).Returned w.nextId (.readStream client stream) (.ok list) := by
  -- clients are numbered in order, so that this one has an epoch
  obtain ⟨hlength, hindex⟩ := hnumbered
  have hc := List.getElem?_eq_getElem hclient
  generalize w.scene.node.clients[client] = c at hc
  have hepoch : ∃ epoch, w.scene.node.epochs[c.index]? = some epoch := by
    rw [hindex client c hc]
    exact ⟨_, List.getElem?_eq_getElem (hlength ▸ hclient)⟩
  have hprogram : (Job.readStream client stream).program? w.scene.node =
      some (c.readStream w.scene.node.chain stream) := Option.map_eq_some_iff.mpr ⟨c, hc, rfl⟩
  have hstart := hw₀.trans (World.step_start_eq rfl hprogram)
  have hscene : w₀.scene = w.scene := by rw [hstart]
  have hrunning : w₀.activities[w.nextId]? =
      some (.running (.readStream client stream) (c.readStream w.scene.node.chain stream)) := by
    simp [hstart, World.nextId]
  have hmeets : (L.steady least).Meets w.nextId (fun r _ => ∃ list, r = .ok list)
      (c.readStream w.scene.node.chain stream) (w₀.after schedule 0).scene := by
    have hbegin := hholds 0
    rw [World.after, hscene] at hbegin ⊢
    exact Client.readStream_steady hL hbegin hepoch hwaits hleast
  have hlater : ∀ n, (w₀.after schedule n).Runs w.nextId → (L.steady least).later
      (w₀.after schedule n).scene (w₀.after schedule (n + 1)).scene :=
    fun n hruns => World.steady_step (hnone n hruns)
  obtain ⟨n, _, hreturned, list, rfl⟩ := htends.returns rfl hlater hholds hserved
    (fun _ _ _ hr _ _ => hr) Client.single_readStream (n := 0) hrunning hmeets
  exact ⟨n, list, hreturned⟩

/-- A reading of a stream that has its turns comes to its end. -/
theorem World.Keeps.readStream_returns (h : w.Keeps streamLaw (Job.Ends streamLaw))
    (hclient : client < w.scene.node.clients.length)
    (hwaits : w.scene.node.chain.Waits (streamLaw.steady least)) (hleast : Position.bound ≤ least)
    {w₀ : World} (hw₀ : w₀ = w.step (.start (.readStream client stream)))
    (hschedule : ∀ n job, schedule n = .start job → job.Appending)
    (htends : World.Tends schedule w.nextId least)
    (hserved : ∀ n, World.NoFailureOf w.nextId (w₀.after schedule n))
    (hnone : ∀ n, (w₀.after schedule n).Runs w.nextId →
      ¬ (w₀.after schedule n).AppliesBootstrap (schedule n)) :
    ∃ n list, (w₀.after schedule n).Returned w.nextId (.readStream client stream) (.ok list) := by
  have hkeeps : w₀.Keeps streamLaw (Job.Ends streamLaw) :=
    hw₀ ▸ (h.step_appending (by rintro job ⟨⟩; trivial)).2
  exact World.readStream_returns streamLaw_trailing hclient h.holds.2.2 hwaits hleast hw₀
    (fun n => (hkeeps.after hschedule n).holds) htends hserved hnone

/-- Streams are read as they were appended.

Take any interleaving of jobs that append and read. A reading that returns gives positions in
increasing order. Each of them has, for ever, the entry that is given with it, which belongs to the
stream. Every append to the stream that had returned when the reading was started is among them,
with its payload. And a reading does return, if it has its turns, its patience is bounded, no unit
fails it and no bootstrap is applied until then. -/
theorem readStream_sound_and_complete
    (h : Node.start names policy sequencer management = .ok node) (moves : List Move)
    (hmoves : World.Starts moves Job.Appending) (w : World)
    (hw : w = (World.start node).play moves) :
    (∀ more id client stream list, World.Starts more Job.Appending → w.nextId ≤ id →
      (w.play more).Returned id (.readStream client stream) (.ok list) →
      list.Pairwise (fun x y => x.1 < y.1) ∧
      (∀ p entry, (p, entry) ∈ list → stream ∈ entry.streams ∧
        ∀ still, ((w.play more).play still).scene.Committed p (.entry entry)) ∧
      ∀ id' client' streams payload q,
        w.Returned id' (.append client' streams payload) (.ok q) → stream ∈ streams →
        ∃ entry, (q, entry) ∈ list ∧ entry.payload = payload) ∧
    ∀ client stream w₀, client < w.scene.node.clients.length → policy.Bounded →
      w₀ = w.step (.start (.readStream client stream)) →
      ∃ least, ∀ schedule, (∀ n job, schedule n = .start job → job.Appending) →
        World.Tends schedule w.nextId least →
        (∀ n, World.NoFailureOf w.nextId (w₀.after schedule n)) →
        (∀ n, (w₀.after schedule n).Runs w.nextId →
          ¬ (w₀.after schedule n).AppliesBootstrap (schedule n)) →
        ∃ n list, (w₀.after schedule n).Returned w.nextId (.readStream client stream)
          (.ok list) := by
  have hchain : w.Keeps chainLaw (Job.Ends chainLaw) := hw ▸ World.keeps_chainLaw h moves
  have hstream : w.Keeps streamLaw (Job.Ends streamLaw) := hw ▸ World.keeps_streamLaw h hmoves
  refine ⟨fun more id client stream list hmore hid hr => ?_, ?_⟩
  · have hfound := hstream.readStream_later hmore hid hr
    refine ⟨hfound.sorted, fun p entry hmem => ⟨hfound.belongs p entry hmem, fun still => ?_⟩, ?_⟩
    · exact ((hchain.more more).2.more still).1.committed (hfound.committed p entry hmem)
    · intro id' client' streams payload q hr' hmem
      obtain ⟨entry, happended⟩ := hchain.of_returned hr'
      refine ⟨entry, ?_, happended.carries⟩
      have hbelongs : stream ∈ entry.streams := happended.belongs ▸ hmem
      refine (hfound.complete q entry happended.committed hbelongs).resolve_right ?_
      -- nothing is left ahead of a walk that has ended
      rintro ⟨c, hc, -⟩
      cases hc
  · intro client stream w₀ hclient hbounded hw₀
    obtain ⟨looks, hlooks⟩ := hbounded.exists_givesUp
    have hpolicy : w.scene.node.chain.policy = policy := by
      have hgrows := ((World.keeps_chainLaw h []).more moves).1
      rw [World.play_nil] at hgrows
      rw [hw, hgrows.chain]
      exact (Node.start_eq_ok h).2.1
    refine ⟨max looks Position.bound, fun schedule hschedule htends hserved hnone => ?_⟩
    refine hstream.readStream_returns hclient ?_ (Nat.le_max_right ..) hw₀ hschedule htends
      hserved hnone
    intro least hleast n hn
    obtain rfl := Option.some.inj hleast
    rw [hpolicy]
    exact hlooks n (Nat.le_trans (Nat.le_max_left ..) hn)

/-- A stream is read after an append to it has returned. -/
theorem readStream_after_append : ∃ node,
    Node.start ["a", "b"] .immediate ⟨1, Epoch.zero, 5⟩ .default = .ok node ∧
    let stream : StreamId := ⟨7, by decide⟩
    let append : List Move := [.join Epoch.zero 3, .start (.append 0 (.ofList [stream]) [1])] ++
      List.replicate 6 (.advance 0 (.prompt 1))
    let read : List Move := .start (.readStream 0 stream) ::
      List.replicate 8 (.advance 1 (.prompt 1))
    let w := (World.start node).play append
    let entry : LogEntry := ⟨.ofList [stream], .ofList [(stream, none)], [1]⟩
    (w.play read).Returned 1 (.readStream 0 stream) (.ok [(Position.zero, entry)]) ∧
      ∀ still, ((w.play read).play still).scene.Committed Position.zero (.entry entry) := by
  have h : Node.start ["a", "b"] .immediate ⟨1, Epoch.zero, 5⟩ .default = .ok _ := rfl
  refine ⟨_, h, ?_⟩
  intro stream append read w entry
  have happend : World.Starts append Job.Appending := by
    intro job hjob
    obtain rfl : job = .append 0 (.ofList [stream]) [1] := by simpa [append] using hjob
    trivial
  have hread : World.Starts read Job.Appending := by
    intro job hjob
    obtain rfl : job = .readStream 0 stream := by simpa [read] using hjob
    trivial
  have hreturned : (w.play read).Returned 1 (.readStream 0 stream)
      (.ok [(Position.zero, entry)]) := by
    decide +kernel
  have hlist := (readStream_sound_and_complete h append happend w rfl).1 read 1 0 stream _ hread
    (by decide +kernel) hreturned
  exact ⟨hreturned, (hlist.2.1 _ _ List.mem_cons_self).2⟩

end SharedLog
