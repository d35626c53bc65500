/-
# Losing the sequencer loses no stream

A sequencer that is lost with all its tails can be replaced. A full reset with a replay of the log
gives its successor the tails back as far as the log tells them, also while old clients go on
writing with the tokens they have and while some of their writes have come only part of the way.
What they write behind the replay comes to nothing, new positions lie behind all old ones, and a
reader finds everything that was ever appended to a stream, across the reset.
-/
import SharedLog.Proofs.Succession.Handover

namespace SharedLog

variable {s s' : Scene} {id : Nat} {p : Position} {stream : StreamId} {action : Action}
  {answer : action.Answer} {l : Legacy}

/-- From some stage on the same jobs are permitted. -/
lemma Law.Permits.during {L : Law} {jobs : Job → Prop} {stage : Scene → Prop} (h : L.Permits jobs)
    (hstage : ∀ {s s'}, L.later s s' → stage s → stage s') :
    (L.during stage hstage).Permits jobs where
  sound hs := h.sound hs.1
  grows := h.grows
  allows_peek i p hs := h.allows_peek i p hs.1
  allows_hole p hs := h.allows_hole p hs.1
  allows_copy hs hslot := h.allows_copy hs.1 hslot
  allows_allocate request hs := h.allows_allocate request hs.1
  allows_knownEpoch client hs := h.allows_knownEpoch client hs.1
  allows_observeEpoch client epoch hs := h.allows_observeEpoch client epoch hs.1
  allows_append payload hs hmem hcount := h.allows_append payload hs.1 hmem hcount
  rounds := h.rounds
  write hjob hs := h.write hjob hs.1
  bootstrap hjob hs := h.bootstrap hjob hs.1
  layout hjob hreset hs := h.layout hjob hreset hs.1

/-! ## What the reset restores -/

/-- A tail of a stream as the log tells it before some position: the last position with an entry of
the stream, or what was known before if there is none. -/
def Scene.TellsTail (s : Scene) (stop : Position) (stream : StreamId)
    (known tail : Option Position) : Prop :=
  (∃ p, tail = some p ∧ p < stop ∧ s.Names p stream ∧
    ∀ q, q < stop → s.Names q stream → q ≤ p) ∨
  tail = known ∧ ∀ q, q < stop → ¬ s.Names q stream

/-- Every position before the hint for the global tail is decided, and the sequencer's tails are
those that the log tells. -/
structure Scene.Restored (s : Scene) (change : LayoutChange) : Prop where
  decided : ∀ p, p < change.globalTailHint → ∃ v, s.Committed p v
  tails : ∃ q, s.node.mailbox.sequencer = some q ∧ q.epoch = change.epoch ∧
    q.globalTail = change.globalTailHint ∧
    ∀ stream, s.TellsTail change.globalTailHint stream (change.streamTailHints.at? stream)
      (q.streamTail stream)

namespace Legacy

/-- The tails of a replay are those that the log tells. -/
lemma Replayed.tellsTail {tails : StreamPositions} (h : l.Replayed s tails) (stream : StreamId) :
    s.TellsTail l.change.globalTailHint stream (l.change.streamTailHints.at? stream)
      (tails.at? stream) := by
  have hrebuilt := h.rebuilt stream
  unfold StreamPositions.at?
  generalize l.change.streamTailHints[stream]? = known, tails[stream]? = t at hrebuilt ⊢
  cases hrebuilt with
  | last hseen names latest =>
    exact .inl ⟨_, rfl, within_iff.mp hseen, names, fun q hq => latest q (within_iff.mpr hq)⟩
  | unnamed hnone => exact .inr ⟨rfl, fun q hq => hnone q (within_iff.mpr hq)⟩

/-- A sequencer that waits does not serve. -/
lemma Awaits.not_serves (h : l.Awaits s) : ¬ l.Serves s := by
  intro hserves
  obtain ⟨q, hq, huntouched, -⟩ := h.untouched
  obtain ⟨q', tails, hq', -, hlast, -⟩ := hserves.sequencer
  obtain rfl := Option.some.inj (hq.symm.trans hq')
  rw [Sequencer.lastBootstrap_of_isUntouched huntouched] at hlast
  cases hlast

/-- The action after which a waiting sequencer serves was the reset, and it has restored the
tails. -/
lemma Awaits.restored (h : l.Awaits s) (hserves : l.Serves s')
    (hacts : s.Acts id action answer s') :
    (⟨id, action, answer⟩ : Event).Resets ∧ s'.Restored l.change := by
  obtain ⟨q, hq, huntouched, -⟩ := h.untouched
  obtain ⟨q', tails, hq', hepoch, hlast, hreplayed, -⟩ := hserves.sequencer
  have hnone := Sequencer.lastBootstrap_of_isUntouched huntouched
  have hdecided : ∀ p, p < l.change.globalTailHint → ∃ v, s'.Committed p v :=
    fun p hp => hreplayed.decided p (within_iff.mpr hp)
  -- nothing but a bootstrap that was applied makes the sequencer serve
  cases action with
  | onUnit | knownEpoch | observeEpoch =>
    rw [hacts.mailbox rfl, hq] at hq'
    obtain rfl := Option.some.inj hq'
    rw [hnone] at hlast
    cases hlast
  | allocate request =>
    obtain ⟨q₁, hq₁, hallocated⟩ := hacts.allocated hq
    obtain rfl := Option.some.inj (hq'.symm.trans hq₁)
    rw [hallocated.frame.2.1, hnone] at hlast
    cases hlast
  | bootstrap request =>
    obtain ⟨now, q₁, hq₁, hbootstrapped⟩ := hacts.bootstrapped hq
    obtain rfl := Option.some.inj (hq'.symm.trans hq₁)
    cases hbootstrapped with
    | stale | already | refused =>
      rw [hnone] at hlast
      cases hlast
    | applied hle hseed =>
      obtain rfl := Option.some.inj hlast
      obtain ⟨hglobal, htails, -⟩ := Sequencer.reseed_reset rfl hseed
      refine ⟨⟨id, _, rfl, rfl⟩, hdecided, _, hq', hepoch, hglobal, fun stream => ?_⟩
      rw [Sequencer.streamTail, htails]
      exact hreplayed.tellsTail stream

/-- Runs that are given after the loss begin behind all that the lost sequencer gave. -/
lemma Stage.le_first {delivered : Bool} (h : l.Stage delivered s) (hnot : ¬ l.base.Hasty s)
    {since : List Event} (htrace : s.trace = l.base.trace ++ since) {e : Event} (he : e ∈ since)
    {request : TokenRequest} {token : Token} (hgives : e.Gives request token) :
    l.change.globalTailHint ≤ token.first := by
  cases h with
  | hasty h => exact absurd h hnot
  | awaits h =>
    obtain ⟨since', htrace', hnone⟩ := h.since
    obtain rfl := List.append_cancel_left (htrace.symm.trans htrace')
    exact absurd hgives ((hnone e he).1 request token)
  | serves h =>
    obtain ⟨kept, since', htrace', -, -, hnew⟩ := h.past
    obtain rfl := List.append_cancel_left (htrace.symm.trans htrace')
    exact hnew e he request token hgives

/-! ## After the reset -/

/-- The law from the reset on. -/
def serving (l : Legacy) : Law := (l.law true none).during l.Serves fun hlater => hlater.2

lemma serving_unconditional : l.serving.Unconditional := ⟨fun _ _ => trivial, rfl⟩

lemma serving_permits : l.serving.Permits (Job.Following l.base) :=
  law_permits.during fun hlater => hlater.2

/-- Streams can be followed across the reset. -/
lemma serving_streamlike : l.serving.Streamlike where
  toClientlike := serving_permits.toClientlike
  backpointer_lt h hentry hstream hq := by
    obtain ⟨trace, horderly, hsound⟩ := h.2.exists_orderly h.1.1
    exact horderly.backpointer_lt hsound hentry hstream hq
  le_backpointer h hentry hentry' hstream hstream' hlt := by
    obtain ⟨trace, horderly, hsound⟩ := h.2.exists_orderly h.1.1
    exact horderly.le_backpointer hsound hentry hentry' hstream hstream' hlt
  le_streamTail h hentry hstream := by
    obtain ⟨trace, horderly, hsound⟩ := h.2.exists_orderly h.1.1
    exact horderly.le_streamTail hsound hentry hstream

end Legacy

/-! ## Worlds -/

namespace World

variable {w : World} {moves : List Move} {settings : BootstrapSettings} {mailbox : Mailbox}
  {schedule : Nat → Move} {delivered : Bool} {change client : Nat}
  {list : List (Position × LogEntry)}

/-- Whatever is done after the loss of the sequencer keeps the law of its succession. -/
lemma Keeps.following (h : w.Keeps (l.law delivered none) (l.tells settings change))
    (hmoves : Starts moves (Job.Following l.base)) :
    (l.law delivered none).later w.scene (w.play moves).scene ∧
      (w.play moves).Keeps (l.law delivered none) (l.tells settings change) :=
  h.play Legacy.law_unconditional (Legacy.lasting_tells settings change)
    (Legacy.lawful_tells w settings change) hmoves

/-- The change has just been delivered, as the activity of the given number, and nothing was done
about it yet. -/
structure Delivered (w : World) (l : Legacy) (settings : BootstrapSettings) (change : Nat) :
    Prop where
  keeps : w.Keeps (l.law true none) (l.tells settings change)
  chain : w.Keeps chainLaw (Job.Ends chainLaw)
  waits : l.base.Hasty w.scene ∨ l.Awaits w.scene
  running : w.activities[change]? = some (.running (.layout l.change)
    (Bootstrapper.handle ⟨settings, none⟩ w.scene.node.chain l.change))
  unseen : ∀ event ∈ w.scene.trace, event.activity ≠ change

/-- A change that is delivered to a bootstrapper at rest. -/
lemma Delivered.of_rests (hkeeps : ∀ delivered, w.Keeps (l.law delivered none)
      (l.tells settings w.nextId)) (hchain : w.Keeps chainLaw (Job.Ends chainLaw))
    (hrests : w.Rests ⟨settings, none⟩) (hattributed : w.Attributed) :
    (w.step (.start (.layout l.change))).Delivered l settings w.nextId := by
  have hmeets : (l.law true none).Meets w.nextId (l.ChangeEnds w.nextId settings)
      (Bootstrapper.handle ⟨settings, none⟩ w.scene.node.chain l.change) w.scene :=
    Legacy.handle_meets (Chain.waits_of_rounds rfl) rfl (hkeeps true).holds settings
  have hchain' := (hchain.more [.start (.layout l.change)]).2
  rw [play_cons, play_nil] at hchain'
  rw [hrests.step_layout l.change] at hchain' ⊢
  refine ⟨⟨(hkeeps true).holds, fun id a ha => ?_⟩, hchain', ?_, ?_, ?_⟩
  · rw [List.getElem?_append] at ha
    split at ha
    · exact (hkeeps true).fulfils id a ha
    · rw [List.getElem?_singleton] at ha
      split at ha
      · obtain rfl := Option.some.inj ha
        obtain rfl : id = w.nextId := by
          unfold nextId
          omega
        exact hmeets.mono fun r s hr _ => hr
      · cases ha
  · cases (hkeeps false).holds.2.2 with
    | hasty h => exact .inl h
    | awaits h => exact .inr h
    | serves _ hdelivered => cases hdelivered
  · simp [nextId]
  · exact fun event hmem => Nat.ne_of_lt (hattributed event hmem)

namespace Delivered

/-- The change is acknowledged, if all units are online while it is handled and the sequencer is
never hasty. -/
theorem acknowledged (h : w.Delivered l settings change) {least : Nat}
    (hwaits : ∀ n, least ≤ n → w.scene.node.chain.policy.GivesUp n 0 Duration.zero)
    (hschedule : ∀ n job, schedule n = .start job → job.Following l.base)
    (htends : TendsAll schedule change least)
    (honline : ∀ n, (w.after schedule n).Runs change → (w.after schedule n).Online)
    (hnot : ∀ n, ¬ l.base.Hasty (w.after schedule n).scene) :
    ∃ n, (w.after schedule n).Returned change (.layout l.change)
      (.ack, ⟨settings, some l.change.epoch⟩) := by
  have hkeeps : ∀ n, (w.after schedule n).Keeps (l.law true none) (l.tells settings change) :=
    fun n => w.after_eq_play schedule n ▸ (h.keeps.following (starts_range hschedule n)).2
  have hlater : ∀ n, (l.law true none).later (w.after schedule n).scene
      (w.after schedule (n + 1)).scene :=
    fun n => ((hkeeps n).following (starts_singleton.mpr (hschedule n))).1
  have hmeets : (l.law true (some least)).Meets change (l.ChangeEnds change settings)
      (Bootstrapper.handle ⟨settings, none⟩ w.scene.node.chain l.change)
      (w.after schedule 0).scene := by
    have hholds : (l.law true (some least)).holds w.scene := h.keeps.holds
    refine Legacy.handle_meets (fun k hk n hn => ?_) rfl hholds settings
    obtain rfl := Option.some.inj hk
    exact hwaits n hn
  obtain ⟨n, r, hreturned, hends⟩ := htends.returns (L := l.law true (some least)) rfl
    (fun n _ => hlater n) (fun n => (hkeeps n).holds) (fun _ _ _ _ => trivial)
    (Legacy.lasting_changeEnds settings) (n := 0) h.running hmeets
  refine ⟨n, ?_⟩
  rcases hends with hhasty | ⟨rfl, -⟩ | ⟨-, e, hfails⟩
  · exact absurd hhasty (hnot n)
  · exact hreturned
  · exact absurd hfails (not_fails_of_online h.chain h.unseen honline n)

/-- Once the change is acknowledged, the sequencer serves. -/
lemma serves (h : w.Delivered l settings change) (hmoves : Starts moves (Job.Following l.base))
    (hnot : ¬ l.base.Hasty (w.play moves).scene) {b : Bootstrapper}
    (hr : (w.play moves).Returned change (.layout l.change) (.ack, b)) :
    l.Serves (w.play moves).scene := by
  rcases (h.keeps.following hmoves).2.of_returned hr rfl with hhasty | ⟨-, hserves⟩ | ⟨hne, -⟩
  · exact absurd hhasty hnot
  · exact hserves
  · exact absurd rfl hne

end Delivered

/-- Somewhere between a waiting sequencer and a serving one the reset took effect. -/
lemma Keeps.exists_reset (h : w.Keeps (l.law true none) (l.tells settings change))
    (hawaits : l.Awaits w.scene) (hmoves : Starts moves (Job.Following l.base))
    (hserves : l.Serves (w.play moves).scene) (hnot : ¬ l.base.Hasty (w.play moves).scene) :
    ∃ before m after e s, moves = before ++ m :: after ∧ s = (w.play (before ++ [m])).scene ∧
      s.trace = (w.play before).scene.trace ++ [e] ∧ e.Resets ∧ s.Restored l.change ∧
      s.Grows (w.play moves).scene := by
  induction moves generalizing w with
  | nil => exact absurd hserves hawaits.not_serves
  | cons m moves ih =>
    obtain ⟨hm, hrest⟩ := starts_cons.mp hmoves
    have hkeeps := (h.following (starts_singleton.mpr hm)).2
    rw [play_cons, play_nil] at hkeeps
    have hgrows : (w.step m).scene.Grows ((w.step m).play moves).scene :=
      (hkeeps.following hrest).1.1
    rw [play_cons] at hserves hnot
    cases hkeeps.holds.2.2 with
    | hasty hhasty => exact absurd (hhasty.later hgrows) hnot
    | awaits hawaits' =>
      obtain ⟨before, m', after, e, s, rfl, hrestored⟩ := ih hkeeps hawaits' hrest hserves hnot
      exact ⟨m :: before, m', after, e, s, rfl, hrestored⟩
    | serves hserves' _ =>
      rcases w.calm_or_acts m with hcalm | ⟨id, choice, action, answer, -, -, hacts⟩
      · exact absurd hserves' (hawaits.of_calm hcalm).not_serves
      · obtain ⟨hresets, hrestored⟩ := hawaits.restored hserves' hacts
        exact ⟨[], m, moves, _, _, rfl, rfl, hacts.trace_eq, hresets, hrestored, hgrows⟩

/-- A stream that is read while the new sequencer serves has all its entries. -/
lemma Keeps.readStream_following (h : w.Keeps (l.law true none) (l.tells settings change))
    (hserves : l.Serves w.scene) (hmoves : Starts moves (Job.Following l.base))
    (hid : w.nextId ≤ id)
    (hr : (w.play moves).Returned id (.readStream client stream) (.ok list)) :
    Found w.scene stream none list (w.play moves).scene := by
  have hserving : w.Keeps l.serving (l.tells settings change) :=
    h.during (fun hlater => hlater.2) hserves
  exact hserving.readStream_found Legacy.serving_streamlike Legacy.serving_unconditional
    Legacy.serving_permits hmoves hid hr

namespace Delivered

/-- The reset took effect at some move, and what it decided was not decided otherwise later. -/
lemma exists_reset (h : w.Delivered l settings change)
    (hmoves : Starts moves (Job.Following l.base)) (hnot : ¬ l.base.Hasty (w.play moves).scene)
    {b : Bootstrapper} (hr : (w.play moves).Returned change (.layout l.change) (.ack, b)) :
    ∃ before m after e s, moves = before ++ m :: after ∧ s = (w.play (before ++ [m])).scene ∧
      s.trace = (w.play before).scene.trace ++ [e] ∧ e.Resets ∧ s.Restored l.change ∧
      ∀ place p v, p < l.change.globalTailHint →
        (w.play moves).scene.slot place p = some v → s.Committed p v := by
  have hawaits : l.Awaits w.scene := by
    refine h.waits.resolve_left fun hhasty => hnot (hhasty.later ?_)
    exact (h.keeps.following hmoves).1.1
  obtain ⟨before, m, after, e, s, heq, hs, htrace, hresets, hrestored, hgrows⟩ :=
    h.keeps.exists_reset hawaits hmoves (h.serves hmoves hnot hr) hnot
  refine ⟨before, m, after, e, s, heq, hs, htrace, hresets, hrestored, fun place p v hp hv => ?_⟩
  obtain ⟨v', hv'⟩ := hrestored.decided p hp
  have hsound : (w.play moves).scene.Sound := (h.chain.more moves).2.holds
  -- what any unit holds, the head holds as well
  have hhead := hsound.headward (Nat.zero_le place) hv
  have hhead' := hsound.head_of_committed (hgrows.committed hv')
  obtain rfl := Option.some.inj (hhead.symm.trans hhead')
  exact hv'

/-- Runs that are given after the loss begin behind all that was given before. -/
lemma le_first (h : w.Delivered l settings change)
    (hmoves : Starts moves (Job.Following l.base)) (hnot : ¬ l.base.Hasty (w.play moves).scene)
    {since : List Event} (htrace : (w.play moves).scene.trace = l.base.trace ++ since) {e : Event}
    (he : e ∈ since) {request : TokenRequest} {token : Token} (hgives : e.Gives request token) :
    l.change.globalTailHint ≤ token.first :=
  (h.keeps.following hmoves).2.holds.2.2.le_first hnot htrace he hgives

/-- A stream that is read once the change is acknowledged has all its entries. -/
lemma readStream_found (h : w.Delivered l settings change)
    (hmoves : Starts moves (Job.Following l.base)) (hnot : ¬ l.base.Hasty (w.play moves).scene)
    {b : Bootstrapper} (hr : (w.play moves).Returned change (.layout l.change) (.ack, b))
    {still : List Move} (hstill : Starts still (Job.Following l.base))
    (hid : (w.play moves).nextId ≤ id)
    (hread : ((w.play moves).play still).Returned id (.readStream client stream) (.ok list)) :
    Found (w.play moves).scene stream none list ((w.play moves).play still).scene :=
  (h.keeps.following hmoves).2.readStream_following (h.serves hmoves hnot hr) hstill hid hread

end Delivered

/-! ## From the loss to the change -/

variable {names : List String} {policy : HoleFillPolicy} {sequencer : SequencerSettings}
  {management : BootstrapSettings} {node : Node} {w₁ : World} {lost : Sequencer} {epoch : Epoch}
  {maxTokens : UInt64} {early : List Move}

/-- What a lost sequencer leaves behind, and the world in which a full reset was delivered that
another one can take over with. -/
theorem exists_delivered (h : Node.start names policy sequencer management = .ok node)
    (hmoves : Starts moves Job.Appending) (hw : w = (World.start node).play moves)
    (hlost : w.scene.node.mailbox.sequencer = some lost)
    (hfresh : mailbox.sequencer = some (.new epoch maxTokens)) {change : LayoutChange}
    (hchange : change.Restores lost) (hepoch : epoch ≤ change.epoch)
    (hearly : Starts early (Job.Following w.scene))
    (hw₁ : w₁ = (w.succeed mailbox settings).play early) :
    ∃ l : Legacy, l.base = w.scene ∧ l.change = change ∧
      (w₁.step (.start (.layout change))).scene.node.chain.policy = policy ∧
      (w₁.step (.start (.layout change))).Delivered l settings w₁.nextId := by
  have hchain : w.Keeps chainLaw (Job.Ends chainLaw) := hw ▸ keeps_chainLaw h moves
  have hstream : w.Keeps streamLaw (Job.Ends streamLaw) := hw ▸ keeps_streamLaw h hmoves
  obtain ⟨hsound, horderly, -⟩ := hstream.holds
  obtain ⟨q, hq, hledger⟩ := horderly.ledger
  obtain rfl := Option.some.inj (hlost.symm.trans hq)
  let l : Legacy := ⟨w.scene, lost, change, hledger, hchange⟩
  have hkeeps : ∀ delivered, w₁.Keeps (l.law delivered none) (l.tells settings w₁.nextId) := by
    intro delivered
    have hjobs : ∀ a ∈ w.activities, a.job.Appending :=
      hw ▸ job_play (fun a hmem => by cases hmem) hmoves
    have hnext : w.nextId ≤ w₁.nextId := by
      rw [hw₁, ← w.nextId_succeed mailbox settings]
      exact nextId_le_play _ early
    have hsucceed : (w.succeed mailbox settings).Keeps (l.law delivered none)
        (l.tells settings w₁.nextId) :=
      Legacy.keeps_succeed (l := l) rfl hsound horderly.entered hjobs
        (hw ▸ beside_tokenLaw h hmoves) hfresh rfl hepoch hnext
    exact hw₁ ▸ (hsucceed.following hearly).2
  obtain ⟨hgrows, hchain₁⟩ := hchain.succeed.more early
  rw [← hw₁] at hgrows hchain₁
  have hrests : w₁.Rests ⟨settings, none⟩ := by
    refine hw₁ ▸ (rests_succeed w mailbox settings).play hearly fun job hjob => ?_
    cases job <;> first | rfl | exact hjob.elim
  have hattributed : w₁.Attributed :=
    hw₁ ▸ (hw ▸ (attributed_start node).play moves : w.Attributed).succeed.play early
  refine ⟨l, rfl, rfl, ?_, Delivered.of_rests (l := l) hkeeps hchain₁ hrests hattributed⟩
  rw [hrests.step_layout, hgrows.chain]
  exact hw ▸ policy_play h moves

end World

/-! ## The result -/

/-- No stream is lost with the sequencer.

Take any interleaving of jobs that append and read, at the end of which the sequencer is lost, and
another one that takes over: it is fresh, of an epoch that is not later than that of the change, and
the change is a full reset from the start of the log to behind all positions that were given. Before
and after the change is delivered to the bootstrapper, old clients go on, entries of old tokens are
written, others read and append, and the sequencer gives no run before a full reset has taken
effect.

Then the change is acknowledged, if readers' patience is bounded and the units are online while it
is handled. All runs given after the loss begin behind all that were given before. When the change
was acknowledged, there was a move by which the reset took effect: right after it, the sequencer's
tails were those that the log tells, and every position before them was decided, so that nothing
which a unit holds there at any later time was not committed then. And whoever reads a stream
afterwards gets its entries in order, each of them for ever. Among them are all that were committed
when the reading was started, and so all that were appended to the stream before, whether the old
sequencer gave their positions or the new one. -/
theorem streams_survive_lost_sequencer
    (h : Node.start names policy sequencer management = .ok node) (moves early : List Move)
    (hmoves : World.Starts moves Job.Appending) (w w₁ w₀ : World)
    (hw : w = (World.start node).play moves) (lost : Sequencer)
    (hlost : w.scene.node.mailbox.sequencer = some lost) (mailbox : Mailbox) (epoch : Epoch)
    (maxTokens : UInt64) (hfresh : mailbox.sequencer = some (.new epoch maxTokens))
    (settings : BootstrapSettings) (change : LayoutChange) (hchange : change.Restores lost)
    (hepoch : epoch ≤ change.epoch) (hearly : World.Starts early (Job.Following w.scene))
    (hw₁ : w₁ = (w.succeed mailbox settings).play early)
    (hw₀ : w₀ = w₁.step (.start (.layout change))) :
    (policy.Bounded → ∃ least, ∀ schedule,
      (∀ n job, schedule n = .start job → job.Following w.scene) →
      World.TendsAll schedule w₁.nextId least →
      (∀ n, (w₀.after schedule n).Runs w₁.nextId → (w₀.after schedule n).Online) →
      (∀ n, ¬ w.scene.Hasty (w₀.after schedule n).scene) →
      ∃ n, (w₀.after schedule n).Returned w₁.nextId (.layout change)
        (.ack, ⟨settings, some change.epoch⟩)) ∧
    (∀ request token, w.scene.Granted request token → token.first < change.globalTailHint) ∧
    ∀ more, World.Starts more (Job.Following w.scene) → ¬ w.scene.Hasty (w₀.play more).scene →
      (∀ since e request token, (w₀.play more).scene.trace = w.scene.trace ++ since → e ∈ since →
        e.Gives request token → change.globalTailHint ≤ token.first) ∧
      ∀ b, (w₀.play more).Returned w₁.nextId (.layout change) (.ack, b) →
        (∃ before m after e s, more = before ++ m :: after ∧
          s = (w₀.play (before ++ [m])).scene ∧ s.trace = (w₀.play before).scene.trace ++ [e] ∧
          e.Resets ∧ s.Restored change ∧ ∀ place p v, p < change.globalTailHint →
            (w₀.play more).scene.slot place p = some v → s.Committed p v) ∧
        ∀ still id client stream list, World.Starts still (Job.Following w.scene) →
          (w₀.play more).nextId ≤ id →
          ((w₀.play more).play still).Returned id (.readStream client stream) (.ok list) →
          list.Pairwise (fun x y => x.1 < y.1) ∧
          (∀ p entry, (p, entry) ∈ list → stream ∈ entry.streams ∧ ∀ further,
            (((w₀.play more).play still).play further).scene.Committed p (.entry entry)) ∧
          (∀ p entry, (w₀.play more).scene.Committed p (.entry entry) → stream ∈ entry.streams →
            (p, entry) ∈ list) ∧
          ∀ id' client' streams payload q,
            (w₀.play more).Returned id' (.append client' streams payload) (.ok q) →
            stream ∈ streams → ∃ entry, (q, entry) ∈ list ∧ entry.payload = payload := by
  obtain ⟨l, hbase, rfl, hpolicy, hdelivered⟩ :=
    World.exists_delivered h hmoves hw hlost hfresh hchange hepoch hearly hw₁
  rw [← hw₀] at hpolicy hdelivered
  rw [← hbase]
  refine ⟨fun hbounded => ?_, fun request token => Legacy.first_lt, fun more hmore hnot =>
    ⟨fun since e request token htrace he hgives => hdelivered.le_first hmore hnot htrace he hgives,
      fun b hr => ⟨hdelivered.exists_reset hmore hnot hr, ?_⟩⟩⟩
  · obtain ⟨least, hleast⟩ := hbounded.exists_givesUp
    exact ⟨least, fun schedule hschedule htends honline hnot => hdelivered.acknowledged
      (hpolicy ▸ hleast) hschedule htends honline hnot⟩
  · intro still id client stream list hstill hid hread
    have hfound := hdelivered.readStream_found hmore hnot hr hstill hid hread
    have hchain : (w₀.play more).Keeps chainLaw (Job.Ends chainLaw) :=
      (hdelivered.chain.more more).2
    refine ⟨hfound.sorted, fun p entry hmem => ⟨hfound.belongs p entry hmem, fun further => ?_⟩,
      fun p entry => hfound.mem_of_committed, fun id' client' streams payload q hr' hmem => ?_⟩
    · exact ((hchain.more still).2.more further).1.committed (hfound.committed p entry hmem)
    · obtain ⟨entry, happended⟩ := hchain.of_returned hr'
      exact ⟨entry, hfound.mem_of_committed happended.committed (happended.belongs ▸ hmem),
        happended.carries⟩

/-- A client holds the token of the second position when the sequencer is lost. The replay fills the
position before the client gets to it, so that the client has to append at a position of the other
sequencer. A reader follows the stream from there across the reset. -/
theorem streams_survive_lost_sequencer_with_straggler : ∃ node,
    Node.start ["a", "b"] .immediate ⟨1, Epoch.zero, 5⟩ .default = .ok node ∧
    let stream : StreamId := ⟨7, by decide⟩
    let third : Position := ⟨2, by decide⟩
    let moves : List Move := [.join Epoch.zero 3, .start (.append 0 (.ofList [stream]) [1])] ++
      List.replicate 6 (.advance 0 (.prompt 1)) ++
      .start (.append 0 (.ofList [stream]) [2]) :: List.replicate 2 (.advance 1 (.prompt 1))
    let mailbox : Mailbox := .start 1 Nat.one_pos (.new Epoch.zero 5)
    let change : LayoutChange := ⟨Epoch.zero, true, Position.zero, third, ∅⟩
    let turn (place : Nat) : Move := .advance 2 ⟨Timestamp.epoch, Duration.zero, 1, place⟩
    let more : List Move := List.replicate 2 (turn 0) ++ List.replicate 6 (turn 1) ++
      List.replicate 4 (turn 2) ++ List.replicate 8 (.advance 1 (.prompt 1))
    let read : List Move := .start (.readStream 0 stream) ::
      List.replicate 9 (.advance 3 (.prompt 3))
    let w := (World.start node).play moves
    let w₁ := w.succeed mailbox .default
    let w₂ := (w₁.step (.start (.layout change))).play more
    let entry (payload : List UInt8) (p : Option Position) : LogEntry :=
      ⟨.ofList [stream], .ofList [(stream, p)], payload⟩
    w₂.Returned 2 (.layout change) (.ack, ⟨.default, some Epoch.zero⟩) ∧
      w₂.Returned 1 (.append 0 (.ofList [stream]) [2]) (.ok third) ∧
      (w₂.play read).Returned 3 (.readStream 0 stream)
        (.ok [(Position.zero, entry [1] none), (third, entry [2] (some Position.zero))]) ∧
      ∀ further, ((w₂.play read).play further).scene.Committed Position.zero
        (.entry (entry [1] none)) := by
  have h : Node.start ["a", "b"] .immediate ⟨1, Epoch.zero, 5⟩ .default = .ok _ := rfl
  refine ⟨_, h, ?_⟩
  intro stream third moves mailbox change turn more read w w₁ w₂ entry
  have hmoves : World.Starts moves Job.Appending := by
    intro job hjob
    obtain rfl | rfl : job = .append 0 (.ofList [stream]) [1] ∨
        job = .append 0 (.ofList [stream]) [2] := by simpa [moves] using hjob
    · trivial
    · trivial
  have hmore : ∀ jobs, World.Starts more jobs := by
    intro jobs job hjob
    simp [more, turn] at hjob
  have hread : ∀ base, World.Starts read (Job.Following base) := by
    intro base job hjob
    obtain rfl : job = .readStream 0 stream := by simpa [read] using hjob
    trivial
  -- the lost sequencer has given the first two positions
  have hany : w.scene.node.mailbox.sequencer.any
      (fun q => q.globalTail ≤ third) = true := by
    decide +kernel
  obtain ⟨lost, hlost, hcovers⟩ := (Option.any_eq_true _ _).mp hany
  have hchange : change.Restores lost := by
    refine ⟨rfl, rfl, of_decide_eq_true hcovers, fun stream p hp => ?_⟩
    simp [StreamPositions.at?, change] at hp
  have hack : w₂.Returned 2 (.layout change) (.ack, ⟨.default, some Epoch.zero⟩) := by
    decide +kernel
  have happended : w₂.Returned 1 (.append 0 (.ofList [stream]) [2]) (.ok third) := by
    decide +kernel
  have hreturned : (w₂.play read).Returned 3 (.readStream 0 stream)
      (.ok [(Position.zero, entry [1] none), (third, entry [2] (some Position.zero))]) := by
    decide +kernel
  have hsurvive := (streams_survive_lost_sequencer h moves [] hmoves w w₁ _ rfl lost hlost mailbox
    Epoch.zero 5 rfl .default change hchange (Nat.le_refl _) World.starts_nil rfl rfl).2.2
  have hid : w₁.nextId = 2 := by decide +kernel
  rw [hid] at hsurvive
  obtain ⟨-, hreset⟩ := hsurvive more (hmore _) (Scene.not_hasty (by decide +kernel))
  have hlist := (hreset _ hack).2 read 3 0 stream _ (hread _) (by decide +kernel) hreturned
  exact ⟨hack, happended, hreturned, (hlist.2.1 _ _ List.mem_cons_self).2⟩

end SharedLog
