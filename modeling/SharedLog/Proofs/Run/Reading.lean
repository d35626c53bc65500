/-
# Reading runs of several positions

All entries of a run carry the backpointer of the run's token, which leads before the whole run, and
whoever comes from behind the run comes to its last position first. So a reader of a stream finds
the entry at the end of a run and passes over all others, committed as they may be: a run is listed
in full only if it has a single position.

What a reader keeps up is said of one run at a time. Either the run's end is still ahead, or it has
been found and the reader goes on before the run's beginning.
-/
import SharedLog.Proofs.Run.Law
import SharedLog.Proofs.Stream.Reading

namespace SharedLog

variable {base s s' : Scene} {id : Nat} {p last last' : Position} {stream : StreamId}
  {q : Sequencer} {request request' : TokenRequest} {token token' : Token}
  {entry entry' : LogEntry} {payload : List UInt8}

/-! ## Entries of runs -/

namespace Scene

/-- A position is in one run only. -/
lemma RunLedger.eq_of_within (h : s.RunLedger q) (hg : s.Gave request token last)
    (hg' : s.Gave request' token' last') (hp : token.first ≤ p ∧ p ≤ last)
    (hp' : token'.first ≤ p ∧ p ≤ last') : token' = token := by
  rcases Nat.le_total token.first.val token'.first.val with hle | hle
  · exact (h.apart hg hg'.1 hle).resolve_right fun hlt =>
      absurd hlt (Nat.not_lt.mpr (Nat.le_trans hp'.1 hp.2))
  · exact ((h.apart hg' hg.1 hle).resolve_right fun hlt =>
      absurd hlt (Nat.not_lt.mpr (Nat.le_trans hp.1 hp'.2))).symm

namespace InRuns

/-- A committed entry of a stream comes with a run that was given for the stream. -/
lemma run_of_committed (h : s.InRuns) (hsound : s.Sound) (hentry : s.Committed p (.entry entry))
    (hstream : stream ∈ entry.streams) : ∃ request token last, s.Gave request token last ∧
      token.first ≤ p ∧ p ≤ last ∧ stream ∈ request.streams ∧
      entry.backpointer stream = token.backpointer stream := by
  obtain ⟨_, -, hledger⟩ := h.ledger
  obtain ⟨request, token, payload, last, hg, hfirst, hlast, rfl⟩ :=
    h.entry p entry (hsound.head_of_committed hentry)
  refine ⟨request, token, last, hg, hfirst, hlast, ?_, rfl⟩
  rw [LogEntry.streams_forToken fun t => hledger.mem_backpointers hg.1] at hstream
  exact hstream

/-- A committed entry in a run for a stream belongs to the stream. -/
lemma mem_streams (h : s.InRuns) (hsound : s.Sound) (hg : s.Gave request token last)
    (hp : token.first ≤ p ∧ p ≤ last) (hstream : stream ∈ request.streams)
    (hentry : s.Committed p (.entry entry)) : stream ∈ entry.streams := by
  obtain ⟨_, -, hledger⟩ := h.ledger
  obtain ⟨request', token', payload, last', hg', hfirst, hlast, rfl⟩ :=
    h.entry p entry (hsound.head_of_committed hentry)
  obtain rfl := hledger.eq_of_within hg hg' hp ⟨hfirst, hlast⟩
  rw [LogEntry.streams_forToken fun t => hledger.mem_backpointers hg.1]
  exact hstream

/-- The way along a stream leads backwards, out of the run that it has come to. -/
lemma backpointer_lt (h : s.InRuns) (hsound : s.Sound) (hg : s.Gave request token last)
    (hp : token.first ≤ p ∧ p ≤ last) (hentry : s.Committed p (.entry entry))
    {b : Position} (hb : entry.backpointer stream = some b) : b < token.first := by
  obtain ⟨_, -, hledger⟩ := h.ledger
  obtain ⟨request', token', payload, last', hg', hfirst, hlast, rfl⟩ :=
    h.entry p entry (hsound.head_of_committed hentry)
  obtain rfl := hledger.eq_of_within hg hg' hp ⟨hfirst, hlast⟩
  exact hledger.backpointer_lt hg.1 hb

/-- No run for a stream ends between an entry of the stream that is behind the run and the entry's
backpointer. -/
lemma last_le_backpointer (h : s.InRuns) (hsound : s.Sound) (hg : s.Gave request token last)
    (hstream : stream ∈ request.streams) (hlt : last < p) (hentry : s.Committed p (.entry entry))
    (hbelongs : stream ∈ entry.streams) :
    ∃ b, entry.backpointer stream = some b ∧ last ≤ b := by
  obtain ⟨_, -, hledger⟩ := h.ledger
  obtain ⟨request', token', last', hg', hfirst, hlast, hstream', hback⟩ :=
    h.run_of_committed hsound hentry hbelongs
  rw [hback]
  refine hledger.last_le_backpointer hg'.1 hg hstream' hstream ?_
  -- the entry's run is another one, and it does not begin before
  have hne : token' ≠ token := by
    rintro rfl
    obtain rfl := Option.some.inj (hg.2.symm.trans hg'.2)
    exact absurd hlt (Nat.not_lt.mpr hlast)
  have hbehind : token.first < p := Nat.lt_of_le_of_lt (Token.first_le_last hg.2) hlt
  rcases Nat.le_total token.first.val token'.first.val with hle | hle
  · exact (hledger.apart hg hg'.1 hle).resolve_left hne
  · have hafter := (hledger.apart hg' hg.1 hle).resolve_left (Ne.symm hne)
    exact absurd (Nat.lt_of_lt_of_le hbehind hlast) (Nat.lt_asymm hafter)

end InRuns

end Scene

lemma runLaw_trailing : runLaw.Trailing where
  toClientlike := runLaw_permits.toClientlike
  running h := by
    obtain ⟨q, hq, -⟩ := h.2.1.ledger
    exact ⟨q, hq⟩
  backwards _ _ _ _ _ h hentry hstream hb := by
    obtain ⟨request, token, last, hg, hfirst, hlast, -, -⟩ :=
      h.2.1.run_of_committed h.1 hentry hstream
    exact Nat.lt_of_lt_of_le (h.2.1.backpointer_lt h.1 hg ⟨hfirst, hlast⟩ hentry hb) hfirst

/-! ## What a reader keeps up -/

/-- A run whose end holds an entry, as a reader of its stream leaves it behind: the end is still
ahead of the reader, or it was found, nothing else of the run was, and the run is behind. -/
def LeavesBehind (token : Token) (last : Position) (entry : LogEntry) (cursor : Option Position)
    (found : List (Position × LogEntry)) : Prop :=
  (∃ c, cursor = some c ∧ last ≤ c) ∨
    (last, entry) ∈ found ∧ (∀ c, cursor = some c → c < token.first) ∧
      ∀ x ∈ found, token.first ≤ x.1 → x.1 ≤ last → x.1 = last

/-- The state of a reader that began in the scene `base`. -/
structure RunsFound (base : Scene) (stream : StreamId) (cursor : Option Position)
    (found : List (Position × LogEntry)) (s : Scene) : Prop extends Descends cursor found where
  grows : base.Grows s
  runs : ∀ {request token last entry}, base.Gave request token last → stream ∈ request.streams →
    base.Committed last (.entry entry) → LeavesBehind token last entry cursor found

namespace RunsFound

variable {cursor : Option Position} {found : List (Position × LogEntry)} {data : LogData}

lemma later (h : RunsFound base stream cursor found s) (hgrows : s.Grows s') :
    RunsFound base stream cursor found s' := { h with grows := h.grows.trans hgrows }

/-- A step over a position without an entry of the stream passes no end of a run. -/
lemma skip (h : RunsFound base stream (some p) found s) (hholds : runLaw.holds s)
    (hdata : s.Committed p data) (hnot : ∀ entry, data = .entry entry → stream ∉ entry.streams) :
    RunsFound base stream p.prev? found s where
  toDescends := h.toDescends.skip
  grows := h.grows
  runs := by
    intro request token last entry hg hstream hentry
    have hnow := h.grows.committed hentry
    have hgave : s.Gave request token last := ⟨h.grows.granted hg.1, hg.2⟩
    rcases h.runs hg hstream hentry with ⟨c, hc, hle⟩ | ⟨hmem, hahead, hsole⟩
    · obtain rfl := Option.some.inj hc
      have hne : last ≠ p := by
        rintro rfl
        exact hnot entry (hholds.1.committed_unique hdata hnow)
          (hholds.2.1.mem_streams hholds.1 hgave ⟨Token.first_le_last hg.2, Nat.le_refl _⟩ hstream
            hnow)
      exact .inl (Position.exists_prev?_of_lt
        (Nat.lt_of_le_of_ne hle fun heq => hne (Position.ext heq)))
    · refine .inr ⟨hmem, fun c hc => ?_, hsole⟩
      have hprev := Position.prev?_eq_some_iff.mp hc
      have hlt := Position.lt_def.mp (hahead p rfl)
      exact Position.lt_def.mpr (by omega)

/-- A step along a backpointer leaves the whole run behind. -/
lemma take (h : RunsFound base stream (some p) found s) (hholds : runLaw.holds s)
    (hentry : s.Committed p (.entry entry)) (hbelongs : stream ∈ entry.streams) :
    RunsFound base stream (entry.backpointer stream) ((p, entry) :: found) s where
  toDescends := h.toDescends.take fun _ => runLaw_trailing.backwards _ hholds hentry hbelongs
  grows := h.grows
  runs := by
    intro request token last entry' hg hstream hentry'
    have hnow := h.grows.committed hentry'
    have hgave : s.Gave request token last := ⟨h.grows.granted hg.1, hg.2⟩
    rcases h.runs hg hstream hentry' with ⟨c, hc, hle⟩ | ⟨hmem, hahead, hsole⟩
    · obtain rfl := Option.some.inj hc
      rcases Nat.eq_or_lt_of_le hle with heq | hlt
      · -- the end of the run is found
        obtain rfl := Position.ext heq
        obtain rfl := LogData.entry.inj (hholds.1.committed_unique hnow hentry)
        refine .inr ⟨List.mem_cons_self, fun b hb => ?_, fun x hx _ hxle => ?_⟩
        · exact hholds.2.1.backpointer_lt hholds.1 hgave
            ⟨Token.first_le_last hg.2, Nat.le_refl _⟩ hentry hb
        · rcases List.mem_cons.mp hx with rfl | hx
          · rfl
          · exact absurd hxle (Nat.not_le.mpr (h.ahead _ rfl x hx))
      · -- an entry behind the run points to the end of the run, or behind it
        exact .inl (hholds.2.1.last_le_backpointer hholds.1 hgave hstream hlt hentry hbelongs)
    · have hbefore := hahead p rfl
      refine .inr ⟨List.mem_cons_of_mem _ hmem, fun b hb => ?_, fun x hx hfirst hxle => ?_⟩
      · exact Nat.lt_trans (runLaw_trailing.backwards _ hholds hentry hbelongs hb) hbefore
      · rcases List.mem_cons.mp hx with rfl | hx
        · exact absurd hfirst (Nat.not_le.mpr hbefore)
        · exact hsole x hx hfirst hxle

/-- A reader that has come to the end has left every run behind. -/
lemma run (h : RunsFound base stream none found s) (hg : base.Gave request token last)
    (hstream : stream ∈ request.streams) (hentry : base.Committed last (.entry entry)) :
    (last, entry) ∈ found ∧ ∀ x ∈ found, token.first ≤ x.1 → x.1 ≤ last → x.1 = last := by
  rcases h.runs hg hstream hentry with ⟨c, hc, -⟩ | ⟨hmem, -, hsole⟩
  · cases hc
  · exact ⟨hmem, hsole⟩

end RunsFound

lemma trail_runs (base : Scene) (stream : StreamId) :
    Client.Trail runLaw stream (RunsFound base stream) where
  later h hlater _ := h.later hlater
  skip hholds h hdata hnot := h.skip hholds hdata hnot
  take hholds h hentry hbelongs := h.take hholds hentry hbelongs

/-! ## Reading a stream -/

/-- The tail that a query tells is behind the ends of all runs for the stream. -/
def CoversRuns (base : Scene) (stream : StreamId) (told : Token) : Prop :=
  ∀ p, (∃ request token, base.Gave request token p ∧ stream ∈ request.streams) →
    ∃ c, told.backpointer stream = some c ∧ p ≤ c

namespace Client

variable {c : Client}

lemma tails_coverRuns (hholds : runLaw.holds s) (hgrows : base.Grows s) :
    runLaw.Meets id (fun r _ => ∀ token, r = .ok token → CoversRuns base stream token)
      (c.tails (.ofList [stream])) s := by
  have hL := runLaw_permits.toAppending
  have hbehind : ∀ s₁ p, runLaw.later s s₁ → runLaw.holds s₁ →
      (∃ request token, base.Gave request token p ∧ stream ∈ request.streams) →
      ∃ sequencer tail, s₁.node.mailbox.sequencer = some sequencer ∧
        sequencer.streamTail stream = some tail ∧ p ≤ tail := by
    rintro s₁ p hlater hholds₁ ⟨request, token, hg, hstream⟩
    obtain ⟨q, hq, hledger⟩ := hholds₁.2.1.ledger
    obtain ⟨tail, htail, hle⟩ := hledger.last_le
      ⟨(hgrows.trans hlater).granted hg.1, hg.2⟩ hstream
    exact ⟨q, tail, hq, htail, hle⟩
  have hlasting : runLaw.Lasting fun (r : Except SequencerError Token) _ =>
      ∀ token, r = .ok token → CoversRuns base stream token := fun _ _ _ hr _ _ => hr
  refine (tails_meets hL hholds hlasting fun epoch s₁ hlater _ =>
    query_covers hL (fun s₂ p hlater₂ => hbehind s₂ p ?_) epoch).mono fun r s hr token htoken => ?_
  · exact runLaw.later_trans hlater hlater₂
  · exact hr token htoken token rfl

/-- A stream that is read ends up with the ends of its runs. -/
theorem readStream_runs (hholds : runLaw.holds s) (hgrows : base.Grows s) :
    runLaw.Meets id (fun r s => ∀ list, r = .ok list → RunsFound base stream none list s)
      (c.readStream s.node.chain stream) s := by
  refine readStream_meets runLaw_permits.toChainlike (trail_runs base stream) (.inl rfl) rfl
    (Chain.waits_of_rounds rfl) hholds (tails_coverRuns hholds hgrows) ?_ ?_ ?_
  · intro token s₁ hlater _ htoken
    refine ⟨⟨List.Pairwise.nil, fun c _ x hx => by cases hx⟩, hgrows.trans hlater, ?_⟩
    exact fun hg hstream _ => .inl (htoken token rfl _ ⟨_, _, hg, hstream⟩)
  · intro e s₁ _ list heq
    cases heq
  · rintro r s₁ hr list rfl
    exact hr

end Client

/-- What is known of a reading of a stream that began after a scene. -/
def readsRuns (base : Scene) (_ : Nat) : Outcome
  | .readStream _ stream => fun r s => ∀ list, r = .ok list → RunsFound base stream none list s
  | _ => fun _ _ => True

namespace World

variable {w : World} {moves : List Move} {client : Nat} {list : List (Position × LogEntry)}

/-- A stream that is read from now on ends up with the ends of its runs of now. -/
theorem Keeps.readStream_runs (h : w.Keeps runLaw Job.RunEnds) (hmoves : w.FillsRuns moves)
    (hid : w.nextId ≤ id)
    (hr : (w.play moves).Returned id (.readStream client stream) (.ok list)) :
    RunsFound w.scene stream none list (w.play moves).scene := by
  have hlasting : ∀ id job, runLaw.Lasting (readsRuns w.scene id job) := by
    intro id job
    cases job with
    | readStream client stream =>
      exact fun r s s' hr hlater _ list heq => (hr list heq).later hlater
    | _ => exact fun _ _ _ _ _ _ => trivial
  have hlawful : ∀ w' : World, runLaw.later w.scene w'.scene → runLaw.holds w'.scene →
      w.nextId ≤ w'.nextId →
      w'.Lawful runLaw (readsRuns w.scene) fun job => job.Filling w'.scene := by
    intro w' hw' hholds' _ id job s program hid hjob hlater hholds hprogram
    cases job with
    | readStream client stream =>
      obtain ⟨c, -, rfl⟩ := Option.map_eq_some_iff.mp hprogram
      exact Client.readStream_runs hholds (runLaw.later_trans hw' hlater)
    | _ =>
      refine (lawful_filling hholds'.2.1 id _ s program hid hjob hlater hholds hprogram).mono ?_
      exact fun _ _ _ => trivial
  exact h.returned_in runLaw_unconditional hlasting hlawful hmoves hid hr list rfl

/-- The position that an append has returned is a run of its own, with the append's entry. -/
lemma Keeps.run_of_append (h : w.Keeps runLaw Job.RunEnds) {streams : StreamSet}
    (hr : w.Returned id (.append client streams payload) (.ok p)) :
    ∃ request token entry, w.scene.Gave request token p ∧ request.streams = streams ∧
      w.scene.Committed p (.entry entry) ∧ entry.payload = payload := by
  obtain ⟨⟨epoch, token, hmem, rfl⟩, entry, happended⟩ := h.of_returned hr
  have hg : w.scene.Granted ⟨epoch, 1, streams⟩ token := ⟨⟨id, hmem⟩, by simp⟩
  obtain ⟨q, -, hledger⟩ := h.holds.2.1.ledger
  obtain ⟨last, hlast, -⟩ := hledger.ended hg
  have hfirst := (Token.first_eq_last_iff hlast).mpr (hledger.count hg)
  exact ⟨_, token, entry, ⟨hg, hfirst ▸ hlast⟩, rfl, happended.committed, happended.carries⟩

/-- When the end of a run was written to, a reader lists it, and nothing else of the run. -/
lemma Keeps.lists_end_of_run (h : w.Keeps runLaw Job.RunEnds)
    (hg : w.scene.Gave request token last)
    (hpositions : ∀ p, p ∈ token.positions ↔ token.first ≤ p ∧ p ≤ last)
    (hstream : stream ∈ request.streams)
    (hr : w.Returned id (.write last (.forToken token payload)) (.ok ()))
    (hfound : RunsFound w.scene stream none list s) :
    (last, .forToken token payload) ∈ list ∧
      (∀ p entry, (p, entry) ∈ list → p ∈ token.positions → p = last) ∧
      ((∀ p ∈ token.positions, ∃ entry, (p, entry) ∈ list) ↔ token.count = 1) := by
  have hfirst := Token.first_le_last hg.2
  obtain ⟨hlisted, hsole⟩ := hfound.run hg hstream (h.of_returned hr).1
  refine ⟨hlisted, fun p entry hp hrun => ?_, fun hall => ?_, fun hcount p hp => ?_⟩
  · obtain ⟨hle, hle'⟩ := (hpositions p).mp hrun
    exact hsole _ hp hle hle'
  · -- the first position is listed only if it is the last one
    obtain ⟨entry, hp⟩ := hall token.first ((hpositions _).mpr ⟨Nat.le_refl _, hfirst⟩)
    exact (Token.first_eq_last_iff hg.2).mp (hsole _ hp (Nat.le_refl _) hfirst)
  · have hsame := (Token.first_eq_last_iff hg.2).mpr hcount
    obtain ⟨hle, hle'⟩ := (hpositions p).mp hp
    obtain rfl : p = last := Position.ext (Nat.le_antisymm hle' (hsame ▸ hle))
    exact ⟨_, hlisted⟩

/-- A reading whose patience is bounded returns if it is served, also where runs are filled. -/
lemma Keeps.readStream_runs_returns (h : w.Keeps runLaw Job.RunEnds) {w₀ : World}
    (hclient : client < w.scene.node.clients.length) (hbounded : w.scene.node.chain.policy.Bounded)
    (hw₀ : w₀ = w.step (.start (.readStream client stream))) :
    ∃ least, ∀ schedule,
      (∀ n job, schedule n = .start job → job.Filling (w₀.after schedule n).scene) →
      Tends schedule w.nextId least →
      (∀ n, NoFailureOf w.nextId (w₀.after schedule n)) →
      (∀ n, (w₀.after schedule n).Runs w.nextId →
        ¬ (w₀.after schedule n).AppliesBootstrap (schedule n)) →
      ∃ n list, (w₀.after schedule n).Returned w.nextId (.readStream client stream)
        (.ok list) := by
  obtain ⟨looks, hlooks⟩ := hbounded.exists_givesUp
  refine ⟨max looks Position.bound, fun schedule hschedule htends hserved hnone => ?_⟩
  have hstart : w.FillsRuns [.start (.readStream client stream)] :=
    ⟨by rintro job ⟨⟩; trivial, trivial⟩
  have hkeeps₀ : w₀.Keeps runLaw Job.RunEnds := hw₀ ▸ (h.play_filling hstart).2
  refine World.readStream_returns runLaw_trailing hclient h.holds.2.2 ?_ (Nat.le_max_right ..) hw₀
    (fun n => ?_) htends hserved hnone
  · intro least hleast n hn
    obtain rfl := Option.some.inj hleast
    exact hlooks n (Nat.le_trans (Nat.le_max_left ..) hn)
  · rw [after_eq_play]
    exact (hkeeps₀.play_filling (startsIn_range hschedule n)).2.holds

end World

/-- Of a run that was filled, a reader of its streams lists the last entry, and no other one.

Take any interleaving of jobs that append, read and fill runs position by position, and a token for
a run of any length. When entries have been written with the token to all positions of the run, a
reading that is started then and returns, lists the last of them, at the end of the run. It lists
none of the others, so that it lists the run in full if and only if the run has one position. All
appends to the stream that had returned when the reading was started are listed with their payloads.
And a reading does return, if it has its turns, its patience is bounded, no unit fails it and no
bootstrap is applied until then. -/
theorem readStream_lists_end_of_run {names : List String} {policy : HoleFillPolicy}
    {sequencer : SequencerSettings} {management : BootstrapSettings} {node : Node}
    (h : Node.start names policy sequencer management = .ok node) (moves : List Move)
    (hmoves : (World.start node).FillsRuns moves) (w : World)
    (hw : w = (World.start node).play moves) (request : TokenRequest) (token : Token)
    (hgranted : w.scene.Granted request token) (stream : StreamId)
    (hstream : stream ∈ request.streams)
    (hwritten : ∀ p ∈ token.positions, ∃ id payload,
      w.Returned id (.write p (.forToken token payload)) (.ok ())) :
    (∃ last id payload, token.last? = some last ∧ last ∈ token.positions ∧
      w.Returned id (.write last (.forToken token payload)) (.ok ()) ∧
      ∀ more id' client list, w.FillsRuns more → w.nextId ≤ id' →
        (w.play more).Returned id' (.readStream client stream) (.ok list) →
        (last, .forToken token payload) ∈ list ∧
        (∀ p entry, (p, entry) ∈ list → p ∈ token.positions → p = last) ∧
        ((∀ p ∈ token.positions, ∃ entry, (p, entry) ∈ list) ↔ token.count = 1) ∧
        ∀ id client streams payload q,
          w.Returned id (.append client streams payload) (.ok q) → stream ∈ streams →
          ∃ entry, (q, entry) ∈ list ∧ entry.payload = payload) ∧
    ∀ client w₀, client < w.scene.node.clients.length → policy.Bounded →
      w₀ = w.step (.start (.readStream client stream)) →
      ∃ least, ∀ schedule,
        (∀ n job, schedule n = .start job → job.Filling (w₀.after schedule n).scene) →
        World.Tends schedule w.nextId least →
        (∀ n, World.NoFailureOf w.nextId (w₀.after schedule n)) →
        (∀ n, (w₀.after schedule n).Runs w.nextId →
          ¬ (w₀.after schedule n).AppliesBootstrap (schedule n)) →
        ∃ n list, (w₀.after schedule n).Returned w.nextId (.readStream client stream)
          (.ok list) := by
  have hkeeps : w.Keeps runLaw Job.RunEnds := hw ▸ World.keeps_runLaw h hmoves
  refine ⟨?_, fun client w₀ hclient hbounded hw₀ => ?_⟩
  · obtain ⟨last, hgave, hpositions⟩ := hkeeps.holds.2.1.exists_end hgranted
    have hend : last ∈ token.positions :=
      (hpositions last).mpr ⟨Token.first_le_last hgave.2, Nat.le_refl _⟩
    obtain ⟨id, payload, hr⟩ := hwritten last hend
    refine ⟨last, id, payload, hgave.2, hend, hr, fun more id' client list hmore hid hr' => ?_⟩
    have hfound := hkeeps.readStream_runs hmore hid hr'
    obtain ⟨hlisted, hsole, hfull⟩ := hkeeps.lists_end_of_run hgave hpositions hstream hr hfound
    refine ⟨hlisted, hsole, hfull, fun id client streams payload q hr hstream => ?_⟩
    obtain ⟨request, token, entry, hg, rfl, hentry, hpayload⟩ := hkeeps.run_of_append hr
    exact ⟨entry, (hfound.run hg hstream hentry).1, hpayload⟩
  · have hpolicy : w.scene.node.chain.policy = policy := hw ▸ World.policy_play h moves
    exact hkeeps.readStream_runs_returns hclient (hpolicy ▸ hbounded) hw₀

/-- After an append, of a run of two positions the second one is listed. -/
theorem readStream_lists_end_of_run_of_two : ∃ node,
    Node.start ["a", "b"] .immediate ⟨1, Epoch.zero, 5⟩ .default = .ok node ∧
    let stream : StreamId := ⟨7, by decide⟩
    let pos (n : Fin 20) : Position := ⟨n, Nat.lt_trans n.isLt (by decide)⟩
    let request : TokenRequest := ⟨Epoch.zero, 2, .ofList [stream]⟩
    let token : Token := ⟨Epoch.zero, pos 1, 2, .ofList [(stream, some (pos 0))]⟩
    let turns (id n : Nat) : List Move := List.replicate n (.advance id (.prompt 3))
    let append := .join Epoch.zero 3 :: .start (.append 0 (.ofList [stream]) [1]) :: turns 0 6
    let allocate := .start (.allocate request) :: turns 1 2
    let write := .start (.write (pos 1) (.forToken token [2])) :: turns 2 3
    let writeEnd := .start (.write (pos 2) (.forToken token [3])) :: turns 3 3
    let read := .start (.readStream 0 stream) :: turns 4 9
    let w₀ := World.start node
    let w := w₀.play (append ++ allocate ++ write ++ writeEnd)
    let list := [(pos 0, .forToken ⟨Epoch.zero, pos 0, 1, .ofList [(stream, none)]⟩ [1]),
      (pos 2, .forToken token [3])]
    w.scene.Granted request token ∧ token.positions = [pos 1, pos 2] ∧
      (w.play read).Returned 4 (.readStream 0 stream) (.ok list) ∧
      ¬ ∀ p ∈ token.positions, ∃ entry, (p, entry) ∈ list := by
  have h : Node.start ["a", "b"] .immediate ⟨1, Epoch.zero, 5⟩ .default = .ok _ := rfl
  refine ⟨_, h, ?_⟩
  intro stream pos request token turns append allocate write writeEnd read w₀ w list
  have hpositions : token.positions = [pos 1, pos 2] := by decide +kernel
  -- all moves but for the two writes append, read or go on
  have hquiet : ∀ {moves : List Move}, World.Starts moves Job.Appending →
      ∀ w : World, w.FillsRuns moves := fun hstarts _ =>
    hstarts.startsIn fun s _ hjob => Job.Appending.filling hjob s
  have hturns : ∀ w : World, ∀ id n, w.FillsRuns (turns id n) := fun w id n =>
    hquiet (by simp [turns, World.Starts]) w
  have hbegin : World.Starts (append ++ allocate) Job.Appending := by
    intro job hjob
    obtain rfl | rfl : job = .append 0 (.ofList [stream]) [1] ∨ job = .allocate request := by
      simpa [append, allocate, turns] using hjob
    all_goals trivial
  have hmoves : w₀.FillsRuns (append ++ allocate ++ write ++ writeEnd) := by
    refine World.startsIn_append.mpr ⟨World.startsIn_append.mpr ⟨hquiet hbegin _, ?_⟩, ?_⟩
    · refine ⟨?_, hturns _ 2 3⟩
      rintro job ⟨⟩
      exact ⟨request, token, [2], by decide +kernel, by decide +kernel, rfl⟩
    · refine ⟨?_, hturns _ 3 3⟩
      rintro job ⟨⟩
      exact ⟨request, token, [3], by decide +kernel, by decide +kernel, rfl⟩
  have hgranted : w.scene.Granted request token := by decide +kernel
  have hwritten : ∀ p ∈ token.positions, ∃ id payload,
      w.Returned id (.write p (.forToken token payload)) (.ok ()) := by
    rw [hpositions]
    intro p hp
    simp only [List.mem_cons, List.not_mem_nil, or_false] at hp
    rcases hp with rfl | rfl
    · exact ⟨2, [2], by decide +kernel⟩
    · exact ⟨3, [3], by decide +kernel⟩
  have hreturned : (w.play read).Returned 4 (.readStream 0 stream) (.ok list) := by decide +kernel
  obtain ⟨last, id, payload, -, -, -, hlists⟩ := (readStream_lists_end_of_run h _ hmoves w rfl
    request token hgranted stream (by decide +kernel) hwritten).1
  have hfull := (hlists read 4 0 list ⟨by rintro job ⟨⟩; trivial, hturns _ 4 9⟩
    (by decide +kernel) hreturned).2.2.1
  exact ⟨hgranted, hpositions, hreturned, fun hall => absurd (hfull.mp hall) (by decide)⟩

/-- Both positions of a run are written to, and a reader lists only the second one. -/
theorem readStream_passes_over_first_of_run : ∃ node,
    Node.start ["a"] .immediate ⟨10_000, Epoch.zero, 1_000_000⟩ .default = .ok node ∧
    let stream : StreamId := ⟨7, by decide⟩
    let pos (n : Fin 20) : Position := ⟨n, Nat.lt_trans n.isLt (by decide)⟩
    let request : TokenRequest := ⟨Epoch.zero, 2, .ofList [stream]⟩
    let token : Token := ⟨Epoch.zero, pos 0, 2, .ofList [(stream, none)]⟩
    let turns (id n : Nat) : List Move := List.replicate n (.advance id (.prompt 3))
    let w := (World.start node).play (.join Epoch.zero 3 ::
      .start (.allocate request) :: turns 0 2 ++
      .start (.write (pos 0) (.forToken token [0])) :: turns 1 2 ++
      .start (.write (pos 1) (.forToken token [1])) :: turns 2 2)
    w.Online ∧ w.Returned 0 (.allocate request) (.ok token) ∧
      token.positions = [pos 0, pos 1] ∧
      w.Returned 1 (.write (pos 0) (.forToken token [0])) (.ok ()) ∧
      w.Returned 2 (.write (pos 1) (.forToken token [1])) (.ok ()) ∧
      (w.play (.start (.readStream 0 stream) :: turns 3 7)).Returned 3 (.readStream 0 stream)
        (.ok [(pos 1, .forToken token [1])]) := by
  refine ⟨_, rfl, ?_⟩
  intro stream pos request token turns w
  refine ⟨?_, by decide +kernel, by decide +kernel, by decide +kernel, by decide +kernel,
    by decide +kernel⟩
  unfold World.Online
  decide +kernel

end SharedLog
