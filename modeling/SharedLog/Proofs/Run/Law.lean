/-
# The law of runs

A token may be for a run of several positions. It tells one backpointer for each stream, however
long the run is, and the stream's tail moves to the run's last position at once. So with every
position of the run an entry may be written that points back before the whole run.

Without a full reset runs lie apart, and what is said in the law of streams of the beginnings of
runs holds of their ends as well: no run for a stream ends after the stream's tail, or between a
later token's backpointer and the token's own run.
-/
import SharedLog.Proofs.Run.Extent
import SharedLog.Proofs.Stream.Law

namespace SharedLog

variable {s s' : Scene} {id : Nat} {p last : Position} {stream : StreamId} {q q' : Sequencer}
  {request request' : TokenRequest} {token token' : Token} {entry : LogEntry}

namespace Scene

/-- Somebody was given a token for a run that ends with a position. -/
def Gave (s : Scene) (request : TokenRequest) (token : Token) (last : Position) : Prop :=
  s.Granted request token ∧ token.last? = some last

instance decidableGranted (s : Scene) (request : TokenRequest) (token : Token) :
    Decidable (s.Granted request token) :=
  decidable_of_iff ((s.trace.any fun
      | ⟨_, .allocate request', .ok token'⟩ => request' = request ∧ token' = token
      | _ => false) = true ∧ request.count ≠ 0) <| by
    refine and_congr_left fun _ => List.any_eq_true.trans ⟨?_, ?_⟩
    · rintro ⟨e, hmem, he⟩
      split at he
      · obtain ⟨rfl, rfl⟩ := of_decide_eq_true he
        exact ⟨_, hmem⟩
      · cases he
    · rintro ⟨id, hmem⟩
      exact ⟨_, hmem, by simp⟩

/-- What the sequencer's state tells of the runs that were given, from beginning to end. -/
structure RunLedger (s : Scene) (q : Sequencer) : Prop extends s.Ledger q where
  count : ∀ {request token}, s.Granted request token → token.count = request.count
  ended : ∀ {request token}, s.Granted request token →
    ∃ last, token.last? = some last ∧ last < q.globalTail
  /-- No run for a stream ends after the stream's tail. -/
  last_le : ∀ {request token last stream}, s.Gave request token last →
    stream ∈ request.streams → ∃ tail, q.streamTail stream = some tail ∧ last ≤ tail
  /-- A run that begins after another one begins behind its end. -/
  apart : ∀ {request request' token token' last}, s.Gave request token last →
    s.Granted request' token' → token.first ≤ token'.first → token' = token ∨ last < token'.first
  /-- No run for a stream ends between a token's backpointer and the token's own run. -/
  last_le_backpointer : ∀ {request request' token token' last stream}, s.Granted request token →
    s.Gave request' token' last → stream ∈ request.streams → stream ∈ request'.streams →
    last < token.first → ∃ b, token.backpointer stream = some b ∧ last ≤ b

namespace RunLedger

/-- The ledger is in order as long as no run has been given. -/
lemma of_not_granted (hnone : ∀ {request token}, ¬ s.Granted request token)
    (hbelow : q.TailsBelow) : s.RunLedger q where
  toLedger := .of_not_granted hnone hbelow
  count hg := absurd hg hnone
  ended hg := absurd hg hnone
  last_le hg := absurd hg.1 hnone
  apart hg := absurd hg.1 hnone
  last_le_backpointer hg := absurd hg hnone

/-- The ledger stays in order if no run is given and no tail goes back. -/
lemma raise (h : s.RunLedger q) (hgranted : ∀ {request token}, s'.Granted request token →
      s.Granted request token) (htails : q.TailsLe q') (hbelow : q'.TailsBelow) :
    s'.RunLedger q' where
  toLedger := h.toLedger.raise hgranted htails hbelow
  count hg := h.count (hgranted hg)
  ended hg := by
    obtain ⟨last, hlast, hlt⟩ := h.ended (hgranted hg)
    exact ⟨last, hlast, Nat.lt_of_lt_of_le hlt htails.globalTail⟩
  last_le hg hstream := by
    obtain ⟨tail, htail, hle⟩ := h.last_le ⟨hgranted hg.1, hg.2⟩ hstream
    obtain ⟨tail', htail', hle'⟩ := htails.streamTail _ tail htail
    exact ⟨tail', htail', Nat.le_trans hle hle'⟩
  apart hg hg' := h.apart ⟨hgranted hg.1, hg.2⟩ (hgranted hg')
  last_le_backpointer hg hg' := h.last_le_backpointer (hgranted hg) ⟨hgranted hg'.1, hg'.2⟩

/-- A run that is given lies behind all runs that were given before. -/
lemma grant (h : s.RunLedger q) {tail : Position}
    (hgranted : ∀ {r t}, s'.Granted r t →
      s.Granted r t ∨ r = request ∧ t = Ledger.runToken q request)
    (hcount : request.count ≠ 0) (htail : tail.val = q.globalTail.val + request.count.toNat)
    (hlast : tail.val = last.val + 1) : s'.RunLedger (q.grant request tail last) := by
  have hends : (Ledger.runToken q request).last? = some last :=
    Sequencer.last?_eq_some hcount htail hlast
  have hbehind : q.globalTail ≤ last := Token.first_le_last hends
  have hbefore : last < tail := Position.lt_def.mpr (by omega)
  constructor
  case toLedger => exact h.toLedger.grant hgranted hcount htail hlast
  case count =>
    intro r t hg
    rcases hgranted hg with hg | ⟨rfl, rfl⟩
    · exact h.count hg
    · rfl
  case ended =>
    intro r t hg
    rcases hgranted hg with hg | ⟨rfl, rfl⟩
    · obtain ⟨last', hlast', hlt⟩ := h.ended hg
      exact ⟨last', hlast', Nat.lt_trans hlt (Nat.lt_of_le_of_lt hbehind hbefore)⟩
    · exact ⟨last, hends, hbefore⟩
  case last_le =>
    rintro r t last' stream ⟨hg, hlast'⟩ hstream
    rw [Sequencer.streamTail_grant]
    rcases hgranted hg with hg | ⟨rfl, rfl⟩
    · split
      · -- the new run lies behind everything that was given before
        obtain ⟨_, heq, hlt⟩ := h.ended hg
        obtain rfl := Option.some.inj (hlast'.symm.trans heq)
        exact ⟨last, rfl, Nat.le_trans (Nat.le_of_lt hlt) hbehind⟩
      · exact h.last_le ⟨hg, hlast'⟩ hstream
    · obtain rfl := Option.some.inj (hlast'.symm.trans hends)
      rw [if_pos hstream]
      exact ⟨_, rfl, Nat.le_refl _⟩
  case apart =>
    rintro r r' t t' last' ⟨hg, hlast'⟩ hg' hle
    rcases hgranted hg with hg | ⟨rfl, rfl⟩
    · rcases hgranted hg' with hg' | ⟨rfl, rfl⟩
      · exact h.apart ⟨hg, hlast'⟩ hg' hle
      · obtain ⟨_, heq, hlt⟩ := h.ended hg
        obtain rfl := Option.some.inj (hlast'.symm.trans heq)
        exact .inr hlt
    · rcases hgranted hg' with hg' | ⟨rfl, rfl⟩
      · exact absurd hle (Nat.not_le.mpr (h.first_lt hg'))
      · exact .inl rfl
  case last_le_backpointer =>
    rintro r r' t t' last' stream hg ⟨hg', hlast'⟩ hstream hstream' hlt
    rcases hgranted hg' with hg' | ⟨rfl, rfl⟩
    · rcases hgranted hg with hg | ⟨rfl, rfl⟩
      · exact h.last_le_backpointer hg ⟨hg', hlast'⟩ hstream hstream' hlt
      · -- the backpointer of the new run is the stream's tail
        rw [Ledger.backpointer_runToken, if_pos hstream]
        exact h.last_le ⟨hg', hlast'⟩ hstream'
    · -- the new run is the last one
      obtain rfl := Option.some.inj (hlast'.symm.trans hends)
      have hfirst : t.first ≤ q.globalTail := by
        rcases hgranted hg with hg | ⟨rfl, rfl⟩
        · exact Nat.le_of_lt (h.first_lt hg)
        · exact Nat.le_refl _
      exact absurd hlt (Nat.not_lt.mpr (Nat.le_trans hfirst hbehind))

end RunLedger

/-! ## Entries of runs -/

/-- An entry at a position is that of a token for a run with the position. -/
def OfRun (s : Scene) (p : Position) (entry : LogEntry) : Prop :=
  ∃ request token payload last, s.Gave request token last ∧ token.first ≤ p ∧ p ≤ last ∧
    entry = .forToken token payload

/-- The sequencer serves with its ledger in order, and the head takes entries of runs only. -/
structure InRuns (s : Scene) : Prop where
  ledger : ∃ q, s.node.mailbox.sequencer = some q ∧ s.RunLedger q
  entry : ∀ p entry, s.slot Chain.head p = some (.entry entry) → s.OfRun p entry

/-- What may be done: entries of runs are written to the head, and the sequencer's tails are not
forgotten. -/
def WritesRuns (s : Scene) : Action → Prop
  | .onUnit (.write 0 p (.entry entry)) => s.OfRun p entry
  | .bootstrap request => request.fullReset = false
  | _ => True

lemma Grows.ofRun (h : s.Grows s') (hentry : s.OfRun p entry) : s'.OfRun p entry := by
  obtain ⟨request, token, payload, last, ⟨hg, hlast⟩, hrest⟩ := hentry
  exact ⟨request, token, payload, last, ⟨h.granted hg, hlast⟩, hrest⟩

namespace InRuns

variable {action : Action} {answer : action.Answer}

lemma of_acts (h : s.InRuns) (hallows : s.WritesRuns action)
    (hacts : s.Acts id action answer s') : s'.InRuns where
  ledger := by
    obtain ⟨q, hq, hledger⟩ := h.ledger
    obtain ⟨q', hq', hhands⟩ := Orderly.hands_of_acts hq (fun _ _ => hledger.tail_lt)
      (by rintro request rfl; exact hallows) hacts
    refine ⟨q', hq', ?_⟩
    cases hhands with
    | none hgranted htails hbelow => exact hledger.raise hgranted htails hbelow
    | run hgranted hcount hends hlast => exact hledger.grant hgranted hcount hends hlast
  entry := by
    refine hacts.forall_entry (fun p entry hentry => ?_) fun p entry heq _ => ?_
    · exact (Grows.of_acts hacts).ofRun (h.entry p entry hentry)
    · subst heq
      exact (Grows.of_acts hacts).ofRun hallows

lemma of_calm (h : s.InRuns) (hcalm : s.Calm s') : s'.InRuns where
  ledger := by
    have hgranted : ∀ {request token}, s'.Granted request token → s.Granted request token := by
      intro request token hg
      rwa [Granted, hcalm.trace] at hg
    obtain ⟨q, hq, hledger⟩ := h.ledger
    refine ⟨q, hcalm.mailbox ▸ hq, hledger.raise hgranted ?_ fun _ _ => hledger.tail_lt⟩
    exact ⟨Nat.le_refl _, fun _ tail htail => ⟨tail, htail, Nat.le_refl _⟩⟩
  entry p entry hentry := by
    rw [hcalm.slot] at hentry
    exact (Grows.of_calm hcalm).ofRun (h.entry p entry hentry)

/-- A token that was given lists its run, which has an end. -/
lemma exists_end (h : s.InRuns) (hg : s.Granted request token) : ∃ last,
    s.Gave request token last ∧ ∀ p, p ∈ token.positions ↔ token.first ≤ p ∧ p ≤ last := by
  obtain ⟨q, -, hledger⟩ := h.ledger
  obtain ⟨last, hlast, hlt⟩ := hledger.ended hg
  have hbound : last.val + 1 < Position.bound :=
    Nat.lt_of_le_of_lt (Position.lt_def.mp hlt) q.globalTail.isLt
  exact ⟨last, ⟨hg, hlast⟩, fun _ => Token.mem_positions_iff hlast hbound⟩

/-- Any position of a run may be written to with the run's token. -/
lemma ofRun_of_mem (h : s.InRuns) (hg : s.Granted request token) (hp : p ∈ token.positions)
    (payload : List UInt8) : s.OfRun p (.forToken token payload) := by
  obtain ⟨last, hgave, hpositions⟩ := h.exists_end hg
  obtain ⟨hfirst, hle⟩ := (hpositions p).mp hp
  exact ⟨request, token, payload, last, hgave, hfirst, hle, rfl⟩

end InRuns

end Scene

/-! ## The law -/

/-- Units are filled from the head on, and entries come with the runs of a sequencer that forgets no
tail. -/
def runLaw : Law where
  holds s := s.Sound ∧ s.InRuns ∧ s.Numbered
  later := Scene.Grows
  allows action s := s.Copies action ∧ s.WritesRuns action
  heeds _ _ := True
  rounds := none
  later_refl := Scene.Grows.refl
  later_trans := Scene.Grows.trans
  act_keeps h hallows hacts :=
    ⟨.of_acts hacts, h.1.of_acts hallows.1 hacts, h.2.1.of_acts hallows.2 hacts,
      h.2.2.of_acts hacts⟩
  calm_keeps h hcalm :=
    ⟨.of_calm hcalm, h.1.of_calm hcalm, h.2.1.of_calm hcalm, hcalm.numbered h.2.2⟩

lemma runLaw_unconditional : runLaw.Unconditional := ⟨fun _ _ => trivial, rfl⟩

lemma runLaw_permits : runLaw.Permits Job.Appending where
  sound h := h.1
  grows h := h
  allows_peek _ _ _ := ⟨trivial, trivial⟩
  allows_hole _ _ := ⟨trivial, trivial⟩
  allows_copy _ hslot := ⟨hslot, trivial⟩
  allows_allocate _ _ := ⟨trivial, trivial⟩
  allows_knownEpoch _ _ := ⟨trivial, trivial⟩
  allows_observeEpoch _ _ _ := ⟨trivial, trivial⟩
  allows_append payload h hmem hcount := by
    have hg : Scene.Granted _ _ _ := ⟨⟨_, hmem⟩, hcount⟩
    obtain ⟨q, -, hledger⟩ := h.2.1.ledger
    obtain ⟨last, hlast, -⟩ := hledger.ended hg
    exact ⟨trivial, _, _, payload, last, ⟨hg, hlast⟩, Nat.le_refl _, Token.first_le_last hlast, rfl⟩
  rounds := rfl
  write h _ := h.elim
  bootstrap h _ := ⟨trivial, h⟩
  layout h hreset _ := by
    refine ⟨trivial, Bool.eq_false_iff.mpr fun htrue => ?_⟩
    rw [Job.Appending, hreset htrue] at h
    cases h

/-- The jobs of a log whose runs are filled, position by position, besides appends and readers: an
entry is written for a token that was given, to a position of the token's run. -/
def Job.Filling (s : Scene) : Job → Prop
  | write p entry => ∃ request token payload,
      s.Granted request token ∧ p ∈ token.positions ∧ entry = .forToken token payload
  | job => job.Appending

lemma Job.Appending.filling {job : Job} (h : job.Appending) (s : Scene) : job.Filling s := by
  cases job with
  | write => exact h.elim
  | _ => exact h

/-- What is asked of the results of jobs where runs are filled: an append that ends well has written
to a position of its own token, and what is written is committed. -/
def Job.RunEnds (id : Nat) : Outcome
  | .append _ streams payload => Client.AppendDraws id streams payload
  | .write p entry => Chain.WriteEnds runLaw id p entry
  | _ => fun _ _ => True

lemma Job.lasting_runEnds (id : Nat) (job : Job) : runLaw.Lasting (Job.RunEnds id job) := by
  cases job with
  | append client streams payload =>
    exact Client.AppendDraws.lasting runLaw_permits.toGrowing streams payload
  | write p entry => exact Job.lasting_ends runLaw_permits.toChainlike id (.write p entry)
  | _ => exact fun _ _ _ _ _ _ => trivial

/-! ## Interleavings -/

variable {names : List String} {policy : HoleFillPolicy} {sequencer : SequencerSettings}
  {management : BootstrapSettings} {node : Node}

/-- A fresh node has given no token. -/
lemma Scene.inRuns_start (h : Node.start names policy sequencer management = .ok node) :
    (World.start node).scene.InRuns := by
  obtain ⟨q, hq, hledger⟩ := (orderly_start h).ledger
  have hnone : ∀ {request token}, ¬ (World.start node).scene.Granted request token := by
    rintro request token ⟨⟨id, hmem⟩, -⟩
    cases hmem
  refine ⟨⟨q, hq, RunLedger.of_not_granted hnone fun _ _ => hledger.tail_lt⟩,
    fun p entry hentry => ?_⟩
  rw [slot_start h] at hentry
  cases hentry

namespace World

variable {w : World} {moves : List Move}

/-- In some moves runs are filled, besides appends and readers, and no full reset is asked for. -/
abbrev FillsRuns (w : World) (moves : List Move) : Prop :=
  w.StartsIn (fun s job => job.Filling s) moves

/-- Jobs that fill runs keep the law when they are started now or later. -/
lemma lawful_filling (hinRuns : w.scene.InRuns) :
    w.Lawful runLaw Job.RunEnds fun job => job.Filling w.scene := by
  intro id job s program hid hjob hlater hholds hprogram
  have hL := runLaw_permits.toClientlike
  cases job with
  | write p entry =>
    obtain ⟨request, token, payload, hg, hp, rfl⟩ := hjob
    obtain rfl := Option.some.inj hprogram
    have hof := hinRuns.ofRun_of_mem hg hp payload
    refine (Law.meets_ofChain _).mpr (Chain.write_meets hL.toGrowing rfl hholds
      (fun s₁ hlater₁ _ => ⟨trivial, ?_⟩) fun _ hholds₁ _ => hL.allows_copy hholds₁)
    exact (Scene.Grows.trans hlater hlater₁).ofRun hof
  | append client streams payload =>
    obtain ⟨c, -, rfl⟩ := Option.map_eq_some_iff.mp hprogram
    exact Client.append_draws hL.toAppending rfl hholds
  | _ =>
    refine (lawful runLaw_permits w id _ s program hid hjob hlater hholds hprogram).mono ?_
    exact fun _ _ _ => trivial

/-- Interleavings in which runs are filled keep the law. -/
lemma Keeps.play_filling (h : w.Keeps runLaw Job.RunEnds) (hmoves : w.FillsRuns moves) :
    w.scene.Grows (w.play moves).scene ∧ (w.play moves).Keeps runLaw Job.RunEnds :=
  h.play_in runLaw_unconditional Job.lasting_runEnds
    (fun _ _ hholds _ => lawful_filling hholds.2.1) hmoves

/-- A node that was started keeps the law in every interleaving in which runs are filled. -/
theorem keeps_runLaw (h : Node.start names policy sequencer management = .ok node)
    (hmoves : (World.start node).FillsRuns moves) :
    ((World.start node).play moves).Keeps runLaw Job.RunEnds := by
  have hstart : (World.start node).Keeps runLaw Job.RunEnds :=
    ⟨⟨Scene.sound_start h, Scene.inRuns_start h, Scene.numbered_start h⟩,
      fun id a ha => by cases ha⟩
  exact (hstart.play_filling hmoves).2

end World

end SharedLog
