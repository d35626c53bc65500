/-
# The law of streams

Without a full reset the sequencer never hands out a position twice, and it remembers of each stream
a position that no run for the stream begins after. So the backpointer of a token leads before the
token's own run, but never before the beginning of an earlier run for the same stream. If entries
come from tokens only, then what holds of the tokens holds of the entries that the head takes.
-/
import SharedLog.Proofs.Node.Outcome
import SharedLog.Proofs.Sequencer.Tails

namespace SharedLog

variable {s s' : Scene} {id i j : Nat} {p b : Position} {stream : StreamId} {q q' : Sequencer}
  {request request' : TokenRequest} {token token' : Token}

namespace Scene

/-- Somebody was given a token for a run of positions. -/
def Granted (s : Scene) (request : TokenRequest) (token : Token) : Prop :=
  (∃ id, ⟨id, .allocate request, .ok token⟩ ∈ s.trace) ∧ request.count ≠ 0

/-- What the sequencer's state tells of the tokens for runs that were given. -/
structure Ledger (s : Scene) (q : Sequencer) : Prop where
  tail_lt : ∀ {stream tail}, q.streamTail stream = some tail → tail < q.globalTail
  first_lt : ∀ {request token}, s.Granted request token → token.first < q.globalTail
  /-- No run for a stream begins after the stream's tail. -/
  covered : ∀ {request token stream}, s.Granted request token → stream ∈ request.streams →
    ∃ tail, q.streamTail stream = some tail ∧ token.first ≤ tail
  mem_backpointers : ∀ {request token stream}, s.Granted request token →
    (stream ∈ token.backpointers ↔ stream ∈ request.streams)
  backpointer_lt : ∀ {request token stream b}, s.Granted request token →
    token.backpointer stream = some b → b < token.first
  /-- No run for a stream begins between a token's backpointer and the token's own run. -/
  le_backpointer : ∀ {request request' token token' stream}, s.Granted request token →
    s.Granted request' token' → stream ∈ request.streams → stream ∈ request'.streams →
    token'.first < token.first → ∃ b, token.backpointer stream = some b ∧ token'.first ≤ b

/-- An entry at a position is that of a token for a run that begins there. -/
def OfToken (s : Scene) (p : Position) (entry : LogEntry) : Prop :=
  ∃ request token payload, s.Granted request token ∧ token.first = p ∧
    entry = .forToken token payload

/-- The head holds entries of tokens only. -/
def Entered (s : Scene) : Prop :=
  ∀ p entry, s.slot Chain.head p = some (.entry entry) → s.OfToken p entry

/-- The sequencer serves with its ledger in order, and the head holds entries of tokens only. -/
structure Orderly (s : Scene) : Prop where
  ledger : ∃ q, s.node.mailbox.sequencer = some q ∧ s.Ledger q
  entered : s.Entered

/-- What may be done: entries of tokens are written to the head, and the sequencer's tails are not
forgotten. -/
def Appends (s : Scene) : Action → Prop
  | .onUnit (.write 0 p (.entry entry)) => s.OfToken p entry
  | .bootstrap request => request.fullReset = false
  | _ => True

/-- What may be written to an empty position of the head: an entry of a token. -/
def Enters (s : Scene) : Action → Prop
  | .onUnit (.write 0 p (.entry entry)) => s.slot Chain.head p = none → s.OfToken p entry
  | _ => True

lemma Grows.granted (h : s.Grows s') (hg : s.Granted request token) : s'.Granted request token := by
  obtain ⟨⟨id, hmem⟩, hcount⟩ := hg
  exact ⟨⟨id, h.trace.subset hmem⟩, hcount⟩

lemma Grows.ofToken (h : s.Grows s') {entry : LogEntry} (hentry : s.OfToken p entry) :
    s'.OfToken p entry := by
  obtain ⟨request, token, payload, hg, hrest⟩ := hentry
  exact ⟨request, token, payload, h.granted hg, hrest⟩

lemma Appends.enters {action : Action} (h : s.Appends action) : s.Enters action := by
  cases action with
  | onUnit call =>
    match call with
    | .write 0 p (.entry entry) => exact fun _ => h
    | .write 0 p .hole | .write (i + 1) p data | .peek i p => trivial
  | _ => trivial

/-- What holds of all entries of the head, and of those that are written there, goes on to hold. -/
lemma Acts.forall_entry {P : Position → LogEntry → Prop} {action : Action} {answer : action.Answer}
    (hacts : s.Acts id action answer s')
    (h : ∀ p entry, s.slot Chain.head p = some (.entry entry) → P p entry)
    (hwrite : ∀ p entry, action = .onUnit (.write Chain.head p (.entry entry)) →
      s.slot Chain.head p = none → P p entry) :
    ∀ p entry, s'.slot Chain.head p = some (.entry entry) → P p entry := by
  intro p entry hentry
  rcases hacts.slot Chain.head p with heq | ⟨hnone, d, hd, hevent⟩
  · exact h p entry (heq ▸ hentry)
  · obtain rfl := Option.some.inj (hd.symm.trans hentry)
    cases hevent
    exact hwrite p entry rfl hnone

/-- The head goes on to hold entries of tokens only. -/
lemma Entered.of_acts (h : s.Entered) {action : Action} {answer : action.Answer}
    (henters : s.Enters action) (hacts : s.Acts id action answer s') : s'.Entered := by
  refine hacts.forall_entry (fun p entry hentry => ?_) fun p entry heq hnone => ?_
  · exact (Grows.of_acts hacts).ofToken (h p entry hentry)
  · subst heq
    exact (Grows.of_acts hacts).ofToken (henters hnone)

lemma Entered.of_calm (h : s.Entered) (hcalm : s.Calm s') : s'.Entered := by
  intro p entry hentry
  rw [hcalm.slot] at hentry
  exact (Grows.of_calm hcalm).ofToken (h p entry hentry)

/-! ## The ledger stays in order -/

namespace Ledger

/-- The ledger is in order as long as no run has been given. -/
lemma of_not_granted (hnone : ∀ {request token}, ¬ s.Granted request token)
    (hbelow : q.TailsBelow) : s.Ledger q where
  tail_lt ht := hbelow _ _ ht
  first_lt hg := absurd hg hnone
  covered hg := absurd hg hnone
  mem_backpointers hg := absurd hg hnone
  backpointer_lt hg := absurd hg hnone
  le_backpointer hg := absurd hg hnone

/-- The ledger stays in order if no run is given and no tail goes back. -/
lemma raise (h : s.Ledger q) (hgranted : ∀ {request token}, s'.Granted request token →
      s.Granted request token) (htails : q.TailsLe q') (hbelow : q'.TailsBelow) :
    s'.Ledger q' where
  tail_lt := hbelow _ _
  first_lt hg := Nat.lt_of_lt_of_le (h.first_lt (hgranted hg)) htails.globalTail
  covered := by
    intro request token stream hg hstream
    obtain ⟨tail, htail, hle⟩ := h.covered (hgranted hg) hstream
    obtain ⟨tail', htail', hle'⟩ := htails.streamTail stream tail htail
    exact ⟨tail', htail', Nat.le_trans hle hle'⟩
  mem_backpointers hg := h.mem_backpointers (hgranted hg)
  backpointer_lt hg := h.backpointer_lt (hgranted hg)
  le_backpointer hg hg' := h.le_backpointer (hgranted hg) (hgranted hg')

/-- The ledger stays in order if no run is given and the tails stay where they are. -/
lemma keep (h : s.Ledger q) (hgranted : ∀ {request token}, s'.Granted request token →
      s.Granted request token) (hglobal : q'.globalTail = q.globalTail)
    (htails : q'.streamTails = q.streamTails) : s'.Ledger q' := by
  have htail : ∀ stream, q'.streamTail stream = q.streamTail stream := fun stream => by
    rw [Sequencer.streamTail, htails, Sequencer.streamTail]
  refine h.raise hgranted ⟨Nat.le_of_eq (congrArg _ hglobal.symm), fun stream tail ht => ?_⟩ ?_
  · exact ⟨tail, (htail stream).trans ht, Nat.le_refl _⟩
  · intro stream tail ht
    rw [hglobal]
    exact h.tail_lt ((htail stream).symm.trans ht)

/-- A run that was given for a stream begins no later than the stream's tail, which lies before the
global tail. -/
lemma tail_of_granted (h : s.Ledger q) (hg : s.Granted request token)
    (hstream : stream ∈ request.streams) :
    ∃ tail, q.streamTail stream = some tail ∧ token.first ≤ tail ∧ tail < q.globalTail := by
  obtain ⟨tail, htail, hle⟩ := h.covered hg hstream
  exact ⟨tail, htail, hle, h.tail_lt htail⟩

/-- The token of a run that the sequencer gives now. -/
def runToken (q : Sequencer) (request : TokenRequest) : Token :=
  ⟨q.epoch, q.globalTail, request.count, q.tailsOf request.streams⟩

lemma backpointer_runToken (q : Sequencer) (request : TokenRequest) (stream : StreamId) :
    (runToken q request).backpointer stream =
      if stream ∈ request.streams then q.streamTail stream else none := by
  rw [runToken, Token.backpointer, Sequencer.at?_tailsOf]

/-- No run for a stream begins between the backpointer of a token and the token's own run, if a run
is given now. -/
lemma le_backpointer_grant (h : s.Ledger q)
    (hgranted : ∀ {r t}, s'.Granted r t → s.Granted r t ∨ r = request ∧ t = runToken q request)
    {request₁ request₂ : TokenRequest} {token₁ token₂ : Token}
    (hg₁ : s'.Granted request₁ token₁) (hg₂ : s'.Granted request₂ token₂)
    (hstream₁ : stream ∈ request₁.streams) (hstream₂ : stream ∈ request₂.streams)
    (hlt : token₂.first < token₁.first) :
    ∃ b, token₁.backpointer stream = some b ∧ token₂.first ≤ b := by
  rcases hgranted hg₂ with hg₂ | ⟨rfl, rfl⟩
  · rcases hgranted hg₁ with hg₁ | ⟨rfl, rfl⟩
    · exact h.le_backpointer hg₁ hg₂ hstream₁ hstream₂ hlt
    · -- the backpointer of the new run is the stream's tail
      obtain ⟨b, hb, hle, -⟩ := h.tail_of_granted hg₂ hstream₂
      refine ⟨b, ?_, hle⟩
      rw [backpointer_runToken, if_pos hstream₁, hb]
  · -- the new run is the last one
    rcases hgranted hg₁ with hg₁ | ⟨rfl, rfl⟩
    · exact absurd hlt (Nat.not_lt.mpr (Nat.le_of_lt (h.first_lt hg₁)))
    · exact absurd hlt (Nat.lt_irrefl _)

/-- A run that is given begins after all runs that were given before. -/
lemma grant (h : s.Ledger q) {tail last : Position}
    (hgranted : ∀ {r t}, s'.Granted r t → s.Granted r t ∨ r = request ∧ t = runToken q request)
    (hcount : request.count ≠ 0) (htail : tail.val = q.globalTail.val + request.count.toNat)
    (hlast : tail.val = last.val + 1) : s'.Ledger (q.grant request tail last) := by
  have hpos : 0 < request.count.toNat := by
    refine Nat.pos_of_ne_zero fun h0 => hcount ?_
    exact UInt64.toNat_inj.mp h0
  have hglobal : q.globalTail < tail := Position.lt_def.mpr (by omega)
  have hbehind : q.globalTail ≤ last := Position.le_def.mpr (by omega)
  constructor
  case tail_lt =>
    intro stream b hb
    rw [Sequencer.streamTail_grant] at hb
    split at hb
    · -- the tail of a stream of the run is the run's last position
      obtain rfl := Option.some.inj hb
      exact Position.lt_def.mpr (Nat.lt_of_succ_le (Nat.le_of_eq hlast.symm))
    · exact Nat.lt_trans (h.tail_lt hb) hglobal
  case first_lt =>
    intro r t hg
    rcases hgranted hg with hg | ⟨rfl, rfl⟩
    · exact Nat.lt_trans (h.first_lt hg) hglobal
    · exact hglobal
  case covered =>
    intro r t stream hg hstream
    rw [Sequencer.streamTail_grant]
    rcases hgranted hg with hg | ⟨rfl, rfl⟩
    · obtain ⟨b, hb, hle, hlt⟩ := h.tail_of_granted hg hstream
      split
      · -- the new run lies behind everything that was given before
        exact ⟨last, rfl, Nat.le_trans hle (Nat.le_trans (Nat.le_of_lt hlt) hbehind)⟩
      · exact ⟨b, hb, hle⟩
    · rw [if_pos hstream]
      exact ⟨last, rfl, hbehind⟩
  case mem_backpointers =>
    intro r t stream hg
    rcases hgranted hg with hg | ⟨rfl, rfl⟩
    · exact h.mem_backpointers hg
    · exact Sequencer.mem_tailsOf
  case backpointer_lt =>
    intro r t stream b hg hb
    rcases hgranted hg with hg | ⟨rfl, rfl⟩
    · exact h.backpointer_lt hg hb
    · rw [backpointer_runToken] at hb
      split at hb
      · exact h.tail_lt hb
      · cases hb
  case le_backpointer => exact h.le_backpointer_grant hgranted

end Ledger

/-! ## The law is kept -/

/-- What an action that is no full reset leaves of the tokens and of the sequencer: no run is given
and no tail goes back, or one run is given. -/
inductive Hands (s s' : Scene) (q : Sequencer) : Sequencer → Prop
  | none {q' : Sequencer}
      (granted : ∀ {request token}, s'.Granted request token → s.Granted request token)
      (tails : q.TailsLe q') (below : q'.TailsBelow) : Hands s s' q q'
  | run {request : TokenRequest} {tail last : Position}
      (granted : ∀ {r t}, s'.Granted r t →
        s.Granted r t ∨ r = request ∧ t = Ledger.runToken q request)
      (count : request.count ≠ 0) (ends : tail.val = q.globalTail.val + request.count.toNat)
      (last_succ : tail.val = last.val + 1) : Hands s s' q (q.grant request tail last)

namespace Orderly

variable {action : Action} {answer : action.Answer}

/-- An action gives out at most one run, the one that it was answered with. -/
lemma granted_of_acts (hacts : s.Acts id action answer s') (hg : s'.Granted request token) :
    s.Granted request token ∨ request.count ≠ 0 ∧
      (⟨id, .allocate request, .ok token⟩ : Event) = ⟨id, action, answer⟩ := by
  obtain ⟨⟨id', hmem⟩, hcount⟩ := hg
  rw [hacts.trace_eq, List.mem_append, List.mem_singleton] at hmem
  rcases hmem with hmem | heq
  · exact .inl ⟨⟨id', hmem⟩, hcount⟩
  · refine .inr ⟨hcount, ?_⟩
    cases heq
    rfl

lemma hands_of_acts (hq : s.node.mailbox.sequencer = some q) (hbelow : q.TailsBelow)
    (hmerge : ∀ request, action = .bootstrap request → request.fullReset = false)
    (hacts : s.Acts id action answer s') :
    ∃ q', s'.node.mailbox.sequencer = some q' ∧ s.Hands s' q q' := by
  -- an action that gives no run
  have hnone : (∀ request token,
      (⟨id, .allocate request, .ok token⟩ : Event) ≠ ⟨id, action, answer⟩) →
      ∀ {request token}, s'.Granted request token → s.Granted request token :=
    fun hne _ _ hg => (granted_of_acts hacts hg).resolve_right fun h => hne _ _ h.2
  cases action with
  | allocate request =>
    obtain ⟨q', hq', hallocated⟩ := hacts.allocated hq
    have hserved := hallocated.served
    have hbelow' := hbelow.serve hserved
    refine ⟨q', hq', ?_⟩
    cases hallocated with
    | stale | tooMany | overflow =>
      exact .none (hnone (by simp)) (hserved.tailsLe hbelow (.inl rfl)) hbelow'
    | queried hepoch hcount =>
      -- a query is answered with a token, but not with a run
      refine .none (fun hg => (granted_of_acts hacts hg).resolve_right ?_)
        (hserved.tailsLe hbelow (.inl rfl)) hbelow'
      rintro ⟨hne, heq⟩
      cases heq
      exact hne hcount
    | granted hepoch hcount htail hlast =>
      refine .run (fun hg => (granted_of_acts hacts hg).imp_right ?_) hcount htail hlast
      rintro ⟨-, heq⟩
      cases heq
      exact ⟨rfl, rfl⟩
  | bootstrap request =>
    obtain ⟨now, q', hq', hbootstrapped⟩ := hacts.bootstrapped hq
    have hserved := hbootstrapped.served
    have hresets := Service.resets_bootstrap (hmerge request rfl) now answer
    exact ⟨q', hq', .none (hnone (by simp)) (hserved.tailsLe hbelow (.inl hresets))
      (hbelow.serve hserved)⟩
  | onUnit | knownEpoch | observeEpoch =>
    refine ⟨q, by rw [hacts.mailbox rfl, hq], .none (hnone (by simp)) ?_ hbelow⟩
    exact ⟨Nat.le_refl _, fun _ tail htail => ⟨tail, htail, Nat.le_refl _⟩⟩

lemma ledger_of_acts (h : s.Orderly)
    (hmerge : ∀ request, action = .bootstrap request → request.fullReset = false)
    (hacts : s.Acts id action answer s') :
    ∃ q, s'.node.mailbox.sequencer = some q ∧ s'.Ledger q := by
  obtain ⟨q, hq, hledger⟩ := h.ledger
  obtain ⟨q', hq', hhands⟩ := hands_of_acts hq (fun _ _ => hledger.tail_lt) hmerge hacts
  refine ⟨q', hq', ?_⟩
  cases hhands with
  | none hgranted htails hbelow => exact hledger.raise hgranted htails hbelow
  | run hgranted hcount hends hlast => exact hledger.grant hgranted hcount hends hlast

lemma of_acts (h : s.Orderly) (hallows : s.Appends action)
    (hacts : s.Acts id action answer s') : s'.Orderly where
  ledger := h.ledger_of_acts (by rintro request rfl; exact hallows) hacts
  entered := h.entered.of_acts hallows.enters hacts

lemma of_calm (h : s.Orderly) (hcalm : s.Calm s') : s'.Orderly := by
  have hgranted : ∀ {request token}, s'.Granted request token ↔ s.Granted request token := by
    intro request token
    rw [Granted, hcalm.trace, Granted]
  obtain ⟨q, hq, hledger⟩ := h.ledger
  exact ⟨⟨q, hcalm.mailbox ▸ hq, hledger.keep hgranted.mp rfl rfl⟩, h.entered.of_calm hcalm⟩

end Orderly

end Scene

/-! ## The law -/

/-- Units are filled from the head on, and entries come from tokens of a sequencer that forgets no
tail. -/
def streamLaw : Law where
  holds s := s.Sound ∧ s.Orderly ∧ s.Numbered
  later := Scene.Grows
  allows action s := s.Copies action ∧ s.Appends action
  heeds _ _ := True
  rounds := none
  later_refl := Scene.Grows.refl
  later_trans := Scene.Grows.trans
  act_keeps h hallows hacts :=
    ⟨.of_acts hacts, h.1.of_acts hallows.1 hacts, h.2.1.of_acts hallows.2 hacts,
      h.2.2.of_acts hacts⟩
  calm_keeps h hcalm :=
    ⟨.of_calm hcalm, h.1.of_calm hcalm, h.2.1.of_calm hcalm, hcalm.numbered h.2.2⟩

lemma streamLaw_unconditional : streamLaw.Unconditional := ⟨fun _ _ => trivial, rfl⟩

/-- The jobs of a log that is filled by appends and by readers, with a sequencer that is never told
to forget its tails. -/
def Job.Appending : Job → Prop
  | write .. => False
  | bootstrap request => request.fullReset = false
  | layout change => change.fullReset = false
  | _ => True

lemma streamLaw_permits : streamLaw.Permits Job.Appending where
  sound h := h.1
  grows h := h
  allows_peek _ _ _ := ⟨trivial, trivial⟩
  allows_hole _ _ := ⟨trivial, trivial⟩
  allows_copy _ hslot := ⟨hslot, trivial⟩
  allows_allocate _ _ := ⟨trivial, trivial⟩
  allows_knownEpoch _ _ := ⟨trivial, trivial⟩
  allows_observeEpoch _ _ _ := ⟨trivial, trivial⟩
  allows_append payload _ hmem hcount := ⟨trivial, _, _, payload, ⟨⟨_, hmem⟩, hcount⟩, rfl, rfl⟩
  rounds := rfl
  write h _ := h.elim
  bootstrap h _ := ⟨trivial, h⟩
  layout h hreset _ := by
    refine ⟨trivial, Bool.eq_false_iff.mpr fun htrue => ?_⟩
    rw [Job.Appending, hreset htrue] at h
    cases h

/-! ## The beginning -/

variable {names : List String} {policy : HoleFillPolicy} {sequencer : SequencerSettings}
  {management : BootstrapSettings} {node : Node}

/-- A fresh node has given no token. -/
lemma Scene.orderly_start (h : Node.start names policy sequencer management = .ok node) :
    (World.start node).scene.Orderly := by
  obtain ⟨-, -, -, hq, -⟩ := Node.start_eq_ok h
  have hnone : ∀ {request token}, ¬ (World.start node).scene.Granted request token := by
    rintro request token ⟨⟨id, hmem⟩, -⟩
    cases hmem
  refine ⟨⟨_, hq, Ledger.of_not_granted hnone ?_⟩, fun p entry hentry => ?_⟩
  · intro stream tail htail
    simp [Sequencer.streamTail, Sequencer.new] at htail
  · rw [slot_start h] at hentry
    cases hentry

namespace World

variable {w : World} {m : Move} {moves : List Move}

/-- A job that appends or reads keeps the law of streams. -/
lemma Keeps.step_appending (h : w.Keeps streamLaw (Job.Ends streamLaw))
    (hm : ∀ job, m = .start job → job.Appending) :
    w.scene.Grows (w.step m).scene ∧ (w.step m).Keeps streamLaw (Job.Ends streamLaw) :=
  h.step streamLaw_unconditional (Job.lasting_ends streamLaw_permits.toChainlike)
    (lawful streamLaw_permits _) hm

/-- A node that was started keeps the law of streams in every interleaving of jobs that append and
read. -/
theorem keeps_streamLaw (h : Node.start names policy sequencer management = .ok node)
    (hmoves : Starts moves Job.Appending) :
    ((World.start node).play moves).Keeps streamLaw (Job.Ends streamLaw) := by
  have hstart : (World.start node).Keeps streamLaw (Job.Ends streamLaw) :=
    ⟨⟨Scene.sound_start h, Scene.orderly_start h, Scene.numbered_start h⟩,
      fun id a ha => by cases ha⟩
  exact (hstart.play streamLaw_unconditional (Job.lasting_ends streamLaw_permits.toChainlike)
    (lawful streamLaw_permits _) hmoves).2

end World

end SharedLog
