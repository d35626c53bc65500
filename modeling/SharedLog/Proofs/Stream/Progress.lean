/-
# Readings of streams come to an end

While no bootstrap is applied, the sequencer stays in one epoch. A client that asks for tails under
an older epoch is refused once and has learned the epoch then. The walk that follows has at most as
many steps as there are positions, since it always leads backwards. So a reading of a stream ends,
if the reader is patient for a bounded time only and meets no unit that is offline.
-/
import SharedLog.Proofs.Stream.Walk
import SharedLog.Proofs.World.Progress

namespace SharedLog

variable {s s' : Scene} {id least : Nat} {action : Action} {answer : action.Answer}

/-- A request to a unit was not served. -/
def Action.Failed : (action : Action) → action.Answer → Prop
  | .onUnit call, r => ∃ e, call.FailsWith r e
  | _, _ => False

/-! ## Steady scenes -/

namespace Scene

/-- The sequencer is still in the same epoch, and clients have forgotten none. -/
structure Steady (s s' : Scene) : Prop where
  grows : s.Grows s'
  learned : ∀ {client : Nat} {epoch : Epoch}, s.node.epochs[client]? = some epoch →
    ∃ epoch', s'.node.epochs[client]? = some epoch' ∧ epoch ≤ epoch'
  epoch : ∀ {q : Sequencer}, s.node.mailbox.sequencer = some q →
    ∃ q', s'.node.mailbox.sequencer = some q' ∧ q'.epoch = q.epoch

/-- A client has learned the sequencer's epoch. -/
def Knows (s : Scene) (client : Nat) : Prop :=
  ∃ q epoch, s.node.mailbox.sequencer = some q ∧ s.node.epochs[client]? = some epoch ∧
    q.epoch ≤ epoch

namespace Steady

lemma refl (s : Scene) : s.Steady s :=
  ⟨.refl s, fun h => ⟨_, h, Nat.le_refl _⟩, fun h => ⟨_, h, rfl⟩⟩

lemma trans {s'' : Scene} (h : s.Steady s') (h' : s'.Steady s'') : s.Steady s'' where
  grows := h.grows.trans h'.grows
  learned hepoch := by
    obtain ⟨epoch', hepoch', hle⟩ := h.learned hepoch
    obtain ⟨epoch'', hepoch'', hle'⟩ := h'.learned hepoch'
    exact ⟨epoch'', hepoch'', Nat.le_trans hle hle'⟩
  epoch hq := by
    obtain ⟨q', hq', heq⟩ := h.epoch hq
    obtain ⟨q'', hq'', heq'⟩ := h'.epoch hq'
    exact ⟨q'', hq'', heq'.trans heq⟩

lemma of_calm (h : s.Calm s') : s.Steady s' where
  grows := .of_calm h
  learned {client epoch} hepoch := by
    obtain ⟨more, hmore⟩ := h.epochs
    refine ⟨epoch, ?_, Nat.le_refl _⟩
    rw [← hmore, List.getElem?_append_left (List.getElem?_eq_some_iff.mp hepoch).1, hepoch]
  epoch hq := ⟨_, h.mailbox ▸ hq, rfl⟩

/-- Nothing but a bootstrap that is applied moves the sequencer to another epoch. -/
lemma of_acts (h : s.Acts id action answer s') (hnot : ∀ request,
    (⟨id, action, answer⟩ : Event) ≠ ⟨id, .bootstrap request, .ok .applied⟩) : s.Steady s' where
  grows := .of_acts h
  learned := h.epoch_le
  epoch {q} hq := by
    cases action with
    | allocate request =>
      obtain ⟨q', hq', hallocated⟩ := h.allocated hq
      exact ⟨q', hq', hallocated.frame.1⟩
    | bootstrap request =>
      obtain ⟨now, q', hq', hbootstrapped⟩ := h.bootstrapped hq
      refine ⟨q', hq', ?_⟩
      cases hbootstrapped with
      | stale | already | refused => rfl
      | applied hepoch hseed => exact absurd rfl (hnot request)
    | onUnit | knownEpoch | observeEpoch => exact ⟨q, h.mailbox rfl ▸ hq, rfl⟩

lemma knows (h : s.Steady s') {client : Nat} (hknows : s.Knows client) : s'.Knows client := by
  obtain ⟨q, epoch, hq, hepoch, hle⟩ := hknows
  obtain ⟨q', hq', heq⟩ := h.epoch hq
  obtain ⟨epoch', hepoch', hle'⟩ := h.learned hepoch
  exact ⟨q', epoch', hq', hepoch', heq ▸ Nat.le_trans hle hle'⟩

end Steady

end Scene

/-! ## The law -/

/-- A law while no bootstrap is applied and no unit fails. Loops go on for at least `least` rounds,
and nothing may be left unfinished. -/
def Law.steady (L : Law) (least : Nat) : Law where
  holds := L.holds
  later := Scene.Steady
  allows action s := L.allows action s ∧ ∀ request, action ≠ .bootstrap request
  heeds action answer := ¬ action.Failed answer
  rounds := some least
  later_refl := .refl
  later_trans := .trans
  act_keeps h hallows hacts := by
    refine ⟨.of_acts hacts fun request heq => ?_, (L.act_keeps h hallows.1 hacts).2⟩
    cases heq
    exact hallows.2 request rfl
  calm_keeps h hcalm := ⟨.of_calm hcalm, (L.calm_keeps h hcalm).2⟩

/-- A law under which readings of streams come to an end while nothing gets in their way: the
sequencer is running, and streams lead backwards. -/
structure Law.Trailing (L : Law) : Prop extends L.Clientlike where
  running : ∀ {s}, L.holds s → ∃ q, s.node.mailbox.sequencer = some q
  backwards : ∀ stream, Client.Backwards L stream

lemma streamLaw_trailing : streamLaw.Trailing where
  toClientlike := streamLaw_permits.toClientlike
  running h := by
    obtain ⟨q, hq, -⟩ := h.2.1.ledger
    exact ⟨q, hq⟩
  backwards _ _ _ _ _ h hentry hstream hq := h.2.1.backpointer_lt h.1 hentry hstream hq

variable {L : Law}

lemma Law.Trailing.steady_chainlike (hL : L.Trailing) (least : Nat) :
    (L.steady least).Chainlike where
  sound h := hL.sound h
  grows h := h.grows
  allows_peek i p h := ⟨hL.allows_peek i p h, by simp⟩
  allows_hole p h := ⟨hL.allows_hole p h, by simp⟩
  allows_copy h hslot := ⟨hL.allows_copy h hslot, by simp⟩

/-- While no unit fails, no operation on the chain fails. -/
lemma Law.steady_not_fails {e : ReplicationError} : ¬ (L.steady least).Fails id s e := by
  rintro ⟨call, answer, -, -, hfails, hheeds⟩
  exact hheeds ⟨e, hfails⟩

namespace Client

variable {c : Client} {streams : StreamSet}

/-- A client that knows the sequencer's epoch asks under this epoch. -/
lemma knownEpoch_steady (hL : L.Trailing) : (L.steady least).Meets id
    (fun epoch s' => s.Knows c.index →
      ∃ q, s'.node.mailbox.sequencer = some q ∧ q.epoch ≤ epoch) c.knownEpoch s := by
  refine Law.ask_intro fun s₁ hlater hholds => ⟨⟨hL.allows_knownEpoch _ hholds, by simp⟩, ?_⟩
  intro epoch s₂ hacts _ _ _ hknows
  obtain ⟨q, known, hq, hknown, hle⟩ := Scene.Steady.knows hlater hknows
  refine ⟨q, hacts.mailbox rfl ▸ hq, ?_⟩
  rw [hacts.knownEpoch, List.getD_eq_getElem?_getD, hknown]
  exact hle

/-- What a query can be answered with while no bootstrap is applied: the tails, or the epoch that
the client did not know. -/
def QueryEnds (known : Prop) : Except SequencerError Token → Scene → Prop
  | .ok _, _ => True
  | .error e, s => ¬ known ∧ ∃ q requested, s.node.mailbox.sequencer = some q ∧
      e = .staleEpoch requested q.epoch

lemma QueryEnds.lasting (known : Prop) : (L.steady least).Lasting (QueryEnds known) := by
  intro r s s' hr hlater _
  cases r with
  | ok token => trivial
  | error e =>
    obtain ⟨hknown, q, requested, hq, rfl⟩ := hr
    obtain ⟨q', hq', heq⟩ := Scene.Steady.epoch hlater hq
    exact ⟨hknown, q', requested, hq', by rw [heq]⟩

lemma query_steady (hL : L.Trailing) {epoch : Epoch} {known : Prop} (hknown : known →
    ∃ q, s.node.mailbox.sequencer = some q ∧ q.epoch ≤ epoch) :
    (L.steady least).ask id (.allocate (.query epoch streams)) (QueryEnds known) s := by
  refine Law.ask_intro fun s₁ hlater hholds => ⟨⟨hL.allows_allocate _ hholds, by simp⟩, ?_⟩
  intro r s₂ hacts _ _ _
  obtain ⟨q, hq⟩ := hL.running hholds
  obtain ⟨q', hq', hallocated⟩ := hacts.allocated hq
  cases hallocated with
  | queried => trivial
  | stale hstale =>
    -- had the client known the epoch, the query would not have been stale
    refine ⟨fun h => ?_, _, epoch, hq', rfl⟩
    obtain ⟨q₀, hq₀, hle⟩ := hknown h
    obtain ⟨q'', hq'', heq⟩ := Scene.Steady.epoch hlater hq₀
    obtain rfl := Option.some.inj (hq.symm.trans hq'')
    rw [heq] at hstale
    exact absurd hstale (Nat.not_lt.mpr hle)
  | tooMany h => exact absurd h (by simp [TokenRequest.query])
  | overflow hcount | granted _ hcount => exact absurd rfl hcount

/-- A client is told the tails, or it learns the epoch that it did not know. -/
lemma queryTails_steady (hL : L.Trailing) (hholds : (L.steady least).holds s)
    (hclient : ∃ epoch, s.node.epochs[c.index]? = some epoch) :
    (L.steady least).Meets id (fun r s' => (∃ token, r = .ok token) ∨
      (∃ requested current, r = .error (.sequencer (.staleEpoch requested current))) ∧
        ¬ s.Knows c.index ∧ s'.Knows c.index) (c.queryTails streams) s := by
  refine (knownEpoch_steady hL).bind hholds fun epoch s₁ hlater hholds₁ hknown => ?_
  -- the client has a place for the epoch that it learns
  have hlearn : ∀ epoch s₂, (L.steady least).later s₁ s₂ → (L.steady least).holds s₂ →
      (L.steady least).ask id (.observeEpoch c.index epoch) (fun _ s =>
        ∃ learned, s.node.epochs[c.index]? = some learned ∧ epoch ≤ learned) s₂ := by
    intro epoch s₂ hlater₂ _
    refine Law.ask_intro fun s₃ hlater₃ hholds₃ =>
      ⟨⟨hL.allows_observeEpoch _ _ hholds₃, by simp⟩, ?_⟩
    intro r s₄ hacts _ _ _
    obtain ⟨old, hold⟩ := hclient
    obtain ⟨old', hold', -⟩ := Scene.Steady.learned
      ((hlater.trans hlater₂).trans hlater₃) hold
    rw [hacts.observeEpoch, List.getElem?_modify, hold']
    refine ⟨max old' epoch, by simp, ?_⟩
    rw [Epoch.le_def, Epoch.val_max]
    omega
  refine (requestToken_meets hholds₁ (QueryEnds.lasting (s.Knows c.index)) (query_steady hL hknown)
    hlearn).mono ?_
  rintro r s₂ ⟨r', rfl, hr, hlearned⟩
  cases r' with
  | ok token => exact .inl ⟨token, rfl⟩
  | error e =>
    obtain ⟨hnot, q, requested, hq, rfl⟩ := hr
    obtain ⟨learned, hlearned, hle⟩ := hlearned q.epoch rfl
    exact .inr ⟨⟨requested, q.epoch, rfl⟩, hnot, q, learned, hq, hlearned, hle⟩

/-- A client is told the tails at the second asking at the latest. -/
lemma tails_steady (hL : L.Trailing) (hholds : (L.steady least).holds s)
    (hclient : ∃ epoch, s.node.epochs[c.index]? = some epoch) :
    (L.steady least).Meets id (fun r _ => ∃ token, r = .ok token) (c.tails streams) s := by
  refine (queryTails_steady hL hholds hclient).bind hholds fun r s₁ hlater hholds₁ hr => ?_
  obtain ⟨token, rfl⟩ | ⟨⟨requested, current, rfl⟩, -, hknows⟩ := hr
  · exact ⟨token, rfl⟩
  · -- the client has learned the epoch, and asks again
    obtain ⟨epoch, hepoch⟩ := hclient
    obtain ⟨epoch', hepoch', -⟩ := Scene.Steady.learned hlater hepoch
    refine (queryTails_steady hL hholds₁ ⟨epoch', hepoch'⟩).mono fun r s₂ hr => ?_
    exact hr.resolve_right fun h => h.2.1 hknows

/-- A reading of a stream ends well. -/
theorem readStream_steady (hL : L.Trailing) {stream : StreamId} (hholds : (L.steady least).holds s)
    (hclient : ∃ epoch, s.node.epochs[c.index]? = some epoch)
    (hwaits : s.node.chain.Waits (L.steady least)) (hleast : Position.bound ≤ least) :
    (L.steady least).Meets id (fun r _ => ∃ list, r = .ok list)
      (c.readStream s.node.chain stream) s := by
  have htrail : Trail (L.steady least) stream fun _ _ _ => True :=
    ⟨fun _ _ _ => trivial, fun _ _ _ _ => trivial, fun _ _ _ _ => trivial⟩
  have hback : Backwards (L.steady least) stream := hL.backwards stream
  refine readStream_meets (hL.steady_chainlike least) htrail (.inr ⟨hback, fun n hn => ?_⟩) rfl
    hwaits hholds (tails_steady hL hholds hclient) (fun _ _ _ _ _ => trivial) ?_ ?_
  · obtain rfl := Option.some.inj hn
    exact hleast
  · rintro e s₁ ⟨token, heq⟩
    cases heq
  · intro r s₁ hr
    cases r with
    | ok list => exact ⟨list, rfl⟩
    | error e =>
      obtain ⟨e', -, hfails⟩ := hr
      exact absurd hfails Law.steady_not_fails

/-! ## Reading alone -/

open NodeProgram in
lemma single_requestToken (request : TokenRequest) : Single (c.requestToken request) := by
  refine (single_act _).bind fun r => ?_
  split
  · exact (single_act _).bind fun _ => trivial
  · exact (single_act _).bind fun _ => trivial
  · trivial

open NodeProgram in
lemma single_tails : Single (c.tails streams) := by
  have hquery : Single (c.queryTails streams) :=
    (single_act _).bind fun epoch => single_requestToken _
  refine hquery.bind fun r => ?_
  split
  · exact hquery
  · trivial

open NodeProgram in
lemma single_walkBack {chain : Chain} {stream : StreamId} (n : Nat) (cursor : Option Position)
    (found : List (Position × LogEntry)) : Single (walkBack chain stream n cursor found) := by
  induction n generalizing cursor found with
  | zero => cases cursor <;> trivial
  | succ n ih =>
    cases cursor with
    | none => trivial
    | some p =>
      refine (single_onChain _).andThen fun data => ?_
      cases data with
      | hole => exact ih _ _
      | entry entry =>
        dsimp only
        split
        · exact ih _ _
        · exact ih _ _

lemma single_readStream {chain : Chain} {stream : StreamId} :
    NodeProgram.Single (c.readStream chain stream) :=
  single_tails.andThen fun _ n => single_walkBack n _ _

end Client

end SharedLog
