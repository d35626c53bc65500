/-
# Operations of clients

What every operation of a client ends with, whatever others do while it runs. An append that ends
well has written the entry of a token that it was given. A walk back along a stream keeps up
whatever is kept up by its two kinds of steps.

Each operation is treated once, for every law under which clients may go about their business.
-/
import SharedLog.Proofs.Chain.Operations
import SharedLog.Proofs.Sequencer.Steps

namespace SharedLog

variable {L : Law} {s s' : Scene} {id : Nat} {p : Position} {chain : Chain} {α : Type}

namespace Law

/-- A law under which clients may ask for tokens, learn epochs, write the entry of a token that was
given out, and copy what they have written to the head. -/
structure Appending (L : Law) : Prop extends L.Growing where
  allows_allocate : ∀ {s} (request), L.holds s → L.allows (.allocate request) s
  allows_knownEpoch : ∀ {s} (client), L.holds s → L.allows (.knownEpoch client) s
  allows_observeEpoch : ∀ {s} (client epoch), L.holds s → L.allows (.observeEpoch client epoch) s
  allows_append : ∀ {s id request token} (payload), L.holds s →
    ⟨id, .allocate request, .ok token⟩ ∈ s.trace → request.count ≠ 0 →
    L.allows (.onUnit (.write Chain.head token.first (.entry (.forToken token payload)))) s
  allows_carry : ∀ {s id i p v}, L.holds s → s.Accepted id p v → s.slot i p = some v →
    L.allows (.onUnit (.write (i + 1) p v)) s

/-- A law under which clients may append and everybody may decide positions. -/
structure Clientlike (L : Law) : Prop extends L.Chainlike, L.Appending where
  allows_carry := fun hholds _ hslot => allows_copy hholds hslot

/-- What an operation of a node ends with: with a good value, or since a unit is offline. -/
def EndsNode (L : Law) (id : Nat) (good : α → Scene → Prop) : Except ServerError α → Scene → Prop
  | .ok a, s => good a s
  | .error e, s => ∃ e', e = .replication e' ∧ L.Fails id s e'

lemma Growing.lasting_endsNode (hL : L.Growing) {good : α → Scene → Prop}
    (hgood : L.Lasting good) : L.Lasting (L.EndsNode id good) := by
  intro r s s' hr hlater hholds
  cases r with
  | ok a => exact hgood a s s' hr hlater hholds
  | error e =>
    obtain ⟨e', rfl, hfails⟩ := hr
    exact ⟨e', rfl, hL.fails hfails hlater⟩

lemma Meets.andThenEnds {β : Type} {good : α → Scene → Prop} {good' : β → Scene → Prop}
    {p : NodeOperation α} {f : α → NodeOperation β} (h : L.Meets id (L.EndsNode id good) p s)
    (hholds : L.holds s) (hok : ∀ a s₁, L.later s s₁ → L.holds s₁ → good a s₁ →
      L.Meets id (L.EndsNode id good') (f a) s₁) :
    L.Meets id (L.EndsNode id good') (p.andThen f) s :=
  h.andThen hholds hok fun _ _ _ _ he => he

lemma meets_onChain {post : Except ServerError α → Scene → Prop} {p : ChainOperation α} :
    L.Meets id post (.onChain p) s ↔
      L.ChainMeets id (fun r s => post (r.mapError ServerError.replication) s) p s := by
  rw [NodeProgram.onChain, Meets, Program.meets_mapError]
  exact meets_ofChain p

/-- Failures of units become failures of the node. -/
lemma Meets.mapReplication {good : α → Scene → Prop} {p : NodeProgram (Except ReplicationError α)}
    (h : L.Meets id (L.Ends id good) p s) :
    L.Meets id (L.EndsNode id good) (p.mapError ServerError.replication) s := by
  refine (Program.meets_mapError ..).mpr (h.mono fun r s hr => ?_)
  cases r with
  | ok a => exact hr
  | error e => exact ⟨e, rfl, hr⟩

lemma ChainMeets.onChain {good : α → Scene → Prop} {p : ChainOperation α}
    (h : L.ChainMeets id (L.Ends id good) p s) :
    L.Meets id (L.EndsNode id good) (.onChain p) s :=
  Meets.mapReplication ((meets_ofChain p).mpr h)

end Law

/-! ## Tokens -/

namespace LogEntry

variable {token : Token} {payload : List UInt8} {streams : StreamSet}

/-- The entry of a token belongs to the streams that the token was asked for. -/
lemma streams_forToken (h : ∀ t, t ∈ token.backpointers ↔ t ∈ streams) :
    (forToken token payload).streams = streams := by
  apply Std.ExtTreeSet.ext_mem
  intro t
  rw [← h t, forToken, Std.ExtTreeSet.mem_ofList]
  simp

end LogEntry

/-! ## Requests -/

namespace Client

variable {c : Client}

/-- What a sequencer's answer tells of its epoch. -/
def toldEpoch? : Except SequencerError Token → Option Epoch
  | .ok token => some token.epoch
  | .error (.staleEpoch _ current) => some current
  | .error _ => none

/-- A client learns the epoch that the sequencer's answer tells. -/
lemma requestToken_meets (hholds : L.holds s) {request : TokenRequest}
    {good : Except SequencerError Token → Scene → Prop} {learned : Epoch → Scene → Prop}
    (hgood : L.Lasting good) (hask : L.ask id (.allocate request) good s)
    (hlearn : ∀ epoch s₁, L.later s s₁ → L.holds s₁ →
      L.ask id (.observeEpoch c.index epoch) (fun _ => learned epoch) s₁) :
    L.Meets id (fun r s => ∃ r', r = r'.mapError ServerError.sequencer ∧ good r' s ∧
      ∀ epoch ∈ toldEpoch? r', learned epoch s) (c.requestToken request) s := by
  refine Law.Meets.bind (s := s) hask hholds fun r' s₁ hlater hholds₁ hr => ?_
  -- while the client learns an epoch, the answer stays good
  have hobserve : ∀ epoch, toldEpoch? r' = some epoch →
      L.Meets id (fun _ s => good r' s ∧ ∀ epoch ∈ toldEpoch? r', learned epoch s)
        (c.observeEpoch epoch) s₁ := by
    intro epoch htold
    have hkept := Law.ask_kept (hlearn epoch s₁ hlater hholds₁) (L.later_refl s₁)
    refine Law.ask_mono (fun _ s₂ ⟨hlearned, hlater₂, hholds₂⟩ => ?_) hkept
    refine ⟨hgood r' s₁ s₂ hr hlater₂ hholds₂, fun epoch' hepoch' => ?_⟩
    obtain rfl := Option.some.inj (htold.symm.trans hepoch')
    exact hlearned
  match r' with
  | .ok token => exact (hobserve _ rfl).bind hholds₁ fun _ s₂ _ _ h => ⟨_, rfl, h⟩
  | .error (.staleEpoch requested current) =>
    exact (hobserve _ rfl).bind hholds₁ fun _ s₂ _ _ h => ⟨_, rfl, h⟩
  | .error (.invalidArgument _) | .error (.tailOverflow ..) | .error (.serviceUnavailable _)
  | .error (.internal _) => exact ⟨_, rfl, hr, fun epoch hepoch => by cases hepoch⟩

/-- A token that a client ends up with was the sequencer's answer. -/
lemma request_meets (hL : L.Appending) (hholds : L.holds s) {request : TokenRequest}
    {good : Except SequencerError Token → Scene → Prop} (hgood : L.Lasting good)
    (hask : L.ask id (.allocate request) good s) :
    L.Meets id (fun r s => ∀ token, r = .ok token → good (.ok token) s)
      (c.requestToken request) s := by
  have hlearn : ∀ epoch s₁, L.later s s₁ → L.holds s₁ →
      L.ask id (.observeEpoch c.index epoch) (fun _ _ => True) s₁ := fun _ _ _ _ =>
    Law.ask_intro fun s₂ _ hholds₂ =>
      ⟨hL.allows_observeEpoch _ _ hholds₂, fun _ _ _ _ _ _ => trivial⟩
  refine (requestToken_meets hholds hgood hask hlearn).mono ?_
  rintro r s₁ ⟨r', rfl, hr, -⟩ token htoken
  cases r' with
  | ok token' =>
    cases htoken
    exact hr
  | error e => cases htoken

lemma knownEpoch_meets (hL : L.Appending) :
    L.Meets id (fun _ _ => True) c.knownEpoch s :=
  Law.ask_intro fun _ _ hholds => ⟨hL.allows_knownEpoch _ hholds, fun _ _ _ _ _ _ => trivial⟩

/-- The tails that a client is told are those that the sequencer answered a query with. -/
lemma tails_meets (hL : L.Appending) (hholds : L.holds s) {streams : StreamSet}
    {good : Except SequencerError Token → Scene → Prop} (hgood : L.Lasting good)
    (hask : ∀ epoch s₁, L.later s s₁ → L.holds s₁ →
      L.ask id (.allocate (.query epoch streams)) good s₁) :
    L.Meets id (fun r s => ∀ token, r = .ok token → good (.ok token) s) (c.tails streams) s := by
  have hquery : ∀ s₁, L.later s s₁ → L.holds s₁ →
      L.Meets id (fun r s => ∀ token, r = .ok token → good (.ok token) s)
        (c.queryTails streams) s₁ := by
    intro s₁ hlater hholds₁
    refine (knownEpoch_meets hL).bind hholds₁ fun epoch s₂ hlater₂ hholds₂ _ => ?_
    exact request_meets hL hholds₂ hgood (hask epoch s₂ (L.later_trans hlater hlater₂) hholds₂)
  refine (hquery s (L.later_refl s) hholds).bind hholds fun r s₁ hlater hholds₁ hr => ?_
  split
  · exact hquery s₁ hlater hholds₁
  · exact hr

/-- The answer to a request for positions is in the trace, and a token tells the tails of exactly
the streams that were asked for. -/
def Answered (id : Nat) (request : TokenRequest) : Except SequencerError Token → Scene → Prop
  | .ok token, s => ⟨id, .allocate request, .ok token⟩ ∈ s.trace ∧
      ∀ t, t ∈ token.backpointers ↔ t ∈ request.streams
  | .error _, _ => True

lemma Answered.lasting (hL : L.Growing) (request : TokenRequest) :
    L.Lasting (Answered id request) := by
  intro r s s' hr hlater _
  cases r with
  | ok token => exact ⟨(hL.grows hlater).trace.subset hr.1, hr.2⟩
  | error e => trivial

lemma allocate_meets (hL : L.Appending) (request : TokenRequest) :
    L.ask id (.allocate request) (Answered id request) s := by
  refine Law.ask_intro fun s₁ _ hholds => ⟨hL.allows_allocate request hholds, ?_⟩
  intro r s₂ hacts _ _ _
  cases r with
  | error e => trivial
  | ok token =>
    refine ⟨by simp [hacts.trace_eq], fun t => ?_⟩
    rcases hacts.allocate with ⟨-, heq, -⟩ | ⟨q, -, heq, -⟩
    · cases heq
    · rw [Sequencer.backpointers_allocate heq.symm]
      exact Sequencer.mem_tailsOf

/-! ## Appends -/

/-- What is known of an append that has returned a position: the entry there is its own, it belongs
to the streams of the append and points back along each of them, and all units hold it. -/
structure Appended (id : Nat) (streams : StreamSet) (payload : List UInt8) (p : Position)
    (entry : LogEntry) (s : Scene) : Prop where
  carries : entry.payload = payload
  belongs : entry.streams = streams
  pointsBack : ∀ t, t ∈ entry.backpointers ↔ t ∈ streams
  accepted : s.Accepted id p (.entry entry)
  committed : s.Committed p (.entry entry)

lemma Appended.later {streams : StreamSet} {payload : List UInt8} {entry : LogEntry}
    (h : Appended id streams payload p entry s) (hgrows : s.Grows s') :
    Appended id streams payload p entry s' :=
  { h with
    accepted := hgrows.accepted h.accepted
    committed := hgrows.committed h.committed }

/-- What an append ends with: its own entry at the position, or an error. -/
def AppendEnds (id : Nat) (streams : StreamSet) (payload : List UInt8) :
    Except ServerError Position → Scene → Prop
  | .ok p, s => ∃ entry, Appended id streams payload p entry s
  | .error _, _ => True

lemma AppendEnds.lasting (hL : L.Growing) (streams : StreamSet) (payload : List UInt8) :
    L.Lasting (AppendEnds id streams payload) := by
  intro r s s' hr hlater _
  cases r with
  | ok p =>
    obtain ⟨entry, h⟩ := hr
    exact ⟨entry, h.later (hL.grows hlater)⟩
  | error e => trivial

/-- An activity was given a token for one position, this one, and for some streams. -/
def Drew (id : Nat) (streams : StreamSet) (p : Position) (s : Scene) : Prop :=
  ∃ epoch token, ⟨id, .allocate ⟨epoch, 1, streams⟩, .ok token⟩ ∈ s.trace ∧ token.first = p

/-- What an append ends with, and where the position comes from: from a token of its own. -/
def AppendDraws (id : Nat) (streams : StreamSet) (payload : List UInt8) :
    Except ServerError Position → Scene → Prop
  | .ok p, s => Drew id streams p s ∧ ∃ entry, Appended id streams payload p entry s
  | .error _, _ => True

lemma AppendDraws.ends {streams : StreamSet} {payload : List UInt8}
    {r : Except ServerError Position} (h : AppendDraws id streams payload r s) :
    AppendEnds id streams payload r s := by
  cases r with
  | ok p => exact h.2
  | error e => trivial

lemma AppendDraws.lasting (hL : L.Growing) (streams : StreamSet) (payload : List UInt8) :
    L.Lasting (AppendDraws id streams payload) := by
  intro r s s' hr hlater hholds
  cases r with
  | ok p =>
    obtain ⟨⟨epoch, token, hmem, hfirst⟩, hends⟩ := hr
    exact ⟨⟨epoch, token, (hL.grows hlater).trace.subset hmem, hfirst⟩,
      AppendEnds.lasting hL streams payload (.ok p) s s' hends hlater hholds⟩
  | error e => trivial

variable {streams : StreamSet} {payload : List UInt8}

/-- What an attempt writes is the entry of the token that it was given just before. -/
lemma tryAppend_meets (hL : L.Appending) (hc : s.node.chain = chain) (hholds : L.holds s) :
    L.Meets id (AppendDraws id streams payload) (c.tryAppend chain streams payload) s := by
  refine (knownEpoch_meets hL).bind hholds fun epoch s₁ hlater hholds₁ _ => ?_
  have hc₁ := (hL.grows hlater).chain.trans hc
  have htoken : L.Meets id (fun r s => ∀ token, r = .ok token →
      Answered id ⟨epoch, 1, streams⟩ (.ok token) s) (c.requestToken ⟨epoch, 1, streams⟩) s₁ :=
    request_meets hL hholds₁ (Answered.lasting hL.toGrowing _) (allocate_meets hL _)
  refine htoken.andThen hholds₁ ?_ fun _ _ _ _ _ => trivial
  intro token s₂ hlater₂ hholds₂ htoken
  -- the token is in the trace, which allows its entry to be written
  obtain ⟨htrace, hkeys⟩ := htoken token rfl
  have hc₂ := (hL.grows hlater₂).chain.trans hc₁
  have hwrite : L.ChainMeets id (Chain.WriteEnds L id token.first (.forToken token payload))
      (chain.write token.first (.forToken token payload)) s₂ :=
    Chain.write_meets hL.toGrowing hc₂ hholds₂ (fun s₃ hlater₃ hholds₃ =>
      hL.allows_append payload hholds₃ ((hL.grows hlater₃).trace.subset htrace) (by simp))
      fun _ hholds₃ => hL.allows_carry hholds₃
  have hwritten : L.Meets id (fun r s => r = .ok () →
        s.Committed token.first (.entry (.forToken token payload)) ∧
        s.Accepted id token.first (.entry (.forToken token payload)))
      (.onChain (chain.write token.first (.forToken token payload))) s₂ := by
    refine Law.meets_onChain.mpr (hwrite.mono fun r s hr heq => ?_)
    cases r with
    | ok u => exact hr
    | error e => cases heq
  refine hwritten.andThen hholds₂ (fun _ s₃ hlater₃ _ hs₃ => ?_) fun _ _ _ _ _ => trivial
  obtain ⟨hcommitted, haccepted⟩ := hs₃ rfl
  have hbelongs : (LogEntry.forToken token payload).streams = streams :=
    LogEntry.streams_forToken hkeys
  have hdrew : Drew id streams token.first s₃ :=
    ⟨epoch, token, (hL.grows hlater₃).trace.subset htrace, rfl⟩
  exact ⟨hdrew, .forToken token payload, rfl, hbelongs, hkeys, haccepted, hcommitted⟩

lemma appendAttempts_meets (hL : L.Appending) (hc : s.node.chain = chain) (hholds : L.holds s)
    (more : Nat) :
    L.Meets id (AppendDraws id streams payload)
      (c.appendAttempts chain streams payload more) s := by
  induction more generalizing s with
  | zero => exact tryAppend_meets hL hc hholds
  | succ more ih =>
    refine (tryAppend_meets hL hc hholds).bind hholds fun r s₁ hlater hholds₁ hr => ?_
    cases r with
    | ok p => exact hr
    | error e =>
      dsimp only
      split
      · exact ih ((hL.grows hlater).chain.trans hc) hholds₁
      · trivial

/-- An append that returns a position has been given it by a token, and has committed its own entry
there. -/
theorem append_draws (hL : L.Appending) (hc : s.node.chain = chain) (hholds : L.holds s) :
    L.Meets id (AppendDraws id streams payload) (c.append chain streams payload) s :=
  appendAttempts_meets hL hc hholds _

/-- An append that returns a position has committed its own entry there. -/
theorem append_meets (hL : L.Appending) (hc : s.node.chain = chain) (hholds : L.holds s) :
    L.Meets id (AppendEnds id streams payload) (c.append chain streams payload) s :=
  (append_draws hL hc hholds).mono fun _ _ => AppendDraws.ends

/-! ## Reads -/

lemma read_meets (hL : L.Chainlike) (hc : s.node.chain = chain) (hholds : L.holds s)
    (hwaits : chain.Waits L) :
    L.Meets id (L.EndsNode id fun v s => s.Committed p v) (c.read chain p) s :=
  (Chain.read_meets (hL.filling _) hc hholds hwaits).onChain

variable {stream : StreamId} {trail : Option Position → List (Position × LogEntry) → Scene → Prop}

/-- What a walk back along a stream keeps up: something of the position that comes next and of the
entries found so far. -/
structure Trail (L : Law) (stream : StreamId)
    (trail : Option Position → List (Position × LogEntry) → Scene → Prop) : Prop where
  later : ∀ {cursor found s s'}, trail cursor found s → L.later s s' → L.holds s' →
    trail cursor found s'
  /-- A position without an entry of the stream is stepped over. -/
  skip : ∀ {p found s data}, L.holds s → trail (some p) found s → s.Committed p data →
    (∀ entry, data = .entry entry → stream ∉ entry.streams) → trail p.prev? found s
  /-- From an entry of the stream the way goes along its backpointer. -/
  take : ∀ {p found s entry}, L.holds s → trail (some p) found s → s.Committed p (.entry entry) →
    stream ∈ entry.streams → trail (entry.backpointer stream) ((p, entry) :: found) s

/-- All ways along a stream lead backwards. -/
def Backwards (L : Law) (stream : StreamId) : Prop :=
  ∀ {s p entry q}, L.holds s → s.Committed p (.entry entry) → stream ∈ entry.streams →
    entry.backpointer stream = some q → q < p

/-- A walk back ends with what it keeps up, if it has steps enough. -/
lemma walkBack_meets (hL : L.Chainlike) (htrail : Trail L stream trail) {n : Nat}
    {cursor : Option Position} {found : List (Position × LogEntry)}
    (hn : L.rounds = none ∨ Backwards L stream ∧ ∀ p, cursor = some p → p.val < n)
    (hc : s.node.chain = chain) (hwaits : chain.Waits L) (hholds : L.holds s)
    (hs : trail cursor found s) :
    L.Meets id (L.EndsNode id (trail none)) (walkBack chain stream n cursor found) s := by
  induction n generalizing cursor found s with
  | zero =>
    cases cursor with
    | none => exact hs
    | some p => exact hn.resolve_right fun h => absurd (h.2 p rfl) (Nat.not_lt_zero _)
  | succ n ih =>
    cases cursor with
    | none => exact hs
    | some p =>
      refine (Chain.read_meets (hL.filling _) hc hholds hwaits).onChain.andThenEnds hholds ?_
      intro data s₁ hlater hholds₁ hdata
      have hc₁ := (hL.grows hlater).chain.trans hc
      have hs₁ := htrail.later hs hlater hholds₁
      -- the step over a position without an entry of the stream
      have hskip : (∀ entry, data = .entry entry → stream ∉ entry.streams) →
          L.Meets id (L.EndsNode id (trail none)) (walkBack chain stream n p.prev? found) s₁ := by
        intro hnot
        refine ih (hn.imp_right fun h => ⟨h.1, fun q hq => ?_⟩) hc₁ hholds₁
          (htrail.skip hholds₁ hs₁ hdata hnot)
        have hp := h.2 p rfl
        have hprev := Position.prev?_eq_some_iff.mp hq
        omega
      cases data with
      | hole => exact hskip (by simp)
      | entry entry =>
        dsimp only
        split
        · rename_i hbelongs
          have hstream : stream ∈ entry.streams := by
            simpa [LogEntry.belongsTo] using hbelongs
          refine ih (hn.imp_right fun h => ⟨h.1, fun q hq => ?_⟩) hc₁ hholds₁
            (htrail.take hholds₁ hs₁ hdata hstream)
          have hp := h.2 p rfl
          have hback := Position.lt_def.mp (h.1 hholds₁ hdata hstream hq)
          omega
        · -- an entry of other streams only
          rename_i hbelongs
          refine hskip fun entry' heq => ?_
          obtain rfl := LogData.entry.inj heq
          simpa [LogEntry.belongsTo] using hbelongs

/-- A stream is read by a walk back from the tail that the sequencer told. -/
lemma readStream_meets (hL : L.Chainlike) (htrail : Trail L stream trail)
    {good : Except ServerError Token → Scene → Prop}
    {post : Except ServerError (List (Position × LogEntry)) → Scene → Prop}
    (hrounds : L.rounds = none ∨ Backwards L stream ∧ ∀ least ∈ L.rounds, Position.bound ≤ least)
    (hc : s.node.chain = chain) (hwaits : chain.Waits L) (hholds : L.holds s)
    (htails : L.Meets id good (c.tails (.ofList [stream])) s)
    (hbegin : ∀ token s₁, L.later s s₁ → L.holds s₁ → good (.ok token) s₁ →
      trail (token.backpointer stream) [] s₁)
    (herror : ∀ e s₁, good (.error e) s₁ → post (.error e) s₁)
    (hend : ∀ r s₁, L.EndsNode id (trail none) r s₁ → post r s₁) :
    L.Meets id post (c.readStream chain stream) s := by
  refine htails.andThen hholds ?_ fun e s₁ _ _ he => herror e s₁ he
  intro token s₁ hlater hholds₁ htoken n hn
  have hc₁ := (hL.grows hlater).chain.trans hc
  refine (walkBack_meets hL htrail ?_ hc₁ hwaits hholds₁
    (hbegin token s₁ hlater hholds₁ htoken)).mono hend
  -- a walk has fewer steps than there are positions
  cases hleast : L.rounds with
  | none => exact .inl rfl
  | some least =>
    rcases hrounds with hnone | ⟨hback, hbound⟩
    · rw [hnone] at hleast
      cases hleast
    · have hfar := hbound least hleast
      have hcut := hn least hleast
      exact .inr ⟨hback, fun p _ => Nat.lt_of_lt_of_le p.isLt (Nat.le_trans hfar hcut)⟩

end Client

end SharedLog
