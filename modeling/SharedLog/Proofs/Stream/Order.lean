/-
# The order of the log is the order of time

An append that was started after another one had returned gets a later position, as long as no full
reset takes the sequencer's global tail back. What decides is the moment at which the sequencer gave
the token that an append came to write with. A token that was given begins before the global tail
from then on (`Scene.Passed`), while the token of a later append begins at the global tail of a
later moment, however many tokens either of them has used up.

Readers of a stream list its entries by position. For this it is enough that entries come from
tokens: whatever bootstraps are applied, a sequencer's tails lie before its global tail, so that
every token points back before its own run.
-/
import SharedLog.Proofs.Client.Durability
import SharedLog.Proofs.Sequencer.Tails
import SharedLog.Proofs.Stream.Walk
import SharedLog.Proofs.Succession.Handover

namespace SharedLog

variable {s s' : Scene} {id id' client client' : Nat} {p q : Position} {stream : StreamId}
  {streams streams' : StreamSet} {payload payload' : List UInt8} {action : Action}
  {answer : action.Answer} {w : World} {m : Move} {moves more : List Move}

/-! ## Entries that point back -/

namespace Scene

/-- What an action leaves of a running sequencer: it is as it was, or it has served a command. -/
lemma Acts.served (h : s.Acts id action answer s') {q' : Sequencer}
    (hq' : s'.node.mailbox.sequencer = some q') :
    ∃ q, s.node.mailbox.sequencer = some q ∧ (q' = q ∨ ∃ command, q' = (q.serve command).2) := by
  cases action with
  | allocate request =>
    rcases h.allocate with ⟨-, -, hstopped⟩ | ⟨q, hq, -, hserved⟩
    · rw [hstopped] at hq'
      cases hq'
    · exact ⟨q, hq, .inr ⟨.allocate request, Option.some.inj (hq'.symm.trans hserved)⟩⟩
  | bootstrap request =>
    rcases h.bootstrap with ⟨-, -, hstopped⟩ | ⟨q, now, hq, -, hserved⟩
    · rw [hstopped] at hq'
      cases hq'
    · exact ⟨q, hq, .inr ⟨.bootstrap request now, Option.some.inj (hq'.symm.trans hserved)⟩⟩
  | onUnit | knownEpoch | observeEpoch => exact ⟨q', by rw [← hq', h.mailbox rfl], .inl rfl⟩

/-- A token that is given tells where the sequencer is. -/
lemma Acts.token {request : TokenRequest} {token : Token}
    (h : s.Acts id (.allocate request) (.ok token) s') :
    ∃ q, s.node.mailbox.sequencer = some q ∧ (q.allocate request).1 = .ok token ∧
      s'.node.mailbox.sequencer = some (q.allocate request).2 := by
  rcases h.allocate with ⟨-, heq, -⟩ | ⟨q, hq, heq, hserved⟩
  · cases heq
  · exact ⟨q, hq, heq.symm, hserved⟩

/-- The sequencer's tails lie before its global tail, and tokens point back. -/
structure Receding (s : Scene) : Prop where
  tailsBelow : ∀ q, s.node.mailbox.sequencer = some q → q.TailsBelow
  backpointer_lt : ∀ {request token stream b}, s.Granted request token →
    token.backpointer stream = some b → b < token.first

lemma Receding.of_acts (h : s.Receding) (hacts : s.Acts id action answer s') : s'.Receding where
  tailsBelow := by
    intro q' hq'
    obtain ⟨q, hq, rfl | ⟨command, rfl⟩⟩ := hacts.served hq'
    · exact h.tailsBelow _ hq
    · exact (h.tailsBelow q hq).serve (Sequencer.served_serve q command)
  backpointer_lt := by
    intro request token stream b hg hb
    rcases Orderly.granted_of_acts hacts hg with hold | ⟨-, heq⟩
    · exact h.backpointer_lt hold hb
    · -- the token was given just now, and its backpointers are the sequencer's tails
      cases heq
      obtain ⟨q, hq, htoken, -⟩ := hacts.token
      rw [Sequencer.backpointer_of_allocate htoken] at hb
      rw [(Sequencer.token_of_allocate htoken).2]
      split at hb
      · exact h.tailsBelow q hq stream b hb
      · cases hb

lemma Receding.of_calm (h : s.Receding) (hcalm : s.Calm s') : s'.Receding where
  tailsBelow q hq := h.tailsBelow q (hcalm.mailbox ▸ hq)
  backpointer_lt hg := h.backpointer_lt (by rwa [Granted, ← hcalm.trace])

/-- A committed entry of a token points back. -/
lemma Receding.entry_backpointer_lt (h : s.Receding) (hsound : s.Sound) (hentered : s.Entered)
    {entry : LogEntry} (hentry : s.Committed p (.entry entry))
    (hback : entry.backpointer stream = some q) : q < p := by
  obtain ⟨request, token, payload, hg, rfl, rfl⟩ :=
    hentered p entry (hsound.head_of_committed hentry)
  exact h.backpointer_lt hg hback

end Scene

/-- Units are filled from the head on, with entries of tokens, whatever the sequencer is told. -/
def entryLaw : Law where
  holds s := s.Sound ∧ s.Entered ∧ s.Receding
  later := Scene.Grows
  allows action s := s.Copies action ∧ s.Enters action
  heeds _ _ := True
  rounds := none
  later_refl := Scene.Grows.refl
  later_trans := Scene.Grows.trans
  act_keeps h hallows hacts :=
    ⟨.of_acts hacts, h.1.of_acts hallows.1 hacts, h.2.1.of_acts hallows.2 hacts,
      h.2.2.of_acts hacts⟩
  calm_keeps h hcalm :=
    ⟨.of_calm hcalm, h.1.of_calm hcalm, h.2.1.of_calm hcalm, h.2.2.of_calm hcalm⟩

lemma entryLaw_unconditional : entryLaw.Unconditional := ⟨fun _ _ => trivial, rfl⟩

/-- The jobs that write no entry but that of a token. -/
def Job.ByToken : Job → Prop
  | write .. => False
  | _ => True

lemma entryLaw_permits : entryLaw.Permits Job.ByToken where
  sound h := h.1
  grows h := h
  allows_peek _ _ _ := ⟨trivial, trivial⟩
  allows_hole _ _ := ⟨trivial, trivial⟩
  allows_copy _ hslot := ⟨hslot, trivial⟩
  allows_allocate _ _ := ⟨trivial, trivial⟩
  allows_knownEpoch _ _ := ⟨trivial, trivial⟩
  allows_observeEpoch _ _ _ := ⟨trivial, trivial⟩
  allows_append payload _ hmem hcount :=
    ⟨trivial, fun _ => ⟨_, _, payload, ⟨⟨_, hmem⟩, hcount⟩, rfl, rfl⟩⟩
  rounds := rfl
  write h _ := h.elim
  bootstrap _ _ := ⟨trivial, trivial⟩
  layout _ _ _ := ⟨trivial, trivial⟩

lemma trail_descends (stream : StreamId) :
    Client.Trail entryLaw stream fun cursor found _ => Descends cursor found where
  later h _ _ := h
  skip _ h _ _ := h.skip
  take hholds h hentry _ :=
    h.take fun _ => hholds.2.2.entry_backpointer_lt hholds.1 hholds.2.1 hentry

/-- What an append returns is a position of its own token, and what a reader of a stream lists is in
the order of positions. -/
def Job.InOrder (id : Nat) : Outcome
  | .append _ streams payload => Client.AppendDraws id streams payload
  | .readStream .. => fun r _ => ∀ list, r = .ok list → list.Pairwise fun x y => x.1 < y.1
  | _ => fun _ _ => True

lemma Job.lasting_inOrder (id : Nat) (job : Job) : entryLaw.Lasting (Job.InOrder id job) := by
  cases job with
  | append client streams payload =>
    exact Client.AppendDraws.lasting entryLaw_permits.toGrowing streams payload
  | _ => exact fun _ _ _ h _ _ => h

namespace World

lemma lawful_inOrder (w : World) : w.Lawful entryLaw Job.InOrder Job.ByToken := by
  intro id job s program hid hjob hlater hholds hprogram
  have hL := entryLaw_permits.toClientlike
  cases job with
  | append client streams payload =>
    obtain ⟨c, -, rfl⟩ := Option.map_eq_some_iff.mp hprogram
    exact Client.append_draws hL.toAppending rfl hholds
  | readStream client stream =>
    obtain ⟨c, -, rfl⟩ := Option.map_eq_some_iff.mp hprogram
    have htails : entryLaw.Meets id (fun _ _ => True) (c.tails (.ofList [stream])) s :=
      (Client.tails_meets hL.toAppending hholds (fun _ _ _ _ _ _ => trivial) fun _ _ _ _ =>
        Law.ask_intro fun _ _ _ => ⟨⟨trivial, trivial⟩, fun _ _ _ _ _ _ => trivial⟩).mono
          fun _ _ _ => trivial
    refine Client.readStream_meets hL.toChainlike (trail_descends stream) (.inl rfl) rfl
      (Chain.waits_of_rounds rfl) hholds htails ?_ ?_ ?_
    · exact fun token s₁ _ _ _ => ⟨List.Pairwise.nil, by simp⟩
    · intro e s₁ _ list heq
      cases heq
    · rintro r s₁ hr list rfl
      exact hr.sorted
  | _ =>
    refine (lawful entryLaw_permits w id _ s program hid hjob hlater hholds hprogram).mono ?_
    exact fun _ _ _ => trivial

variable {names : List String} {policy : HoleFillPolicy} {sequencer : SequencerSettings}
  {management : BootstrapSettings} {node : Node}

/-- A node that was started is filled with entries of tokens only, as long as nobody writes past the
sequencer. -/
theorem keeps_entryLaw (h : Node.start names policy sequencer management = .ok node)
    (hmoves : Starts moves Job.ByToken) :
    ((World.start node).play moves).Keeps entryLaw Job.InOrder := by
  have horderly := Scene.orderly_start h
  have hreceding : (World.start node).scene.Receding := by
    obtain ⟨q, hq, hledger⟩ := horderly.ledger
    refine ⟨fun q' hq' stream tail htail => ?_, fun hg => hledger.backpointer_lt hg⟩
    obtain rfl := Option.some.inj (hq.symm.trans hq')
    exact hledger.tail_lt htail
  have hstart : (World.start node).Keeps entryLaw Job.InOrder :=
    ⟨⟨Scene.sound_start h, horderly.entered, hreceding⟩, fun id a ha => by cases ha⟩
  exact (hstart.play entryLaw_unconditional Job.lasting_inOrder (lawful_inOrder _) hmoves).2

end World

/-! ## Tokens that were given lie behind -/

/-- The hint for the global tail that came with a full reset that took effect. -/
def Event.resetHint? : Event → Option Position
  | ⟨_, .bootstrap request, .ok .applied⟩ =>
    if request.fullReset then some request.globalTailHint else none
  | _ => none

/-- All tokens for runs that were given begin before the global tail. -/
def Scene.Passed (s : Scene) : Prop :=
  ∀ q, s.node.mailbox.sequencer = some q →
    ∀ request token, s.Granted request token → token.first < q.globalTail

/-- A full reset that takes effect in a move, if any does, comes with a hint that is not before the
global tail of this moment. -/
def World.GoesOn (w : World) (m : Move) : Prop :=
  ∀ q ∈ w.scene.node.mailbox.sequencer,
    ∀ event ∈ (w.step m).scene.trace.drop w.scene.trace.length,
      ∀ hint ∈ event.resetHint?, q.globalTail ≤ hint

/-- No full reset takes the sequencer back in the course of some moves. -/
def World.Onward (w : World) : List Move → Prop
  | [] => True
  | m :: moves => w.GoesOn m ∧ (w.step m).Onward moves

instance World.decidableGoesOn (w : World) (m : Move) : Decidable (w.GoesOn m) :=
  inferInstanceAs (Decidable (∀ q ∈ w.scene.node.mailbox.sequencer,
    ∀ event ∈ (w.step m).scene.trace.drop w.scene.trace.length,
      ∀ hint ∈ event.resetHint?, q.globalTail ≤ hint))

instance World.decidableOnward (w : World) : (moves : List Move) → Decidable (w.Onward moves)
  | [] => .isTrue trivial
  | m :: moves => @instDecidableAnd _ _ _ (decidableOnward (w.step m) moves)

namespace Scene

/-- A bootstrap takes the global tail back only as a full reset with an earlier hint. -/
lemma globalTail_le_bootstrap (q : Sequencer) (request : BootstrapRequest) (now : Timestamp)
    (hhint : ∀ hint ∈ (⟨id, .bootstrap request, (q.bootstrap request now).1⟩ : Event).resetHint?,
      q.globalTail ≤ hint) : q.globalTail ≤ (q.bootstrap request now).2.globalTail := by
  have hbootstrapped := q.bootstrapped_bootstrap request now
  generalize (q.bootstrap request now).1 = r, (q.bootstrap request now).2 = q' at *
  cases hbootstrapped with
  | stale | already | refused => exact Nat.le_refl _
  | applied hepoch hseed =>
    cases hreset : request.fullReset with
    | false => exact (((Sequencer.reseed_merge hreset hseed).1 _).mp (Nat.le_refl _)).1
    | true =>
      obtain ⟨rfl, -⟩ := Sequencer.reseed_reset hreset hseed
      exact hhint _ (by simp [Event.resetHint?, hreset])

lemma Passed.of_acts (h : s.Passed) (hacts : s.Acts id action answer s')
    (hhint : ∀ q, s.node.mailbox.sequencer = some q →
      ∀ hint ∈ (⟨id, action, answer⟩ : Event).resetHint?, q.globalTail ≤ hint) : s'.Passed := by
  intro q' hq' request token hg
  rcases Orderly.granted_of_acts hacts hg with hold | ⟨hcount, heq⟩
  · -- the global tail has not gone back since the token was given
    cases action with
    | allocate request' =>
      rcases hacts.allocate with ⟨-, -, hstopped⟩ | ⟨q, hq, -, hserved⟩
      · rw [hstopped] at hq'
        cases hq'
      · obtain rfl := Option.some.inj (hq'.symm.trans hserved)
        exact Nat.lt_of_lt_of_le (h q hq request token hold)
          (q.allocated_allocate request').frame.2.2
    | bootstrap request' =>
      rcases hacts.bootstrap with ⟨-, -, hstopped⟩ | ⟨q, now, hq, rfl, hserved⟩
      · rw [hstopped] at hq'
        cases hq'
      · obtain rfl := Option.some.inj (hq'.symm.trans hserved)
        exact Nat.lt_of_lt_of_le (h q hq request token hold)
          (globalTail_le_bootstrap q request' now (hhint q hq))
    | onUnit | knownEpoch | observeEpoch => exact h q' (by rw [← hq', hacts.mailbox rfl]) _ _ hold
  · -- the token was given just now, and the global tail moved behind it
    cases heq
    obtain ⟨q, -, htoken, hserved⟩ := hacts.token
    obtain rfl := Option.some.inj (hq'.symm.trans hserved)
    have heq := (Sequencer.token_of_allocate htoken).2
    obtain ⟨tail, last, -, -, htail, hgrant⟩ :=
      Sequencer.run_of_allocate htoken (by rw [heq]; exact hcount)
    have hpos := Sequencer.toNat_pos hcount
    rw [hgrant]
    refine Position.lt_def.mpr ?_
    change token.first.val < tail.val
    rw [htail, heq]
    dsimp only
    omega

lemma Passed.of_calm (h : s.Passed) (hcalm : s.Calm s') : s'.Passed := by
  intro q hq request token hg
  rw [Granted, hcalm.trace] at hg
  exact h q (hcalm.mailbox ▸ hq) request token hg

end Scene

namespace World

lemma passed_step (h : w.scene.Passed) (hm : w.GoesOn m) : (w.step m).scene.Passed := by
  rcases w.calm_or_acts m with hcalm | ⟨id, choice, action, answer, -, -, hacts⟩
  · exact h.of_calm hcalm
  · refine h.of_acts hacts fun q hq => hm q hq _ ?_
    rw [hacts.trace_eq, List.drop_left]
    exact List.mem_singleton_self _

lemma passed_play (h : w.scene.Passed) (hmoves : w.Onward moves) : (w.play moves).scene.Passed := by
  induction moves generalizing w with
  | nil => exact h
  | cons m moves ih => exact ih (passed_step h hmoves.1) hmoves.2

/-- What is true of a run is true of its beginning. -/
lemma Onward.of_append (h : w.Onward (moves ++ more)) : w.Onward moves := by
  induction moves generalizing w with
  | nil => trivial
  | cons m moves ih => exact ⟨h.1, ih h.2⟩

variable {names : List String} {policy : HoleFillPolicy} {sequencer : SequencerSettings}
  {management : BootstrapSettings} {node : Node} {request request' : TokenRequest}
  {token token' : Token}

lemma passed_start (node : Node) : (World.start node).scene.Passed := by
  rintro q - request token ⟨⟨id, hmem⟩, -⟩
  cases hmem

/-- A token that is given to an activity started later begins behind all tokens given before. -/
theorem first_lt_of_later (h : Node.start names policy sequencer management = .ok node)
    (honward : (World.start node).Onward (moves ++ more)) (hw : w = (World.start node).play moves)
    (hg : w.scene.Granted request token) (hid : w.nextId ≤ id)
    (hmem : ⟨id, .allocate request', .ok token'⟩ ∈ (w.play more).scene.trace) :
    token.first < token'.first := by
  subst hw
  have hnew : ⟨id, .allocate request', .ok token'⟩ ∉ ((World.start node).play moves).scene.trace :=
    fun hmem => absurd hid (Nat.not_le.mpr (((attributed_start node).play moves) _ hmem))
  -- back to the scene in which the later token was given
  obtain ⟨before, choice, hbefore, hacts⟩ := exists_acts_of_mem_trace hmem hnew
  obtain ⟨q, hq, htoken, -⟩ := hacts.token
  have hpassed : (((World.start node).play moves).play before).scene.Passed := by
    obtain ⟨rest, rfl⟩ := (List.prefix_append ..).trans hbefore
    rw [← List.append_assoc] at honward
    rw [← play_append]
    exact passed_play (passed_start node) honward.of_append
  have hlater := ((keeps_chainLaw h moves).more before).1.granted hg
  rw [(Sequencer.token_of_allocate htoken).2]
  exact hpassed q hq request token hlater

end World

/-! ## Appends and readings -/

/-- Of two entries in a list that is in the order of positions, the one at the earlier position comes
first. -/
lemma pair_sublist {list : List (Position × LogEntry)} {x y : Position × LogEntry}
    (hlist : list.Pairwise fun x y => x.1 < y.1) (hx : x ∈ list) (hy : y ∈ list)
    (hlt : x.1 < y.1) : [x, y].Sublist list := by
  obtain ⟨before, after, rfl⟩ := List.append_of_mem hx
  obtain ⟨-, -, hbefore⟩ := List.pairwise_append.mp hlist
  rcases List.mem_append.mp hy with hy | hy
  · exact absurd (hbefore y hy x List.mem_cons_self) (Nat.lt_asymm hlt)
  · rcases List.mem_cons.mp hy with rfl | hy
    · exact absurd hlt (Nat.lt_irrefl _)
    · exact ((List.singleton_sublist.mpr hy).cons_cons x).trans (List.sublist_append_right ..)

variable {names : List String} {policy : HoleFillPolicy} {sequencer : SequencerSettings}
  {management : BootstrapSettings} {node : Node}

/-- The order of the log is the order of time.

Take any interleaving in which nobody writes past the sequencer and no full reset comes with a hint
before the global tail of its moment. If an append has returned before another one was started, then
the position that the other one returns is the later one. And whoever reads a stream, at any time,
gets positions in increasing order, so that a list with both positions has the entry of the first
append before that of the second. -/
theorem appends_in_order_of_time (h : Node.start names policy sequencer management = .ok node)
    (moves more : List Move) (hjobs : World.Starts (moves ++ more) Job.ByToken)
    (honward : (World.start node).Onward (moves ++ more)) (w : World)
    (hw : w = (World.start node).play moves)
    (hr : w.Returned id (.append client streams payload) (.ok p)) (hid : w.nextId ≤ id')
    (hr' : (w.play more).Returned id' (.append client' streams' payload') (.ok q)) :
    p < q ∧ ∃ entry entry' : LogEntry, entry.payload = payload ∧ entry'.payload = payload' ∧
      ∀ still reader client stream list, World.Starts still Job.ByToken →
        ((w.play more).play still).Returned reader (.readStream client stream) (.ok list) →
        list.Pairwise (fun x y => x.1 < y.1) ∧
        (p ∈ list.map Prod.fst → q ∈ list.map Prod.fst → [(p, entry), (q, entry')].Sublist list) := by
  have hmoves : World.Starts moves Job.ByToken := fun job hjob =>
    hjobs job (List.mem_append_left _ hjob)
  have hchain : w.Keeps chainLaw (Job.Ends chainLaw) := hw ▸ World.keeps_chainLaw h moves
  obtain ⟨⟨epoch, token, hmem, rfl⟩, entry, happended⟩ :=
    (hw ▸ World.keeps_entryLaw h hmoves : w.Keeps entryLaw Job.InOrder).of_returned hr
  have hplay : w.play more = (World.start node).play (moves ++ more) := by
    rw [hw, World.play_append]
  obtain ⟨⟨epoch', token', hmem', rfl⟩, entry', happended'⟩ :=
    (hplay ▸ World.keeps_entryLaw h hjobs : (w.play more).Keeps entryLaw Job.InOrder).of_returned
      hr'
  have hlt : token.first < token'.first :=
    World.first_lt_of_later h honward hw ⟨⟨id, hmem⟩, by simp⟩ hid hmem'
  refine ⟨hlt, entry, entry', happended.carries, happended'.carries, ?_⟩
  intro still reader client stream list hstill hread
  have hall : World.Starts (moves ++ more ++ still) Job.ByToken := fun job hjob =>
    (List.mem_append.mp hjob).elim (hjobs job) (hstill job)
  rw [hplay, ← World.play_append] at hread
  have hsorted := (World.keeps_entryLaw h hall).of_returned hread list rfl
  refine ⟨hsorted, fun hfirst hlast => ?_⟩
  rw [World.play_append, ← hplay] at hread
  -- what is listed at the two positions are the entries of the two appends
  obtain ⟨⟨_, e⟩, hfirst, rfl⟩ := List.mem_map.mp hfirst
  obtain ⟨⟨_, e'⟩, hlast, rfl⟩ := List.mem_map.mp hlast
  obtain rfl := LogData.entry.inj (hchain.tells_appended happended (more ++ still)
    (.readStream (by rwa [World.play_append]) hfirst))
  obtain rfl := LogData.entry.inj ((hchain.more more).2.tells_appended happended' still
    (.readStream hread hlast))
  exact pair_sublist hsorted hfirst hlast hlt

/-- Between two appends to a stream a full reset moves the sequencer to a later epoch and on to a
later tail. The client of the second append learns of it by a refusal. -/
theorem appends_in_order_of_time_across_reset : ∃ node,
    Node.start ["a", "b"] .immediate ⟨1, Epoch.zero, 5⟩ .default = .ok node ∧
    let stream : StreamId := ⟨7, by decide⟩
    let fifth : Position := ⟨4, by decide⟩
    let moves : List Move := [.join Epoch.zero 3, .start (.append 0 (.ofList [stream]) [1])] ++
      List.replicate 6 (.advance 0 (.prompt 1))
    let reset : BootstrapRequest :=
      ⟨⟨1, by decide⟩, fifth, .ofList [(stream, some Position.zero)], Position.zero, true⟩
    let more : List Move := [.start (.bootstrap reset), .advance 1 (.prompt 1),
      .start (.append 0 (.ofList [stream]) [2])] ++ List.replicate 9 (.advance 2 (.prompt 1))
    let read : List Move := .start (.readStream 0 stream) ::
      List.replicate 10 (.advance 3 (.prompt 3))
    let w := (World.start node).play moves
    let entry (payload : List UInt8) (back : Option Position) : LogEntry :=
      ⟨.ofList [stream], .ofList [(stream, back)], payload⟩
    let list := [(Position.zero, entry [1] none), (fifth, entry [2] (some Position.zero))]
    w.Returned 0 (.append 0 (.ofList [stream]) [1]) (.ok Position.zero) ∧
      (w.play more).Returned 2 (.append 0 (.ofList [stream]) [2]) (.ok fifth) ∧
      ((w.play more).play read).Returned 3 (.readStream 0 stream) (.ok list) ∧
      Position.zero < fifth ∧ ∃ first second : LogEntry, first.payload = [1] ∧
        second.payload = [2] ∧ [(Position.zero, first), (fifth, second)].Sublist list := by
  have h : Node.start ["a", "b"] .immediate ⟨1, Epoch.zero, 5⟩ .default = .ok _ := rfl
  refine ⟨_, h, ?_⟩
  intro stream fifth moves reset more read w entry list
  have hjobs : World.Starts (moves ++ more) Job.ByToken := by
    intro job hjob
    obtain rfl | rfl | rfl : job = .append 0 (.ofList [stream]) [1] ∨ job = .bootstrap reset ∨
        job = .append 0 (.ofList [stream]) [2] := by simpa [moves, more] using hjob
    all_goals trivial
  have hread : World.Starts read Job.ByToken := by
    intro job hjob
    obtain rfl : job = .readStream 0 stream := by simpa [read] using hjob
    trivial
  have hr : w.Returned 0 (.append 0 (.ofList [stream]) [1]) (.ok Position.zero) := by
    decide +kernel
  have hr' : (w.play more).Returned 2 (.append 0 (.ofList [stream]) [2]) (.ok fifth) := by
    decide +kernel
  have hlist : ((w.play more).play read).Returned 3 (.readStream 0 stream) (.ok list) := by
    decide +kernel
  obtain ⟨hlt, first, second, hfirst, hsecond, horder⟩ :=
    appends_in_order_of_time h moves more hjobs (by decide +kernel) w rfl hr (by decide +kernel) hr'
  exact ⟨hr, hr', hlist, hlt, first, second, hfirst, hsecond,
    (horder read 3 0 stream list hread hlist).2 (by simp [list]) (by simp [list])⟩

end SharedLog
