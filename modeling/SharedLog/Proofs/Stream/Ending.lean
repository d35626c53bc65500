/-
# Which readings end

An entry is written as it is given, and nobody looks at where it points. So a stream may lead its
reader in a circle. That is the only way in which a reading can go on for ever: it ends if it reads
no position twice, and it never does when all entries of the stream on its way point backwards.

A reading that has ended has read no position twice, then, and the entries that it gives are those
on its way. They are in order if and only if all of them point backwards.
-/
import SharedLog.Proofs.Chain.Shown
import SharedLog.Proofs.Stream.Reading
import SharedLog.Proofs.Stream.Way

namespace SharedLog

variable {names : List String} {policy : HoleFillPolicy} {sequencer : SequencerSettings}
  {management : BootstrapSettings} {node : Node}
  {good : List Event → Prop} {rounds : Option Nat} {id least : Nat} {chain : Chain}
  {c : Client} {stream : StreamId} {past : List Event} {w : World} {moves : List Move}

namespace Client

/-! ## The way of a reading -/

/-- How a reading ends: the sequencer refuses to tell the tail, the chain fails, or the reader comes
to the end of its way and gives the entries on it. -/
inductive Followed (chain : Chain) (stream : StreamId) :
    Except ServerError (List (Position × LogEntry)) → List Event → Prop
  | refused {e : SequencerError} {past : List Event} (nothing : chain.shownIn past = []) :
    Followed chain stream (.error (.sequencer e)) past
  | failed {e : ReplicationError} {past : List Event} :
    Followed chain stream (.error (.replication e)) past
  | ended {past : List Event} {start : Option Position}
    (walks : Walks stream start (chain.shownIn past) none) :
    Followed chain stream (.ok (foundOn stream (chain.shownIn past))) past

/-- While all goes well, ways are no longer than the log. -/
def Confines (good : List Event → Prop) (chain : Chain) (stream : StreamId) : Prop :=
  ∀ past start goal, good past → Walks stream start (chain.shownIn past) goal →
    (chain.shownIn past).length ≤ Position.bound

/-- The loops of a reading are not cut off before its end, given how patient the readers of the
chain are. -/
structure Suffices (least : Nat) (good : List Event → Prop) (chain : Chain)
    (stream : StreamId) : Prop where
  patience : ∀ n, least ≤ n → chain.policy.GivesUp n 0 Duration.zero
  bound : Position.bound < least
  confines : Confines good chain stream

lemma read_follows (hsuffices : ∀ least ∈ rounds, Suffices least good chain stream)
    (hpast : good past) {p : Position} :
    NodeProgram.LeadsWhile good rounds id (fun r past' => good past' ∧
      match r with
      | .ok v => chain.shownIn past' = chain.shownIn past ++ [(p, v)]
      | .error e => ∃ e', e = .replication e')
      (NodeProgram.onChain (chain.read p)) past := by
  refine (Program.meets_mapError ..).mpr (NodeProgram.leadsWhile_ofChain ?_)
  refine ((Chain.read_shows fun least hleast => (hsuffices least hleast).patience).kept
    hpast).mono fun r past' hr => ?_
  cases r with
  | ok v => exact ⟨hr.2, hr.1⟩
  | error e => exact ⟨hr.2, e, rfl⟩

/-- A walk back reads the positions on its way, each of them once, and finds the entries there. -/
lemma walkBack_follows (hsuffices : ∀ least ∈ rounds, Suffices least good chain stream) {n : Nat}
    {start cursor : Option Position} {found : List (Position × LogEntry)}
    (hn : ∀ least ∈ rounds, Position.bound < n + (chain.shownIn past).length) (hpast : good past)
    (hway : Walks stream start (chain.shownIn past) cursor)
    (hfound : found = foundOn stream (chain.shownIn past)) :
    NodeProgram.LeadsWhile good rounds id (Followed chain stream)
      (walkBack chain stream n cursor found) past := by
  induction n generalizing cursor found past with
  | zero =>
    cases cursor with
    | none => exact hfound ▸ .ended hway
    | some p =>
      -- the way is longer than the log already
      refine Option.eq_none_iff_forall_not_mem.mpr fun least hleast => ?_
      have hlong := hn least hleast
      have hshort := (hsuffices least hleast).confines past start _ hpast hway
      omega
  | succ n ih =>
    cases cursor with
    | none => exact hfound ▸ .ended hway
    | some p =>
      refine (read_follows hsuffices hpast).andThen ?_ ?_
      · rintro v past₁ ⟨hpast₁, hshown⟩
        have hlong : ∀ least ∈ rounds, Position.bound < n + (chain.shownIn past₁).length := by
          intro least hleast
          have hlong := hn least hleast
          rw [hshown, List.length_append, List.length_singleton]
          omega
        have hway₁ : Walks stream start (chain.shownIn past₁) (onward stream p v) :=
          hshown ▸ hway.concat v
        have hnext := ih hlong hpast₁ hway₁ rfl
        have hfound₁ : foundOn stream (chain.shownIn past₁) =
            (found? stream (p, v)).toList ++ found := by
          rw [hshown, foundOn_concat, hfound]
        cases v with
        | hole => rwa [hfound₁] at hnext
        | entry entry =>
          rw [hfound₁] at hnext
          dsimp only
          split
          · rename_i hbelongs
            rwa [found?, onward, if_pos hbelongs, if_pos hbelongs] at hnext
          · rename_i hbelongs
            rwa [found?, onward, if_neg hbelongs, if_neg hbelongs] at hnext
      · rintro e past₁ ⟨-, e', rfl⟩
        exact .failed

/-- Whoever asks the sequencer is shown nothing by the chain, and only the sequencer can fail
him. -/
def AsksOnly (chain : Chain) (past : List Event) (r : Except ServerError Token)
    (past' : List Event) : Prop :=
  chain.shownIn past' = chain.shownIn past ∧ ∀ e, r = .error e → ∃ e', e = .sequencer e'

lemma requestToken_shows (request : TokenRequest) :
    NodeProgram.LeadsWhile good rounds id (AsksOnly chain past) (c.requestToken request) past := by
  have hobserve : ∀ {epoch past₁}, chain.shownIn past₁ = chain.shownIn past →
      NodeProgram.LeadsWhile good rounds id (chain.ShowsNothing past) (c.observeEpoch epoch)
        past₁ := fun h =>
    NodeProgram.leadsWhile_act fun _ _ => (Chain.shownIn_concat_of_none rfl).trans h
  have hallocate : NodeProgram.LeadsWhile good rounds id (chain.ShowsNothing past)
      (NodeProgram.act (.allocate request)) past :=
    NodeProgram.leadsWhile_act fun _ _ => Chain.shownIn_concat_of_none rfl
  refine hallocate.bind fun r past₁ h => ?_
  match r with
  | .ok token => exact (hobserve h).bind fun _ past₂ h₂ => ⟨h₂, fun e he => by cases he⟩
  | .error (.staleEpoch requested current) =>
    exact (hobserve h).bind fun _ past₂ h₂ => ⟨h₂, fun e he => ⟨_, (Except.error.inj he).symm⟩⟩
  | .error (.invalidArgument _) | .error (.tailOverflow ..) | .error (.serviceUnavailable _)
  | .error (.internal _) => exact ⟨h, fun e he => ⟨_, (Except.error.inj he).symm⟩⟩

lemma tails_shows (streams : StreamSet) :
    NodeProgram.LeadsWhile good rounds id (AsksOnly chain past) (c.tails streams) past := by
  have hquery : ∀ {past₁}, chain.shownIn past₁ = chain.shownIn past →
      NodeProgram.LeadsWhile good rounds id (AsksOnly chain past) (c.queryTails streams) past₁ := by
    intro past₁ h
    have hknown : NodeProgram.LeadsWhile good rounds id (chain.ShowsNothing past)
        c.knownEpoch past₁ :=
      NodeProgram.leadsWhile_act fun _ _ => (Chain.shownIn_concat_of_none rfl).trans h
    refine hknown.bind fun epoch past₂ h₂ => ?_
    exact (requestToken_shows _).mono fun r past₃ h₃ => ⟨h₃.1.trans h₂, h₃.2⟩
  refine (hquery rfl).bind fun r past₁ h => ?_
  split
  · exact hquery h.1
  · exact h

/-- Nothing but the sequencer fails whoever asks for the tails. -/
lemma tails_blames {L : Law} {s : Scene} {streams : StreamSet} (hL : L.Clientlike)
    (hholds : L.holds s) :
    L.Meets id (fun r _ => ∀ e, r = .error e → ∃ e', e = .sequencer e') (c.tails streams) s := by
  have hquery : ∀ {s₁}, L.holds s₁ →
      L.Meets id (fun r _ => ∀ e, r = .error e → ∃ e', e = .sequencer e')
        (c.queryTails streams) s₁ := by
    intro s₁ hholds₁
    refine (knownEpoch_meets hL.toAppending).bind hholds₁ fun epoch s₂ _ hholds₂ _ => ?_
    have hask : L.ask id (.allocate (.query epoch streams)) (fun _ _ => True) s₂ :=
      Law.ask_intro fun s₃ _ hholds₃ => ⟨hL.allows_allocate _ hholds₃, fun _ _ _ _ _ _ => trivial⟩
    have hlearn : ∀ epoch s₃, L.later s₂ s₃ → L.holds s₃ →
        L.ask id (.observeEpoch c.index epoch) (fun _ _ => True) s₃ := fun _ _ _ _ =>
      Law.ask_intro fun s₄ _ hholds₄ =>
        ⟨hL.allows_observeEpoch _ _ hholds₄, fun _ _ _ _ _ _ => trivial⟩
    refine (requestToken_meets hholds₂ (fun _ _ _ _ _ _ => trivial) hask hlearn).mono ?_
    rintro r s₃ ⟨r', rfl, -⟩ e he
    cases r' with
    | ok token => cases he
    | error e' => exact ⟨e', (Except.error.inj he).symm⟩
  refine (hquery hholds).bind hholds fun r s₁ _ hholds₁ hr => ?_
  split
  · exact hquery hholds₁
  · exact hr

/-- A reading follows the stream from some position on, or it fails. -/
theorem readStream_follows (hsuffices : ∀ least ∈ rounds, Suffices least good chain stream)
    (hpast : good past) (hnothing : chain.shownIn past = []) :
    NodeProgram.LeadsWhile good rounds id (Followed chain stream)
      (c.readStream chain stream) past := by
  have htails : NodeProgram.LeadsWhile good rounds id (AsksOnly chain past)
      (c.tails (.ofList [stream])) past := tails_shows _
  refine (htails.kept hpast).andThen ?_ ?_
  · rintro token past₁ ⟨⟨hshown, -⟩, hpast₁⟩ n hn
    have hnothing₁ : chain.shownIn past₁ = [] := hshown.trans hnothing
    have hway : Walks stream (token.backpointer stream) (chain.shownIn past₁)
        (token.backpointer stream) := by
      rw [hnothing₁]
      rfl
    refine walkBack_follows hsuffices (fun least hleast => ?_) hpast₁ hway ?_
    · have hbound := (hsuffices least hleast).bound
      have hlate := hn least hleast
      omega
    · rw [hnothing₁]
      rfl
  · rintro e past₁ ⟨⟨hshown, herror⟩, -⟩
    obtain ⟨e', rfl⟩ := herror e rfl
    exact .refused (hshown.trans hnothing)

/-- No position has been read twice, or all entries of the stream that were met point backwards. -/
def Straight (chain : Chain) (stream : StreamId) (past : List Event) : Prop :=
  ((chain.shownIn past).map Prod.fst).Nodup ∨ ∀ x ∈ chain.shownIn past, LeadsBack stream x

lemma confines_straight : Confines (Straight chain stream) chain stream := by
  intro past start goal hpast hway
  exact length_le_bound (hpast.elim id hway.nodup_of_leadsBack)

end Client

/-! ## Readings -/

namespace World

open Client (Followed LeadsBack foundOn Walks)

variable {client : Nat} {r : Except ServerError (List (Position × LogEntry))}
  {schedule : Nat → Move}

instance (action : Action) (answer : action.Answer) : Decidable (action.Failed answer) :=
  match action, answer with
  | .onUnit (.peek ..), .error e | .onUnit (.write ..), .error e => .isTrue ⟨e, rfl⟩
  | .onUnit (.peek ..), .ok _ | .onUnit (.write ..), .ok _ => .isFalse nofun
  | .allocate _, _ | .bootstrap _, _ | .knownEpoch _, _ | .observeEpoch .., _ => .isFalse fun h => h

instance (w : World) (id : Nat) : Decidable (w.NoFailureOf id) :=
  inferInstanceAs (Decidable (∀ event ∈ w.scene.trace, _))

/-- An activity has read no position twice. -/
def ReadsOnce (w : World) (id : Nat) : Prop := ((w.scene.shown id).map Prod.fst).Nodup

instance (w : World) (id : Nat) : Decidable (w.ReadsOnce id) :=
  inferInstanceAs (Decidable (List.Nodup _))

/-- All entries of the stream that an activity has met point backwards. -/
def LedBack (w : World) (id : Nat) (stream : StreamId) : Prop :=
  ∀ x ∈ w.scene.shown id, LeadsBack stream x

lemma chain_play (h : Node.start names policy sequencer management = .ok node)
    (moves : List Move) : ((World.start node).play moves).scene.node.chain = node.chain :=
  ((keeps_chainLaw h []).more moves).1.chain

/-- What the tail shows is committed. -/
lemma committed_of_shown (h : Node.start names policy sequencer management = .ok node)
    {p : Position} {v : LogData}
    (hmem : (p, v) ∈ ((World.start node).play moves).scene.shown id) :
    ((World.start node).play moves).scene.Committed p v := by
  obtain ⟨⟨id', action, answer⟩, hevent, hshown⟩ := List.mem_filterMap.mp hmem
  have htrace := (Scene.mem_deeds.mp hevent).1
  obtain ⟨before, choice, ⟨more, rfl⟩, hacts⟩ := exists_acts_of_mem_trace htrace List.not_mem_nil
  have hkeeps := keeps_chainLaw h (before ++ [.advance id' choice])
  have hgrows := (hkeeps.more more).1
  rw [← play_append] at hgrows
  refine hgrows.committed (hkeeps.holds.committed_of_tail ?_)
  -- the tail held the value when it was asked
  rw [chain_play h] at hshown ⊢
  cases Action.eq_of_shown? id' hshown
  rcases hacts.peek with heq | ⟨e, heq, -⟩
  · exact (Except.ok.inj heq).symm
  · cases heq

/-- A reading has followed the stream when it returns. -/
lemma followed_of_returned (h : Node.start names policy sequencer management = .ok node)
    (hr : ((World.start node).play moves).Returned id (.readStream client stream) r) :
    Followed ((World.start node).play moves).scene.node.chain stream r
      (((World.start node).play moves).scene.deeds id) := by
  rw [chain_play h]
  have hleads : ∀ moves program, (Job.readStream client stream).program?
      ((World.start node).play moves).scene.node = some program →
      program.Leads id (Followed node.chain stream) [] := by
    intro moves program hprogram
    obtain ⟨c, -, rfl⟩ := Option.map_eq_some_iff.mp hprogram
    rw [chain_play h]
    exact NodeProgram.leads_of_leadsWhile (Client.readStream_follows nofun trivial rfl)
  exact Returned.of_leads hleads hr

/-- Whom a reading blames that fails on the chain: a unit that failed the reader. -/
def blamesUnit (id : Nat) : Outcome
  | .readStream .. => fun r s => ∀ e, r = .error (.replication e) → chainLaw.Fails id s e
  | _ => fun _ _ => True

/-- A reading that no unit has failed does not fail on the chain. -/
lemma not_replication (h : Node.start names policy sequencer management = .ok node)
    (hr : ((World.start node).play moves).Returned id (.readStream client stream) r)
    (hserved : ((World.start node).play moves).NoFailureOf id) {e : ReplicationError} :
    r ≠ .error (.replication e) := by
  have hlawful : (World.start node).Lawful chainLaw blamesUnit fun _ => True := by
    intro id job s program hid _ hlater hholds hprogram
    cases job with
    | readStream client stream =>
      obtain ⟨c, -, rfl⟩ := Option.map_eq_some_iff.mp hprogram
      have htrail : Client.Trail chainLaw stream fun _ _ _ => True :=
        ⟨fun _ _ _ => trivial, fun _ _ _ _ => trivial, fun _ _ _ _ => trivial⟩
      refine Client.readStream_meets chainLaw_chainlike htrail (.inl rfl) rfl
        (Chain.waits_of_rounds rfl) hholds
        (Client.tails_blames chainLaw_permits.toClientlike hholds)
        (fun _ _ _ _ _ => trivial) ?_ ?_
      · intro e s₁ he e' heq
        obtain ⟨_, rfl⟩ := he e rfl
        cases heq
      · intro r s₁ hr e heq
        subst heq
        obtain ⟨_, ⟨⟩, hfails⟩ := hr
        exact hfails
    | _ =>
      refine (lawful chainLaw_permits _ id _ s program hid trivial hlater hholds hprogram).mono ?_
      exact fun _ _ _ => trivial
  have hlasting : ∀ id job, chainLaw.Lasting (blamesUnit id job) := by
    intro id job
    cases job with
    | readStream client stream =>
      exact fun r s s' hr hlater _ e he => chainLaw_chainlike.fails (hr e he) hlater
    | _ => exact fun _ _ _ _ _ _ => trivial
  rintro rfl
  obtain ⟨call, answer, -, hmem, hfails, -⟩ := (keeps_chainLaw h []).returned_later
    chainLaw_unconditional hlasting hlawful (fun _ _ => trivial) (Nat.zero_le id) hr e rfl
  exact hserved _ hmem rfl ⟨e, hfails⟩

/-- A reading that no unit has failed has read no position twice when it returns. -/
lemma readsOnce_of_returned (h : Node.start names policy sequencer management = .ok node)
    (hr : ((World.start node).play moves).Returned id (.readStream client stream) r)
    (hserved : ((World.start node).play moves).NoFailureOf id) :
    ((World.start node).play moves).ReadsOnce id := by
  have hsound := (keeps_chainLaw h moves).holds
  have hfollowed := followed_of_returned h hr
  cases hfollowed with
  | refused nothing =>
    rw [ReadsOnce, Scene.shown, nothing]
    exact .nil
  | failed => exact absurd rfl (not_replication h hr hserved)
  | ended walks =>
    refine walks.nodup fun p v v' hv hv' => ?_
    exact hsound.committed_unique (committed_of_shown h hv) (committed_of_shown h hv')

/-- What an activity has read once it had read once before as well. -/
lemma ReadsOnce.earlier (h : Node.start names policy sequencer management = .ok node)
    {before : List Move} (hbefore : before <+: moves)
    (honce : ((World.start node).play moves).ReadsOnce id) :
    ((World.start node).play before).ReadsOnce id := by
  rw [ReadsOnce, Scene.shown, chain_play h] at honce ⊢
  exact honce.sublist (((deeds_mono hbefore id).filterMap _).map _).sublist

/-- A reading that has read a position twice never returns, unless a unit fails it. -/
lemma not_returned_of_not_readsOnce (h : Node.start names policy sequencer management = .ok node)
    (htwice : ¬ ((World.start node).play moves).ReadsOnce id) {more : List Move}
    (hserved : (((World.start node).play moves).play more).NoFailureOf id) :
    ¬ (((World.start node).play moves).play more).Returned id (.readStream client stream) r := by
  intro hr
  rw [← play_append] at hr hserved
  exact htwice ((readsOnce_of_returned h hr hserved).earlier h (List.prefix_append ..))

/-- A reading that has its turns returns, if it reads no position twice or is led backwards all the
time. -/
lemma readStream_returns_while (h : Node.start names policy sequencer management = .ok node)
    {w₀ : World} (hw : w = (World.start node).play moves)
    (hclient : client < w.scene.node.clients.length)
    (hw₀ : w₀ = w.step (.start (.readStream client stream)))
    (hpatience : ∀ n, least ≤ n → policy.GivesUp n 0 Duration.zero)
    (hbound : Position.bound < least) (htends : Tends schedule w.nextId least)
    (hway : (∀ n, (w₀.after schedule n).ReadsOnce w.nextId) ∨
      ∀ n, (w₀.after schedule n).LedBack w.nextId stream) :
    ∃ n r, (w₀.after schedule n).Returned w.nextId (.readStream client stream) r := by
  have hchain : ∀ n, (w₀.after schedule n).scene.node.chain = node.chain := by
    intro n
    rw [after_eq_play, hw₀, hw, ← play_cons, ← play_append]
    exact chain_play h _
  have hprogram : (Job.readStream client stream).program? w.scene.node =
      some (w.scene.node.clients[client].readStream w.scene.node.chain stream) :=
    Option.map_eq_some_iff.mpr ⟨_, List.getElem?_eq_getElem hclient, rfl⟩
  have hstart := hw₀.trans (World.step_start_eq rfl hprogram)
  have hrunning : (w₀.after schedule 0).activities[w.nextId]? =
      some (.running (.readStream client stream)
        (w.scene.node.clients[client].readStream w.scene.node.chain stream)) := by
    simp [after, hstart, World.nextId]
  have hdeeds : (w₀.after schedule 0).scene.deeds w.nextId = [] := by
    rw [after, hstart]
    exact (hw ▸ (attributed_start node).play moves : w.Attributed).deeds_nextId
  have hsuffices : Client.Suffices least (Client.Straight node.chain stream) node.chain stream :=
    ⟨(Node.start_eq_ok h).2.1 ▸ hpatience, hbound, Client.confines_straight⟩
  have hgood : ∀ n, Client.Straight node.chain stream
      ((w₀.after schedule n).scene.deeds w.nextId) := by
    intro n
    rw [← hchain n]
    exact hway.imp (fun hall => hall n) fun hall => hall n
  have hleads : NodeProgram.LeadsWhile (Client.Straight node.chain stream) (some least) w.nextId
      (Followed node.chain stream)
      (w.scene.node.clients[client].readStream w.scene.node.chain stream)
      ((w₀.after schedule 0).scene.deeds w.nextId) := by
    have hchain₀ : w.scene.node.chain = node.chain := hw ▸ chain_play h moves
    rw [hdeeds, hchain₀]
    exact Client.readStream_follows (fun least' hleast => Option.some.inj hleast ▸ hsuffices)
      (.inl .nil) rfl
  exact htends.returns_while hgood hrunning hleads

end World

open Client (foundOn Walks) in
/-- A reading of a stream ends if and only if it reads no position twice.

Take any interleaving of jobs of all kinds, entries that point anywhere among them. A reading that
has returned, and that no unit has failed, has gone from position to position along the stream and
has read none twice. If it gives a list, then these are the entries on its way, and their positions
increase if and only if all entries of the stream on the way point backwards. A reading with bounded
patience that has its turns and that no unit fails returns if and only if it reads no position
twice, and it does return if all entries of the stream that it meets point backwards. -/
theorem readStream_returns_iff_readsOnce
    (h : Node.start names policy sequencer management = .ok node) (moves : List Move) (w : World)
    (hw : w = (World.start node).play moves) :
    (∀ id client stream r, w.Returned id (.readStream client stream) r → w.NoFailureOf id →
      w.ReadsOnce id ∧ ((∃ e, r = .error (.sequencer e)) ∨
        ∃ start list, r = .ok list ∧ Walks stream start (w.scene.shown id) none ∧
          list = foundOn stream (w.scene.shown id) ∧
          (list.Pairwise (fun x y => x.1 < y.1) ↔ w.LedBack id stream))) ∧
    ∀ client stream w₀, client < w.scene.node.clients.length → policy.Bounded →
      w₀ = w.step (.start (.readStream client stream)) →
      ∃ least, ∀ schedule, World.Tends schedule w.nextId least →
        (∀ n, World.NoFailureOf w.nextId (w₀.after schedule n)) →
        ((∃ n r, (w₀.after schedule n).Returned w.nextId (.readStream client stream) r) ↔
          ∀ n, (w₀.after schedule n).ReadsOnce w.nextId) ∧
        ((∀ n, (w₀.after schedule n).LedBack w.nextId stream) →
          ∃ n r, (w₀.after schedule n).Returned w.nextId (.readStream client stream) r) := by
  refine ⟨fun id client stream r hr hserved => ?_, ?_⟩
  · subst hw
    have honce := World.readsOnce_of_returned h hr hserved
    refine ⟨honce, ?_⟩
    have hfollowed := World.followed_of_returned h hr
    generalize hpast : ((World.start node).play moves).scene.deeds id = past at hfollowed
    cases hfollowed with
    | refused nothing => exact .inl ⟨_, rfl⟩
    | failed => exact absurd rfl (World.not_replication h hr hserved)
    | ended walks =>
      subst hpast
      refine .inr ⟨_, _, rfl, walks, rfl, fun hsorted => walks.leadsBack honce hsorted, ?_⟩
      exact fun hback => Client.foundOn_sorted (walks.descends hback).2
  · intro client stream w₀ hclient hbounded hw₀
    obtain ⟨looks, hlooks⟩ := hbounded.exists_givesUp
    refine ⟨max looks (Position.bound + 1), fun schedule htends hserved => ?_⟩
    have hreturns := World.readStream_returns_while h hw hclient hw₀
      (fun n hn => hlooks n (Nat.le_trans (Nat.le_max_left ..) hn))
      (Nat.lt_of_lt_of_le (Nat.lt_succ_self _) (Nat.le_max_right ..)) htends
    refine ⟨⟨fun hr n => ?_, fun honce => hreturns (.inl honce)⟩,
      fun hback => hreturns (.inr hback)⟩
    by_contra htwice
    -- the reading still has its result when it is later than both
    obtain ⟨m, r, hr⟩ := hr
    obtain ⟨since, hsince⟩ := World.exists_after_eq_play w₀ schedule (Nat.le_max_left m n)
    obtain ⟨more, hmore⟩ := World.exists_after_eq_play w₀ schedule (Nat.le_max_right m n)
    have hlast := hr.play since
    have hn : w₀.after schedule n = (World.start node).play
        (moves ++ (.start (.readStream client stream) :: (List.range n).map schedule)) := by
      rw [World.after_eq_play, hw₀, hw, World.play_append, World.play_cons]
    have hserved := hserved (max m n)
    rw [hmore, hn] at hserved
    rw [← hsince, hmore, hn] at hlast
    rw [hn] at htwice
    exact World.not_returned_of_not_readsOnce h htwice hserved hlast

/-- A reading of a stream whose entries were written by hand, the later one first. -/
theorem readStream_returns_iff_readsOnce_by_hand : ∃ node,
    Node.start ["a"] .immediate ⟨1, Epoch.zero, 5⟩ .default = .ok node ∧
    let stream : StreamId := ⟨7, by decide⟩
    let one : Position := ⟨1, by decide⟩
    let first : LogEntry := ⟨.ofList [stream], .ofList [(stream, none)], [0]⟩
    let second : LogEntry := ⟨.ofList [stream], .ofList [(stream, some Position.zero)], [1]⟩
    let written : List Move := [.join Epoch.zero 3,
      .start (.allocate ⟨Epoch.zero, 2, .ofList [stream]⟩), .start (.write one second),
      .start (.write Position.zero first)] ++
      [0, 1, 2].flatMap fun id => List.replicate 3 (.advance id (.prompt 1))
    let w := (World.start node).play
      (written ++ .start (.readStream 0 stream) :: List.replicate 9 (.advance 3 (.prompt 3)))
    w.Returned 3 (.readStream 0 stream) (.ok [(Position.zero, first), (one, second)]) ∧
      w.NoFailureOf 3 ∧ w.ReadsOnce 3 ∧ w.LedBack 3 stream := by
  have h : Node.start ["a"] .immediate ⟨1, Epoch.zero, 5⟩ .default = .ok _ := rfl
  refine ⟨_, h, ?_⟩
  intro stream one first second written w
  have hr : w.Returned 3 (.readStream 0 stream) (.ok [(Position.zero, first), (one, second)]) := by
    decide +kernel
  have hserved : w.NoFailureOf 3 := by decide +kernel
  obtain ⟨honce, hlist⟩ := (readStream_returns_iff_readsOnce h _ w rfl).1 3 0 stream _ hr hserved
  obtain ⟨e, heq⟩ | ⟨start, list, heq, -, -, hsorted⟩ := hlist
  · cases heq
  · cases heq
    exact ⟨hr, hserved, honce, hsorted.mp (by decide)⟩

/-- One reading comes to an end out of order, since an entry points forwards. Another one comes back
to an entry that points to itself, and never ends. -/
theorem readStream_astray : ∃ node,
    Node.start ["a"] .immediate ⟨1, Epoch.zero, 5⟩ .default = .ok node ∧
    let stream : StreamId := ⟨7, by decide⟩
    let one : Position := ⟨1, by decide⟩
    let entry (pointer : Option Position) : LogEntry :=
      ⟨.ofList [stream], .ofList [(stream, pointer)], []⟩
    let taken : List Move := [.join Epoch.zero 3,
      .start (.allocate ⟨Epoch.zero, 1, .ofList [stream]⟩), .advance 0 (.prompt 1),
      .advance 0 (.prompt 1)]
    let forwards := (World.start node).play (taken ++
      [.start (.write Position.zero (entry (some one))), .start (.write one (entry none))] ++
      List.replicate 3 (.advance 1 (.prompt 1)) ++ List.replicate 3 (.advance 2 (.prompt 1)) ++
      .start (.readStream 0 stream) :: List.replicate 9 (.advance 3 (.prompt 3)))
    let circling := (World.start node).play (taken ++
      .start (.write Position.zero (entry (some Position.zero))) ::
      List.replicate 3 (.advance 1 (.prompt 1)) ++
      .start (.readStream 0 stream) :: List.replicate 9 (.advance 2 (.prompt 3)))
    HoleFillPolicy.immediate.Bounded ∧
    (forwards.NoFailureOf 3 ∧ forwards.Returned 3 (.readStream 0 stream)
      (.ok [(one, entry none), (Position.zero, entry (some one))])) ∧
    circling.NoFailureOf 2 ∧ ¬ circling.ReadsOnce 2 ∧
    ∀ more r, (circling.play more).NoFailureOf 2 →
      ¬ (circling.play more).Returned 2 (.readStream 0 stream) r := by
  have h : Node.start ["a"] .immediate ⟨1, Epoch.zero, 5⟩ .default = .ok _ := rfl
  refine ⟨_, h, ?_⟩
  intro stream one entry taken forwards circling
  have htwice : ¬ circling.ReadsOnce 2 := by decide +kernel
  refine ⟨trivial, ⟨by decide +kernel, by decide +kernel⟩, by decide +kernel, htwice, ?_⟩
  exact fun more r => World.not_returned_of_not_readsOnce h htwice

end SharedLog
