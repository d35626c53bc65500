/-
# Clients that heed the sequencer

What an activity does with the epochs of its client follows one pattern at any moment. It tells the
client of no epoch but one that the sequencer has told it of. And it asks the sequencer for nothing
before it has told the client the epoch of every earlier answer, and has looked up what the client
knows then. This is shown of the programs of all jobs alone, for any answers.
-/
import SharedLog.Proofs.Bootstrapper.Operations
import SharedLog.Proofs.Client.Operations
import SharedLog.Proofs.World.Vow

namespace SharedLog

variable {id i : Nat} {job : Job} {past : List Event} {c : Client} {chain : Chain} {α : Type}

open Client (toldEpoch?)

/-! ## The pattern -/

/-- The client that a job is for. -/
def Job.client? : Job → Option Nat
  | append client .. | tails client _ | clientRead client _ | readStream client _ => some client
  | _ => none

/-- The client was told the epoch of every answer of the sequencer, after the answer. -/
def Settled (id i : Nat) (past : List Event) : Prop :=
  ∀ before request r after, past = before ++ ⟨id, .allocate request, r⟩ :: after →
    ∃ epoch, toldEpoch? r = some epoch ∧ ⟨id, .observeEpoch i epoch, ()⟩ ∈ after

/-- What an activity keeps to that has been started for a job. -/
structure Heeds (id : Nat) (job : Job) (past : List Event) : Prop where
  /-- The job's client is told of an epoch only if the sequencer has told of it. -/
  told : ∀ {i epoch u}, ⟨id, .observeEpoch i epoch, u⟩ ∈ past → job.client? = some i ∧
    ∃ request r, ⟨id, .allocate request, r⟩ ∈ past ∧ toldEpoch? r = some epoch
  /-- A request for the job's client is made under the epoch that the client knows, after it was
  told of all earlier answers. -/
  asked : ∀ i, job.client? = some i → ∀ before request r after,
    past = before ++ ⟨id, .allocate request, r⟩ :: after →
      ∃ earlier, before = earlier ++ [⟨id, .knownEpoch i, request.epoch⟩] ∧ Settled id i earlier

/-- An event of another kind than requests to the sequencer and epochs told to clients. -/
def Event.Aside (event : Event) : Prop :=
  (∀ request, event.action ≠ .allocate request) ∧ ∀ i epoch, event.action ≠ .observeEpoch i epoch

lemma Event.OnUnit.aside {event : Event} (h : event.OnUnit) : event.Aside := by
  obtain ⟨call, heq⟩ := h
  unfold Aside
  rw [heq]
  exact ⟨fun request hne => (by cases hne), fun i epoch hne => (by cases hne)⟩

/-- An event of the past is the last one, or it is one of those before. -/
lemma eq_of_concat_eq_append_cons {event x : Event} {before after : List Event}
    (h : past ++ [event] = before ++ x :: after) :
    after = [] ∧ event = x ∧ past = before ∨
      ∃ after', after = after' ++ [event] ∧ past = before ++ x :: after' := by
  rcases List.eq_nil_or_concat after with rfl | ⟨after', last, rfl⟩
  · obtain ⟨hpast, hevent⟩ := List.append_inj' h rfl
    exact .inl ⟨rfl, List.singleton_inj.mp hevent, hpast⟩
  · rw [List.concat_eq_append, ← List.cons_append, ← List.append_assoc] at h
    obtain ⟨hpast, hevent⟩ := List.append_inj' h rfl
    exact .inr ⟨after', by rw [List.concat_eq_append, hevent], hpast⟩

namespace Settled

lemma nil : Settled id i [] := by
  intro before request r after h
  cases before <;> cases h

/-- Only a request has to be followed by anything. -/
lemma concat (h : Settled id i past) {event : Event}
    (hevent : ∀ request, event.action ≠ .allocate request) : Settled id i (past ++ [event]) := by
  intro before request r after heq
  rcases eq_of_concat_eq_append_cons heq with ⟨-, rfl, -⟩ | ⟨after', rfl, hbefore⟩
  · exact absurd rfl (hevent request)
  · obtain ⟨epoch, htold, hmem⟩ := h _ _ _ _ hbefore
    exact ⟨epoch, htold, List.mem_append_left _ hmem⟩

/-- A request is settled when the client was told of its answer. -/
lemma request (h : Settled id i past) {request : TokenRequest} {r : Except SequencerError Token}
    {epoch : Epoch} (htold : toldEpoch? r = some epoch) :
    Settled id i (past ++ [⟨id, .allocate request, r⟩] ++ [⟨id, .observeEpoch i epoch, ()⟩]) := by
  intro before request' r' after heq
  rcases eq_of_concat_eq_append_cons heq with ⟨-, hnot, -⟩ | ⟨after', rfl, hbefore⟩
  · cases hnot
  · rcases eq_of_concat_eq_append_cons hbefore with ⟨rfl, hself, -⟩ | ⟨after'', rfl, hbefore'⟩
    · cases hself
      exact ⟨epoch, htold, by simp⟩
    · obtain ⟨epoch', htold', hmem⟩ := h _ _ _ _ hbefore'
      exact ⟨epoch', htold', List.mem_append_left _ (List.mem_append_left _ hmem)⟩

lemma append (h : Settled id i past) {more : List Event} (hmore : ∀ event ∈ more, event.OnUnit) :
    Settled id i (past ++ more) := by
  induction more using List.reverseRecOn with
  | nil => rwa [List.append_nil]
  | append_singleton more event ih =>
    have hmore' := ih fun e he => hmore e (List.mem_append_left _ he)
    rw [← List.append_assoc]
    exact concat hmore' (hmore event (by simp)).aside.1

end Settled

namespace Heeds

lemma nil : Heeds id job [] where
  told hmem := by cases hmem
  asked _ _ before _ _ _ h := by cases before <;> cases h

/-- A client is told of nothing by another event. -/
lemma told_concat (h : Heeds id job past) {event : Event}
    (hevent : ∀ i epoch, event.action ≠ .observeEpoch i epoch) {i : Nat} {epoch : Epoch} {u : Unit}
    (hmem : ⟨id, .observeEpoch i epoch, u⟩ ∈ past ++ [event]) : job.client? = some i ∧
      ∃ request r, ⟨id, .allocate request, r⟩ ∈ past ++ [event] ∧ toldEpoch? r = some epoch := by
  rcases List.mem_append.mp hmem with hmem | hmem
  · obtain ⟨hclient, request, r, hmem, htold⟩ := h.told hmem
    exact ⟨hclient, request, r, List.mem_append_left _ hmem, htold⟩
  · obtain rfl := List.mem_singleton.mp hmem
    exact absurd rfl (hevent i epoch)

/-- Nothing is asked for by another event. -/
lemma asked_concat (h : Heeds id job past) {event : Event}
    (hevent : ∀ request, event.action ≠ .allocate request) (hi : job.client? = some i)
    (before : List Event) (request : TokenRequest) (r : Except SequencerError Token)
    (after : List Event) (heq : past ++ [event] = before ++ ⟨id, .allocate request, r⟩ :: after) :
    ∃ earlier, before = earlier ++ [⟨id, .knownEpoch i, request.epoch⟩] ∧
      Settled id i earlier := by
  rcases eq_of_concat_eq_append_cons heq with ⟨-, rfl, -⟩ | ⟨after', rfl, hbefore⟩
  · exact absurd rfl (hevent request)
  · exact h.asked i hi _ _ _ _ hbefore

lemma concat (h : Heeds id job past) {event : Event} (hevent : event.Aside) :
    Heeds id job (past ++ [event]) where
  told := h.told_concat hevent.2
  asked _ := h.asked_concat hevent.1

/-- Without a client one may ask for anything. -/
lemma concat_of_no_client (h : Heeds id job past) (hjob : job.client? = none) {event : Event}
    (hevent : ∀ i epoch, event.action ≠ .observeEpoch i epoch) :
    Heeds id job (past ++ [event]) where
  told := h.told_concat hevent
  asked i hi := by
    rw [hjob] at hi
    cases hi

lemma onUnit (past : List Event) (event : Event) (h : Heeds id job past) (hevent : event.OnUnit) :
    Heeds id job (past ++ [event]) := h.concat hevent.aside

/-- A request under the epoch that the client knows. -/
lemma allocate (hi : job.client? = some i) {request : TokenRequest}
    (h : Heeds id job (past ++ [⟨id, .knownEpoch i, request.epoch⟩])) (hsettled : Settled id i past)
    (r : Except SequencerError Token) : Heeds id job
      (past ++ [⟨id, .knownEpoch i, request.epoch⟩] ++ [⟨id, .allocate request, r⟩]) where
  told := h.told_concat (by simp)
  asked := by
    intro j hj before request' r' after heq
    rcases eq_of_concat_eq_append_cons heq with ⟨-, hself, hbefore⟩ | ⟨after', rfl, hbefore⟩
    · cases hself
      obtain rfl : i = j := Option.some.inj (hi.symm.trans hj)
      exact ⟨past, hbefore.symm, hsettled⟩
    · exact h.asked j hj _ _ _ _ hbefore

/-- The client is told the epoch of an answer. -/
lemma observe (hi : job.client? = some i) {request : TokenRequest}
    {r : Except SequencerError Token} {epoch : Epoch} (htold : toldEpoch? r = some epoch)
    (h : Heeds id job (past ++ [⟨id, .allocate request, r⟩])) : Heeds id job
      (past ++ [⟨id, .allocate request, r⟩] ++ [⟨id, .observeEpoch i epoch, ()⟩]) where
  told := by
    intro j epoch' u hmem
    rcases List.mem_append.mp hmem with hmem | hmem
    · obtain ⟨hclient, request', r', hmem, htold'⟩ := h.told hmem
      exact ⟨hclient, request', r', List.mem_append_left _ hmem, htold'⟩
    · cases List.mem_singleton.mp hmem
      exact ⟨hi, request, r, by simp, htold⟩
  asked _ := h.asked_concat nofun

end Heeds

/-! ## Programs that keep to it -/

open NodeProgram (Vows)

/-- Programs of the chain have nothing to do with epochs. -/
lemma heeds_ofChain {p : ChainProgram α} (h : Heeds id job past) :
    Vows id (Heeds id job) (fun _ past' => ∃ more, (∀ event ∈ more, event.OnUnit) ∧
      past' = past ++ more) (NodeProgram.ofChain p) past :=
  NodeProgram.vows_ofChain h Heeds.onUnit

/-- What a request is to leave behind: if it is granted, or refused for its epoch only, then the
client was told. -/
def Informs (id i : Nat) (job : Job) {α : Type} (r : Except ServerError α) (past : List Event) :
    Prop :=
  Heeds id job past ∧ ((∀ e, r = .error e → Client.isWorthRetrying e = true) → Settled id i past)

namespace Client

lemma heeds_requestToken (hindex : c.index = i) (hi : job.client? = some i)
    (request : TokenRequest)
    (h : Heeds id job (past ++ [⟨id, .knownEpoch i, request.epoch⟩]))
    (hsettled : Settled id i past) :
    Vows id (Heeds id job) (Informs id i job) (c.requestToken request)
      (past ++ [⟨id, .knownEpoch i, request.epoch⟩]) := by
  subst hindex
  have hsettled' : Settled id c.index (past ++ [⟨id, .knownEpoch c.index, request.epoch⟩]) :=
    hsettled.concat fun request hne => by cases hne
  intro r
  have hasked := h.allocate hi hsettled r
  refine ⟨hasked, ?_⟩
  cases r with
  | ok token =>
    intro u
    exact ⟨hasked.observe hi rfl, hasked.observe hi rfl, fun _ => hsettled'.request rfl⟩
  | error e =>
    cases e with
    | staleEpoch requested current =>
      intro u
      exact ⟨hasked.observe hi rfl, hasked.observe hi rfl, fun _ => hsettled'.request rfl⟩
    | invalidArgument | tailOverflow | serviceUnavailable | internal =>
      exact ⟨hasked, fun hworth => absurd (hworth _ rfl) (by simp [isWorthRetrying,
        SequencerError.isStaleEpoch])⟩

/-- A request that begins with looking up what the client knows. -/
lemma heeds_knownRequest (hindex : c.index = i) (hi : job.client? = some i)
    (request : Epoch → TokenRequest) (hrequest : ∀ epoch, (request epoch).epoch = epoch)
    (h : Heeds id job past) (hsettled : Settled id i past) :
    Vows id (Heeds id job) (Informs id i job)
      (c.knownEpoch.bind fun epoch => c.requestToken (request epoch)) past := by
  intro epoch
  have hknown : Heeds id job (past ++ [⟨id, .knownEpoch c.index, epoch⟩]) :=
    h.concat ⟨fun request hne => (by cases hne), fun i epoch hne => (by cases hne)⟩
  refine ⟨hknown, ?_⟩
  subst hindex
  have hvows := heeds_requestToken (c := c) rfl hi (request epoch)
    (by rw [hrequest]; exact hknown) hsettled
  rw [hrequest] at hvows
  exact hvows

/-- An attempt to append. -/
lemma heeds_tryAppend (hindex : c.index = i) (hi : job.client? = some i) {streams : StreamSet}
    {payload : List UInt8} (h : Heeds id job past) (hsettled : Settled id i past) :
    Vows id (Heeds id job) (Informs id i job) (c.tryAppend chain streams payload) past := by
  have heq : c.tryAppend chain streams payload =
      (c.knownEpoch.bind fun epoch => c.requestToken ⟨epoch, 1, streams⟩).andThen fun token =>
        (NodeProgram.onChain (chain.write token.first (.forToken token payload))).andThen fun () =>
          .done (.ok token.first) := by
    rw [tryAppend, Program.andThen, Program.bind_assoc]
    rfl
  rw [heq]
  refine (heeds_knownRequest hindex hi (fun epoch => ⟨epoch, 1, streams⟩)
    (fun _ => rfl) h hsettled).andThen (fun token past₁ hinforms => ?_) fun e past₁ hinforms =>
      ⟨hinforms.1, fun hworth => hinforms.2 fun e' he' => hworth e' (by cases he'; rfl)⟩
  have hsettled₁ := hinforms.2 fun e he => by cases he
  have hwrite : Vows id (Heeds id job) (Informs id i job)
      (NodeProgram.onChain (chain.write token.first (.forToken token payload))) past₁ := by
    refine Vows.mapError (((heeds_ofChain hinforms.1).kept hinforms.1).mono ?_)
    rintro r past₂ ⟨⟨more, hmore, rfl⟩, hheeds⟩
    exact ⟨hheeds, fun _ => hsettled₁.append hmore⟩
  exact hwrite.andThen (fun _ past₂ h₂ => ⟨h₂.1, fun _ => h₂.2 fun e he => by cases he⟩)
    fun e past₂ h₂ => ⟨h₂.1, fun hworth => h₂.2 fun e' he' => hworth e' (by cases he'; rfl)⟩

lemma heeds_appendAttempts (hindex : c.index = i) (hi : job.client? = some i)
    {streams : StreamSet} {payload : List UInt8} {more : Nat} (h : Heeds id job past)
    (hsettled : Settled id i past) :
    Vows id (Heeds id job) (fun _ _ => True) (c.appendAttempts chain streams payload more)
      past := by
  induction more generalizing past with
  | zero => exact (heeds_tryAppend hindex hi h hsettled).mono fun _ _ _ => trivial
  | succ more ih =>
    refine (heeds_tryAppend hindex hi h hsettled).bind fun r past₁ hinforms => ?_
    cases r with
    | ok position => trivial
    | error e =>
      dsimp only
      split
      · rename_i hworth
        exact ih hinforms.1 (hinforms.2 fun e' he' => by cases he'; exact hworth)
      · trivial

lemma heeds_tails (hindex : c.index = i) (hi : job.client? = some i) {streams : StreamSet}
    (h : Heeds id job past) (hsettled : Settled id i past) :
    Vows id (Heeds id job) (fun _ past' => Heeds id job past') (c.tails streams) past := by
  have hquery : ∀ past, Heeds id job past → Settled id i past →
      Vows id (Heeds id job) (Informs id i job) (c.queryTails streams) past :=
    fun past => heeds_knownRequest hindex hi (fun epoch => .query epoch streams) fun _ => rfl
  refine (hquery past h hsettled).bind fun r past₁ hinforms => ?_
  split
  · exact (hquery past₁ hinforms.1 (hinforms.2 fun e he => by cases he; rfl)).mono
      fun _ _ h => h.1
  · exact hinforms.1

lemma heeds_walkBack {stream : StreamId} {n : Nat} {position : Option Position}
    {found : List (Position × LogEntry)} (h : Heeds id job past) :
    Vows id (Heeds id job) (fun _ _ => True) (walkBack chain stream n position found) past := by
  induction n generalizing position found past with
  | zero =>
    cases position with
    | none => trivial
    | some p => rfl
  | succ n ih =>
    cases position with
    | none => trivial
    | some p =>
      have hread : Vows id (Heeds id job) (fun _ past' => Heeds id job past')
          (NodeProgram.onChain (chain.read p)) past :=
        Vows.mapError (((heeds_ofChain h).kept h).mono fun _ _ h' => h'.2)
      refine hread.andThen (fun data past₁ h₁ => ?_) fun _ _ _ => trivial
      cases data with
      | hole => exact ih h₁
      | entry entry =>
        dsimp only
        split <;> exact ih h₁

end Client

namespace Bootstrapper

variable {b : Bootstrapper} {change : LayoutChange}

/-- A replay asks nobody but units. -/
lemma heeds_replayFrom {batchSize stop next : Nat} {found : TailSnapshot}
    (h : Heeds id job past) :
    Vows id (Heeds id job) (fun _ past' => Heeds id job past')
      ((replayFrom batchSize stop next found).interpret chain.readMany) past := by
  induction next, found using replayFrom.induct batchSize stop generalizing past with
  | case1 next found hnext batchEnd =>
    rename_i ih
    rw [interpret_replayFrom_of_lt chain.readMany hnext]
    have hread : Vows id (Heeds id job) (fun _ past' => Heeds id job past')
        (chain.readMany (positionsBetween next batchEnd)) past :=
      (((NodeProgram.vows_readTogether h Heeds.onUnit).kept h).mono fun _ _ h' => h'.2).andThen
        (fun _ _ h' => h') fun _ _ h' => h'
    exact hread.andThen (fun readings past h' => ih readings h') fun _ _ h' => h'
  | case2 next found hnext =>
    rw [interpret_replayFrom_of_le chain.readMany (Nat.not_lt.mp hnext)]
    exact h

lemma heeds_tryBootstrap (h : Heeds id job past) :
    Vows id (Heeds id job) (fun _ past' => Heeds id job past') (b.tryBootstrap chain change)
      past := by
  have hrequest : Vows id (Heeds id job) (fun _ past' => Heeds id job past')
      (b.requestFor chain change) past := by
    unfold requestFor
    split
    · have hreplay : Vows id (Heeds id job) (fun _ past' => Heeds id job past')
          ((chain.rebuildTails change.rebuildStart change.globalTailHint change.streamTailHints
            b.settings.replayBatchSize.toNat).mapError ServerError.replication) past :=
        Vows.mapError (heeds_replayFrom h)
      exact hreplay.andThen (fun _ _ h' => h') fun _ _ h' => h'
    · exact h
  refine hrequest.andThen (fun request past₁ h₁ => Vows.mapError fun r => ?_) fun _ _ h' => h'
  have hnext : Heeds id job (past₁ ++ [⟨id, .bootstrap request, r⟩]) :=
    h₁.concat ⟨fun request hne => (by cases hne), fun i epoch hne => (by cases hne)⟩
  exact ⟨hnext, hnext⟩

/-- Whatever is done for a change of layout, no client is told of anything. -/
lemma heeds_handle (h : Heeds id job past) :
    Vows id (Heeds id job) (fun _ _ => True) (b.handle chain change) past := by
  have hattempts : ∀ more delay past, Heeds id job past →
      Vows id (Heeds id job) (fun _ _ => True)
        (attempts (b.tryBootstrap chain change) more delay) past := by
    intro more
    induction more with
    | zero => exact fun _ _ h => (heeds_tryBootstrap h).mono fun _ _ _ => trivial
    | succ more ih =>
      refine fun delay past h => (heeds_tryBootstrap h).bind fun r past₁ h₁ => ?_
      cases r with
      | ok outcome => trivial
      | error e =>
        dsimp only
        split
        · exact fun late => ih _ _ h₁
        · trivial
  unfold handle
  split
  · trivial
  · refine (hattempts _ _ _ h).bind fun r past₁ _ => ?_
    cases r <;> trivial

end Bootstrapper

/-- What is started for a job keeps to it. -/
theorem Job.heeds {n : Node} (hnumbered : ∀ i (c : Client), n.clients[i]? = some c → c.index = i)
    {program : NodeProgram job.Result} (hprogram : job.program? n = some program) :
    program.Vows id (Heeds id job) (fun _ _ => True) [] := by
  have hchain : ∀ {α : Type} (p : ChainProgram α),
      Vows id (Heeds id job) (fun _ _ => True) (NodeProgram.ofChain p) [] := fun p =>
    (heeds_ofChain .nil).mono fun _ _ _ => trivial
  cases job with
  | peek position | write position entry | holeFill position | read position =>
    cases hprogram
    exact hchain _
  | readMany positions =>
    cases hprogram
    exact (NodeProgram.vows_readTogether .nil Heeds.onUnit).andThen (fun _ _ _ => trivial)
      fun _ _ _ => trivial
  | append client streams payload =>
    obtain ⟨c, hc, rfl⟩ := Option.map_eq_some_iff.mp hprogram
    exact Client.heeds_appendAttempts (hnumbered client c hc) rfl .nil .nil
  | tails client streams =>
    obtain ⟨c, hc, rfl⟩ := Option.map_eq_some_iff.mp hprogram
    exact (Client.heeds_tails (hnumbered client c hc) rfl .nil .nil).mono fun _ _ _ => trivial
  | clientRead client position =>
    obtain ⟨c, hc, rfl⟩ := Option.map_eq_some_iff.mp hprogram
    exact Vows.mapError (hchain _)
  | readStream client stream =>
    obtain ⟨c, hc, rfl⟩ := Option.map_eq_some_iff.mp hprogram
    refine (Client.heeds_tails (hnumbered client c hc) rfl .nil .nil).andThen
      (fun token past h => ?_) fun _ _ _ => trivial
    exact fun n _ => Client.heeds_walkBack h
  | allocate request =>
    cases hprogram
    exact fun r => ⟨Heeds.nil.concat_of_no_client rfl fun i epoch hne => (by cases hne), trivial⟩
  | bootstrap request =>
    cases hprogram
    exact fun r => ⟨Heeds.nil.concat
      ⟨fun request hne => (by cases hne), fun i epoch hne => (by cases hne)⟩, trivial⟩
  | layout change =>
    cases hprogram
    exact Bootstrapper.heeds_handle .nil

end SharedLog
