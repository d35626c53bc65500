/-
# What the sequencer tells of itself

The sequencer's counts are an account of its history. Each count is compared here with the services
that it stands for: queries that were answered, requests that were refused for their epoch, whether
for positions or for a bootstrap, bootstraps that took effect, and positions that were handed out.

As long as no full reset takes effect, the runs that were given lie one behind the other before the
global tail. If no bootstrap takes effect at all, they lie there without a gap: whatever was refused
in between, the next run begins where the last one has ended.
-/
import Mathlib.Data.Set.Card
import SharedLog.Proofs.Run.Extent
import SharedLog.Proofs.Sequencer.Fencing

namespace SharedLog

/-! ## What is counted -/

namespace Service

variable {x : Service} {token : Token}

/-- Whether the service answered a query of the tails. -/
def answersQuery : Service → Bool
  | ⟨.allocate request, .ok _⟩ => request.isQuery
  | _ => false

/-- Whether the service refused a request, of whatever kind, for its epoch. -/
def refusesStale : Service → Bool
  | ⟨_, .error (.staleEpoch ..)⟩ => true
  | _ => false

/-- Whether the service was a bootstrap that took effect. -/
def applies : Service → Bool
  | ⟨.bootstrap .., .ok .applied⟩ => true
  | _ => false

/-- The token of the run that the service gave, if it gave one. -/
def run? : Service → Option Token
  | ⟨.allocate _, .ok token⟩ => if token.count = 0 then none else some token
  | _ => none

lemma run?_eq_some_iff : x.run? = some token ↔ ∃ request, x.Gives request token := by
  match x with
  | ⟨.allocate request, .ok given⟩ =>
    by_cases hcount : given.count = 0
    · simp only [run?, if_pos hcount, reduceCtorEq, false_iff]
      rintro ⟨request', heq, hne⟩
      cases heq
      exact hne hcount
    · simp only [run?, if_neg hcount, Option.some.injEq]
      constructor
      · rintro rfl
        exact ⟨request, rfl, hcount⟩
      · rintro ⟨request', heq, -⟩
        cases heq
        rfl
  | ⟨.allocate _, .error _⟩ | ⟨.bootstrap .., _⟩ | ⟨.metrics, _⟩ =>
    simp [run?, Gives]

lemma run?_eq_none (h : ∀ request token, ¬ x.Gives request token) : x.run? = none := by
  cases hrun : x.run? with
  | none => rfl
  | some token =>
    obtain ⟨request, hgives⟩ := run?_eq_some_iff.mp hrun
    exact absurd hgives (h request token)

/-- A full reset that took effect is a bootstrap that took effect. -/
lemma resets_eq_false (h : x.applies = false) : x.resets = false := by
  match x with
  | ⟨.bootstrap .., .ok .applied⟩ => cases h
  | ⟨.bootstrap .., .ok .alreadyApplied⟩ | ⟨.bootstrap .., .error _⟩ | ⟨.allocate _, _⟩
  | ⟨.metrics, _⟩ => rfl

end Service

/-- The runs that were given, in their order. -/
def runsOf (past : List Service) : List Token := past.filterMap Service.run?

/-- How many positions were handed out. -/
def handedOut (past : List Service) : Nat := ((runsOf past).map fun token => token.count.toNat).sum

lemma runsOf_append (past : List Service) (x : Service) :
    runsOf (past ++ [x]) = runsOf past ++ x.run?.toList := by
  cases h : x.run? <;> simp [runsOf, h]

lemma handedOut_append (past : List Service) (x : Service) : handedOut (past ++ [x]) =
    handedOut past + (x.run?.map fun token => token.count.toNat).getD 0 := by
  rw [handedOut, runsOf_append]
  cases x.run? <;> simp [handedOut]

namespace Sequencer

variable {q q' : Sequencer} {x : Service} {past : List Service} {command : Command}

/-! ## Counts -/

lemma toNat_addSaturating (m n : UInt64) :
    (addSaturating m n).toNat = min (m.toNat + n.toNat) (UInt64.size - 1) := by
  unfold addSaturating
  split
  · rename_i hlt
    rw [UInt64.toNat_add, Nat.mod_eq_of_lt hlt]
    omega
  · rename_i hle
    rw [UInt64.toNat_ofNat_of_lt' (by decide)]
    omega

/-- One more of something that is counted, if it happened. -/
def tick (n : UInt64) (happened : Bool) : UInt64 := if happened then n + 1 else n

/-- What a service does to the counts. -/
structure Charges (q : Sequencer) (x : Service) (q' : Sequencer) : Prop where
  queriesServed : q'.queriesServed = tick q.queriesServed x.answersQuery
  staleRejections : q'.staleRejections = tick q.staleRejections x.refusesStale
  bootstraps : q'.bootstraps = tick q.bootstraps x.applies
  tokensIssued : q'.tokensIssued =
    (x.run?.map fun token => addSaturating q.tokensIssued token.count).getD q.tokensIssued

lemma Allocated.charges {request : TokenRequest} {r : Except SequencerError Token}
    (h : q.Allocated request r q') : q.Charges ⟨.allocate request, r⟩ q' := by
  cases h with
  | stale | tooMany | overflow => exact ⟨rfl, rfl, rfl, rfl⟩
  | queried hepoch hcount =>
    refine ⟨?_, rfl, rfl, rfl⟩
    simp [tick, Service.answersQuery, TokenRequest.isQuery, hcount]
  | granted hepoch hcount =>
    refine ⟨?_, rfl, rfl, ?_⟩
    · simp [tick, Service.answersQuery, TokenRequest.isQuery, hcount, grant]
    · simp [Service.run?, hcount, grant]

lemma Bootstrapped.charges {request : BootstrapRequest} {now : Timestamp}
    {r : Except SequencerError BootstrapOutcome} (h : q.Bootstrapped request now r q') :
    q.Charges ⟨.bootstrap request now, r⟩ q' := by
  cases h with
  | stale | already | applied => exact ⟨rfl, rfl, rfl, rfl⟩
  | refused h =>
    -- hints are refused for other reasons than the epoch
    obtain ⟨-, detail, rfl⟩ | ⟨-, s, p, -, -, rfl⟩ := reseed_eq_error h <;>
      exact ⟨rfl, rfl, rfl, rfl⟩

theorem charges_serve (q : Sequencer) (command : Command) :
    q.Charges ⟨command, (q.serve command).1⟩ (q.serve command).2 := by
  cases command with
  | allocate request => exact (q.allocated_allocate request).charges
  | bootstrap request now => exact (q.bootstrapped_bootstrap request now).charges
  | metrics => exact ⟨rfl, rfl, rfl, rfl⟩

/-- The counts tell how often something was done, up to what a count can hold. -/
structure Counts (past : List Service) (q : Sequencer) : Prop where
  queriesServed : q.queriesServed = .ofNat (past.countP Service.answersQuery)
  staleRejections : q.staleRejections = .ofNat (past.countP Service.refusesStale)
  bootstraps : q.bootstraps = .ofNat (past.countP Service.applies)
  tokensIssued : q.tokensIssued.toNat = min (handedOut past) (UInt64.size - 1)

lemma tick_ofNat (counted : Service → Bool) (past : List Service) (x : Service) :
    tick (.ofNat (past.countP counted)) (counted x) =
      .ofNat ((past ++ [x]).countP counted) := by
  rw [List.countP_append, List.countP_singleton, tick]
  split
  · rw [UInt64.ofNat_add]
    rfl
  · rw [Nat.add_zero]

lemma Counts.serve (h : Counts past q) (hcharges : q.Charges x q') : Counts (past ++ [x]) q' where
  queriesServed := by rw [hcharges.queriesServed, h.queriesServed, tick_ofNat]
  staleRejections := by rw [hcharges.staleRejections, h.staleRejections, tick_ofNat]
  bootstraps := by rw [hcharges.bootstraps, h.bootstraps, tick_ofNat]
  tokensIssued := by
    rw [hcharges.tokensIssued, handedOut_append]
    cases x.run? with
    | none => exact h.tokensIssued
    | some token =>
      simp only [Option.map_some, Option.getD_some, toNat_addSaturating, h.tokensIssued]
      omega

theorem counts_history (epoch : Epoch) (maxTokens : UInt64) (commands : List Command) :
    Counts ((new epoch maxTokens).history commands) ((new epoch maxTokens).after commands) :=
  history_induction ⟨rfl, rfl, rfl, rfl⟩
    (fun _ q command h => h.serve (q.charges_serve command)) commands

/-- As many streams have a tail as are kept. -/
lemma size_streamTails (q : Sequencer) :
    q.streamTails.size = {stream | (q.streamTail stream).isSome}.ncard := by
  have hset : {stream | (q.streamTail stream).isSome} =
      (q.streamTails.keys.toFinset : Set StreamId) := by
    ext stream
    simp [streamTail]
  rw [hset, Set.ncard_coe_finset, List.toFinset_card_of_nodup Std.ExtTreeMap.nodup_keys,
    Std.ExtTreeMap.length_keys]

/-! ## Runs before the global tail -/

/-- Runs lie one behind the other, and all of them before the global tail. -/
structure Lines (runs : List Token) (tail : Position) : Prop where
  ordered : runs.Pairwise fun token token' =>
    token.first.val + token.count.toNat ≤ token'.first.val
  before : ∀ token ∈ runs, token.first.val + token.count.toNat ≤ tail.val
  total : (runs.map fun token => token.count.toNat).sum ≤ tail.val

/-- Runs fill everything before the global tail, in their order. -/
structure Fills (runs : List Token) (tail : Position) : Prop where
  total : (runs.map fun token => token.count.toNat).sum = tail.val
  positions : (runs.flatMap Token.positions).map (·.val) = List.range tail.val

variable {runs : List Token} {tail tail' : Position} {token : Token}

lemma Lines.raise (h : Lines runs tail) (hle : tail ≤ tail') : Lines runs tail' :=
  ⟨h.ordered, fun token hmem => Nat.le_trans (h.before token hmem) hle,
    Nat.le_trans h.total hle⟩

/-- The next run begins at the global tail. -/
lemma Lines.append (h : Lines runs tail) (hfirst : token.first = tail)
    (ends : tail'.val = tail.val + token.count.toNat) : Lines (runs ++ [token]) tail' where
  ordered := by
    refine List.pairwise_append.mpr ⟨h.ordered, List.pairwise_singleton .., ?_⟩
    intro earlier hmem later hlater
    rw [List.mem_singleton.mp hlater, hfirst]
    exact h.before earlier hmem
  before := by
    intro later hmem
    rcases List.mem_append.mp hmem with hmem | hmem
    · have := h.before later hmem
      omega
    · rw [List.mem_singleton.mp hmem, hfirst, ends]
  total := by
    have := h.total
    simp only [List.map_append, List.map_cons, List.map_nil, List.sum_append, List.sum_singleton]
    omega

lemma Fills.append (h : Fills runs tail) (hfirst : token.first = tail)
    (ends : tail'.val = tail.val + token.count.toNat) : Fills (runs ++ [token]) tail' where
  total := by
    simp only [List.map_append, List.map_cons, List.map_nil, List.sum_append, List.sum_singleton,
      h.total, ends]
  positions := by
    have hrange : token.first.val + token.count.toNat < Position.bound := by
      rw [hfirst, ← ends]
      exact tail'.isLt
    rw [List.flatMap_append, List.map_append, h.positions, List.flatMap_singleton,
      Token.map_val_positions, Token.length_eq_iff.mpr hrange, hfirst, ends, List.range_add]
    simp [List.range'_eq_map_range]

/-- Unless a full reset takes effect, a run is added at the global tail, or the tail goes up and no
run is added. It does not go up unless a bootstrap takes effect. -/
lemma Served.run_or_raise (h : q.Served x q') (hreset : x.resets = false) :
    (∃ token, x.run? = some token ∧ token.first = q.globalTail ∧
      q'.globalTail.val = q.globalTail.val + token.count.toNat) ∨
    x.run? = none ∧ q.globalTail ≤ q'.globalTail ∧
      (x.applies = false → q'.globalTail = q.globalTail) := by
  have hle := h.keeps.2.2 (.inl hreset)
  cases h with
  | idle gives applies epoch globalTail =>
    exact .inr ⟨Service.run?_eq_none gives, hle, fun _ => globalTail⟩
  | gave epoch count ends =>
    exact .inl ⟨_, if_neg count, rfl, ends⟩
  | merged => exact .inr ⟨rfl, hle, fun happlies => by cases happlies⟩
  | reset reset =>
    rw [Service.resets, reset] at hreset
    cases hreset

/-- As long as no full reset takes effect, runs lie before the global tail. -/
theorem lines_history (epoch : Epoch) (maxTokens : UInt64) (commands : List Command) :
    (∀ x ∈ (new epoch maxTokens).history commands, x.resets = false) →
      Lines (runsOf ((new epoch maxTokens).history commands))
        ((new epoch maxTokens).after commands).globalTail := by
  refine history_induction (motive := fun past q =>
    (∀ x ∈ past, x.resets = false) → Lines (runsOf past) q.globalTail) (fun _ => ?_) ?_ commands
  · exact ⟨List.Pairwise.nil, by simp [runsOf], by simp [runsOf]⟩
  · intro past q command ih hreset
    have hbefore := ih fun x hx => hreset x (List.mem_append_left _ hx)
    rw [runsOf_append]
    obtain ⟨token, hrun, hfirst, ends⟩ | ⟨hrun, hle, -⟩ :=
      (q.served_serve command).run_or_raise (hreset _ (by simp)) <;> rw [hrun]
    · exact hbefore.append hfirst ends
    · exact (List.append_nil _).symm ▸ hbefore.raise hle

/-- As long as no bootstrap takes effect, runs fill everything before the global tail. -/
theorem fills_history (epoch : Epoch) (maxTokens : UInt64) (commands : List Command) :
    (∀ x ∈ (new epoch maxTokens).history commands, x.applies = false) →
      Fills (runsOf ((new epoch maxTokens).history commands))
        ((new epoch maxTokens).after commands).globalTail := by
  refine history_induction (motive := fun past q =>
    (∀ x ∈ past, x.applies = false) → Fills (runsOf past) q.globalTail) (fun _ => ⟨rfl, rfl⟩) ?_
    commands
  intro past q command ih happlies
  have hbefore := ih fun x hx => happlies x (List.mem_append_left _ hx)
  have happly := happlies ⟨command, (q.serve command).1⟩ (by simp)
  rw [runsOf_append]
  obtain ⟨token, hrun, hfirst, ends⟩ | ⟨hrun, -, hsame⟩ :=
    (q.served_serve command).run_or_raise (Service.resets_eq_false happly) <;> rw [hrun]
  · exact hbefore.append hfirst ends
  · rw [hsame happly]
    exact (List.append_nil _).symm ▸ hbefore

/-! ## The account -/

/-- What a sequencer tells of itself is an exact account of its history, as long as it has served
fewer than `2 ^ 64` commands: so many queries were answered, so many requests of either kind were
refused for their epoch, so many bootstraps took effect, so many streams have a tail, and so many
positions were handed out, up to the largest count.

If no full reset took effect, then the runs that were given are disjoint intervals before the global
tail, so that what was handed out does not exceed the tail and its count is not cut. If no bootstrap
took effect at all, then as many positions were handed out as lie before the global tail, and the
positions of the runs, in the order in which they were given, are all positions before it. -/
theorem metrics_account (epoch : Epoch) (maxTokens : UInt64) (commands : List Command)
    (hshort : commands.length < 2 ^ 64) (q : Sequencer) (past : List Service)
    (hq : q = (new epoch maxTokens).after commands)
    (hpast : past = (new epoch maxTokens).history commands) :
    q.metrics.queriesServed.toNat = past.countP Service.answersQuery ∧
    q.metrics.staleRejections.toNat = past.countP Service.refusesStale ∧
    q.metrics.bootstraps.toNat = past.countP Service.applies ∧
    q.metrics.streamCount = {stream | (q.streamTail stream).isSome}.ncard ∧
    q.metrics.tokensIssued.toNat = min (handedOut past) (2 ^ 64 - 1) ∧
    ((∀ x ∈ past, x.resets = false) →
      handedOut past ≤ q.metrics.globalTail.val ∧
      q.metrics.tokensIssued.toNat = handedOut past ∧
      (runsOf past).Pairwise (fun token token' =>
        token.first.val + token.count.toNat ≤ token'.first.val) ∧
      ∀ token ∈ runsOf past,
        token.first.val + token.count.toNat ≤ q.metrics.globalTail.val) ∧
    ((∀ x ∈ past, x.applies = false) →
      q.metrics.tokensIssued.toNat = q.metrics.globalTail.val ∧
      ((runsOf past).flatMap Token.positions).map (·.val) =
        List.range q.metrics.globalTail.val) := by
  subst hq hpast
  have hcounts := counts_history epoch maxTokens commands
  have hlines := lines_history epoch maxTokens commands
  have hfills := fills_history epoch maxTokens commands
  have hlength : ((new epoch maxTokens).history commands).length = commands.length := by
    simpa using congrArg List.length ((new epoch maxTokens).map_command_history commands)
  generalize (new epoch maxTokens).after commands = q,
    (new epoch maxTokens).history commands = past at *
  have hexact (counted : Service → Bool) :
      (UInt64.ofNat (past.countP counted)).toNat = past.countP counted := by
    refine UInt64.toNat_ofNat_of_lt' (Nat.lt_of_le_of_lt List.countP_le_length ?_)
    rw [hlength]
    exact hshort
  have hissued : q.tokensIssued.toNat = min (handedOut past) (2 ^ 64 - 1) := hcounts.tokensIssued
  have huncut (hle : handedOut past ≤ q.globalTail.val) :
      q.tokensIssued.toNat = handedOut past := by
    have := q.globalTail.val_lt
    omega
  refine ⟨?_, ?_, ?_, q.size_streamTails, hissued, fun hreset => ?_, fun happlies => ?_⟩
  · exact (congrArg UInt64.toNat hcounts.queriesServed).trans (hexact _)
  · exact (congrArg UInt64.toNat hcounts.staleRejections).trans (hexact _)
  · exact (congrArg UInt64.toNat hcounts.bootstraps).trans (hexact _)
  · obtain ⟨hordered, hbefore, htotal⟩ := hlines hreset
    exact ⟨htotal, huncut htotal, hordered, hbefore⟩
  · obtain ⟨htotal, hpositions⟩ := hfills happlies
    exact ⟨(huncut (Nat.le_of_eq htotal)).trans htotal, hpositions⟩

/-- A query, a request under an old epoch and one for too many positions come between two runs. -/
theorem metrics_account_of_five :
    let epoch : Epoch := ⟨1, by decide⟩
    let stream : StreamId := ⟨7, by decide⟩
    let run (epoch : Epoch) (count : UInt64) : Command := .allocate ⟨epoch, count, .ofList [stream]⟩
    let commands := [run epoch 2, run epoch 0, run Epoch.zero 1, run epoch 6, run epoch 3]
    let q := (new epoch 5).after commands
    let past := (new epoch 5).history commands
    (runsOf past).map (·.count) = [2, 3] ∧
      q.metrics.queriesServed.toNat = 1 ∧ q.metrics.staleRejections.toNat = 1 ∧
      q.metrics.bootstraps.toNat = 0 ∧ q.metrics.tokensIssued.toNat = 5 ∧
      q.metrics.globalTail.val = 5 ∧
      ((runsOf past).flatMap Token.positions).map (·.val) = [0, 1, 2, 3, 4] := by
  intro epoch stream run commands q past
  obtain ⟨hqueries, hstale, hbootstraps, -, hissued, -, hdense⟩ :=
    metrics_account epoch 5 commands (by decide) q past rfl rfl
  have happlies : ∀ x ∈ past, x.applies = false := by decide +kernel
  obtain ⟨htail, hpositions⟩ := hdense happlies
  have htotal : q.metrics.tokensIssued.toNat = 5 := hissued.trans (by decide +kernel)
  have hend : q.metrics.globalTail.val = 5 := htail.symm.trans htotal
  rw [hend] at hpositions
  exact ⟨by decide +kernel, hqueries.trans (by decide +kernel), hstale.trans (by decide +kernel),
    hbootstraps.trans (by decide +kernel), htotal, hend, hpositions⟩

end Sequencer

end SharedLog
