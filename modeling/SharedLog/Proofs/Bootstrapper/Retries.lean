/-
# Attempts and the pauses between them

However the units and the sequencer answer, a change of layout that is not outdated is tried up to
the first attempt that settles it, but not more often than the settings allow, and once in any case.
Between two attempts there is a pause, twice as long as the one before until it is the longest that
there can be, and there is none after the last attempt. The last attempt decides on the reply.
-/
import Mathlib.Data.Nat.Find
import Mathlib.Order.Bounds.Basic
import Mathlib.Tactic.Ring
import SharedLog.Bootstrapper
import SharedLog.Proofs.Program.Runs

namespace SharedLog

open Program

/-! ## The attempts of a bootstrap -/

namespace Bootstrapper

variable {b : Bootstrapper} {chain : Chain} {change : LayoutChange}

/-- The reads of a replay are calls, and it sleeps between none of them. -/
lemma sleepless_replayFrom (batchSize stop next : Nat) (found : TailSnapshot) :
    ((replayFrom batchSize stop next found).interpret chain.readMany).Sleepless := by
  induction next, found using replayFrom.induct batchSize stop with
  | case1 next found hnext batchEnd ih =>
    rw [replayFrom, dif_pos hnext, interpret_andThen, interpret_ask]
    exact ((sleepless_ask _).andThen fun _ => sleepless_done _).andThen ih
  | case2 next found hnext =>
    rw [replayFrom, dif_neg hnext]
    exact sleepless_done _

/-- An attempt does not sleep by itself. -/
lemma sleepless_tryBootstrap : (b.tryBootstrap chain change).Sleepless := by
  refine Sleepless.andThen ?_ fun request => (sleepless_ask _).mapError
  rw [requestFor]
  split
  · exact (sleepless_replayFrom _ _ _ _).mapError.andThen fun _ => sleepless_done _
  · exact sleepless_done _

/-- How an attempt can end: as the sequencer answers, or with a failure of a read. Only a full reset
reads, and only if it has a range to replay. -/
inductive CanEnd (change : LayoutChange) : Except ServerError BootstrapOutcome → Prop
  | answered (r : Except SequencerError BootstrapOutcome) : CanEnd change (r.mapError .sequencer)
  | unread (e : ReplicationError) (hreset : change.fullReset = true)
      (hrange : change.rebuildStart < change.globalTailHint) :
      CanEnd change (.error (.replication e))

/-- A replay can succeed, whatever its range is. -/
lemma exists_runs_replayFrom (chain : Chain) (batchSize stop next : Nat) (found : TailSnapshot) :
    ∃ trace snapshot, ((replayFrom batchSize stop next found).interpret chain.readMany).Runs trace
      (.ok snapshot) := by
  induction next, found using replayFrom.induct batchSize stop with
  | case1 next found hnext batchEnd ih =>
    rw [replayFrom, dif_pos hnext, interpret_andThen, interpret_ask]
    obtain ⟨trace, snapshot, htrace⟩ := ih ∅
    exact ⟨_, snapshot, runs_andThen_iff.mpr (.inr ⟨_, ∅, trace, rfl,
      runs_andThen_iff.mpr (.inr ⟨_, [], [], rfl, .call (.done _), .done _⟩), htrace⟩)⟩
  | case2 next found hnext =>
    rw [replayFrom, dif_neg hnext]
    exact ⟨[], found, .done _⟩

/-- A replay can fail in any way, if it has something to read, and else it cannot. -/
lemma exists_runs_error_replayFrom_iff (chain : Chain) (batchSize stop next : Nat)
    (found : TailSnapshot) (e : ReplicationError) :
    (∃ trace, ((replayFrom batchSize stop next found).interpret chain.readMany).Runs trace
      (.error e)) ↔ next < stop := by
  rw [replayFrom]
  split
  next hnext =>
    refine iff_of_true ?_ hnext
    rw [interpret_andThen, interpret_ask]
    exact ⟨_, runs_andThen_iff.mpr (.inl ⟨e, rfl,
      runs_andThen_iff.mpr (.inl ⟨e, rfl, .call (.done _)⟩)⟩)⟩
  next hnext =>
    refine iff_of_false ?_ hnext
    rintro ⟨trace, ⟨⟩⟩

lemma exists_runs_requestFor (b : Bootstrapper) (chain : Chain) (change : LayoutChange) :
    ∃ trace request, (b.requestFor chain change).Runs trace (.ok request) := by
  rw [requestFor]
  split
  · obtain ⟨trace, snapshot, htrace⟩ := exists_runs_replayFrom chain
      b.settings.replayBatchSize.toNat change.globalTailHint.val change.rebuildStart.val
      (.start change.globalTailHint change.streamTailHints)
    exact ⟨_, _, runs_andThen_iff.mpr (.inr ⟨trace, snapshot, [], rfl,
      runs_mapError_iff.mpr ⟨_, rfl, htrace⟩, .done _⟩)⟩
  · exact ⟨[], _, .done _⟩

lemma exists_runs_error_requestFor_iff {e : ServerError} :
    (∃ trace, (b.requestFor chain change).Runs trace (.error e)) ↔
      ∃ e', e = .replication e' ∧ change.fullReset = true ∧
        change.rebuildStart < change.globalTailHint := by
  have hreplay (e' : ReplicationError) := exists_runs_error_replayFrom_iff chain
    b.settings.replayBatchSize.toNat change.globalTailHint.val change.rebuildStart.val
    (.start change.globalTailHint change.streamTailHints) e'
  rw [requestFor]
  split
  next hreset =>
    constructor
    · rintro ⟨trace, hrequest⟩
      obtain ⟨_, ⟨⟩, hmapped⟩ | ⟨first, snapshot, rest, -, -, ⟨⟩⟩ := runs_andThen_iff.mp hrequest
      obtain ⟨_ | e', hr, h⟩ := runs_mapError_iff.mp hmapped <;> cases hr
      exact ⟨_, rfl, hreset, (hreplay _).mp ⟨trace, h⟩⟩
    · rintro ⟨e', rfl, -, hrange⟩
      obtain ⟨trace, h⟩ := (hreplay e').mpr hrange
      exact ⟨trace, runs_andThen_iff.mpr (.inl ⟨_, rfl, runs_mapError_iff.mpr ⟨_, rfl, h⟩⟩)⟩
  next hmerge =>
    constructor
    · rintro ⟨trace, ⟨⟩⟩
    · rintro ⟨-, -, hreset, -⟩
      exact absurd hreset hmerge

/-- There is a run of an attempt for each of its ends, and there are no other ones. -/
theorem exists_runs_tryBootstrap_iff {outcome : Except ServerError BootstrapOutcome} :
    (∃ trace, (b.tryBootstrap chain change).Runs trace outcome) ↔ CanEnd change outcome := by
  constructor
  · rintro ⟨trace, hattempt⟩
    obtain ⟨e, rfl, h⟩ | ⟨first, request, rest, -, -, h⟩ := runs_andThen_iff.mp hattempt
    · obtain ⟨e', rfl, hreset, hrange⟩ := exists_runs_error_requestFor_iff.mp ⟨trace, h⟩
      exact .unread e' hreset hrange
    · obtain ⟨r, rfl, -⟩ := runs_mapError_iff.mp h
      exact .answered r
  · rintro (⟨r⟩ | ⟨e, hreset, hrange⟩)
    · obtain ⟨first, request, hfirst⟩ := exists_runs_requestFor b chain change
      exact ⟨_, runs_andThen_iff.mpr (.inr ⟨first, request, _, rfl, hfirst,
        runs_mapError_iff.mpr ⟨r, rfl, .call (.done r)⟩⟩)⟩
    · obtain ⟨trace, h⟩ := exists_runs_error_requestFor_iff.mpr ⟨e, rfl, hreset, hrange⟩
      exact ⟨trace, runs_andThen_iff.mpr (.inl ⟨_, rfl, h⟩)⟩

/-- An attempt at a merge asks the sequencer once, and does nothing else. -/
lemma runs_tryBootstrap_of_merge (hmerge : change.fullReset = false)
    (r : Except SequencerError BootstrapOutcome) : (b.tryBootstrap chain change).Runs
      [.answered (.act (.bootstrap (.merge change.epoch change.globalTailHint
        change.streamTailHints))) r] (r.mapError .sequencer) := by
  have hrequest : b.requestFor chain change =
      .done (.ok (.merge change.epoch change.globalTailHint change.streamTailHints)) := by
    rw [requestFor, if_neg (by simp [hmerge])]
  rw [tryBootstrap, hrequest]
  exact runs_mapError_iff.mpr ⟨r, rfl, .call (.done r)⟩

/-! ## The failures that may pass -/

/-- A failure that may pass: a unit could not be reached, a position could not be decided, or the
sequencer is not there. -/
inductive MayPass : ServerError → Prop
  | network (detail : String) : MayPass (.replication (.network detail))
  | unresolved (position : Position) : MayPass (.replication (.unresolved position))
  | unavailable (detail : String) : MayPass (.sequencer (.serviceUnavailable detail))

lemma mayPass_iff {e : ServerError} : mayPass e = true ↔ MayPass e := by
  constructor
  · intro h
    match e, h with
    | .replication (.network detail), _ => exact .network detail
    | .replication (.unresolved position), _ => exact .unresolved position
    | .sequencer (.serviceUnavailable detail), _ => exact .unavailable detail
  · rintro (_ | _ | _) <;> rfl

/-- An attempt is the last one in any case: it succeeds, or its failure does not pass. -/
def Settles {α : Type} (outcome : Except ServerError α) : Prop :=
  ∀ e, outcome = .error e → ¬ MayPass e

/-! ## The pauses -/

/-- The pause in milliseconds after the attempt with the given number, the first one being number
zero: the base, doubled each time, up to the largest number of milliseconds. -/
def pauseMillis (base : UInt64) (i : Nat) : UInt64 :=
  UInt64.ofNat (min (base.toNat * 2 ^ i) (2 ^ 64 - 1))

lemma toNat_pauseMillis (base : UInt64) (i : Nat) :
    (pauseMillis base i).toNat = min (base.toNat * 2 ^ i) (2 ^ 64 - 1) :=
  UInt64.toNat_ofNat_of_lt' (Nat.lt_of_le_of_lt (Nat.min_le_right _ _) (by decide))

lemma pauseMillis_zero (base : UInt64) : pauseMillis base 0 = base := by
  have := base.toNat_lt
  refine UInt64.toNat_inj.mp ?_
  rw [toNat_pauseMillis]
  omega

/-- The pauses from the second one on are those of the doubled base. -/
lemma pauseMillis_double (base : UInt64) (i : Nat) :
    pauseMillis (double base) i = pauseMillis base (i + 1) := by
  have hdouble : (double base).toNat = min (2 * base.toNat) (2 ^ 64 - 1) :=
    UInt64.toNat_ofNat_of_lt' (Nat.lt_of_le_of_lt (Nat.min_le_right _ _) (by decide))
  have hpos : 1 ≤ 2 ^ i := Nat.one_le_two_pow
  have hpow : base.toNat * 2 ^ (i + 1) = 2 * base.toNat * 2 ^ i := by ring
  refine UInt64.toNat_inj.mp ?_
  rw [toNat_pauseMillis, toNat_pauseMillis, hdouble, hpow]
  rcases Nat.le_total (2 * base.toNat) (2 ^ 64 - 1) with hle | hle
  · rw [Nat.min_eq_left hle]
  · rw [Nat.min_eq_right hle, Nat.min_eq_right (Nat.le_mul_of_pos_right _ hpos),
      Nat.min_eq_right (hle.trans (Nat.le_mul_of_pos_right _ hpos))]

/-! ## One attempt after the other -/

/-- A run of an attempt: what happens in it, and how it ends. -/
structure Try (α : Type) where
  trace : List (Occurrence NodeCall NodeCall.Answer)
  outcome : Except ServerError α

variable {α : Type} {attempt : NodeOperation α} {more : Nat} {base : UInt64}
  {trace : List (Occurrence NodeCall NodeCall.Answer)} {outcome : Except ServerError α}

/-- The attempt with number `n` and those before it, each of which is followed by its pause. -/
def spaced (base : UInt64) (tries : Nat → Try α) (lasted : Nat → Duration) (n : Nat) :
    List (Occurrence NodeCall NodeCall.Answer) :=
  ((List.range n).flatMap fun i =>
    (tries i).trace ++ [.slept (.ofMillis (pauseMillis base i)) (lasted i)]) ++ (tries n).trace

lemma spaced_succ (base : UInt64) (tries : Nat → Try α) (lasted : Nat → Duration) (n : Nat) :
    spaced base tries lasted (n + 1) =
      (tries 0).trace ++ .slept (.ofMillis base) (lasted 0) ::
        spaced (double base) (fun i => tries (i + 1)) (fun i => lasted (i + 1)) n := by
  simp only [spaced, pauseMillis_double]
  rw [List.range_succ_eq_map, List.flatMap_cons, pauseMillis_zero, List.flatMap_map]
  simp

/-- The last of some attempts, of which there are to be `more` after the first one. -/
def IsLast (more : Nat) (tries : Nat → Try α) (n : Nat) : Prop :=
  IsLeast {n | n = more ∨ Settles (tries n).outcome} n

lemma isLast_zero_iff {tries : Nat → Try α} :
    IsLast more tries 0 ↔ 0 = more ∨ Settles (tries 0).outcome :=
  ⟨fun h => h.1, fun h => ⟨h, fun _ _ => Nat.zero_le _⟩⟩

lemma isLast_succ_iff {tries : Nat → Try α} {n : Nat} :
    IsLast (more + 1) tries (n + 1) ↔
      ¬ Settles (tries 0).outcome ∧ IsLast more (fun i => tries (i + 1)) n := by
  constructor
  · rintro ⟨hlast, hleast⟩
    refine ⟨fun hsettles => absurd (hleast (.inr hsettles)) (by omega), ?_, fun k hk => ?_⟩
    · exact hlast.imp_left Nat.succ.inj
    · exact Nat.le_of_succ_le_succ (hleast (hk.imp_left (congrArg Nat.succ)))
  · rintro ⟨hpasses, hlast, hleast⟩
    refine ⟨hlast.imp_left (congrArg Nat.succ), fun k hk => ?_⟩
    cases k with
    | zero => exact absurd (hk.resolve_left (by omega)) hpasses
    | succ k => exact Nat.succ_le_succ (hleast (hk.imp_left Nat.succ.inj))

/-- There is a last attempt. -/
lemma exists_isLast (more : Nat) (tries : Nat → Try α) : ∃ n, IsLast more tries n := by
  classical
  have hsome : ∃ n, n = more ∨ Settles (tries n).outcome := ⟨more, .inl rfl⟩
  exact ⟨Nat.find hsome, Nat.find_spec hsome, fun _ hk => Nat.find_min' hsome hk⟩

lemma settles_ok (a : α) : Settles (.ok a : Except ServerError α) := by
  rintro e ⟨⟩

lemma settles_error_iff {e : ServerError} :
    Settles (.error e : Except ServerError α) ↔ ¬ MayPass e := by
  constructor
  · intro h
    exact h e rfl
  · rintro h _ ⟨⟩
    exact h

/-- The first attempt is the last one, or the others follow after a pause. -/
lemma runs_attempts_succ_iff : (attempts attempt (more + 1) base).Runs trace outcome ↔
    (Settles outcome ∧ attempt.Runs trace outcome) ∨
    ∃ (t : Try α) (lasted : Duration) (rest : List (Occurrence NodeCall NodeCall.Answer)),
      ¬ Settles t.outcome ∧ attempt.Runs t.trace t.outcome ∧
      trace = t.trace ++ .slept (.ofMillis base) lasted :: rest ∧
      (attempts attempt more (double base)).Runs rest outcome := by
  rw [attempts, runs_bind_iff]
  constructor
  · rintro ⟨first, a | e, rest, rfl, hfirst, hrest⟩
    · dsimp only at hrest
      split at hrest
      next hpass =>
        obtain ⟨lasted, rest, rfl, hothers⟩ := runs_sleep_iff.mp hrest
        exact .inr ⟨⟨first, .error _⟩, lasted, rest,
          fun hsettles => hsettles _ rfl (mayPass_iff.mp hpass), hfirst, rfl, hothers⟩
      next hstays =>
        obtain ⟨rfl, rfl⟩ := runs_done_iff.mp hrest
        refine .inl ⟨settles_error_iff.mpr fun hpass => hstays (mayPass_iff.mpr hpass), ?_⟩
        rwa [List.append_nil]
    · obtain ⟨rfl, rfl⟩ := runs_done_iff.mp hrest
      refine .inl ⟨settles_ok _, ?_⟩
      rwa [List.append_nil]
  · rintro (⟨hsettles, h⟩ | ⟨⟨first, result⟩, lasted, rest, hpasses, hfirst, rfl, hrest⟩)
    · refine ⟨trace, outcome, [], (List.append_nil trace).symm, h, ?_⟩
      cases outcome with
      | ok a => exact .done _
      | error e =>
        dsimp only
        rw [if_neg fun hpass => settles_error_iff.mp hsettles (mayPass_iff.mp hpass)]
        exact .done _
    · refine ⟨first, result, _, rfl, hfirst, ?_⟩
      cases result with
      | ok a => exact absurd (settles_ok a) hpasses
      | error e =>
        have hpass : MayPass e := not_not.mp fun hstays => hpasses (settles_error_iff.mpr hstays)
        dsimp only
        rw [if_pos (mayPass_iff.mpr hpass)]
        exact .sleep hrest

/-- Attempts run up to the last one, with their pauses between them. -/
theorem runs_attempts_iff : (attempts attempt more base).Runs trace outcome ↔
    ∃ tries lasted n, IsLast more tries n ∧
      (∀ i ≤ n, attempt.Runs (tries i).trace (tries i).outcome) ∧
      trace = spaced base tries lasted n ∧ outcome = (tries n).outcome := by
  induction more generalizing base trace with
  | zero =>
    constructor
    · intro h
      exact ⟨fun _ => ⟨trace, outcome⟩, fun _ => Duration.zero, 0, isLast_zero_iff.mpr (.inl rfl),
        fun _ _ => h, rfl, rfl⟩
    · rintro ⟨tries, lasted, n, ⟨-, hleast⟩, hruns, rfl, rfl⟩
      obtain rfl : n = 0 := Nat.le_zero.mp (hleast (.inl rfl))
      exact hruns 0 (Nat.le_refl 0)
  | succ more ih =>
    rw [runs_attempts_succ_iff]
    constructor
    · rintro (⟨hsettles, h⟩ | ⟨t, pause, rest, hpasses, hfirst, rfl, hrest⟩)
      · exact ⟨fun _ => ⟨trace, outcome⟩, fun _ => Duration.zero, 0,
          isLast_zero_iff.mpr (.inr hsettles), fun _ _ => h, rfl, rfl⟩
      · obtain ⟨tries, lasted, n, hlast, hruns, rfl, rfl⟩ := ih.mp hrest
        refine ⟨fun i => i.casesOn t tries, fun i => i.casesOn pause lasted, n + 1,
          isLast_succ_iff.mpr ⟨hpasses, hlast⟩, fun i hi => ?_, ?_, rfl⟩
        · cases i with
          | zero => exact hfirst
          | succ i => exact hruns i (Nat.le_of_succ_le_succ hi)
        · rw [spaced_succ]
          rfl
    · rintro ⟨tries, lasted, n, hlast, hruns, rfl, rfl⟩
      cases n with
      | zero =>
        exact .inl ⟨(isLast_zero_iff.mp hlast).resolve_left (by omega), hruns 0 (Nat.le_refl 0)⟩
      | succ n =>
        obtain ⟨hpasses, hlast⟩ := isLast_succ_iff.mp hlast
        exact .inr ⟨tries 0, lasted 0, _, hpasses, hruns 0 (Nat.zero_le _), spaced_succ ..,
          ih.mpr ⟨_, _, n, hlast, fun i hi => hruns (i + 1) (Nat.succ_le_succ hi), rfl, rfl⟩⟩

/-! ## The reply -/

/-- The reply to a change, and what the bootstrapper is after it, by how the last attempt has
ended. -/
inductive Replies (b : Bootstrapper) (change : LayoutChange) :
    Except ServerError BootstrapOutcome → BootstrapReply × Bootstrapper → Prop
  | ack (outcome : BootstrapOutcome) :
      Replies b change (.ok outcome) (.ack, { b with lastApplied := some change.epoch })
  | nack (e : ServerError) : Replies b change (.error e) (.nack e.message, b)

/-- A change that is not outdated is answered by its attempts. -/
lemma runs_handle_iff {result : BootstrapReply × Bootstrapper}
    (hcurrent : ∀ last, b.lastApplied = some last → last ≤ change.epoch) :
    (b.handle chain change).Runs trace result ↔
      ∃ outcome, (attempts (b.tryBootstrap chain change) (b.settings.retryCount.toNat - 1)
        b.settings.retryBaseMillis).Runs trace outcome ∧ Replies b change outcome result := by
  have hnewer : b.newerEpoch? change = none := by
    rw [newerEpoch?, Option.filter_eq_none_iff]
    intro last hlast holder
    exact absurd (of_decide_eq_true holder) (Nat.not_lt.mpr (hcurrent last hlast))
  rw [handle, hnewer]
  dsimp only
  rw [runs_bind_iff]
  constructor
  · rintro ⟨first, outcome, rest, rfl, hfirst, hrest⟩
    rw [← List.append_nil first] at hfirst
    cases outcome <;> obtain ⟨rfl, rfl⟩ := runs_done_iff.mp hrest
    · exact ⟨_, hfirst, .nack _⟩
    · exact ⟨_, hfirst, .ack _⟩
  · rintro ⟨outcome, h, _ | _⟩ <;>
      exact ⟨trace, _, [], (List.append_nil trace).symm, h, .done _⟩

/-- However long a run of attempts may be, and whatever their ends: a change that is not outdated is
tried up to the first attempt that settles it, but as often as the settings say at most, and once in
any case. The attempts do not sleep by themselves. Between two of them there is the pause of the
first one's number, which begins with the base and doubles up to the largest number of milliseconds,
and after the last one there is none. The last attempt decides on the reply.

There is such a run for every sequence of ends that attempts can have, and there are no other
runs. -/
theorem handle_retries (b : Bootstrapper) (chain : Chain) (change : LayoutChange)
    (hcurrent : ∀ last, b.lastApplied = some last → last ≤ change.epoch) {limit : Nat}
    (hlimit : limit = max 1 b.settings.retryCount.toNat) :
    (∀ trace result, (b.handle chain change).Runs trace result ↔
      ∃ (tries : Nat → Try BootstrapOutcome) (lasted : Nat → Duration) (n : Nat),
        IsLeast {n | n + 1 = limit ∨ Settles (tries n).outcome} n ∧
        (∀ i ≤ n, (b.tryBootstrap chain change).Runs (tries i).trace (tries i).outcome) ∧
        trace = spaced b.settings.retryBaseMillis tries lasted n ∧
        Replies b change (tries n).outcome result) ∧
    (∀ i, (pauseMillis b.settings.retryBaseMillis i).toNat =
      min (b.settings.retryBaseMillis.toNat * 2 ^ i) (2 ^ 64 - 1)) ∧
    (b.tryBootstrap chain change).Sleepless ∧
    (∀ outcome, (∃ trace, (b.tryBootstrap chain change).Runs trace outcome) ↔
      CanEnd change outcome) ∧
    ∀ (outcomes : Nat → Except ServerError BootstrapOutcome) (lasted : Nat → Duration),
      (∀ i, CanEnd change (outcomes i)) →
      ∃ (tries : Nat → Try BootstrapOutcome) (n : Nat) (result : BootstrapReply × Bootstrapper),
        (∀ i, (tries i).outcome = outcomes i) ∧
        IsLeast {n | n + 1 = limit ∨ Settles (outcomes n)} n ∧
        Replies b change (outcomes n) result ∧
        (b.handle chain change).Runs (spaced b.settings.retryBaseMillis tries lasted n) result := by
  have hlast (tries : Nat → Try BootstrapOutcome) (n : Nat) :
      IsLast (b.settings.retryCount.toNat - 1) tries n ↔
        IsLeast {n | n + 1 = limit ∨ Settles (tries n).outcome} n := by
    have heq : ∀ n, n = b.settings.retryCount.toNat - 1 ↔ n + 1 = limit := by omega
    simp only [IsLast, heq]
  have hiff : ∀ trace result, (b.handle chain change).Runs trace result ↔
      ∃ (tries : Nat → Try BootstrapOutcome) (lasted : Nat → Duration) (n : Nat),
        IsLeast {n | n + 1 = limit ∨ Settles (tries n).outcome} n ∧
        (∀ i ≤ n, (b.tryBootstrap chain change).Runs (tries i).trace (tries i).outcome) ∧
        trace = spaced b.settings.retryBaseMillis tries lasted n ∧
        Replies b change (tries n).outcome result := by
    intro trace result
    rw [runs_handle_iff hcurrent]
    constructor
    · rintro ⟨outcome, h, hreplies⟩
      obtain ⟨tries, lasted, n, hn, hruns, htrace, rfl⟩ := runs_attempts_iff.mp h
      exact ⟨tries, lasted, n, (hlast tries n).mp hn, hruns, htrace, hreplies⟩
    · rintro ⟨tries, lasted, n, hn, hruns, htrace, hreplies⟩
      exact ⟨_, runs_attempts_iff.mpr
        ⟨tries, lasted, n, (hlast tries n).mpr hn, hruns, htrace, rfl⟩, hreplies⟩
  refine ⟨hiff, toNat_pauseMillis _, sleepless_tryBootstrap, fun outcome =>
    exists_runs_tryBootstrap_iff, fun outcomes lasted hends => ?_⟩
  have hruns : ∀ i, ∃ trace, (b.tryBootstrap chain change).Runs trace (outcomes i) := fun i =>
    exists_runs_tryBootstrap_iff.mpr (hends i)
  choose traces htraces using hruns
  let tries : Nat → Try BootstrapOutcome := fun i => ⟨traces i, outcomes i⟩
  obtain ⟨n, hn⟩ := exists_isLast (b.settings.retryCount.toNat - 1) tries
  obtain ⟨result, hresult⟩ : ∃ result, Replies b change (outcomes n) result := by
    cases outcomes n with
    | ok outcome => exact ⟨_, .ack outcome⟩
    | error e => exact ⟨_, .nack e⟩
  have hleast := (hlast tries n).mp hn
  exact ⟨tries, n, result, fun _ => rfl, hleast, hresult,
    (hiff _ _).mpr ⟨tries, lasted, n, hleast, fun i _ => htraces i, rfl, hresult⟩⟩

/-- The sequencer is not there twice, and then it applies the merge; or it is not there once, and
then it is at a later epoch, which settles it before the attempts are used up. The settings allow
three attempts, with ten milliseconds for the first pause. -/
theorem handle_retries_twice :
    let chain : Chain := ⟨["a"], by decide, .immediate⟩
    let b : Bootstrapper := ⟨⟨3, 10, 256⟩, some Epoch.zero⟩
    let change : LayoutChange := ⟨⟨1, by decide⟩, false, Position.zero, Position.zero, ∅⟩
    let absent : SequencerError := .serviceUnavailable "sequencer has shut down"
    let late : SequencerError := .staleEpoch change.epoch ⟨2, by decide⟩
    let request : BootstrapRequest := .merge change.epoch Position.zero ∅
    let asked (r : Except SequencerError BootstrapOutcome) : Occurrence NodeCall NodeCall.Answer :=
      .answered (.act (.bootstrap request)) r
    (∀ last, b.lastApplied = some last → last ≤ change.epoch) ∧
      (b.handle chain change).Runs
        [asked (.error absent), .slept (.ofMillis 10) (.ofMillis 10), asked (.error absent),
          .slept (.ofMillis 20) (.ofMillis 21), asked (.ok .applied)]
        (.ack, { b with lastApplied := some change.epoch }) ∧
      (b.handle chain change).Runs
        [asked (.error absent), .slept (.ofMillis 10) (.ofMillis 12), asked (.error late)]
        (.nack "sequencer error: stale epoch 1, sequencer is at epoch 2", b) := by
  intro chain b change absent late request asked
  have hcurrent : ∀ last, b.lastApplied = some last → last ≤ change.epoch := by
    rintro _ ⟨⟩
    decide
  have hruns := (handle_retries b chain change hcurrent rfl).1
  let tries (answers : Nat → Except SequencerError BootstrapOutcome) (i : Nat) :
      Try BootstrapOutcome := ⟨[asked (answers i)], (answers i).mapError .sequencer⟩
  have htries (answers) (i : Nat) :
      (b.tryBootstrap chain change).Runs (tries answers i).trace (tries answers i).outcome :=
    runs_tryBootstrap_of_merge rfl (answers i)
  have hpasses : ¬ Settles (.error (.sequencer absent) : Except ServerError BootstrapOutcome) :=
    fun hsettles => settles_error_iff.mp hsettles (.unavailable _)
  let merged (i : Nat) : Except SequencerError BootstrapOutcome :=
    if i < 2 then .error absent else .ok .applied
  let refused (i : Nat) : Except SequencerError BootstrapOutcome :=
    .error (if i = 0 then absent else late)
  refine ⟨hcurrent, (hruns _ _).mpr ?_, (hruns _ _).mpr ?_⟩
  · refine ⟨tries merged, fun i => if i = 0 then .ofMillis 10 else .ofMillis 21, 2,
      ⟨.inl rfl, fun n hn => ?_⟩, fun i _ => htries merged i, rfl, .ack .applied⟩
    -- the first two failures pass, and the limit is not reached with them
    by_contra hlt
    have hn2 : n < 2 := Nat.not_le.mp hlt
    rcases hn with hlimit | hsettles
    · have : n + 1 = 3 := hlimit
      omega
    · simp only [tries, merged, if_pos hn2] at hsettles
      exact hpasses hsettles
  · have hmessage : (ServerError.sequencer late).message =
        "sequencer error: stale epoch 1, sequencer is at epoch 2" := by decide +kernel
    refine ⟨tries refused, fun _ => .ofMillis 12, 1,
      ⟨.inr (settles_error_iff.mpr (by rintro ⟨⟩)), fun n hn => ?_⟩,
      fun i _ => htries refused i, rfl, hmessage ▸ .nack _⟩
    refine Nat.pos_of_ne_zero ?_
    rintro rfl
    rcases hn with hlimit | hsettles
    · cases hlimit
    · exact hpasses hsettles

end Bootstrapper

end SharedLog
