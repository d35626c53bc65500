/-
# The schedule of looks

A reader's policy settles when the reader looks at a position, as long as no look ends the wait. The
times are said here once for each policy, in exact arithmetic (`HoleFillPolicy.lookTime`), and so is
the number of looks after which patience has run out (`HoleFillPolicy.LastsFor`). A reader that
sleeps exactly as long as it is asked to keeps to the schedule, although its delays are computed in
durations that cannot grow for ever, its looks are counted by a counter that stops, and each delay
is cut to what is left of its patience.
-/
import Mathlib.Algebra.BigOperators.Ring.Finset
import Mathlib.Order.Bounds.Defs
import Mathlib.Order.Nat
import Mathlib.Order.Interval.Finset.Nat
import SharedLog.Proofs.HoleFill.Exhaustion

namespace SharedLog

namespace HoleFillPolicy

variable {policy : HoleFillPolicy} {n : Nat}

/-! ## Schedules -/

/-- How long after its first look a reader looks again that has looked `n` times in vain, in
nanoseconds. -/
def lookTime : HoleFillPolicy → Nat → Nat
  | immediate, _ => 0
  | fixed _ delay, n => n * delay.nanos
  | backoff initialDelay maxDelay maxElapsed, n =>
    min maxElapsed.nanos
      (∑ j ∈ Finset.range n, min (initialDelay.nanos * 2 ^ min j doublingLimit) maxDelay.nanos)

/-- Patience has run out after `n` looks in vain, and not before. Delays that double go on until the
whole time has passed. -/
def LastsFor : HoleFillPolicy → Nat → Prop
  | immediate, n => n = 1
  | fixed maxAttempts _, n => n = max 1 maxAttempts.toNat
  | backoff initialDelay maxDelay maxElapsed, n => ∃ m, n = m + 1 ∧
    IsLeast {k | (backoff initialDelay maxDelay maxElapsed).lookTime k = maxElapsed.nanos} m

lemma lookTime_zero (policy : HoleFillPolicy) : policy.lookTime 0 = 0 := by
  cases policy <;> simp [lookTime]

lemma LastsFor.pos (h : policy.LastsFor n) : 0 < n := by
  cases policy with
  | immediate => exact h ▸ Nat.one_pos
  | fixed maxAttempts delay =>
    obtain rfl : n = max 1 maxAttempts.toNat := h
    omega
  | backoff initialDelay maxDelay maxElapsed =>
    obtain ⟨m, rfl, -⟩ := h
    exact Nat.succ_pos m

/-- Patience runs out once. -/
lemma LastsFor.unique {m : Nat} (h : policy.LastsFor n) (h' : policy.LastsFor m) : n = m := by
  cases policy with
  | immediate | fixed => exact h.trans h'.symm
  | backoff initialDelay maxDelay maxElapsed =>
    obtain ⟨k, rfl, hk⟩ := h
    obtain ⟨l, rfl, hl⟩ := h'
    exact congrArg (· + 1) (Nat.le_antisymm (hk.2 hl.1) (hl.2 hk.1))

/-- Delays that double end with the last of the time. -/
lemma LastsFor.lookTime_backoff {initialDelay maxDelay maxElapsed : Duration}
    (h : (backoff initialDelay maxDelay maxElapsed).LastsFor n) :
    (backoff initialDelay maxDelay maxElapsed).lookTime (n - 1) = maxElapsed.nanos := by
  obtain ⟨m, rfl, hm⟩ := h
  exact hm.1

/-- If delays that double ever come to the end of the time, they do so for a first time. -/
lemma exists_lastsFor_backoff {initialDelay maxDelay maxElapsed : Duration} {k : Nat}
    (hk : (backoff initialDelay maxDelay maxElapsed).lookTime k = maxElapsed.nanos) :
    ∃ m ≤ k, (backoff initialDelay maxDelay maxElapsed).LastsFor (m + 1) :=
  ⟨Nat.find ⟨k, hk⟩, Nat.find_min' ⟨k, hk⟩ hk, _, rfl, Nat.find_spec ⟨k, hk⟩,
    fun _ hl => Nat.find_min' ⟨k, hk⟩ hl⟩

/-! ## One delay -/

lemma retryDelay_fixed_scheduled {maxAttempts : UInt32} {delay : Duration}
    (hn : ∀ m ≤ n, ¬ (fixed maxAttempts delay).LastsFor m) (elapsed : Duration) :
    (∃ d, (fixed maxAttempts delay).retryDelay (min (n + 1) attemptLimit) elapsed = some d ∧
      ¬ (fixed maxAttempts delay).LastsFor (n + 1) ∧
      (fixed maxAttempts delay).lookTime n + d.nanos =
        (fixed maxAttempts delay).lookTime (n + 1)) ∨
    (fixed maxAttempts delay).retryDelay (min (n + 1) attemptLimit) elapsed = none ∧
      (fixed maxAttempts delay).LastsFor (n + 1) := by
  have hmore : n < max 1 maxAttempts.toNat := by
    by_contra hle
    exact hn _ (Nat.not_lt.mp hle) rfl
  -- the counter of attempts never has to stop before the last attempt
  have hlimit : maxAttempts.toNat ≤ attemptLimit := by
    have := maxAttempts.toNat_lt
    simp only [attemptLimit, UInt32.size]
    omega
  simp only [retryDelay, LastsFor, lookTime]
  by_cases hlt : min (n + 1) attemptLimit < maxAttempts.toNat
  · refine .inl ⟨delay, if_pos hlt, by omega, ?_⟩
    rw [Nat.succ_mul]
  · exact .inr ⟨if_neg hlt, by omega⟩

/-- Delays stop doubling long before looks stop being counted. -/
lemma doublings_counted (n : Nat) :
    min (min (n + 1) attemptLimit - 1) doublingLimit = min n doublingLimit := by
  simp only [attemptLimit, doublingLimit, UInt32.size]
  omega

lemma retryDelay_backoff_scheduled {initialDelay maxDelay maxElapsed : Duration}
    (hn : ∀ m ≤ n, ¬ (backoff initialDelay maxDelay maxElapsed).LastsFor m) {elapsed : Duration}
    (helapsed : elapsed.nanos = (backoff initialDelay maxDelay maxElapsed).lookTime n) :
    (∃ d, (backoff initialDelay maxDelay maxElapsed).retryDelay (min (n + 1) attemptLimit)
        elapsed = some d ∧ ¬ (backoff initialDelay maxDelay maxElapsed).LastsFor (n + 1) ∧
      (backoff initialDelay maxDelay maxElapsed).lookTime n + d.nanos =
        (backoff initialDelay maxDelay maxElapsed).lookTime (n + 1)) ∨
    (backoff initialDelay maxDelay maxElapsed).retryDelay (min (n + 1) attemptLimit) elapsed =
        none ∧ (backoff initialDelay maxDelay maxElapsed).LastsFor (n + 1) := by
  have hle : elapsed.nanos ≤ maxElapsed.nanos := by
    rw [helapsed, lookTime]
    exact Nat.min_le_left ..
  obtain ⟨remaining, hremaining⟩ : ∃ remaining, maxElapsed.sub? elapsed = some remaining := by
    cases hsub : maxElapsed.sub? elapsed with
    | some remaining => exact ⟨remaining, rfl⟩
    | none =>
      have hlt := Duration.lt_def.mp (Duration.sub?_eq_none_iff.mp hsub)
      omega
  have hsub := Duration.sub?_eq_some_iff.mp hremaining
  by_cases hzero : remaining = Duration.zero
  · -- the whole time has passed, for the first time
    refine .inr ⟨by simp only [retryDelay, hremaining, if_pos hzero], n, rfl, ?_, ?_⟩
    · rw [hzero, Duration.nanos_zero] at hsub
      exact helapsed.symm.trans hsub.symm
    · intro k hk
      by_contra hlt
      obtain ⟨m, hmk, hm⟩ := exists_lastsFor_backoff hk
      exact hn (m + 1) (by omega) hm
  · have hleft : 0 < remaining.nanos := Nat.pos_of_ne_zero fun h0 => hzero (Duration.ext h0)
    refine .inl ⟨_, by simp only [retryDelay, hremaining, if_neg hzero]; rfl, ?_, ?_⟩
    · rintro ⟨m, heq, hm, -⟩
      obtain rfl : n = m := Nat.succ.inj heq
      have hend : (backoff initialDelay maxDelay maxElapsed).lookTime n = maxElapsed.nanos := hm
      omega
    · have hrange := maxDelay.isLt
      simp only [lookTime] at helapsed hsub ⊢
      simp only [doublings_counted, Finset.sum_range_succ, Duration.scale, Duration.nanos_min,
        Duration.nanos_saturate, Nat.pow_eq]
      -- the product is cut only where the largest delay cuts it anyway
      generalize initialDelay.nanos * 2 ^ min n doublingLimit = grown
      generalize UInt64.size * 1_000_000_000 = limit at hrange ⊢
      omega

/-- While patience has not run out, each look is followed by the delay up to the next one, or by no
further look at all. -/
theorem retryDelay_scheduled (hn : ∀ m ≤ n, ¬ policy.LastsFor m) :
    (∃ d, policy.retryDelay (min (n + 1) attemptLimit) (.saturate (policy.lookTime n)) = some d ∧
      ¬ policy.LastsFor (n + 1) ∧ policy.lookTime n + d.nanos = policy.lookTime (n + 1)) ∨
    policy.retryDelay (min (n + 1) attemptLimit) (.saturate (policy.lookTime n)) = none ∧
      policy.LastsFor (n + 1) := by
  cases policy with
  | immediate =>
    refine .inr ⟨rfl, ?_⟩
    cases n with
    | zero => rfl
    | succ n => exact absurd rfl (hn 1 (by omega))
  | fixed maxAttempts delay => exact retryDelay_fixed_scheduled hn _
  | backoff initialDelay maxDelay maxElapsed =>
    refine retryDelay_backoff_scheduled hn ?_
    have hrange := maxElapsed.isLt
    rw [Duration.nanos_saturate]
    simp only [lookTime]
    omega

/-! ## A wait that keeps to its schedule -/

/-- The delays of the policy are slept as they are, neither longer nor shorter. -/
def KeptBy (policy : HoleFillPolicy) (w : Worker) : Prop :=
  ∀ n d, policy.lookTime n + d.nanos = policy.lookTime (n + 1) → w.lasts d = d

/-- Looks find what the script says, one after the other. Each is noted down with its time. -/
def scripted (script : Nat → Except ReplicationError SlotState) (position : Position) :
    Timeline (List (Position × Nat)) (Except ReplicationError SlotState) := fun c =>
  some (script c.state.length, { c with state := c.state ++ [(position, c.now)] })

/-- The wait for a position with a scripted course of events, from some time on. -/
def watching (policy : HoleFillPolicy) (w : Worker)
    (script : Nat → Except ReplicationError SlotState) (position : Position)
    (start allowance : Nat) :
    Option (Except PeekError LogData × Clocked (List (Position × Nat))) :=
  (policy.awaitCommitted position (Program.ask position)).run w (scripted script)
    ⟨start, allowance, []⟩

/-- The first `n` looks of the schedule. -/
def schedule (policy : HoleFillPolicy) (position : Position) (start n : Nat) :
    List (Position × Nat) :=
  (List.range n).map fun k => (position, start + policy.lookTime k)

variable {w : Worker} {script : Nat → Except ReplicationError SlotState} {position : Position}
  {start allowance k : Nat}

lemma schedule_succ (policy : HoleFillPolicy) (position : Position) (start n : Nat) :
    policy.schedule position start (n + 1) =
      policy.schedule position start n ++ [(position, start + policy.lookTime n)] := by
  simp [schedule, List.range_succ]

/-- The rest of a scripted wait after `k` looks in vain, with at most `n` further looks. -/
def watchingFrom (policy : HoleFillPolicy) (w : Worker)
    (script : Nat → Except ReplicationError SlotState) (position : Position)
    (start allowance n k : Nat) :
    Option (Except PeekError LogData × Clocked (List (Position × Nat))) :=
  (policy.looks position (Program.ask position) n (min k attemptLimit)
      (.saturate (policy.lookTime k))).run w (scripted script)
    ⟨start + policy.lookTime k, allowance, policy.schedule position start k⟩

/-- A look on schedule is noted down as the next one, and finds what the script says. -/
lemma scripted_schedule (allowance k : Nat) :
    scripted script position
        ⟨start + policy.lookTime k, allowance, policy.schedule position start k⟩ =
      some (script k, ⟨start + policy.lookTime k, allowance,
        policy.schedule position start (k + 1)⟩) := by
  simp only [scripted, schedule_succ]
  simp [schedule]

/-- Counting one more look and stopping at the limit is stopping at the limit once. -/
lemma count_attempts (k : Nat) :
    min (min k attemptLimit + 1) attemptLimit = min (k + 1) attemptLimit := by
  omega

/-- A look that ends the wait does so at its own time. -/
lemma watchingFrom_of_verdict {r : Except PeekError LogData} (hr : verdict? (script k) = some r)
    (allowance n : Nat) : policy.watchingFrom w script position start allowance (n + 1) k =
      some (r, ⟨start + policy.lookTime k, allowance, policy.schedule position start (k + 1)⟩) := by
  rw [watchingFrom, run_looks_succ _ (scripted_schedule allowance k), hr, Option.elim_some]

/-- The last look in vain is the end of the wait. -/
lemma watchingFrom_of_lastsFor (hvain : verdict? (script k) = none)
    (hn : ∀ m ≤ k, ¬ policy.LastsFor m) (hlast : policy.LastsFor (k + 1)) (allowance n : Nat) :
    policy.watchingFrom w script position start allowance (n + 1) k =
      some (.error (.holeFillRequired
          ⟨position, min (k + 1) attemptLimit, .saturate (policy.lookTime k)⟩),
        ⟨start + policy.lookTime k, allowance, policy.schedule position start (k + 1)⟩) := by
  obtain ⟨d, -, hnot, -⟩ | ⟨hnone, -⟩ := retryDelay_scheduled hn
  · exact absurd hlast hnot
  · rw [watchingFrom, run_looks_succ _ (scripted_schedule allowance k), hvain, Option.elim_none,
      count_attempts, hnone, Option.elim_none]

/-- Any other look in vain is followed by the next one, in time. -/
lemma watchingFrom_of_not_lastsFor (hw : policy.KeptBy w) (hvain : verdict? (script k) = none)
    (hn : ∀ m ≤ k + 1, ¬ policy.LastsFor m) (allowance n : Nat) :
    ∃ allowance', policy.watchingFrom w script position start allowance (n + 1) k =
      policy.watchingFrom w script position start allowance' n (k + 1) := by
  obtain ⟨d, hd, -, htime⟩ | ⟨-, hlast⟩ :=
    retryDelay_scheduled (n := k) fun m hm => hn m (by omega)
  · obtain ⟨allowance', hpass⟩ := Timeline.pass_apply w d ⟨start + policy.lookTime k, allowance,
      policy.schedule position start (k + 1)⟩
    have helapsed : (Duration.saturate (policy.lookTime k)).add d =
        .saturate (policy.lookTime (k + 1)) := by
      ext
      rw [← htime, Duration.add]
      simp only [Duration.nanos_saturate]
      omega
    rw [hw k d htime, Nat.add_assoc, htime] at hpass
    refine ⟨allowance', ?_⟩
    rw [watchingFrom, run_looks_succ _ (scripted_schedule allowance k), hvain, Option.elim_none,
      count_attempts, hd, Option.elim_some, Timeline.bind_apply hpass, helapsed]
    rfl
  · exact absurd hlast (hn (k + 1) (Nat.le_refl _))

/-- As long as looks are in vain and patience lasts, the reader is on schedule. -/
lemma watching_eq_watchingFrom (hw : policy.KeptBy w)
    (hvain : ∀ j < k, verdict? (script j) = none) (hn : ∀ m ≤ k, ¬ policy.LastsFor m)
    (allowance n : Nat) (hrounds : w.rounds = n + k) :
    ∃ allowance', policy.watching w script position start allowance =
      policy.watchingFrom w script position start allowance' n k := by
  induction k generalizing n with
  | zero =>
    refine ⟨allowance, ?_⟩
    simp only [watching, watchingFrom, awaitCommitted, Program.run_unbounded, hrounds,
      lookTime_zero, schedule]
    rfl
  | succ k ih =>
    obtain ⟨allowance₁, heq⟩ := ih (fun j hj => hvain j (by omega)) (fun m hm => hn m (by omega))
      (n + 1) (by omega)
    obtain ⟨allowance₂, hnext⟩ : ∃ allowance₂,
        policy.watchingFrom w script position start allowance₁ (n + 1) k =
          policy.watchingFrom w script position start allowance₂ n (k + 1) :=
      watchingFrom_of_not_lastsFor hw (hvain k (by omega)) hn allowance₁ n
    exact ⟨allowance₂, heq.trans hnext⟩

/-- A usual worker keeps to any schedule of whole milliseconds without longest sleeps in it. -/
lemma keptBy_usual (hmillis : ∀ n, 1_000_000 ∣ policy.lookTime n)
    (hshort : ∀ n, policy.lookTime (n + 1) ≤ policy.lookTime n + Worker.longestSleep.nanos)
    (rounds : Nat) : policy.KeptBy (.usual rounds) := by
  intro n d htime
  obtain ⟨k, hk⟩ := (Nat.dvd_add_right (hmillis n)).mp (htime ▸ hmillis (n + 1))
  have hlongest : Worker.longestSleep.nanos = 946_080_000_000_000_000 := rfl
  have hle := hshort n
  ext
  simp only [Worker.usual, Duration.roundUpToMillis, Duration.nanos_saturate, Duration.nanos_min,
    UInt64.size]
  omega

/-- Delays in whole milliseconds make a schedule in whole milliseconds. -/
lemma keptBy_usual_backoff {initialDelay maxDelay maxElapsed : UInt64}
    (hmaxDelay : maxDelay.toNat ≤ 946_080_000_000) (rounds : Nat) :
    (backoff (.ofMillis initialDelay) (.ofMillis maxDelay) (.ofMillis maxElapsed)).KeptBy
      (.usual rounds) := by
  have hmin : ∀ {a b : Nat}, 1_000_000 ∣ a → 1_000_000 ∣ b → 1_000_000 ∣ min a b := fun ha hb => by
    omega
  have hmillis : ∀ a : UInt64, 1_000_000 ∣ (Duration.ofMillis a).nanos := fun a =>
    Nat.dvd_mul_left ..
  refine keptBy_usual (fun n => ?_) (fun n => ?_) rounds
  · exact hmin (hmillis maxElapsed) (Finset.dvd_sum fun j _ =>
      hmin (Dvd.dvd.mul_right (hmillis initialDelay) _) (hmillis maxDelay))
  · have hlongest : Worker.longestSleep.nanos = 946_080_000_000 * 1_000_000 := rfl
    simp only [lookTime, Finset.sum_range_succ, Duration.nanos_ofMillis]
    omega

/-- On a clock on which a look takes no time and every delay is slept as it is, the reader keeps to
the schedule of its policy, whatever its looks find. The first look that shows a committed value or
fails ends the wait, at its own time, unless patience has run out before. When patience runs out,
the reader has looked exactly as often as the policy lasts, and tells how often, and for how long:
for delays that double this is the whole time. Patience that never runs out keeps the reader looking
for ever. -/
theorem watching_on_schedule (script : Nat → Except ReplicationError SlotState)
    (position : Position) (start allowance : Nat) (hw : policy.KeptBy w) :
    (∀ k r, (∀ j < k, verdict? (script j) = none) → verdict? (script k) = some r →
      (∀ n, policy.LastsFor n → k < n) → k < w.rounds →
      ∃ allowance', policy.watching w script position start allowance =
        some (r, ⟨start + policy.lookTime k, allowance',
          policy.schedule position start (k + 1)⟩)) ∧
    (∀ n, policy.LastsFor n → (∀ k < n, verdict? (script k) = none) →
      policy.lookTime (n - 1) < UInt64.size * 1_000_000_000 → n ≤ w.rounds →
      ∃ elapsed allowance', policy.watching w script position start allowance =
        some (.error (.holeFillRequired ⟨position, min n attemptLimit, elapsed⟩),
          ⟨start + policy.lookTime (n - 1), allowance', policy.schedule position start n⟩) ∧
        elapsed.nanos = policy.lookTime (n - 1) ∧
        ∀ initialDelay maxDelay maxElapsed, policy = backoff initialDelay maxDelay maxElapsed →
          elapsed = maxElapsed) ∧
    ((∀ n, ¬ policy.LastsFor n) → (∀ k, verdict? (script k) = none) →
      policy.watching w script position start allowance = none) := by
  refine ⟨?_, ?_, ?_⟩
  · intro k r hvain hr hpatient hrounds
    obtain ⟨n, hn⟩ := Nat.exists_eq_add_of_lt hrounds
    obtain ⟨allowance', heq⟩ : ∃ allowance', policy.watching w script position start allowance =
        policy.watchingFrom w script position start allowance' (n + 1) k :=
      watching_eq_watchingFrom hw hvain (fun m hm hlasts => by have := hpatient m hlasts; omega)
        allowance (n + 1) (by omega)
    exact ⟨allowance', heq.trans (watchingFrom_of_verdict hr allowance' n)⟩
  · intro n hlast hvain hrange hrounds
    obtain ⟨k, rfl⟩ := Nat.exists_eq_succ_of_ne_zero hlast.pos.ne'
    obtain ⟨m, hm⟩ := Nat.exists_eq_add_of_le hrounds
    have hpatient : ∀ m ≤ k, ¬ policy.LastsFor m := fun m hm hlasts => by
      have := hlasts.unique hlast
      omega
    obtain ⟨allowance', heq⟩ : ∃ allowance', policy.watching w script position start allowance =
        policy.watchingFrom w script position start allowance' (m + 1) k :=
      watching_eq_watchingFrom hw (fun j hj => hvain j (by omega)) hpatient allowance (m + 1)
        (by omega)
    have helapsed : (Duration.saturate (policy.lookTime k)).nanos = policy.lookTime k := by
      rw [Duration.nanos_saturate]
      exact Nat.min_eq_left (Nat.le_sub_one_of_lt hrange)
    refine ⟨_, allowance', heq.trans
      (watchingFrom_of_lastsFor (hvain k (by omega)) hpatient hlast allowance' m), helapsed, ?_⟩
    rintro initialDelay maxDelay maxElapsed rfl
    exact Duration.ext (helapsed.trans hlast.lookTime_backoff)
  · intro hlasts hvain
    obtain ⟨allowance', heq⟩ : ∃ allowance', policy.watching w script position start allowance =
        policy.watchingFrom w script position start allowance' 0 w.rounds :=
      watching_eq_watchingFrom hw (fun j _ => hvain j) (fun m _ => hlasts m) allowance 0 (by omega)
    exact heq.trans rfl

/-- A reader that doubles its delays from one up to four milliseconds, for ten milliseconds
altogether, looks after 0, 1, 3, 7 and 10 milliseconds. -/
theorem watching_in_vain_for_ten_millis :
    let policy := backoff (.ofMillis 1) (.ofMillis 4) (.ofMillis 10)
    policy.KeptBy (.usual 5) ∧ policy.LastsFor 5 ∧
      ∃ elapsed allowance', policy.watching (.usual 5) (fun _ => .ok .pending) Position.zero 0 0 =
        some (.error (.holeFillRequired ⟨Position.zero, 5, elapsed⟩),
          ⟨10_000_000, allowance', [(Position.zero, 0), (Position.zero, 1_000_000),
            (Position.zero, 3_000_000), (Position.zero, 7_000_000),
            (Position.zero, 10_000_000)]⟩) ∧ elapsed = .ofMillis 10 := by
  intro policy
  have hkept : policy.KeptBy (.usual 5) := keptBy_usual_backoff (by decide) 5
  have hlasts : policy.LastsFor 5 := by
    have hbefore : ∀ k < 4, policy.lookTime k ≠ 10_000_000 := by decide +kernel
    refine ⟨4, rfl, (by decide +kernel : policy.lookTime 4 = 10_000_000), fun k hk => ?_⟩
    by_contra hlt
    exact hbefore k (by omega) hk
  have hschedule : policy.schedule Position.zero 0 5 = [(Position.zero, 0),
      (Position.zero, 1_000_000), (Position.zero, 3_000_000), (Position.zero, 7_000_000),
      (Position.zero, 10_000_000)] := by decide +kernel
  have hcount : min 5 attemptLimit = 5 := by decide +kernel
  have htime : 0 + policy.lookTime (5 - 1) = 10_000_000 := by decide +kernel
  obtain ⟨elapsed, allowance', heq, -, helapsed⟩ :=
    (watching_on_schedule (fun _ => .ok .pending) Position.zero 0 0 hkept).2.1 5 hlasts
      (fun _ _ => rfl) (by decide +kernel) (Nat.le_refl 5)
  rw [hschedule, hcount, htime] at heq
  exact ⟨hkept, hlasts, elapsed, allowance', heq, helapsed _ _ _ rfl⟩

end HoleFillPolicy

end SharedLog
