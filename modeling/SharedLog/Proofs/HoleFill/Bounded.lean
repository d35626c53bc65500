/-
# Bounded patience

A reader's patience is bounded if it runs out after some number of looks, however late the sleeps
between the looks end. All policies are so but the one that doubles a delay of no length.
-/
import Mathlib.Tactic.Common
import SharedLog.HoleFill.Policy
import SharedLog.Program.Timeline

namespace SharedLog.HoleFillPolicy

/-- The policy gives a position up within `n` looks, after `attempts` looks in vain and `elapsed`
time, however late the sleeps end. -/
def GivesUp (policy : HoleFillPolicy) : Nat → Nat → Duration → Prop
  | 0, _, _ => False
  | n + 1, attempts, elapsed =>
    match policy.retryDelay (min (attempts + 1) attemptLimit) elapsed with
    | some delay => ∀ late, policy.GivesUp n (min (attempts + 1) attemptLimit)
        (elapsed.add ((min delay Worker.longestSleep).add late))
    | none => True

/-- Delays that double grow only if they have a length. -/
def Bounded : HoleFillPolicy → Prop
  | immediate | fixed .. => True
  | backoff initialDelay maxDelay maxElapsed =>
    maxElapsed = Duration.zero ∨ initialDelay ≠ Duration.zero ∧ maxDelay ≠ Duration.zero

variable {policy : HoleFillPolicy} {n attempts : Nat} {elapsed : Duration}

lemma GivesUp.succ (h : policy.GivesUp n attempts elapsed) :
    policy.GivesUp (n + 1) attempts elapsed := by
  induction n generalizing attempts elapsed with
  | zero => exact h.elim
  | succ n ih =>
    rw [GivesUp] at h ⊢
    split at h
    · exact fun late => ih (h late)
    · trivial

lemma GivesUp.mono {m : Nat} (h : policy.GivesUp n attempts elapsed) (hnm : n ≤ m) :
    policy.GivesUp m attempts elapsed := by
  induction hnm with
  | refl => exact h
  | step _ ih => exact ih.succ

lemma lt_of_retryDelay_fixed {maxAttempts : UInt32} {delay d : Duration}
    (h : (fixed maxAttempts delay).retryDelay (min (attempts + 1) attemptLimit) elapsed = some d) :
    min (attempts + 1) attemptLimit = attempts + 1 ∧ attempts + 1 < maxAttempts.toNat := by
  -- the counter of attempts never has to stop before the last attempt
  have hlimit : maxAttempts.toNat ≤ attemptLimit := by
    have := maxAttempts.toNat_lt
    simp only [attemptLimit, UInt32.size]
    omega
  have hlt : min (attempts + 1) attemptLimit < maxAttempts.toNat := by
    simp only [retryDelay] at h
    split at h
    · assumption
    · cases h
  omega

lemma givesUp_fixed {maxAttempts : UInt32} {delay : Duration}
    (h : maxAttempts.toNat ≤ attempts + n + 1) :
    (fixed maxAttempts delay).GivesUp (n + 1) attempts elapsed := by
  induction n generalizing attempts elapsed with
  | zero =>
    rw [GivesUp]
    split
    · rename_i d hd
      have hlt := lt_of_retryDelay_fixed hd
      omega
    · trivial
  | succ n ih =>
    rw [GivesUp]
    split
    · rename_i d hd
      have hlt := lt_of_retryDelay_fixed hd
      exact fun late => ih (by omega)
    · trivial

/-- Every delay but the last doubles something that has a length, and the last one is what is left
of the patience. -/
lemma retryDelay_backoff {initialDelay maxDelay maxElapsed d : Duration}
    (hinitial : initialDelay ≠ Duration.zero) (hmax : maxDelay ≠ Duration.zero)
    (h : (backoff initialDelay maxDelay maxElapsed).retryDelay attempts elapsed = some d) :
    0 < d.nanos ∧ elapsed.nanos < maxElapsed.nanos := by
  have hpos : ∀ {x : Duration}, x ≠ Duration.zero → 0 < x.nanos := fun hx =>
    Nat.pos_of_ne_zero fun h0 => hx (Duration.ext h0)
  simp only [retryDelay] at h
  split at h
  · cases h
  · rename_i remaining hremaining
    split at h
    · cases h
    · rename_i hne
      obtain rfl := Option.some.inj h
      have hsub := Duration.sub?_eq_some_iff.mp hremaining
      have hleft := hpos hne
      have hgrown : 0 < (initialDelay.scale
          (Nat.pow 2 (min (attempts - 1) doublingLimit))).nanos := by
        have hfactor : 0 < Nat.pow 2 (min (attempts - 1) doublingLimit) := Nat.two_pow_pos _
        have hproduct := Nat.mul_pos (hpos hinitial) hfactor
        rw [Duration.scale, Duration.nanos_saturate]
        simp only [UInt64.size]
        omega
      have hlargest := hpos hmax
      simp only [Duration.nanos_min]
      omega

lemma givesUp_backoff {initialDelay maxDelay maxElapsed : Duration}
    (hinitial : initialDelay ≠ Duration.zero) (hmax : maxDelay ≠ Duration.zero)
    (h : maxElapsed.nanos ≤ elapsed.nanos + n) :
    (backoff initialDelay maxDelay maxElapsed).GivesUp (n + 1) attempts elapsed := by
  induction n generalizing attempts elapsed with
  | zero =>
    rw [GivesUp]
    split
    · rename_i d hd
      have hlt := retryDelay_backoff hinitial hmax hd
      omega
    · trivial
  | succ n ih =>
    rw [GivesUp]
    split
    · rename_i d hd
      -- each sleep takes at least a nanosecond of the time that is left
      refine fun late => ih ?_
      have hlt := retryDelay_backoff hinitial hmax hd
      have hlongest : 0 < Worker.longestSleep.nanos := by decide
      have hrange := maxElapsed.isLt
      simp only [Duration.add, Duration.nanos_saturate, Duration.nanos_min, UInt64.size]
        at hrange ⊢
      omega
    · trivial

/-- Bounded patience runs out. -/
theorem Bounded.exists_givesUp (h : policy.Bounded) :
    ∃ least, ∀ n, least ≤ n → policy.GivesUp n 0 Duration.zero := by
  cases policy with
  | immediate => exact ⟨1, fun n hn => GivesUp.mono (n := 1) trivial hn⟩
  | fixed maxAttempts delay =>
    exact ⟨maxAttempts.toNat + 1, fun n hn => (givesUp_fixed (by omega)).mono hn⟩
  | backoff initialDelay maxDelay maxElapsed =>
    rcases h with rfl | ⟨hinitial, hmax⟩
    · exact ⟨1, fun n hn => GivesUp.mono (n := 1) trivial hn⟩
    · exact ⟨maxElapsed.nanos + 1, fun n hn =>
        (givesUp_backoff hinitial hmax (by simp)).mono hn⟩

end SharedLog.HoleFillPolicy
