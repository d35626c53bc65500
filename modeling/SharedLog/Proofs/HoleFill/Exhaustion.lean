/-
# Patience that runs out

A reader waits on a virtual clock, on which looks take no time and sleeps take as long as asked for.
If every look is in vain, then a bounded patience runs out after some number of looks
(`HoleFillPolicy.Bounded.runsOut`). A patience that is not bounded never does: its delay has no
length, so that no time passes and every look finds it as fresh as the first one did.
-/
import SharedLog.HoleFill.Patience
import SharedLog.Proofs.HoleFill.Bounded

namespace SharedLog

variable {w : Worker} {policy : HoleFillPolicy} {σ : Type} {position : Position}
  {n attempts : Nat} {elapsed : Duration}

/-! ## Sleeps -/

/-- Sleeps take at least as long as asked for, up to the longest sleep, and a sleep of no length
takes no time. -/
structure Worker.Faithful (w : Worker) : Prop where
  le_lasts : ∀ d, min d longestSleep ≤ w.lasts d
  lasts_zero : w.lasts Duration.zero = Duration.zero

lemma Worker.usual_faithful (rounds : Nat) : (usual rounds).Faithful where
  le_lasts d := by
    have hd := d.isLt
    have hlongest : longestSleep.nanos = 946_080_000_000_000_000 := rfl
    simp only [usual, Duration.roundUpToMillis, Duration.le_def, Duration.nanos_saturate,
      Duration.nanos_min, UInt64.size]
    omega
  lasts_zero := Duration.ext (by
    simp [usual, Duration.roundUpToMillis, Duration.nanos_saturate])

/-- A sleep ends late or just in time. -/
lemma Worker.Faithful.exists_late (hw : w.Faithful) (d : Duration) :
    ∃ late, w.lasts d = (min d longestSleep).add late := by
  have hle := Duration.le_def.mp (hw.le_lasts d)
  have hlt := (w.lasts d).isLt
  refine ⟨⟨(w.lasts d).nanos - (min d longestSleep).nanos, by omega⟩, Duration.ext ?_⟩
  simp only [Duration.add, Duration.nanos_saturate, UInt64.size] at hlt ⊢
  omega

lemma Timeline.bind_apply {α β : Type} {x : Timeline σ α} {f : α → Timeline σ β} {a : α}
    {c c' : Clocked σ} (h : x c = some (a, c')) : (x >>= f) c = f a c' := by
  change (x c).bind _ = _
  rw [h]
  rfl

/-- A sleep takes its time, and changes nothing else. -/
lemma Timeline.pass_apply (w : Worker) (d : Duration) (c : Clocked σ) :
    ∃ allowance, pass w d c =
      some (w.lasts d, ⟨c.now + (w.lasts d).nanos, allowance, c.state⟩) := by
  unfold pass
  by_cases hzero : w.lasts d = Duration.zero
  · simp only [hzero]
    exact ⟨_, rfl⟩
  · simp only [ne_eq, hzero, not_false_eq_true, if_true]
    exact ⟨_, rfl⟩

/-- Time can always pass. -/
lemma Timeline.exists_pass (w : Worker) (d : Duration) (c : Clocked σ) :
    ∃ c', pass w d c = some (w.lasts d, c') := by
  obtain ⟨allowance, hpass⟩ := pass_apply w d c
  exact ⟨_, hpass⟩

namespace HoleFillPolicy

/-! ## Looks in vain -/

/-- A way to look at positions, with a state of its own. -/
abbrev Peek (σ : Type) : Type := Position → σ → Except ReplicationError SlotState × σ

/-- No look finds a value, and none fails. -/
def Peek.InVain (peek : Peek σ) : Prop :=
  ∀ p s, (peek p s).1 = .ok .empty ∨ (peek p s).1 = .ok .pending

/-- The wait for a position on a virtual clock, with looks that take no time. -/
def awaiting (policy : HoleFillPolicy) (w : Worker) (peek : Peek σ) (position : Position) :
    Timeline σ (Except PeekError LogData) :=
  (policy.awaitCommitted position (Program.ask position)).run w fun p =>
    Timeline.instantly (peek p)

/-- Patience runs out after finitely many looks, if they are all in vain. -/
def RunsOut (policy : HoleFillPolicy) : Prop :=
  ∃ least, ∀ w : Worker, w.Faithful → least ≤ w.rounds → ∀ (σ : Type) (peek : Peek σ),
    peek.InVain → ∀ position c, ∃ attempts elapsed c',
      policy.awaiting w peek position c =
        some (.error (.holeFillRequired ⟨position, attempts, elapsed⟩), c')

/-! ## One look -/

/-- What a look ends the wait with: a committed value, or its own failure. -/
def verdict? : Except ReplicationError SlotState → Option (Except PeekError LogData)
  | .ok state => state.committed?.map .ok
  | .error e => some (.error (.replication e))

/-- What a look leads to: its verdict, the end of patience, or a sleep and the looks after it. -/
lemma run_looks_succ (policy : HoleFillPolicy) {σ : Type}
    {answer : Position → Timeline σ (Except ReplicationError SlotState)} {c c' : Clocked σ}
    {found : Except ReplicationError SlotState} (hlook : answer position c = some (found, c'))
    (n attempts : Nat) (elapsed : Duration) :
    (policy.looks position (Program.ask position) (n + 1) attempts elapsed).run w answer c =
      (verdict? found).elim
        ((policy.retryDelay (min (attempts + 1) attemptLimit) elapsed).elim
          (some (.error (.holeFillRequired ⟨position, min (attempts + 1) attemptLimit, elapsed⟩),
            c'))
          (fun delay => (Timeline.pass w delay >>= fun slept =>
            (policy.looks position (Program.ask position) n (min (attempts + 1) attemptLimit)
              (elapsed.add slept)).run w answer) c'))
        (fun r => some (r, c')) := by
  rw [looks, Program.ask, Program.mapError, Program.andThen]
  simp only [Program.call_bind, Program.run_call, Program.done_bind]
  rw [Timeline.bind_apply hlook]
  rcases found with e | _ | _ | _
  · rfl
  · rfl
  all_goals cases policy.retryDelay (min (attempts + 1) attemptLimit) elapsed <;> rfl

/-- The rest of a wait, with at most `n` further looks. -/
def looking (policy : HoleFillPolicy) (w : Worker) (peek : Peek σ) (position : Position)
    (n attempts : Nat) (elapsed : Duration) : Timeline σ (Except PeekError LogData) :=
  (policy.looks position (Program.ask position) n attempts elapsed).run w fun p =>
    Timeline.instantly (peek p)

/-- After a look in vain the reader gives up, or it sleeps as its policy says and looks again. -/
lemma looking_succ (policy : HoleFillPolicy) {peek : Peek σ} (hpeek : peek.InVain)
    (c : Clocked σ) :
    ∃ c', policy.looking w peek position (n + 1) attempts elapsed c =
      (policy.retryDelay (min (attempts + 1) attemptLimit) elapsed).elim
        (pure (.error (.holeFillRequired ⟨position, min (attempts + 1) attemptLimit, elapsed⟩)))
        (fun delay => Timeline.pass w delay >>= fun slept => policy.looking w peek position n
          (min (attempts + 1) attemptLimit) (elapsed.add slept)) c' := by
  have hlook : Timeline.instantly (peek position) c =
      some ((peek position c.state).1, { c with state := (peek position c.state).2 }) := rfl
  refine ⟨{ c with state := (peek position c.state).2 }, ?_⟩
  rw [looking, run_looks_succ policy hlook]
  rcases hpeek position c.state with heq | heq <;> rw [heq] <;>
    cases policy.retryDelay (min (attempts + 1) attemptLimit) elapsed <;> rfl

/-! ## Patience that is bounded -/

/-- A reader whose policy gives up within some number of looks needs no more of them. -/
lemma GivesUp.looking {peek : Peek σ} (h : policy.GivesUp n attempts elapsed) (hw : w.Faithful)
    (hpeek : peek.InVain) (c : Clocked σ) : ∃ attempts' elapsed' c',
      policy.looking w peek position n attempts elapsed c =
        some (.error (.holeFillRequired ⟨position, attempts', elapsed'⟩), c') := by
  induction n generalizing attempts elapsed c with
  | zero => exact h.elim
  | succ n ih =>
    obtain ⟨c₁, heq⟩ := policy.looking_succ hpeek c
    rw [heq]
    rw [GivesUp] at h
    split at h
    · rename_i delay hdelay
      obtain ⟨c₂, hpass⟩ := Timeline.exists_pass w delay c₁
      obtain ⟨late, hlate⟩ := hw.exists_late delay
      rw [hdelay, Option.elim_some, Timeline.bind_apply hpass, hlate]
      exact ih (h late) c₂
    · rename_i hdelay
      rw [hdelay]
      exact ⟨_, _, c₁, rfl⟩

theorem Bounded.runsOut (h : policy.Bounded) : policy.RunsOut := by
  obtain ⟨least, hleast⟩ := h.exists_givesUp
  exact ⟨least, fun w hw hrounds σ peek hpeek position c =>
    (hleast w.rounds hrounds).looking hw hpeek c⟩

/-! ## Patience that is not -/

/-- A policy whose patience is not bounded asks for sleeps of no length while no time has passed. -/
lemma retryDelay_of_not_bounded (h : ¬ policy.Bounded) (attempts : Nat) :
    policy.retryDelay attempts Duration.zero = some Duration.zero := by
  cases policy with
  | immediate | fixed => exact absurd trivial h
  | backoff initialDelay maxDelay maxElapsed =>
    have hnot : maxElapsed ≠ Duration.zero ∧
        (initialDelay = Duration.zero ∨ maxDelay = Duration.zero) := by
      by_contra hcontra
      refine h ?_
      unfold Bounded
      tauto
    have hsub : maxElapsed.sub? Duration.zero = some maxElapsed :=
      Duration.sub?_eq_some_iff.mpr (by simp)
    simp only [retryDelay, hsub, if_neg hnot.1, Option.some.injEq]
    ext
    rcases hnot.2 with rfl | rfl
    · simp [Duration.scale, Duration.nanos_saturate]
    · simp

/-- The reader looks for ever, and no time passes. -/
lemma looking_eq_none {peek : Peek σ} (h : ¬ policy.Bounded) (hw : w.Faithful)
    (hpeek : peek.InVain) (c : Clocked σ) :
    policy.looking w peek position n attempts Duration.zero c = none := by
  induction n generalizing attempts c with
  | zero => rfl
  | succ n ih =>
    obtain ⟨c₁, heq⟩ := policy.looking_succ hpeek c
    obtain ⟨c₂, hpass⟩ := Timeline.exists_pass w Duration.zero c₁
    rw [heq, retryDelay_of_not_bounded h, Option.elim_some, Timeline.bind_apply hpass,
      hw.lasts_zero]
    exact ih c₂

lemma awaiting_eq_none {peek : Peek σ} (h : ¬ policy.Bounded) (hw : w.Faithful)
    (hpeek : peek.InVain) (c : Clocked σ) : policy.awaiting w peek position c = none :=
  looking_eq_none h hw hpeek c

/-- Patience runs out if it is bounded, and only then. -/
theorem runsOut_iff : policy.RunsOut ↔ policy.Bounded := by
  refine ⟨fun ⟨least, hleast⟩ => ?_, Bounded.runsOut⟩
  by_contra h
  -- somebody finds a position empty for ever
  have hpeek : Peek.InVain fun _ (s : Unit) => (.ok .empty, s) := fun _ _ => .inl rfl
  have hw := Worker.usual_faithful least
  obtain ⟨attempts, elapsed, c', heq⟩ :=
    hleast (.usual least) hw (Nat.le_refl _) Unit _ hpeek Position.zero ⟨0, 0, ()⟩
  rw [awaiting_eq_none h hw hpeek] at heq
  cases heq

end HoleFillPolicy

end SharedLog
