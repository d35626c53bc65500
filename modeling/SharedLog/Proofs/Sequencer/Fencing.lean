/-
# Runs do not overlap

Within an epoch the sequencer gives every position at most once, and a later run lies behind an
earlier one. A full reset may take the global tail back. Then it moves the sequencer to a later
epoch, or nothing was given before: so a run of an earlier epoch is all that can be met again.

The invariant looks at one run and at the sequencer as it is now (`Fenced`). Since a run begins at
the global tail, the invariant at the second of two runs says how the first one lies to it.
-/
import SharedLog.Proofs.Sequencer.History

namespace SharedLog.Sequencer

variable {q q' : Sequencer} {x : Service} {past : List Service} {request : TokenRequest}
  {token : Token}

/-- A command does not take the epoch back, and it takes the global tail back only as a full reset,
of an untouched sequencer or to a later epoch. -/
lemma Served.keeps (h : q.Served x q') : q.epoch ≤ q'.epoch ∧
    (q.isUntouched = false → q'.isUntouched = false) ∧
    (x.resets = false ∨ q'.epoch = q.epoch ∧ q.isUntouched = false →
      q.globalTail ≤ q'.globalTail) := by
  cases h with
  | idle _ _ epoch globalTail _ untouched =>
    refine ⟨Nat.le_of_eq (congrArg _ epoch.symm), fun h => untouched.trans h, fun _ => ?_⟩
    exact Nat.le_of_eq (congrArg _ globalTail.symm)
  | gave epoch count ends last_succ =>
    refine ⟨Nat.le_refl _, fun _ => ?_, fun _ => ?_⟩
    · simp [isUntouched, grant, addSaturating_ne_zero count]
    · exact Position.le_def.mpr (ends ▸ Nat.le_add_right ..)
  | merged merge epoch_le epoch untouched raised tails =>
    exact ⟨epoch ▸ epoch_le, fun _ => untouched, fun _ => ((raised _).mp (Nat.le_refl _)).1⟩
  | reset reset epoch_le epoch untouched admitted tails below =>
    refine ⟨epoch ▸ epoch_le, fun _ => untouched, fun hwhy => ?_⟩
    rcases hwhy with hnot | ⟨hsame, htouched⟩
    · -- the command is a full reset that took effect
      rw [Service.resets, reset] at hnot
      cases hnot
    · rw [admitted (epoch.symm.trans hsame)] at htouched
      cases htouched

/-- What a run that was given means to the sequencer that has gone on since. -/
structure Fenced (past : List Service) (q : Sequencer) : Prop where
  touched : ∀ {x request token}, x ∈ past → x.Gives request token → q.isUntouched = false
  /-- The run ends before the global tail, unless a full reset has come in between and the epoch is
  a later one. -/
  behind : ∀ {before x later request token}, past = before ++ x :: later →
    x.Gives request token → ∃ last, token.last? = some last ∧ token.epoch ≤ q.epoch ∧
      (token.epoch = q.epoch ∨ (∀ y ∈ later, y.resets = false) → last < q.globalTail)

/-- A run that is given ends before the global tail. -/
lemma Served.gives (h : q.Served x q') (hgives : x.Gives request token) :
    q'.isUntouched = false ∧ token.epoch = q'.epoch ∧
      ∃ last, token.last? = some last ∧ last < q'.globalTail := by
  obtain ⟨rfl, hcount⟩ := hgives
  cases h with
  | idle gives => exact absurd ⟨rfl, hcount⟩ (gives _ _)
  | gave epoch count ends last_succ =>
    rename_i tail last
    refine ⟨?_, rfl, last, last?_eq_some hcount ends last_succ, ?_⟩
    · simp [isUntouched, grant, addSaturating_ne_zero count]
    · exact Position.lt_def.mpr (Nat.lt_of_succ_le (Nat.le_of_eq last_succ.symm))

lemma Fenced.serve (h : Fenced past q) (hserved : q.Served x q') : Fenced (past ++ [x]) q' := by
  obtain ⟨hepoch, huntouched, htail⟩ := hserved.keeps
  constructor
  · intro y request token hy hgives
    rcases List.mem_append.mp hy with hy | hy
    · exact huntouched (h.touched hy hgives)
    · obtain rfl := List.mem_singleton.mp hy
      exact (hserved.gives hgives).1
  · intro before y later request token heq hgives
    rcases List.eq_nil_or_concat later with rfl | ⟨later, z, rfl⟩
    · -- the run was given just now
      obtain ⟨-, rfl⟩ : past = before ∧ x = y := by simpa using List.append_inj' heq rfl
      obtain ⟨-, htoken, last, hlast, hlt⟩ := hserved.gives hgives
      exact ⟨last, hlast, Nat.le_of_eq (congrArg _ htoken), fun _ => hlt⟩
    · rw [List.concat_eq_append, ← List.cons_append, ← List.append_assoc] at heq
      obtain ⟨rfl, rfl⟩ : past = before ++ y :: later ∧ x = z := by
        simpa using List.append_inj' heq rfl
      obtain ⟨last, hlast, hle, hbehind⟩ := h.behind rfl hgives
      refine ⟨last, hlast, Nat.le_trans hle hepoch, fun hwhy => ?_⟩
      have hmem : y ∈ before ++ y :: later := by simp
      rcases hwhy with hsame | hnone
      · -- the epoch has not changed since the run was given
        have hbefore : token.epoch = q.epoch :=
          Epoch.ext (Nat.le_antisymm hle (hsame ▸ hepoch))
        have hkept : q'.epoch = q.epoch := hsame.symm.trans hbefore
        exact Nat.lt_of_lt_of_le (hbehind (.inl hbefore))
          (htail (.inr ⟨hkept, h.touched hmem hgives⟩))
      · have hnone' : ∀ y ∈ later, y.resets = false := fun y hy => hnone y (by simp [hy])
        exact Nat.lt_of_lt_of_le (hbehind (.inr hnone')) (htail (.inl (hnone x (by simp))))

theorem fenced_history (epoch : Epoch) (maxTokens : UInt64) (commands : List Command) :
    Fenced ((new epoch maxTokens).history commands) ((new epoch maxTokens).after commands) := by
  refine history_induction ⟨?_, ?_⟩ (fun past q command h => h.serve (served_serve q command))
    commands
  · intro x request token hx
    cases hx
  · intro before x later request token heq
    simp at heq

lemma epoch_le_after (q : Sequencer) (commands : List Command) :
    q.epoch ≤ (q.after commands).epoch := by
  induction commands generalizing q with
  | nil => exact Nat.le_refl _
  | cons command commands ih =>
    exact Nat.le_trans (served_serve q command).keeps.1 (ih _)

/-- Tokens are fenced by epochs, and runs of one epoch do not overlap.

Whatever a new sequencer serves, its epoch does not go back, and a token has the epoch that the
sequencer is in, which is not later than the one asked for. Of two runs the earlier one is of an
earlier epoch, or of the same epoch and ends before the later one begins. It ends before the later
one begins in any case if no full reset took effect in between. -/
theorem runs_fenced_and_disjoint (epoch : Epoch) (maxTokens : UInt64) (commands : List Command)
    (s : Sequencer) (hs : s = (new epoch maxTokens).after commands) :
    (∀ more, s.epoch ≤ (s.after more).epoch) ∧
    (∀ request token, (s.allocate request).1 = .ok token →
      token.epoch = s.epoch ∧ s.epoch ≤ request.epoch) ∧
    ∀ before x between y later request token request' token',
      (new epoch maxTokens).history commands = before ++ x :: (between ++ y :: later) →
      x.Gives request token → y.Gives request' token' →
      ∃ last, token.last? = some last ∧
        (token.epoch < token'.epoch ∨ token.epoch = token'.epoch ∧ last < token'.first) ∧
        ((∀ z ∈ between, z.resets = false) → last < token'.first) := by
  subst hs
  refine ⟨epoch_le_after _, fun request token h => ?_, ?_⟩
  · obtain ⟨hepoch, rfl⟩ := token_of_allocate h
    exact ⟨rfl, hepoch⟩
  · intro before x between y later request token request' token' hhistory hx hy
    rw [← List.cons_append, ← List.append_assoc] at hhistory
    obtain ⟨earlier, hearlier, hallocate⟩ := exists_of_gives hhistory hy
    have hfenced := fenced_history epoch maxTokens earlier
    rw [hearlier] at hfenced
    obtain ⟨last, hlast, hle, hbehind⟩ := hfenced.behind rfl hx
    -- the later run begins where the sequencer stood then
    obtain ⟨-, rfl⟩ := token_of_allocate hallocate
    refine ⟨last, hlast, ?_, fun hnone => hbehind (.inr hnone)⟩
    rcases Nat.lt_or_eq_of_le hle with hlt | heq
    · exact .inl hlt
    · have hsame := Epoch.ext heq
      exact .inr ⟨hsame, hbehind (.inl hsame)⟩

/-- A full reset takes the tail back, so that a position is given again, in a later epoch. Within
that epoch the runs do not overlap. -/
theorem runs_fenced_and_disjoint_across_reset :
    let next : Epoch := ⟨1, by decide⟩
    let first : Token := ⟨Epoch.zero, Position.zero, 2, ∅⟩
    let second : Token := ⟨next, Position.zero, 3, ∅⟩
    let third : Token := ⟨next, ⟨3, by decide⟩, 1, ∅⟩
    let reset : BootstrapRequest := ⟨next, Position.zero, ∅, Position.zero, true⟩
    let history : List Service := [⟨.allocate ⟨Epoch.zero, 2, ∅⟩, .ok first⟩,
      ⟨.bootstrap reset Timestamp.epoch, .ok .applied⟩, ⟨.allocate ⟨next, 3, ∅⟩, .ok second⟩,
      ⟨.allocate ⟨next, 1, ∅⟩, .ok third⟩]
    (new Epoch.zero 5).history (history.map (·.command)) = history ∧
      first.epoch < second.epoch ∧ first.first = second.first ∧
      ∃ last, second.last? = some last ∧ last < third.first := by
  intro next first second third reset history
  have hhistory : (new Epoch.zero 5).history (history.map (·.command)) = history := rfl
  obtain ⟨-, -, hruns⟩ :=
    runs_fenced_and_disjoint Epoch.zero 5 (history.map (·.command)) _ rfl
  obtain ⟨last, hlast, -, hlt⟩ := hruns [_, _] _ [] _ [] _ _ _ _ hhistory
    ⟨rfl, by decide⟩ ⟨rfl, by decide⟩
  exact ⟨hhistory, by decide, rfl, last, hlast, hlt (by simp)⟩

end SharedLog.Sequencer
