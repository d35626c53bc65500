/-
# Bootstraps that are asked for again

A bootstrap that was accepted and is asked for again in its own epoch moves no tail, whatever the
sequencer has served in between. Only the last request that took effect is remembered, so after
another merge the old request is weighed anew. It is harmless all the same: within an epoch a
sequencer that was bootstrapped takes no tail back, since it admits no full reset of the same epoch.
So the hints stay behind the tails (`Absorbed`), and merging them once more changes nothing.
-/
import SharedLog.Proofs.Sequencer.Tails

namespace SharedLog

namespace Sequencer

variable {q q' : Sequencer} {x : Service} {request : BootstrapRequest} {now : Timestamp}
  {stream : StreamId}

/-! ## Hints behind the tails -/

/-- The tails are behind all hints of a request. -/
structure Absorbed (q : Sequencer) (request : BootstrapRequest) : Prop where
  globalTail : request.globalTailHint ≤ q.globalTail
  streamTail : ∀ stream p, request.streamTailHints.at? stream = some p →
    ∃ tail, q.streamTail stream = some tail ∧ p ≤ tail

namespace Absorbed

lemma raise (h : q.Absorbed request) (htails : q.TailsLe q') : q'.Absorbed request where
  globalTail := Nat.le_trans h.globalTail htails.globalTail
  streamTail := by
    intro stream p hp
    obtain ⟨tail, htail, hle⟩ := h.streamTail stream p hp
    obtain ⟨tail', htail', hle'⟩ := htails.streamTail stream tail htail
    exact ⟨tail', htail', Nat.le_trans hle hle'⟩

lemma lt_globalTail (h : q.Absorbed request) (hbelow : q.TailsBelow) {p : Position}
    (hp : request.streamTailHints.at? stream = some p) : p < q.globalTail := by
  obtain ⟨tail, htail, hle⟩ := h.streamTail stream p hp
  exact Nat.lt_of_le_of_lt hle (hbelow stream tail htail)

/-- The later one of a stream's tail and its hint is the tail. -/
lemma max_streamTail (h : q.Absorbed request) (stream : StreamId) :
    max (q.streamTail stream) (request.streamTailHints.at? stream) = q.streamTail stream := by
  cases hhint : request.streamTailHints.at? stream with
  | none => simp
  | some p =>
    obtain ⟨tail, htail, hle⟩ := h.streamTail stream p hhint
    rw [htail, Option.max_some_some, Option.some.injEq]
    ext
    rw [Position.val_max]
    exact Nat.max_eq_left hle

end Absorbed

/-- A bootstrap that takes effect leaves the tails behind its hints. -/
lemma absorbed_of_reseed {globalTail : Position} {streamTails : StreamTails}
    (h : q.reseed request = .ok (globalTail, streamTails)) (hglobal : q'.globalTail = globalTail)
    (htails : q'.streamTails = streamTails) : q'.Absorbed request := by
  have htail : ∀ stream, q'.streamTail stream = streamTails[stream]? := fun stream => by
    rw [streamTail, htails]
  cases hreset : request.fullReset with
  | false =>
    obtain ⟨hraised, hmax⟩ := reseed_merge hreset h
    obtain ⟨-, hhint, -⟩ := (hraised _).mp (Nat.le_refl _)
    refine ⟨hglobal ▸ hhint, fun stream p hp => ?_⟩
    rw [htail, hmax]
    exact exists_max_eq_some (.inr hp)
  | true =>
    obtain ⟨rfl, hhints, -, -⟩ := reseed_reset hreset h
    refine ⟨hglobal ▸ Nat.le_refl _, fun stream p hp => ⟨p, ?_, Nat.le_refl _⟩⟩
    rw [htail, hhints, hp]

/-! ## Accepted bootstraps -/

/-- The bootstrap that is remembered is one of the present epoch, and the tails are behind its
hints. -/
def Remembered (q : Sequencer) : Prop :=
  ∀ request, q.lastBootstrap = some request → request.newEpoch = q.epoch ∧ q.Absorbed request

lemma not_isUntouched (h : q.lastBootstrap = some request) : q.isUntouched = false := by
  simp [isUntouched, h]

lemma Remembered.serve (h : q.Remembered) (hbelow : q.TailsBelow) (command : Command) :
    (q.serve command).2.Remembered := by
  intro request hlast
  cases command with
  | allocate tokens =>
    obtain ⟨hepoch, hkept, -⟩ := (q.allocated_allocate tokens).frame
    have hbefore : q.lastBootstrap = some request := hkept.symm.trans hlast
    obtain ⟨hnew, habsorbed⟩ := h request hbefore
    have htails := (served_serve q (.allocate tokens)).tailsLe hbelow
      (.inr ⟨hepoch, not_isUntouched hbefore⟩)
    exact ⟨hnew.trans hepoch.symm, habsorbed.raise htails⟩
  | bootstrap other now =>
    have hbootstrapped := q.bootstrapped_bootstrap other now
    simp only [Sequencer.serve] at hlast ⊢
    generalize (q.bootstrap other now).1 = r, (q.bootstrap other now).2 = q' at *
    cases hbootstrapped with
    | stale =>
      obtain ⟨hnew, habsorbed⟩ := h request hlast
      exact ⟨hnew, habsorbed.globalTail, habsorbed.streamTail⟩
    | already | refused => exact h request hlast
    | applied hepoch hseed =>
      obtain rfl := Option.some.inj hlast
      exact ⟨rfl, absorbed_of_reseed hseed rfl rfl⟩
  | metrics => exact h request hlast

theorem remembered_after (epoch : Epoch) (maxTokens : UInt64) (commands : List Command) :
    ((new epoch maxTokens).after commands).Remembered := by
  refine (history_induction (motive := fun _ q => q.Remembered ∧ q.TailsBelow) ⟨?_, ?_⟩
    (fun _ q command h => ⟨h.1.serve h.2 command, h.2.serve (served_serve q command)⟩) commands).1
  · intro request hlast
    cases hlast
  · exact tailsBelow_after epoch maxTokens []

/-- What was accepted stays behind the tails as long as the epoch stays the same. -/
lemma Absorbed.after (h : q.Absorbed request) (hbelow : q.TailsBelow)
    (htouched : q.isUntouched = false) {commands : List Command}
    (hepoch : (q.after commands).epoch = q.epoch) :
    (q.after commands).Absorbed request ∧ (q.after commands).isUntouched = false := by
  induction commands generalizing q with
  | nil => exact ⟨h, htouched⟩
  | cons command commands ih =>
    have hserved := served_serve q command
    obtain ⟨hle, hkept, -⟩ := hserved.keeps
    -- the epoch does not go back, and so it was the same all the time
    have hnext : (q.serve command).2.epoch = q.epoch := by
      have hrest := epoch_le_after (q.serve command).2 commands
      rw [after_cons] at hepoch
      exact Epoch.ext (Nat.le_antisymm (hepoch ▸ hrest) hle)
    exact ih (h.raise (hserved.tailsLe hbelow (.inr ⟨hnext, htouched⟩))) (hbelow.serve hserved)
      (hkept htouched) (hepoch.trans hnext.symm)

/-- The sequencer remembers a bootstrap until another one takes effect. -/
lemma lastBootstrap_after {commands : List Command} (hlast : q.lastBootstrap = some request)
    (hothers : ∀ other now, ⟨.bootstrap other now, .ok .applied⟩ ∈ q.history commands →
      other = request) : (q.after commands).lastBootstrap = some request := by
  induction commands generalizing q with
  | nil => exact hlast
  | cons command commands ih =>
    refine ih ?_ fun other now hmem => hothers other now (List.mem_cons_of_mem _ hmem)
    have hnow : ∀ other now, (⟨.bootstrap other now, .ok .applied⟩ : Service) =
        ⟨command, (q.serve command).1⟩ → other = request := fun other now heq =>
      hothers other now (heq ▸ List.mem_cons_self)
    cases command with
    | allocate tokens => exact (q.allocated_allocate tokens).frame.2.1.trans hlast
    | bootstrap other now =>
      have hbootstrapped := q.bootstrapped_bootstrap other now
      simp only [Sequencer.serve] at hnow ⊢
      generalize (q.bootstrap other now).1 = r, (q.bootstrap other now).2 = q' at *
      cases hbootstrapped with
      | stale | already | refused => exact hlast
      | applied => rw [hnow other now rfl]
    | metrics => exact hlast

/-! ## Asking again -/

/-- Merging hints that the tails are behind already changes no tail. -/
lemma Absorbed.reseed_eq (h : q.Absorbed request) (hbelow : q.TailsBelow)
    (hmerge : request.fullReset = false) :
    q.reseed request = .ok (q.globalTail, q.streamTails) := by
  cases hseed : q.reseed request with
  | error e =>
    -- a hint before the global tail is not the last position of all
    obtain ⟨hreset, -⟩ | ⟨-, stream, p, hp, hlast, -⟩ := reseed_eq_error hseed
    · rw [hmerge] at hreset
      cases hreset
    · have hlt := Position.lt_def.mp (h.lt_globalTail hbelow hp)
      have hbound := Position.add?_eq_none_iff.mp hlast
      have := q.globalTail.isLt
      omega
  | ok seed =>
    obtain ⟨globalTail, streamTails⟩ := seed
    obtain ⟨hraised, hmax⟩ := reseed_merge hmerge hseed
    have hglobal : globalTail = q.globalTail := by
      refine Position.ext (Nat.le_antisymm ?_ ((hraised _).mp (Nat.le_refl _)).1)
      exact (hraised _).mpr ⟨Nat.le_refl _, h.globalTail, fun s p => h.lt_globalTail hbelow⟩
    have htails : streamTails = q.streamTails :=
      Std.ExtTreeMap.ext_getElem? fun {s} => (hmax s).trans (h.max_streamTail s)
    rw [hglobal, htails]

/-- What comes of a bootstrap of the present epoch whose hints the tails are behind. -/
lemma Absorbed.bootstrapped {r : Except SequencerError BootstrapOutcome} (h : q.Absorbed request)
    (hbelow : q.TailsBelow) (htouched : q.isUntouched = false) (hepoch : q.epoch = request.newEpoch)
    (hbootstrapped : q.Bootstrapped request now r q') :
    (q'.epoch = q.epoch ∧ q'.globalTail = q.globalTail ∧ q'.streamTails = q.streamTails) ∧
      (r = .ok .alreadyApplied ∨ r = .ok .applied ∨
        ∃ detail, r = .error (.invalidArgument detail)) := by
  cases hbootstrapped with
  | stale hstale => exact absurd (hepoch ▸ hstale) (Nat.lt_irrefl _)
  | already => exact ⟨⟨rfl, rfl, rfl⟩, .inl rfl⟩
  | refused herror =>
    refine ⟨⟨rfl, rfl, rfl⟩, .inr (.inr ?_)⟩
    obtain ⟨-, detail, rfl⟩ | ⟨hmerge, -⟩ := reseed_eq_error herror
    · exact ⟨detail, rfl⟩
    · -- a merge has nothing to object to
      rw [h.reseed_eq hbelow hmerge] at herror
      cases herror
  | applied _ hseed =>
    refine ⟨⟨hepoch.symm, ?_⟩, .inr (.inl rfl)⟩
    cases hreset : request.fullReset with
    | false =>
      rw [h.reseed_eq hbelow hreset] at hseed
      cases hseed
      exact ⟨rfl, rfl⟩
    | true =>
      -- a full reset of the present epoch finds the sequencer untouched
      rw [(reseed_reset hreset hseed).2.2.2 hepoch.symm] at htouched
      cases htouched

/-- An accepted bootstrap that is asked for again in its own epoch moves no tail.

Whatever a new sequencer has served before it accepted the bootstrap, and whatever it has served
since, if it is still in the epoch of the bootstrap, then the same bootstrap changes neither the
epoch nor a tail. It is answered as one that is in effect already, or it is applied, or it is
refused as an invalid argument. If no other bootstrap took effect in between, then it is in effect
already, and nothing changes at all. -/
theorem resubmission_moves_no_tail (epoch : Epoch) (maxTokens : UInt64) (earlier : List Command)
    (request : BootstrapRequest) (now : Timestamp) (between : List Command) (now' : Timestamp)
    (q s : Sequencer) (outcome : BootstrapOutcome) (hq : q = (new epoch maxTokens).after earlier)
    (haccepted : (q.bootstrap request now).1 = .ok outcome)
    (hs : s = (q.bootstrap request now).2.after between) (hepoch : s.epoch = request.newEpoch) :
    ((s.bootstrap request now').2.epoch = s.epoch ∧
      (s.bootstrap request now').2.globalTail = s.globalTail ∧
      (s.bootstrap request now').2.streamTails = s.streamTails) ∧
    ((s.bootstrap request now').1 = .ok .alreadyApplied ∨
      (s.bootstrap request now').1 = .ok .applied ∨
      ∃ detail, (s.bootstrap request now').1 = .error (.invalidArgument detail)) ∧
    ((∀ other at', ⟨.bootstrap other at', .ok .applied⟩ ∈
        (q.bootstrap request now).2.history between → other = request) →
      s.bootstrap request now' = (.ok .alreadyApplied, s)) := by
  -- the sequencer right after it has accepted the bootstrap
  obtain ⟨q₁, hq₁⟩ : ∃ q₁, q₁ = (q.bootstrap request now).2 := ⟨_, rfl⟩
  have haftereq : q₁ = (new epoch maxTokens).after (earlier ++ [.bootstrap request now]) := by
    rw [hq₁, hq, after_append]
    rfl
  have hbootstrapped := q.bootstrapped_bootstrap request now
  rw [haccepted, ← hq₁] at hbootstrapped
  rw [← hq₁] at hs ⊢
  obtain ⟨-, hnew, hlast, -⟩ := hbootstrapped.succeeded
  have hbelow₁ : q₁.TailsBelow := haftereq ▸ tailsBelow_after epoch maxTokens _
  have hremembered₁ : q₁.Remembered := haftereq ▸ remembered_after epoch maxTokens _
  have habsorbed₁ : q₁.Absorbed request := (hremembered₁ request hlast).2
  -- and the sequencer now
  have hbelow : s.TailsBelow := by
    rw [hs, haftereq, ← after_append]
    exact tailsBelow_after epoch maxTokens _
  obtain ⟨habsorbed, htouched⟩ : s.Absorbed request ∧ s.isUntouched = false := by
    rw [hs] at hepoch ⊢
    exact habsorbed₁.after hbelow₁ (not_isUntouched hlast) (hepoch.trans hnew.symm)
  obtain ⟨htails, hanswer⟩ :=
    habsorbed.bootstrapped hbelow htouched hepoch (s.bootstrapped_bootstrap request now')
  exact ⟨htails, hanswer, fun hothers =>
    bootstrap_again hepoch.symm (hs ▸ lastBootstrap_after hlast hothers) now'⟩

/-- After another merge of the same epoch the old one is applied once more, and moves nothing. -/
theorem resubmission_moves_no_tail_after_merge :
    let stream : StreamId := ⟨7, by decide⟩
    let pos (n : Fin 20) : Position := ⟨n, Nat.lt_trans n.isLt (by decide)⟩
    let next : Epoch := ⟨1, by decide⟩
    let first : BootstrapRequest := .merge next (pos 6) (.ofList [(stream, some (pos 2))])
    let second : BootstrapRequest := .merge next (pos 9) ∅
    let q := (new Epoch.zero 5).after [.allocate ⟨Epoch.zero, 3, .ofList [stream]⟩]
    let s := (q.bootstrap first Timestamp.epoch).2.after
      [.allocate ⟨next, 2, .ofList [stream]⟩, .bootstrap second Timestamp.epoch]
    (q.bootstrap first Timestamp.epoch).1 = .ok .applied ∧ s.lastBootstrap = some second ∧
      s.streamTail stream = some (pos 7) ∧ s.globalTail = pos 9 ∧
      (s.bootstrap first Timestamp.epoch).1 = .ok .applied ∧
      (s.bootstrap first Timestamp.epoch).2.globalTail = s.globalTail ∧
      (s.bootstrap first Timestamp.epoch).2.streamTails = s.streamTails := by
  intro stream pos next first second q s
  have haccepted : (q.bootstrap first Timestamp.epoch).1 = .ok .applied := by decide +kernel
  obtain ⟨⟨-, hglobal, htails⟩, -⟩ := resubmission_moves_no_tail Epoch.zero 5 _ first
    Timestamp.epoch _ Timestamp.epoch q s .applied rfl haccepted rfl (by decide +kernel)
  exact ⟨haccepted, by decide +kernel, by decide +kernel, by decide +kernel, by decide +kernel,
    hglobal, htails⟩

end Sequencer

end SharedLog
