/-
# Histories of the sequencer

What a sequencer has served so far is a list of commands, each with its result. The sequencer's
state is a function of the commands, and the history tells what they came to: which runs of
positions were given, and which bootstraps took effect.

All that a command can do is said once (`served_serve`): a run is given, a merge or a full reset
takes effect, or nothing happens that a later command could notice in the tails or in the epoch.
-/
import Mathlib.Data.List.Induction
import SharedLog.Proofs.Sequencer.Steps
import SharedLog.Sequencer.Command

namespace SharedLog

/-- A command that was served, with its result. -/
structure Service where
  command : Command
  result : command.Result

namespace Service

/-- The service gave a token for a run of positions. -/
def Gives (x : Service) (request : TokenRequest) (token : Token) : Prop :=
  x = ⟨.allocate request, .ok token⟩ ∧ token.count ≠ 0

/-- Whether the service was a full reset that took effect. -/
def resets : Service → Bool
  | ⟨.bootstrap request _, .ok .applied⟩ => request.fullReset
  | _ => false

lemma resets_bootstrap {request : BootstrapRequest} (h : request.fullReset = false)
    (now : Timestamp) (r : Except SequencerError BootstrapOutcome) :
    resets ⟨.bootstrap request now, r⟩ = false := by
  match r with
  | .ok .applied => exact h
  | .ok .alreadyApplied | .error _ => rfl

end Service

namespace Sequencer

variable {q : Sequencer} {commands more : List Command} {command : Command}
  {request : TokenRequest} {token : Token}

/-- The sequencer after it has served some commands in order. -/
def after (q : Sequencer) (commands : List Command) : Sequencer :=
  commands.foldl (fun q command => (q.serve command).2) q

/-- What a sequencer has served when it has served some commands in order. -/
def history (q : Sequencer) : List Command → List Service
  | [] => []
  | command :: commands => ⟨command, (q.serve command).1⟩ :: (q.serve command).2.history commands

/-! ## Histories that go on -/

@[simp] lemma after_nil (q : Sequencer) : q.after [] = q := rfl

@[simp] lemma after_cons (q : Sequencer) (command : Command) (commands : List Command) :
    q.after (command :: commands) = (q.serve command).2.after commands := rfl

lemma after_append (q : Sequencer) (commands more : List Command) :
    q.after (commands ++ more) = (q.after commands).after more := List.foldl_append

lemma history_append (q : Sequencer) (commands more : List Command) :
    q.history (commands ++ more) = q.history commands ++ (q.after commands).history more := by
  induction commands generalizing q with
  | nil => rfl
  | cons command commands ih => simp [history, ih]

lemma map_command_history (q : Sequencer) (commands : List Command) :
    (q.history commands).map (·.command) = commands := by
  induction commands generalizing q with
  | nil => rfl
  | cons command commands ih => simp [history, ih]

/-- An induction along a history: one more command is served at its end. -/
lemma history_induction {motive : List Service → Sequencer → Prop} (start : motive [] q)
    (serve : ∀ past q command, motive past q →
      motive (past ++ [⟨command, (q.serve command).1⟩]) (q.serve command).2)
    (commands : List Command) : motive (q.history commands) (q.after commands) := by
  induction commands using List.reverseRecOn with
  | nil => exact start
  | append_singleton commands command ih =>
    rw [history_append, after_append]
    exact serve _ _ command ih

/-- A service of a history was done by the sequencer as the services before had left it. -/
lemma exists_of_history_eq {before later : List Service} {x : Service}
    (h : q.history commands = before ++ x :: later) :
    ∃ earlier, q.history earlier = before ∧
      x = ⟨x.command, ((q.after earlier).serve x.command).1⟩ := by
  have hcommands : commands =
      before.map (·.command) ++ x.command :: later.map (·.command) := by
    simpa [map_command_history] using congrArg (List.map (·.command)) h
  refine ⟨before.map (·.command), ?_⟩
  rw [hcommands, history_append] at h
  have hlength : (q.history (before.map (·.command))).length = before.length := by
    simpa using congrArg List.length (map_command_history q (before.map (·.command)))
  obtain ⟨hbefore, hx⟩ := List.append_inj h hlength
  exact ⟨hbefore, (List.cons.inj hx).1.symm⟩

/-- A run of a history was given by the sequencer as the services before had left it. -/
lemma exists_of_gives {before later : List Service} {x : Service}
    (h : q.history commands = before ++ x :: later) (hx : x.Gives request token) :
    ∃ earlier, q.history earlier = before ∧ ((q.after earlier).allocate request).1 = .ok token := by
  obtain ⟨earlier, hearlier, heq⟩ := exists_of_history_eq h
  obtain ⟨rfl, -⟩ := hx
  simp only [serve, Service.mk.injEq, heq_eq_eq, true_and] at heq
  exact ⟨earlier, hearlier, heq.symm⟩

/-! ## What serving a command does -/

lemma toNat_pos {n : UInt64} (h : n ≠ 0) : 0 < n.toNat :=
  Nat.pos_of_ne_zero fun h0 => h (UInt64.toNat_inj.mp h0)

/-- A sequencer that has given something stays touched. -/
lemma addSaturating_ne_zero {m n : UInt64} (h : n ≠ 0) : addSaturating m n ≠ 0 := by
  have hn := toNat_pos h
  intro h0
  have hval := congrArg UInt64.toNat h0
  unfold addSaturating at hval
  split at hval
  · rename_i hlt
    simp only [UInt64.size] at hlt
    rw [UInt64.toNat_add, UInt64.toNat_zero] at hval
    omega
  · revert hval
    decide

/-- All that a command can do to the sequencer, given what was served. -/
inductive Served (q : Sequencer) : Service → Sequencer → Prop
  /-- No run is given and no bootstrap takes effect. -/
  | idle {x : Service} {q' : Sequencer} (gives : ∀ request token, ¬ x.Gives request token)
      (applies : ∀ request now, x ≠ ⟨.bootstrap request now, .ok .applied⟩)
      (epoch : q'.epoch = q.epoch) (globalTail : q'.globalTail = q.globalTail)
      (streamTails : q'.streamTails = q.streamTails)
      (untouched : q'.isUntouched = q.isUntouched) : Served q x q'
  | gave {request : TokenRequest} {tail last : Position} (epoch : q.epoch ≤ request.epoch)
      (count : request.count ≠ 0) (ends : tail.val = q.globalTail.val + request.count.toNat)
      (last_succ : tail.val = last.val + 1) :
      Served q ⟨.allocate request,
        .ok ⟨q.epoch, q.globalTail, request.count, q.tailsOf request.streams⟩⟩
        (q.grant request tail last)
  | merged {request : BootstrapRequest} {now : Timestamp} {q' : Sequencer}
      (merge : request.fullReset = false) (epoch_le : q.epoch ≤ request.newEpoch)
      (epoch : q'.epoch = request.newEpoch) (untouched : q'.isUntouched = false)
      (raised : ∀ n, q'.globalTail.val ≤ n ↔ q.globalTail.val ≤ n ∧
        request.globalTailHint.val ≤ n ∧
        ∀ s p, request.streamTailHints.at? s = some p → p.val < n)
      (tails : ∀ s, q'.streamTail s = max (q.streamTail s) (request.streamTailHints.at? s)) :
      Served q ⟨.bootstrap request now, .ok .applied⟩ q'
  | reset {request : BootstrapRequest} {now : Timestamp} {q' : Sequencer}
      (reset : request.fullReset = true) (epoch_le : q.epoch ≤ request.newEpoch)
      (epoch : q'.epoch = request.newEpoch) (untouched : q'.isUntouched = false)
      (admitted : request.newEpoch = q.epoch → q.isUntouched = true)
      (tails : ∀ s, q'.streamTail s = request.streamTailHints.at? s)
      (below : ∀ s p, request.streamTailHints.at? s = some p → p < q'.globalTail) :
      Served q ⟨.bootstrap request now, .ok .applied⟩ q'

lemma Allocated.served {r : Except SequencerError Token} {q' : Sequencer}
    (h : q.Allocated request r q') : q.Served ⟨.allocate request, r⟩ q' := by
  cases h with
  | stale | tooMany | overflow => exact .idle (by simp [Service.Gives]) (by simp) rfl rfl rfl rfl
  | queried =>
    refine .idle ?_ (by simp) rfl rfl rfl rfl
    -- the token of a query is for no run
    rintro _ _ ⟨heq, hcount⟩
    cases heq
    exact hcount rfl
  | granted hepoch hcount htail hlast => exact .gave hepoch hcount htail hlast

lemma Bootstrapped.served {request : BootstrapRequest} {now : Timestamp}
    {r : Except SequencerError BootstrapOutcome} {q' : Sequencer}
    (h : q.Bootstrapped request now r q') : q.Served ⟨.bootstrap request now, r⟩ q' := by
  cases h with
  | stale | already | refused => exact .idle (by simp [Service.Gives]) (by simp) rfl rfl rfl rfl
  | applied hepoch hseed =>
    cases hreset : request.fullReset with
    | false =>
      obtain ⟨hraised, htails⟩ := reseed_merge hreset hseed
      exact .merged hreset hepoch rfl rfl hraised htails
    | true =>
      obtain ⟨-, htails, hbelow, hadmitted⟩ := reseed_reset hreset hseed
      exact .reset hreset hepoch rfl rfl hadmitted htails hbelow

theorem served_serve (q : Sequencer) (command : Command) :
    q.Served ⟨command, (q.serve command).1⟩ (q.serve command).2 := by
  cases command with
  | allocate request => exact (q.allocated_allocate request).served
  | bootstrap request now => exact (q.bootstrapped_bootstrap request now).served
  | metrics => exact .idle (by simp [Service.Gives]) (by simp) rfl rfl rfl rfl

/-! ## Tokens -/

/-- Whatever is asked for, a token tells where the sequencer stands. -/
lemma token_of_allocate (h : (q.allocate request).1 = .ok token) :
    q.epoch ≤ request.epoch ∧
      token = ⟨q.epoch, q.globalTail, request.count, q.tailsOf request.streams⟩ := by
  have hallocated := q.allocated_allocate request
  rw [h] at hallocated
  generalize (q.allocate request).2 = q' at hallocated
  cases hallocated with
  | queried hepoch hcount => exact ⟨hepoch, by rw [hcount]⟩
  | granted hepoch => exact ⟨hepoch, rfl⟩

/-- The tail that a token tells of a stream is the one that the sequencer has. -/
lemma backpointer_of_allocate (h : (q.allocate request).1 = .ok token) (stream : StreamId) :
    token.backpointer stream = if stream ∈ request.streams then q.streamTail stream else none := by
  rw [(token_of_allocate h).2, Token.backpointer, at?_tailsOf]

/-- The last position of a run that ends before a tail. -/
lemma last?_eq_some {token : Token} {tail last : Position} (hcount : token.count ≠ 0)
    (ends : tail.val = token.first.val + token.count.toNat) (last_succ : tail.val = last.val + 1) :
    token.last? = some last := by
  have hpos := toNat_pos hcount
  rw [Token.last?, if_neg hcount, Position.add?_eq_some_iff]
  omega

/-- A run ends in range, and with its last position its streams' tails are moved there and the
global tail behind it. -/
lemma run_of_allocate (h : (q.allocate request).1 = .ok token) (hcount : token.count ≠ 0) :
    ∃ tail last : Position, token.last? = some last ∧ tail.val = last.val + 1 ∧
      tail.val = token.first.val + token.count.toNat ∧
      (q.allocate request).2 = q.grant request tail last := by
  have hallocated := q.allocated_allocate request
  rw [h] at hallocated
  generalize (q.allocate request).2 = q' at hallocated ⊢
  cases hallocated with
  | queried => exact absurd rfl hcount
  | granted _ _ htail hlast => exact ⟨_, _, last?_eq_some hcount htail hlast, hlast, htail, rfl⟩

end Sequencer

end SharedLog
