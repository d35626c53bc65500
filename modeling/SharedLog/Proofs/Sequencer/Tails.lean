/-
# Tails of the streams

Every stream's tail lies before the global tail, in every state that a sequencer can come to. So a
run lies behind all that its backpointers lead to, and ends in range.

The tail of a stream is the latest of the positions that the history tells of it: since the last
full reset that took effect, the hints for the stream and the ends of the runs given for it. A run
moves the tails of its streams without looking at them, and rightly so, since it lies behind all of
them.
-/
import SharedLog.Proofs.Sequencer.Fencing

namespace SharedLog

/-! ## Positions that the history tells of a stream -/

/-- The position that a service makes a tail of a stream, if it does. -/
def Service.position? (stream : StreamId) : Service → Option Position
  | ⟨.allocate request, .ok token⟩ => if stream ∈ request.streams then token.last? else none
  | ⟨.bootstrap request _, .ok .applied⟩ => request.streamTailHints.at? stream
  | _ => none

/-- The services of a history from the last full reset on that took effect. -/
def sinceReset (past : List Service) : List Service :=
  past.foldl (fun since x => if x.resets then [x] else since ++ [x]) []

/-- The positions that a history tells of a stream. -/
def positionsOf (stream : StreamId) (past : List Service) : List Position :=
  (sinceReset past).filterMap (·.position? stream)

lemma positionsOf_append (stream : StreamId) (past : List Service) (x : Service) :
    positionsOf stream (past ++ [x]) =
      (if x.resets then [] else positionsOf stream past) ++ (x.position? stream).toList := by
  rw [positionsOf, sinceReset, List.foldl_append]
  simp only [List.foldl_cons, List.foldl_nil]
  split <;> cases h : x.position? stream <;> simp [positionsOf, sinceReset, h]

/-- The latest of some positions and one more. -/
lemma max?_append_toList (positions : List Position) (p? : Option Position) :
    (positions ++ p?.toList).max? = max positions.max? p? := by
  cases p? with
  | none => simp
  | some p =>
    cases positions with
    | nil => simp [List.max?]
    | cons q positions => simp [List.max?, List.foldl_append]

namespace Sequencer

variable {q q' : Sequencer} {x : Service} {past : List Service} {request : TokenRequest}
  {token : Token} {stream : StreamId}

/-! ## Tails stay before the global tail -/

/-- Every stream's tail lies before the global tail. -/
def TailsBelow (q : Sequencer) : Prop :=
  ∀ stream tail, q.streamTail stream = some tail → tail < q.globalTail

lemma TailsBelow.serve (h : q.TailsBelow) (hserved : q.Served x q') : q'.TailsBelow := by
  intro stream tail htail
  cases hserved with
  | idle _ _ _ globalTail streamTails =>
    rw [streamTail, streamTails] at htail
    rw [globalTail]
    exact h stream tail htail
  | gave epoch count ends last_succ =>
    rename_i request tail' last
    rw [streamTail_grant] at htail
    have hpos := toNat_pos count
    change tail < tail'
    split at htail
    · obtain rfl := Option.some.inj htail
      exact Position.lt_def.mpr (by omega)
    · have hlt := Position.lt_def.mp (h stream tail htail)
      exact Position.lt_def.mpr (by omega)
  | merged merge epoch_le epoch untouched raised tails =>
    rename_i request now
    -- the merged tail is the old one or the hint
    obtain ⟨hle, -, hhints⟩ := (raised _).mp (Nat.le_refl _)
    have hhint : ∀ p, request.streamTailHints.at? stream = some p → p < q'.globalTail :=
      fun p hp => hhints stream p hp
    have hold : ∀ p, q.streamTail stream = some p → p < q'.globalTail := fun p hp =>
      Nat.lt_of_lt_of_le (h stream p hp) hle
    rw [tails] at htail
    cases hq : q.streamTail stream with
    | none =>
      rw [hq, Option.max_none_left] at htail
      exact hhint tail htail
    | some old =>
      cases hr : request.streamTailHints.at? stream with
      | none =>
        rw [hq, hr, Option.max_none_right] at htail
        exact hold tail (hq.trans htail)
      | some hint =>
        rw [hq, hr] at htail
        obtain rfl : max old hint = tail := by simpa using htail
        have hlt := Position.lt_def.mp (hold old hq)
        have hlt' := Position.lt_def.mp (hhint hint hr)
        rw [Position.lt_def, Position.val_max]
        omega
  | reset reset epoch_le epoch untouched admitted tails below =>
    rw [tails] at htail
    exact below stream tail htail

theorem tailsBelow_after (epoch : Epoch) (maxTokens : UInt64) (commands : List Command) :
    ((new epoch maxTokens).after commands).TailsBelow := by
  refine history_induction (motive := fun _ q => q.TailsBelow) ?_
    (fun _ q command h => h.serve (served_serve q command)) commands
  intro stream tail htail
  simp [streamTail, new] at htail

/-- A run that is given is not empty. -/
lemma allocate_ne_internal (q : Sequencer) (request : TokenRequest) (detail : String) :
    (q.allocate request).1 ≠ .error (.internal detail) := by
  have hallocated := q.allocated_allocate request
  intro h
  rw [h] at hallocated
  generalize (q.allocate request).2 = q' at hallocated
  cases hallocated

/-- Every stream's tail lies before the global tail.

In every state that a new sequencer can come to, tails lie before the global tail. So a run ends in
range, at the latest with the last position but one, and each of its backpointers leads before the
run; the tails that a query is answered with lie before the global tail that it is answered with;
and the sequencer never finds itself with an empty run. -/
theorem streamTail_lt_globalTail (epoch : Epoch) (maxTokens : UInt64) (commands : List Command)
    (s : Sequencer) (hs : s = (new epoch maxTokens).after commands) :
    (∀ stream tail, s.streamTail stream = some tail → tail < s.globalTail) ∧
    (∀ request token, (s.allocate request).1 = .ok token →
      (token.count ≠ 0 → ∃ last, token.last? = some last ∧
        last.val + 1 = token.first.val + token.count.toNat ∧ last.val + 1 < Position.bound) ∧
      (token.count = 0 → token.first = s.globalTail) ∧
      ∀ stream p, token.backpointer stream = some p → p < token.first) ∧
    ∀ request detail, (s.allocate request).1 ≠ .error (.internal detail) := by
  subst hs
  have hbelow := tailsBelow_after epoch maxTokens commands
  refine ⟨hbelow, fun request token h => ⟨fun hcount => ?_, fun _ => ?_, fun stream p hp => ?_⟩,
    allocate_ne_internal _⟩
  · obtain ⟨tail, last, hlast, hsucc, hends, -⟩ := run_of_allocate h hcount
    exact ⟨last, hlast, hsucc ▸ hends, hsucc ▸ tail.isLt⟩
  · exact (token_of_allocate h).2 ▸ rfl
  · rw [backpointer_of_allocate h] at hp
    split at hp
    · rw [(token_of_allocate h).2]
      exact hbelow stream p hp
    · cases hp

/-- Near the end of the positions a run is given up to the last position but one, and what would go
on is refused. -/
theorem streamTail_lt_globalTail_near_end :
    let stream : StreamId := ⟨7, by decide⟩
    let lastButOne : Position := ⟨18_446_744_073_709_551_614, by decide⟩
    let merge : BootstrapRequest :=
      .merge Epoch.zero ⟨18_446_744_073_709_551_612, by decide⟩ (.ofList [(stream, none)])
    let s := (new Epoch.zero 5).after
      [.bootstrap merge Timestamp.epoch, .allocate ⟨Epoch.zero, 3, .ofList [stream]⟩]
    s.streamTail stream = some lastButOne ∧ lastButOne < s.globalTail ∧
      (s.allocate ⟨Epoch.zero, 1, .ofList [stream]⟩).1 = .error (.tailOverflow s.globalTail 1) := by
  intro stream lastButOne merge s
  have htail : s.streamTail stream = some lastButOne := by decide +kernel
  have hbelow := (streamTail_lt_globalTail Epoch.zero 5 _ s rfl).1
  exact ⟨htail, hbelow stream lastButOne htail, by decide +kernel⟩

/-! ## Tails that do not go back -/

/-- No tail of one sequencer is before that of the other. -/
structure TailsLe (q q' : Sequencer) : Prop where
  globalTail : q.globalTail ≤ q'.globalTail
  streamTail : ∀ stream tail, q.streamTail stream = some tail →
    ∃ tail', q'.streamTail stream = some tail' ∧ tail ≤ tail'

/-- The later one of two tails is before neither of them. -/
lemma exists_max_eq_some {a b : Option Position} {p : Position} (h : a = some p ∨ b = some p) :
    ∃ tail, max a b = some tail ∧ p ≤ tail := by
  have hleft : ∀ p' : Position, p ≤ max p p' := fun p' => by
    rw [Position.le_def, Position.val_max]
    exact Nat.le_max_left ..
  have hright : ∀ p' : Position, p ≤ max p' p := fun p' => by
    rw [Position.le_def, Position.val_max]
    exact Nat.le_max_right ..
  rcases h with rfl | rfl
  · cases b with
    | none => exact ⟨p, rfl, Nat.le_refl _⟩
    | some p' => exact ⟨_, rfl, hleft p'⟩
  · cases a with
    | none => exact ⟨p, rfl, Nat.le_refl _⟩
    | some p' => exact ⟨_, rfl, hright p'⟩

/-- Nothing but a full reset takes a tail back, and none does within an epoch of a sequencer that
is not untouched. -/
lemma Served.tailsLe (h : q.Served x q') (hbelow : q.TailsBelow)
    (hwhy : x.resets = false ∨ q'.epoch = q.epoch ∧ q.isUntouched = false) : q.TailsLe q' where
  globalTail := h.keeps.2.2 hwhy
  streamTail := by
    intro stream tail htail
    cases h with
    | idle _ _ _ _ streamTails =>
      exact ⟨tail, (congrArg (·[stream]?) streamTails).trans htail, Nat.le_refl _⟩
    | gave epoch count ends last_succ =>
      rename_i request tail' last
      have hlt := Position.lt_def.mp (hbelow stream tail htail)
      have hpos := toNat_pos count
      rw [streamTail_grant]
      split
      · -- the run lies behind the tail that it overwrites
        exact ⟨last, rfl, Position.le_def.mpr (by omega)⟩
      · exact ⟨tail, htail, Nat.le_refl _⟩
    | merged _ _ _ _ _ tails =>
      rw [tails]
      exact exists_max_eq_some (.inl htail)
    | reset reset _ epoch _ admitted =>
      rcases hwhy with hnot | ⟨hsame, htouched⟩
      · rw [Service.resets, reset] at hnot
        cases hnot
      · rw [admitted (epoch.symm.trans hsame)] at htouched
        cases htouched

/-! ## The tail of a stream is its latest position -/

/-- What gives no run and is no bootstrap that took effect tells nothing of any stream. -/
lemma position?_of_idle (hgives : ∀ request token, ¬ x.Gives request token)
    (happlies : ∀ request now, x ≠ ⟨.bootstrap request now, .ok .applied⟩) :
    x.position? stream = none ∧ x.resets = false := by
  obtain ⟨command, result⟩ := x
  cases command with
  | allocate request =>
    cases result with
    | error e => exact ⟨rfl, rfl⟩
    | ok token =>
      have hcount : token.count = 0 :=
        Decidable.not_not.mp fun hne => hgives request token ⟨rfl, hne⟩
      exact ⟨by simp [Service.position?, Token.last?, hcount], rfl⟩
  | bootstrap request now =>
    cases result with
    | error e => exact ⟨rfl, rfl⟩
    | ok outcome =>
      cases outcome with
      | applied => exact absurd rfl (happlies request now)
      | alreadyApplied => exact ⟨rfl, rfl⟩
  | metrics => exact ⟨rfl, rfl⟩

/-- The sequencer remembers the latest position of each stream. -/
def Remembers (past : List Service) (q : Sequencer) : Prop :=
  ∀ stream, q.streamTail stream = (positionsOf stream past).max?

lemma Remembers.serve (h : Remembers past q) (hbelow : q.TailsBelow) (hserved : q.Served x q') :
    Remembers (past ++ [x]) q' := by
  intro stream
  rw [positionsOf_append, max?_append_toList]
  cases hserved with
  | idle gives applies _ _ streamTails =>
    obtain ⟨hposition, hresets⟩ : x.position? stream = none ∧ x.resets = false :=
      position?_of_idle gives applies
    have hkept : q'.streamTail stream = q.streamTail stream := congrArg (·[stream]?) streamTails
    simp [hposition, hresets, hkept, h stream]
  | gave epoch count ends last_succ =>
    rename_i request tail last
    have hlast : (⟨q.epoch, q.globalTail, request.count, q.tailsOf request.streams⟩ : Token).last? =
        some last := last?_eq_some count ends last_succ
    rw [streamTail_grant, h stream]
    simp only [Service.resets, Service.position?, hlast, Bool.false_eq_true, if_false]
    split
    · -- the run lies behind the tail that it overwrites
      cases hold : (positionsOf stream past).max? with
      | none => simp
      | some old =>
        have hlt := Position.lt_def.mp (hbelow stream old ((h stream).trans hold))
        have hpos := toNat_pos count
        have hmax : max old last = last := by
          ext
          rw [Position.val_max]
          omega
        simp [hmax]
    · simp
  | merged merge _ _ _ _ tails =>
    rw [tails, h stream]
    simp [Service.resets, Service.position?, merge]
  | reset reset _ _ _ _ tails _ =>
    rw [tails]
    simp [Service.resets, Service.position?, reset]

theorem remembers_history (epoch : Epoch) (maxTokens : UInt64) (commands : List Command) :
    Remembers ((new epoch maxTokens).history commands) ((new epoch maxTokens).after commands) := by
  refine (history_induction (motive := fun past q => Remembers past q ∧ q.TailsBelow) ?_
    (fun past q command h => ?_) commands).1
  · refine ⟨fun stream => ?_, tailsBelow_after epoch maxTokens []⟩
    simp [streamTail, new, positionsOf, sinceReset]
  · have hserved := served_serve q command
    exact ⟨h.1.serve h.2 hserved, h.2.serve hserved⟩

/-- No request for positions takes a tail back. -/
lemma le_streamTail_allocate (hbelow : q.TailsBelow) (request : TokenRequest) {old : Position}
    (hold : q.streamTail stream = some old) :
    ∃ tail, (q.allocate request).2.streamTail stream = some tail ∧ old ≤ tail := by
  have hserved := served_serve q (.allocate request)
  simp only [serve] at hserved
  generalize (q.allocate request).1 = r, (q.allocate request).2 = q' at hserved ⊢
  cases hserved with
  | idle _ _ _ _ streamTails =>
    exact ⟨old, (congrArg (·[stream]?) streamTails).trans hold, Nat.le_refl _⟩
  | gave epoch count ends last_succ =>
    rename_i tail last
    have hlt := Position.lt_def.mp (hbelow stream old hold)
    have hpos := toNat_pos count
    rw [streamTail_grant]
    split
    · exact ⟨last, rfl, Position.le_def.mpr (by omega)⟩
    · exact ⟨old, hold, Nat.le_refl _⟩

/-- Backpointers are what the history tells.

Whatever a new sequencer has served, a stream's tail is the latest of the positions that the history
tells of the stream, and there is none if the history tells of none. A token, for a run or for a
query, has backpointers for exactly the streams that it was asked for, and they are these latest
positions, as they were before the run. That a run overwrites tails takes no tail back. -/
theorem backpointer_eq_max? (epoch : Epoch) (maxTokens : UInt64) (commands : List Command)
    (past : List Service) (hpast : past = (new epoch maxTokens).history commands) (s : Sequencer)
    (hs : s = (new epoch maxTokens).after commands) :
    (∀ stream, s.streamTail stream = (positionsOf stream past).max?) ∧
    ∀ request token, (s.allocate request).1 = .ok token →
      (∀ stream, stream ∈ token.backpointers ↔ stream ∈ request.streams) ∧
      (∀ stream ∈ request.streams, token.backpointer stream = (positionsOf stream past).max?) ∧
      ∀ stream old, s.streamTail stream = some old →
        ∃ tail, (s.allocate request).2.streamTail stream = some tail ∧ old ≤ tail := by
  subst hpast hs
  have hremembers := remembers_history epoch maxTokens commands
  have hbelow := tailsBelow_after epoch maxTokens commands
  generalize (new epoch maxTokens).after commands = s at hremembers hbelow
  refine ⟨hremembers, fun request token h =>
    ⟨fun stream => ?_, fun stream hstream => ?_, fun stream old hold => ?_⟩⟩
  · rw [backpointers_allocate h]
    exact mem_tailsOf
  · rw [backpointer_of_allocate h, if_pos hstream, hremembers stream]
  · exact le_streamTail_allocate hbelow request hold

/-- A full reset forgets a higher tail, a merge with a lower hint does not, and a run goes on behind
both. -/
theorem backpointer_eq_max?_across_reset :
    let stream : StreamId := ⟨7, by decide⟩
    let streams : StreamSet := .ofList [stream]
    let pos (n : Fin 10) : Position := ⟨n, Nat.lt_trans n.isLt (by decide)⟩
    let hint (n : Fin 10) : StreamPositions := .ofList [(stream, some (pos n))]
    let next : Epoch := ⟨1, by decide⟩
    let commands : List Command := [.allocate ⟨Epoch.zero, 5, streams⟩,
      .bootstrap ⟨next, pos 3, hint 2, Position.zero, true⟩ Timestamp.epoch,
      .bootstrap (.merge next (pos 3) (hint 1)) Timestamp.epoch]
    let request : TokenRequest := ⟨next, 1, streams⟩
    ∃ token, (((new Epoch.zero 5).after commands).allocate request).1 = .ok token ∧
      positionsOf stream ((new Epoch.zero 5).history commands) = [pos 2, pos 1] ∧
      token.backpointer stream = some (pos 2) := by
  intro stream streams pos hint next commands request
  have hpositions : positionsOf stream ((new Epoch.zero 5).history commands) = [pos 2, pos 1] := by
    decide +kernel
  obtain ⟨token, htoken⟩ :
      ∃ token, (((new Epoch.zero 5).after commands).allocate request).1 = .ok token := ⟨_, rfl⟩
  refine ⟨token, htoken, hpositions, ?_⟩
  obtain ⟨-, htokens⟩ := backpointer_eq_max? Epoch.zero 5 commands _ rfl _ rfl
  rw [(htokens request token htoken).2.1 stream (by decide +kernel), hpositions]
  rfl

end Sequencer

end SharedLog
