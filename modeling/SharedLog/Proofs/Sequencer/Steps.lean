/-
# Steps of the sequencer

All that the sequencer can do with a request for positions and with a bootstrap. What follows of the
sequencer's state is derived from these two lists of cases.

A merge takes for each stream the later one of its tail and its hint, and for the global tail the
first position that is neither before the old tail, nor before its hint, nor before or at the hint
of a stream.
-/
import Mathlib.Tactic.Common
import SharedLog.Sequencer.State

namespace SharedLog

namespace Sequencer

variable {q q' : Sequencer} {stream : StreamId}

/-! ## Requests for positions -/

/-- What the sequencer can answer to a request for positions, and what it is then. -/
inductive Allocated (q : Sequencer) (request : TokenRequest) :
    Except SequencerError Token → Sequencer → Prop
  | stale (h : request.epoch < q.epoch) :
    Allocated q request (.error (.staleEpoch request.epoch q.epoch))
      { q with staleRejections := q.staleRejections + 1 }
  | tooMany {detail : String} (h : q.maxTokens < request.count) :
    Allocated q request (.error (.invalidArgument detail)) q
  | queried (hepoch : q.epoch ≤ request.epoch) (hcount : request.count = 0) :
    Allocated q request (.ok ⟨q.epoch, q.globalTail, 0, q.tailsOf request.streams⟩)
      { q with queriesServed := q.queriesServed + 1 }
  | overflow (hcount : request.count ≠ 0) (h : q.globalTail.add? request.count.toNat = none) :
    Allocated q request (.error (.tailOverflow q.globalTail request.count)) q
  | granted {tail last : Position} (hepoch : q.epoch ≤ request.epoch) (hcount : request.count ≠ 0)
      (htail : tail.val = q.globalTail.val + request.count.toNat)
      (hlast : tail.val = last.val + 1) :
    Allocated q request (.ok ⟨q.epoch, q.globalTail, request.count, q.tailsOf request.streams⟩)
      (q.grant request tail last)

theorem allocated_allocate (q : Sequencer) (request : TokenRequest) :
    q.Allocated request (q.allocate request).1 (q.allocate request).2 := by
  unfold allocate
  split
  · exact .stale ‹_›
  · rename_i hstale
    have hepoch : q.epoch ≤ request.epoch := Nat.not_lt.mp hstale
    split
    · exact .tooMany ‹_›
    · split
      · rename_i hquery
        exact .queried hepoch (by simpa [TokenRequest.isQuery] using hquery)
      · rename_i hquery
        have hcount : request.count ≠ 0 := by simpa [TokenRequest.isQuery] using hquery
        have hpos : 0 < request.count.toNat := by
          refine Nat.pos_of_ne_zero fun h0 => hcount ?_
          exact UInt64.toNat_inj.mp h0
        split
        · exact .overflow hcount ‹_›
        · rename_i tail htail
          have htail := Position.add?_eq_some_iff.mp htail
          split
          · -- a run that is not empty has a last position
            rename_i hprev
            have hzero := Position.prev?_eq_none_iff.mp hprev
            omega
          · rename_i last hlast
            exact .granted hepoch hcount htail (Position.prev?_eq_some_iff.mp hlast)

/-- A request for positions leaves the epoch and the last bootstrap alone, and takes no position
back. -/
lemma Allocated.frame {request : TokenRequest} {r : Except SequencerError Token}
    (h : q.Allocated request r q') : q'.epoch = q.epoch ∧ q'.lastBootstrap = q.lastBootstrap ∧
      q.globalTail ≤ q'.globalTail := by
  cases h with
  | granted hepoch hcount htail hlast => exact ⟨rfl, rfl, Position.le_def.mpr (by
      simp only [grant, htail]
      omega)⟩
  | stale | tooMany | queried | overflow => exact ⟨rfl, rfl, Nat.le_refl _⟩

/-- The sequencer tells the tails of exactly the streams that it is asked for. -/
lemma mem_tailsOf {streams : StreamSet} : stream ∈ q.tailsOf streams ↔ stream ∈ streams := by
  rw [tailsOf, Std.ExtTreeMap.mem_iff_isSome_getElem?, StreamSet.getElem?_mapTo]
  split <;> simp [*]

lemma backpointers_allocate {request : TokenRequest} {token : Token}
    (h : (q.allocate request).1 = .ok token) : token.backpointers = q.tailsOf request.streams := by
  have hallocated := q.allocated_allocate request
  rw [h] at hallocated
  generalize (q.allocate request).2 = q' at hallocated
  cases hallocated <;> rfl

/-! ## Bootstraps -/

/-- What the sequencer can answer to a bootstrap, and what it is then. -/
inductive Bootstrapped (q : Sequencer) (request : BootstrapRequest) (now : Timestamp) :
    Except SequencerError BootstrapOutcome → Sequencer → Prop
  | stale (h : request.newEpoch < q.epoch) :
    Bootstrapped q request now (.error (.staleEpoch request.newEpoch q.epoch))
      { q with staleRejections := q.staleRejections + 1 }
  | already (hepoch : request.newEpoch = q.epoch) (hlast : q.lastBootstrap = some request) :
    Bootstrapped q request now (.ok .alreadyApplied) q
  | refused {e : SequencerError} (h : q.reseed request = .error e) :
    Bootstrapped q request now (.error e) q
  | applied {globalTail : Position} {streamTails : StreamTails}
      (hepoch : q.epoch ≤ request.newEpoch)
      (h : q.reseed request = .ok (globalTail, streamTails)) :
    Bootstrapped q request now (.ok .applied)
      { q with
        epoch := request.newEpoch
        globalTail
        streamTails
        lastBootstrap := some request
        lastBootstrapAt := some now
        bootstraps := q.bootstraps + 1 }

theorem bootstrapped_bootstrap (q : Sequencer) (request : BootstrapRequest) (now : Timestamp) :
    q.Bootstrapped request now (q.bootstrap request now).1 (q.bootstrap request now).2 := by
  unfold bootstrap
  split
  · exact .stale ‹_›
  · rename_i hstale
    split
    · rename_i h
      exact .already h.1 h.2
    · split
      · exact .refused ‹_›
      · exact .applied (Nat.not_lt.mp hstale) ‹_›

/-- A bootstrap that succeeds is in effect afterwards, and if it was so before, then nothing has
changed. -/
lemma Bootstrapped.succeeded {request : BootstrapRequest} {now : Timestamp}
    {outcome : BootstrapOutcome} (h : q.Bootstrapped request now (.ok outcome) q') :
    q.epoch ≤ q'.epoch ∧ q'.epoch = request.newEpoch ∧ q'.lastBootstrap = some request ∧
      (outcome = .alreadyApplied → q' = q) := by
  cases h with
  | already hepoch hlast => exact ⟨Nat.le_refl _, hepoch.symm, hlast, fun _ => rfl⟩
  | applied hepoch => exact ⟨hepoch, rfl, rfl, nofun⟩

/-- A bootstrap that is refused changes nothing but the count of stale requests. -/
lemma Bootstrapped.failed {request : BootstrapRequest} {now : Timestamp} {e : SequencerError}
    (h : q.Bootstrapped request now (.error e) q') : ∃ n, q' = { q with staleRejections := n } := by
  cases h with
  | stale => exact ⟨_, rfl⟩
  | refused => exact ⟨q.staleRejections, rfl⟩

/-- The bootstrap that was applied last is answered without doing anything. -/
lemma bootstrap_again {request : BootstrapRequest} (hepoch : request.newEpoch = q.epoch)
    (hlast : q.lastBootstrap = some request) (now : Timestamp) :
    q.bootstrap request now = (.ok .alreadyApplied, q) := by
  rw [bootstrap, if_neg (hepoch ▸ Nat.lt_irrefl _), if_pos ⟨hepoch, hlast⟩]

/-! ## Merges -/

lemma at?_eq_some_iff_mem_toList {hints : StreamPositions} {p : Position} :
    hints.at? stream = some p ↔ (stream, some p) ∈ hints.toList := by
  rw [Std.ExtTreeMap.mem_toList_iff_getElem?_eq_some, StreamPositions.at?, Option.join_eq_some_iff]

/-- The raised tail is the first position at or after the old one that is behind all hints. -/
lemma raiseGlobalTail_le_iff {tail raised : Position} {hints : StreamPositions}
    (h : raiseGlobalTail tail hints = .ok raised) (n : Nat) :
    raised.val ≤ n ↔ tail.val ≤ n ∧ ∀ s p, hints.at? s = some p → p.val < n := by
  simp only [at?_eq_some_iff_mem_toList]
  unfold raiseGlobalTail at h
  generalize hints.toList = l at h ⊢
  -- one hint after the other
  induction l generalizing tail with
  | nil =>
    obtain rfl := Except.ok.inj h
    simp
  | cons hinted l ih =>
    obtain ⟨s, hint⟩ := hinted
    rw [List.foldlM_cons] at h
    cases hint with
    | none =>
      exact (ih h).trans (by simp)
    | some p =>
      dsimp only at h
      cases hafter : p.next? with
      | none =>
        -- the hint is the last position of all: the merge is refused
        rw [hafter] at h
        cases h
      | some after =>
        rw [hafter] at h
        have hval := Position.add?_eq_some_iff.mp hafter
        refine (ih h).trans ?_
        simp only [Position.val_max, List.mem_cons, Prod.mk.injEq, Option.some.injEq]
        constructor
        · rintro ⟨htail, hl⟩
          refine ⟨by omega, fun s' p' hmem => ?_⟩
          rcases hmem with ⟨-, rfl⟩ | hmem
          · omega
          · exact hl s' p' hmem
        · rintro ⟨htail, hl⟩
          have hp := hl s p (.inl ⟨rfl, rfl⟩)
          exact ⟨by omega, fun s' p' hmem => hl s' p' (.inr hmem)⟩

/-- The tail cannot be raised if a stream's hint is the last position of all. -/
lemma raiseGlobalTail_eq_error {tail : Position} {hints : StreamPositions} {e : SequencerError}
    (h : raiseGlobalTail tail hints = .error e) :
    ∃ s p, hints.at? s = some p ∧ p.next? = none ∧ e = .tailOverflow p 1 := by
  simp only [at?_eq_some_iff_mem_toList]
  unfold raiseGlobalTail at h
  generalize hints.toList = l at h
  -- one hint after the other
  induction l generalizing tail with
  | nil => cases h
  | cons hinted l ih =>
    obtain ⟨s, hint⟩ := hinted
    have hlater : (∃ s' p, (s', some p) ∈ l ∧ p.next? = none ∧ e = .tailOverflow p 1) →
        ∃ s' p, (s', some p) ∈ (s, hint) :: l ∧ p.next? = none ∧ e = .tailOverflow p 1 := by
      rintro ⟨s', p, hmem, hlast⟩
      exact ⟨s', p, List.mem_cons_of_mem _ hmem, hlast⟩
    rw [List.foldlM_cons] at h
    cases hint with
    | none => exact hlater (ih h)
    | some p =>
      dsimp only at h
      cases hafter : p.next? with
      | none =>
        rw [hafter] at h
        cases h
        exact ⟨s, p, List.mem_cons_self, hafter, rfl⟩
      | some after =>
        rw [hafter] at h
        exact hlater (ih h)

/-- The tails after one hint. -/
def raiseTail (tails : StreamTails) (hinted : StreamId × Option Position) : StreamTails :=
  match hinted.2 with
  | none => tails
  | some p => tails.alter hinted.1 fun tail => some ((tail.map (max p)).getD p)

/-- A hint moves the tail of its own stream. -/
lemma getElem?_raiseTail (tails : StreamTails) (hinted : StreamId × Option Position)
    (s : StreamId) :
    (raiseTail tails hinted)[s]? = if hinted.1 = s then max tails[s]? hinted.2 else tails[s]? := by
  obtain ⟨s', hint⟩ := hinted
  cases hint with
  | none => simp [raiseTail]
  | some p =>
    rw [raiseTail, Std.ExtTreeMap.getElem?_alter]
    by_cases hs : s' = s
    · subst hs
      cases tails[s']? with
      | none => simp
      | some t =>
        have hmax : max p t = max t p := by
          ext
          simp [Nat.max_comm]
        simp [hmax]
    · simp [hs]

/-- Hints for other streams leave the tail of a stream alone. -/
lemma getElem?_foldl_raiseTail_of_forall_ne {s : StreamId} {l : List (StreamId × Option Position)}
    (h : ∀ hinted ∈ l, hinted.1 ≠ s) (tails : StreamTails) :
    (l.foldl raiseTail tails)[s]? = tails[s]? := by
  induction l generalizing tails with
  | nil => rfl
  | cons hinted l ih =>
    rw [List.foldl_cons, ih fun hinted' hmem => h hinted' (List.mem_cons_of_mem _ hmem),
      getElem?_raiseTail, if_neg (h hinted List.mem_cons_self)]

/-- A merge moves the tail of a stream to its hint, if the hint is later. -/
theorem getElem?_raiseTails (tails : StreamTails) (hints : StreamPositions) (s : StreamId) :
    (raiseTails tails hints)[s]? = max tails[s]? (hints.at? s) := by
  have hfold : raiseTails tails hints = hints.toList.foldl raiseTail tails :=
    Std.ExtTreeMap.foldl_eq_foldl_toList
  have hdistinct := hints.distinct_keys_toList
  have hmem : ∀ hint, hints[s]? = some hint ↔ (s, hint) ∈ hints.toList := fun hint =>
    Std.ExtTreeMap.mem_toList_iff_getElem?_eq_some.symm
  rw [hfold, StreamPositions.at?]
  cases hhint : hints[s]? with
  | none =>
    rw [getElem?_foldl_raiseTail_of_forall_ne]
    · simp
    · rintro ⟨s', hint⟩ hl rfl
      rw [(hmem hint).mpr hl] at hhint
      cases hhint
  | some hint =>
    -- the stream has one hint, before which and after which are only hints for other streams
    obtain ⟨before, after, heq⟩ := List.append_of_mem ((hmem hint).mp hhint)
    rw [heq, List.pairwise_append, List.pairwise_cons] at hdistinct
    obtain ⟨-, ⟨hafter, -⟩, hbefore⟩ := hdistinct
    have hne : ∀ {s₁ s₂ : StreamId}, ¬ compare s₁ s₂ = .eq → s₁ ≠ s₂ := by
      rintro s₁ _ h rfl
      exact h Std.ReflCmp.compare_self
    rw [heq, List.foldl_append, List.foldl_cons, getElem?_foldl_raiseTail_of_forall_ne,
      getElem?_raiseTail, if_pos rfl, getElem?_foldl_raiseTail_of_forall_ne]
    · simp
    · exact fun hinted hl => hne (hbefore hinted hl _ List.mem_cons_self)
    · exact fun hinted hl => (hne (hafter hinted hl)).symm

/-! ## Effects of a merge -/

/-- What a merge makes of the tails. -/
theorem reseed_merge {request : BootstrapRequest} {globalTail : Position}
    {streamTails : StreamTails} (hmerge : request.fullReset = false)
    (h : q.reseed request = .ok (globalTail, streamTails)) :
    (∀ n, globalTail.val ≤ n ↔ q.globalTail.val ≤ n ∧ request.globalTailHint.val ≤ n ∧
      ∀ s p, request.streamTailHints.at? s = some p → p.val < n) ∧
    ∀ s : StreamId, streamTails[s]? = max (q.streamTail s) (request.streamTailHints.at? s) := by
  unfold reseed at h
  rw [hmerge, if_neg (by simp)] at h
  split at h
  · cases h
  · rename_i raised hraised
    cases h
    refine ⟨fun n => ?_, fun s => getElem?_raiseTails ..⟩
    rw [raiseGlobalTail_le_iff hraised, Position.val_max, Nat.max_le, and_assoc]

/-! ## Effects of a full reset -/

lemma misplacedHint?_eq_none_iff {request : BootstrapRequest} :
    misplacedHint? request = none ↔
      ∀ s p, request.streamTailHints.at? s = some p → p < request.globalTailHint := by
  simp only [misplacedHint?, List.findSome?_eq_none_iff, Prod.forall,
    Std.ExtTreeMap.mem_toList_iff_getElem?_eq_some, StreamPositions.at?, Option.join_eq_some_iff]
  constructor
  · intro h s p hp
    have hplaced := h s (some p) hp
    dsimp only at hplaced
    split at hplaced
    · cases hplaced
    · rename_i hle
      exact Nat.not_le.mp hle
  · intro h s hint hhint
    cases hint with
    | none => rfl
    | some p =>
      have hbelow : ¬ request.globalTailHint ≤ p := Nat.not_le.mpr (h s p hhint)
      dsimp only
      rw [if_neg hbelow]

/-- Nothing speaks against a full reset that moves on to another epoch, or finds the sequencer
untouched, and whose hints are in order. -/
lemma resetObjection?_eq_none_iff {request : BootstrapRequest} :
    q.resetObjection? request = none ↔
      (request.newEpoch = q.epoch → q.isUntouched = true) ∧
        request.rebuildStart ≤ request.globalTailHint ∧
        ∀ s p, request.streamTailHints.at? s = some p → p < request.globalTailHint := by
  rw [← misplacedHint?_eq_none_iff]
  unfold resetObjection?
  split
  · rename_i h
    simp only [reduceCtorEq, false_iff, not_and]
    exact fun huntouched => absurd (huntouched h.1) h.2
  · rename_i hepoch
    split
    · rename_i hstart
      simp only [reduceCtorEq, false_iff, not_and]
      exact fun _ hle => absurd hstart (Nat.not_lt.mpr hle)
    · rename_i hstart
      have huntouched : request.newEpoch = q.epoch → q.isUntouched = true := fun heq =>
        Decidable.not_not.mp fun hnot => hepoch ⟨heq, hnot⟩
      have hle : request.rebuildStart ≤ request.globalTailHint := Nat.not_lt.mp hstart
      split
      · rename_i hhints
        simp [hhints]
      · rename_i hhints
        exact ⟨fun _ => ⟨huntouched, hle, hhints⟩, fun _ => rfl⟩

/-- A full reset takes the hints as they are. -/
lemma getElem?_hintedTails (hints : StreamPositions) (s : StreamId) :
    (hintedTails hints)[s]? = hints.at? s := by
  rw [hintedTails, Std.ExtTreeMap.getElem?_filterMap', StreamPositions.at?]
  cases hints[s]? <;> rfl

/-- What a full reset makes of the tails, and when it is admitted. -/
theorem reseed_reset {request : BootstrapRequest} {globalTail : Position}
    {streamTails : StreamTails} (hreset : request.fullReset = true)
    (h : q.reseed request = .ok (globalTail, streamTails)) :
    globalTail = request.globalTailHint ∧
      (∀ s : StreamId, streamTails[s]? = request.streamTailHints.at? s) ∧
      (∀ s p, request.streamTailHints.at? s = some p → p < globalTail) ∧
      (request.newEpoch = q.epoch → q.isUntouched = true) := by
  unfold reseed at h
  rw [hreset, if_pos rfl] at h
  split at h
  · cases h
  · rename_i hnone
    cases h
    obtain ⟨huntouched, -, hhints⟩ := resetObjection?_eq_none_iff.mp hnone
    exact ⟨rfl, getElem?_hintedTails _, hhints, huntouched⟩

/-- A bootstrap of a present or later epoch is refused for its hints only, or since a full reset of
the present epoch finds the sequencer touched. -/
lemma reseed_eq_error {request : BootstrapRequest} {e : SequencerError}
    (h : q.reseed request = .error e) :
    request.fullReset = true ∧ (∃ detail, e = .invalidArgument detail) ∨
      request.fullReset = false ∧ ∃ s p, request.streamTailHints.at? s = some p ∧
        p.next? = none ∧ e = .tailOverflow p 1 := by
  unfold reseed at h
  split at h
  · rename_i hreset
    split at h
    · rename_i objection hobjection
      cases h
      refine .inl ⟨hreset, ?_⟩
      unfold resetObjection? at hobjection
      split at hobjection
      · exact ⟨_, (Option.some.inj hobjection).symm⟩
      · split at hobjection
        · exact ⟨_, (Option.some.inj hobjection).symm⟩
        · split at hobjection
          · exact ⟨_, (Option.some.inj hobjection).symm⟩
          · cases hobjection
    · cases h
  · rename_i hmerge
    split at h
    · rename_i hraise
      cases h
      exact .inr ⟨Bool.eq_false_iff.mpr hmerge, raiseGlobalTail_eq_error hraise⟩
    · cases h

lemma lastBootstrap_of_isUntouched (h : q.isUntouched = true) : q.lastBootstrap = none := by
  simp only [isUntouched, decide_eq_true_eq, Option.isNone_iff_eq_none] at h
  exact h.1

/-- A sequencer that is untouched applies any full reset whose hints are in order, unless it is of a
later epoch. -/
theorem bootstrap_untouched {request : BootstrapRequest} (huntouched : q.isUntouched = true)
    (hepoch : q.epoch ≤ request.newEpoch) (hreset : request.fullReset = true)
    (hstart : request.rebuildStart ≤ request.globalTailHint)
    (hhints : ∀ s p, request.streamTailHints.at? s = some p → p < request.globalTailHint)
    (now : Timestamp) :
    q.bootstrap request now = (.ok .applied,
      { q with
        epoch := request.newEpoch
        globalTail := request.globalTailHint
        streamTails := hintedTails request.streamTailHints
        lastBootstrap := some request
        lastBootstrapAt := some now
        bootstraps := q.bootstraps + 1 }) := by
  have hlast := lastBootstrap_of_isUntouched huntouched
  have hobjection : q.resetObjection? request = none :=
    resetObjection?_eq_none_iff.mpr ⟨fun _ => huntouched, hstart, hhints⟩
  have hstale : ¬ request.newEpoch < q.epoch := Nat.not_lt.mpr hepoch
  rw [bootstrap, if_neg hstale, if_neg (by simp [hlast]), reseed, if_pos hreset, hobjection]

end Sequencer

end SharedLog
