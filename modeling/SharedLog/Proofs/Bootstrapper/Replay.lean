/-
# What a replay finds

A replay reads a range of the log in batches, and the reads decide every position of the range. So
what it finds is settled: the tail of a stream is the last position of the range with an entry of
the stream, and where there is none, what was known before. The condition speaks of committed
positions only and determines the tails, so that whoever replays the range later finds the same.
-/
import SharedLog.Replay
import SharedLog.Proofs.Chain.Operations

namespace SharedLog

variable {s s' : Scene} {first next stop : Nat} {p : Position} {v : LogData} {stream : StreamId}
  {seen : Position → Prop} {known tails tails' : StreamPositions}

/-- A position lies in a range. -/
def Position.Within (first stop : Nat) (p : Position) : Prop := first ≤ p.val ∧ p.val < stop

lemma mem_positionsBetween : p ∈ positionsBetween first stop ↔ p.Within first stop := by
  simp only [positionsBetween, List.mem_filterMap, List.mem_range'_1,
    Position.ofNat?_eq_some_iff, Position.Within]
  constructor
  · rintro ⟨n, hn, rfl⟩
    omega
  · exact fun h => ⟨p.val, by omega, rfl⟩

namespace Scene

/-- Every unit holds an entry of a stream at a position. -/
def Names (s : Scene) (p : Position) (stream : StreamId) : Prop :=
  ∃ entry, s.Committed p (.entry entry) ∧ stream ∈ entry.streams

/-- What a replay of some positions makes of the tail that was known of a stream. -/
inductive Rebuilt (s : Scene) (seen : Position → Prop) (stream : StreamId)
    (known : Option (Option Position)) : Option (Option Position) → Prop
  | last {p : Position} (hseen : seen p) (names : s.Names p stream)
      (latest : ∀ q, seen q → s.Names q stream → q ≤ p) :
      Rebuilt s seen stream known (some (some p))
  | unnamed (h : ∀ q, seen q → ¬ s.Names q stream) : Rebuilt s seen stream known known

/-- Some positions are decided, and tails are what a replay of them makes of the tails known. -/
structure Replayed (s : Scene) (seen : Position → Prop) (known tails : StreamPositions) : Prop where
  decided : ∀ p, seen p → ∃ v, s.Committed p v
  rebuilt : ∀ stream : StreamId, s.Rebuilt seen stream known[stream]? tails[stream]?

/-! ## Replays are settled -/

lemma Names.later (h : s.Names p stream) (hgrows : s.Grows s') : s'.Names p stream := by
  obtain ⟨entry, hentry, hstream⟩ := h
  exact ⟨entry, hgrows.committed hentry, hstream⟩

/-- A decided position names no other streams later. -/
lemma Names.earlier (h : s'.Names p stream) (hsound : s'.Sound) (hgrows : s.Grows s')
    (hv : s.Committed p v) : s.Names p stream := by
  obtain ⟨entry, hentry, hstream⟩ := h
  obtain rfl := hsound.committed_unique (hgrows.committed hv) hentry
  exact ⟨entry, hv, hstream⟩

/-- The position of a replayed range that a stream's tail is left at. -/
lemma Rebuilt.unique {a t t' : Option (Option Position)} (h : s.Rebuilt seen stream a t)
    (h' : s.Rebuilt seen stream a t') : t = t' := by
  cases h with
  | last hseen names latest =>
    rename_i p
    cases h' with
    | last hseen' names' latest' =>
      rename_i p'
      obtain rfl : p = p' := Position.ext
        (Nat.le_antisymm (latest' p hseen names) (latest p' hseen' names'))
      rfl
    | unnamed hnone => exact absurd names (hnone p hseen)
  | unnamed hnone =>
    cases h' with
    | last hseen' names' _ => exact absurd names' (hnone _ hseen')
    | unnamed _ => rfl

namespace Replayed

/-- Replays of the same positions find the same tails. -/
theorem unique (h : s.Replayed seen known tails) (h' : s.Replayed seen known tails') :
    tails = tails' :=
  Std.ExtTreeMap.ext_getElem? fun {stream} => (h.rebuilt stream).unique (h'.rebuilt stream)

/-- What a replay has found stays so. -/
lemma later (h : s.Replayed seen known tails) (hgrows : s.Grows s') (hsound : s'.Sound) :
    s'.Replayed seen known tails where
  decided p hp := by
    obtain ⟨v, hv⟩ := h.decided p hp
    exact ⟨v, hgrows.committed hv⟩
  rebuilt stream := by
    have hback : ∀ q, seen q → s'.Names q stream → s.Names q stream := by
      intro q hq hnames
      obtain ⟨v, hv⟩ := h.decided q hq
      exact hnames.earlier hsound hgrows hv
    have hrebuilt := h.rebuilt stream
    generalize known[stream]? = a, tails[stream]? = t at hrebuilt ⊢
    cases hrebuilt with
    | last hseen names latest =>
      exact .last hseen (names.later hgrows) fun q hq hnames => latest q hq (hback q hq hnames)
    | unnamed hnone => exact .unnamed fun q hq hnames => hnone q hq (hback q hq hnames)

/-- A stream that is named in the range has its tail at the last such position. -/
lemma exists_last (h : s.Replayed seen known tails) (hp : seen p) (hnames : s.Names p stream) :
    ∃ q, tails[stream]? = some (some q) ∧ p ≤ q := by
  have hrebuilt := h.rebuilt stream
  generalize known[stream]? = a, tails[stream]? = t at hrebuilt ⊢
  cases hrebuilt with
  | last hseen names latest => exact ⟨_, rfl, latest p hp hnames⟩
  | unnamed hnone => exact absurd hnames (hnone p hp)

end Replayed

end Scene

/-! ## The program -/

section Batches

variable {Call : Type} {Answer : Call → Type} {batchSize : Nat} {found : TailSnapshot}
  (carryOut : List Position → Program Call Answer (Except ReplicationError Readings))

/-- A replay that has not come to its end reads one batch more. -/
lemma interpret_replayFrom_of_lt (h : next < stop) :
    (replayFrom batchSize stop next found).interpret carryOut =
      (carryOut (positionsBetween next (min (next + max batchSize 1) stop))).andThen fun readings =>
        (replayFrom batchSize stop (min (next + max batchSize 1) stop)
          (found.recordAll readings)).interpret carryOut := by
  rw [replayFrom, dif_pos h, Program.interpret_andThen, Program.interpret_ask]

lemma interpret_replayFrom_of_le (h : stop ≤ next) :
    (replayFrom batchSize stop next found).interpret carryOut = .done (.ok found) := by
  rw [replayFrom, dif_neg (Nat.not_lt.mpr h)]
  rfl

end Batches

end SharedLog
