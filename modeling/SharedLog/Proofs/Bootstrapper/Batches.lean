/-
# Replays by any protocol

A replay asks a replication protocol for the values of a range, batch by batch. Whatever the
protocol is, however it reads and whatever else happens to its state: if its reads end well and the
values are the same at all times, then the replay comes to its end, it has asked for every position
of the range once and for no other one, and its snapshot is what the values amount to. So it does
not depend on the size of the batches.
-/
import Mathlib.Data.Set.Card
import Mathlib.Order.Bounds.Defs
import SharedLog.Proofs.Bootstrapper.Snapshot

namespace SharedLog

variable {first next stop : Nat} {values : Position → LogData} {positions : List Position}
  {stream : StreamId} {snapshot found : TailSnapshot} {start logTail : Position}
  {known : StreamPositions}

/-! ## Counting the positions of a range -/

lemma length_positionsBetween (h : stop ≤ Position.bound) :
    (positionsBetween first stop).length = stop - first := by
  rw [positionsBetween, List.length_filterMap_eq_countP, List.countP_eq_length.mpr,
    List.length_range']
  intro n hn
  rw [Option.isSome_iff_exists]
  have hlt : n < Position.bound := by
    have hrange := List.mem_range'_1.mp hn
    omega
  exact ⟨⟨n, hlt⟩, Position.ofNat?_eq_some_iff.mpr rfl⟩

/-- Positions of a range are counted by going through them. -/
lemma ncard_within (select : Position → Bool) :
    {p : Position | p.Within first stop ∧ select p = true}.ncard =
      (positionsBetween first stop).countP select := by
  have hset : {p : Position | p.Within first stop ∧ select p = true} =
      (((positionsBetween first stop).filter select).toFinset : Set Position) := by
    ext p
    simp [mem_positionsBetween]
  rw [hset, Set.ncard_coe_finset, List.toFinset_card_of_nodup, List.countP_eq_length_filter]
  exact (nodup_of_sorted positionsBetween_sorted).filter _

/-! ## What values amount to -/

namespace LogData

/-- Whether a value is an entry. -/
def isEntry : LogData → Bool
  | .entry _ => true
  | .hole => false

end LogData

namespace TailSnapshot

/-- A snapshot tells what the values of a range amount to. -/
structure Describes (snapshot : TailSnapshot) (values : Position → LogData)
    (start logTail : Position) (known : StreamPositions) : Prop where
  globalTail : snapshot.globalTail = logTail
  entries : snapshot.entries =
    {p : Position | p.Within start.val logTail.val ∧ ∃ entry, values p = .entry entry}.ncard
  holes : snapshot.holes =
    {p : Position | p.Within start.val logTail.val ∧ values p = .hole}.ncard
  total : snapshot.entries + snapshot.holes = logTail.val - start.val
  /-- The tail of a stream is the highest position of the range with an entry of the stream. Of a
  stream without such a position it is what was known, if anything was. -/
  streamTails : ∀ stream : StreamId,
    (∃ p, IsGreatest {p : Position | p.Within start.val logTail.val ∧ (values p).Names stream} p ∧
      snapshot.streamTails[stream]? = some (some p)) ∨
    (∀ p : Position, p.Within start.val logTail.val → ¬ (values p).Names stream) ∧
      snapshot.streamTails[stream]? = known[stream]?

lemma entries_recordEach (s : TailSnapshot) (values : Position → LogData)
    (positions : List Position) : (s.recordEach values positions).entries =
      s.entries + positions.countP fun p => (values p).isEntry := by
  induction positions generalizing s with
  | nil => rfl
  | cons p positions ih =>
    refine (ih (s.record p (values p))).trans ?_
    rw [List.countP_cons]
    cases values p with
    | entry entry =>
      exact Nat.add_right_comm s.entries 1 _
    | hole => rfl

lemma holes_recordEach (s : TailSnapshot) (values : Position → LogData)
    (positions : List Position) : (s.recordEach values positions).holes =
      s.holes + positions.countP fun p => !(values p).isEntry := by
  induction positions generalizing s with
  | nil => rfl
  | cons p positions ih =>
    refine (ih (s.record p (values p))).trans ?_
    rw [List.countP_cons]
    cases values p with
    | entry entry => rfl
    | hole =>
      exact Nat.add_right_comm s.holes 1 _

/-- Going through a range leads to the snapshot that its values amount to. -/
theorem describes_recordEach (values : Position → LogData) (start logTail : Position)
    (known : StreamPositions) :
    ((TailSnapshot.start logTail known).recordEach values
      (positionsBetween start.val logTail.val)).Describes values start logTail known where
  globalTail := globalTail_recordEach ..
  entries := by
    have hentry : ∀ p, (∃ entry, values p = .entry entry) ↔ (values p).isEntry = true := by
      intro p
      cases values p <;> simp [LogData.isEntry]
    simp only [hentry]
    rw [entries_recordEach, ncard_within fun p => (values p).isEntry]
    exact Nat.zero_add _
  holes := by
    have hhole : ∀ p, values p = .hole ↔ (!(values p).isEntry) = true := by
      intro p
      cases values p <;> simp [LogData.isEntry]
    simp only [hhole]
    rw [holes_recordEach, ncard_within fun p => !(values p).isEntry]
    exact Nat.zero_add _
  total := by
    rw [entries_recordEach, holes_recordEach,
      ← length_positionsBetween (Nat.le_of_lt logTail.isLt),
      List.length_eq_countP_add_countP fun p => (values p).isEntry]
    simp [TailSnapshot.start]
  streamTails stream := by
    have hsorted : (positionsBetween start.val logTail.val).Pairwise fun p q => p < q :=
      positionsBetween_sorted
    have htails := streamTails_recordEach (.start logTail known) values hsorted stream
    simp only [mem_positionsBetween] at htails
    exact htails

end TailSnapshot

/-! ## Surroundings -/

/-- The surroundings in which programs run. They answer calls in one way or another and change by
that, and they let loops go on for some number of rounds at least. -/
structure Surroundings (Call : Type) (Answer : Call → Type) (State : Type) where
  answers : State → (c : Call) → Answer c → State → Prop
  rounds : Nat

namespace Surroundings

variable {Call : Type} {Answer : Call → Type} {State α β : Type}
  {env : Surroundings Call Answer State} {s : State}

/-- A program comes to its end, with a value and in a state of which `post` holds. -/
def Ends (env : Surroundings Call Answer State) (post : α → State → Prop)
    (p : Program Call Answer α) (s : State) : Prop :=
  p.Meets (fun c post s => ∀ r s', env.answers s c r s' → post r s') (some env.rounds) post s

lemma Ends.mono {post post' : α → State → Prop} {p : Program Call Answer α}
    (h : env.Ends post p s) (hpost : ∀ a s, post a s → post' a s) : env.Ends post' p s :=
  Program.Meets.mono (fun _ _ _ _ hPQ hP r s' hr => hPQ r s' (hP r s' hr)) hpost h

lemma ends_bind {post : β → State → Prop} {p : Program Call Answer α}
    {f : α → Program Call Answer β} (h : env.Ends (fun a s => env.Ends post (f a) s) p s) :
    env.Ends post (p.bind f) s := (Program.meets_bind post p f s).mpr h

/-- Reads of positions that run together end well, with values that are the same at all times. -/
def ReadsAs (env : Surroundings Call Answer State) (good : State → Prop)
    (together : List Position → Program Call Answer (Except ReplicationError
      (List (Position × LogData)))) (values : Position → LogData) : Prop :=
  ∀ positions s, good s → env.Ends
    (fun r s' => r = .ok (positions.map fun p => (p, values p)) ∧ good s') (together positions) s

variable {carryOut : List Position → Program Call Answer (Except ReplicationError Readings)}
  {asked : List Position}

/-- A replay comes to its end while its questions are carried out. Of the value, of the state and of
all positions that were asked for, in their order, `post` holds then. -/
def Replays (env : Surroundings Call Answer State)
    (carryOut : List Position → Program Call Answer (Except ReplicationError Readings))
    (post : α → State → List Position → Prop) (p : ReplayProgram α) (s : State)
    (asked : List Position) : Prop :=
  p.Meets (fun positions post now => env.Ends (fun r s' => post r (s', now.2 ++ positions))
    (carryOut positions) now.1) (some env.rounds) (fun a now => post a now.1 now.2) (s, asked)

lemma Replays.mono {post post' : α → State → List Position → Prop} {p : ReplayProgram α}
    (h : env.Replays carryOut post p s asked) (hpost : ∀ a s asked, post a s asked →
      post' a s asked) : env.Replays carryOut post' p s asked := by
  refine Program.Meets.mono (fun positions P Q now hPQ hP => ?_) (fun a now ha => ?_) h
  · exact Ends.mono hP fun r s' hr => hPQ r _ hr
  · exact hpost a now.1 now.2 ha

/-- Then the replay that asks the protocol comes to the same end. -/
lemma Replays.ends {post : α → State → List Position → Prop} {p : ReplayProgram α}
    (h : env.Replays carryOut post p s asked) :
    env.Ends (fun a s' => ∃ asked', post a s' asked') (p.interpret carryOut) s := by
  induction p generalizing s asked with
  | done a => exact ⟨asked, h⟩
  | call positions next ih =>
    refine ends_bind (Ends.mono h fun r s' hr => ?_)
    exact ih r hr
  | sleep d next ih => exact fun late => ih _ (h late)
  | unbounded p ih => exact fun n hn => ih n (h n hn)
  | unfinished => cases h

/-- Positions that are read together are put in order. -/
lemma ends_readMany {good : State → Prop} {together : List Position → Program Call Answer
      (Except ReplicationError (List (Position × LogData)))} (h : env.ReadsAs good together values)
    (hs : good s) (positions : List Position) :
    env.Ends (fun r s' => r = .ok (Std.ExtTreeMap.ofList (positions.map fun p => (p, values p))) ∧
      good s') (readMany together positions) s := by
  refine ends_bind ((h positions s hs).mono fun r s' hr => ?_)
  obtain ⟨rfl, hs'⟩ := hr
  exact ⟨rfl, hs'⟩

/-- A replay goes on from what it has found before. -/
lemma replays_replayFrom {good : State → Prop} {together : List Position → Program Call Answer
      (Except ReplicationError (List (Position × LogData)))} (h : env.ReadsAs good together values)
    {batchSize : Nat} (hs : good s) :
    env.Replays (readMany together) (fun r _ asked' =>
        r = .ok (found.recordEach values (positionsBetween next stop)) ∧
        asked' = asked ++ positionsBetween next stop)
      (replayFrom batchSize stop next found) s asked := by
  induction next, found using replayFrom.induct batchSize stop generalizing s asked with
  | case1 next found hnext batchEnd =>
    rename_i ih
    rw [replayFrom, dif_pos hnext]
    have hrange : next ≤ batchEnd ∧ batchEnd ≤ stop := by omega
    rw [positionsBetween_append hrange.1 hrange.2, TailSnapshot.recordEach_append]
    refine (ends_readMany h hs _).mono fun r s' hr => ?_
    obtain ⟨rfl, hs'⟩ := hr
    -- the readings of the batch are recorded in the order of positions
    have hrecord : found.recordAll (Std.ExtTreeMap.ofList
          ((positionsBetween next batchEnd).map fun p => (p, values p))) =
        found.recordEach values (positionsBetween next batchEnd) := by
      refine TailSnapshot.recordAll_eq (fun q => ?_) (fun q v hv => ?_) found
      · simp [Std.ExtTreeMap.mem_ofList, List.map_map, Function.comp_def]
      · obtain ⟨p, -, heq⟩ := List.mem_map.mp (Chain.mem_of_getElem?_ofList hv)
        cases heq
        rfl
    rw [← hrecord, ← List.append_assoc]
    exact ih _ hs'
  | case2 next found hnext =>
    rw [replayFrom, dif_neg hnext, positionsBetween_of_le (Nat.not_lt.mp hnext)]
    exact ⟨rfl, (List.append_nil _).symm⟩

end Surroundings

/-- A replay finds what the values of its range amount to, by whatever protocol and in batches of
whatever size.

If the reads of the protocol end well, with values that are the same at all times, then the replay
comes to its end, it has asked for every position of the range once and for no other one, and its
snapshot counts the entries and the holes of the range and has for each stream the highest position
with an entry of the stream, or else what was known. -/
theorem rebuildTails_describes (values : Position → LogData) (start logTail : Position)
    (known : StreamPositions) : ∃ snapshot : TailSnapshot,
      snapshot.Describes values start logTail known ∧
      ∀ (Call : Type) (Answer : Call → Type) (State : Type) (env : Surroundings Call Answer State)
        (good : State → Prop) (together : List Position → Program Call Answer
          (Except ReplicationError (List (Position × LogData)))),
        env.ReadsAs good together values → ∀ batchSize s, good s →
          env.Replays (readMany together) (fun r _ asked => r = .ok snapshot ∧ asked.Nodup ∧
              ∀ p, p ∈ asked ↔ p.Within start.val logTail.val)
            (rebuildTails start logTail known batchSize) s [] ∧
          env.Ends (fun r _ => r = .ok snapshot)
            ((rebuildTails start logTail known batchSize).interpret (readMany together)) s := by
  refine ⟨_, TailSnapshot.describes_recordEach values start logTail known, ?_⟩
  intro Call Answer State env good together hreads batchSize s hs
  have hreplays : env.Replays (readMany together) (fun r _ asked =>
      r = .ok ((TailSnapshot.start logTail known).recordEach values
        (positionsBetween start.val logTail.val)) ∧
      asked = [] ++ positionsBetween start.val logTail.val)
      (rebuildTails start logTail known batchSize) s [] :=
    Surroundings.replays_replayFrom hreads hs
  refine ⟨hreplays.mono fun r _ asked hr => ?_, hreplays.ends.mono fun r _ hr => ?_⟩
  · obtain ⟨rfl, rfl⟩ := hr
    exact ⟨rfl, nodup_of_sorted positionsBetween_sorted, fun p => mem_positionsBetween⟩
  · obtain ⟨asked, rfl, -⟩ := hr
    rfl

/-- Reads positions one after the other, each by a call. -/
def readEach : List Position → Program Position (fun _ => LogData)
    (Except ReplicationError (List (Position × LogData)))
  | [] => .done (.ok [])
  | p :: positions => .call p fun v => (readEach positions).andThen fun rest =>
      .done (.ok ((p, v) :: rest))

/-- A table of values that are looked up, and a list of what was looked up. -/
def Surroundings.table (values : Position → LogData) :
    Surroundings Position (fun _ => LogData) (List Position) where
  answers s p v s' := v = values p ∧ s' = s ++ [p]
  rounds := 0

lemma Surroundings.table_readsAs (values : Position → LogData) :
    (table values).ReadsAs (fun _ => True) readEach values := by
  intro positions s hs
  induction positions generalizing s with
  | nil => exact ⟨rfl, hs⟩
  | cons p positions ih =>
    rintro _ s' ⟨rfl, -⟩
    refine ends_bind ((ih s').mono fun r s'' hr => ?_)
    obtain ⟨rfl, -⟩ := hr
    exact ⟨rfl, trivial⟩

/-- A range that ends at the last position of all, read from a table. One of its positions is a
hole, and a stream was believed to be longer than it is. -/
theorem rebuildTails_describes_last_positions :
    let stream : StreamId := ⟨7, by decide⟩
    let start : Position := ⟨UInt64.size - 4, by decide⟩
    let last : Position := ⟨UInt64.size - 2, by decide⟩
    let logTail : Position := ⟨UInt64.size - 1, by decide⟩
    let values (p : Position) : LogData :=
      if p = start then .hole else .entry ⟨.ofList [stream], .ofList [(stream, none)], []⟩
    (Surroundings.table values).ReadsAs (fun _ => True) readEach values ∧
    ∃ snapshot : TailSnapshot, snapshot.entries + snapshot.holes = 3 ∧
      snapshot.streamTails[stream]? = some (some last) ∧
      ∀ batchSize s, (Surroundings.table values).Ends (fun r _ => r = .ok snapshot)
        ((rebuildTails start logTail (.ofList [(stream, some logTail)]) batchSize).interpret
          (readMany readEach)) s := by
  intro stream start last logTail values
  have hreads := Surroundings.table_readsAs values
  obtain ⟨snapshot, hdescribes, hreplays⟩ :=
    rebuildTails_describes values start logTail (.ofList [(stream, some logTail)])
  have hsize : UInt64.size = 18_446_744_073_709_551_616 := rfl
  have hstart : start.val = UInt64.size - 4 := rfl
  have hval : last.val = UInt64.size - 2 := rfl
  have hend : logTail.val = UInt64.size - 1 := rfl
  have htotal := hdescribes.total
  refine ⟨hreads, snapshot, by omega, ?_,
    fun batchSize s => (hreplays _ _ _ _ _ _ hreads batchSize s trivial).2⟩
  have hlast : last.Within start.val logTail.val ∧ (values last).Names stream := by
    have hne : last ≠ start := fun heq => by
      have := congrArg Position.val heq
      omega
    exact ⟨⟨by omega, by omega⟩, _, if_neg hne, by simp⟩
  rcases hdescribes.streamTails stream with ⟨p, ⟨hp, hgreatest⟩, htail⟩ | ⟨hnone, -⟩
  · have hle : last.val ≤ p.val := hgreatest hlast
    have hlt : p.val < logTail.val := hp.1.2
    obtain rfl : p = last := Position.ext (by omega)
    exact htail
  · exact absurd hlast.2 (hnone last hlast.1)

end SharedLog
