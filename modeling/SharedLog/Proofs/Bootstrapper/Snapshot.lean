/-
# The snapshot of a range

What a replay finds is a function of the values that the range holds: its positions are gone through
in their order, in batches of whatever size. Since the reads have decided the range, the values are
settled, and whoever replays the range later finds the same snapshot to the last count.
-/
import Mathlib.Data.List.Induction
import Mathlib.Data.List.Perm.Basic
import Mathlib.Order.Bounds.Defs
import SharedLog.Proofs.Bootstrapper.Replay

namespace SharedLog

variable {L : Law} {s s' : Scene} {id first next middle stop : Nat} {p : Position}
  {stream : StreamId} {values : Position → LogData} {positions : List Position}
  {begin found found' : TailSnapshot} {c : Chain}

/-! ## Ranges -/

lemma positionsBetween_append (h : first ≤ middle) (h' : middle ≤ stop) :
    positionsBetween first stop =
      positionsBetween first middle ++ positionsBetween middle stop := by
  rw [positionsBetween, positionsBetween, positionsBetween, ← List.filterMap_append]
  congr 1
  have hsplit : stop - first = (middle - first) + (stop - middle) := by omega
  rw [hsplit, ← List.range'_append_1, Nat.add_sub_cancel' h]

lemma positionsBetween_of_le (h : stop ≤ first) : positionsBetween first stop = [] := by
  rw [positionsBetween, Nat.sub_eq_zero_of_le h]
  rfl

lemma positionsBetween_sorted : (positionsBetween first stop).Pairwise fun p q => p < q := by
  refine List.Pairwise.filterMap _ (fun m n hlt p hp q hq => ?_) List.pairwise_lt_range'
  rw [Position.ofNat?_eq_some_iff] at hp hq
  exact Position.lt_def.mpr (by omega)

lemma nodup_of_sorted {positions : List Position} (h : positions.Pairwise fun p q => p < q) :
    positions.Nodup := by
  refine h.imp fun {p q} hlt heq => ?_
  rw [heq] at hlt
  exact Nat.lt_irrefl _ hlt

/-! ## Snapshots -/

/-- A value is an entry of a stream. -/
def LogData.Names (v : LogData) (stream : StreamId) : Prop :=
  ∃ entry, v = .entry entry ∧ stream ∈ entry.streams

/-- The snapshot after some positions with their values, in the given order. -/
def TailSnapshot.recordEach (s : TailSnapshot) (values : Position → LogData)
    (positions : List Position) : TailSnapshot :=
  positions.foldl (fun s p => s.record p (values p)) s

namespace TailSnapshot

lemma recordEach_append (s : TailSnapshot) (values : Position → LogData)
    (positions more : List Position) : s.recordEach values (positions ++ more) =
      (s.recordEach values positions).recordEach values more := List.foldl_append

lemma globalTail_recordEach (s : TailSnapshot) (values : Position → LogData)
    (positions : List Position) : (s.recordEach values positions).globalTail = s.globalTail := by
  induction positions generalizing s with
  | nil => rfl
  | cons p positions ih =>
    refine (ih (s.record p (values p))).trans ?_
    cases values p <;> rfl

lemma getElem?_record (snapshot : TailSnapshot) (p : Position) (entry : LogEntry)
    (stream : StreamId) : (snapshot.record p (.entry entry)).streamTails[stream]? =
      if stream ∈ entry.streams then some (some p) else snapshot.streamTails[stream]? := by
  rw [record, Std.ExtTreeSet.foldl_eq_foldl_toList, getElem?_foldl_insert (fun _ => some p)]
  simp

/-- The last position of a stream wins. -/
lemma streamTails_recordEach (s : TailSnapshot) (values : Position → LogData)
    (hsorted : positions.Pairwise fun p q => p < q) (stream : StreamId) :
    (∃ p, IsGreatest {p | p ∈ positions ∧ (values p).Names stream} p ∧
      (s.recordEach values positions).streamTails[stream]? = some (some p)) ∨
    (∀ p ∈ positions, ¬ (values p).Names stream) ∧
      (s.recordEach values positions).streamTails[stream]? = s.streamTails[stream]? := by
  -- the positions are gone through in their order, so that the last one is recorded last
  induction positions using List.reverseRecOn with
  | nil => exact .inr ⟨fun p hp => (List.not_mem_nil hp).elim, rfl⟩
  | append_singleton positions p ih =>
    obtain ⟨hsorted, -, hbehind⟩ := List.pairwise_append.mp hsorted
    have hrecord : s.recordEach values (positions ++ [p]) =
        (s.recordEach values positions).record p (values p) := recordEach_append ..
    rw [hrecord]
    by_cases hnames : (values p).Names stream
    · refine .inl ⟨p, ⟨⟨by simp, hnames⟩, fun q hq => ?_⟩, ?_⟩
      · rcases List.mem_append.mp hq.1 with hmem | hmem
        · exact Nat.le_of_lt (hbehind q hmem p (List.mem_singleton_self p))
        · rw [List.mem_singleton.mp hmem]
          exact Nat.le_refl _
      · obtain ⟨entry, hentry, hstream⟩ := hnames
        rw [hentry, getElem?_record, if_pos hstream]
    · have hsame : ((s.recordEach values positions).record p (values p)).streamTails[stream]? =
          (s.recordEach values positions).streamTails[stream]? := by
        cases hvalue : values p with
        | hole => rfl
        | entry entry =>
          rw [getElem?_record, if_neg fun h => hnames ⟨entry, hvalue, h⟩]
      rw [hsame]
      refine (ih hsorted).imp ?_ ?_
      · rintro ⟨q, ⟨hq, hgreatest⟩, heq⟩
        refine ⟨q, ⟨⟨List.mem_append_left _ hq.1, hq.2⟩, fun r hr => ?_⟩, heq⟩
        rcases List.mem_append.mp hr.1 with hmem | hmem
        · exact hgreatest ⟨hmem, hr.2⟩
        · exact absurd (List.mem_singleton.mp hmem ▸ hr.2) hnames
      · rintro ⟨hnone, heq⟩
        refine ⟨fun q hq => ?_, heq⟩
        rcases List.mem_append.mp hq with hmem | hmem
        · exact hnone q hmem
        · exact List.mem_singleton.mp hmem ▸ hnames

/-- Positions that were read together are recorded in their order. -/
lemma recordAll_eq {readings : Readings}
    (hpositions : ∀ q, q ∈ readings ↔ q ∈ positionsBetween first stop)
    (hvalues : ∀ q v, readings[q]? = some v → values q = v) (s : TailSnapshot) :
    s.recordAll readings = s.recordEach values (positionsBetween first stop) := by
  have hmem : ∀ q v, (q, v) ∈ readings.toList ↔ readings[q]? = some v := fun q v =>
    Std.ExtTreeMap.mem_toList_iff_getElem?_eq_some
  have hordered : (readings.toList.map Prod.fst).Pairwise fun p q => p < q :=
    List.pairwise_map.mpr (readings.ordered_keys_toList.imp Nat.compare_eq_lt.mp)
  -- two lists in order that have the same members are the same
  have hkeys : readings.toList.map Prod.fst = positionsBetween first stop := by
    refine List.Perm.eq_of_pairwise (fun p q _ _ hlt hlt' => ?_) hordered positionsBetween_sorted
      ((List.perm_ext_iff_of_nodup ?_ ?_).mpr fun q => ?_)
    · exact absurd hlt (Nat.not_lt.mpr (Nat.le_of_lt hlt'))
    · exact nodup_of_sorted hordered
    · exact nodup_of_sorted positionsBetween_sorted
    · rw [← hpositions, Std.ExtTreeMap.mem_iff_isSome_getElem?, Option.isSome_iff_exists]
      simp only [List.mem_map, Prod.exists, exists_and_right, exists_eq_right, hmem]
  rw [recordAll, Std.ExtTreeMap.foldl_eq_foldl_toList, recordEach, ← hkeys, List.foldl_map]
  refine List.foldl_ext _ _ _ fun snapshot reading hreading => ?_
  rw [hvalues _ _ ((hmem _ _).mp hreading)]

end TailSnapshot

/-! ## What has been found -/

namespace Scene

/-- A range is decided, and a snapshot is what its values make of another one. -/
structure Found (s : Scene) (first stop : Nat) (begin found : TailSnapshot) : Prop where
  decided : ∀ p : Position, p.Within first stop → ∃ v, s.Committed p v
  eq_recordEach : ∀ values : Position → LogData,
    (∀ p : Position, p.Within first stop → s.Committed p (values p)) →
    found = begin.recordEach values (positionsBetween first stop)

/-- The values of decided positions. -/
lemma exists_values {seen : Position → Prop} (h : ∀ p, seen p → ∃ v, s.Committed p v) :
    ∃ values : Position → LogData, ∀ p, seen p → s.Committed p (values p) := by
  classical
  refine ⟨fun p => if hp : seen p then Classical.choose (h p hp) else .hole, fun p hp => ?_⟩
  dsimp only
  rw [dif_pos hp]
  exact Classical.choose_spec (h p hp)

namespace Found

/-- What is found stays found. -/
lemma later (h : s.Found first stop begin found) (hgrows : s.Grows s') (hsound : s'.Sound) :
    s'.Found first stop begin found where
  decided p hp := by
    obtain ⟨v, hv⟩ := h.decided p hp
    exact ⟨v, hgrows.committed hv⟩
  eq_recordEach values hvalues := by
    refine h.eq_recordEach values fun p hp => ?_
    obtain ⟨v, hv⟩ := h.decided p hp
    obtain rfl := hsound.committed_unique (hgrows.committed hv) (hvalues p hp)
    exact hv

/-- A range has one snapshot. -/
theorem unique (h : s.Found first stop begin found) (h' : s.Found first stop begin found') :
    found = found' := by
  obtain ⟨values, hvalues⟩ := exists_values h.decided
  rw [h.eq_recordEach values hvalues, h'.eq_recordEach values hvalues]

lemma nothing (h : stop ≤ first) : s.Found first stop begin begin where
  decided p hp := absurd (Nat.lt_of_le_of_lt hp.1 hp.2) (Nat.not_lt.mpr h)
  eq_recordEach values _ := by
    rw [positionsBetween_of_le h]
    rfl

/-- After one more batch. -/
lemma recordAll {readings : Readings} (h : s.Found first middle begin found) (hsound : s.Sound)
    (hfirst : first ≤ middle) (hmiddle : middle ≤ stop)
    (hpositions : ∀ q, q ∈ readings ↔ q ∈ positionsBetween middle stop)
    (hvalues : ∀ q v, readings[q]? = some v → s.Committed q v) :
    s.Found first stop begin (found.recordAll readings) where
  decided p hp := by
    by_cases hbefore : p.val < middle
    · exact h.decided p ⟨hp.1, hbefore⟩
    · have hmem := (hpositions p).mpr (mem_positionsBetween.mpr ⟨Nat.not_lt.mp hbefore, hp.2⟩)
      rw [Std.ExtTreeMap.mem_iff_isSome_getElem?, Option.isSome_iff_exists] at hmem
      obtain ⟨v, hv⟩ := hmem
      exact ⟨v, hvalues p v hv⟩
  eq_recordEach values hcommitted := by
    rw [positionsBetween_append hfirst hmiddle, TailSnapshot.recordEach_append,
      ← h.eq_recordEach values fun p hp => hcommitted p ⟨hp.1, Nat.lt_of_lt_of_le hp.2 hmiddle⟩]
    refine TailSnapshot.recordAll_eq hpositions (fun q v hv => ?_) found
    have hmem := (hpositions q).mp (Std.ExtTreeMap.mem_iff_isSome_getElem?.mpr (by simp [hv]))
    obtain ⟨hle, hlt⟩ := mem_positionsBetween.mp hmem
    exact hsound.committed_unique (hcommitted q ⟨Nat.le_trans hfirst hle, hlt⟩) (hvalues q v hv)

/-- The tails found are those that a replay finds. -/
lemma replayed (h : s.Found first stop begin found) (hsound : s.Sound) :
    s.Replayed (Position.Within first stop) begin.streamTails found.streamTails where
  decided := h.decided
  rebuilt stream := by
    obtain ⟨values, hvalues⟩ := exists_values h.decided
    have hnames : ∀ q, q.Within first stop → (s.Names q stream ↔ (values q).Names stream) := by
      intro q hq
      constructor
      · rintro ⟨entry, hentry, hstream⟩
        exact ⟨entry, hsound.committed_unique (hvalues q hq) hentry, hstream⟩
      · rintro ⟨entry, hentry, hstream⟩
        exact ⟨entry, hentry ▸ hvalues q hq, hstream⟩
    rw [h.eq_recordEach values hvalues]
    rcases begin.streamTails_recordEach values positionsBetween_sorted stream with
      ⟨p, ⟨⟨hp, hnamed⟩, hlatest⟩, htail⟩ | ⟨hnone, htail⟩
    · have hwithin := mem_positionsBetween.mp hp
      rw [htail]
      exact .last hwithin ((hnames p hwithin).mpr hnamed) fun q hq hnamed' =>
        hlatest ⟨mem_positionsBetween.mpr hq, (hnames q hq).mp hnamed'⟩
    · rw [htail]
      exact .unnamed fun q hq hnamed' =>
        hnone q (mem_positionsBetween.mpr hq) ((hnames q hq).mp hnamed')

end Found

end Scene

/-! ## The program -/

namespace Chain

/-- Under a law by which the batches of a range can be read, a replay goes on from what it has
found before. -/
lemma replayFrom_finds (hL : L.Watching) {batchSize : Nat}
    (hread : ∀ {s₁ first' stop'}, L.later s s₁ → L.holds s₁ → next ≤ first' → stop' ≤ stop →
      L.Meets id (L.Ends id (ReadAll (positionsBetween first' stop')))
        (c.readMany (positionsBetween first' stop')) s₁)
    (hholds : L.holds s) (hfirst : first ≤ next) (hfound : s.Found first next begin found) :
    L.Meets id (L.Ends id fun snapshot s => s.Found first (max next stop) begin snapshot)
      ((replayFrom batchSize stop next found).interpret c.readMany) s := by
  induction next, found using replayFrom.induct batchSize stop generalizing s with
  | case1 next found hnext batchEnd =>
    rename_i ih
    rw [interpret_replayFrom_of_lt c.readMany hnext]
    have hrange : next < batchEnd ∧ batchEnd ≤ stop := by omega
    refine (hread (L.later_refl s) hholds (Nat.le_refl _) hrange.2).andThen hholds ?_
      fun e s₁ _ _ he => he
    intro readings s₁ hlater hholds₁ hread₁
    obtain ⟨hpositions, hreadings⟩ := hread₁
    have hsound₁ := hL.sound hholds₁
    have hrecorded : s₁.Found first batchEnd begin (found.recordAll readings) :=
      (hfound.later (hL.grows hlater) hsound₁).recordAll hsound₁ hfirst (Nat.le_of_lt hrange.1)
        hpositions hreadings
    have hrest := ih readings (fun hlater₁ hholds₁ hfirst' hstop' =>
      hread (L.later_trans hlater hlater₁) hholds₁ (by omega) hstop') hholds₁ (by omega) hrecorded
    rw [Nat.max_eq_right hrange.2] at hrest
    rw [Nat.max_eq_right (Nat.le_of_lt hnext)]
    exact hrest
  | case2 next found hnext =>
    have hend := Nat.not_lt.mp hnext
    rw [interpret_replayFrom_of_le c.readMany hend, Nat.max_eq_left hend]
    exact hfound

/-- What a replay of a range ends with. -/
def RangeFound (start logTail : Position) (known : StreamPositions) (snapshot : TailSnapshot)
    (s : Scene) : Prop :=
  s.Found start.val logTail.val (.start logTail known) snapshot

lemma RangeFound.globalTail {start logTail : Position} {known : StreamPositions}
    (h : RangeFound start logTail known found s) : found.globalTail = logTail := by
  obtain ⟨values, hvalues⟩ := Scene.exists_values h.decided
  rw [h.eq_recordEach values hvalues, TailSnapshot.globalTail_recordEach]
  rfl

/-- Under a law by which the batches of a range can be read, a replay finds its snapshot. -/
theorem rebuildTails_finds (hL : L.Watching) {start logTail : Position} {known : StreamPositions}
    {batchSize : Nat}
    (hread : ∀ {s₁ first stop}, L.later s s₁ → L.holds s₁ → start.val ≤ first →
      stop ≤ logTail.val → L.Meets id (L.Ends id (ReadAll (positionsBetween first stop)))
        (c.readMany (positionsBetween first stop)) s₁)
    (hholds : L.holds s) :
    L.Meets id (L.Ends id (RangeFound start logTail known))
      (c.rebuildTails start logTail known batchSize) s := by
  refine (replayFrom_finds hL hread hholds (Nat.le_refl _)
    (.nothing (Nat.le_refl _))).mono fun r s₁ hr => ?_
  cases r with
  | error e => exact hr
  | ok snapshot =>
    rcases Nat.le_total start.val logTail.val with hle | hle
    · rw [Nat.max_eq_right hle] at hr
      exact hr
    · rw [Nat.max_eq_left hle] at hr
      -- the range is empty
      refine ⟨fun p hp => absurd (Nat.lt_of_le_of_lt hp.1 hp.2) (Nat.not_lt.mpr hle),
        fun values hvalues => ?_⟩
      rw [positionsBetween_of_le hle, ← positionsBetween_of_le (Nat.le_refl start.val)]
      exact hr.eq_recordEach values fun p hp =>
        absurd (Nat.lt_of_le_of_lt hp.1 hp.2) (Nat.lt_irrefl _)

/-- What a replay of a range ends with, as far as tails go. -/
def ReplayEnds (first stop : Nat) (logTail : Position) (known : StreamPositions)
    (snapshot : TailSnapshot) (s : Scene) : Prop :=
  snapshot.globalTail = logTail ∧
    s.Replayed (Position.Within first stop) known snapshot.streamTails

/-- A replay finds for each stream its last position in the range, or else what was known. -/
theorem rebuildTails_meets (hL : L.Chainlike) (hwaits : c.Waits L) {start logTail : Position}
    {known : StreamPositions} {batchSize : Nat} (hc : s.node.chain = c) (hholds : L.holds s) :
    L.Meets id (L.Ends id (ReplayEnds start.val logTail.val logTail known))
      (c.rebuildTails start logTail known batchSize) s := by
  have hfinds : L.Meets id (L.Ends id (RangeFound start logTail known))
      (c.rebuildTails start logTail known batchSize) s :=
    rebuildTails_finds hL.toWatching (fun hlater hholds₁ _ _ =>
      readMany_reads hL.toWatching ((hL.grows hlater).chain.trans hc) hholds₁ hwaits
        fun p _ => hL.filling p) hholds
  refine (hfinds.kept hholds).mono fun r s₁ ⟨hr, _, hholds₁⟩ => ?_
  cases r with
  | error e => exact hr
  | ok snapshot => exact ⟨hr.globalTail, hr.replayed (hL.sound hholds₁)⟩

end Chain

end SharedLog
