/-
# Reads that run together come to an end

Of several reads that an activity runs together, each turn of the activity takes one further, and it
is open which one. If the turns come to every place again and again, then all of them end: as long
as a read has not ended there will be a turn for it, and whichever read goes on meanwhile goes down
its own program. That this cannot go on for ever is the well-foundedness of replacing an element of
a multiset by a smaller one (`WellFounded.cutExpand`).
-/
import Mathlib.Logic.Hydra
import Mathlib.Tactic.Abel
import SharedLog.Proofs.World.Progress

namespace SharedLog

variable {L : Law} {w : World} {id : Nat} {α : Type} {s s' : Scene} {choice : Choice}

/-! ## Going down -/

namespace Program

variable {Call : Type} {Answer : Call → Type}

/-- A program is what is left of another one after its first step. -/
inductive Rest : Program Call Answer α → Program Call Answer α → Prop
  | call (c : Call) (next : Answer c → Program Call Answer α) (r : Answer c) :
    Rest (next r) (.call c next)
  | sleep (d : Duration) (next : Duration → Program Call Answer α) (slept : Duration) :
    Rest (next slept) (.sleep d next)
  | unbounded (p : Nat → Program Call Answer α) (n : Nat) : Rest (p n) (.unbounded p)

theorem wellFounded_rest : WellFounded (@Rest α Call Answer) := by
  refine ⟨fun p => ?_⟩
  induction p with
  | done a | unfinished => exact ⟨_, fun p' h => by cases h⟩
  | call c next ih | sleep d next ih | unbounded p ih =>
    refine ⟨_, fun p' h => ?_⟩
    cases h
    exact ih _

end Program

lemma ChainProgram.rest_of_advance {p p' : ChainProgram α}
    (h : ChainProgram.advance id choice s p = some (p', s')) : Program.Rest p' p := by
  cases steps_of_advance h with
  | call => exact .call ..
  | sleep => exact .sleep ..
  | unbounded => exact .unbounded ..

namespace ChainProgram

variable {reads reads' : List (ChainOperation α)}

/-- One of several reads has gone on. -/
def Onward (reads' reads : List (ChainOperation α)) : Prop :=
  ∃ (place : Nat) (read read' : ChainOperation α), reads[place]? = some read ∧
    Program.Rest read' read ∧ reads' = reads.set place read'

theorem wellFounded_onward : WellFounded (Onward (α := α)) := by
  have hwf : WellFounded (Relation.CutExpand (α := ChainOperation α) Program.Rest) :=
    Program.wellFounded_rest.cutExpand
  refine Subrelation.wf (fun {reads' reads} h => ?_)
    (InvImage.wf (fun l : List (ChainOperation α) => (l : Multiset (ChainOperation α))) hwf)
  obtain ⟨place, read, read', hread, hrest, rfl⟩ := h
  -- the read that went on is taken out, and its rest put in
  refine ⟨{read'}, read, by simpa using hrest, ?_⟩
  obtain ⟨hplace, rfl⟩ := List.getElem?_eq_some_iff.mp hread
  have hsplit : reads.take place ++ reads[place] :: reads.drop (place + 1) = reads := by
    rw [← List.drop_eq_getElem_cons hplace, List.take_append_drop]
  rw [List.set_eq_take_append_cons_drop, if_pos hplace]
  generalize reads[place] = read, reads.take place = before, reads.drop (place + 1) = after at *
  subst hsplit
  simp only [← Multiset.coe_add, ← Multiset.cons_coe, ← Multiset.singleton_add]
  abel

/-- Either all reads have ended well, or one of them has not. -/
lemma exists_place (reads : List (ChainOperation α)) :
    (∃ values, valuesOf reads = some values) ∨
      ∃ (place : Nat) (read : ChainOperation α), reads[place]? = some read ∧
        ∀ a, read ≠ .done (.ok a) := by
  by_cases h : ∀ read ∈ reads, ∃ a, read = .done (.ok a)
  · refine .inl ?_
    induction reads with
    | nil => exact ⟨[], rfl⟩
    | cons read reads ih =>
      obtain ⟨a, rfl⟩ := h read List.mem_cons_self
      obtain ⟨values, hvalues⟩ := ih fun read hmem => h read (List.mem_cons_of_mem _ hmem)
      unfold valuesOf at hvalues ⊢
      exact ⟨a :: values, by rw [List.mapM_cons, hvalues]; rfl⟩
  · obtain ⟨read, hmem, hread⟩ : ∃ read ∈ reads, ∀ a, read ≠ .done (.ok a) := by simpa using h
    obtain ⟨place, hplace⟩ := List.mem_iff_getElem?.mp hmem
    exact .inr ⟨place, read, hplace, hread⟩

end ChainProgram

/-! ## One turn of reads that run together -/

namespace NodeProgram

variable {reads : List (ChainOperation (Position × LogData))}
  {next : (NodeCall.readTogether reads).Answer → NodeProgram α} {p' : NodeProgram α}

/-- At a turn of reads that run together either one of them goes on, or they are answered. -/
lemma answered_or_onward
    (h : advance id choice s (.call (.readTogether reads) next) = some (p', s')) :
    (∃ r, p' = next r) ∨ ∃ reads', ChainProgram.Onward reads' reads ∧
      p' = .call (.readTogether reads') next := by
  cases steps_of_advance h with
  | read here step => exact .inr ⟨_, ⟨_, _, _, here, ChainProgram.rest_of_advance step, rfl⟩, rfl⟩
  | failed | collected => exact .inl ⟨_, rfl⟩

/-- There is always a place whose turn takes the reads further, if none of them was cut off. -/
lemma exists_place (hcut : ∀ place : Nat, reads[place]? ≠ some .unfinished) :
    ∃ place, ∀ choice s, choice.place = place →
      ∃ p' s', advance id choice s (.call (.readTogether reads) next) = some (p', s') := by
  rcases ChainProgram.exists_place reads with ⟨values, hvalues⟩ | ⟨place, read, hread, hgoes⟩
  · -- the values are collected
    refine ⟨reads.length, fun choice s hplace => ⟨next (.ok values), s, ?_⟩⟩
    simp only [advance, hplace, List.getElem?_eq_none (Nat.le_refl _), hvalues, Option.map_some]
  · refine ⟨place, fun choice s hplace => ?_⟩
    simp only [advance, hplace, hread]
    cases read with
    | done r =>
      cases r with
      | ok a => exact absurd rfl (hgoes a)
      | error e => exact ⟨_, _, rfl⟩
    | unfinished => exact absurd hread (hcut place)
    | call | sleep | unbounded => exact ⟨_, _, rfl⟩

end NodeProgram

/-! ## Schedules -/

namespace World

/-- An endless schedule that lets an activity come to its end even if it runs reads together: its
turn comes again and again for every place, its loops are cut off after at least a given number of
rounds, and nobody gives it up. -/
structure TendsAll (schedule : Nat → Move) (id least : Nat) : Prop where
  everywhere : ∀ place n, ∃ m, n ≤ m ∧ ∃ choice, schedule m = .advance id choice ∧
    choice.place = place
  patient : ∀ n choice, schedule n = .advance id choice → least ≤ choice.rounds
  kept : ∀ n, schedule n ≠ .drop id

variable {schedule : Nat → Move} {least n : Nat} {job : Job}

lemma TendsAll.tends (h : TendsAll schedule id least) : Tends schedule id least where
  again n := by
    obtain ⟨m, hnm, choice, hchoice, -⟩ := h.everywhere 0 n
    exact ⟨m, hnm, choice, hchoice⟩
  patient := h.patient
  kept := h.kept

/-- A turn at which nothing can go on changes nothing. -/
lemma step_advance_of_none {rest : NodeProgram job.Result}
    (ha : w.activities[id]? = some (.running job rest)) (hdone : ∀ result, rest ≠ .done result)
    (hnone : NodeProgram.advance id choice w.scene rest = none) :
    w.step (.advance id choice) = w := by
  cases rest with
  | done result => exact absurd rfl (hdone result)
  | _ => simp only [step, advance, ha, hnone]

/-- At a move either the reads go on, or they stay as they are and it was not a turn for a place
that takes them further. -/
lemma TendsAll.turn_or_stays (h : TendsAll schedule id least) (hrounds : L.rounds = some least)
    (hholds : ∀ n, L.holds (w.after schedule n).scene)
    (hheeded : ∀ n, L.Heeded id (w.after schedule n).scene)
    {post : job.Result → Scene → Prop} {reads : List (ChainOperation (Position × LogData))}
    {next : (NodeCall.readTogether reads).Answer → NodeProgram job.Result} {place : Nat}
    (hplace : ∀ choice s, choice.place = place → ∃ p' s',
      NodeProgram.advance id choice s (.call (.readTogether reads) next) = some (p', s'))
    (ha : (w.after schedule n).activities[id]? =
      some (.running job (.call (.readTogether reads) next)))
    (hmeets : L.Meets id post (.call (.readTogether reads) next) (w.after schedule n).scene) :
    (∃ p', ((∃ r, p' = next r) ∨ ∃ reads', ChainProgram.Onward reads' reads ∧
        p' = .call (.readTogether reads') next) ∧
      (w.after schedule (n + 1)).activities[id]? = some (.running job p') ∧
      L.Meets id post p' (w.after schedule (n + 1)).scene) ∨
    (w.after schedule (n + 1)).activities[id]? =
      some (.running job (.call (.readTogether reads) next)) ∧
    ∀ choice, schedule n = .advance id choice → choice.place ≠ place := by
  by_cases hnow : ∃ choice, schedule n = .advance id choice
  · obtain ⟨choice, hchoice⟩ := hnow
    cases hadvance : NodeProgram.advance id choice (w.after schedule n).scene
        (.call (.readTogether reads) next) with
    | none =>
      refine .inr ⟨?_, fun choice' hchoice' hp => ?_⟩
      · rw [after, hchoice, step_advance_of_none ha (by simp) hadvance]
        exact ha
      · cases hchoice.symm.trans hchoice'
        obtain ⟨p', s', heq⟩ := hplace choice (w.after schedule n).scene hp
        rw [hadvance] at heq
        cases heq
    | some next' =>
      obtain ⟨p', s'⟩ := next'
      exact .inl ⟨p', NodeProgram.answered_or_onward hadvance,
        h.tends.turn hrounds (hholds n) (hheeded (n + 1)) hchoice ha hmeets hadvance⟩
  · refine .inr ⟨?_, fun choice hchoice => absurd ⟨choice, hchoice⟩ hnow⟩
    exact activity_step (fun choice hchoice => hnow ⟨choice, hchoice⟩) (h.kept n) ha

/-- Reads that run together are answered. -/
theorem TendsAll.answered (h : TendsAll schedule id least) (hrounds : L.rounds = some least)
    (hlater : ∀ n, (w.after schedule n).Runs id →
      L.later (w.after schedule n).scene (w.after schedule (n + 1)).scene)
    (hholds : ∀ n, L.holds (w.after schedule n).scene)
    (hheeded : ∀ n, L.Heeded id (w.after schedule n).scene)
    {post : job.Result → Scene → Prop} (hpost : L.Lasting post) :
    w.Answered schedule L id job post := by
  intro n reads next ha hmeets
  -- whenever a read goes on, less is left to do
  induction reads using ChainProgram.wellFounded_onward.induction generalizing n with
  | _ reads ih =>
  have hcut : ∀ place : Nat, reads[place]? ≠ some .unfinished := by
    intro place hread
    obtain ⟨each, -, hreads, -⟩ := hmeets
    have hnone := hreads place _ hread
    rw [Law.ChainMeets, Program.meets_unfinished, hrounds] at hnone
    cases hnone
  obtain ⟨place, hplace⟩ : ∃ place, ∀ choice s, choice.place = place → ∃ p' s',
      NodeProgram.advance id choice s (.call (.readTogether reads) next) = some (p', s') :=
    NodeProgram.exists_place hcut
  obtain ⟨m, hnm, hturn⟩ := h.everywhere place n
  obtain ⟨d, rfl⟩ := Nat.exists_eq_add_of_le hnm
  clear hnm
  -- on the distance to the next turn for the place
  induction d generalizing n with
  | zero =>
    obtain ⟨choice, hchoice, hp⟩ := hturn
    obtain ⟨p', ⟨r, rfl⟩ | ⟨reads', honward, rfl⟩, ha', hmeets'⟩ :=
      (h.turn_or_stays hrounds hholds hheeded hplace ha hmeets).resolve_right
        fun hstays => hstays.2 choice hchoice hp
    · exact ⟨n + 1, r, ha', hmeets'⟩
    · exact ih reads' honward ha' hmeets'
  | succ d ihd =>
    obtain ⟨p', ⟨r, rfl⟩ | ⟨reads', honward, rfl⟩, ha', hmeets'⟩ | ⟨ha', -⟩ :=
      h.turn_or_stays hrounds hholds hheeded hplace ha hmeets
    · exact ⟨n + 1, r, ha', hmeets'⟩
    · exact ih reads' honward ha' hmeets'
    · refine ihd ha' (hmeets.later hpost (hlater n ⟨job, _, ha⟩) (hholds (n + 1))) ?_
      rwa [Nat.add_assoc, Nat.add_comm 1 d]

/-- An activity that keeps a law under which nothing may be left unfinished returns. -/
theorem TendsAll.returns (h : TendsAll schedule id least) (hrounds : L.rounds = some least)
    (hlater : ∀ n, (w.after schedule n).Runs id →
      L.later (w.after schedule n).scene (w.after schedule (n + 1)).scene)
    (hholds : ∀ n, L.holds (w.after schedule n).scene)
    (hheeded : ∀ n, L.Heeded id (w.after schedule n).scene)
    {post : job.Result → Scene → Prop} (hpost : L.Lasting post) {rest : NodeProgram job.Result}
    (ha : (w.after schedule n).activities[id]? = some (.running job rest))
    (hmeets : L.Meets id post rest (w.after schedule n).scene) :
    ∃ m result, (w.after schedule m).Returned id job result ∧
      post result (w.after schedule m).scene :=
  h.tends.returns_of_answered hrounds hlater hholds hheeded hpost
    (.inr (h.answered hrounds hlater hholds hheeded hpost)) ha hmeets

end World

end SharedLog
