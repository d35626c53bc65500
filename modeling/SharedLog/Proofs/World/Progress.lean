/-
# Activities that come to an end

On an endless schedule an activity ends if its turn comes again and again, if it is not given up,
and if its loops are not cut off too early. The reason is that a program is a well-founded tree, and
that each of its turns leads down the tree. What makes loops end is not the schedule's concern: it
has been shown when the program was shown to keep a law under which nothing may be left unfinished.
-/
import SharedLog.Proofs.World.Past

namespace SharedLog

variable {L : Law} {w : World} {m : Move} {id : Nat} {α β ε ε' : Type}

/-! ## Programs of single actions -/

namespace NodeProgram

/-- A program that does one thing after the other, and reads no positions together. -/
def Single : NodeProgram α → Prop
  | .done _ => True
  | .call (.act _) next => ∀ r, Single (next r)
  | .call (.readTogether _) _ => False
  | .sleep _ next => ∀ slept, Single (next slept)
  | .unbounded p => ∀ n, Single (p n)
  | .unfinished => True

lemma Single.bind {p : NodeProgram α} {f : α → NodeProgram β} (hp : Single p)
    (hf : ∀ a, Single (f a)) : Single (p.bind f) := by
  induction p with
  | done a => exact hf a
  | call c next ih =>
    cases c with
    | act action => exact fun r => ih r (hp r)
    | readTogether reads => exact hp.elim
  | sleep d next ih => exact fun slept => ih slept (hp slept)
  | unbounded p ih => exact fun n => ih n (hp n)
  | unfinished => trivial

lemma Single.andThen {p : NodeProgram (Except ε α)} {f : α → NodeProgram (Except ε β)}
    (hp : Single p) (hf : ∀ a, Single (f a)) : Single (p.andThen f) := by
  refine hp.bind fun r => ?_
  cases r with
  | ok a => exact hf a
  | error e => trivial

lemma single_act (action : Action) : Single (act action) := fun _ => trivial

lemma single_ofChain (p : ChainProgram α) : Single (ofChain p) := by
  induction p with
  | done a => trivial
  | call c next ih => exact fun r => ih r
  | sleep d next ih => exact fun slept => ih slept
  | unbounded p ih => exact fun n => ih n
  | unfinished => trivial

lemma single_onChain (p : ChainOperation α) : Single (onChain p) :=
  (single_ofChain p).bind fun _ => trivial

end NodeProgram

/-! ## Schedules -/

namespace World

/-- An endless schedule that lets an activity come to its end: its turn comes again and again, its
loops are cut off after at least a given number of rounds, and nobody gives it up. -/
structure Tends (schedule : Nat → Move) (id least : Nat) : Prop where
  again : ∀ n, ∃ m, n ≤ m ∧ ∃ choice, schedule m = .advance id choice
  patient : ∀ n choice, schedule n = .advance id choice → least ≤ choice.rounds
  kept : ∀ n, schedule n ≠ .drop id

variable {schedule : Nat → Move} {least n : Nat} {job : Job} {a : Activity} {choice : Choice}

/-- An activity waits while it is not its turn. -/
lemma activity_step (hadvance : ∀ choice, m ≠ .advance id choice) (hdrop : m ≠ .drop id)
    (ha : w.activities[id]? = some a) : (w.step m).activities[id]? = some a := by
  have hid : id < w.activities.length := (List.getElem?_eq_some_iff.mp ha).1
  cases m with
  | start job =>
    rcases step_start w job with heq | ⟨program, -, heq⟩
    · rw [heq, ha]
    · rw [heq, List.getElem?_append_left hid, ha]
  | advance other choice =>
    have hother : other ≠ id := by
      rintro rfl
      exact hadvance choice rfl
    exact ((advanced_advance w other choice).activities_of_ne hother).trans ha
  | drop other =>
    have hother : other ≠ id := by
      rintro rfl
      exact hdrop rfl
    rcases step_drop w other with heq | ⟨job, rest, -, heq⟩
    · rw [heq, ha]
    · rw [heq, List.getElem?_set_ne hother, ha]
  | switch place offline => exact ha
  | join epoch n => exact ha

/-- An activity gets its next turn, and until then a law is kept that is kept while the activity
runs. -/
lemma Tends.next (h : Tends schedule id least)
    (hlater : ∀ n, (w.after schedule n).Runs id →
      L.later (w.after schedule n).scene (w.after schedule (n + 1)).scene)
    {rest : NodeProgram job.Result}
    (ha : (w.after schedule n).activities[id]? = some (.running job rest)) :
    ∃ m choice, schedule m = .advance id choice ∧
      (w.after schedule m).activities[id]? = some (.running job rest) ∧
      L.later (w.after schedule n).scene (w.after schedule m).scene := by
  obtain ⟨m, hnm, hturn⟩ := h.again n
  obtain ⟨d, rfl⟩ := Nat.exists_eq_add_of_le hnm
  clear hnm
  -- on the distance to a turn that will come
  induction d generalizing n with
  | zero =>
    obtain ⟨choice, hchoice⟩ := hturn
    exact ⟨n, choice, hchoice, ha, L.later_refl _⟩
  | succ d ih =>
    by_cases hnow : ∃ choice, schedule n = .advance id choice
    · obtain ⟨choice, hchoice⟩ := hnow
      exact ⟨n, choice, hchoice, ha, L.later_refl _⟩
    · have ha' : (w.after schedule (n + 1)).activities[id]? = some (.running job rest) :=
        activity_step (fun choice hc => hnow ⟨choice, hc⟩) (h.kept n) ha
      obtain ⟨m, choice, hchoice, hm, hlater'⟩ := ih ha' (by rwa [Nat.add_assoc, Nat.add_comm 1 d])
      exact ⟨m, choice, hchoice, hm, L.later_trans (hlater n ⟨job, rest, ha⟩) hlater'⟩

/-- An activity that goes on. -/
lemma activity_advance {rest rest' : NodeProgram job.Result} {scene : Scene}
    (ha : w.activities[id]? = some (.running job rest))
    (hstep : NodeProgram.advance id choice w.scene rest = some (rest', scene)) :
    (w.step (.advance id choice)).activities[id]? = some (.running job rest') ∧
      (w.step (.advance id choice)).scene = scene := by
  have hid : id < w.activities.length := (List.getElem?_eq_some_iff.mp ha).1
  cases rest with
  | done result => cases hstep
  | _ =>
    simp only [step, advance, ha, hstep]
    exact ⟨List.getElem?_set_self hid, trivial⟩

/-- What has been shown of an activity is true of its rest after its turn. -/
lemma Tends.turn (h : Tends schedule id least) (hrounds : L.rounds = some least)
    (hholds : L.holds (w.after schedule n).scene)
    (hheeded : L.Heeded id (w.after schedule (n + 1)).scene)
    {post : job.Result → Scene → Prop} {rest rest' : NodeProgram job.Result} {scene : Scene}
    (hchoice : schedule n = .advance id choice)
    (ha : (w.after schedule n).activities[id]? = some (.running job rest))
    (hmeets : L.Meets id post rest (w.after schedule n).scene)
    (hstep : NodeProgram.advance id choice (w.after schedule n).scene rest = some (rest', scene)) :
    (w.after schedule (n + 1)).activities[id]? = some (.running job rest') ∧
      L.Meets id post rest' (w.after schedule (n + 1)).scene := by
  have hpatient : ∀ k ∈ L.rounds, k ≤ choice.rounds := by
    intro k hk
    rw [hrounds] at hk
    obtain rfl := Option.some.inj hk
    exact h.patient n choice hchoice
  have hafter : w.after schedule (n + 1) = (w.after schedule n).step (.advance id choice) := by
    rw [after, hchoice]
  obtain ⟨ha', hscene⟩ := activity_advance ha hstep
  obtain ⟨-, -, hmeets'⟩ := hmeets.advance hholds hpatient hstep
  rw [hafter, hscene] at hheeded ⊢
  exact ⟨ha', hmeets' hheeded⟩

/-- Reads that an activity runs together are answered at some time. -/
def Answered (w : World) (schedule : Nat → Move) (L : Law) (id : Nat) (job : Job)
    (post : job.Result → Scene → Prop) : Prop :=
  ∀ {n reads next}, (w.after schedule n).activities[id]? =
      some (.running job (.call (.readTogether reads) next)) →
    L.Meets id post (.call (.readTogether reads) next) (w.after schedule n).scene →
    ∃ m r, (w.after schedule m).activities[id]? = some (.running job (next r)) ∧
      L.Meets id post (next r) (w.after schedule m).scene

/-- An activity that keeps a law under which nothing may be left unfinished returns, if the reads
that it runs together are answered. -/
theorem Tends.returns_of_answered (h : Tends schedule id least) (hrounds : L.rounds = some least)
    (hlater : ∀ n, (w.after schedule n).Runs id →
      L.later (w.after schedule n).scene (w.after schedule (n + 1)).scene)
    (hholds : ∀ n, L.holds (w.after schedule n).scene)
    (hheeded : ∀ n, L.Heeded id (w.after schedule n).scene)
    {post : job.Result → Scene → Prop} (hpost : L.Lasting post) {rest : NodeProgram job.Result}
    (hcalls : rest.Single ∨ w.Answered schedule L id job post)
    (ha : (w.after schedule n).activities[id]? = some (.running job rest))
    (hmeets : L.Meets id post rest (w.after schedule n).scene) :
    ∃ m result, (w.after schedule m).Returned id job result ∧
      post result (w.after schedule m).scene := by
  -- down the program; what has been shown of it stays true until the activity's next turn
  induction rest generalizing n with
  | done result =>
    obtain ⟨m, choice, hchoice, ha', hlater'⟩ := h.next hlater ha
    have hid : id < (w.after schedule m).activities.length := (List.getElem?_eq_some_iff.mp ha').1
    have hlater'' := L.later_trans hlater' (hlater m ⟨job, _, ha'⟩)
    refine ⟨m + 1, result, ?_, hpost _ _ _ hmeets hlater'' (hholds (m + 1))⟩
    rw [Returned, after, hchoice]
    simp only [step, advance, ha']
    exact List.getElem?_set_self hid
  | call c next ih =>
    cases c with
    | act action =>
      obtain ⟨m, choice, hchoice, ha', hlater'⟩ := h.next hlater ha
      obtain ⟨ha'', hmeets''⟩ := h.turn hrounds (hholds m) (hheeded (m + 1)) hchoice ha'
        (hmeets.later hpost hlater' (hholds m)) rfl
      exact ih _ (hcalls.imp_left fun hsingle => hsingle _) ha'' hmeets''
    | readTogether reads =>
      rcases hcalls with hsingle | hanswered
      · exact hsingle.elim
      · obtain ⟨m, r, ha', hmeets'⟩ := hanswered ha hmeets
        exact ih r (.inr hanswered) ha' hmeets'
  | sleep d next ih =>
    obtain ⟨m, choice, hchoice, ha', hlater'⟩ := h.next hlater ha
    obtain ⟨ha'', hmeets''⟩ := h.turn hrounds (hholds m) (hheeded (m + 1)) hchoice ha'
      (hmeets.later hpost hlater' (hholds m)) rfl
    exact ih _ (hcalls.imp_left fun hsingle => hsingle _) ha'' hmeets''
  | unbounded p ih =>
    obtain ⟨m, choice, hchoice, ha', hlater'⟩ := h.next hlater ha
    obtain ⟨ha'', hmeets''⟩ := h.turn hrounds (hholds m) (hheeded (m + 1)) hchoice ha'
      (hmeets.later hpost hlater' (hholds m)) rfl
    exact ih _ (hcalls.imp_left fun hsingle => hsingle _) ha'' hmeets''
  | unfinished =>
    rw [Law.Meets, Program.meets_unfinished, hrounds] at hmeets
    cases hmeets

/-- An activity that keeps a law under which nothing may be left unfinished returns. -/
theorem Tends.returns (h : Tends schedule id least) (hrounds : L.rounds = some least)
    (hlater : ∀ n, (w.after schedule n).Runs id →
      L.later (w.after schedule n).scene (w.after schedule (n + 1)).scene)
    (hholds : ∀ n, L.holds (w.after schedule n).scene)
    (hheeded : ∀ n, L.Heeded id (w.after schedule n).scene)
    {post : job.Result → Scene → Prop} (hpost : L.Lasting post) {rest : NodeProgram job.Result}
    (hsingle : rest.Single)
    (ha : (w.after schedule n).activities[id]? = some (.running job rest))
    (hmeets : L.Meets id post rest (w.after schedule n).scene) :
    ∃ m result, (w.after schedule m).Returned id job result ∧
      post result (w.after schedule m).scene :=
  h.returns_of_answered hrounds hlater hholds hheeded hpost (.inl hsingle) ha hmeets

end World

end SharedLog
