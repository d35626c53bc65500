/-
# Several laws

What was shown of a program under one law holds under another one by which less can happen in
between and no less is allowed. So a program that was begun under one law can go on under another.

The activities of a world may keep a law together, and some of them a stricter one for themselves:
what was shown of these under the stricter law stays true, since between their turns nothing happens
that is not foreseen by it (`World.Keeps.beside`).
-/
import SharedLog.Proofs.World.Keeping

namespace SharedLog

variable {L M : Law} {id : Nat} {α : Type} {s s' : Scene}

namespace Law

/-- Whatever can happen under the law `M` can happen under the law `L`, and whatever `L` allows then
is allowed by `M`. -/
structure Within (L M : Law) : Prop where
  holds : ∀ {s}, M.holds s → L.holds s
  later : ∀ {s s'}, M.later s s' → L.later s s'
  allows : ∀ {action s}, M.holds s → L.allows action s → M.allows action s
  heeds : ∀ {action answer}, M.heeds action answer → L.heeds action answer
  rounds : M.rounds = L.rounds

namespace Within

variable {post : α → Scene → Prop}

lemma lasting (h : L.Within M) (hpost : L.Lasting post) : M.Lasting post :=
  fun a s s' hs hlater hholds => hpost a s s' hs (h.later hlater) (h.holds hholds)

lemma ask (h : L.Within M) {action : Action} {P Q : action.Answer → Scene → Prop}
    (hPQ : ∀ r s, P r s → Q r s) (hask : L.ask id action P s) : M.ask id action Q s := by
  intro s₁ hlater hholds
  obtain ⟨hallows, hanswer⟩ := hask s₁ (h.later hlater) (h.holds hholds)
  refine ⟨h.allows hholds hallows, fun r s₂ hacts hheeds => ?_⟩
  exact hPQ r s₂ (hanswer r s₂ hacts (h.heeds hheeds))

end Within

/-- A program of the chain that keeps a law keeps every law within it. -/
lemma ChainMeets.within (h : L.Within M) {post : α → Scene → Prop} {p : ChainProgram α}
    (hp : L.ChainMeets id post p s) : M.ChainMeets id post p s := by
  induction p generalizing s with
  | done a => exact hp
  | call c next ih => exact h.ask (fun r s hr => ih r hr) hp
  | sleep d next ih => exact fun late => ih _ (hp late)
  | unbounded p ih => exact fun n hn => ih n (hp n (h.rounds ▸ hn))
  | unfinished => exact h.rounds.trans hp

/-- A program that keeps a law keeps every law within it. -/
theorem Meets.within (h : L.Within M) {post : α → Scene → Prop} {p : NodeProgram α}
    (hp : L.Meets id post p s) : M.Meets id post p s := by
  induction p generalizing s with
  | done a => exact hp
  | call c next ih =>
    cases c with
    | act action => exact h.ask (fun r s hr => ih r hr) hp
    | readTogether reads =>
      obtain ⟨each, hlasting, hreads, hend⟩ := hp
      refine ⟨each, fun i => h.lasting (hlasting i), fun i read hi => (hreads i read hi).within h,
        fun s₁ hlater hholds => ?_⟩
      obtain ⟨hfail, hdone⟩ := hend s₁ (h.later hlater) (h.holds hholds)
      exact ⟨fun i e hi he => ih _ (hfail i e hi he),
        fun values hlength hvalues => ih _ (hdone values hlength hvalues)⟩
  | sleep d next ih => exact fun late => ih _ (hp late)
  | unbounded p ih => exact fun n hn => ih n (hp n (h.rounds ▸ hn))
  | unfinished => exact h.rounds.trans hp

lemma Fulfils.within (h : L.Within M) {post : Outcome} {a : Activity}
    (ha : L.Fulfils id post a s) : M.Fulfils id post a s := by
  cases a with
  | running job rest => exact Meets.within h ha
  | returned job result => exact ha
  | dropped job => trivial

/-! ## Stages -/

/-- The law from some stage on that scenes do not leave. -/
def during (L : Law) (stage : Scene → Prop)
    (hstage : ∀ {s s'}, L.later s s' → stage s → stage s') : Law :=
  { L with
    holds := fun s => L.holds s ∧ stage s
    act_keeps := fun h hallows hacts => by
      obtain ⟨hlater, hholds⟩ := L.act_keeps h.1 hallows hacts
      exact ⟨hlater, hholds, hstage hlater h.2⟩
    calm_keeps := fun h hcalm => by
      obtain ⟨hlater, hholds⟩ := L.calm_keeps h.1 hcalm
      exact ⟨hlater, hholds, hstage hlater h.2⟩ }

variable {stage : Scene → Prop} {hstage : ∀ {s s'}, L.later s s' → stage s → stage s'}

lemma within_during : L.Within (L.during stage hstage) := ⟨And.left, id, fun _ h => h, id, rfl⟩

end Law

namespace World

variable {w : World} {m : Move} {moves : List Move} {post : Nat → Outcome} {a : Activity}
  {jobs : Job → Prop}

lemma Keeps.during {stage : Scene → Prop} (h : w.Keeps L post)
    (hstage : ∀ {s s'}, L.later s s' → stage s → stage s') (hs : stage w.scene) :
    w.Keeps (L.during stage hstage) post :=
  ⟨⟨h.holds, hs⟩, fun id a ha => (h.fulfils id a ha).within Law.within_during⟩

/-! ## Activities and their jobs -/

/-- An activity keeps its job. -/
lemma exists_job_eq (hid : id < w.activities.length)
    (ha : (w.step m).activities[id]? = some a) :
    ∃ a₀, w.activities[id]? = some a₀ ∧ a₀.job = a.job := by
  have hsame : ∀ {other : Nat} {a₀ a₁ : Activity}, w.activities[other]? = some a₀ →
      (w.activities.set other a₁)[id]? = some a → a₀.job = a₁.job →
      ∃ a₀, w.activities[id]? = some a₀ ∧ a₀.job = a.job := by
    intro other a₀ a₁ h₀ hset hjob
    by_cases hother : other = id
    · subst hother
      rw [List.getElem?_set_self hid] at hset
      obtain rfl := Option.some.inj hset
      exact ⟨a₀, h₀, hjob⟩
    · rw [List.getElem?_set_ne hother] at hset
      exact ⟨a, hset, rfl⟩
  cases m with
  | start job =>
    rcases step_start w job with heq | ⟨program, -, heq⟩
    · exact ⟨a, heq ▸ ha, rfl⟩
    · rw [heq, List.getElem?_append_left hid] at ha
      exact ⟨a, ha, rfl⟩
  | advance other choice =>
    have hadvanced := advanced_advance w other choice
    change (w.advance other choice).activities[id]? = some a at ha
    generalize w.advance other choice = w' at hadvanced ha
    cases hadvanced with
    | returned running => exact hsame running ha rfl
    | onward running step => exact hsame running ha rfl
    | idle => exact ⟨a, ha, rfl⟩
  | drop other =>
    rcases step_drop w other with heq | ⟨job, rest, hrunning, heq⟩
    · exact ⟨a, heq ▸ ha, rfl⟩
    · rw [heq] at ha
      exact hsame hrunning ha rfl
  | switch place offline => exact ⟨a, ha, rfl⟩
  | join epoch n => exact ⟨a, ha, rfl⟩

/-- All activities have jobs of some kind if those that are started do. -/
lemma job_play (hjobs : ∀ a ∈ w.activities, jobs a.job) (hmoves : Starts moves jobs) :
    ∀ a ∈ (w.play moves).activities, jobs a.job := by
  induction moves generalizing w with
  | nil => exact hjobs
  | cons m moves ih =>
    obtain ⟨hm, hmoves⟩ := starts_cons.mp hmoves
    refine ih (fun a hmem => ?_) hmoves
    obtain ⟨id, ha⟩ := List.mem_iff_getElem?.mp hmem
    by_cases hid : id < w.activities.length
    · obtain ⟨a₀, ha₀, hjob⟩ := exists_job_eq hid ha
      exact hjob ▸ hjobs a₀ (List.mem_of_getElem? ha₀)
    · obtain ⟨job, program, rfl, -, rfl, -⟩ := activity_new hid ha
      exact hm job rfl

/-! ## Laws beside each other -/

/-- Some activities have kept a stricter law than all together. -/
def Beside (w : World) (M : Law) (post : Nat → Outcome) (strict : Job → Prop) : Prop :=
  ∀ id a, w.activities[id]? = some a → strict a.job → M.Fulfils id (post id) a w.scene

variable {post' : Nat → Outcome} {strict : Job → Prop}

/-- Some of the activities that keep a law together may keep a stricter one for themselves. -/
theorem Keeps.beside (h : w.Keeps L post) (hL : L.Unconditional)
    (hpost : ∀ id job, L.Lasting (post id job)) (hlawful : Lawful L post w jobs)
    (hM : M.Unconditional) (hholds : ∀ {s}, L.holds s → M.holds s)
    (hlater : ∀ {s s'}, L.later s s' → M.later s s')
    (hpost' : ∀ id job, M.Lasting (post' id job)) (hlawful' : Lawful M post' w strict)
    (hbeside : w.Beside M post' strict) (hmoves : Starts moves jobs) :
    (w.play moves).Beside M post' strict := by
  induction moves generalizing w with
  | nil => exact hbeside
  | cons m moves ih =>
    obtain ⟨hm, hmoves⟩ := starts_cons.mp hmoves
    obtain ⟨hstep, hkeeps⟩ := h.step hL hpost hlawful hm
    have hnext := nextId_le_step w m
    refine ih hkeeps (fun id job s program hid hjob hs => ?_)
      (fun id job s program hid hjob hs => ?_) (fun id a ha hstrict => ?_) hmoves
    · exact hlawful id job s program (Nat.le_trans hnext hid) hjob (L.later_trans hstep hs)
    · exact hlawful' id job s program (Nat.le_trans hnext hid) hjob
        (M.later_trans (hlater hstep) hs)
    · by_cases hid : id < w.activities.length
      · -- an activity that was there before
        obtain ⟨a₀, ha₀, hjob⟩ := exists_job_eq hid ha
        have hpatient : Patient M id m := by
          intro choice _ least hleast
          rw [hM.rounds] at hleast
          cases hleast
        obtain ⟨a', ha', hfulfils⟩ := fulfils_step (hpost' id) (hholds h.holds) hpatient
          (hlater hstep) (hholds hkeeps.holds) (fun event _ _ => hM.heeds ..) ha₀
          (hbeside id a₀ ha₀ (hjob ▸ hstrict))
        obtain rfl := Option.some.inj (ha.symm.trans ha')
        exact hfulfils
      · -- an activity that was started by the move
        obtain ⟨job, program, rfl, rfl, rfl, hprogram, hscene⟩ := activity_new hid ha
        rw [hscene]
        exact hlawful' _ job _ program (Nat.le_refl _) hstrict (M.later_refl _)
          (hholds h.holds) hprogram

end World

end SharedLog
