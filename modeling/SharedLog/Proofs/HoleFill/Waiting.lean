/-
# The course of a reading

A reader looks at its position at the times that its policy has scheduled, until a look ends the
wait or there is no further look. Only then does it decide the position: it writes a hole to the
head, copies what the head holds now, and looks once more. All this is read off the program of a
reading, for any answers (`Chain.Reading` says what has been done at any moment, `Chain.ReadEnds`
what at the end). The times are those of a clock on which only sleeps take time, and on which a
sleep may last longer than it should.
-/
import SharedLog.Proofs.HoleFill.Schedule
import SharedLog.Proofs.World.Clock

namespace SharedLog

variable {habits : Worker} {policy : HoleFillPolicy} {c : Chain} {id k n begun t : Nat}
  {p : Position} {past : List (Nat × Event)}

/-! ## Schedules on a clock -/

namespace HoleFillPolicy

/-- How long after its first look a reader looks again that has looked `k` times in vain, if its
patience lasts that long. -/
def lookAt (policy : HoleFillPolicy) (habits : Worker) : Nat → Option Nat
  | 0 => some 0
  | k + 1 => (lookAt policy habits k).bind fun t =>
    (policy.retryDelay (min (k + 1) attemptLimit) (.saturate t)).map fun d =>
      t + (habits.lasts d).nanos

/-- The look after `n` looks in vain is the last one, and comes after the time `t`. -/
def EndsAt (policy : HoleFillPolicy) (habits : Worker) (n t : Nat) : Prop :=
  policy.lookAt habits n = some t ∧ policy.lookAt habits (n + 1) = none

lemma lookAt_succ (hk : policy.lookAt habits k = some t) : policy.lookAt habits (k + 1) =
    (policy.retryDelay (min (k + 1) attemptLimit) (.saturate t)).map fun d =>
      t + (habits.lasts d).nanos := by
  rw [lookAt, hk, Option.bind_some]

/-- Looks come one after the other. -/
lemma exists_lookAt_of_le (h : policy.lookAt habits n = some t) (hk : k ≤ n) :
    ∃ t' ≤ t, policy.lookAt habits k = some t' := by
  induction n generalizing t with
  | zero =>
    obtain rfl := Nat.le_zero.mp hk
    exact ⟨t, Nat.le_refl t, h⟩
  | succ n ih =>
    rcases Nat.lt_or_ge n k with hlt | hle
    · obtain rfl : k = n + 1 := by omega
      exact ⟨t, Nat.le_refl t, h⟩
    · obtain ⟨t₁, ht₁, hnext⟩ := Option.bind_eq_some_iff.mp h
      obtain ⟨d, -, rfl⟩ := Option.map_eq_some_iff.mp hnext
      obtain ⟨t', hle', ht'⟩ := ih ht₁ hle
      exact ⟨t', by omega, ht'⟩

/-- There is no look after the last one. -/
lemma EndsAt.le {t' : Nat} (h : policy.EndsAt habits n t) (hk : policy.lookAt habits k = some t') :
    k ≤ n ∧ t' ≤ t := by
  have hle : k ≤ n := by
    by_contra hlt
    obtain ⟨t₁, -, ht₁⟩ := exists_lookAt_of_le hk (Nat.not_le.mp hlt)
    rw [h.2] at ht₁
    cases ht₁
  obtain ⟨t₁, hle₁, ht₁⟩ := exists_lookAt_of_le h.1 hle
  obtain rfl := Option.some.inj (ht₁.symm.trans hk)
  exact ⟨hle, hle₁⟩

lemma EndsAt.unique {m t' : Nat} (h : policy.EndsAt habits n t) (h' : policy.EndsAt habits m t') :
    n = m ∧ t = t' := by
  obtain ⟨hle, htime⟩ := h.le h'.1
  obtain ⟨hle', htime'⟩ := h'.le h.1
  omega

lemma saturate_add (t : Nat) (d : Duration) :
    (Duration.saturate t).add d = .saturate (t + d.nanos) := by
  ext
  rw [Duration.add]
  simp only [Duration.nanos_saturate]
  omega

/-- On a clock on which the delays of the policy are slept as they are, the looks come at the times
that the policy is known to schedule, and their number is known. -/
theorem lookAt_of_keptBy (hkept : policy.KeptBy habits) :
    ((∀ m ≤ k, ¬ policy.LastsFor m) → policy.lookAt habits k = some (policy.lookTime k)) ∧
      (policy.LastsFor (k + 1) → policy.EndsAt habits k (policy.lookTime k)) := by
  have hsome : (∀ m ≤ k, ¬ policy.LastsFor m) →
      policy.lookAt habits k = some (policy.lookTime k) := by
    intro hn
    induction k with
    | zero => rw [lookAt, lookTime_zero]
    | succ k ih =>
      rw [lookAt_succ (ih fun m hm => hn m (by omega))]
      have hbefore : ∀ m ≤ k, ¬ policy.LastsFor m := fun m hm => hn m (by omega)
      obtain ⟨d, hd, -, htime⟩ | ⟨-, hlasts⟩ := retryDelay_scheduled hbefore
      · rw [hd, Option.map_some, hkept k d htime, htime]
      · exact absurd hlasts (hn (k + 1) (Nat.le_refl _))
  refine ⟨hsome, fun hlasts => ?_⟩
  have hn : ∀ m ≤ k, ¬ policy.LastsFor m := fun m hm hlasts' => by
    have := hlasts.unique hlasts'
    omega
  refine ⟨hsome hn, ?_⟩
  rw [lookAt_succ (hsome hn)]
  obtain ⟨d, -, hnot, -⟩ | ⟨hnone, -⟩ := retryDelay_scheduled hn
  · exact absurd hlasts hnot
  · rw [hnone, Option.map_none]

end HoleFillPolicy

/-! ## What is done for a reading -/

namespace Chain

/-- What is done for a look, by what the look finds. -/
inductive Looks (c : Chain) (id : Nat) (p : Position) :
    Except ReplicationError SlotState → List Event → Prop
  | committed (v : LogData) :
    Looks c id p (.ok (.committed v)) [⟨id, .onUnit (.peek c.tail p), .ok (some v)⟩]
  | unseen (e : ReplicationError) :
    Looks c id p (.error e) [⟨id, .onUnit (.peek c.tail p), .error e⟩]
  | single (one : c.length = 1) :
    Looks c id p (.ok .empty) [⟨id, .onUnit (.peek c.tail p), .ok none⟩]
  | empty (several : c.length ≠ 1) :
    Looks c id p (.ok .empty) [⟨id, .onUnit (.peek c.tail p), .ok none⟩,
      ⟨id, .onUnit (.peek head p), .ok none⟩]
  | pending (several : c.length ≠ 1) (v : LogData) :
    Looks c id p (.ok .pending) [⟨id, .onUnit (.peek c.tail p), .ok none⟩,
      ⟨id, .onUnit (.peek head p), .ok (some v)⟩]
  | unsure (several : c.length ≠ 1) (e : ReplicationError) :
    Looks c id p (.error e) [⟨id, .onUnit (.peek c.tail p), .ok none⟩,
      ⟨id, .onUnit (.peek head p), .error e⟩]

/-- Some looks in vain, each at its time. -/
inductive LooksInVain (c : Chain) (habits : Worker) (id : Nat) (p : Position) (begun : Nat) :
    Nat → List (Nat × Event) → Prop
  | none : LooksInVain c habits id p begun 0 []
  | next {k t : Nat} {past : List (Nat × Event)} {state : SlotState} {look : List Event}
      (before : LooksInVain c habits id p begun k past) (time : c.policy.lookAt habits k = some t)
      (looks : c.Looks id p (.ok state) look) (vain : state.committed? = Option.none) :
      LooksInVain c habits id p begun (k + 1) (past ++ stamped (begun + t) look)

/-- The copies of a value. -/
def copies (p : Position) (v : LogData) (followers : List (String × Nat)) : List Action :=
  followers.map fun follower => .onUnit (.write follower.2 p v)

/-- What is asked of units in order to decide a position, if the head holds a value then. -/
def decision (c : Chain) (p : Position) (v : LogData) : List Action :=
  .onUnit (.write head p .hole) :: copies p v c.followers ++
    [.onUnit (.peek c.tail p), .onUnit (.peek head p)]

/-- What has been done for a reading that goes on. -/
inductive Reading (c : Chain) (habits : Worker) (id : Nat) (p : Position) (begun : Nat) :
    Nat → List (Nat × Event) → Prop
  /-- The reader waits for its next look, or is at it, or has just looked in vain. -/
  | looking {k t : Nat} {past : List (Nat × Event)} {state : SlotState} {whole look : List Event}
      (before : c.LooksInVain habits id p begun k past)
      (time : c.policy.lookAt habits k = some t) (looks : c.Looks id p (.ok state) whole)
      (vain : state.committed? = Option.none) (part : look <+: whole) :
      Reading c habits id p begun (begun + t) (past ++ stamped (begun + t) look)
  /-- The last look was in vain, and the reader decides the position. -/
  | deciding {n t : Nat} {past : List (Nat × Event)} {rest : List Event} {v : LogData}
      (before : c.LooksInVain habits id p begun (n + 1) past) (out : c.policy.EndsAt habits n t)
      (part : rest.map Event.action <+: c.decision p v) :
      Reading c habits id p begun (begun + t) (past ++ stamped (begun + t) rest)

/-- What the head holds after a hole was written to it, by what it answers. -/
def adopted : WriteOutcome → LogData
  | .written => .hole
  | .conflict existing => existing

/-- What is done in order to decide a position that turns out to be committed to a value. -/
def Decides (c : Chain) (id : Nat) (p : Position) (v : LogData) (rest : List Event) : Prop :=
  ∃ outcome copied, rest = ⟨id, .onUnit (.write head p .hole), .ok outcome⟩ :: copied ++
      [⟨id, .onUnit (.peek c.tail p), .ok (some v)⟩] ∧
    copied.map Event.action = copies p (adopted outcome) c.followers

/-- What has been done for a reading that has ended, by what it has ended with. -/
inductive ReadEnds (c : Chain) (habits : Worker) (id : Nat) (p : Position) (begun : Nat) :
    Except ReplicationError LogData → Nat → List (Nat × Event) → Prop
  | found {k t : Nat} {past : List (Nat × Event)} {v : LogData}
      (before : c.LooksInVain habits id p begun k past)
      (time : c.policy.lookAt habits k = some t) :
      ReadEnds c habits id p begun (.ok v) (begun + t)
        (past ++ stamped (begun + t) [⟨id, .onUnit (.peek c.tail p), .ok (some v)⟩])
  | failed {k t : Nat} {past : List (Nat × Event)} {e : ReplicationError} {look : List Event}
      (before : c.LooksInVain habits id p begun k past)
      (time : c.policy.lookAt habits k = some t) (looks : c.Looks id p (.error e) look) :
      ReadEnds c habits id p begun (.error e) (begun + t) (past ++ stamped (begun + t) look)
  | decided {n t : Nat} {past : List (Nat × Event)} {v : LogData}
      {rest : List Event} (before : c.LooksInVain habits id p begun (n + 1) past)
      (out : c.policy.EndsAt habits n t)
      (part : ∃ v', rest.map Event.action <+: c.decision p v') (decides : c.Decides id p v rest) :
      ReadEnds c habits id p begun (.ok v) (begun + t) (past ++ stamped (begun + t) rest)
  | gaveUp {n t : Nat} {past : List (Nat × Event)} {e : ReplicationError} {rest : List Event}
      (before : c.LooksInVain habits id p begun (n + 1) past)
      (out : c.policy.EndsAt habits n t)
      (part : ∃ v', rest.map Event.action <+: c.decision p v') :
      ReadEnds c habits id p begun (.error e) (begun + t) (past ++ stamped (begun + t) rest)

/-- The requests of a look. -/
lemma Looks.actions {r : Except ReplicationError SlotState} {look : List Event}
    (h : c.Looks id p r look) :
    look.map Event.action <+: [.onUnit (.peek c.tail p), .onUnit (.peek head p)] := by
  cases h with
  | committed | unseen | single => exact ⟨[_], rfl⟩
  | empty | pending | unsure => exact List.prefix_rfl

/-! ## How it comes to that -/

variable {rounds : Option Nat} {always : Nat → List (Nat × Event) → Prop}

/-- There is something that a look may do in vain. -/
lemma exists_vain_look (c : Chain) (id : Nat) (p : Position) :
    ∃ whole, c.Looks id p (.ok .empty) whole := by
  by_cases hone : c.length = 1
  · exact ⟨_, .single hone⟩
  · exact ⟨_, .empty hone⟩

lemma peek_paced
    (halways : ∀ state whole look, c.Looks id p (.ok state) whole → state.committed? = none →
      look <+: whole → always t (past ++ stamped t look)) :
    ChainProgram.Paced habits id rounds always (fun r t' past' => t' = t ∧
      ∃ look, c.Looks id p r look ∧ past' = past ++ stamped t look) (c.peek p) t past := by
  have hnil : always t past := by
    obtain ⟨whole, hwhole⟩ := c.exists_vain_look id p
    simpa using halways _ _ [] hwhole rfl List.nil_prefix
  refine ⟨hnil, fun answer => ?_⟩
  cases answer with
  | error e => exact ⟨rfl, _, .unseen e, rfl⟩
  | ok v? =>
    cases v? with
    | some v => exact ⟨rfl, _, .committed v, rfl⟩
    | none =>
      simp only [Program.done_bind]
      by_cases hone : c.length = 1
      · rw [if_pos hone]
        exact ⟨rfl, _, .single hone, rfl⟩
      · rw [if_neg hone]
        refine ⟨halways _ _ _ (.empty hone) rfl ⟨[_], rfl⟩, fun answer => ?_⟩
        rw [append_stamped]
        cases answer with
        | error e => exact ⟨rfl, _, .unsure hone e, rfl⟩
        | ok v? =>
          cases v? with
          | some v => exact ⟨rfl, _, .pending hone v, rfl⟩
          | none => exact ⟨rfl, _, .empty hone, rfl⟩

/-- What has been done in order to copy a value, by what it ends with. -/
def CopiesEnd (p : Position) (v : LogData) (followers : List (String × Nat)) (t : Nat)
    (past : List (Nat × Event)) (r : Except ReplicationError Unit) (t' : Nat)
    (past' : List (Nat × Event)) : Prop :=
  t' = t ∧ ∃ copied : List Event, past' = past ++ stamped t copied ∧
    copied.map Event.action <+: copies p v followers ∧
    (r = .ok () → copied.map Event.action = copies p v followers)

lemma copyTo_paced {v : LogData} {followers : List (String × Nat)}
    (halways : ∀ copied : List Event, copied.map Event.action <+: copies p v followers →
      always t (past ++ stamped t copied)) :
    ChainProgram.Paced habits id rounds always (CopiesEnd p v followers t past)
      (copyTo p v followers) t past := by
  induction followers generalizing past with
  | nil => exact ⟨rfl, [], by simp, List.nil_prefix, fun _ => rfl⟩
  | cons follower rest ih =>
    obtain ⟨name, place⟩ := follower
    have hnil : always t past := by simpa using halways [] List.nil_prefix
    refine ⟨hnil, fun answer => ?_⟩
    have hends : ∀ e, CopiesEnd p v ((name, place) :: rest) t past (.error e) t
        (past ++ stamped t [⟨id, .onUnit (.write place p v), answer⟩]) := fun e =>
      ⟨rfl, _, rfl, List.cons_prefix_cons.mpr ⟨rfl, List.nil_prefix⟩, fun h => by cases h⟩
    have hnext : ChainProgram.Paced habits id rounds always
        (CopiesEnd p v ((name, place) :: rest) t past) (copyTo p v rest) t
        (past ++ stamped t [⟨id, .onUnit (.write place p v), answer⟩]) := by
      refine (ih fun copied hcopied => ?_).mono ?_
      · rw [append_stamped]
        exact halways _ (List.cons_prefix_cons.mpr ⟨rfl, hcopied⟩)
      · rintro r t' past' ⟨rfl, copied, rfl, hpart, hall⟩
        refine ⟨rfl, _, append_stamped .., List.cons_prefix_cons.mpr ⟨rfl, hpart⟩, fun hr => ?_⟩
        rw [List.map_append, hall hr]
        rfl
    cases answer with
    | error e => exact hends e
    | ok outcome =>
      cases outcome with
      | written => exact hnext
      | conflict existing =>
        simp only [Program.done_bind]
        split
        · exact hnext
        · exact hends _

/-- A hole is written to the head first; what the head holds then is copied. -/
lemma holeFill_eq : c.holeFill p = (askWrite head p .hole).andThen fun outcome =>
    c.propagate p (adopted outcome) := by
  unfold holeFill
  congr 1
  funext outcome
  cases outcome <;> rfl

/-- What has been done in order to decide a position, by what it ends with. -/
def DecisionEnds (c : Chain) (id : Nat) (p : Position) (t : Nat) (past : List (Nat × Event))
    (r : Except ReplicationError LogData) (t' : Nat) (past' : List (Nat × Event)) : Prop :=
  t' = t ∧ ∃ rest, past' = past ++ stamped t rest ∧
    (∃ v', rest.map Event.action <+: c.decision p v') ∧ ∀ v, r = .ok v → c.Decides id p v rest

/-- What is done up to a part of the copies is a part of the decision. -/
lemma decision_of_copied {answer : Except ReplicationError WriteOutcome} {copied : List Event}
    {v : LogData} (hcopied : copied.map Event.action <+: copies p v c.followers) :
    ((⟨id, .onUnit (.write head p .hole), answer⟩ : Event) :: copied).map Event.action <+:
      c.decision p v := by
  rw [List.map_cons, decision, List.cons_append, List.cons_prefix_cons]
  exact ⟨rfl, hcopied.trans (List.prefix_append ..)⟩

/-- What is done up to a part of the look after all copies is a part of the decision. -/
lemma decision_of_look (id : Nat) (answer : Except ReplicationError WriteOutcome)
    {copied look : List Event} {v : LogData}
    (hcopied : copied.map Event.action = copies p v c.followers)
    (hlook : look.map Event.action <+: [.onUnit (.peek c.tail p), .onUnit (.peek head p)]) :
    ((⟨id, .onUnit (.write head p .hole), answer⟩ : Event) :: copied ++ look).map Event.action <+:
      c.decision p v := by
  rw [List.map_append, List.map_cons, hcopied]
  exact (List.prefix_append_right_inj _).mpr hlook

/-- The look after all copies. -/
lemma readDecided_paced {outcome : WriteOutcome} {copied : List Event}
    (hcopied : copied.map Event.action = copies p (adopted outcome) c.followers)
    (halways : ∀ (rest : List Event) v, rest.map Event.action <+: c.decision p v →
      always t (past ++ stamped t rest)) :
    ChainProgram.Paced habits id rounds always (DecisionEnds c id p t past) (c.readDecided p) t
      (past ++ stamped t (⟨id, .onUnit (.write head p .hole), .ok outcome⟩ :: copied)) := by
  have hpeek : ChainProgram.Paced habits id rounds always (fun r t₁ past₁ => t₁ = t ∧
      ∃ look, c.Looks id p r look ∧ past₁ = past ++ stamped t
        (⟨id, .onUnit (.write head p .hole), .ok outcome⟩ :: copied) ++ stamped t look)
      (c.peek p) t
      (past ++ stamped t (⟨id, .onUnit (.write head p .hole), .ok outcome⟩ :: copied)) := by
    refine peek_paced fun state whole look hwhole _ hpart => ?_
    rw [append_stamped]
    exact halways _ (adopted outcome)
      (decision_of_look _ _ hcopied ((hpart.map _).trans hwhole.actions))
  refine hpeek.andThen ?_ ?_
  · rintro state t₁ past₁ ⟨rfl, look, hlooks, rfl⟩
    have hpart := decision_of_look id (.ok outcome) hcopied hlooks.actions
    cases hlooks with
    | committed v =>
      refine ⟨rfl, _, append_stamped .., ⟨_, hpart⟩, ?_⟩
      rintro _ ⟨⟩
      exact ⟨outcome, copied, rfl, hcopied⟩
    | single | empty | pending =>
      exact ⟨rfl, _, append_stamped .., ⟨_, hpart⟩, fun v hv => by cases hv⟩
  · rintro e t₁ past₁ ⟨rfl, look, hlooks, rfl⟩
    exact ⟨rfl, _, append_stamped .., ⟨_, decision_of_look _ _ hcopied hlooks.actions⟩,
      fun v hv => by cases hv⟩

/-- Deciding a position and looking at it. -/
lemma decide_paced
    (halways : ∀ (rest : List Event) v, rest.map Event.action <+: c.decision p v →
      always t (past ++ stamped t rest)) :
    ChainProgram.Paced habits id rounds always (DecisionEnds c id p t past)
      ((c.holeFill p).andThen fun () => c.readDecided p) t past := by
  have hnil : always t past := by simpa using halways [] .hole List.nil_prefix
  rw [holeFill_eq]
  refine ⟨hnil, fun answer => ?_⟩
  cases answer with
  | error e =>
    exact ⟨rfl, _, rfl, ⟨.hole, decision_of_copied List.nil_prefix⟩, fun v hv => by cases hv⟩
  | ok outcome =>
    have hcopies : ChainProgram.Paced habits id rounds always
        (CopiesEnd p (adopted outcome) c.followers t
          (past ++ stamped t [⟨id, .onUnit (.write head p .hole), .ok outcome⟩]))
        (c.propagate p (adopted outcome)) t
        (past ++ stamped t [⟨id, .onUnit (.write head p .hole), .ok outcome⟩]) := by
      refine copyTo_paced fun copied hcopied => ?_
      rw [append_stamped]
      exact halways _ (adopted outcome) (decision_of_copied hcopied)
    refine hcopies.andThen ?_ ?_
    · rintro ⟨⟩ t' past' ⟨rfl, copied, rfl, -, hall⟩
      rw [append_stamped]
      exact readDecided_paced (hall rfl) halways
    · rintro e t' past' ⟨rfl, copied, rfl, hpart, -⟩
      exact ⟨rfl, _, append_stamped .., ⟨_, decision_of_copied hpart⟩, fun v hv => by cases hv⟩

/-- A reader that waits for its next look. -/
lemma Reading.waiting (before : c.LooksInVain habits id p begun k past)
    (time : c.policy.lookAt habits k = some t) :
    c.Reading habits id p begun (begun + t) past := by
  obtain ⟨whole, hwhole⟩ := c.exists_vain_look id p
  simpa using Reading.looking before time hwhole rfl List.nil_prefix

/-- What has been done for a wait that has ended, by what it has ended with. -/
inductive WaitEnds (c : Chain) (habits : Worker) (id : Nat) (p : Position) (begun : Nat) :
    Except PeekError LogData → Nat → List (Nat × Event) → Prop
  | found {k t : Nat} {past : List (Nat × Event)} {v : LogData}
      (before : c.LooksInVain habits id p begun k past)
      (time : c.policy.lookAt habits k = some t) :
      WaitEnds c habits id p begun (.ok v) (begun + t)
        (past ++ stamped (begun + t) [⟨id, .onUnit (.peek c.tail p), .ok (some v)⟩])
  | failed {k t : Nat} {past : List (Nat × Event)} {e : ReplicationError} {look : List Event}
      (before : c.LooksInVain habits id p begun k past)
      (time : c.policy.lookAt habits k = some t) (looks : c.Looks id p (.error e) look) :
      WaitEnds c habits id p begun (.error (.replication e)) (begun + t)
        (past ++ stamped (begun + t) look)
  | out {n t : Nat} {past : List (Nat × Event)} {signal : HoleFillRequired}
      (before : c.LooksInVain habits id p begun (n + 1) past)
      (out : c.policy.EndsAt habits n t) :
      WaitEnds c habits id p begun (.error (.holeFillRequired signal)) (begun + t) past

/-- A reader that has looked some times in vain. -/
lemma looks_paced (before : c.LooksInVain habits id p begun k past)
    (time : c.policy.lookAt habits k = some t)
    (hrounds : ∀ least ∈ rounds, ∃ N T, c.policy.EndsAt habits N T ∧ N < k + n) :
    ChainProgram.Paced habits id rounds (c.Reading habits id p begun) (c.WaitEnds habits id p begun)
      (c.policy.looks p (c.peek p) n (min k HoleFillPolicy.attemptLimit) (.saturate t))
      (begun + t) past := by
  induction n generalizing k t past with
  | zero =>
    refine ⟨.waiting before time, Option.eq_none_iff_forall_not_mem.mpr fun least hleast => ?_⟩
    -- patience would have run out before
    obtain ⟨N, T, hends, hlt⟩ := hrounds least hleast
    exact Nat.lt_irrefl k (Nat.lt_of_le_of_lt (hends.le time).1 hlt)
  | succ n ih =>
    have hlook : ChainProgram.Paced habits id rounds (c.Reading habits id p begun)
        (fun r t' past' => t' = begun + t ∧
          ∃ look, c.Looks id p r look ∧ past' = past ++ stamped (begun + t) look)
        (c.peek p) (begun + t) past :=
      peek_paced fun state whole look hwhole hvain hpart =>
        .looking before time hwhole hvain hpart
    refine hlook.mapErrorThen ?_ ?_
    · rintro state t' past' ⟨rfl, look, hlooks, rfl⟩
      cases hstate : state.committed? with
      | some v =>
        obtain rfl : state = .committed v := by
          cases state with
          | committed v' => exact congrArg SlotState.committed (Option.some.inj hstate)
          | empty | pending => cases hstate
        cases hlooks
        exact .found before time
      | none =>
        have hnext := LooksInVain.next before time hlooks hstate
        have hlookAt := HoleFillPolicy.lookAt_succ time
        simp only [HoleFillPolicy.count_attempts]
        cases hdelay : c.policy.retryDelay (min (k + 1) HoleFillPolicy.attemptLimit)
            (.saturate t) with
        | some d =>
          rw [hdelay, Option.map_some] at hlookAt
          dsimp only
          refine ⟨.looking before time hlooks hstate List.prefix_rfl, ?_⟩
          have hrest := ih hnext hlookAt fun least hleast => by
            obtain ⟨N, T, hends, hlt⟩ := hrounds least hleast
            exact ⟨N, T, hends, by omega⟩
          rw [← Nat.add_assoc, ← HoleFillPolicy.saturate_add] at hrest
          exact hrest
        | none =>
          rw [hdelay, Option.map_none] at hlookAt
          exact .out hnext ⟨time, hlookAt⟩
    · rintro e t' past' ⟨rfl, look, hlooks, rfl⟩
      exact .failed before time hlooks

/-- Everything that is done for a reading is done in its course. -/
theorem read_paced
    (hrounds : ∀ least ∈ rounds, ∃ n t, c.policy.EndsAt habits n t ∧ n < least) :
    ChainProgram.Paced habits id rounds (c.Reading habits id p begun)
      (c.ReadEnds habits id p begun) (c.read p) begun [] := by
  have hzero : c.policy.lookAt habits 0 = some 0 := rfl
  have hwait : ChainProgram.Paced habits id rounds (c.Reading habits id p begun)
      (c.WaitEnds habits id p begun) (c.policy.awaitCommitted p (c.peek p)) begun [] := by
    refine ⟨.waiting .none hzero, fun n hn => looks_paced .none hzero fun least hleast => ?_⟩
    obtain ⟨N, T, hends, hlt⟩ := hrounds least hleast
    have hle := hn least hleast
    exact ⟨N, T, hends, by omega⟩
  refine hwait.bind fun r t past hends => ?_
  cases hends with
  | found before time => exact .found before time
  | failed before time looks => exact .failed before time looks
  | out before out =>
    refine (decide_paced fun rest v hpart => .deciding before out hpart).mono ?_
    rintro r t' past' ⟨rfl, rest, rfl, hpart, hdecides⟩
    cases r with
    | ok v => exact .decided before out hpart (hdecides v rfl)
    | error e => exact .gaveUp before out hpart

end Chain

end SharedLog
