/-
# What a log tells of a reading

Until a reader's patience has run out its log holds nothing but looks, all of them in vain but maybe
the last one. What comes then belongs to the decision of the position. All this holds whether the
reading goes on, has ended or was given up.
-/
import SharedLog.Proofs.Chain.Shown
import SharedLog.Proofs.HoleFill.Waiting
import SharedLog.Proofs.World.Absence

namespace SharedLog

variable {habits : Worker} {c : Chain} {id k n begun t : Nat} {p : Position} {v : LogData}
  {past log before after rest : List (Nat × Event)} {entry : Nat × Event} {event : Event}
  {r r₀ : Except ReplicationError LogData}

/-! ## Lists that were put together -/

section

variable {α : Type} {a b : α} {first second left right : List α}

/-- Where an element is found in two lists, one after the other. -/
lemma mem_or_split (h : first ++ second = left ++ a :: right) :
    a ∈ first ∨ ∃ more, left = first ++ more ∧ second = more ++ a :: right := by
  rcases List.append_eq_append_iff.mp h with ⟨more, hleft, hsecond⟩ | ⟨more, hfirst, hright⟩
  · exact .inr ⟨more, hleft, hsecond⟩
  · cases more with
    | nil => exact .inr ⟨[], by rw [hfirst, List.append_nil, List.append_nil], hright.symm⟩
    | cons b more =>
      obtain ⟨rfl, -⟩ := List.cons.inj hright
      exact .inl (hfirst ▸ List.mem_append_right _ List.mem_cons_self)

lemma eq_of_singleton (h : [b] = left ++ a :: right) : left = [] ∧ a = b ∧ right = [] := by
  cases left with
  | nil =>
    obtain ⟨rfl, rfl⟩ := List.cons.inj h
    exact ⟨rfl, rfl, rfl⟩
  | cons b' left => simp at h

end

/-! ## What a log tells -/

/-- The event is a look at a position at some unit. -/
def Event.looksAt (place : Nat) (p : Position) (event : Event) : Bool :=
  match event.action with
  | .onUnit (.peek place' p') => place' = place && p' = p
  | _ => false

namespace Chain

/-- The reader has made its last look, in vain. -/
def Spent (c : Chain) (habits : Worker) (id : Nat) (p : Position) (begun : Nat)
    (log : List (Nat × Event)) : Prop :=
  ∃ n t past, c.policy.EndsAt habits n t ∧ c.LooksInVain habits id p begun (n + 1) past ∧
    past <+: log

/-- Something that is asked when a look is due, and that belongs to a look. -/
def IsScheduled (c : Chain) (habits : Worker) (p : Position) (begun : Nat)
    (entry : Nat × Event) : Prop :=
  ∃ k t place, c.policy.lookAt habits k = some t ∧ entry.1 = begun + t ∧
    entry.2.action = .onUnit (.peek place p)

/-- What ends a wait, and with what: the tail shows a value, or a unit fails. -/
inductive Answers (c : Chain) (id : Nat) (p : Position) :
    Except ReplicationError LogData → Event → Prop
  | value (v : LogData) : Answers c id p (.ok v) ⟨id, .onUnit (.peek c.tail p), .ok (some v)⟩
  | error (place : Nat) (e : ReplicationError) :
    Answers c id p (.error e) ⟨id, .onUnit (.peek place p), .error e⟩

/-- How often the tail was looked at. -/
def looked (c : Chain) (p : Position) (log : List (Nat × Event)) : Nat :=
  log.countP fun entry => entry.2.looksAt c.tail p

/-- How many units a look asks that does not find a value. -/
def probes (c : Chain) : Nat := if c.length = 1 then 1 else 2

lemma probes_pos (c : Chain) : 0 < c.probes := by
  unfold probes
  split <;> omega

lemma Spent.mono {log' : List (Nat × Event)} (h : c.Spent habits id p begun log)
    (hlog : log <+: log') : c.Spent habits id p begun log' := by
  obtain ⟨n, t, past, hends, hvain, hpast⟩ := h
  exact ⟨n, t, past, hends, hvain, hpast.trans hlog⟩

lemma IsScheduled.isLook (h : c.IsScheduled habits p begun entry) : entry.2.IsLook := by
  obtain ⟨k, t, place, -, -, haction⟩ := h
  exact ⟨place, p, haction⟩

namespace Looks

variable {result : Except ReplicationError SlotState} {state : SlotState} {whole : List Event}

/-- A look asks for nothing but the position. -/
lemma action (h : c.Looks id p result whole) (hmem : event ∈ whole) :
    ∃ place, event.action = .onUnit (.peek place p) := by
  have hactions := h.actions.subset (List.mem_map_of_mem hmem)
  simp only [List.mem_cons, List.not_mem_nil, or_false] at hactions
  rcases hactions with heq | heq
  · exact ⟨_, heq⟩
  · exact ⟨_, heq⟩

lemma length_le (h : c.Looks id p result whole) : whole.length ≤ c.probes := by
  unfold probes
  cases h with
  | committed | unseen => split <;> simp
  | single one => rw [if_pos one]; simp
  | empty several | pending several | unsure several => rw [if_neg several]; simp

lemma length_eq (h : c.Looks id p (.ok state) whole) (hvain : state.committed? = none) :
    whole.length = c.probes := by
  unfold probes
  cases h with
  | committed v => cases hvain
  | single one => rw [if_pos one]; rfl
  | empty several | pending several => rw [if_neg several]; rfl

/-- A look in vain asks the tail once, and first. -/
lemma looked_eq (h : c.Looks id p (.ok state) whole) (hvain : state.committed? = none) (t : Nat) :
    c.looked p (stamped t whole) = 1 ∧
      ∃ more, whole = ⟨id, .onUnit (.peek c.tail p), .ok none⟩ :: more := by
  have hother : c.length ≠ 1 → head ≠ c.tail := head_ne_tail
  cases h with
  | committed v => cases hvain
  | single one => exact ⟨by simp [looked, stamped, Event.looksAt], _, rfl⟩
  | empty several | pending several =>
    exact ⟨by simp [looked, stamped, Event.looksAt, hother several], _, rfl⟩

/-- Nothing that is answered to a look in vain ends the wait. -/
lemma not_answers (h : c.Looks id p (.ok state) whole) (hvain : state.committed? = none)
    (hmem : event ∈ whole) : ¬ c.Answers id p r event := by
  intro hanswers
  cases h with
  | committed v => cases hvain
  | single one =>
    obtain rfl := List.mem_singleton.mp hmem
    cases hanswers
  | empty several | pending several =>
    -- what the head shows is not shown by the tail
    have hne := head_ne_tail several
    simp only [List.mem_cons, List.not_mem_nil, or_false] at hmem
    generalize head = first at hne hmem
    rcases hmem with rfl | rfl <;> cases hanswers <;> exact hne rfl

/-- A look that fails ends with the failure. -/
lemma of_answers {e : ReplicationError} {before after : List Event}
    (h : c.Looks id p (.error e) whole) (hwhole : whole = before ++ event :: after)
    (hanswers : c.Answers id p r event) : r = .error e ∧ after = [] := by
  obtain ⟨vain, last, rfl, hvain, hlast⟩ : ∃ vain last, whole = vain ++ [last] ∧
      (∀ event ∈ vain, ∀ r, ¬ c.Answers id p r event) ∧
      ∀ r, c.Answers id p r last → r = .error e := by
    cases h with
    | unseen e =>
      refine ⟨[], _, rfl, nofun, fun r hr => ?_⟩
      cases hr
      rfl
    | unsure several e =>
      refine ⟨[_], _, rfl, fun event hmem r hr => ?_, fun r hr => ?_⟩
      · obtain rfl := List.mem_singleton.mp hmem
        cases hr
      · generalize head = first at hr
        cases hr
        rfl
  rcases mem_or_split hwhole with hmem | ⟨more, -, hrest⟩
  · exact absurd hanswers (hvain event hmem r)
  · obtain ⟨-, rfl, rfl⟩ := eq_of_singleton hrest
    exact ⟨hlast r hanswers, rfl⟩

end Looks

/-! ## Looks in vain -/

namespace LooksInVain

lemma length_eq (h : c.LooksInVain habits id p begun k past) : past.length = k * c.probes := by
  induction h with
  | none => exact (Nat.zero_mul _).symm
  | next before time looks vain ih =>
    rw [List.length_append, stamped, List.length_map, looks.length_eq vain, ih, Nat.succ_mul]

lemma looked_eq (h : c.LooksInVain habits id p begun k past) : c.looked p past = k := by
  induction h with
  | none => rfl
  | @next k t past state look before time looks vain ih =>
    have hlook := (looks.looked_eq vain (begun + t)).1
    rw [looked] at ih hlook ⊢
    rw [List.countP_append, ih, hlook]

/-- Before the last look the tail was looked at once less often. -/
lemma exists_last (h : c.LooksInVain habits id p begun (k + 1) past) :
    ∃ past' t more,
      past = past' ++ (t, ⟨id, .onUnit (.peek c.tail p), .ok Option.none⟩) :: more ∧
      c.looked p past' = k := by
  cases h with
  | @next _ t past' _ look before time looks vain =>
    obtain ⟨-, more, rfl⟩ := looks.looked_eq vain 0
    exact ⟨past', _, _, rfl, before.looked_eq⟩

lemma scheduled (h : c.LooksInVain habits id p begun k past) (hmem : entry ∈ past) :
    c.IsScheduled habits p begun entry := by
  induction h with
  | none => cases hmem
  | next before time looks vain ih =>
    rcases List.mem_append.mp hmem with hmem | hmem
    · exact ih hmem
    · obtain ⟨htime, hevent⟩ := mem_stamped.mp hmem
      obtain ⟨place, haction⟩ := looks.action hevent
      exact ⟨_, _, place, time, htime, haction⟩

lemma not_answers (h : c.LooksInVain habits id p begun k past) (hmem : entry ∈ past) :
    ¬ c.Answers id p r entry.2 := by
  induction h with
  | none => cases hmem
  | next before time looks vain ih =>
    rcases List.mem_append.mp hmem with hmem | hmem
    · exact ih hmem
    · exact looks.not_answers vain (mem_stamped.mp hmem).2

/-- What was done before patience had run out was done for looks in vain. -/
lemma mem_of_not_spent (h : c.LooksInVain habits id p begun (n + 1) past)
    (hends : c.policy.EndsAt habits n t) (hlog : past ++ rest = before ++ entry :: after)
    (hspent : ¬ c.Spent habits id p begun before) : entry ∈ past := by
  rcases mem_or_split hlog with hmem | ⟨more, rfl, -⟩
  · exact hmem
  · exact absurd ⟨n, t, past, hends, h, List.prefix_append ..⟩ hspent

/-- The first looks in vain are looks in vain. -/
lemma exists_prefix (h : c.LooksInVain habits id p begun n past) (hk : k ≤ n) :
    ∃ past', c.LooksInVain habits id p begun k past' ∧ past' <+: past := by
  induction h with
  | none =>
    obtain rfl := Nat.le_zero.mp hk
    exact ⟨_, .none, List.prefix_rfl⟩
  | @next n t past state look before time looks vain ih =>
    rcases Nat.lt_or_ge n k with hlt | hle
    · obtain rfl : k = n + 1 := by omega
      exact ⟨_, .next before time looks vain, List.prefix_rfl⟩
    · obtain ⟨past', hpast', hle'⟩ := ih hle
      exact ⟨past', hpast', hle'.trans (List.prefix_append ..)⟩

/-- A log has not more than one beginning with so many looks in vain. -/
lemma unique {past' : List (Nat × Event)} (h : c.LooksInVain habits id p begun k past)
    (h' : c.LooksInVain habits id p begun k past') (hlog : past <+: log) (hlog' : past' <+: log) :
    past = past' := by
  have hle := List.prefix_of_prefix_length_le hlog hlog' (by rw [h.length_eq, h'.length_eq])
  exact hle.eq_of_length (by rw [h.length_eq, h'.length_eq])

end LooksInVain

/-! ## The course of a reading -/

/-- What has been done for a reading up to some time, whether it goes on or not. -/
inductive Course (c : Chain) (habits : Worker) (id : Nat) (p : Position) (begun : Nat) :
    Nat → List (Nat × Event) → Prop
  | waiting {k t : Nat} {past : List (Nat × Event)} {result : Except ReplicationError SlotState}
      {whole look : List Event} (before : c.LooksInVain habits id p begun k past)
      (time : c.policy.lookAt habits k = some t) (looks : c.Looks id p result whole)
      (part : look <+: whole) :
      Course c habits id p begun (begun + t) (past ++ stamped (begun + t) look)
  | spent {n t : Nat} {past : List (Nat × Event)} {rest : List Event}
      (before : c.LooksInVain habits id p begun (n + 1) past) (out : c.policy.EndsAt habits n t)
      (part : ∃ v, rest.map Event.action <+: c.decision p v) :
      Course c habits id p begun (begun + t) (past ++ stamped (begun + t) rest)

lemma Reading.course (h : c.Reading habits id p begun t log) :
    c.Course habits id p begun t log := by
  cases h with
  | looking before time looks vain part => exact .waiting before time looks part
  | deciding before out part => exact .spent before out ⟨_, part⟩

lemma ReadEnds.course (h : c.ReadEnds habits id p begun r t log) :
    c.Course habits id p begun t log := by
  cases h with
  | found before time => exact .waiting before time (.committed _) List.prefix_rfl
  | failed before time looks => exact .waiting before time looks List.prefix_rfl
  | decided before out part => exact .spent before out part
  | gaveUp before out part => exact .spent before out part

namespace Course

/-- Until patience has run out, whatever is done is scheduled. -/
lemma scheduled (h : c.Course habits id p begun t log) (hlog : log = before ++ entry :: after)
    (hspent : ¬ c.Spent habits id p begun before) : c.IsScheduled habits p begun entry := by
  cases h with
  | @waiting k t past result whole look vain time looks part =>
    rcases mem_or_split hlog with hmem | ⟨more, -, hmore⟩
    · exact vain.scheduled hmem
    · have hmem : entry ∈ stamped (begun + t) look :=
        hmore ▸ List.mem_append_right _ List.mem_cons_self
      obtain ⟨htime, hevent⟩ := mem_stamped.mp hmem
      obtain ⟨place, haction⟩ := looks.action (part.subset hevent)
      exact ⟨k, t, place, time, htime, haction⟩
  | spent vain out => exact vain.scheduled (vain.mem_of_not_spent out hlog hspent)

/-- A reader whose patience has not run out has done nothing but look. -/
lemma isLook (h : c.Course habits id p begun t log) (hspent : ¬ c.Spent habits id p begun log) :
    ∀ entry ∈ log, entry.2.IsLook := by
  intro entry hmem
  obtain ⟨before, after, hlog⟩ := List.append_of_mem hmem
  refine (h.scheduled hlog fun hbefore => hspent (hbefore.mono ?_)).isLook
  exact hlog ▸ List.prefix_append ..

/-- All looks that were due before now have been made, in vain. -/
lemma exists_vain {now : Nat} (h : c.Course habits id p begun now log)
    (hk : c.policy.lookAt habits k = some t) (htime : begun + t < now) :
    ∃ past, c.LooksInVain habits id p begun (k + 1) past ∧ past <+: log := by
  -- later looks have larger numbers
  have hlater : ∀ {m t'}, c.policy.lookAt habits m = some t' → t < t' → k < m := by
    intro m t' hm hlt
    by_contra hle
    obtain ⟨t₁, hle₁, ht₁⟩ := HoleFillPolicy.exists_lookAt_of_le hk (Nat.not_lt.mp hle)
    obtain rfl := Option.some.inj (ht₁.symm.trans hm)
    omega
  cases h with
  | waiting vain time =>
    obtain ⟨past', hpast', hle⟩ := vain.exists_prefix (hlater time (by omega))
    exact ⟨past', hpast', hle.trans (List.prefix_append ..)⟩
  | spent vain out =>
    have hlt := hlater out.1 (by omega)
    obtain ⟨past', hpast', hle⟩ := vain.exists_prefix (k := k + 1) (by omega)
    exact ⟨past', hpast', hle.trans (List.prefix_append ..)⟩

/-- No look comes after the last one. -/
lemma le_of_endsAt {now : Nat} (h : c.Course habits id p begun now log)
    (hends : c.policy.EndsAt habits n t) : now ≤ begun + t := by
  cases h with
  | waiting vain time => exact Nat.add_le_add_left (hends.le time).2 _
  | spent vain out => exact Nat.le_of_eq (congrArg _ (out.unique hends).2)

/-- What is done once patience has run out. -/
lemma of_spent {now : Nat} (h : c.Course habits id p begun now log)
    (hends : c.policy.EndsAt habits n t) (hvain : c.LooksInVain habits id p begun (n + 1) before)
    (hlog : log = before ++ rest) : ∃ events v, rest = stamped (begun + t) events ∧
      events.map Event.action <+: c.decision p v := by
  have hbefore : before <+: log := hlog ▸ List.prefix_append ..
  cases h with
  | @waiting k t' past result whole look vain time looks part =>
    -- the last look has just ended
    have hk := (hends.le time).1
    have hlength := congrArg List.length hlog
    have hwhole := looks.length_le
    have hpart := part.length_le
    have hsum : (k + 1) * c.probes ≤ (n + 1) * c.probes :=
      Nat.mul_le_mul_right _ (Nat.succ_le_succ hk)
    rw [List.length_append, List.length_append, vain.length_eq, hvain.length_eq, stamped,
      List.length_map] at hlength
    rw [Nat.succ_mul] at hsum
    have hnil : rest = [] := List.length_eq_zero_iff.mp (by omega)
    exact ⟨[], .hole, hnil, List.nil_prefix⟩
  | @spent m t' past events vain out part =>
    obtain ⟨rfl, rfl⟩ := out.unique hends
    obtain rfl := vain.unique hvain (List.prefix_append ..) hbefore
    obtain ⟨v, hpart⟩ := part
    exact ⟨events, v, (List.append_cancel_left hlog).symm, hpart⟩

end Course

/-- With what ends the wait, patience does not run out. -/
lemma Spent.of_answers (h : c.Spent habits id p begun (before ++ [entry]))
    (hanswers : c.Answers id p r entry.2) : c.Spent habits id p begun before := by
  obtain ⟨n, t, past, hends, hvain, hpast⟩ := h
  rcases List.prefix_concat_iff.mp hpast with rfl | hle
  · have hmem := List.mem_append_right before (List.mem_singleton_self entry)
    exact absurd hanswers (hvain.not_answers hmem)
  · exact ⟨n, t, past, hends, hvain, hle⟩

/-- While a reading goes on and patience has not run out, nothing has ended the wait. -/
lemma Reading.not_answers (h : c.Reading habits id p begun t log)
    (hlog : log = before ++ entry :: after) (hspent : ¬ c.Spent habits id p begun before) :
    ¬ c.Answers id p r entry.2 := by
  cases h with
  | looking vain time looks hvain part =>
    rcases mem_or_split hlog with hmem | ⟨more, -, hmore⟩
    · exact vain.not_answers hmem
    · have hmem : entry ∈ stamped _ _ := hmore ▸ List.mem_append_right _ List.mem_cons_self
      exact looks.not_answers hvain (part.subset (mem_stamped.mp hmem).2)
  | deciding vain out => exact vain.not_answers (vain.mem_of_not_spent out hlog hspent)

namespace ReadEnds

/-- What ends the wait is the last thing that is done, and what the reading ends with. -/
lemma of_answers (h : c.ReadEnds habits id p begun r t log) (hlog : log = before ++ entry :: after)
    (hspent : ¬ c.Spent habits id p begun before) (hanswers : c.Answers id p r₀ entry.2) :
    r = r₀ ∧ t = entry.1 ∧ after = [] := by
  cases h with
  | found vain time =>
    rcases mem_or_split hlog with hmem | ⟨more, -, hmore⟩
    · exact absurd hanswers (vain.not_answers hmem)
    · obtain ⟨-, rfl, rfl⟩ := eq_of_singleton hmore
      cases hanswers
      exact ⟨rfl, rfl, rfl⟩
  | @failed k t past e look vain time looks =>
    rcases mem_or_split hlog with hmem | ⟨more, -, hmore⟩
    · exact absurd hanswers (vain.not_answers hmem)
    · obtain ⟨first, last, rfl, -, hlast⟩ := List.map_eq_append_iff.mp hmore
      obtain ⟨event, end', rfl, rfl, hafter⟩ := List.map_eq_cons_iff.mp hlast
      obtain ⟨rfl, rfl⟩ := looks.of_answers rfl hanswers
      exact ⟨rfl, rfl, hafter.symm⟩
  | decided vain out | gaveUp vain out =>
    exact absurd hanswers (vain.not_answers (vain.mem_of_not_spent out hlog hspent))

/-- A reading that ends with a value once patience has run out has decided the position. -/
lemma of_spent {now : Nat} (h : c.ReadEnds habits id p begun (.ok v) now log)
    (hends : c.policy.EndsAt habits n t) (hvain : c.LooksInVain habits id p begun (n + 1) before)
    (hlog : log = before ++ rest) : now = begun + t ∧ c.Decides id p v (rest.map Prod.snd) := by
  have hbefore : before <+: log := hlog ▸ List.prefix_append ..
  cases h with
  | @found k t' past v vain time =>
    -- the look that has found the value would be a look in vain
    rcases List.eq_nil_or_concat rest with rfl | ⟨rest, last, rfl⟩
    · rw [List.append_nil] at hlog
      have hmem := hlog ▸ List.mem_append_right past (List.mem_singleton_self _)
      exact absurd (Answers.value v) (hvain.not_answers hmem)
    · rw [List.concat_eq_append, ← List.append_assoc] at hlog
      obtain ⟨hpast, -⟩ := List.append_inj' hlog rfl
      have hlength := congrArg List.length hpast
      have hk := (hends.le time).1
      have hsum : k * c.probes ≤ n * c.probes := Nat.mul_le_mul_right _ hk
      rw [List.length_append, vain.length_eq, hvain.length_eq, Nat.succ_mul] at hlength
      have hpos := c.probes_pos
      omega
  | decided vain out part decides =>
    obtain ⟨rfl, rfl⟩ := out.unique hends
    obtain rfl := vain.unique hvain (List.prefix_append ..) hbefore
    refine ⟨rfl, ?_⟩
    rw [← List.append_cancel_left hlog, map_snd_stamped]
    exact decides

end ReadEnds

end Chain

end SharedLog
