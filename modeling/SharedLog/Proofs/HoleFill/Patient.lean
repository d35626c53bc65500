/-
# Readers are patient

A reader that is followed on a clock does nothing but look at its position, at the times that its
policy has scheduled, until one of its looks finds a value or fails, or until its patience has run
out. Only then does it write. So a writer whose value has reached the tail before the last look is
never overtaken, and a reader that is given up before that leaves the units as they would be without
it. On a chain whose units are online the reader that has run out of patience decides the position
once, and returns what is committed then.
-/
import SharedLog.Proofs.Chain.Probes
import SharedLog.Proofs.HoleFill.Course

namespace SharedLog

variable {habits : Worker} {names : List String} {policy : HoleFillPolicy}
  {sequencer : SequencerSettings} {management : BootstrapSettings} {node : Node} {w : World}
  {id begun : Nat} {p : Position} {ticks : List Tick} {v : Watch} {rounds : Option Nat}
  {c : Chain}

/-! ## Units that stay online -/

/-- All units are online as long as the clock runs. -/
def World.StaysOnline (w : World) (ticks : List Tick) : Prop :=
  ∀ before, before <+: ticks.filterMap Tick.move? → (w.play before).Online

namespace World.StaysOnline

/-- Nobody who goes on alone switches units. -/
lemma more {more : List Tick} {least : Nat} (h : w.StaysOnline ticks)
    (hmore : ∀ tick ∈ more, tick.IsOwn id least) : w.StaysOnline (ticks ++ more) := by
  induction more using List.reverseRecOn with
  | nil => rwa [List.append_nil]
  | append_singleton more tick ih =>
    have hearlier := ih fun tick hmem => hmore tick (List.mem_append_left _ hmem)
    have hown := hmore tick (List.mem_append_right _ (List.mem_singleton_self _))
    rw [← List.append_assoc]
    generalize ticks ++ more = earlier at hearlier
    intro before hbefore
    rw [List.filterMap_append] at hbefore
    cases tick with
    | pass nanos =>
      rw [show [Tick.pass nanos].filterMap Tick.move? = [] from rfl, List.append_nil] at hbefore
      exact hearlier before hbefore
    | move m =>
      obtain ⟨choice, rfl, -⟩ := hown
      rcases List.prefix_concat_iff.mp hbefore with rfl | hle
      · have hswitch : ∀ place offline, Move.advance id choice ≠ .switch place offline := nofun
        rw [play_append]
        exact (hearlier _ List.prefix_rfl).step hswitch
      · exact hearlier before hle

/-- No unit fails an activity that began when all were online. -/
lemma not_fails (h : w.StaysOnline ticks) (hchain : w.Keeps chainLaw (Job.Ends chainLaw))
    (hnew : ∀ event ∈ w.scene.trace, event.activity ≠ id) {e : ReplicationError} :
    ¬ chainLaw.Fails id (w.play (ticks.filterMap Tick.move?)).scene e := by
  rintro ⟨call, answer, hplace, hmem, hcall, -⟩
  obtain ⟨before, choice, hbefore, hacts⟩ :=
    exists_acts_of_mem_trace hmem fun hearlier => hnew _ hearlier rfl
  have hkeeps := (hchain.more before).2
  have hunit : call.place < (w.play before).scene.node.units.length := by
    rw [hkeeps.holds.length, (hchain.more before).1.chain, ← (grows_play w _).chain]
    exact hplace
  have hoffline := (hacts.blames hcall _ (List.getElem?_eq_getElem hunit)).1
  rw [h before ((List.prefix_append ..).trans hbefore) _ (List.getElem_mem hunit)] at hoffline
  cases hoffline

end World.StaysOnline

/-! ## Patience -/

/-- A reader's patience. The reading of a position was started in a world at some time, and was
followed for some ticks of the clock. -/
structure Chain.ReadsPatiently (c : Chain) (habits : Worker) (w : World) (p : Position)
    (begun : Nat) (ticks : List Tick) (v : Watch) : Prop where
  /-- The looks come when the policy has scheduled them, if sleeps last as long as they should. -/
  configured : c.policy.KeptBy habits → ∀ k,
    ((∀ m ≤ k, ¬ c.policy.LastsFor m) →
      c.policy.lookAt habits k = some (c.policy.lookTime k)) ∧
    (c.policy.LastsFor (k + 1) → c.policy.EndsAt habits k (c.policy.lookTime k))
  /-- As long as it has not returned, all looks have been made that were due before. -/
  punctual : ∀ {k t}, c.policy.lookAt habits k = some t → begun + t < v.now → v.ended = none →
    ∃ past, c.LooksInVain habits w.nextId p begun (k + 1) past ∧ past <+: v.log
  /-- Until its patience has run out, it does nothing but look at the position, as scheduled. -/
  waits : ∀ {before entry after}, v.log = before ++ entry :: after →
    ¬ c.Spent habits w.nextId p begun before → c.IsScheduled habits p begun entry
  /-- If one of its looks finds a value or fails, nothing was written, and the value or the error is
  returned at that time. -/
  answered : ∀ {before entry after r}, v.log = before ++ entry :: after →
    ¬ c.Spent habits w.nextId p begun before → c.Answers w.nextId p r entry.2 →
    after = [] ∧ (∀ entry ∈ v.log, entry.2.IsLook) ∧
    (v.ended = none → v.now = entry.1 ∧
      ∀ choice, (v.world.step (.advance w.nextId choice)).Returned w.nextId (.read p) r) ∧
    ∀ r', v.world.Returned w.nextId (.read p) r' → r' = r ∧ v.ended = some entry.1
  /-- If the tail has a value before the last look, nothing is written, and no other value is
  returned. -/
  spared : ∀ {early late u value}, ticks = early ++ late →
    (Watch.start w (.read p) begun).run habits w.nextId early = some u →
    (∀ n t, c.policy.EndsAt habits n t → c.looked p u.log ≤ n) →
    u.world.scene.slot c.tail p = some value →
    (∀ entry ∈ v.log, entry.2.IsLook) ∧
    ∀ value', v.world.Returned w.nextId (.read p) (.ok value') → value' = value
  /-- If patience has not run out, the units hold what they would hold without the reader, also if
  it was given up. -/
  absent : ¬ c.Spent habits w.nextId p begun v.log → ∀ place q,
    v.world.scene.slot place q =
      (w.play ((ticks.filterMap Tick.move?).filterMap (Move.without w.nextId))).scene.slot place q
  /-- Once patience has run out, the position is decided and looked at at once. On a chain whose
  units are online that is done once and completely, and what is committed then is returned. -/
  decides : ∀ {n t before rest}, c.policy.EndsAt habits n t →
    c.LooksInVain habits w.nextId p begun (n + 1) before → v.log = before ++ rest →
    (∃ events value, rest = stamped (begun + t) events ∧
      events.map Event.action <+: c.decision p value) ∧
    ((w.step (.start (.read p))).StaysOnline ticks →
      ∀ r, v.world.Returned w.nextId (.read p) r → ∃ value, r = .ok value ∧
        c.Decides w.nextId p value (rest.map Prod.snd) ∧ v.ended = some (begun + t) ∧
        v.world.scene.Committed p value)
  /-- A value that is returned is committed. An error that is returned is that of a unit, and never
  that patience has run out; on a chain whose units are online there is none. -/
  returned : ∀ {r}, v.world.Returned w.nextId (.read p) r →
    (∃ value, r = .ok value ∧ v.world.scene.Committed p value) ∨
    ∃ e, r = .error e ∧ chainLaw.Fails w.nextId v.world.scene e ∧
      ¬ (w.step (.start (.read p))).StaysOnline ticks
  /-- If patience ever runs out, the reader returns no later than that. All that it needs are its
  own turns. -/
  returns : ∀ {n t}, c.policy.EndsAt habits n t →
    (v.ended = none → v.now ≤ begun + t) ∧
    (habits.Faithful → Watch.Lets w.nextId (some (n + 1)) ticks → v.ended = none →
      ∃ more v' t' r, (∀ tick ∈ more, tick.IsOwn w.nextId (n + 1)) ∧
        v.run habits w.nextId more = some v' ∧ v'.world.Returned w.nextId (.read p) r ∧
        v'.ended = some t' ∧ t' ≤ begun + t ∧
        ((w.step (.start (.read p))).StaysOnline ticks → ∃ value, r = .ok value))

/-! ## How it comes to that -/

section

variable (hc : w.scene.node.chain = c) (hw : w.Attributed)
  (hrun : (Watch.start w (.read p) begun).run habits w.nextId ticks = some v)

include hc hw hrun

/-- A reading on the clock. -/
lemma read_run (hrounds : ∀ least ∈ rounds, ∃ n t, c.policy.EndsAt habits n t ∧ n < least)
    (hlets : Watch.Lets w.nextId rounds ticks) : v.Logs w.nextId ∧
      v.Pacing habits w.nextId (.read p) rounds (c.Reading habits w.nextId p begun)
        (c.ReadEnds habits w.nextId p begun) := by
  subst hc
  exact Watch.pacing_run hw rfl rfl (Chain.read_paced hrounds) hlets hrun

/-- A reading on the clock that may be broken off. -/
lemma read_pacing : v.Logs w.nextId ∧
    v.Pacing habits w.nextId (.read p) none (c.Reading habits w.nextId p begun)
      (c.ReadEnds habits w.nextId p begun) := read_run hc hw hrun nofun nofun

lemma read_course : c.Course habits w.nextId p begun v.due v.log := by
  rcases (read_pacing hc hw hrun).2.held with hreading | ⟨r, hends⟩
  · exact hreading.course
  · exact hends.course

/-- Nothing is done or returned beyond what ends the wait. -/
lemma read_answered {before after : List (Nat × Event)} {entry : Nat × Event}
    {r : Except ReplicationError LogData} (hlog : v.log = before ++ entry :: after)
    (hspent : ¬ c.Spent habits w.nextId p begun before)
    (hanswers : c.Answers w.nextId p r entry.2) :
    after = [] ∧ (∀ entry ∈ v.log, entry.2.IsLook) ∧
    (v.ended = none → v.now = entry.1 ∧
      ∀ choice, (v.world.step (.advance w.nextId choice)).Returned w.nextId (.read p) r) ∧
    ∀ r', v.world.Returned w.nextId (.read p) r' → r' = r ∧ v.ended = some entry.1 := by
  obtain ⟨hlogs, hpacing⟩ := read_pacing hc hw hrun
  have hafter : after = [] := by
    rcases hpacing.held with hreading | ⟨r', hends⟩
    · exact absurd hanswers (hreading.not_answers hlog hspent)
    · exact (hends.of_answers hlog hspent hanswers).2.2
  refine ⟨hafter, (read_course hc hw hrun).isLook fun hlater => hspent ?_, fun hended => ?_,
    fun r' hr' => ?_⟩
  · rw [hlog, hafter] at hlater
    exact hlater.of_answers hanswers
  · cases hpacing with
    | running h =>
      rcases h.paced.now with hreading | ⟨r', rfl, hends⟩
      · exact absurd hanswers (hreading.not_answers hlog hspent)
      · obtain ⟨rfl, hdue, -⟩ := hends.of_answers hlog hspent hanswers
        have hmem : entry ∈ v.log := hlog ▸ List.mem_append_right _ List.mem_cons_self
        have hle := Watch.log_le_now hrun entry hmem
        have htime := h.time
        refine ⟨by omega, fun choice => (h.returns hlogs (by omega) choice).here⟩
    | returned h => cases h.ended.symm.trans hended
    | dropped here ended => simp [hended] at ended
  · obtain ⟨hended, hends⟩ := hpacing.ends hr'
    obtain ⟨rfl, hdue, -⟩ := hends.of_answers hlog hspent hanswers
    exact ⟨rfl, hdue ▸ hended⟩

/-- A reader whose patience has not run out leaves the units as they would be without it. -/
lemma read_absent (hspent : ¬ c.Spent habits w.nextId p begun v.log) (place : Nat) (q : Position) :
    v.world.scene.slot place q =
      (w.play ((ticks.filterMap Tick.move?).filterMap (Move.without w.nextId))).scene.slot place
        q := by
  obtain ⟨hlogs, -⟩ := read_pacing hc hw hrun
  have hlook := (read_course hc hw hrun).isLook hspent
  have hworld : v.world =
      (w.step (.start (.read p))).play (ticks.filterMap Tick.move?) := Watch.world_run hrun
  have hwithout : World.Without w.nextId (w.step (.start (.read p))) w :=
    World.without_start rfl rfl
  rw [hworld]
  refine (Scene.slot_congr (hwithout.play _ fun event hmem => ?_).node place q).symm
  rw [← hworld, ← hlogs] at hmem
  obtain ⟨entry, hentry, rfl⟩ := List.mem_map.mp hmem
  exact hlook entry hentry

/-- What has been done once patience has run out. -/
lemma read_spent {n t : Nat} {before rest : List (Nat × Event)}
    (hends : c.policy.EndsAt habits n t)
    (hvain : c.LooksInVain habits w.nextId p begun (n + 1) before) (hlog : v.log = before ++ rest)
    {value : LogData} (hr : v.world.Returned w.nextId (.read p) (.ok value)) :
    c.Decides w.nextId p value (rest.map Prod.snd) ∧ v.ended = some (begun + t) := by
  obtain ⟨hended, hreadEnds⟩ := (read_pacing hc hw hrun).2.ends hr
  obtain ⟨hdue, hdecides⟩ := hreadEnds.of_spent hends hvain hlog
  exact ⟨hdecides, hdue ▸ hended⟩

/-- If patience runs out some time and nobody else goes on, the reading comes to its end. -/
lemma read_returns_alone {n t : Nat} (hends : c.policy.EndsAt habits n t)
    (hhabits : habits.Faithful) (hlets : Watch.Lets w.nextId (some (n + 1)) ticks)
    (hended : v.ended = none) :
    ∃ more v' t' r, (∀ tick ∈ more, tick.IsOwn w.nextId (n + 1)) ∧
      v.run habits w.nextId more = some v' ∧ v'.world.Returned w.nextId (.read p) r ∧
      v'.ended = some t' ∧ t' ≤ begun + t := by
  have hrounds : ∀ least ∈ some (n + 1), ∃ n t, c.policy.EndsAt habits n t ∧ n < least := by
    intro least hleast
    obtain rfl := Option.some.inj hleast
    exact ⟨n, t, hends, Nat.lt_succ_self n⟩
  obtain ⟨hlogs, hpacing⟩ := read_run hc hw hrun hrounds hlets
  cases hpacing with
  | running h =>
    obtain ⟨more, v', r, hmore, hrun', hover⟩ := h.settles hlogs hhabits.exists_late
    exact ⟨more, v', v'.due, r, hmore, hrun', hover.here, hover.ended,
      hover.ends.course.le_of_endsAt hends⟩
  | returned h => cases h.ended.symm.trans hended
  | dropped here ended => simp [hended] at ended

/-- If the tail has a value before the last look, patience does not run out. -/
lemma not_spent_of_tail {early late : List Tick} {u : Watch} {value : LogData}
    (hticks : ticks = early ++ late)
    (hearly : (Watch.start w (.read p) begun).run habits w.nextId early = some u)
    (hlooked : ∀ n t, c.policy.EndsAt habits n t → c.looked p u.log ≤ n)
    (hvalue : u.world.scene.slot c.tail p = some value) :
    ¬ c.Spent habits w.nextId p begun v.log := by
  rintro ⟨n, t, past, hends, hvain, hpast⟩
  obtain ⟨past', t', more, rfl, hpast'⟩ := hvain.exists_last
  have hlate : u.run habits w.nextId late = some v := by
    rw [hticks, Watch.run_append, hearly, Option.bind_some] at hrun
    exact hrun
  have hlooks : c.looked p (past' ++ [(t', ⟨w.nextId, .onUnit (.peek c.tail p), .ok none⟩)]) =
      n + 1 := by
    rw [Chain.looked] at hpast' ⊢
    rw [List.countP_append, hpast']
    simp [Event.looksAt]
  have hnext : past' ++ [(t', ⟨w.nextId, .onUnit (.peek c.tail p), .ok none⟩)] <+: v.log :=
    List.IsPrefix.trans ⟨more, by simp⟩ hpast
  -- the last look comes after what was done early
  have hprefix : u.log <+: past' := by
    have hle := hlooked n t hends
    rcases List.prefix_or_prefix_of_prefix (Watch.log_prefix_run hlate) hnext with hu | hu
    · rcases List.prefix_concat_iff.mp hu with heq | hu
      · rw [heq, hlooks] at hle
        omega
      · exact hu
    · have hmono := hu.sublist.countP_le (p := fun entry => entry.2.looksAt c.tail p)
      rw [Chain.looked] at hle hlooks
      omega
  obtain ⟨hulogs, -⟩ := read_pacing hc hw hearly
  obtain ⟨hvlogs, -⟩ := read_pacing hc hw hrun
  obtain ⟨rest, hrest⟩ := hpast
  have hdeeds : (u.world.play (late.filterMap Tick.move?)).scene.deeds w.nextId =
      past'.map Prod.snd ++ ⟨w.nextId, .onUnit (.peek c.tail p), .ok none⟩ ::
        (more ++ rest).map Prod.snd := by
    rw [← Watch.world_run hlate, ← hvlogs, ← hrest]
    simp
  obtain ⟨before, choice, -, -, hacts⟩ :=
    World.exists_turn_of_deeds (hulogs ▸ hprefix.map Prod.snd) hdeeds
  have hlater := (World.grows_play u.world before).slot hvalue
  rw [hacts.slot_of_peek] at hlater
  cases hlater

end

section

variable (hw : w.Attributed) (hkeeps : w.Keeps chainLaw (Job.Ends chainLaw))
  (hrun : (Watch.start w (.read p) begun).run habits w.nextId ticks = some v)

include hw hkeeps hrun

/-- What is returned is committed, or a unit has failed. -/
lemma read_returned {r : Except ReplicationError LogData}
    (hr : v.world.Returned w.nextId (.read p) r) :
    (∃ value, r = .ok value ∧ v.world.scene.Committed p value) ∨
    ∃ e, r = .error e ∧ chainLaw.Fails w.nextId v.world.scene e ∧
      ¬ (w.step (.start (.read p))).StaysOnline ticks := by
  have hworld : v.world =
      (w.step (.start (.read p))).play (ticks.filterMap Tick.move?) := Watch.world_run hrun
  have hstart : (w.step (.start (.read p))).Keeps chainLaw (Job.Ends chainLaw) :=
    (hkeeps.more [.start (.read p)]).2
  have hends : Job.Ends chainLaw w.nextId (.read p) r v.world.scene := by
    rw [hworld] at hr ⊢
    exact (hstart.more _).2.of_returned hr
  cases r with
  | ok value => exact .inl ⟨value, rfl, hends⟩
  | error e =>
    have hnew : ∀ event ∈ (w.step (.start (.read p))).scene.trace,
        event.activity ≠ w.nextId := by
      have hstep : w.step (.start (.read p)) = _ := World.step_start_eq rfl rfl
      rw [hstep]
      exact fun event hmem => Nat.ne_of_lt (hw event hmem)
    refine .inr ⟨e, rfl, hends, fun honline => ?_⟩
    rw [hworld] at hends
    exact honline.not_fails hstart hnew hends

/-- On a chain whose units are online a committed value is returned. -/
lemma read_returned_ok (honline : (w.step (.start (.read p))).StaysOnline ticks)
    {r : Except ReplicationError LogData} (hr : v.world.Returned w.nextId (.read p) r) :
    ∃ value, r = .ok value ∧ v.world.scene.Committed p value := by
  rcases read_returned hw hkeeps hrun hr with hok | ⟨e, -, -, hnot⟩
  · exact hok
  · exact absurd honline hnot

omit hw in
/-- What the tail has is returned. -/
lemma eq_of_tail {early late : List Tick} {u : Watch} {value value' : LogData}
    (hc : w.scene.node.chain = c) (hticks : ticks = early ++ late)
    (hearly : (Watch.start w (.read p) begun).run habits w.nextId early = some u)
    (hvalue : u.world.scene.slot c.tail p = some value)
    (hr : v.world.Returned w.nextId (.read p) (.ok value')) : value' = value := by
  rw [hticks, Watch.run_append, hearly, Option.bind_some] at hrun
  have hworld : v.world = w.play (.start (.read p) :: early.filterMap Tick.move? ++
      late.filterMap Tick.move?) := by
    rw [Watch.world_run hrun, Watch.world_run hearly, List.cons_append, World.play_cons,
      World.play_append]
    rfl
  obtain ⟨hgrows, hkeeps'⟩ := hkeeps.more (.start (.read p) :: early.filterMap Tick.move? ++
    late.filterMap Tick.move?)
  rw [← hworld] at hgrows hkeeps'
  have hcommitted : v.world.scene.Committed p value' := hkeeps'.of_returned hr
  have htail := hkeeps'.holds.tail_of_committed hcommitted
  have hlater := (World.grows_play u.world (late.filterMap Tick.move?)).slot hvalue
  rw [hgrows.chain, hc] at htail
  rw [← Watch.world_run hrun, htail] at hlater
  exact Option.some.inj hlater

end

/-- Readers are patient exactly as configured.

The reading of a position is started in any world that a node has come to, and is followed on a
clock on which only sleeps take time. Whatever else happens in the meantime, and whatever the
habits of whoever sleeps, the reader does nothing but look at the position, at the times that its
policy schedules, until a look finds a value or fails, which is returned at once, or until patience
has run out; a value that has reached the tail before the last look is found, and a reader that is
given up before patience has run out leaves every unit as it would be without the reader. Once
patience has run out, the reader fills the hole, looks once more, and returns what is committed
then, if the units are online. Only units make a reading fail. -/
theorem reads_patiently (h : Node.start names policy sequencer management = .ok node)
    (moves : List Move) (w : World) (hw : w = (World.start node).play moves) (p : Position)
    (habits : Worker) (begun : Nat) (ticks : List Tick) (v : Watch)
    (hrun : (Watch.start w (.read p) begun).run habits w.nextId ticks = some v) :
    node.chain.policy = policy ∧ node.chain.ReadsPatiently habits w p begun ticks v := by
  have hattributed : w.Attributed := hw ▸ (World.attributed_start node).play moves
  have hkeeps : w.Keeps chainLaw (Job.Ends chainLaw) := hw ▸ World.keeps_chainLaw h moves
  have hc : w.scene.node.chain = node.chain :=
    hw ▸ (World.grows_play (World.start node) moves).chain
  have hcourse := read_course hc hattributed hrun
  obtain ⟨-, hpacing⟩ := read_pacing hc hattributed hrun
  refine ⟨(Node.start_eq_ok h).2.1, ?_⟩
  exact {
    configured := fun hkept k => HoleFillPolicy.lookAt_of_keptBy hkept
    punctual := fun hk htime hended =>
      hcourse.exists_vain hk (Nat.lt_of_lt_of_le htime (hpacing.now_le hended))
    waits := hcourse.scheduled
    answered := read_answered hc hattributed hrun
    spared := by
      intro early late u value hticks hearly hlooked hvalue
      have hspent := not_spent_of_tail hc hattributed hrun hticks hearly hlooked hvalue
      exact ⟨hcourse.isLook hspent, fun value' hr =>
        eq_of_tail hkeeps hrun hc hticks hearly hvalue hr⟩
    absent := read_absent hc hattributed hrun
    decides := by
      intro n t before rest hends hvain hlog
      refine ⟨hcourse.of_spent hends hvain hlog, fun honline r hr => ?_⟩
      obtain ⟨value, rfl, hcommitted⟩ := read_returned_ok hattributed hkeeps hrun honline hr
      obtain ⟨hdecides, hended⟩ := read_spent hc hattributed hrun hends hvain hlog hr
      exact ⟨value, rfl, hdecides, hended, hcommitted⟩
    returned := read_returned hattributed hkeeps hrun
    returns := by
      intro n t hends
      refine ⟨fun hended => Nat.le_trans (hpacing.now_le hended) (hcourse.le_of_endsAt hends),
        fun hhabits hlets hended => ?_⟩
      obtain ⟨more, v', t', r, hmore, hmoreRun, hr, hended', hle⟩ :=
        read_returns_alone hc hattributed hrun hends hhabits hlets hended
      refine ⟨more, v', t', r, hmore, hmoreRun, hr, hended', hle, fun honline => ?_⟩
      have hwhole : (Watch.start w (.read p) begun).run habits w.nextId (ticks ++ more) =
          some v' := by rw [Watch.run_append, hrun, Option.bind_some, hmoreRun]
      obtain ⟨value, hvalue, -⟩ :=
        read_returned_ok hattributed hkeeps hwhole (honline.more hmore) hr
      exact ⟨value, hvalue⟩ }

/-- A writer comes to the tail just before the second and last look, which finds its entry. -/
theorem reads_patiently_just_in_time : ∃ node,
    Node.start ["a", "b"] (.fixed 2 (.ofMillis 10)) ⟨1, Epoch.zero, 5⟩ .default = .ok node ∧
    let start := Watch.start (World.start node) (.read Position.zero) 0
    let reader : Tick := .move (.advance 0 (.prompt 2))
    let writer : Tick := .move (.advance 1 (.prompt 2))
    let early := [reader, reader, reader, reader, .pass 10_000_000,
      .move (.start (.write Position.zero (.bare []))), writer, writer, writer]
    ∃ v, start.run (.usual 2) 0 (early ++ [reader, reader]) = some v ∧
      v.world.Returned 0 (.read Position.zero) (.ok (.entry (.bare []))) ∧
      v.ended = some 10_000_000 ∧ ∀ entry ∈ v.log, entry.2.IsLook := by
  have h : Node.start ["a", "b"] (.fixed 2 (.ofMillis 10)) ⟨1, Epoch.zero, 5⟩ .default =
    .ok _ := rfl
  refine ⟨_, h, ?_⟩
  intro start reader writer early
  -- what is there after the early ticks, and after all of them
  have hearly : (start.run (.usual 2) 0 early).any (fun u =>
      u.world.scene.slot 1 Position.zero = some (.entry (.bare [])) ∧
        (u.log.countP fun entry => entry.2.looksAt 1 Position.zero) = 1) = true := by
    decide +kernel
  have hlate : (start.run (.usual 2) 0 (early ++ [reader, reader])).any (fun v =>
      v.world.Returned 0 (.read Position.zero) (.ok (.entry (.bare []))) ∧
        v.ended = some 10_000_000) = true := by
    decide +kernel
  obtain ⟨u, hu, hseen⟩ := (Option.any_eq_true _ _).mp hearly
  obtain ⟨v, hv, hends⟩ := (Option.any_eq_true _ _).mp hlate
  obtain ⟨hvalue, hlooked⟩ := of_decide_eq_true hseen
  obtain ⟨hreturned, hended⟩ := of_decide_eq_true hends
  obtain ⟨-, hpatient⟩ := reads_patiently h [] _ rfl Position.zero (.usual 2) 0 _ v hv
  refine ⟨v, hv, hreturned, hended, (hpatient.spared rfl hu (fun n t hends => ?_) hvalue).1⟩
  -- the tail was looked at once, and there is a second look
  have hsecond : (HoleFillPolicy.fixed 2 (.ofMillis 10)).lookAt (.usual 2) 1 =
      some 10_000_000 := by decide +kernel
  exact hlooked.le.trans (hends.le hsecond).1

end SharedLog
