/-
# Taking over from a lost sequencer

When a sequencer is lost, its tails are lost with it, but not the log. Another sequencer starts with
no tails at the first position. A full reset tells it the tails that a replay of the log has found,
after which it gives positions behind all that the lost one gave.

Meanwhile clients go on with the tokens they have. An entry of such a token may still come to an
empty position until the replay has decided it, and never after that. So once the reset has taken
effect, only those of the old tokens count whose entries the log holds. If the past is reduced to
them (`Scene.withTrace`), then everything that holds of streams under one sequencer holds again.

The new sequencer must have given no position before the reset. In the law this is one of the stages
(`Legacy.Stage`): it was hasty, it awaits the reset, or it serves.
-/
import SharedLog.Proofs.Bootstrapper.Replay
import SharedLog.Proofs.Stream.Walk

namespace SharedLog

variable {s s' : Scene} {id : Nat} {p : Position} {q : Sequencer} {stream : StreamId}
  {request : TokenRequest} {token : Token} {action : Action} {answer : action.Answer}
  {tails : StreamPositions}

/-! ## Events at the sequencer -/

namespace Event

/-- A run of positions was given. -/
def Gives (e : Event) (request : TokenRequest) (token : Token) : Prop :=
  (∃ id, e = ⟨id, .allocate request, .ok token⟩) ∧ request.count ≠ 0

/-- A full reset took effect. -/
def Resets (e : Event) : Prop :=
  ∃ id request, e = ⟨id, .bootstrap request, .ok .applied⟩ ∧ request.fullReset = true

instance (e : Event) : Decidable (∃ request token, e.Gives request token) :=
  match e with
  | ⟨id, .allocate request, .ok token⟩ => decidable_of_iff (request.count ≠ 0) <| by
      simp [Gives]
  | ⟨_, .allocate _, .error _⟩ | ⟨_, .bootstrap _, _⟩ | ⟨_, .onUnit _, _⟩
  | ⟨_, .knownEpoch _, _⟩ | ⟨_, .observeEpoch .., _⟩ => .isFalse (by simp [Gives])

instance (e : Event) : Decidable e.Resets :=
  match e with
  | ⟨id, .bootstrap request, .ok .applied⟩ =>
    decidable_of_iff (request.fullReset = true) (by simp [Resets])
  | ⟨_, .bootstrap _, .ok .alreadyApplied⟩ | ⟨_, .bootstrap _, .error _⟩ | ⟨_, .allocate _, _⟩
  | ⟨_, .onUnit _, _⟩ | ⟨_, .knownEpoch _, _⟩ | ⟨_, .observeEpoch .., _⟩ =>
    .isFalse (by simp [Resets])

end Event

namespace Scene

lemma granted_iff : s.Granted request token ↔ ∃ e ∈ s.trace, e.Gives request token := by
  constructor
  · rintro ⟨⟨id, hmem⟩, hcount⟩
    exact ⟨_, hmem, ⟨id, rfl⟩, hcount⟩
  · rintro ⟨_, hmem, ⟨id, rfl⟩, hcount⟩
    exact ⟨⟨id, hmem⟩, hcount⟩

/-- Since some scene a run of positions was given before any full reset took effect. -/
def Hasty (base s : Scene) : Prop :=
  ∃ before e after request token, s.trace = base.trace ++ before ++ e :: after ∧
    e.Gives request token ∧ ∀ e' ∈ before, ¬ e'.Resets

lemma Hasty.later {base : Scene} (h : base.Hasty s) (hgrows : s.Grows s') : base.Hasty s' := by
  obtain ⟨before, e, after, request, token, htrace, hrest⟩ := h
  obtain ⟨more, hmore⟩ := hgrows.trace
  exact ⟨before, e, after ++ more, request, token, by simp [← hmore, htrace], hrest⟩

/-- It is enough to look at what was done until a full reset took effect. -/
lemma not_hasty {base : Scene} (h : ∀ e ∈ (s.trace.drop base.trace.length).takeWhile
    fun e => ¬ e.Resets, ¬ ∃ request token, e.Gives request token) : ¬ base.Hasty s := by
  rintro ⟨before, e, after, request, token, htrace, hgives, hbefore⟩
  have hresets : ¬ e.Resets := by
    obtain ⟨⟨id, rfl⟩, -⟩ := hgives
    rintro ⟨id', request', heq, -⟩
    cases heq
  refine h e ?_ ⟨request, token, hgives⟩
  rw [htrace, List.append_assoc, List.drop_left,
    List.takeWhile_append_of_pos fun e' hmem => decide_eq_true (hbefore e' hmem),
    List.takeWhile_cons, if_pos (decide_eq_true hresets)]
  exact List.mem_append_right _ List.mem_cons_self

/-- The scene with another past. -/
def withTrace (s : Scene) (trace : List Event) : Scene := { s with trace }

lemma Acts.withTrace (h : s.Acts id action answer s') (trace : List Event) :
    (s.withTrace trace).Acts id action answer (s'.withTrace (trace ++ [⟨id, action, answer⟩])) := by
  obtain ⟨now, h⟩ := h
  simp only [act, Prod.mk.injEq] at h
  obtain ⟨rfl, rfl⟩ := h
  exact ⟨now, rfl⟩

lemma Calm.withTrace (h : s.Calm s') (trace : List Event) :
    (s.withTrace trace).Calm (s'.withTrace trace) := { h with trace := rfl }

end Scene

/-! ## What is left behind -/

/-- The request for a full reset to the tails that a replay has found. -/
def LayoutChange.resetTo (change : LayoutChange) (tails : StreamPositions) : BootstrapRequest :=
  ⟨change.epoch, change.globalTailHint, tails, change.rebuildStart, true⟩

/-- A full reset by which another sequencer can take over from a lost one: it comes with a replay of
the log from its start to behind all positions given. -/
structure LayoutChange.Restores (change : LayoutChange) (lost : Sequencer) : Prop where
  fullReset : change.fullReset = true
  fromStart : change.rebuildStart = Position.zero
  covers : lost.globalTail ≤ change.globalTailHint
  hints_lt : ∀ stream p, change.streamTailHints.at? stream = some p → p < change.globalTailHint

/-- What a lost sequencer leaves behind, and the change of layout by which another one is to take
over. -/
structure Legacy where
  /-- The scene in which the sequencer was lost. -/
  base : Scene
  /-- The sequencer that was lost. -/
  lost : Sequencer
  change : LayoutChange
  ledger : base.Ledger lost
  restores : change.Restores lost

namespace Legacy

variable {l : Legacy}

/-- The replay that the change asks for, if it is done now, finds some tails. -/
def Replayed (l : Legacy) (s : Scene) (tails : StreamPositions) : Prop :=
  s.Replayed (Position.Within l.change.rebuildStart.val l.change.globalTailHint.val)
    l.change.streamTailHints tails

lemma within_iff : p.Within l.change.rebuildStart.val l.change.globalTailHint.val ↔
    p < l.change.globalTailHint := by
  rw [Position.Within, l.restores.fromStart, Position.lt_def]
  exact and_iff_right (Nat.zero_le _)

/-- The tails found are all before the global tail. -/
lemma Replayed.lt (h : l.Replayed s tails) (hp : tails.at? stream = some p) :
    p < l.change.globalTailHint := by
  have hrebuilt := h.rebuilt stream
  have hhint := l.restores.hints_lt stream p
  unfold StreamPositions.at? at hp hhint
  generalize l.change.streamTailHints[stream]? = known, tails[stream]? = t at hrebuilt hp hhint
  cases hrebuilt with
  | last hseen names latest =>
    obtain rfl := Option.some.inj hp
    exact within_iff.mp hseen
  | unnamed _ => exact hhint hp

/-- Positions of old tokens are before the hint for the global tail. -/
lemma first_lt (h : l.base.Granted request token) : token.first < l.change.globalTailHint :=
  Nat.lt_of_lt_of_le (l.ledger.first_lt h) l.restores.covers

/-- The position of an old token is taken once the replay has found the tails. -/
lemma Replayed.exists_slot (h : l.Replayed s tails) (hsound : s.Sound)
    (hg : l.base.Granted request token) : ∃ v, s.slot Chain.head token.first = some v ∧
      s.Committed token.first v := by
  obtain ⟨v, hv⟩ := h.decided token.first (within_iff.mpr (first_lt hg))
  exact ⟨v, hsound.head_of_committed hv, hv⟩

/-! ## The stages -/

/-- The new sequencer has given nothing yet and waits for the full reset. -/
structure Awaits (l : Legacy) (s : Scene) : Prop where
  untouched : ∃ q, s.node.mailbox.sequencer = some q ∧ q.isUntouched = true ∧
    q.epoch ≤ l.change.epoch
  since : ∃ since, s.trace = l.base.trace ++ since ∧
    ∀ e ∈ since, (∀ request token, ¬ e.Gives request token) ∧ ¬ e.Resets

/-- The new sequencer serves. Of the past only some tokens count, and it has their tails. -/
structure Serves (l : Legacy) (s : Scene) : Prop where
  sequencer : ∃ q tails, s.node.mailbox.sequencer = some q ∧ q.epoch = l.change.epoch ∧
    q.lastBootstrap = some (l.change.resetTo tails) ∧ l.Replayed s tails ∧
    l.change.globalTailHint ≤ q.globalTail
  past : ∃ kept since, s.trace = l.base.trace ++ since ∧ kept ⊆ l.base.trace ∧
    (s.withTrace (kept ++ since)).Orderly ∧
    ∀ e ∈ since, ∀ request token, e.Gives request token →
      l.change.globalTailHint ≤ token.first

/-- How far the new sequencer has got. It does not serve before the change was delivered. -/
inductive Stage (l : Legacy) (delivered : Bool) (s : Scene) : Prop
  | hasty (h : l.base.Hasty s)
  | awaits (h : l.Awaits s)
  | serves (h : l.Serves s) (hdelivered : delivered = true)

variable {delivered : Bool}

lemma Stage.trace (h : l.Stage delivered s) : l.base.trace <+: s.trace := by
  cases h with
  | hasty h =>
    obtain ⟨before, e, after, request, token, htrace, -⟩ := h
    exact ⟨before ++ e :: after, by rw [htrace, List.append_assoc]⟩
  | awaits h =>
    obtain ⟨since, htrace, -⟩ := h.since
    exact ⟨since, htrace.symm⟩
  | serves h =>
    obtain ⟨kept, since, htrace, -⟩ := h.past
    exact ⟨since, htrace.symm⟩

/-! ## Waiting for the reset -/

/-- An old token whose entry the head holds. -/
def Written (s : Scene) (e : Event) : Prop :=
  ∃ request token payload, e.Gives request token ∧
    s.slot Chain.head token.first = some (.entry (.forToken token payload))

open Classical in
/-- What counts of the past when the reset takes effect. -/
noncomputable def kept (l : Legacy) (s : Scene) : List Event :=
  l.base.trace.filter fun e => Written s e

lemma mem_kept {e : Event} : e ∈ l.kept s ↔ e ∈ l.base.trace ∧ Written s e := by
  simp [kept]

/-- If no run was given since, then those of the old tokens count whose entries the head holds. -/
lemma granted_kept {since : List Event}
    (hnone : ∀ e ∈ since, ∀ request token, ¬ e.Gives request token) :
    (s'.withTrace (l.kept s ++ since)).Granted request token ↔ l.base.Granted request token ∧
      ∃ payload, s.slot Chain.head token.first = some (.entry (.forToken token payload)) := by
  rw [Scene.granted_iff, Scene.granted_iff]
  constructor
  · rintro ⟨e, hmem, hgives⟩
    rcases List.mem_append.mp hmem with hmem | hmem
    · obtain ⟨hmem, request', token', payload, ⟨⟨_, rfl⟩, -⟩, hslot⟩ := mem_kept.mp hmem
      obtain ⟨⟨_, heq⟩, hcount⟩ := hgives
      cases heq
      exact ⟨⟨_, hmem, ⟨_, rfl⟩, hcount⟩, payload, hslot⟩
    · exact absurd hgives (hnone e hmem request token)
  · rintro ⟨⟨e, hmem, hgives⟩, payload, hslot⟩
    have hwritten : Written s e := ⟨request, token, payload, hgives, hslot⟩
    exact ⟨e, List.mem_append_left _ (mem_kept.mpr ⟨hmem, hwritten⟩), hgives⟩

/-- When the reset takes effect, the new sequencer's ledger is in order if only those of the old
tokens count whose entries the head holds. -/
lemma ledger_of_reset (hsound : s.Sound) (hreplayed : l.Replayed s tails)
    (hglobal : q.globalTail = l.change.globalTailHint)
    (htails : q.streamTails = Sequencer.hintedTails tails)
    (hgranted : ∀ {request token}, s'.Granted request token → l.base.Granted request token ∧
      ∃ payload, s.slot Chain.head token.first = some (.entry (.forToken token payload))) :
    s'.Ledger q := by
  have htail : ∀ stream, q.streamTail stream = tails.at? stream := fun stream => by
    rw [Sequencer.streamTail, htails, Sequencer.getElem?_hintedTails]
  constructor
  case tail_lt =>
    intro stream tail ht
    rw [hglobal]
    exact hreplayed.lt ((htail stream).symm.trans ht)
  case first_lt =>
    intro request token hg
    rw [hglobal]
    exact first_lt (hgranted hg).1
  case covered =>
    -- the entry of the token is one that the replay has seen
    intro request token stream hg hstream
    obtain ⟨hold, payload, hslot⟩ := hgranted hg
    obtain ⟨v, hv, hcommitted⟩ := hreplayed.exists_slot hsound hold
    obtain rfl := Option.some.inj (hv.symm.trans hslot)
    have hnames : s.Names token.first stream := by
      refine ⟨_, hcommitted, ?_⟩
      rw [LogEntry.streams_forToken fun t => l.ledger.mem_backpointers hold]
      exact hstream
    obtain ⟨p, hp, hle⟩ := hreplayed.exists_last (within_iff.mpr (first_lt hold)) hnames
    exact ⟨p, by rw [htail, StreamPositions.at?, hp]; rfl, hle⟩
  case mem_backpointers => exact fun hg => l.ledger.mem_backpointers (hgranted hg).1
  case backpointer_lt => exact fun hg => l.ledger.backpointer_lt (hgranted hg).1
  case le_backpointer =>
    exact fun hg hg' => l.ledger.le_backpointer (hgranted hg).1 (hgranted hg').1

namespace Awaits

/-- While the new sequencer waits, all tokens are old ones. -/
lemma granted (h : l.Awaits s) (hg : s.Granted request token) : l.base.Granted request token := by
  obtain ⟨since, htrace, hsince⟩ := h.since
  obtain ⟨e, hmem, hgives⟩ := Scene.granted_iff.mp hg
  rw [htrace, List.mem_append] at hmem
  rcases hmem with hmem | hmem
  · exact Scene.granted_iff.mpr ⟨e, hmem, hgives⟩
  · exact absurd hgives ((hsince e hmem).1 request token)

/-- The reset takes effect, and from then on the new sequencer serves. -/
lemma reset (h : l.Awaits s) (hsound : s.Sound) (hentered : s.Entered)
    (hreplayed : l.Replayed s tails) {r : Except SequencerError BootstrapOutcome}
    (hacts : s.Acts id (.bootstrap (l.change.resetTo tails)) r s') :
    r = .ok .applied ∧ l.Serves s' := by
  obtain ⟨q, hq, huntouched, hepoch⟩ := h.untouched
  obtain ⟨since, htrace, hsince⟩ := h.since
  have hcopies : s.Copies (.bootstrap (l.change.resetTo tails)) := trivial
  have hsound' : s'.Sound := hsound.of_acts hcopies hacts
  obtain ⟨now, hr, hq'⟩ := hacts.bootstrap_of_some hq
  rw [Sequencer.bootstrap_untouched huntouched hepoch rfl
    (by rw [LayoutChange.resetTo, l.restores.fromStart]; exact Nat.zero_le _)
    (fun stream p hp => hreplayed.lt hp)] at hr hq'
  have hreplayed' := hreplayed.later (.of_acts hacts) hsound'
  refine ⟨hr, ⟨_, tails, hq', rfl, rfl, hreplayed', Nat.le_refl _⟩, ?_⟩
  have hnone : ∀ e ∈ since ++ [⟨id, .bootstrap (l.change.resetTo tails), r⟩],
      ∀ request token, ¬ e.Gives request token := by
    intro e hmem request token hgives
    rcases List.mem_append.mp hmem with hmem | hmem
    · exact (hsince e hmem).1 request token hgives
    · rw [List.mem_singleton.mp hmem] at hgives
      obtain ⟨⟨id', heq⟩, -⟩ := hgives
      cases heq
  have htrace' := hacts.trace_eq
  rw [htrace, List.append_assoc] at htrace'
  refine ⟨l.kept s, _, htrace', fun e hmem => (mem_kept.mp hmem).1,
    ⟨?_, fun {p entry} hentry => ?_⟩,
    fun e hmem request token hgives => absurd hgives (hnone e hmem request token)⟩
  · exact ⟨_, hq', ledger_of_reset hsound hreplayed rfl rfl (granted_kept hnone).mp⟩
  · -- the reset writes nothing, so that the entry was there before
    have hslot : s.slot Chain.head p = some (.entry entry) := by
      rw [← hacts.slot_of_ne (by simp)]
      exact hentry
    obtain ⟨request, token, payload, hg, rfl, rfl⟩ := hentered p entry hslot
    refine ⟨request, token, payload, ?_, rfl, rfl⟩
    exact (granted_kept hnone).mpr ⟨h.granted hg, payload, hslot⟩

/-- Anything but a bootstrap leaves the new sequencer waiting, unless a run is given. -/
lemma of_acts (h : l.Awaits s) (hacts : s.Acts id action answer s')
    (hbootstrap : ∀ request, action ≠ .bootstrap request) : l.base.Hasty s' ∨ l.Awaits s' := by
  obtain ⟨q, hq, huntouched, hepoch⟩ := h.untouched
  obtain ⟨since, htrace, hsince⟩ := h.since
  have htrace' : s'.trace = l.base.trace ++ (since ++ [⟨id, action, answer⟩]) := by
    rw [hacts.trace_eq, htrace, List.append_assoc]
  have hresets : ¬ (⟨id, action, answer⟩ : Event).Resets := by
    rintro ⟨id', request, heq, -⟩
    cases heq
    exact hbootstrap request rfl
  by_cases hgives : ∃ request token, (⟨id, action, answer⟩ : Event).Gives request token
  · obtain ⟨request, token, hgives⟩ := hgives
    exact .inl ⟨since, _, [], request, token, by rw [htrace', List.append_assoc], hgives,
      fun e hmem => (hsince e hmem).2⟩
  · have hsince' : ∀ e ∈ since ++ [⟨id, action, answer⟩],
        (∀ request token, ¬ e.Gives request token) ∧ ¬ e.Resets := by
      intro e hmem
      rcases List.mem_append.mp hmem with hmem | hmem
      · exact hsince e hmem
      · rw [List.mem_singleton.mp hmem]
        exact ⟨fun request token h => hgives ⟨request, token, h⟩, hresets⟩
    refine .inr ⟨?_, _, htrace', hsince'⟩
    by_cases hallocate : ∃ request, action = .allocate request
    · obtain ⟨request, rfl⟩ := hallocate
      obtain ⟨q', hq', hallocated⟩ := hacts.allocated hq
      refine ⟨q', hq', ?_⟩
      cases hallocated with
      | stale | tooMany | queried | overflow => exact ⟨huntouched, hepoch⟩
      | granted _ hcount => exact absurd ⟨_, _, ⟨_, rfl⟩, hcount⟩ hgives
    · refine ⟨q, ?_, huntouched, hepoch⟩
      rw [hacts.mailbox ?_, hq]
      cases action with
      | allocate request => exact absurd ⟨request, rfl⟩ hallocate
      | bootstrap request => exact absurd rfl (hbootstrap request)
      | _ => rfl

lemma of_calm (h : l.Awaits s) (hcalm : s.Calm s') : l.Awaits s' where
  untouched := by
    rw [hcalm.mailbox]
    exact h.untouched
  since := by
    rw [hcalm.trace]
    exact h.since

end Awaits

/-! ## After the reset -/

namespace Serves

/-- Among the tokens that count, entries come to the head as they do among all. -/
lemma enters_withTrace (h : l.Serves s) (hsound : s.Sound) {kept since : List Event}
    (htrace : s.trace = l.base.trace ++ since) (henters : s.Enters action) :
    (s.withTrace (kept ++ since)).Enters action := by
  obtain ⟨q, tails, -, -, -, hreplayed, -⟩ := h.sequencer
  cases action with
  | onUnit call =>
    match call with
    | .write 0 p (.entry entry) =>
      intro hfree
      obtain ⟨request, token, payload, hg, rfl, rfl⟩ := henters hfree
      obtain ⟨e, hmem, hgives⟩ := Scene.granted_iff.mp hg
      rw [htrace, List.mem_append] at hmem
      rcases hmem with hmem | hmem
      · -- the position of an old token is taken
        obtain ⟨v, hv, -⟩ :=
          hreplayed.exists_slot hsound (Scene.granted_iff.mpr ⟨e, hmem, hgives⟩)
        cases hv.symm.trans hfree
      · exact ⟨request, token, payload,
          Scene.granted_iff.mpr ⟨e, List.mem_append_right _ hmem, hgives⟩, rfl, rfl⟩
    | .write 0 p .hole | .write (i + 1) p data | .peek i p => trivial
  | _ => trivial

/-- The same reset again changes nothing. -/
lemma bootstrap (h : l.Serves s) (hreplayed : l.Replayed s tails)
    {r : Except SequencerError BootstrapOutcome}
    (hacts : s.Acts id (.bootstrap (l.change.resetTo tails)) r s') :
    r = .ok .alreadyApplied ∧ s'.node.mailbox.sequencer = s.node.mailbox.sequencer := by
  obtain ⟨q, tails₀, hq, hepoch, hlast, hreplayed₀, -⟩ := h.sequencer
  obtain rfl := hreplayed.unique hreplayed₀
  obtain ⟨now, hr, hq'⟩ := hacts.bootstrap_of_some hq
  rw [Sequencer.bootstrap_again hepoch.symm hlast] at hr hq'
  exact ⟨hr, hq'.trans hq.symm⟩

/-- The state of the new sequencer after an action. -/
lemma sequencer_of_acts (h : l.Serves s) (hsound' : s'.Sound)
    (hallows : ∀ request, action = .bootstrap request →
      ∃ tails, request = l.change.resetTo tails ∧ l.Replayed s tails)
    (hacts : s.Acts id action answer s') :
    ∃ q tails, s'.node.mailbox.sequencer = some q ∧ q.epoch = l.change.epoch ∧
      q.lastBootstrap = some (l.change.resetTo tails) ∧ l.Replayed s' tails ∧
      l.change.globalTailHint ≤ q.globalTail := by
  obtain ⟨q, tails, hq, hepoch, hlast, hreplayed, hle⟩ := h.sequencer
  have hreplayed' := hreplayed.later (.of_acts hacts) hsound'
  cases action with
  | allocate request =>
    obtain ⟨q', hq', hallocated⟩ := hacts.allocated hq
    obtain ⟨hepoch', hlast', hle'⟩ := hallocated.frame
    exact ⟨q', tails, hq', hepoch'.trans hepoch, hlast'.trans hlast, hreplayed',
      Nat.le_trans hle hle'⟩
  | bootstrap request =>
    obtain ⟨tails', rfl, hagain⟩ := hallows request rfl
    exact ⟨q, tails, (h.bootstrap hagain hacts).2.trans hq, hepoch, hlast, hreplayed', hle⟩
  | onUnit | knownEpoch | observeEpoch =>
    exact ⟨q, tails, (hacts.mailbox rfl ▸ hq), hepoch, hlast, hreplayed', hle⟩

/-- A run that is given now begins behind all that the lost sequencer gave. -/
lemma le_first (h : l.Serves s) (hacts : s.Acts id action answer s')
    (hgives : (⟨id, action, answer⟩ : Event).Gives request token) :
    l.change.globalTailHint ≤ token.first := by
  obtain ⟨q, tails, hq, -, -, -, hle⟩ := h.sequencer
  obtain ⟨⟨id', heq⟩, hcount⟩ := hgives
  cases heq
  obtain ⟨q', -, hallocated⟩ := hacts.allocated hq
  cases hallocated with
  | queried _ hquery => exact absurd hquery hcount
  | granted => exact hle

/-- The new sequencer goes on serving. -/
lemma of_acts (h : l.Serves s) (hsound : s.Sound) (hsound' : s'.Sound) (henters : s.Enters action)
    (hallows : ∀ request, action = .bootstrap request →
      ∃ tails, request = l.change.resetTo tails ∧ l.Replayed s tails)
    (hacts : s.Acts id action answer s') : l.Serves s' := by
  obtain ⟨kept, since, htrace, hkept, horderly, hnew⟩ := h.past
  have hacts' := hacts.withTrace (kept ++ since)
  have hentered := horderly.entered.of_acts (h.enters_withTrace hsound htrace henters) hacts'
  let scene := s'.withTrace (kept ++ since ++ [⟨id, action, answer⟩])
  have hledger : ∃ q, scene.node.mailbox.sequencer = some q ∧ scene.Ledger q := by
    by_cases hbootstrap : ∃ request, action = .bootstrap request
    · -- the reset has taken effect before, so that nothing changes
      obtain ⟨request, rfl⟩ := hbootstrap
      obtain ⟨tails, rfl, hagain⟩ := hallows request rfl
      obtain ⟨q, hq, hledger⟩ := horderly.ledger
      refine ⟨q, (h.bootstrap hagain hacts).2.trans hq, hledger.keep (fun hg => ?_) rfl rfl⟩
      refine (Scene.Orderly.granted_of_acts hacts' hg).resolve_right fun hnow => ?_
      cases hnow.2
    · exact horderly.ledger_of_acts (fun request heq => absurd ⟨request, heq⟩ hbootstrap) hacts'
  have horderly' : scene.Orderly := ⟨hledger, hentered⟩
  dsimp only [scene] at horderly'
  rw [List.append_assoc] at horderly'
  refine ⟨h.sequencer_of_acts hsound' hallows hacts, kept, since ++ [⟨id, action, answer⟩],
    by rw [hacts.trace_eq, htrace, List.append_assoc], hkept, horderly', ?_⟩
  intro e hmem request token hgives
  rcases List.mem_append.mp hmem with hmem | hmem
  · exact hnew e hmem request token hgives
  · rw [List.mem_singleton.mp hmem] at hgives
    exact h.le_first hacts hgives

lemma of_calm (h : l.Serves s) (hsound' : s'.Sound) (hcalm : s.Calm s') : l.Serves s' where
  sequencer := by
    obtain ⟨q, tails, hq, hepoch, hlast, hreplayed, hle⟩ := h.sequencer
    exact ⟨q, tails, hcalm.mailbox ▸ hq, hepoch, hlast, hreplayed.later (.of_calm hcalm) hsound',
      hle⟩
  past := by
    obtain ⟨kept, since, htrace, hkept, horderly, hnew⟩ := h.past
    exact ⟨kept, since, hcalm.trace.trans htrace, hkept, horderly.of_calm (hcalm.withTrace _), hnew⟩

/-- With the past reduced to the tokens that count, the scene is as sound as before. -/
lemma exists_orderly (h : l.Serves s) (hsound : s.Sound) :
    ∃ trace, (s.withTrace trace).Orderly ∧ (s.withTrace trace).Sound := by
  obtain ⟨kept, since, htrace, hkept, horderly, -⟩ := h.past
  have hsubset : kept ++ since ⊆ s.trace := by
    rw [htrace]
    exact List.append_subset.mpr ⟨List.subset_append_of_subset_left _ hkept,
      List.subset_append_right _ _⟩
  exact ⟨_, horderly, hsound.names, hsound.headward, fun hv => hsound.accepted (hsubset hv),
    fun hv hv' => hsound.accepted_once (hsubset hv) (hsubset hv')⟩

end Serves

/-! ## The law -/

/-- The sequencer is bootstrapped by the change of layout alone, once it was delivered. -/
def Bootstraps (l : Legacy) (delivered : Bool) (s : Scene) (action : Action) : Prop :=
  ∀ request, action = .bootstrap request → delivered = true ∧
    ∃ tails, request = l.change.resetTo tails ∧ l.Replayed s tails

lemma Stage.of_acts (h : l.Stage delivered s) (hsound : s.Sound) (hsound' : s'.Sound)
    (hentered : s.Entered) (henters : s.Enters action) (hallows : l.Bootstraps delivered s action)
    (hacts : s.Acts id action answer s') : l.Stage delivered s' := by
  cases h with
  | hasty h => exact .hasty (h.later (.of_acts hacts))
  | serves h hdelivered =>
    exact .serves (h.of_acts hsound hsound' henters (fun request heq => (hallows request heq).2)
      hacts) hdelivered
  | awaits h =>
    by_cases hbootstrap : ∃ request, action = .bootstrap request
    · obtain ⟨request, rfl⟩ := hbootstrap
      obtain ⟨hdelivered, tails, rfl, hreplayed⟩ := hallows request rfl
      exact .serves (h.reset hsound hentered hreplayed hacts).2 hdelivered
    · rcases h.of_acts hacts fun request heq => hbootstrap ⟨request, heq⟩ with h | h
      · exact .hasty h
      · exact .awaits h

lemma Stage.of_calm (h : l.Stage delivered s) (hsound' : s'.Sound) (hcalm : s.Calm s') :
    l.Stage delivered s' := by
  cases h with
  | hasty h => exact .hasty (h.later (.of_calm hcalm))
  | awaits h => exact .awaits (h.of_calm hcalm)
  | serves h hdelivered => exact .serves (h.of_calm hsound' hcalm) hdelivered

/-- Old clients write the entries of their tokens and ask for new ones, and the new sequencer is
bootstrapped by the change of layout alone. -/
def law (l : Legacy) (delivered : Bool) (rounds : Option Nat) : Law where
  holds s := s.Sound ∧ s.Entered ∧ l.Stage delivered s
  later s s' := s.Grows s' ∧ (l.Serves s → l.Serves s')
  allows action s := s.Copies action ∧ s.Enters action ∧ l.Bootstraps delivered s action
  heeds _ _ := True
  rounds
  later_refl s := ⟨.refl s, fun h => h⟩
  later_trans h h' := ⟨h.1.trans h'.1, fun hs => h'.2 (h.2 hs)⟩
  act_keeps h hallows hacts := by
    obtain ⟨hsound, hentered, hstage⟩ := h
    obtain ⟨hcopies, henters, hbootstrap⟩ := hallows
    have hsound' := hsound.of_acts hcopies hacts
    exact ⟨⟨.of_acts hacts, fun h => h.of_acts hsound hsound' henters
        (fun request heq => (hbootstrap request heq).2) hacts⟩, hsound',
      hentered.of_acts henters hacts,
      hstage.of_acts hsound hsound' hentered henters hbootstrap hacts⟩
  calm_keeps h hcalm := by
    obtain ⟨hsound, hentered, hstage⟩ := h
    have hsound' := hsound.of_calm hcalm
    exact ⟨⟨.of_calm hcalm, fun h => h.of_calm hsound' hcalm⟩, hsound', hentered.of_calm hcalm,
      hstage.of_calm hsound' hcalm⟩

lemma law_unconditional : (l.law delivered none).Unconditional := ⟨fun _ _ => trivial, rfl⟩

end Legacy

/-- The jobs that are started when a sequencer has been lost: those of clients and readers, and
writes of entries of tokens that the sequencer had given. -/
def Job.Following (base : Scene) : Job → Prop
  | .write p entry => base.OfToken p entry
  | .bootstrap _ | .layout _ => False
  | _ => True

namespace Legacy

variable {l : Legacy} {delivered : Bool} {rounds : Option Nat}

lemma law_clientlike : (l.law delivered rounds).Clientlike where
  sound h := h.1
  grows h := h.1
  allows_peek _ _ _ := ⟨trivial, trivial, nofun⟩
  allows_hole _ _ := ⟨trivial, trivial, nofun⟩
  allows_copy _ hslot := ⟨hslot, trivial, nofun⟩
  allows_allocate _ _ := ⟨trivial, trivial, nofun⟩
  allows_knownEpoch _ _ := ⟨trivial, trivial, nofun⟩
  allows_observeEpoch _ _ _ := ⟨trivial, trivial, nofun⟩
  allows_append payload _ hmem hcount :=
    ⟨trivial, fun _ => ⟨_, _, payload, ⟨⟨_, hmem⟩, hcount⟩, rfl, rfl⟩, nofun⟩

lemma law_permits : (l.law delivered none).Permits (Job.Following l.base) where
  toClientlike := law_clientlike
  rounds := rfl
  write hjob h := by
    refine ⟨trivial, fun _ => ?_, nofun⟩
    obtain ⟨request, token, payload, ⟨⟨id, hmem⟩, hcount⟩, hrest⟩ := hjob
    exact ⟨request, token, payload, ⟨⟨id, h.2.2.trace.subset hmem⟩, hcount⟩, hrest⟩
  bootstrap h _ := h.elim
  layout h _ _ := h.elim

end Legacy

end SharedLog
