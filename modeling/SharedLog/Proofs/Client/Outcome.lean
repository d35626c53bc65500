/-
# Appends that nobody disturbs

What an append comes to that runs alone is settled beforehand: by how many positions from the
sequencer's tail on the head holds already, by whether the client has to learn the sequencer's epoch
first, and by how many attempts it may make. Every attempt at a held position burns that position,
and the tails of its streams move on to it. An attempt under an old epoch burns nothing.
-/
import SharedLog.Proofs.Chain.Propagation
import SharedLog.Proofs.Client.Reach
import Mathlib.Data.Nat.Find
import Mathlib.Order.Bounds.Basic

namespace SharedLog

variable {s s' base : Scene} {id : Nat} {p : Position} {c : Client} {q q' : Sequencer}
  {streams : StreamSet} {payload : List UInt8} {epoch known : Epoch} {n k : Nat}

/-! ## Positions handed out one by one -/

/-- A sequencer after some positions were handed out, one by one and all of them to the same
streams. -/
structure Sequencer.HandedOut (q : Sequencer) (streams : StreamSet) (n : Nat) (q' : Sequencer) :
    Prop where
  epoch : q'.epoch = q.epoch
  maxTokens : q'.maxTokens = q.maxTokens
  globalTail : q'.globalTail.val = q.globalTail.val + n
  /-- The last one of them is the tail of the streams. -/
  streamTail : ∀ t, q'.streamTail t =
    if t ∈ streams ∧ 0 < n then Position.ofNat? (q.globalTail.val + n - 1) else q.streamTail t

namespace Sequencer.HandedOut

lemma refl (q : Sequencer) (streams : StreamSet) : q.HandedOut streams 0 q :=
  ⟨rfl, rfl, rfl, fun t => by simp⟩

/-- A request for one position more. -/
lemma next (h : q.HandedOut streams n q') (hepoch : q.epoch ≤ epoch) (hgrants : 0 < q.maxTokens)
    (hroom : q.globalTail.val + n + 1 < Position.bound) :
    (q'.allocate ⟨epoch, 1, streams⟩).1 =
        .ok ⟨q.epoch, q'.globalTail, 1, q'.tailsOf streams⟩ ∧
      q.HandedOut streams (n + 1) (q'.allocate ⟨epoch, 1, streams⟩).2 := by
  obtain ⟨tail, htail, heq⟩ := Sequencer.allocate_granted (q := q') ⟨epoch, 1, streams⟩ rfl
    (h.epoch ▸ hepoch) (h.maxTokens ▸ hgrants) (by rw [h.globalTail]; exact hroom)
  have hglobal := h.globalTail
  rw [heq]
  refine ⟨by rw [h.epoch], h.epoch, h.maxTokens, ?_, fun t => ?_⟩
  · exact htail.trans (by omega)
  · rw [Sequencer.streamTail_grant]
    by_cases ht : t ∈ streams
    · rw [if_pos ht, if_pos ⟨ht, Nat.succ_pos n⟩]
      exact (Position.ofNat?_eq_some_iff.mpr hglobal).symm
    · rw [if_neg ht, if_neg fun hand => ht hand.1, h.streamTail, if_neg fun hand => ht hand.1]

/-- A request under an old epoch. -/
lemma stale (h : q.HandedOut streams n q') (hepoch : epoch < q.epoch) :
    (q'.allocate ⟨epoch, 1, streams⟩).1 = .error (.staleEpoch epoch q.epoch) ∧
      q.HandedOut streams n (q'.allocate ⟨epoch, 1, streams⟩).2 := by
  have hstale : epoch < q'.epoch := h.epoch ▸ hepoch
  have heq : q'.allocate ⟨epoch, 1, streams⟩ = q'.refuseStale epoch := if_pos hstale
  rw [heq, ← h.epoch]
  exact ⟨rfl, h.epoch, h.maxTokens, h.globalTail, h.streamTail⟩

end Sequencer.HandedOut

/-! ## Positions that are free -/

/-- From a position on, the head holds `k` positions without a gap. The one after them it does not
hold, or there is none. -/
def Scene.FirstFree (s : Scene) (start : Position) (k : Nat) : Prop :=
  IsLeast {k | ∀ p : Position, p.val = start.val + k → s.slot Chain.head p = none} k

/-- There are only so many positions. -/
lemma Scene.exists_firstFree (s : Scene) (p : Position) : ∃ k, s.FirstFree p k := by
  classical
  have hend : ∃ k, ∀ q : Position, q.val = p.val + k → s.slot Chain.head q = none :=
    ⟨Position.bound, fun q hq => by
      have := q.isLt
      omega⟩
  exact ⟨Nat.find hend, Nat.find_spec hend, fun _ hk => Nat.find_min' hend hk⟩

/-! ## An append under way -/

namespace Client

/-- An append that has asked for `n` positions in vain. The client knows the given epoch, and units
hold what they held in the beginning. -/
structure Trying (base : Scene) (c : Client) (q : Sequencer) (streams : StreamSet) (epoch : Epoch)
    (n : Nat) (s : Scene) : Prop where
  sequencer : ∃ q', s.node.mailbox.sequencer = some q' ∧ q.HandedOut streams n q'
  known : s.node.epochs[c.index]? = some epoch
  chain : s.node.chain = base.node.chain
  labels : s.node.units.map (fun u => (u.name, u.offline)) =
    base.node.units.map fun u => (u.name, u.offline)
  slots : base.SameSlots s

/-- An append that has taken the position after `k` others. -/
structure Taken (base : Scene) (c : Client) (q : Sequencer) (streams : StreamSet)
    (payload : List UInt8) (epoch : Epoch) (k : Nat) (r : Except ServerError Position)
    (s : Scene) : Prop where
  sequencer : ∃ q', s.node.mailbox.sequencer = some q' ∧ q.HandedOut streams (k + 1) q'
  known : s.node.epochs[c.index]? = some epoch
  slots : ∀ i p v, base.slot i p = some v → s.slot i p = some v
  entry : ∃ p entry, p.val = q.globalTail.val + k ∧ r = .ok p ∧ s.Committed p (.entry entry) ∧
    entry.payload = payload ∧ entry.streams = streams ∧ ∀ t ∈ streams, entry.backpointer t =
      if 0 < k then Position.ofNat? (q.globalTail.val + k - 1) else q.streamTail t

/-- An append that was refused all positions it asked for, `n` of them. -/
def Refused (base : Scene) (c : Client) (q : Sequencer) (streams : StreamSet) (epoch : Epoch)
    (n : Nat) (r : Except ServerError Position) (s : Scene) : Prop :=
  Trying base c q streams epoch n s ∧
    ∃ p, p.val + 1 = q.globalTail.val + n ∧ r = .error (.replication (.writeConflict p))

namespace Trying

/-- A request to the sequencer, and the epoch that it tells of. -/
lemma of_request (h : Trying base c q streams known n s) {request : TokenRequest}
    {r : Except SequencerError Token} {s₁ s₂ : Scene} (hq : s.node.mailbox.sequencer = some q')
    (hacts₁ : s.Acts id (.allocate request) r s₁) {u : Unit}
    (hacts₂ : s₁.Acts id (.observeEpoch c.index epoch) u s₂) {m : Nat}
    (hout : q.HandedOut streams m (q'.allocate request).2) :
    Trying base c q streams (max known epoch) m s₂ where
  sequencer := by
    refine ⟨_, ?_, hout⟩
    rw [hacts₂.mailbox rfl]
    exact (hacts₁.allocate_of_some hq).2
  known := by
    rw [hacts₂.observeEpoch, hacts₁.epochs_of_ne (by simp), List.getElem?_modify, h.known]
    simp
  chain := hacts₂.chain.trans (hacts₁.chain.trans h.chain)
  labels := hacts₂.labels.trans (hacts₁.labels.trans h.labels)
  slots i p := (hacts₂.slot_of_ne (by simp)).trans
    ((hacts₁.slot_of_ne (by simp)).trans (h.slots i p))

end Trying

/-- A token under the client's epoch, which is not older than the sequencer's. -/
lemma requestToken_granted (h : Trying base c q streams known n s) (hgrants : 0 < q.maxTokens)
    (hknown : q.epoch ≤ known) (hroom : q.globalTail.val + n + 1 < Position.bound) :
    NodeProgram.Alone id (fun r s' => ∃ q' : Sequencer, q.HandedOut streams n q' ∧
        r = .ok ⟨q.epoch, q'.globalTail, 1, q'.tailsOf streams⟩ ∧
        Trying base c q streams known (n + 1) s') (c.requestToken ⟨known, 1, streams⟩) s := by
  obtain ⟨q', hq', hout⟩ := h.sequencer
  obtain ⟨hanswer, hout'⟩ := hout.next hknown hgrants hroom
  have hmax : max known q.epoch = known := by
    ext
    rw [Epoch.val_max]
    exact Nat.max_eq_left hknown
  refine NodeProgram.alone_bind fun answer s₁ hacts₁ => ?_
  obtain ⟨rfl, -⟩ := hacts₁.allocate_of_some hq'
  rw [hanswer]
  refine NodeProgram.alone_bind fun _ s₂ hacts₂ => ⟨q', hout, rfl, ?_⟩
  rw [← hmax]
  exact h.of_request hq' hacts₁ hacts₂ hout'

/-- A client with an old epoch learns the sequencer's. -/
lemma requestToken_stale (h : Trying base c q streams known n s) (hknown : known < q.epoch) :
    NodeProgram.Alone id (fun r s' => r = .error (.sequencer (.staleEpoch known q.epoch)) ∧
        Trying base c q streams q.epoch n s') (c.requestToken ⟨known, 1, streams⟩) s := by
  obtain ⟨q', hq', hout⟩ := h.sequencer
  obtain ⟨hanswer, hout'⟩ := hout.stale hknown
  have hmax : max known q.epoch = q.epoch := by
    ext
    rw [Epoch.val_max]
    exact Nat.max_eq_right (Nat.le_of_lt hknown)
  refine NodeProgram.alone_bind fun answer s₁ hacts₁ => ?_
  obtain ⟨rfl, -⟩ := hacts₁.allocate_of_some hq'
  rw [hanswer]
  refine NodeProgram.alone_bind fun _ s₂ hacts₂ => ⟨rfl, ?_⟩
  exact hmax ▸ h.of_request hq' hacts₁ hacts₂ hout'

/-! ## One attempt -/

/-- An attempt begins with the epoch that the client knows. -/
lemma tryAppend_knowing {post : Except ServerError Position → Scene → Prop} {chain : Chain}
    (h : Trying base c q streams known n s)
    (hnext : ∀ s₁, Trying base c q streams known n s₁ →
      NodeProgram.Alone id post ((c.requestToken ⟨known, 1, streams⟩).andThen fun token =>
        (NodeProgram.onChain (chain.write token.first (.forToken token payload))).andThen fun () =>
          .done (.ok token.first)) s₁) :
    NodeProgram.Alone id post (c.tryAppend chain streams payload) s := by
  refine NodeProgram.alone_bind fun epoch s₁ hacts => ?_
  obtain rfl : epoch = known := by
    rw [hacts.knownEpoch, List.getD_eq_getElem?_getD, h.known]
    rfl
  obtain ⟨now, -, hnode⟩ := hacts.node_eq
  refine hnext s₁ ⟨?_, ?_, ?_, ?_, fun i p => (hacts.slot_of_ne (by simp)).trans (h.slots i p)⟩
  · exact hnode ▸ h.sequencer
  · exact hnode ▸ h.known
  · exact hnode ▸ h.chain
  · exact hnode ▸ h.labels

/-- An attempt under an old epoch comes to nothing but the sequencer's epoch. -/
lemma tryAppend_stale {chain : Chain} (h : Trying base c q streams known n s)
    (hknown : known < q.epoch) :
    NodeProgram.Alone id (fun r s' => r = .error (.sequencer (.staleEpoch known q.epoch)) ∧
        Trying base c q streams q.epoch n s') (c.tryAppend chain streams payload) s := by
  refine tryAppend_knowing h fun s₁ h₁ =>
    NodeProgram.alone_bind ((requestToken_stale h₁ hknown).mono ?_)
  rintro r s₂ ⟨rfl, h₂⟩
  exact ⟨rfl, h₂⟩

/-- The head of a chain whose units are as they were in the beginning. -/
lemma Trying.exists_head (h : Trying base c q streams known n s) (hsound : base.Sound)
    (honline : ∀ unit ∈ base.node.units, unit.offline = false) (p : Position) :
    s.node.units.map (·.name) = base.node.chain.names ∧
      ∃ unit, s.node.units[Chain.head]? = some unit ∧ unit.offline = false ∧
        unit.slots[p]? = base.slot Chain.head p := by
  have hlength : s.node.units.length = base.node.units.length := by
    simpa using congrArg List.length h.labels
  have hpos : Chain.head < s.node.units.length := hlength ▸ hsound.length_pos
  refine ⟨?_, _, List.getElem?_eq_getElem hpos,
    World.online_of_labels honline h.labels _ (List.getElem_mem hpos), ?_⟩
  · rw [← hsound.names]
    simpa [List.map_map, Function.comp_def] using congrArg (List.map Prod.fst) h.labels
  · rw [← h.slots, Scene.slot, List.getElem?_eq_getElem hpos]
    rfl

/-- An attempt at a position that the head holds burns it. -/
lemma tryAppend_held (h : Trying base c q streams known n s) (hsound : base.Sound)
    (honline : ∀ unit ∈ base.node.units, unit.offline = false) (hgrants : 0 < q.maxTokens)
    (hknown : q.epoch ≤ known) (hroom : q.globalTail.val + n + 1 < Position.bound)
    (hheld : ¬ ∀ p : Position, p.val = q.globalTail.val + n → base.slot Chain.head p = none) :
    NodeProgram.Alone id (Refused base c q streams known (n + 1))
      (c.tryAppend base.node.chain streams payload) s := by
  refine tryAppend_knowing h fun s₁ h₁ =>
    NodeProgram.alone_bind ((requestToken_granted h₁ hgrants hknown hroom).mono ?_)
  rintro r s₂ ⟨q', hout, rfl, h₂⟩
  obtain ⟨hnames, unit, hunit, honline', hslot⟩ := h₂.exists_head hsound honline q'.globalTail
  obtain ⟨v, hv⟩ : ∃ v, unit.slots[q'.globalTail]? = some v := by
    rw [hslot]
    refine Option.ne_none_iff_exists'.mp fun hnone => hheld fun p hp => ?_
    obtain rfl : p = q'.globalTail := Position.ext (hp.trans hout.globalTail.symm)
    exact hnone
  refine NodeProgram.alone_bind (NodeProgram.alone_onChain
    ((Chain.write_of_head_held hunit honline' hv).mono ?_))
  rintro r s₃ ⟨rfl, hslots, honly⟩
  refine ⟨⟨honly.mailbox ▸ h₂.sequencer, honly.epochs ▸ h₂.known, honly.chain.trans h₂.chain,
    honly.labels.trans h₂.labels, fun i p => (hslots i p).trans (h₂.slots i p)⟩,
    q'.globalTail, ?_, rfl⟩
  rw [hout.globalTail]
  omega

/-- An attempt at a position that the head does not hold takes it. -/
lemma tryAppend_free (h : Trying base c q streams known n s) (hsound : base.Sound)
    (honline : ∀ unit ∈ base.node.units, unit.offline = false) (hgrants : 0 < q.maxTokens)
    (hknown : q.epoch ≤ known) (hroom : q.globalTail.val + n + 1 < Position.bound)
    (hfree : ∀ p : Position, p.val = q.globalTail.val + n → base.slot Chain.head p = none) :
    NodeProgram.Alone id (Taken base c q streams payload known n)
      (c.tryAppend base.node.chain streams payload) s := by
  refine tryAppend_knowing h fun s₁ h₁ =>
    NodeProgram.alone_bind ((requestToken_granted h₁ hgrants hknown hroom).mono ?_)
  rintro r s₂ ⟨q', hout, rfl, h₂⟩
  obtain ⟨hnames, unit, hunit, honline', hslot⟩ := h₂.exists_head hsound honline q'.globalTail
  have hempty : base.slot Chain.head q'.globalTail = none := hfree _ hout.globalTail
  refine NodeProgram.alone_bind (NodeProgram.alone_onChain
    ((Chain.write_settles hnames hunit honline' (hslot.trans hempty)).mono ?_))
  intro r s₃ hsettles
  -- where the head holds nothing no unit does, so none resists
  have hnone : ∀ i, base.slot i q'.globalTail = none := by
    intro i
    cases hslot : base.slot i q'.globalTail with
    | none => rfl
    | some v => cases hempty.symm.trans (hsound.headward (Nat.zero_le i) hslot)
  obtain ⟨rfl, hcommitted⟩ := hsettles.through fun i u _ hu => by
    refine LogUnit.not_resists_iff.mpr
      ⟨World.online_of_labels honline h₂.labels u (List.mem_of_getElem? hu), .inl ?_⟩
    have hslot : s₂.slot i q'.globalTail = none := (h₂.slots ..).trans (hnone i)
    rwa [Scene.slot, hu, Option.bind_some] at hslot
  have honly := hsettles.only
  refine ⟨honly.mailbox ▸ h₂.sequencer, honly.epochs ▸ h₂.known, fun i p v hv => ?_,
    q'.globalTail, _, hout.globalTail, rfl, hcommitted, rfl,
    LogEntry.streams_forToken fun t => Sequencer.mem_tailsOf, fun t ht => ?_⟩
  · by_cases hp : p = q'.globalTail
    · subst hp
      cases (hnone i).symm.trans hv
    · rw [honly.slot p hp, h₂.slots, hv]
  · change (q'.tailsOf streams).at? t = _
    rw [Sequencer.at?_tailsOf, if_pos ht, hout.streamTail]
    simp only [ht, true_and]

/-! ## All attempts -/

/-- A client whose epoch is not old goes from position to position, up to the first one that is free
or until it has made all its attempts. -/
lemma appendAttempts_alone {more : Nat} (h : Trying base c q streams known n s)
    (hsound : base.Sound) (honline : ∀ unit ∈ base.node.units, unit.offline = false)
    (hgrants : 0 < q.maxTokens) (hknown : q.epoch ≤ known)
    (hroom : q.globalTail.val + n + more + 1 < Position.bound)
    (hk : base.FirstFree q.globalTail k) (hn : n ≤ k) :
    NodeProgram.Alone id (fun r s' =>
        if k ≤ n + more then Taken base c q streams payload known k r s'
        else Refused base c q streams known (n + more + 1) r s')
      (c.appendAttempts base.node.chain streams payload more) s := by
  induction more generalizing n s with
  | zero =>
    rcases Nat.eq_or_lt_of_le hn with rfl | hlt
    · simp only [Nat.add_zero, Nat.le_refl, if_true]
      exact tryAppend_free h hsound honline hgrants hknown (by omega) hk.1
    · simp only [Nat.add_zero, if_neg (Nat.not_le.mpr hlt)]
      exact tryAppend_held h hsound honline hgrants hknown (by omega)
        fun hfree => absurd (hk.2 hfree) (Nat.not_le.mpr hlt)
  | succ more ih =>
    rcases Nat.eq_or_lt_of_le hn with rfl | hlt
    · simp only [if_pos (Nat.le_add_right n (more + 1))]
      have htry : NodeProgram.Alone id (Taken base c q streams payload known n)
          (c.tryAppend base.node.chain streams payload) s :=
        tryAppend_free h hsound honline hgrants hknown (by omega) hk.1
      refine NodeProgram.alone_bind (htry.mono fun r s' htaken => ?_)
      obtain ⟨p, entry, -, rfl, -⟩ := htaken.entry
      exact htaken
    · refine NodeProgram.alone_bind ((tryAppend_held h hsound honline hgrants hknown (by omega)
        fun hfree => absurd (hk.2 hfree) (Nat.not_le.mpr hlt)).mono ?_)
      rintro r s' ⟨htrying, p, -, rfl⟩
      refine (ih htrying (by omega) hlt).mono fun r s'' hr => ?_
      rwa [show n + 1 + more = n + (more + 1) by omega] at hr

/-! ## The append -/

/-- What an append comes to that may make `limit` attempts while the head holds `k` positions in
front of the first free one. The client knew the epoch `known`. -/
def ComesTo (base : Scene) (c : Client) (q : Sequencer) (streams : StreamSet)
    (payload : List UInt8) (known : Epoch) (k limit : Nat) (r : Except ServerError Position)
    (s : Scene) : Prop :=
  let stale := if known < q.epoch then 1 else 0
  (∀ i p v, base.slot i p = some v → s.slot i p = some v) ∧
  s.node.epochs[c.index]? = some (max known q.epoch) ∧
  ∃ q', s.node.mailbox.sequencer = some q' ∧
    if stale + k + 1 ≤ limit then
      q.HandedOut streams (k + 1) q' ∧
      ∃ p entry, p.val = q.globalTail.val + k ∧ r = .ok p ∧ s.Committed p (.entry entry) ∧
        entry.payload = payload ∧ entry.streams = streams ∧ ∀ t ∈ streams, entry.backpointer t =
          if 0 < k then Position.ofNat? (q.globalTail.val + k - 1) else q.streamTail t
    else if stale = 1 ∧ limit = 1 then
      q.HandedOut streams 0 q' ∧ r = .error (.sequencer (.staleEpoch known q.epoch))
    else
      q.HandedOut streams (limit - stale) q' ∧
      ∃ p, p.val = q.globalTail.val + limit - stale - 1 ∧
        r = .error (.replication (.writeConflict p))

variable {limit : Nat} {r : Except ServerError Position}

lemma Taken.comesTo (h : Taken base c q streams payload (max known q.epoch) k r s)
    (hlimit : (if known < q.epoch then 1 else 0) + k + 1 ≤ limit) :
    ComesTo base c q streams payload known k limit r s := by
  obtain ⟨q', hq', hout⟩ := h.sequencer
  refine ⟨h.slots, h.known, q', hq', ?_⟩
  rw [if_pos hlimit]
  exact ⟨hout, h.entry⟩

lemma Refused.comesTo (h : Refused base c q streams (max known q.epoch) n r s)
    (hlimit : n + (if known < q.epoch then 1 else 0) = limit) (hn : 0 < n) (hk : n ≤ k) :
    ComesTo base c q streams payload known k limit r s := by
  obtain ⟨htrying, p, hp, rfl⟩ := h
  obtain ⟨q', hq', hout⟩ := htrying.sequencer
  refine ⟨fun i p v hv => (htrying.slots i p).trans hv, htrying.known, q', hq', ?_⟩
  subst hlimit
  rw [if_neg (by omega), if_neg (by omega), Nat.add_sub_cancel]
  exact ⟨hout, p, by omega, rfl⟩

/-- The attempts of a client, the first of which may be made under an old epoch. -/
lemma append_alone (h : Trying base c q streams known 0 s) (hsound : base.Sound)
    (honline : ∀ unit ∈ base.node.units, unit.offline = false) (hgrants : 0 < q.maxTokens)
    (hlimit : limit = max 1 c.maxAppendAttempts.toNat)
    (hroom : q.globalTail.val + limit < Position.bound) (hk : base.FirstFree q.globalTail k) :
    NodeProgram.Alone id (ComesTo base c q streams payload known k limit)
      (c.append base.node.chain streams payload) s := by
  obtain ⟨more, hmore⟩ : ∃ more, c.maxAppendAttempts.toNat - 1 = more := ⟨_, rfl⟩
  obtain rfl : limit = more + 1 := by omega
  rw [append, hmore]
  by_cases hknown : known < q.epoch
  · have hmax : q.epoch = max known q.epoch := by
      ext
      rw [Epoch.val_max]
      exact (Nat.max_eq_right (Nat.le_of_lt hknown)).symm
    have hstale : NodeProgram.Alone id (fun r s' =>
        r = .error (.sequencer (.staleEpoch known q.epoch)) ∧ Trying base c q streams q.epoch 0 s')
        (c.tryAppend base.node.chain streams payload) s := tryAppend_stale h hknown
    cases more with
    | zero =>
      refine hstale.mono ?_
      rintro r s' ⟨rfl, htrying⟩
      obtain ⟨q', hq', hout⟩ := htrying.sequencer
      refine ⟨fun i p v hv => (htrying.slots i p).trans hv, hmax ▸ htrying.known, q', hq', ?_⟩
      rw [if_pos hknown, if_neg (by omega), if_pos ⟨rfl, rfl⟩]
      exact ⟨hout, rfl⟩
    | succ more =>
      -- the first attempt has taught the client the epoch
      refine NodeProgram.alone_bind (hstale.mono ?_)
      rintro r s' ⟨rfl, htrying⟩
      refine (appendAttempts_alone htrying hsound honline hgrants (Nat.le_refl _) (by omega) hk
        (Nat.zero_le k)).mono fun r s'' hr => ?_
      rw [hmax] at hr
      split at hr
      · exact hr.comesTo (by rw [if_pos hknown]; omega)
      · exact hr.comesTo (by rw [if_pos hknown]; omega) (by omega) (by omega)
  · have hmax : known = max known q.epoch := by
      ext
      rw [Epoch.val_max]
      exact (Nat.max_eq_left (Nat.not_lt.mp hknown)).symm
    refine (appendAttempts_alone h hsound honline hgrants (Nat.not_lt.mp hknown) (by omega) hk
      (Nat.zero_le k)).mono fun r s' hr => ?_
    rw [hmax] at hr
    split at hr
    · exact hr.comesTo (by rw [if_neg hknown]; omega)
    · exact hr.comesTo (by rw [if_neg hknown]; omega) (by omega) (by omega)

end Client

open Client in
/-- What an append that nobody disturbs comes to, in any world that a node can get to and in which
all units are online. There is one number `k` of positions from the sequencer's tail on that the
head holds before the first one that is free. If the attempts suffice for these, for the free one
and for the one under an old epoch if there has to be such a one, then the append takes the free
position. Otherwise it burns as many positions as it makes attempts under the present epoch. -/
theorem append_outcome {names : List String} {policy : HoleFillPolicy}
    {sequencer : SequencerSettings} {management : BootstrapSettings} {node : Node}
    (h : Node.start names policy sequencer management = .ok node) (moves : List Move) (w : World)
    (hw : w = (World.start node).play moves) {client : Nat} {c : Client}
    (hclient : w.scene.node.clients[client]? = some c) {known : Epoch}
    (hknown : w.scene.node.epochs[client]? = some known) {q : Sequencer}
    (hq : w.scene.node.mailbox.sequencer = some q) (honline : w.Online)
    (hgrants : 0 < q.maxTokens) {limit : Nat} (hlimit : limit = max 1 c.maxAppendAttempts.toNat)
    (hroom : q.globalTail.val + limit < Position.bound) (streams : StreamSet)
    (payload : List UInt8) :
    ∃ k, w.scene.FirstFree q.globalTail k ∧
      w.RunsAlone (.append client streams payload) fun r w' =>
        ComesTo w.scene c q streams payload known k limit r w'.scene := by
  obtain ⟨k, hk⟩ := w.scene.exists_firstFree q.globalTail
  have hindex : c.index = client :=
    (hw ▸ World.numbered_play (Scene.numbered_start h) moves : w.scene.Numbered).2 client c hclient
  subst hindex
  have htrying : Trying w.scene c q streams known 0 w.scene :=
    ⟨⟨q, hq, .refl q streams⟩, hknown, rfl, rfl, fun _ _ => rfl⟩
  have hsound : w.scene.Sound := hw ▸ (World.keeps_chainLaw h moves).holds
  refine ⟨k, hk, World.runsAlone_of_alone rfl ?_
    (append_alone htrying hsound honline hgrants hlimit hroom hk)⟩
  simp only [Job.program?, hclient, Option.map_some]

/-- An append to a stream after a full reset to the beginning of the log. The client has to learn
the epoch, and the first position is held. It has three attempts, which is just enough. The stream's
tail has moved to the first position before the entry is written, so that its backpointer leads
there, to an entry of no stream. -/
theorem append_outcome_after_reset : ∃ node,
    Node.start ["a", "b"] .immediate ⟨1, Epoch.zero, 5⟩ .default = .ok node ∧
    let w := (World.start node).play
      ([.join Epoch.zero 3, .start (.append 0 ∅ [1])] ++
        List.replicate 6 (.advance 0 (.prompt 1)) ++
        [.start (.bootstrap ⟨⟨1, by decide⟩, Position.zero, ∅, Position.zero, true⟩),
          .advance 1 (.prompt 1)])
    let stream : StreamId := ⟨7, by decide⟩
    (w.scene.node.mailbox.sequencer.map fun q => (q.epoch, q.globalTail, q.maxTokens)) =
        some (⟨1, by decide⟩, Position.zero, 5) ∧ w.Online ∧
      w.RunsAlone (.append 0 {stream} [2]) fun r w' => r = .ok ⟨1, by decide⟩ ∧
        (∃ entry, w'.scene.Committed ⟨1, by decide⟩ (.entry entry) ∧ entry.payload = [2] ∧
          entry.streams = {stream} ∧ entry.backpointer stream = some Position.zero) ∧
        (∃ q, w'.scene.node.mailbox.sequencer = some q ∧ q.globalTail.val = 2 ∧
          q.streamTail stream = some ⟨1, by decide⟩) ∧
        w'.scene.node.epochs[0]? = some ⟨1, by decide⟩ := by
  have h : Node.start ["a", "b"] .immediate ⟨1, Epoch.zero, 5⟩ .default = .ok _ := rfl
  refine ⟨_, h, ?_⟩
  intro w stream
  have hsequencer : (w.scene.node.mailbox.sequencer.map fun q =>
      (q.epoch, q.globalTail, q.maxTokens)) = some (⟨1, by decide⟩, Position.zero, 5) := by
    decide +kernel
  have honline : w.Online := (by decide +kernel : ∀ unit ∈ w.scene.node.units, unit.offline = false)
  obtain ⟨q, hq, heq⟩ := Option.map_eq_some_iff.mp hsequencer
  obtain ⟨hepoch, htail, hgrants⟩ : q.epoch = _ ∧ q.globalTail = _ ∧ q.maxTokens = _ := by
    simpa only [Prod.mk.injEq] using heq
  refine ⟨hsequencer, honline, ?_⟩
  have hknown : w.scene.node.epochs[0]? = some Epoch.zero := by decide +kernel
  obtain ⟨k, hk, halone⟩ := append_outcome h _ w rfl
    (rfl : w.scene.node.clients[0]? = some ⟨0, 3⟩) hknown hq honline (by rw [hgrants]; decide)
    (rfl : 3 = max 1 (3 : UInt32).toNat) (by rw [htail]; decide) {stream} [2]
  -- the head holds the first position, and not the second
  obtain rfl : k = 1 := by
    rw [htail] at hk
    have hfirst : w.scene.slot Chain.head Position.zero ≠ none := by decide +kernel
    have hsecond : w.scene.slot Chain.head ⟨1, by decide⟩ = none := by decide +kernel
    refine IsLeast.unique hk ⟨fun p hp => ?_, fun j hj => Nat.pos_of_ne_zero ?_⟩
    · rwa [(Position.ext hp : p = ⟨1, by decide⟩)]
    · rintro rfl
      exact hfirst (hj Position.zero rfl)
  refine halone.mono ?_
  rintro r w' ⟨-, hlearned, q', hq', hends⟩
  rw [hepoch, htail, if_pos (by decide +kernel)] at hends
  obtain ⟨hout, p, entry, hp, rfl, hcommitted, hpayload, hstreams, hback⟩ := hends
  obtain rfl : p = ⟨1, by decide⟩ := Position.ext hp
  have hmem : stream ∈ ({stream} : StreamSet) := by decide +kernel
  refine ⟨rfl, ⟨entry, hcommitted, hpayload, hstreams, hback stream hmem⟩, ⟨q', hq', ?_, ?_⟩, ?_⟩
  · rw [hout.globalTail, htail]
    rfl
  · rw [hout.streamTail, if_pos ⟨hmem, by decide⟩, htail]
    rfl
  · rw [hepoch] at hlearned
    exact hlearned

end SharedLog
