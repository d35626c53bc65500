/-
# Walks along a stream

A reader of a stream starts at the stream's tail and goes back along backpointers, or position by
position where it meets no entry of the stream. What was committed when the reading began is either
found already or still ahead: the tail that the sequencer told is behind nothing that was committed,
no entry of the stream is between an entry and its backpointer, and a position that is stepped over
holds no entry of the stream.
-/
import SharedLog.Proofs.Stream.Law

namespace SharedLog

variable {L : Law} {base s s' : Scene} {id : Nat} {p q : Position} {stream : StreamId}
  {entry entry' : LogEntry} {jobs : Job → Prop}

/-! ## Entries of a stream -/

namespace Scene.Orderly

/-- A committed entry of a stream comes from a token that was given for the stream. -/
lemma token_of_committed (h : s.Orderly) (hsound : s.Sound) (hentry : s.Committed p (.entry entry))
    (hstream : stream ∈ entry.streams) : ∃ request token, s.Granted request token ∧
      token.first = p ∧ stream ∈ request.streams ∧
      entry.backpointer stream = token.backpointer stream := by
  obtain ⟨_, -, hledger⟩ := h.ledger
  obtain ⟨request, token, payload, hgranted, hfirst, rfl⟩ :=
    h.entered _ _ (hsound.head_of_committed hentry)
  refine ⟨request, token, hgranted, hfirst, ?_, rfl⟩
  rw [LogEntry.streams_forToken fun t => hledger.mem_backpointers hgranted] at hstream
  exact hstream

/-- The way along a stream leads backwards. -/
lemma backpointer_lt (h : s.Orderly) (hsound : s.Sound) (hentry : s.Committed p (.entry entry))
    (hstream : stream ∈ entry.streams) (hq : entry.backpointer stream = some q) : q < p := by
  obtain ⟨request, token, hgranted, rfl, -, hback⟩ := h.token_of_committed hsound hentry hstream
  obtain ⟨_, -, hledger⟩ := h.ledger
  exact hledger.backpointer_lt hgranted (hback ▸ hq)

/-- No entry of a stream is between an entry of the stream and its backpointer. -/
lemma le_backpointer (h : s.Orderly) (hsound : s.Sound) (hentry : s.Committed p (.entry entry))
    (hentry' : s.Committed q (.entry entry')) (hstream : stream ∈ entry.streams)
    (hstream' : stream ∈ entry'.streams) (hlt : q < p) :
    ∃ b, entry.backpointer stream = some b ∧ q ≤ b := by
  obtain ⟨request, token, hgranted, rfl, hrequest, hback⟩ :=
    h.token_of_committed hsound hentry hstream
  obtain ⟨request', token', hgranted', rfl, hrequest', -⟩ :=
    h.token_of_committed hsound hentry' hstream'
  obtain ⟨_, -, hledger⟩ := h.ledger
  rw [hback]
  exact hledger.le_backpointer hgranted hgranted' hrequest hrequest' hlt

/-- No entry of a stream is behind the tail that the sequencer knows of the stream. -/
lemma le_streamTail (h : s.Orderly) (hsound : s.Sound) (hentry : s.Committed p (.entry entry))
    (hstream : stream ∈ entry.streams) : ∃ sequencer tail,
      s.node.mailbox.sequencer = some sequencer ∧ sequencer.streamTail stream = some tail ∧
        p ≤ tail := by
  obtain ⟨request, token, hgranted, rfl, hrequest, -⟩ := h.token_of_committed hsound hentry hstream
  obtain ⟨sequencer, hsequencer, hledger⟩ := h.ledger
  obtain ⟨tail, htail, hle⟩ := hledger.covered hgranted hrequest
  exact ⟨sequencer, tail, hsequencer, htail, hle⟩

end Scene.Orderly

/-- A law under which streams can be followed: entries point back to the last entry before, or
behind it, and the sequencer's tails are behind all entries. -/
structure Law.Streamlike (L : Law) : Prop extends L.Clientlike where
  backpointer_lt : ∀ {s p q entry stream}, L.holds s → s.Committed p (.entry entry) →
    stream ∈ entry.streams → entry.backpointer stream = some q → q < p
  le_backpointer : ∀ {s p q entry entry' stream}, L.holds s → s.Committed p (.entry entry) →
    s.Committed q (.entry entry') → stream ∈ entry.streams → stream ∈ entry'.streams → q < p →
    ∃ b, entry.backpointer stream = some b ∧ q ≤ b
  le_streamTail : ∀ {s p entry stream}, L.holds s → s.Committed p (.entry entry) →
    stream ∈ entry.streams → ∃ sequencer tail, s.node.mailbox.sequencer = some sequencer ∧
      sequencer.streamTail stream = some tail ∧ p ≤ tail

lemma streamLaw_streamlike : streamLaw.Streamlike where
  toClientlike := streamLaw_permits.toClientlike
  backpointer_lt h := h.2.1.backpointer_lt h.1
  le_backpointer h := h.2.1.le_backpointer h.1
  le_streamTail h := h.2.1.le_streamTail h.1

/-! ## What a walk keeps up -/

/-- Nothing that is before a position is behind the one before it. -/
lemma Position.exists_prev?_of_lt (h : q < p) : ∃ c, p.prev? = some c ∧ q ≤ c := by
  have hlt := Position.lt_def.mp h
  cases hprev : p.prev? with
  | none =>
    have hzero := Position.prev?_eq_none_iff.mp hprev
    omega
  | some c =>
    have hval := Position.prev?_eq_some_iff.mp hprev
    exact ⟨c, rfl, Position.le_def.mpr (by omega)⟩

/-- The positions that a walk has found increase, and the walk goes on before them. -/
structure Descends (cursor : Option Position) (found : List (Position × LogEntry)) : Prop where
  sorted : found.Pairwise fun x y => x.1 < y.1
  ahead : ∀ c, cursor = some c → ∀ x ∈ found, c < x.1

namespace Descends

variable {found : List (Position × LogEntry)}

lemma skip (h : Descends (some p) found) : Descends p.prev? found where
  sorted := h.sorted
  ahead := by
    intro c hc x hx
    have hprev := Position.prev?_eq_some_iff.mp hc
    have hlt := Position.lt_def.mp (h.ahead p rfl x hx)
    exact Position.lt_def.mpr (by omega)

lemma take (h : Descends (some p) found) {back : Option Position}
    (hback : ∀ c, back = some c → c < p) : Descends back ((p, entry) :: found) where
  sorted := List.pairwise_cons.mpr ⟨fun x hx => h.ahead p rfl x hx, h.sorted⟩
  ahead := by
    intro c hc x hx
    have hlt := hback c hc
    rcases List.mem_cons.mp hx with rfl | hx
    · exact hlt
    · exact Nat.lt_trans hlt (h.ahead p rfl x hx)

end Descends

/-- The state of a walk that began in the scene `base`: what was found, in order, and where the
walk goes on. -/
structure Found (base : Scene) (stream : StreamId) (cursor : Option Position)
    (found : List (Position × LogEntry)) (s : Scene) : Prop where
  grows : base.Grows s
  committed : ∀ p entry, (p, entry) ∈ found → s.Committed p (.entry entry)
  belongs : ∀ p entry, (p, entry) ∈ found → stream ∈ entry.streams
  sorted : found.Pairwise fun x y => x.1 < y.1
  ahead : ∀ c, cursor = some c → ∀ x ∈ found, c < x.1
  complete : ∀ q entry, base.Committed q (.entry entry) → stream ∈ entry.streams →
    (q, entry) ∈ found ∨ ∃ c, cursor = some c ∧ q ≤ c

namespace Found

variable {cursor : Option Position} {found : List (Position × LogEntry)} {data : LogData}

lemma later (h : Found base stream cursor found s) (hgrows : s.Grows s') :
    Found base stream cursor found s' :=
  { h with
    grows := h.grows.trans hgrows
    committed := fun p entry hmem => hgrows.committed (h.committed p entry hmem) }

lemma descends (h : Found base stream cursor found s) : Descends cursor found := ⟨h.sorted, h.ahead⟩

/-- A walk that has ended has found everything. -/
lemma mem_of_committed (h : Found base stream none found s)
    (hentry : base.Committed q (.entry entry)) (hstream : stream ∈ entry.streams) :
    (q, entry) ∈ found := by
  refine (h.complete q entry hentry hstream).resolve_right ?_
  rintro ⟨c, hc, -⟩
  cases hc

/-- A step over a position without an entry of the stream misses nothing. -/
lemma skip (h : Found base stream (some p) found s) (hsound : s.Sound) (hdata : s.Committed p data)
    (hnot : ∀ entry, data = .entry entry → stream ∉ entry.streams) :
    Found base stream p.prev? found s :=
  { h with
    ahead := h.descends.skip.ahead
    complete := by
      intro q entry hentry hstream
      refine (h.complete q entry hentry hstream).imp_right ?_
      rintro ⟨c, hc, hle⟩
      obtain rfl := Option.some.inj hc
      -- the entry is not the one at the position
      have hne : q ≠ p := by
        rintro rfl
        exact hnot entry (hsound.committed_unique hdata (h.grows.committed hentry)) hstream
      have hlt : q.val < p.val := Nat.lt_of_le_of_ne hle fun heq => hne (Position.ext heq)
      exact Position.exists_prev?_of_lt hlt }

/-- A step along a backpointer misses nothing. -/
lemma take (h : Found base stream (some p) found s) (hL : L.Streamlike) (hholds : L.holds s)
    (hentry : s.Committed p (.entry entry)) (hstream : stream ∈ entry.streams) :
    Found base stream (entry.backpointer stream) ((p, entry) :: found) s where
  grows := h.grows
  committed := by
    intro q entry' hmem
    rcases List.mem_cons.mp hmem with heq | hmem
    · cases heq
      exact hentry
    · exact h.committed q entry' hmem
  belongs := by
    intro q entry' hmem
    rcases List.mem_cons.mp hmem with heq | hmem
    · cases heq
      exact hstream
    · exact h.belongs q entry' hmem
  sorted := (h.descends.take fun _ => hL.backpointer_lt hholds hentry hstream).sorted
  ahead := (h.descends.take fun _ => hL.backpointer_lt hholds hentry hstream).ahead
  complete := by
    intro q entry' hentry' hstream'
    rcases h.complete q entry' hentry' hstream' with hmem | ⟨c, hc, hle⟩
    · exact .inl (List.mem_cons_of_mem _ hmem)
    · obtain rfl := Option.some.inj hc
      have hnow := h.grows.committed hentry'
      rcases Nat.eq_or_lt_of_le hle with heq | hlt
      · -- the entry is the one just met
        obtain rfl := Position.ext heq
        obtain rfl := LogData.entry.inj ((hL.sound hholds).committed_unique hnow hentry)
        exact .inl List.mem_cons_self
      · exact .inr (hL.le_backpointer hholds hentry hnow hstream hstream' hlt)

end Found

lemma trail_found (hL : L.Streamlike) (base : Scene) (stream : StreamId) :
    Client.Trail L stream (Found base stream) where
  later h hlater _ := h.later (hL.grows hlater)
  skip hholds h hdata hnot := h.skip (hL.sound hholds) hdata hnot
  take hholds h hentry hstream := h.take hL hholds hentry hstream

/-! ## Reading a stream -/

/-- The tail that a query tells is behind no entry of the stream. -/
def Covers (base : Scene) (stream : StreamId) : Except SequencerError Token → Scene → Prop
  | .ok token, _ => ∀ q entry, base.Committed q (.entry entry) → stream ∈ entry.streams →
      ∃ c, token.backpointer stream = some c ∧ q ≤ c
  | .error _, _ => True

/-- A query tells a tail that is behind everything that the sequencer's tail is behind. -/
lemma Client.query_covers (hL : L.Appending) {behind : Position → Prop}
    (hbehind : ∀ s₁ q, L.later s s₁ → L.holds s₁ → behind q → ∃ sequencer tail,
      s₁.node.mailbox.sequencer = some sequencer ∧ sequencer.streamTail stream = some tail ∧
        q ≤ tail) (epoch : Epoch) :
    L.ask id (.allocate (.query epoch (.ofList [stream]))) (fun r _ => ∀ token, r = .ok token →
      ∀ q, behind q → ∃ c, token.backpointer stream = some c ∧ q ≤ c) s := by
  refine Law.ask_intro fun s₁ hlater hholds => ⟨hL.allows_allocate _ hholds, ?_⟩
  intro r s₂ hacts _ _ _ token htoken q hq
  obtain ⟨sequencer, tail, hsequencer, htail, hle⟩ := hbehind s₁ q hlater hholds hq
  refine ⟨tail, ?_, hle⟩
  obtain ⟨hanswer, -⟩ := hacts.allocate_of_some hsequencer
  rw [Token.backpointer, Sequencer.backpointers_allocate (hanswer.symm.trans htoken),
    Sequencer.at?_tailsOf, if_pos (by simp [TokenRequest.query]), htail]

lemma covers_query (hL : L.Streamlike) (hgrows : base.Grows s) (epoch : Epoch) :
    L.ask id (.allocate (.query epoch (.ofList [stream]))) (Covers base stream) s := by
  -- the stream's tail is behind the entries when the query is served
  have hbehind : ∀ s₁ q, L.later s s₁ → L.holds s₁ →
      (∃ entry, base.Committed q (.entry entry) ∧ stream ∈ entry.streams) → ∃ sequencer tail,
      s₁.node.mailbox.sequencer = some sequencer ∧ sequencer.streamTail stream = some tail ∧
        q ≤ tail := by
    rintro s₁ q hlater hholds ⟨entry, hentry, hstream⟩
    exact hL.le_streamTail hholds ((hgrows.trans (hL.grows hlater)).committed hentry) hstream
  refine Law.ask_mono (fun r s₁ hr => ?_) (Client.query_covers hL.toAppending hbehind epoch)
  cases r with
  | ok token => exact fun q entry hentry hstream => hr token rfl q ⟨entry, hentry, hstream⟩
  | error e => trivial

/-- A stream that is read has all its entries that were committed before, in order, and nothing that
is not committed. -/
theorem Client.readStream_found {c : Client} (hL : L.Streamlike) (hrounds : L.rounds = none)
    (hholds : L.holds s) (hgrows : base.Grows s) :
    L.Meets id (fun r s => ∀ list, r = .ok list → Found base stream none list s)
      (c.readStream s.node.chain stream) s := by
  have htails : L.Meets id (fun r s => ∀ token, r = .ok token → Covers base stream (.ok token) s)
      (c.tails (.ofList [stream])) s := by
    refine tails_meets hL.toAppending hholds (fun r s s' hr _ _ => ?_) fun epoch s₁ hlater _ =>
      covers_query hL (hgrows.trans (hL.grows hlater)) epoch
    cases r with
    | ok token => exact hr
    | error e => trivial
  refine readStream_meets hL.toChainlike (trail_found hL base stream) (.inl hrounds) rfl
    (Chain.waits_of_rounds hrounds) hholds htails ?_ ?_ ?_
  · intro token s₁ hlater _ htoken
    refine ⟨hgrows.trans (hL.grows hlater), ?_, ?_, List.Pairwise.nil, ?_, ?_⟩
    · intro p entry hmem
      cases hmem
    · intro p entry hmem
      cases hmem
    · intro c _ x hx
      cases hx
    · exact fun q entry hentry hstream => .inr (htoken token rfl q entry hentry hstream)
  · intro e s₁ _ list heq
    cases heq
  · intro r s₁ hr list heq
    subst heq
    exact hr

/-- What is known of a reading of a stream that began after a scene. -/
def readsStream (base : Scene) (_ : Nat) : Outcome
  | .readStream _ stream => fun r s => ∀ list, r = .ok list → Found base stream none list s
  | _ => fun _ _ => True

namespace World.Keeps

variable {w : World} {post : Nat → Outcome} {moves : List Move} {client : Nat}
  {list : List (Position × LogEntry)}

/-- A stream that is read from now on, under a law by which streams can be followed, has all its
entries of now. -/
theorem readStream_found (h : w.Keeps L post) (hL : L.Streamlike) (hheeds : L.Unconditional)
    (hpermits : L.Permits jobs) (hmoves : Starts moves jobs) (hid : w.nextId ≤ id)
    (hr : (w.play moves).Returned id (.readStream client stream) (.ok list)) :
    Found w.scene stream none list (w.play moves).scene := by
  have hlasting : ∀ id job, L.Lasting (readsStream w.scene id job) := by
    intro id job
    cases job with
    | readStream client stream =>
      exact fun r s s' hr hlater _ list heq => (hr list heq).later (hL.grows hlater)
    | _ => exact fun _ _ _ _ _ _ => trivial
  have hlawful : w.Lawful L (readsStream w.scene) jobs := by
    intro id job s program hid hjob hlater hholds hprogram
    cases job with
    | readStream client stream =>
      obtain ⟨c, -, rfl⟩ := Option.map_eq_some_iff.mp hprogram
      exact Client.readStream_found hL hheeds.rounds hholds (hL.grows hlater)
    | _ =>
      refine (lawful hpermits w id _ s program hid hjob hlater hholds hprogram).mono ?_
      exact fun _ _ _ => trivial
  exact h.returned_later hheeds hlasting hlawful hmoves hid hr list rfl

/-- A stream that is read from now on has all its entries of now. -/
theorem readStream_later (h : w.Keeps streamLaw (Job.Ends streamLaw))
    (hmoves : Starts moves Job.Appending) (hid : w.nextId ≤ id)
    (hr : (w.play moves).Returned id (.readStream client stream) (.ok list)) :
    Found w.scene stream none list (w.play moves).scene :=
  h.readStream_found streamLaw_streamlike streamLaw_unconditional streamLaw_permits hmoves hid hr

end World.Keeps

end SharedLog
