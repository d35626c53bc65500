/-
# Operations on the chain

What every operation on the chain ends with, whatever others do while it runs. An operation that
copies a value carries on what the unit before holds, and a look at the tail shows what all units
hold. Nothing but an offline unit makes a read fail.

Each operation is treated once, for every law that keeps the chain's and lets the operation do what
it does.
-/
import SharedLog.Proofs.Chain.Law
import SharedLog.Proofs.HoleFill.Bounded

namespace SharedLog

variable {L : Law} {s s' : Scene} {id i k : Nat} {p : Position} {v data : LogData} {c : Chain}
  {α : Type}

/-- What an operation on the chain ends with: with a good value, or since a unit is offline. -/
def Law.Ends (L : Law) (id : Nat) (good : α → Scene → Prop) :
    Except ReplicationError α → Scene → Prop
  | .ok a, s => good a s
  | .error e, s => L.Fails id s e

lemma Law.Growing.lasting_ends (hL : L.Growing) {good : α → Scene → Prop}
    (hgood : L.Lasting good) : L.Lasting (L.Ends id good) := by
  intro r s s' hr hlater hholds
  cases r with
  | ok a => exact hgood a s s' hr hlater hholds
  | error e => exact hL.fails hr hlater

/-- If an operation fails since a unit is offline, then so does what was to follow it. -/
lemma Law.ChainMeets.andThenEnds {β : Type} {good : α → Scene → Prop} {good' : β → Scene → Prop}
    {p : ChainOperation α} {f : α → ChainOperation β} (h : L.ChainMeets id (L.Ends id good) p s)
    (hholds : L.holds s) (hok : ∀ a s₁, L.later s s₁ → L.holds s₁ → good a s₁ →
      L.ChainMeets id (L.Ends id good') (f a) s₁) :
    L.ChainMeets id (L.Ends id good') (p.andThen f) s :=
  h.andThen hholds hok fun _ _ _ _ he => he

lemma Law.ChainMeets.mono_ends {good good' : α → Scene → Prop} {p : ChainOperation α}
    (h : L.ChainMeets id (L.Ends id good) p s) (hgood : ∀ a s, good a s → good' a s) :
    L.ChainMeets id (L.Ends id good') p s := by
  refine h.mono fun r s hr => ?_
  cases r with
  | ok a => exact hgood a s hr
  | error e => exact hr

/-- What the unit holds after it was asked to write a value. -/
def WriteOutcome.held (data : LogData) : WriteOutcome → LogData
  | written => data
  | conflict existing => existing

/-- What a look at a position tells of the units. -/
def Scene.Shows (s : Scene) (p : Position) : SlotState → Prop
  | .committed v => s.Committed p v
  | .pending => ∃ v, s.slot Chain.head p = some v
  | .empty => s.slot Chain.head p = none

namespace Chain

/-! ## Single requests -/

lemma askPeek_meets (hL : L.Watching) (hi : i < s.node.chain.length) :
    L.ChainMeets id (L.Ends id fun held s => s.slot i p = held) (askPeek i p) s := by
  refine Law.ask_intro fun s₁ hlater hholds => ⟨hL.allows_peek i p hholds, ?_⟩
  intro answer s₂ hacts hheeds hlater₂ _
  have htrace : ⟨id, .onUnit (.peek i p), answer⟩ ∈ s₂.trace := by simp [hacts.trace_eq]
  have hplace := (hL.grows (L.later_trans hlater hlater₂)).chain ▸ hi
  rcases hacts.peek with rfl | ⟨e, rfl, -⟩
  · exact rfl
  · exact ⟨.peek i p, _, hplace, htrace, rfl, hheeds⟩

lemma askWrite_meets (hL : L.Growing) (hi : i < s.node.chain.length)
    (hallows : ∀ s₁, L.later s s₁ → L.holds s₁ → L.allows (.onUnit (.write i p data)) s₁) :
    L.ChainMeets id (L.Ends id fun outcome s => s.slot i p = some (outcome.held data) ∧
      ⟨id, .onUnit (.write i p data), .ok outcome⟩ ∈ s.trace) (askWrite i p data) s := by
  refine Law.ask_intro fun s₁ hlater hholds => ⟨hallows s₁ hlater hholds, ?_⟩
  intro answer s₂ hacts hheeds hlater₂ _
  have htrace : ⟨id, .onUnit (.write i p data), answer⟩ ∈ s₂.trace := by simp [hacts.trace_eq]
  have hplace := (hL.grows (L.later_trans hlater hlater₂)).chain ▸ hi
  have heffect := hacts.write
  generalize hslot : s₂.slot i p = after at heffect
  cases heffect with
  | failed => exact ⟨.write i p data, _, hplace, htrace, rfl, hheeds⟩
  | conflict held => exact ⟨hslot, htrace⟩
  | written free => exact ⟨hslot, htrace⟩

/-! ## Propagation -/

/-- A value that a unit holds can be copied to all units after it. -/
lemma copyTo_meets (hL : L.Growing) (hcopy : ∀ {s₁ i}, L.later s s₁ → L.holds s₁ →
      s₁.slot i p = some v → L.allows (.onUnit (.write (i + 1) p v)) s₁)
    {rest : List (String × Nat)} (hrest : s.node.chain.names.zipIdx.drop (k + 1) = rest)
    (hholds : L.holds s) (hk : k < s.node.chain.length) (hheld : s.slot k p = some v) :
    L.ChainMeets id (L.Ends id fun _ s => s.Committed p v) (copyTo p v rest) s := by
  -- the units before the rest hold the value
  induction rest generalizing k s with
  | nil =>
    have hlast : s.node.chain.tail = k := by
      have := List.drop_eq_nil_iff.mp hrest
      simp only [List.length_zipIdx] at this
      unfold tail
      unfold length at *
      omega
    exact (hL.sound hholds).committed_of_tail (hlast ▸ hheld)
  | cons unit rest ih =>
    obtain ⟨name, place⟩ := unit
    have hget := congrArg List.head? hrest
    rw [List.head?_drop, List.getElem?_zipIdx] at hget
    obtain ⟨name', hname, heq⟩ := Option.map_eq_some_iff.mp hget
    obtain ⟨rfl, rfl⟩ : name' = name ∧ k + 1 = place := by simpa using heq
    have hk' : k + 1 < s.node.chain.length := (List.getElem?_eq_some_iff.mp hname).1
    refine (askWrite_meets hL hk' fun s₁ hlater hholds₁ => ?_).andThenEnds hholds ?_
    · exact hcopy hlater hholds₁ ((hL.grows hlater).slot hheld)
    · intro outcome s₁ hlater hholds₁ ⟨hslot, _⟩
      have hgrows := hL.grows hlater
      -- whatever the unit holds now, the unit before it holds as well
      have hv : outcome.held v = v := by
        have hbefore := (hL.sound hholds₁).headward (Nat.le_succ k) hslot
        rw [hgrows.slot hheld] at hbefore
        exact (Option.some.inj hbefore).symm
      have hnext : L.ChainMeets id (L.Ends id fun _ s => s.Committed p v) (copyTo p v rest) s₁ := by
        refine ih (fun hlater₂ => hcopy (L.later_trans hlater hlater₂)) ?_ hholds₁
          (hgrows.chain ▸ hk') (hv ▸ hslot)
        rw [hgrows.chain, ← List.drop_drop, hrest]
        rfl
      cases outcome with
      | written => exact hnext
      | conflict existing =>
        obtain rfl : existing = v := hv
        dsimp only
        rwa [if_pos rfl]

lemma propagate_meets (hL : L.Growing) (hcopy : ∀ {s₁ i}, L.later s s₁ → L.holds s₁ →
      s₁.slot i p = some v → L.allows (.onUnit (.write (i + 1) p v)) s₁)
    (hc : s.node.chain = c) (hholds : L.holds s) (hheld : s.slot head p = some v) :
    L.ChainMeets id (L.Ends id fun _ s => s.Committed p v) (c.propagate p v) s := by
  subst hc
  have hlength := (hL.sound hholds).length_pos
  rw [(hL.sound hholds).length] at hlength
  exact copyTo_meets hL hcopy List.drop_one hholds hlength hheld

/-! ## The operations -/

/-- A look at a position tells what the units hold, and does not miss a value that was committed
when it began. -/
lemma peek_meets (hL : L.Watching) (hc : s.node.chain = c) (hholds : L.holds s) :
    L.ChainMeets id (L.Ends id fun state s₁ => s₁.Shows p state ∧
      ∀ v, s.Committed p v → state = .committed v) (c.peek p) s := by
  subst hc
  have hpos : 0 < s.node.chain.length := (hL.sound hholds).length ▸ (hL.sound hholds).length_pos
  have htail : s.node.chain.tail < s.node.chain.length := by
    unfold tail
    omega
  refine (askPeek_meets hL htail).andThenEnds hholds fun held s₁ hlater hholds₁ hslot => ?_
  have hgrows := hL.grows hlater
  -- the tail shows what was committed when the look began
  have hcommitted : ∀ v, s.Committed p v → held = some v := fun v hv => by
    have hv₁ := (hL.sound hholds₁).tail_of_committed (hgrows.committed hv)
    rw [hgrows.chain, hslot] at hv₁
    exact hv₁
  cases held with
  | some v =>
    refine ⟨(hL.sound hholds₁).committed_of_tail (hgrows.chain ▸ hslot), fun v' hv' => ?_⟩
    rw [Option.some.inj (hcommitted v' hv')]
  | none =>
    -- the tail was empty, so that nothing was committed before
    have hnone : ∀ v, ¬ s.Committed p v := fun v hv => by cases hcommitted v hv
    dsimp only
    split
    · -- a chain of one unit: its tail is its head
      rename_i hone
      have hsame : s.node.chain.tail = head := by
        unfold tail head
        omega
      rw [hsame] at hslot
      exact ⟨hslot, fun v hv => absurd hv (hnone v)⟩
    · have hpos₁ : head < s₁.node.chain.length := by
        rw [hgrows.chain]
        exact hpos
      refine (askPeek_meets hL hpos₁).andThenEnds hholds₁ fun held s₂ _ _ hslot => ?_
      cases held with
      | some v => exact ⟨⟨v, hslot⟩, fun v hv => absurd hv (hnone v)⟩
      | none => exact ⟨hslot, fun v hv => absurd hv (hnone v)⟩

/-- What a write ends with: its own entry is committed and was taken from it, or somebody else's
value owns the position, or a unit is offline. -/
def WriteEnds (L : Law) (id : Nat) (p : Position) (entry : LogEntry) :
    Except ReplicationError Unit → Scene → Prop
  | .ok (), s => s.Committed p (.entry entry) ∧ s.Accepted id p (.entry entry)
  | .error e, s => L.Fails id s e ∨ e = .writeConflict p

lemma write_meets (hL : L.Growing) (hc : s.node.chain = c) (hholds : L.holds s)
    {entry : LogEntry} (hallows : ∀ s₁, L.later s s₁ → L.holds s₁ →
      L.allows (.onUnit (.write head p (.entry entry))) s₁)
    (hcopy : ∀ {s₁ i}, L.later s s₁ → L.holds s₁ → s₁.Accepted id p (.entry entry) →
      s₁.slot i p = some (.entry entry) → L.allows (.onUnit (.write (i + 1) p (.entry entry))) s₁) :
    L.ChainMeets id (WriteEnds L id p entry) (c.write p entry) s := by
  subst hc
  have hpos : head < s.node.chain.length :=
    (hL.sound hholds).length ▸ (hL.sound hholds).length_pos
  refine (askWrite_meets hL hpos hallows).andThen hholds ?_ fun e _ _ _ he => .inl he
  intro outcome s₁ hlater hholds₁ ⟨hslot, htrace⟩
  cases outcome with
  | written =>
    have hcopied : L.ChainMeets id (L.Ends id fun _ s => s.Committed p (.entry entry))
        (s.node.chain.propagate p (.entry entry)) s₁ :=
      propagate_meets hL (fun hlater₂ hholds₂ => hcopy (L.later_trans hlater hlater₂) hholds₂
        ((hL.grows hlater₂).accepted htrace)) (hL.grows hlater).chain hholds₁ hslot
    refine (hcopied.kept hholds₁).mono fun r s₂ ⟨hr, hlater₂, _⟩ => ?_
    cases r with
    | ok _ => exact ⟨hr, (hL.grows hlater₂).accepted htrace⟩
    | error e => exact .inl hr
  | conflict existing => exact .inr rfl

/-- A hole fill commits what the head holds. -/
lemma holeFill_meets (hL : L.Filling p) (hc : s.node.chain = c) (hholds : L.holds s) :
    L.ChainMeets id (L.Ends id fun _ s => ∃ v, s.Committed p v) (c.holeFill p) s := by
  subst hc
  have hpos : head < s.node.chain.length :=
    (hL.sound hholds).length ▸ (hL.sound hholds).length_pos
  refine (askWrite_meets hL.toGrowing hpos fun s₁ _ hholds₁ =>
    hL.allows_hole hholds₁).andThenEnds hholds fun outcome s₁ hlater hholds₁ ⟨hslot, _⟩ => ?_
  have hcopied : L.ChainMeets id (L.Ends id fun _ s => ∃ v, s.Committed p v)
      (s.node.chain.propagate p (outcome.held .hole)) s₁ :=
    (propagate_meets hL.toGrowing (fun _ hholds₂ => hL.allows_copy hholds₂)
      (hL.grows hlater).chain hholds₁ hslot).mono_ends fun _ _ hv => ⟨_, hv⟩
  cases outcome with
  | written => exact hcopied
  | conflict existing => exact hcopied

/-- A committed position is read without waiting. -/
lemma readDecided_meets (hL : L.Watching) (hc : s.node.chain = c) (hholds : L.holds s)
    (hv : s.Committed p v) :
    L.ChainMeets id (L.Ends id fun data s => s.Committed p data) (c.readDecided p) s := by
  refine (peek_meets hL hc hholds).andThenEnds hholds ?_
  intro state s₁ _ _ ⟨hshows, hstate⟩
  obtain rfl := hstate v hv
  exact hshows

/-! ## Reads -/

/-- What a reader waits for: a committed value, or the end of its patience. -/
def AwaitEnds (L : Law) (id : Nat) (p : Position) : Except PeekError LogData → Scene → Prop
  | .ok v, s => s.Committed p v
  | .error (.replication e), s => L.Fails id s e
  | .error (.holeFillRequired _), _ => True

/-- The law cuts off no wait for a position before the reader's patience has run out. -/
def Waits (c : Chain) (L : Law) : Prop :=
  ∀ least ∈ L.rounds, ∀ n, least ≤ n → c.policy.GivesUp n 0 Duration.zero

lemma waits_of_rounds {c : Chain} (h : L.rounds = none) : c.Waits L := by
  intro least hleast
  rw [h] at hleast
  cases hleast

/-- What one look at a position ends with. -/
def LookEnds (L : Law) (id : Nat) (p : Position) : Except PeekError SlotState → Scene → Prop
  | .ok state, s => s.Shows p state
  | .error (.replication e), s => L.Fails id s e
  | .error (.holeFillRequired _), _ => False

lemma looks_meets (hL : L.Watching) (hc : s.node.chain = c) (hholds : L.holds s) {n attempts : Nat}
    {elapsed : Duration} (hn : L.rounds = none ∨ c.policy.GivesUp n attempts elapsed) :
    L.ChainMeets id (AwaitEnds L id p) (c.policy.looks p (c.peek p) n attempts elapsed) s := by
  induction n generalizing s attempts elapsed with
  | zero => exact hn.resolve_right fun h => h
  | succ n ih =>
    rw [HoleFillPolicy.looks]
    have hlook : L.ChainMeets id (LookEnds L id p)
        ((c.peek p).mapError PeekError.replication) s := by
      refine (Program.meets_mapError ..).mpr
        ((peek_meets hL hc hholds).mono fun r s₁ hr => ?_)
      cases r with
      | ok state => exact hr.1
      | error e => exact hr
    refine hlook.andThen hholds ?_ ?_
    · intro state s₁ hlater hholds₁ hshows
      have hc₁ := (hL.grows hlater).chain.trans hc
      cases state with
      | committed v => exact hshows
      | pending | empty =>
        -- nothing is committed yet: the reader sleeps, or its patience has run out
        rw [HoleFillPolicy.GivesUp] at hn
        simp only [SlotState.committed?]
        split
        · rename_i delay hdelay
          rw [hdelay] at hn
          exact fun late => ih hc₁ hholds₁ (hn.imp_right fun h => h late)
        · trivial
    · intro e s₁ _ _ he
      cases e with
      | replication e => exact he
      | holeFillRequired signal => exact he.elim

/-- A read gives the committed value, and fails only since a unit is offline. -/
lemma read_meets (hL : L.Filling p) (hc : s.node.chain = c) (hholds : L.holds s)
    (hwaits : c.Waits L) :
    L.ChainMeets id (L.Ends id fun v s => s.Committed p v) (c.read p) s := by
  have hawait : L.ChainMeets id (AwaitEnds L id p) (c.policy.awaitCommitted p (c.peek p)) s := by
    intro n hn
    refine looks_meets hL.toWatching hc hholds ?_
    cases hrounds : L.rounds with
    | none => exact .inl rfl
    | some least => exact .inr (hwaits least hrounds n (hn least hrounds))
  refine hawait.bind hholds fun r s₁ hlater hholds₁ hr => ?_
  have hc₁ := (hL.grows hlater).chain.trans hc
  match r with
  | .ok v => exact hr
  | .error (.replication e) => exact hr
  | .error (.holeFillRequired signal) =>
    -- after the hole fill something is committed, so that the second look shows it
    refine (holeFill_meets hL hc₁ hholds₁).andThenEnds hholds₁ fun _ s₂ hlater₂ hholds₂ hv => ?_
    obtain ⟨v, hv⟩ := hv
    exact readDecided_meets hL.toWatching ((hL.grows hlater₂).chain.trans hc₁) hholds₂ hv

/-- A position that is committed is read by looking at it once. -/
lemma read_decided (hL : L.Watching) (hpos : ∀ least ∈ L.rounds, 0 < least)
    (hc : s.node.chain = c) (hholds : L.holds s) (hv : s.Committed p v) :
    L.ChainMeets id (L.Ends id fun v s => s.Committed p v) (c.read p) s := by
  have hlook : L.ChainMeets id (fun r s => ∃ r' : Except ReplicationError SlotState,
      r = r'.mapError PeekError.replication ∧
        L.Ends id (fun state s => state = .committed v ∧ s.Committed p v) r' s)
      ((c.peek p).mapError PeekError.replication) s := by
    refine (Program.meets_mapError ..).mpr ((peek_meets hL hc hholds).mono fun r s₁ hr => ?_)
    cases r with
    | ok state =>
      obtain rfl := hr.2 v hv
      exact ⟨_, rfl, rfl, hr.1⟩
    | error e => exact ⟨_, rfl, hr⟩
  have hawait : L.ChainMeets id (fun r s => ∃ r' : Except ReplicationError LogData,
      r = r'.mapError PeekError.replication ∧ L.Ends id (fun v s => s.Committed p v) r' s)
      (c.policy.awaitCommitted p (c.peek p)) s := by
    intro n hn
    cases n with
    | zero =>
      -- the wait was cut off before the first look
      cases hrounds : L.rounds with
      | none => rfl
      | some least => exact absurd (hn least hrounds) (Nat.not_le.mpr (hpos least hrounds))
    | succ n =>
      refine hlook.bind hholds fun r s₁ _ _ hr => ?_
      obtain ⟨r', rfl, hr⟩ := hr
      cases r' with
      | ok state =>
        obtain ⟨rfl, hv⟩ := hr
        exact ⟨.ok v, rfl, hv⟩
      | error e => exact ⟨.error e, rfl, hr⟩
  refine hawait.bind hholds fun r s₁ _ _ hr => ?_
  obtain ⟨r', rfl, hr⟩ := hr
  cases r' with
  | ok v => exact hr
  | error e => exact hr

lemma readAt_meets (hL : L.Filling p) (hc : s.node.chain = c) (hholds : L.holds s)
    (hwaits : c.Waits L) :
    L.ChainMeets id (L.Ends id fun (q, v) s => q = p ∧ s.Committed q v) (c.readAt p) s :=
  (read_meets hL hc hholds hwaits).andThenEnds hholds fun _ _ _ _ hv => ⟨rfl, hv⟩

/-- What a collection of readings tells of a position was read there. -/
lemma mem_of_getElem?_ofList {values : List (Position × LogData)} {q : Position} {v : LogData}
    (h : (Std.ExtTreeMap.ofList values)[q]? = some v) : (q, v) ∈ values := by
  have hfoldl : ∀ (values : List (Position × LogData)) (m : Readings),
      (values.foldl (fun m x => m.insert x.1 x.2) m)[q]? = some v →
        (q, v) ∈ values ∨ m[q]? = some v := by
    intro values
    induction values with
    | nil => exact fun m h => .inr h
    | cons value values ih =>
      intro m h
      rcases ih _ h with hmem | hinsert
      · exact .inl (List.mem_cons_of_mem _ hmem)
      · rw [Std.ExtTreeMap.getElem?_insert] at hinsert
        split at hinsert
        · rename_i hq
          obtain rfl : value.1 = q := by simpa using hq
          obtain rfl := Option.some.inj hinsert
          exact .inl List.mem_cons_self
        · exact .inr hinsert
  rw [Std.ExtTreeMap.ofList_eq_foldl] at h
  exact (hfoldl values ∅ h).resolve_right (by simp)

/-- Some positions were read together: none is left out, and all have their committed values. -/
def ReadAll (positions : List Position) (readings : Readings) (s : Scene) : Prop :=
  (∀ q, q ∈ readings ↔ q ∈ positions) ∧ ∀ q v, readings[q]? = some v → s.Committed q v

/-- If each of some positions can be read, then they can be read together. -/
lemma readMany_of_readAt (hL : L.Watching) (hholds : L.holds s) {positions : List Position}
    (hreads : ∀ p ∈ positions, L.ChainMeets id
      (L.Ends id fun (q, v) s => q = p ∧ s.Committed q v) (c.readAt p) s) :
    L.Meets id (L.Ends id (ReadAll positions)) (c.readMany positions) s := by
  have hread : L.Meets id (L.Ends id fun values s => values.map Prod.fst = positions ∧
      ∀ q v, (q, v) ∈ values → s.Committed q v)
      (Program.ask (NodeCall.readTogether (positions.map c.readAt))) s := by
    refine ⟨fun i => L.Ends id fun (q, v) s => positions[i]? = some q ∧ s.Committed q v,
      fun i => ?_, ?_, ?_⟩
    · exact hL.lasting_ends fun (q, v) s₁ s₂ hv hlater _ =>
        ⟨hv.1, (hL.grows hlater).committed hv.2⟩
    · intro i read hi
      obtain ⟨q, hq, rfl⟩ := by simpa using hi
      exact (hreads q (List.mem_of_getElem? hq)).mono_ends fun (q', v) _ hv =>
        ⟨hv.1 ▸ hq, hv.2⟩
    · intro s₁ _ _
      refine ⟨fun i e _ he => he, fun values hlength hvalues => ⟨?_, fun q v hmem => ?_⟩⟩
      · -- every read tells its own position
        rw [List.length_map] at hlength
        refine List.ext_getElem (by rw [List.length_map, hlength]) fun i hi hi' => ?_
        have hvalue := (hvalues i values[i] (List.getElem?_eq_getElem (hlength ▸ hi'))).1
        rw [List.getElem?_eq_getElem hi'] at hvalue
        rw [List.getElem_map]
        exact (Option.some.inj hvalue).symm
      · obtain ⟨i, hi, heq⟩ := List.mem_iff_getElem.mp hmem
        exact (hvalues i (q, v) (heq ▸ List.getElem?_eq_getElem hi)).2
  refine hread.andThen hholds ?_ fun e s₁ _ _ he => he
  intro values s₁ _ _ ⟨hpositions, hvalues⟩
  refine ⟨fun q => ?_, fun q v hv => hvalues q v (mem_of_getElem?_ofList hv)⟩
  rw [Std.ExtTreeMap.mem_ofList, hpositions, List.contains_iff_mem]

/-- Positions that are read together all have their committed values, and none is left out. -/
lemma readMany_reads (hL : L.Watching) (hc : s.node.chain = c) (hholds : L.holds s)
    (hwaits : c.Waits L) {positions : List Position} (hfills : ∀ p ∈ positions, L.Filling p) :
    L.Meets id (L.Ends id (ReadAll positions)) (c.readMany positions) s :=
  readMany_of_readAt hL hholds fun p hp => readAt_meets (hfills p hp) hc hholds hwaits

/-- Positions that are read together all have their committed values. -/
lemma readMany_meets (hL : L.Chainlike) (hc : s.node.chain = c) (hholds : L.holds s)
    (hwaits : c.Waits L) {positions : List Position} :
    L.Meets id (L.Ends id fun readings s => ∀ q v, readings[q]? = some v → s.Committed q v)
      (c.readMany positions) s := by
  refine (readMany_reads hL.toWatching hc hholds hwaits fun p _ => hL.filling p).mono
    fun r s₁ hr => ?_
  cases r with
  | ok readings => exact hr.2
  | error e => exact hr

end Chain

end SharedLog
