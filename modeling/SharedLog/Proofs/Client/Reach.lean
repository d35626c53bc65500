/-
# What appends reach

An append that runs alone takes the next position, and gets it if the head holds nothing there. So
appends that run one after the other go through all positions from the sequencer's tail on, and
reach any of them that is empty.
-/
import SharedLog.Proofs.Node.Outcome
import SharedLog.Proofs.World.Alone

namespace SharedLog

variable {s s' s'' : Scene} {id : Nat} {p : Position} {v : LogData}

namespace Scene

/-! ## Writes to one position -/

/-- A unit that is online answers a write. -/
lemma Acts.write_of_online {i : Nat} {r : Except ReplicationError WriteOutcome}
    (hacts : s.Acts id (.onUnit (.write i p v)) r s') (hi : i < s.node.units.length)
    (honline : ∀ unit ∈ s.node.units, unit.offline = false) :
    s.slot i p = none ∧ r = .ok .written ∨
      ∃ existing, s.slot i p = some existing ∧ r = .ok (.conflict existing) := by
  have heffect := hacts.write
  generalize s'.slot i p = after at heffect
  cases heffect with
  | written free => exact .inl ⟨free, rfl⟩
  | conflict held => exact .inr ⟨_, held, rfl⟩
  | failed blames =>
    have hoffline := (blames _ (List.getElem?_eq_getElem hi)).1
    rw [honline _ (List.getElem_mem hi)] at hoffline
    cases hoffline

/-- At a position units hold nothing but one value. -/
def Holds (p : Position) (v : LogData) (s : Scene) : Prop :=
  ∀ i, s.slot i p = none ∨ s.slot i p = some v

lemma Holds.of_write (h : s.Holds p v) {i : Nat} {r : Except ReplicationError WriteOutcome}
    (hacts : s.Acts id (.onUnit (.write i p v)) r s') : s'.Holds p v := by
  intro j
  rcases hacts.slot j p with heq | ⟨-, d, hd, hevent⟩
  · exact heq ▸ h j
  · cases hevent
    exact .inr hd

end Scene

namespace Chain

/-- A value is copied to units that hold no other one. -/
lemma copyTo_alone {rest : List (String × Nat)}
    (hrest : ∀ unit ∈ rest, unit.2 < s.node.units.length)
    (honline : ∀ unit ∈ s.node.units, unit.offline = false) (hholds : s.Holds p v) :
    ChainProgram.Alone id (fun r s' => r = .ok () ∧ s.OnlyAt p s') (copyTo p v rest) s := by
  induction rest generalizing s with
  | nil => exact ⟨rfl, .refl p s⟩
  | cons unit rest ih =>
    obtain ⟨name, place⟩ := unit
    intro answer s₁ hacts
    have honly : s.OnlyAt p s₁ := .of_write hacts
    have hnext : ChainProgram.Alone id (fun r s' => r = .ok () ∧ s.OnlyAt p s')
        (copyTo p v rest) s₁ := by
      refine (ih ?_ ?_ (hholds.of_write hacts)).mono fun r s₂ hr => ⟨hr.1, honly.trans hr.2⟩
      · intro unit hunit
        rw [honly.length]
        exact hrest unit (List.mem_cons_of_mem _ hunit)
      · exact World.online_of_labels honline honly.labels
    rcases hacts.write_of_online (hrest _ List.mem_cons_self) honline with
      ⟨-, rfl⟩ | ⟨existing, hheld, rfl⟩
    · exact hnext
    · obtain rfl : existing = v := by
        rcases hholds place with hnone | hsome
        · rw [hheld] at hnone
          cases hnone
        · exact Option.some.inj (hheld.symm.trans hsome)
      simp only [Program.done_bind, if_pos]
      exact hnext

/-- A write alone ends well if the head holds nothing, and touches no other position. -/
lemma write_alone {c : Chain} {entry : LogEntry} (hlength : s.node.units.length = c.length)
    (honline : ∀ unit ∈ s.node.units, unit.offline = false)
    (hempty : s.slot head p = none → ∀ i, s.slot i p = none) :
    ChainProgram.Alone id (fun r s' => (s.slot head p = none → r = .ok ()) ∧ s.OnlyAt p s')
      (c.write p entry) s := by
  have hpos : head < s.node.units.length := hlength ▸ List.length_pos_iff.mpr c.names_ne_nil
  intro answer s₁ hacts
  have honly : s.OnlyAt p s₁ := .of_write hacts
  rcases hacts.write_of_online hpos honline with ⟨hnone, rfl⟩ | ⟨existing, hheld, rfl⟩
  · have hholds : s.Holds p (.entry entry) := fun i => .inl (hempty hnone i)
    refine (copyTo_alone ?_ (World.online_of_labels honline honly.labels)
      (hholds.of_write hacts)).mono fun r s₂ hr => ⟨fun _ => hr.1, honly.trans hr.2⟩
    intro unit hunit
    rw [honly.length, hlength]
    exact List.snd_lt_of_mem_zipIdx (List.mem_of_mem_tail hunit)
  · refine ⟨fun hnone => ?_, honly⟩
    rw [hheld] at hnone
    cases hnone

end Chain

/-! ## One append -/

/-- A request for one position under no older epoch is granted while there are positions. -/
lemma Sequencer.allocate_granted {q : Sequencer} (request : TokenRequest)
    (hcount : request.count = 1) (hepoch : q.epoch ≤ request.epoch) (hgrants : 0 < q.maxTokens)
    (hroom : q.globalTail.val + 1 < Position.bound) :
    ∃ tail, tail.val = q.globalTail.val + 1 ∧ q.allocate request =
      (.ok ⟨q.epoch, q.globalTail, 1, q.tailsOf request.streams⟩,
        q.grant request tail q.globalTail) := by
  have hallocated := q.allocated_allocate request
  have hpair : q.allocate request = ((q.allocate request).1, (q.allocate request).2) := rfl
  rw [hpair]
  generalize (q.allocate request).1 = r at hallocated ⊢
  generalize (q.allocate request).2 = q' at hallocated ⊢
  have hone : request.count.toNat = 1 := by rw [hcount]; rfl
  cases hallocated with
  | stale h => exact absurd h (Nat.not_lt.mpr hepoch)
  | tooMany h =>
    rw [UInt64.lt_iff_toNat_lt] at h hgrants
    rw [hone] at h
    exact absurd h (Nat.not_lt.mpr hgrants)
  | queried _ hzero =>
    rw [hcount] at hzero
    cases hzero
  | overflow _ h =>
    rw [hone, Position.add?_eq_none_iff] at h
    exact absurd hroom (Nat.not_lt.mpr h)
  | @granted tail last _ _ htail hlast =>
    obtain rfl : last = q.globalTail := by
      ext
      omega
    exact ⟨tail, hone ▸ htail, by rw [hcount]⟩

namespace Client

/-- A client can take the next position, and from this one on units hold what they held in the
beginning. -/
structure Ready (base : Scene) (c : Client) (q : Sequencer) (s : Scene) : Prop where
  running : s.node.mailbox.sequencer = some q
  grants : 0 < q.maxTokens
  client : s.node.clients[c.index]? = some c
  known : ∃ epoch, s.node.epochs[c.index]? = some epoch ∧ q.epoch ≤ epoch
  chain : s.node.chain = base.node.chain
  labels : s.node.units.map (fun u => (u.name, u.offline)) =
    base.node.units.map fun u => (u.name, u.offline)
  slot : ∀ p, q.globalTail ≤ p → ∀ i, s.slot i p = base.slot i p

variable {base : Scene} {c : Client} {q q' : Sequencer}

lemma Ready.of_node (h : Ready base c q s) (hnode : s'.node = s.node) : Ready base c q s' where
  running := hnode ▸ h.running
  grants := h.grants
  client := hnode ▸ h.client
  known := hnode ▸ h.known
  chain := hnode ▸ h.chain
  labels := hnode ▸ h.labels
  slot p hp i := by
    rw [Scene.slot, hnode]
    exact h.slot p hp i

/-- What was written to a position before the next one makes no difference. -/
lemma Ready.of_onlyAt (h : Ready base c q s) (honly : s.OnlyAt p s') (hp : p < q.globalTail) :
    Ready base c q s' where
  running := honly.mailbox ▸ h.running
  grants := h.grants
  client := honly.clients ▸ h.client
  known := honly.epochs ▸ h.known
  chain := honly.chain.trans h.chain
  labels := honly.labels.trans h.labels
  slot p' hp' i := by
    refine (honly.slot p' ?_ i).trans (h.slot p' hp' i)
    rintro rfl
    exact absurd hp (Nat.not_lt.mpr hp')

/-- A client that runs alone is given the next position, and can take the one after it then. -/
lemma requestToken_alone (h : Ready base c q s) {epoch : Epoch} (hepoch : q.epoch ≤ epoch)
    (hroom : q.globalTail.val + 1 < Position.bound) (streams : StreamSet) :
    NodeProgram.Alone id (fun r s' => ∃ token q', r = .ok token ∧ token.first = q.globalTail ∧
        q'.globalTail.val = q.globalTail.val + 1 ∧ Ready base c q' s' ∧
        ∀ i p, s'.slot i p = s.slot i p) (c.requestToken ⟨epoch, 1, streams⟩) s := by
  refine NodeProgram.alone_bind fun answer s₁ hacts₁ => ?_
  obtain ⟨tail, htail, hgranted⟩ :=
    Sequencer.allocate_granted ⟨epoch, 1, streams⟩ rfl hepoch h.grants hroom
  obtain ⟨rfl, hserved⟩ := hacts₁.allocate_of_some h.running
  rw [hgranted] at hserved ⊢
  refine NodeProgram.alone_bind fun _ s₂ hacts₂ => ?_
  have hslot : ∀ i p, s₂.slot i p = s.slot i p := fun i p =>
    (hacts₂.slot_of_ne (by simp)).trans (hacts₁.slot_of_ne (by simp))
  refine ⟨_, q.grant ⟨epoch, 1, streams⟩ tail q.globalTail, rfl, rfl, htail, ?_, hslot⟩
  constructor
  case running => exact hacts₂.mailbox rfl ▸ hserved
  case grants => exact h.grants
  case client =>
    rw [hacts₂.clients, hacts₁.clients]
    exact h.client
  case known =>
    obtain ⟨known, hknown, hle⟩ := h.known
    refine ⟨max known q.epoch, ?_, ?_⟩
    · rw [hacts₂.observeEpoch, hacts₁.epochs_of_ne (by simp), List.getElem?_modify, hknown]
      simp
    · simp only [Sequencer.grant, Epoch.le_def, Epoch.val_max]
      omega
  case chain => exact hacts₂.chain.trans (hacts₁.chain.trans h.chain)
  case labels => exact hacts₂.labels.trans (hacts₁.labels.trans h.labels)
  case slot =>
    intro p hp i
    refine (hslot i p).trans (h.slot p ?_ i)
    simp only [Sequencer.grant, Position.le_def] at hp ⊢
    omega

/-- An attempt to append that runs alone takes the next position, gets it if it is empty, and leaves
all later ones as they are. -/
lemma tryAppend_alone (h : Ready base c q s) (hsound : base.Sound)
    (honline : ∀ unit ∈ base.node.units, unit.offline = false)
    (hroom : q.globalTail.val + 1 < Position.bound) (streams : StreamSet) (payload : List UInt8) :
    NodeProgram.Alone id (fun r s' => (base.slot Chain.head q.globalTail = none →
        r = .ok q.globalTail) ∧ ∃ q', q'.globalTail.val = q.globalTail.val + 1 ∧
          Ready base c q' s') (c.tryAppend s.node.chain streams payload) s := by
  refine NodeProgram.alone_bind fun epoch s₁ hacts₁ => ?_
  -- looking up the epoch changes nothing
  obtain ⟨known, hknown, hle⟩ := h.known
  have hepoch : q.epoch ≤ epoch := by
    rw [hacts₁.knownEpoch, List.getD_eq_getElem?_getD, hknown]
    exact hle
  have hready₁ : Ready base c q s₁ := by
    obtain ⟨now, -, hnode⟩ := hacts₁.node_eq
    exact h.of_node hnode
  refine NodeProgram.alone_bind ((requestToken_alone hready₁ hepoch hroom streams).mono ?_)
  rintro _ s₂ ⟨token, q', rfl, hfirst, htail, hready₂, hslot⟩
  have hlt : q.globalTail < q'.globalTail := by
    rw [Position.lt_def]
    omega
  -- what units hold of the position is what they held in the beginning
  have hbase : ∀ i, s₂.slot i q.globalTail = base.slot i q.globalTail := fun i =>
    (hslot i _).trans (hready₁.slot _ (Nat.le_refl _) i)
  have hempty : s₂.slot Chain.head q.globalTail = none → ∀ i, s₂.slot i q.globalTail = none := by
    intro hnone i
    rw [hbase] at hnone ⊢
    cases hslot : base.slot i q.globalTail with
    | none => rfl
    | some v =>
      have hhead : base.slot Chain.head q.globalTail = some v :=
        hsound.headward (Nat.zero_le i) hslot
      rw [hnone] at hhead
      cases hhead
  have hlength : s₂.node.units.length = s.node.chain.length := by
    rw [h.chain, ← hsound.length]
    simpa using congrArg List.length hready₂.labels
  rw [← hfirst] at hempty
  refine NodeProgram.alone_bind (NodeProgram.alone_onChain ((Chain.write_alone hlength
    (World.online_of_labels honline hready₂.labels) hempty).mono ?_))
  rintro r s₃ ⟨hok, honly⟩
  rw [hfirst] at hok honly
  have hready₃ : Ready base c q' s₃ := hready₂.of_onlyAt honly hlt
  cases r with
  | ok _ => exact ⟨fun _ => by rw [hfirst], q', htail, hready₃⟩
  | error e =>
    refine ⟨fun hnone => ?_, q', htail, hready₃⟩
    cases hok ((hbase _).trans hnone)

end Client

/-! ## Appends one after the other -/

/-- The job is an append. -/
def Job.IsAppend : Job → Prop
  | .append .. => True
  | _ => False

namespace World

open Client

variable {w : World} {base : Scene} {c : Client} {q : Sequencer}

/-- An append with a single attempt that runs alone returns, with the next position if it is
empty. -/
lemma append_completes (h : Ready base c q w.scene) (hattempts : c.maxAppendAttempts = 1)
    (hsound : base.Sound) (honline : ∀ unit ∈ base.node.units, unit.offline = false)
    (hroom : q.globalTail.val + 1 < Position.bound) :
    ∃ moves w', Starts moves Job.IsAppend ∧ w' = w.play moves ∧
      (base.slot Chain.head q.globalTail = none →
        w'.Returned w.nextId (.append c.index ∅ []) (.ok q.globalTail)) ∧
      ∃ q', q'.globalTail.val = q.globalTail.val + 1 ∧ Ready base c q' w'.scene := by
  have hprogram : Job.program? w.scene.node (.append c.index ∅ []) =
      some (c.tryAppend w.scene.node.chain ∅ []) := by
    have hone : c.append w.scene.node.chain ∅ [] = c.tryAppend w.scene.node.chain ∅ [] := by
      rw [Client.append, hattempts]
      rfl
    simp only [Job.program?, h.client, Option.map_some, hone]
  have hstart := step_start_eq rfl hprogram
  have hcompletes : (w.step (.start (.append c.index ∅ []))).Completes w.nextId
      (.append c.index ∅ []) fun r s' => (base.slot Chain.head q.globalTail = none →
        r = .ok q.globalTail) ∧ ∃ q', q'.globalTail.val = q.globalTail.val + 1 ∧
          Ready base c q' s' := by
    rw [hstart]
    exact completes_of_alone List.getElem?_concat_length
      (tryAppend_alone h hsound honline hroom ∅ [])
  obtain ⟨turns, result, s', hturns, hreturned, ⟨hok, hnext⟩, hscene, -⟩ := hcompletes
  refine ⟨.start (.append c.index ∅ []) :: turns, _, starts_cons.mpr ⟨?_, hturns.starts⟩, rfl,
    fun hnone => hok hnone ▸ hreturned, ?_⟩
  · rintro _ ⟨⟩
    trivial
  · rw [play_cons, hscene]
    exact hnext

/-- Appends one after the other reach any empty position from the sequencer's tail on. -/
theorem appends_reach {n : Nat} (h : Ready base c q w.scene) (hattempts : c.maxAppendAttempts = 1)
    (hsound : base.Sound) (honline : ∀ unit ∈ base.node.units, unit.offline = false)
    (hroom : p.val + 1 < Position.bound) (hn : q.globalTail.val + n = p.val)
    (hempty : base.slot Chain.head p = none) :
    ∃ more id, Starts more Job.IsAppend ∧
      (w.play more).Returned id (.append c.index ∅ []) (.ok p) := by
  -- by induction on how many appends come before
  induction n generalizing w q with
  | zero =>
    obtain rfl : q.globalTail = p := Position.ext hn
    obtain ⟨moves, w', hmoves, rfl, hreturned, -⟩ :=
      append_completes h hattempts hsound honline hroom
    exact ⟨moves, _, hmoves, hreturned hempty⟩
  | succ n ih =>
    obtain ⟨moves, w', hmoves, rfl, -, q', htail, hready⟩ :=
      append_completes h hattempts hsound honline (by omega)
    obtain ⟨more, id, hmore, hreturned⟩ := ih hready (by omega)
    refine ⟨moves ++ more, id, starts_append.mpr ⟨hmoves, hmore⟩, ?_⟩
    rw [play_append]
    exact hreturned

/-- A client that comes to a node whose units are online can reach any empty position from the
sequencer's tail on. -/
theorem newcomer_reaches (hq : s.node.mailbox.sequencer = some q) (hgrants : 0 < q.maxTokens)
    (hsound : s.Sound) (hnumbered : s.Numbered)
    (honline : ∀ unit ∈ s.node.units, unit.offline = false) (hroom : p.val + 1 < Position.bound)
    (hp : q.globalTail ≤ p) (hempty : s.slot Chain.head p = none) :
    ∃ more id client, Starts more Job.IsAppend ∧
      ((World.start s.node).play more).Returned id (.append client ∅ []) (.ok p) := by
  have hready : Ready s ⟨s.node.clients.length, 1⟩ q
      ((World.start s.node).step (.join q.epoch 1)).scene := by
    refine ⟨hq, hgrants, ?_, ⟨q.epoch, ?_, Nat.le_refl _⟩, rfl, rfl, fun _ _ _ => rfl⟩
    · exact List.getElem?_concat_length
    · dsimp only
      rw [hnumbered.1]
      exact List.getElem?_concat_length
  obtain ⟨more, id, hmore, hreturned⟩ := appends_reach hready rfl hsound honline hroom
    (Nat.add_sub_cancel' hp) hempty
  exact ⟨.join q.epoch 1 :: more, id, _, starts_cons.mpr ⟨nofun, hmore⟩, hreturned⟩

end World

end SharedLog
