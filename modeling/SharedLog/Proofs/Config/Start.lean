/-
# Nodes from the environment

Whatever the environment is, a configuration that is accepted describes a node that can start, up to
the room in the sequencer's mailbox, and that works: the first append to it takes the first
position.
-/
import SharedLog.Proofs.Client.Outcome
import SharedLog.Proofs.Config.Settings
import SharedLog.Proofs.HoleFill.Configured

namespace SharedLog

variable {c : Config} {node : Node}

/-! ## Accepted configurations -/

/-- The three conditions of the check. -/
theorem Config.validate_eq_ok_iff : c.validate = .ok () ↔
    c.sequencer.maxTokensPerRequest ≠ 0 ∧ c.replication.chainLength ≠ 0 ∧
      c.replication.holeFillDelayMillis ≤ c.replication.holeFillMaxDelayMillis := by
  rw [validate]
  by_cases htokens : c.sequencer.maxTokensPerRequest = 0
  · rw [if_pos htokens]
    exact iff_of_false (fun h => by cases h) fun h => h.1 htokens
  by_cases hchain : c.replication.chainLength = 0
  · rw [if_neg htokens, if_pos hchain]
    exact iff_of_false (fun h => by cases h) fun h => h.2.1 hchain
  by_cases hdelay : c.replication.holeFillMaxDelayMillis < c.replication.holeFillDelayMillis
  · rw [if_neg htokens, if_neg hchain, if_pos hdelay]
    exact iff_of_false (fun h => by cases h) fun h => UInt64.not_lt.mpr h.2.2 hdelay
  · rw [if_neg htokens, if_neg hchain, if_neg hdelay]
    exact iff_of_true rfl ⟨htokens, hchain, UInt64.not_lt.mp hdelay⟩

/-! ## The node -/

/-- A fresh node is what its configuration describes. -/
structure Config.Describes (c : Config) (node : Node) : Prop where
  names : node.chain.names = Node.unitNames c.replication.chainLength.toNat
  policy : node.chain.policy = c.replication.policy
  units : node.units = node.chain.names.map LogUnit.new
  sequencer : node.mailbox.sequencer =
    some (.new c.sequencer.initialEpoch c.sequencer.maxTokensPerRequest)
  capacity : node.mailbox.capacity = c.sequencer.bufferSize.toNat
  clients : node.clients = [⟨0, c.maxAppendAttempts⟩]
  epochs : node.epochs = [c.sequencer.initialEpoch]

lemma Node.length_unitNames (length : Nat) : (unitNames length).length = length := by
  rw [unitNames, List.length_map, List.length_range]

/-- A configuration with units, and with room in the mailbox, describes a node. It can start unless
the room is more than there can be. -/
lemma Config.exists_describes (hchain : c.replication.chainLength ≠ 0)
    (hpos : c.sequencer.bufferSize ≠ 0) : ∃ node, c.Describes node ∧
      Node.ofConfig c =
        if c.sequencer.bufferSize.toNat ≤ Mailbox.largestCapacity then .ok node
        else .error .badBuffer := by
  have hnames : Node.unitNames c.replication.chainLength.toNat ≠ [] := by
    intro hnil
    have hlength := Node.length_unitNames c.replication.chainLength.toNat
    rw [hnil] at hlength
    exact hchain (UInt64.toNat_inj.mp hlength.symm)
  have hsize : 0 < c.sequencer.bufferSize.toNat :=
    Nat.pos_of_ne_zero fun hzero => hpos (UInt64.toNat_inj.mp hzero)
  let fresh : Node := {
    chain := ⟨Node.unitNames c.replication.chainLength.toNat, hnames, c.replication.policy⟩
    units := (Node.unitNames c.replication.chainLength.toNat).map LogUnit.new
    mailbox := .start c.sequencer.bufferSize.toNat hsize
      (.new c.sequencer.initialEpoch c.sequencer.maxTokensPerRequest)
    clients := []
    epochs := []
    bootstrapper := ⟨c.management, none⟩ }
  refine ⟨fresh.addClient c.sequencer.initialEpoch c.maxAppendAttempts,
    ⟨rfl, rfl, rfl, rfl, rfl, rfl, rfl⟩, ?_⟩
  split
  next hroom =>
    have hstart : Node.start (Node.unitNames c.replication.chainLength.toNat) c.replication.policy
        c.sequencer c.management = .ok fresh := by
      rw [Node.start, dif_pos ⟨hsize, hroom⟩, Chain.ofNames, dif_neg hnames]
    rw [Node.ofConfig, hstart]
    rfl
  next hlarge =>
    rw [Node.ofConfig, Node.start, dif_neg fun h => hlarge h.2]
    rfl

namespace Config.Describes

lemma exists_unit (h : c.Describes node) {unit : LogUnit} (hunit : unit ∈ node.units) :
    ∃ name, unit = .new name := by
  rw [h.units] at hunit
  obtain ⟨name, -, rfl⟩ := List.mem_map.mp hunit
  exact ⟨name, rfl⟩

lemma slot_eq_none (h : c.Describes node) (place : Nat) (p : Position) :
    (World.start node).scene.slot place p = none := by
  change (node.units[place]?).bind (·.slots[p]?) = none
  cases hunit : node.units[place]? with
  | none => rfl
  | some unit =>
    obtain ⟨name, rfl⟩ := h.exists_unit (List.mem_of_getElem? hunit)
    exact Std.ExtTreeMap.getElem?_empty

lemma sound (h : c.Describes node) : (World.start node).scene.Sound where
  names := by
    change node.units.map (·.name) = node.chain.names
    rw [h.units, List.map_map]
    exact List.map_id _
  headward _ hv := by
    rw [h.slot_eq_none] at hv
    cases hv
  accepted h := by cases h
  accepted_once h := by cases h

/-- The first append to a fresh node takes the first position. -/
lemma append (h : c.Describes node) (htokens : c.sequencer.maxTokensPerRequest ≠ 0)
    (streams : StreamSet) (payload : List UInt8) :
    (World.start node).RunsAlone (.append 0 streams payload) fun r w' =>
      r = .ok Position.zero ∧ ∃ entry, w'.scene.Committed Position.zero (.entry entry) ∧
        entry.payload = payload ∧ entry.streams = streams := by
  let w := World.start node
  let client : Client := ⟨0, c.maxAppendAttempts⟩
  let q : Sequencer := .new c.sequencer.initialEpoch c.sequencer.maxTokensPerRequest
  have honline : ∀ unit ∈ w.scene.node.units, unit.offline = false := by
    intro unit hunit
    obtain ⟨name, rfl⟩ := h.exists_unit hunit
    rfl
  have hknown : node.epochs[client.index]? = some c.sequencer.initialEpoch := by
    rw [h.epochs]
    rfl
  have htrying : Client.Trying w.scene client q streams c.sequencer.initialEpoch 0 w.scene :=
    ⟨⟨q, h.sequencer, .refl q streams⟩, hknown, rfl, rfl, fun _ _ => rfl⟩
  have hgrants : 0 < q.maxTokens := UInt64.pos_iff_ne_zero.mpr htokens
  have hfree : w.scene.FirstFree q.globalTail 0 :=
    ⟨fun p _ => h.slot_eq_none Chain.head p, fun _ _ => Nat.zero_le _⟩
  have hroom : q.globalTail.val + max 1 client.maxAppendAttempts.toNat < Position.bound := by
    have := client.maxAppendAttempts.toNat_lt
    have hbound : Position.bound = 2 ^ 64 := rfl
    change 0 + _ < _
    omega
  have halone : NodeProgram.Alone w.nextId (Client.ComesTo w.scene client q streams payload
      c.sequencer.initialEpoch 0 (max 1 client.maxAppendAttempts.toNat))
      (client.append node.chain streams payload) w.scene :=
    Client.append_alone htrying h.sound honline hgrants rfl hroom hfree
  have hprogram : (Job.append 0 streams payload).program? w.scene.node =
      some (client.append node.chain streams payload) := by
    change (node.clients[0]?).map _ = _
    rw [h.clients]
    rfl
  refine (World.runsAlone_of_alone rfl hprogram halone).mono ?_
  rintro r w' ⟨-, -, q', -, hends⟩
  have hstale : ¬ c.sequencer.initialEpoch < q.epoch := Nat.lt_irrefl _
  rw [if_neg hstale, if_pos (Nat.le_max_left 1 _)] at hends
  obtain ⟨-, p, entry, hp, rfl, hcommitted, hpayload, hstreams, -⟩ := hends
  obtain rfl : p = Position.zero := Position.ext hp
  exact ⟨rfl, entry, hcommitted, hpayload, hstreams⟩

end Config.Describes

/-- Every environment gives a configuration, and if that is accepted then a node that works.

A setting that is a number is the number that its variable tells, if it can be that number, and else
what it is by default. A configuration that is accepted describes a node with a chain of the
configured length. The room in its sequencer's mailbox is not zero, and the node starts unless that
room is more than there can be in a mailbox. The first append to the node returns the first
position, which is committed then. -/
theorem environment_starts (env : Environment) :
    (∀ s ∈ NumericSetting.all,
      (∀ n, env.Tells s.name n → s.Allows n → s.value (.ofEnvironment env) = n) ∧
      ((∀ n, env.Tells s.name n → ¬ s.Allows n) →
        s.value (.ofEnvironment env) = s.value .default)) ∧
    ∀ c, c = Config.ofEnvironment env → c.validate = .ok () →
      c.sequencer.bufferSize ≠ 0 ∧ ∃ node, c.Describes node ∧
        Node.ofConfig c =
          (if c.sequencer.bufferSize.toNat ≤ Mailbox.largestCapacity then .ok node
          else .error .badBuffer) ∧
        ∀ streams payload,
          (World.start node).RunsAlone (.append 0 streams payload) fun r w' =>
            r = .ok Position.zero ∧ ∃ entry, w'.scene.Committed Position.zero (.entry entry) ∧
              entry.payload = payload ∧ entry.streams = streams := by
  refine ⟨fun s hs => ⟨fun n htells hallows => ?_, fun hnone => ?_⟩, ?_⟩
  · rw [NumericSetting.value_ofEnvironment hs,
      NumericSetting.told?_eq_some_iff.mpr ⟨htells, hallows⟩, Option.getD_some]
  · have htold : s.told? env = none := by
      refine Option.eq_none_iff_forall_not_mem.mpr fun n htold => ?_
      obtain ⟨htells, hallows⟩ := NumericSetting.told?_eq_some_iff.mp htold
      exact hnone n htells hallows
    rw [NumericSetting.value_ofEnvironment hs, htold, Option.getD_none]
  · rintro c rfl hvalid
    obtain ⟨htokens, hchain, -⟩ := Config.validate_eq_ok_iff.mp hvalid
    have hpos : (Config.ofEnvironment env).sequencer.bufferSize ≠ 0 := by
      have hallows := NumericSetting.allows_ofEnvironment List.mem_cons_self env
      exact fun hzero => absurd (congrArg UInt64.toNat hzero) (Nat.ne_of_gt (hallows.2 rfl))
    obtain ⟨node, hdescribes, hnode⟩ := Config.exists_describes hchain hpos
    exact ⟨hpos, node, hdescribes, hnode, hdescribes.append htokens⟩

/-- A plus sign and zeros in front of the length of the chain do not matter. A mailbox of no size is
as good as none, and so is a number of attempts that is just too large. -/
theorem environment_starts_with_three_units :
    let env : Environment := fun name =>
      if name = "SEQLOG_CHAIN_LENGTH" then some "+003".toUTF8
      else if name = "SEQLOG_SEQUENCER_BUFFER_SIZE" then some "0".toUTF8
      else if name = "SEQLOG_APPEND_MAX_ATTEMPTS" then some "4294967296".toUTF8
      else none
    let c := Config.ofEnvironment env
    c.replication.chainLength.toNat = 3 ∧ c.sequencer.bufferSize.toNat = 10000 ∧
      c.maxAppendAttempts.toNat = 5 ∧ c.validate = .ok () ∧
      ∃ node, Node.ofConfig c = .ok node ∧ node.units.length = 3 ∧
        (World.start node).RunsAlone (.append 0 ∅ [1]) fun r _ => r = .ok Position.zero := by
  intro env c
  obtain ⟨hsettings, hstarts⟩ := environment_starts env
  let setting : NumericSetting :=
    ⟨"SEQLOG_CHAIN_LENGTH", 2 ^ 64, true, (·.replication.chainLength.toNat)⟩
  have hsetting : setting ∈ NumericSetting.all := by simp [setting, NumericSetting.all]
  have htells : env.Tells setting.name 3 :=
    ⟨"+003", rfl, ['+'], [0, 0, 3], .inr rfl, by decide, by decide, rfl, rfl⟩
  have hlength : c.replication.chainLength.toNat = 3 :=
    (hsettings setting hsetting).1 3 htells (by decide +kernel)
  have hsize : c.sequencer.bufferSize.toNat = 10000 := by decide +kernel
  have hvalid : c.validate = .ok () := by decide +kernel
  obtain ⟨-, node, hdescribes, hnode, happend⟩ := hstarts c rfl hvalid
  have hroom : c.sequencer.bufferSize.toNat ≤ Mailbox.largestCapacity := by
    rw [hsize]
    decide +kernel
  refine ⟨hlength, hsize, by decide +kernel, hvalid, node, hnode.trans (if_pos hroom), ?_,
    (happend ∅ [1]).mono fun _ _ h => h.1⟩
  rw [hdescribes.units, List.length_map, hdescribes.names, Node.length_unitNames, hlength]

end SharedLog
