/-
# One order for all commands

However calls to the sequencer overlap, there is one order of all commands that have entered the
queue, namely the order in which they entered it. What callers are told is what one sequencer
answers that serves the commands in this order.

The order only grows at its end (`Kept.exists_order_step`), and what it grows by belongs to calls
that have not returned. So a call that returns before another one is made comes first.
-/
import Mathlib.Data.List.Induction
import SharedLog.Proofs.Sequencer.Accounts
import SharedLog.Proofs.World.Job

namespace SharedLog.Office

variable {q₀ q : Sequencer} {o : Office} {m : Move} {moves more : List Move} {id : Nat}
  {call : Call} {stage : Stage} {answer : AnsweredLetter} {answers : List AnsweredLetter}
  {letter : Letter}

/-! ## What moves do to letters -/

/-- What a move does to the letters: a letter is sent, the first one of the queue is served, the
sequencer is stopped, or what is queued stays as it is. -/
inductive Moved (o : Office) : Move → Office → Prop
  | sent {id handle : Nat} {command : Command} {q : Sequencer} {o' : Office}
      (call : o.calls[id]? = some ⟨handle, command, .begun⟩)
      (running : o.mailbox.sequencer = some q)
      (mailbox : o'.mailbox =
        .settle { o.mailbox with waiting := o.mailbox.waiting ++ [⟨id, command⟩] })
      (served : o'.served = o.served) (lost : o'.lost = o.lost) : Moved o (.send id) o'
  | served {q : Sequencer} {letter : Letter} {rest : List Letter} {o' : Office}
      (running : o.mailbox.sequencer = some q) (queue : o.mailbox.queue = letter :: rest)
      (mailbox : o'.mailbox = { o.mailbox with
        sequencer := some (q.serve letter.command).2, queue := rest }.settle)
      (served : o'.served = o.served ++ [⟨letter, (q.serve letter.command).1⟩])
      (lost : o'.lost = o.lost) : Moved o .serve o'
  | stopped {o' : Office} (mailbox : o'.mailbox = o.mailbox.kill.2) (served : o'.served = o.served)
      (lost : o'.lost = o.mailbox.queue ++ o.lost) : Moved o .kill o'
  | idle {m : Move} {o' : Office} (kill : m ≠ .kill)
      (serve : m = .serve → o.mailbox.sequencer = none ∨ o.mailbox.queue = [])
      (queue : o'.mailbox.queue = o.mailbox.queue) (served : o'.served = o.served)
      (lost : o'.lost = o.lost) : Moved o m o'

theorem moved_step (o : Office) (m : Move) : o.Moved m (o.step m) := by
  have hstepped := o.stepped_step m
  generalize o.step m = o' at hstepped ⊢
  cases hstepped with
  | idle kill serve => exact .idle kill serve rfl rfl rfl
  | cloned | released | called | refused | taken | dropped | finished =>
    exact .idle nofun nofun rfl rfl rfl
  | sent begun running => exact .sent begun running rfl rfl rfl
  | served running queue =>
    obtain ⟨hmailbox, hserved, hlost, -⟩ := deliver_frame { o with
      mailbox := _, served := o.served ++ [_] } [_]
    exact .served running queue hmailbox hserved hlost
  | stopped =>
    obtain ⟨hmailbox, hserved, hlost, -⟩ := deliver_frame { o with
      mailbox := o.mailbox.kill.2, lost := o.mailbox.queue ++ o.lost } o.mailbox.kill.1
    exact .stopped hmailbox hserved hlost

/-! ## The order of letters -/

/-- Letters enter the queue behind those that have entered it before, and they are letters of calls
that have not come to an end. -/
lemma Kept.exists_order_step (h : Kept q₀ o) (m : Move) : ∃ entered,
    (o.step m).order = o.order ++ entered ∧ ∀ letter ∈ entered,
      letter ∈ (o.step m).mailbox.queue ∧ ∀ answer, ¬ o.Returned letter.sender answer := by
  have hmoved := o.moved_step m
  generalize o.step m = o' at hmoved ⊢
  -- letters that are let in have waited for room, or were sent just now
  have hwaited : ∀ letter ∈ o.mailbox.waiting, ∀ answer, ¬ o.Returned letter.sender answer := by
    rintro letter hletter answer ⟨call, hcall, hreturned⟩
    exact h.sender_ne_of_waiting hcall (by simp [hreturned]) hletter rfl
  cases hmoved with
  | sent call running mailbox served lost =>
    rename_i id handle command q
    obtain ⟨letIn, hqueue, hwaiting, -⟩ :=
      Mailbox.exists_settle { o.mailbox with waiting := o.mailbox.waiting ++ [⟨id, command⟩] }
    refine ⟨letIn, ?_, fun letter hletter => ⟨?_, ?_⟩⟩
    · simp [order, accepted, served, lost, mailbox, hqueue, h.lost_eq_nil running]
    · rw [mailbox, hqueue]
      exact List.mem_append_right _ hletter
    · have hmem : letter ∈ o.mailbox.waiting ++ [⟨id, command⟩] :=
        (congrArg (letter ∈ ·) hwaiting).mpr (List.mem_append_left _ hletter)
      rcases List.mem_append.mp hmem with hmem | hmem
      · exact hwaited letter hmem
      · obtain rfl := List.mem_singleton.mp hmem
        rintro answer ⟨call', hcall', hreturned⟩
        obtain rfl := Option.some.inj (call.symm.trans hcall')
        cases hreturned
  | served running queue mailbox served lost =>
    rename_i q letter rest
    obtain ⟨letIn, hqueue, hwaiting, -⟩ := Mailbox.exists_settle { o.mailbox with
      sequencer := some (q.serve letter.command).2, queue := rest }
    refine ⟨letIn, ?_, fun letter hletter => ⟨?_, ?_⟩⟩
    · simp [order, accepted, served, lost, mailbox, hqueue, queue, h.lost_eq_nil running]
    · rw [mailbox, hqueue]
      exact List.mem_append_right _ hletter
    · exact hwaited letter (hwaiting ▸ List.mem_append_left _ hletter)
  | stopped mailbox served lost =>
    exact ⟨[], by simp [order, accepted, served, lost, mailbox, Mailbox.kill], by simp⟩
  | idle kill serve queue served lost =>
    exact ⟨[], by simp [order, accepted, served, lost, queue], by simp⟩

/-! ## Calls that have returned -/

lemma Returned.of_calls (h : o.Returned id answer) {o' : Office} (hcalls : o'.calls = o.calls) :
    o'.Returned id answer := by
  rwa [Returned, hcalls]

lemma Returned.reach (h : o.Returned id answer) {other : Nat} (hcall : o.calls[other]? = some call)
    (hstage : call.stage.isOver = false) (stage : Stage) :
    (o.reach other call stage).Returned id answer := by
  obtain ⟨call', hcall', hreturned⟩ := h
  refine ⟨call', ?_, hreturned⟩
  rw [getElem?_reach hcall, if_neg, hcall']
  rintro rfl
  obtain rfl := Option.some.inj (hcall.symm.trans hcall')
  rw [hreturned] at hstage
  cases hstage

lemma Returned.deliver (h : o.Returned id answer) (answers : List AnsweredLetter) :
    (o.deliver answers).Returned id answer := by
  induction answers generalizing o with
  | nil => exact h
  | cons other answers ih =>
    refine ih ?_
    rcases o.tell_eq other with heq | ⟨call, hcall, hsent, heq⟩ <;> rw [heq]
    · exact h
    · exact h.reach hcall (by rw [hsent]; rfl) _

/-- What has returned stays so. -/
lemma Returned.step (h : o.Returned id answer) (m : Move) : (o.step m).Returned id answer := by
  have hstepped := o.stepped_step m
  generalize o.step m = o' at hstepped ⊢
  cases hstepped with
  | idle | cloned | released | finished => exact h
  | called =>
    obtain ⟨call, hcall, hreturned⟩ := h
    exact ⟨call, (List.getElem?_append_left (List.getElem?_eq_some_iff.mp hcall).1).trans hcall,
      hreturned⟩
  | refused begun stopped => exact h.reach begun rfl _
  | sent begun running => exact h.reach begun rfl _
  | served running queue => exact Returned.deliver (h.of_calls (by rfl)) _
  | taken told => exact h.reach told rfl _
  | dropped found underWay => exact (h.reach found underWay _).of_calls rfl
  | stopped => exact Returned.deliver (h.of_calls (by rfl)) _

lemma Returned.play (h : o.Returned id answer) (moves : List Move) :
    (o.play moves).Returned id answer :=
  List.foldlRecOn (motive := fun o => o.Returned id answer) moves Office.step h
    fun _ ho m _ => ho.step m

/-! ## The order in the course of a run -/

/-- In the course of some moves letters enter the queue behind those that have entered it before,
and none of them belongs to a call that had returned by then. -/
lemma Kept.exists_order_play (h : Kept q₀ o) (moves : List Move) : ∃ entered,
    (o.play moves).order = o.order ++ entered ∧
      ∀ letter ∈ entered, ∀ answer, ¬ o.Returned letter.sender answer := by
  induction moves generalizing o with
  | nil => exact ⟨[], (List.append_nil _).symm, nofun⟩
  | cons m moves ih =>
    obtain ⟨first, hfirst, hfirst'⟩ := h.exists_order_step m
    obtain ⟨rest, hrest, hrest'⟩ := ih (h.step m)
    refine ⟨first ++ rest, by rw [play_cons, hrest, hfirst, List.append_assoc], ?_⟩
    intro letter hletter answer hreturned
    rcases List.mem_append.mp hletter with hletter | hletter
    · exact (hfirst' letter hletter).2 answer hreturned
    · exact hrest' letter hletter answer (hreturned.step m)

/-- The letters of the order are those that were queued at some moment. -/
lemma Kept.mem_order_play (h : Kept q₀ o) (hnone : o.order = []) (moves : List Move) :
    letter ∈ (o.play moves).order ↔
      ∃ before, before <+: moves ∧ letter ∈ (o.play before).mailbox.queue := by
  constructor
  · intro hletter
    induction moves using List.reverseRecOn with
    | nil => rw [play_nil, hnone] at hletter; cases hletter
    | append_singleton moves m ih =>
      obtain ⟨entered, hentered, hqueued⟩ := (h.play moves).exists_order_step m
      rw [play_append, play_cons, play_nil, hentered] at hletter
      rcases List.mem_append.mp hletter with hletter | hletter
      · obtain ⟨before, hbefore, hmem⟩ := ih hletter
        exact ⟨before, hbefore.trans (List.prefix_append ..), hmem⟩
      · refine ⟨moves ++ [m], List.prefix_rfl, ?_⟩
        rw [play_append, play_cons, play_nil]
        exact (hqueued letter hletter).1
  · rintro ⟨before, ⟨more, rfl⟩, hmem⟩
    obtain ⟨entered, hentered, -⟩ := (h.play before).exists_order_play more
    rw [play_append, hentered]
    exact List.mem_append_left _ (List.mem_append_left _ (List.mem_append_right _ hmem))

/-- What was lost was queued when the sequencer was stopped. -/
lemma mem_lost_play (hnone : o.lost = []) (moves : List Move)
    (hletter : letter ∈ (o.play moves).lost) :
    ∃ before, before ++ [.kill] <+: moves ∧ letter ∈ (o.play before).mailbox.queue := by
  induction moves using List.reverseRecOn with
  | nil => rw [play_nil, hnone] at hletter; cases hletter
  | append_singleton moves m ih =>
    have hearlier : letter ∈ (o.play moves).lost →
        ∃ before, before ++ [.kill] <+: moves ++ [m] ∧
          letter ∈ (o.play before).mailbox.queue := by
      intro hmem
      obtain ⟨before, hbefore, hmem⟩ := ih hmem
      exact ⟨before, hbefore.trans (List.prefix_append ..), hmem⟩
    rw [play_append, play_cons, play_nil] at hletter
    have hmoved := (o.play moves).moved_step m
    generalize (o.play moves).step m = o' at hmoved hletter
    cases hmoved with
    | stopped mailbox served lost =>
      rw [lost] at hletter
      rcases List.mem_append.mp hletter with hletter | hletter
      · exact ⟨moves, List.prefix_rfl, hletter⟩
      · exact hearlier hletter
    | sent call running mailbox served lost => exact hearlier (lost ▸ hletter)
    | served running queue mailbox served lost => exact hearlier (lost ▸ hletter)
    | idle kill serve queue served lost => exact hearlier (lost ▸ hletter)

/-! ## What is queued is served -/

lemma served_prefix_step (o : Office) (m : Move) : o.served <+: (o.step m).served := by
  have hmoved := o.moved_step m
  generalize o.step m = o' at hmoved ⊢
  cases hmoved with
  | served running queue mailbox served lost => exact served ▸ List.prefix_append ..
  | sent call running mailbox served lost => exact served ▸ List.prefix_rfl
  | stopped mailbox served lost => exact served ▸ List.prefix_rfl
  | idle kill serve queue served lost => exact served ▸ List.prefix_rfl

lemma served_prefix_play (o : Office) (moves : List Move) : o.served <+: (o.play moves).served := by
  induction moves generalizing o with
  | nil => exact List.prefix_rfl
  | cons m moves ih => exact (o.served_prefix_step m).trans (ih _)

/-- A letter that is queued is served after as many others as are before it in the queue, whatever
becomes of its caller. -/
theorem Kept.served_of_queued (h : Kept q₀ o) {k : Nat}
    (hletter : o.mailbox.queue[k]? = some letter) (hkill : .kill ∉ more)
    (hserves : k < more.count .serve) :
    letter ∈ (o.play more).served.map (·.letter) := by
  induction more generalizing o k with
  | nil => cases hserves
  | cons m more ih =>
    have hm : m ≠ .kill := fun heq => hkill (heq ▸ List.mem_cons_self)
    have hrest : .kill ∉ more := fun hmem => hkill (List.mem_cons_of_mem _ hmem)
    have hmoved := o.moved_step m
    have hkept := h.step m
    rw [play_cons]
    generalize o.step m = o' at hmoved hkept ⊢
    cases hmoved with
    | sent call running mailbox served lost =>
      refine ih hkept ?_ hrest (by simpa using hserves)
      rw [mailbox]
      exact Mailbox.getElem?_settle hletter
    | served running queue mailbox served lost =>
      rw [queue] at hletter
      cases k with
      | zero =>
        -- the letter is served just now
        obtain rfl := Option.some.inj hletter
        refine ((o'.served_prefix_play more).map _).subset ?_
        simp [served]
      | succ k =>
        refine ih hkept ?_ hrest (by simpa using hserves)
        rw [mailbox]
        exact Mailbox.getElem?_settle hletter
    | stopped mailbox served lost => exact absurd rfl hm
    | idle kill serve queue served lost =>
      -- the sequencer has a letter to serve and is there to do it
      have hnonempty : o.mailbox.queue ≠ [] := by
        intro hnil
        rw [hnil] at hletter
        cases hletter
      have hserve : m ≠ .serve := fun heq => by
        rcases serve heq with hnone | hnil
        · exact hnonempty (h.closed hnone)
        · exact hnonempty hnil
      exact ih hkept (queue ▸ hletter) hrest (by rwa [List.count_cons_of_ne hserve] at hserves)

/-! ## Answers -/

/-- What a sequencer has served, it has served as the commands before had left it. -/
lemma Kept.result_of_served (h : Kept q₀ o) (hanswer : answer ∈ o.served) : ∃ before after,
    o.served = before ++ answer :: after ∧ answer.result =
      ((q₀.after (before.map (·.letter.command))).serve answer.letter.command).1 := by
  obtain ⟨before, after, hserved⟩ := List.append_of_mem hanswer
  have hhistory : q₀.history (o.served.map (·.letter.command)) =
      before.map (·.service) ++ answer.service :: after.map (·.service) := by
    rw [← h.history, hserved, List.map_append, List.map_cons]
  obtain ⟨earlier, hearlier, hresult⟩ := Sequencer.exists_of_history_eq hhistory
  -- the commands served before are known from the history
  have hcommands := congrArg (List.map (·.command)) hearlier
  rw [Sequencer.map_command_history, List.map_map] at hcommands
  obtain rfl : earlier = before.map (·.letter.command) := hcommands
  simp only [AnsweredLetter.service, Service.mk.injEq, true_and, heq_eq_eq] at hresult
  exact ⟨before, after, hserved, hresult⟩

/-- Whoever is told that no sequencer is there has had his command not served, and it will not be
served. -/
lemma Kept.not_served_of_undelivered (h : Kept q₀ o) (hreturned : o.Returned id answer)
    (hundelivered : answer.Undelivered) {done : AnsweredLetter} (hdone : done ∈ o.served) :
    done.letter.sender ≠ id := by
  obtain ⟨call, hcall, hstage⟩ := hreturned
  obtain ⟨heq, hserved | ⟨-, hnot⟩⟩ := h.told id call answer hcall (by rw [hstage]; rfl)
  · -- the sequencer gives no such answer
    obtain ⟨before, -, -, hresult⟩ := h.result_of_served hserved
    exact absurd hundelivered (Sequencer.not_undelivered hresult)
  · have hid : answer.letter.sender = id := by rw [heq]
    exact hid ▸ hnot _ (List.mem_append_left _ (List.mem_map_of_mem hdone))

/-! ## Linearization -/

/-- An order of letters explains a run of an office that began with a sequencer. -/
structure Linearizes (q : Sequencer) (first : Office) (moves : List Move) (order : List Letter) :
    Prop where
  /-- The order is one of the letters that were queued at some moment. -/
  entered : ∀ letter, letter ∈ order ↔
    ∃ before, before <+: moves ∧ letter ∈ (first.play before).mailbox.queue
  /-- Each call has one letter at most. -/
  once : (order.map (·.sender)).Nodup
  /-- A letter has the command of its call. -/
  own : ∀ letter ∈ order, ∃ call, (first.play moves).calls[letter.sender]? = some call ∧
    call.command = letter.command
  /-- A call is told what the sequencer answers to its command after it has served the commands that
  come before, unless it is told that no sequencer is there. -/
  told : ∀ (id : Nat) (call : Call) (answer : AnsweredLetter),
    (first.play moves).calls[id]? = some call → call.stage.answer? = some answer →
      answer.letter = ⟨id, call.command⟩ ∧
      (answer.Undelivered ∨ ∃ before after, order = before ++ answer.letter :: after ∧
        answer.result = ((q.after (before.map (·.command))).serve answer.letter.command).1)
  /-- A call that had returned when another one was made comes before it. -/
  realTime : ∀ before more, moves = before ++ more → ∀ a ∈ order, ∀ b ∈ order, ∀ answer,
    (first.play before).Returned a.sender answer → (first.play before).calls.length ≤ b.sender →
      [a, b].Sublist order
  /-- What was served is the beginning of the order. The rest is queued, or was queued when the
  sequencer was stopped. -/
  served : ∃ rest, order = (first.play moves).served.map (·.letter) ++ rest ∧
    ∀ letter ∈ rest, letter ∈ (first.play moves).mailbox.queue ∨
      ∃ before, before ++ [.kill] <+: moves ∧ letter ∈ (first.play before).mailbox.queue
  /-- The sequencer has served nothing else. -/
  state : ∀ q', (first.play moves).mailbox.sequencer = some q' →
    q' = q.after ((first.play moves).served.map (·.letter.command))
  /-- What is queued is served in its turn, whoever still waits for it, unless the sequencer is
  stopped. -/
  drains : ∀ (k : Nat) (letter : Letter), (first.play moves).mailbox.queue[k]? = some letter →
    ∀ more, .kill ∉ more → k < more.count .serve →
      letter ∈ ((first.play moves).play more).served.map (·.letter)
  /-- When the sequencer has ended without being stopped, no handle is held any more, no call is
  under way, and everything was served. -/
  ended : (first.play moves).mailbox.sequencer = none → .kill ∉ moves →
    (∀ held ∈ (first.play moves).handles, held = false) ∧
      (∀ call ∈ (first.play moves).calls, call.stage.isOver = true) ∧
        order = (first.play moves).served.map (·.letter)
  /-- The command of a call that returns that no sequencer is there is never served. -/
  refused : ∀ id answer, (first.play moves).Returned id answer → answer.Undelivered → ∀ more,
    ∀ done ∈ ((first.play moves).play more).served, done.letter.sender ≠ id

/-- A letter of a call that had returned comes before one of a call that was made later. -/
lemma Kept.pair_sublist_order (h : Kept q₀ o) {a b : Letter} (ha : a ∈ (o.play more).order)
    (hb : b ∈ (o.play more).order) (hreturned : o.Returned a.sender answer)
    (hlater : o.calls.length ≤ b.sender) : [a, b].Sublist (o.play more).order := by
  obtain ⟨entered, horder, hentered⟩ := h.exists_order_play more
  rw [horder, List.mem_append] at ha hb
  have ha : a ∈ o.order := ha.resolve_right fun hmem => hentered a hmem answer hreturned
  have hb : b ∈ entered := hb.resolve_left fun hmem => by
    obtain ⟨call, hcall, -⟩ := h.known b (List.mem_append_left _ hmem)
    exact absurd (List.getElem?_eq_some_iff.mp hcall).1 (Nat.not_lt.mpr hlater)
  rw [horder]
  exact (List.singleton_sublist.mpr ha).append (List.singleton_sublist.mpr hb)

/-- The sequencer is linearizable.

However calls on any number of handles overlap, through a mailbox of any capacity, with callers that
give up at any moment and with a sequencer that is stopped at any moment, there is one order of the
commands that have entered the queue that explains all that callers are told. -/
theorem linearizable (capacity : Nat) (hcapacity : 0 < capacity) (q : Sequencer)
    (moves : List Move) : ∃ order, Linearizes q (start capacity hcapacity q) moves order := by
  have hstart := kept_start capacity hcapacity q
  generalize hfirst : start capacity hcapacity q = first at hstart
  have hnone : first.order = [] := by simp [← hfirst, start, order, accepted, Mailbox.start]
  have hlost : first.lost = [] := by simp [← hfirst, start]
  have hheld : first.Held := by simp [← hfirst, start, Held]
  have hrunning : first.mailbox.sequencer = some q := by simp [← hfirst, start, Mailbox.start]
  have hkept := hstart.play moves
  refine ⟨(first.play moves).order, ?_⟩
  constructor
  case entered => exact fun letter => hstart.mem_order_play hnone moves
  case once => exact (List.nodup_append.mp (List.map_append .. ▸ hkept.nodup)).1
  case own =>
    intro letter hletter
    obtain ⟨call, hcall, hcommand, -⟩ := hkept.known letter (List.mem_append_left _ hletter)
    exact ⟨call, hcall, hcommand⟩
  case told =>
    intro id call answer hcall hanswer
    obtain ⟨heq, hserved | ⟨hundelivered, -⟩⟩ := hkept.told id call answer hcall hanswer
    · obtain ⟨before, after, hserved, hresult⟩ := hkept.result_of_served hserved
      refine ⟨heq, .inr ⟨before.map (·.letter), after.map (·.letter) ++
        ((first.play moves).mailbox.queue ++ (first.play moves).lost), ?_, ?_⟩⟩
      · simp [order, accepted, hserved]
      · rwa [List.map_map]
    · exact ⟨heq, .inl hundelivered⟩
  case realTime =>
    rintro before more rfl a ha b hb answer hreturned hlater
    rw [play_append] at ha hb ⊢
    exact (hstart.play before).pair_sublist_order ha hb hreturned hlater
  case served =>
    refine ⟨(first.play moves).mailbox.queue ++ (first.play moves).lost, ?_, fun letter hmem => ?_⟩
    · simp [order, accepted]
    · exact (List.mem_append.mp hmem).imp_right (mem_lost_play hlost moves)
  case state => exact hkept.sequencer
  case drains => exact fun k letter hletter more hkill => hkept.served_of_queued hletter hkill
  case ended =>
    intro hclosed hkill
    have hnil : (first.play moves).lost = [] := by
      refine List.eq_nil_iff_forall_not_mem.mpr fun letter hletter => ?_
      obtain ⟨before, hbefore, -⟩ := mem_lost_play hlost moves hletter
      exact hkill (hbefore.subset (by simp))
    have hreleased := released_play (by simp [hrunning]) hkill hclosed
    refine ⟨hreleased, fun call => (hheld.play moves).isOver hreleased, ?_⟩
    simp [order, accepted, hkept.closed hclosed, hnil]
  case refused =>
    intro id answer hreturned hundelivered more done hdone
    exact (hkept.play more).not_served_of_undelivered (hreturned.play more) hundelivered hdone

/-- Whether a call has returned an answer is seen from the stages of the calls. -/
lemma returned_of_stages {stages : List Stage} (h : o.calls.map (·.stage) = stages)
    (hanswer : stages[id]? = some (.returned answer)) : o.Returned id answer := by
  rw [← h, List.getElem?_map, Option.map_eq_some_iff] at hanswer
  exact hanswer

instance decidableEqAnswer : (command : Command) → DecidableEq command.Answer
  | .allocate _ => inferInstanceAs (DecidableEq Token)
  | .bootstrap .. => inferInstanceAs (DecidableEq BootstrapOutcome)
  | .metrics => inferInstanceAs (DecidableEq SequencerMetrics)

deriving instance DecidableEq for AnsweredLetter, Stage

/-- Four calls on two handles go through a queue with room for one command. The second caller gives
up while he waits for room. The sequencer is stopped when the third command is queued and the fourth
waits for room. -/
theorem linearizable_until_stopped :
    let q : Sequencer := .new Epoch.zero 5
    let allocate : Command := .allocate ⟨Epoch.zero, 2, ∅⟩
    let bootstrap : Command := .bootstrap (.merge ⟨1, by decide⟩ Position.zero ∅) Timestamp.epoch
    let moves : List Move := [.call 0 allocate, .call 0 allocate, .clone 0, .call 1 .metrics,
      .send 0, .send 1, .send 2, .drop 1, .serve, .take 0, .call 1 bootstrap, .send 3, .kill,
      .take 2, .take 3]
    let o := (start 1 Nat.one_pos q).play moves
    o.calls.map (·.stage) = [
      .returned ⟨⟨0, allocate⟩, .ok ⟨Epoch.zero, Position.zero, 2, ∅⟩⟩, .dropped,
      .returned ⟨⟨2, .metrics⟩, .error Mailbox.answerLost⟩,
      .returned ⟨⟨3, bootstrap⟩, .error Mailbox.shutDown⟩] ∧
    (∃ order, Linearizes q (start 1 Nat.one_pos q) moves order ∧ ⟨2, .metrics⟩ ∈ order) ∧
    ∀ more, ∀ done ∈ (o.play more).served, done.letter.sender ≠ 2 ∧ done.letter.sender ≠ 3 := by
  intro q allocate bootstrap moves o
  have hstages : o.calls.map (·.stage) = [
      .returned ⟨⟨0, allocate⟩, .ok ⟨Epoch.zero, Position.zero, 2, ∅⟩⟩, .dropped,
      .returned ⟨⟨2, .metrics⟩, .error Mailbox.answerLost⟩,
      .returned ⟨⟨3, bootstrap⟩, .error Mailbox.shutDown⟩] := by
    decide +kernel
  obtain ⟨order, horder⟩ := linearizable 1 Nat.one_pos q moves
  refine ⟨hstages, ⟨order, horder, ?_⟩, fun more done hdone => ⟨?_, ?_⟩⟩
  · exact (horder.entered _).mpr ⟨moves.take 9, List.take_prefix .., by decide +kernel⟩
  · exact horder.refused 2 _ (returned_of_stages hstages rfl) (.inr rfl) more done hdone
  · exact horder.refused 3 _ (returned_of_stages hstages rfl) (.inl ⟨_, rfl⟩) more done hdone

end SharedLog.Office
