/-
# The office's accounts

Every letter that a call has sent is waiting for room, queued, served or lost, and in one of these
places only, unless it was refused or withdrawn. What a call was told is what the sequencer answered
when it served the call's letter, or the letter was not served and is not queued.

That a move keeps the accounts in order (`Kept.step`) is put together from what its parts do: a call
is made or comes to another stage, a letter is sent, let in, served, withdrawn or lost, and answers
are told.
-/
import Mathlib.Data.List.Nodup
import SharedLog.Proofs.Sequencer.Office

namespace SharedLog.Office

variable {q₀ q : Sequencer} {o : Office} {id : Nat} {call : Call} {stage : Stage}
  {answer : AnsweredLetter} {answers : List AnsweredLetter} {letter : Letter}

/-! ## What is kept -/

/-- The letters that were sent, without those that were refused or withdrawn. -/
def letters (o : Office) : List Letter := o.order ++ o.mailbox.waiting

/-- An answer comes from the sequencer, or the letter was not served and is not queued. -/
def Honest (o : Office) (answer : AnsweredLetter) : Prop :=
  answer ∈ o.served ∨ answer.Undelivered ∧
    ∀ letter ∈ o.accepted, letter.sender ≠ answer.letter.sender

/-- The accounts of an office that began with some sequencer. -/
structure Kept (q₀ : Sequencer) (o : Office) : Prop where
  history : o.served.map (·.service) = q₀.history (o.served.map (·.letter.command))
  sequencer : ∀ q, o.mailbox.sequencer = some q →
    q = q₀.after (o.served.map (·.letter.command))
  closed : o.mailbox.sequencer = none → o.mailbox.queue = []
  lost : o.lost ≠ [] → o.mailbox.sequencer = none
  /-- Every call sends one letter at most. -/
  nodup : (o.letters.map (·.sender)).Nodup
  known : ∀ letter ∈ o.letters, ∃ call, o.calls[letter.sender]? = some call ∧
    call.command = letter.command ∧ call.stage ≠ .begun
  waiting : ∀ letter ∈ o.mailbox.waiting,
    ∃ call, o.calls[letter.sender]? = some call ∧ call.stage = .sent
  told : ∀ id call answer, o.calls[id]? = some call → call.stage.answer? = some answer →
    answer.letter = ⟨id, call.command⟩ ∧ o.Honest answer

/-! ## Calls that go on -/

/-- A call comes to another stage. -/
lemma Kept.reach (h : Kept q₀ o) (hcall : o.calls[id]? = some call) (hstage : stage ≠ .begun)
    (hwaiting : stage = .sent ∨ ∀ letter ∈ o.mailbox.waiting, letter.sender ≠ id)
    (htold : ∀ answer, stage.answer? = some answer →
      answer.letter = ⟨id, call.command⟩ ∧ o.Honest answer) : Kept q₀ (o.reach id call stage) where
  history := h.history
  sequencer := h.sequencer
  closed := h.closed
  lost := h.lost
  nodup := h.nodup
  known := by
    intro letter hletter
    obtain ⟨call', hcall', hcommand, hbegun⟩ := h.known letter hletter
    rw [getElem?_reach hcall]
    split
    · rename_i heq
      subst heq
      obtain rfl := Option.some.inj (hcall.symm.trans hcall')
      exact ⟨_, rfl, hcommand, hstage⟩
    · exact ⟨call', hcall', hcommand, hbegun⟩
  waiting := by
    intro letter hletter
    obtain ⟨call', hcall', hsent⟩ := h.waiting letter hletter
    rw [getElem?_reach hcall]
    split
    · rename_i heq
      exact ⟨_, rfl, hwaiting.resolve_right fun hne => hne letter hletter heq.symm⟩
    · exact ⟨call', hcall', hsent⟩
  told := by
    intro j call' answer hcall' hanswer
    rw [getElem?_reach hcall] at hcall'
    split at hcall'
    · rename_i heq
      subst heq
      obtain rfl := Option.some.inj hcall'
      exact htold answer hanswer
    · exact h.told j call' answer hcall' hanswer

/-- A call is made. -/
lemma Kept.begin (h : Kept q₀ o) (handle : Nat) (command : Command) :
    Kept q₀ { o with calls := o.calls ++ [⟨handle, command, .begun⟩] } where
  history := h.history
  sequencer := h.sequencer
  closed := h.closed
  lost := h.lost
  nodup := h.nodup
  known := by
    intro letter hletter
    obtain ⟨call, hcall, hrest⟩ := h.known letter hletter
    refine ⟨call, ?_, hrest⟩
    rw [List.getElem?_append_left (List.getElem?_eq_some_iff.mp hcall).1, hcall]
  waiting := by
    intro letter hletter
    obtain ⟨call, hcall, hsent⟩ := h.waiting letter hletter
    refine ⟨call, ?_, hsent⟩
    rw [List.getElem?_append_left (List.getElem?_eq_some_iff.mp hcall).1, hcall]
  told := by
    intro id call answer hcall hanswer
    rw [List.getElem?_append] at hcall
    split at hcall
    · exact h.told id call answer hcall hanswer
    · -- the new call has no answer
      obtain rfl := List.mem_singleton.mp (List.mem_of_getElem? hcall)
      cases hanswer

/-! ## Letters that go on -/

lemma Kept.lost_eq_nil (h : Kept q₀ o) (hq : o.mailbox.sequencer = some q) : o.lost = [] := by
  by_contra hne
  rw [h.lost hne] at hq
  cases hq

/-- A letter of a call that has none is sent. -/
lemma Kept.post (h : Kept q₀ o) (letter : Letter) (hcall : o.calls[letter.sender]? = some call)
    (hcommand : call.command = letter.command) (hsent : call.stage = .sent)
    (hnew : ∀ other ∈ o.letters, other.sender ≠ letter.sender) :
    Kept q₀ { o with mailbox.waiting := o.mailbox.waiting ++ [letter] } where
  history := h.history
  sequencer := h.sequencer
  closed := h.closed
  lost := h.lost
  nodup := by
    have hletters : letters { o with mailbox.waiting := o.mailbox.waiting ++ [letter] } =
        o.letters ++ [letter] := (List.append_assoc ..).symm
    rw [hletters, List.map_append]
    refine List.Nodup.append h.nodup (List.nodup_singleton _) fun sender hsender heq => ?_
    obtain ⟨other, hother, rfl⟩ := List.mem_map.mp hsender
    exact hnew other hother (List.mem_singleton.mp heq)
  known := by
    intro other hother
    rcases List.mem_append.mp hother with hother | hother
    · exact h.known other (List.mem_append_left _ hother)
    · rcases List.mem_append.mp hother with hother | hother
      · exact h.known other (List.mem_append_right _ hother)
      · obtain rfl := List.mem_singleton.mp hother
        exact ⟨call, hcall, hcommand, by simp [hsent]⟩
  waiting := by
    intro other hother
    rcases List.mem_append.mp hother with hother | hother
    · exact h.waiting other hother
    · obtain rfl := List.mem_singleton.mp hother
      exact ⟨call, hcall, hsent⟩
  told := h.told

/-- Callers who wait are let in. -/
lemma Kept.settle (h : Kept q₀ o) (hq : o.mailbox.sequencer = some q) :
    Kept q₀ { o with mailbox := o.mailbox.settle } := by
  obtain ⟨letIn, hqueue, hwaiting, hsequencer⟩ := o.mailbox.exists_settle
  have hletters : letters { o with mailbox := o.mailbox.settle } = o.letters := by
    simp [letters, order, accepted, h.lost_eq_nil hq, hqueue, hwaiting]
  refine ⟨h.history, fun q' hq' => h.sequencer q' (hsequencer ▸ hq'), fun hnone => ?_,
    fun hne => absurd (h.lost_eq_nil hq) hne, by rw [hletters]; exact h.nodup,
    by rw [hletters]; exact h.known, fun letter hletter => ?_,
    fun id call answer hcall hanswer => ?_⟩
  · rw [hsequencer, hq] at hnone
    cases hnone
  · exact h.waiting letter (hwaiting ▸ List.mem_append_right _ hletter)
  · obtain ⟨heq, hserved | ⟨hundelivered, hnot⟩⟩ := h.told id call answer hcall hanswer
    · exact ⟨heq, .inl hserved⟩
    · refine ⟨heq, .inr ⟨hundelivered, fun letter hletter => ?_⟩⟩
      rw [accepted, hqueue, ← List.append_assoc] at hletter
      rcases List.mem_append.mp hletter with hletter | hletter
      · exact hnot letter hletter
      · -- whoever is let in has no answer yet
        intro hsender
        obtain ⟨call', hcall', hsent⟩ :=
          h.waiting letter (hwaiting ▸ List.mem_append_left _ hletter)
        rw [hsender, heq, hcall] at hcall'
        obtain rfl := Option.some.inj hcall'
        rw [hsent] at hanswer
        cases hanswer

/-- The first letter of the queue is served. -/
lemma Kept.serve (h : Kept q₀ o) (hq : o.mailbox.sequencer = some q) {rest : List Letter}
    (hqueue : o.mailbox.queue = letter :: rest) {o' : Office}
    (ho' : o' = { o with
      mailbox.sequencer := some (q.serve letter.command).2
      mailbox.queue := rest
      served := o.served ++ [⟨letter, (q.serve letter.command).1⟩] }) : Kept q₀ o' := by
  obtain rfl := h.sequencer q hq
  have haccepted : o'.accepted = o.accepted := by simp [ho', accepted, hqueue]
  have hletters : o'.letters = o.letters := by rw [letters, order, haccepted, ho']; rfl
  have hcommands : o'.served.map (·.letter.command) =
      o.served.map (·.letter.command) ++ [letter.command] := by simp [ho']
  constructor
  case history =>
    rw [hcommands, Sequencer.history_append, ← h.history, ho', List.map_append]
    rfl
  case sequencer =>
    intro q' hq'
    rw [ho'] at hq'
    rw [hcommands, Sequencer.after_append]
    exact (Option.some.inj hq').symm
  case closed =>
    rw [ho']
    intro hnone
    cases hnone
  case lost =>
    rw [ho']
    exact fun hne => absurd (h.lost_eq_nil hq) hne
  case nodup => exact hletters ▸ h.nodup
  case known =>
    rw [hletters, ho']
    exact h.known
  case waiting =>
    rw [ho']
    exact h.waiting
  case told =>
    intro id call answer hcall hanswer
    rw [ho'] at hcall
    obtain ⟨heq, hhonest⟩ := h.told id call answer hcall hanswer
    rw [Honest, haccepted, ho']
    exact ⟨heq, hhonest.imp_left (List.mem_append_left _)⟩

/-- A letter that waits for room is withdrawn. -/
lemma Kept.withdraw (h : Kept q₀ o) (id : Nat) :
    Kept q₀ { o with mailbox := o.mailbox.withdraw id } := by
  have hletters : (letters { o with mailbox := o.mailbox.withdraw id }).Sublist o.letters :=
    List.filter_sublist.append_left _
  exact ⟨h.history, h.sequencer, h.closed, h.lost, h.nodup.sublist (hletters.map _),
    fun letter hletter => h.known letter (hletters.subset hletter),
    fun letter hletter => h.waiting letter (List.mem_of_mem_filter hletter), h.told⟩

/-- The sequencer is stopped, and what is queued is lost. -/
lemma Kept.stop (h : Kept q₀ o) :
    Kept q₀ { o with mailbox := o.mailbox.kill.2, lost := o.mailbox.queue ++ o.lost } := by
  have hletters : (letters { o with
      mailbox := o.mailbox.kill.2, lost := o.mailbox.queue ++ o.lost }).Sublist o.letters := by
    simp [letters, order, accepted, Mailbox.kill]
  refine ⟨h.history, by simp [Mailbox.kill], fun _ => rfl, fun _ => rfl,
    h.nodup.sublist (hletters.map _),
    fun letter hletter => h.known letter (hletters.subset hletter), by simp [Mailbox.kill], ?_⟩
  intro id call answer hcall hanswer
  obtain ⟨heq, hhonest⟩ := h.told id call answer hcall hanswer
  refine ⟨heq, hhonest.imp_right fun hlost => ⟨hlost.1, ?_⟩⟩
  intro letter hletter
  rw [accepted, Mailbox.kill, List.append_nil] at hletter
  exact hlost.2 letter (List.mem_append_left _ hletter)

/-! ## Answers that are told -/

/-- A call has sent the letter, or may send it. -/
def Addressed (o : Office) (letter : Letter) : Prop :=
  ∃ call, o.calls[letter.sender]? = some call ∧ call.command = letter.command

lemma Addressed.reach (h : o.Addressed letter) (hcall : o.calls[id]? = some call) (stage : Stage) :
    (o.reach id call stage).Addressed letter := by
  obtain ⟨call', hcall', hcommand⟩ := h
  rw [Addressed, getElem?_reach hcall]
  split
  · rename_i heq
    subst heq
    obtain rfl := Option.some.inj (hcall.symm.trans hcall')
    exact ⟨_, rfl, hcommand⟩
  · exact ⟨call', hcall', hcommand⟩

/-- An answer is told to a call whose letter does not wait for room. -/
lemma Kept.tell (h : Kept q₀ o) (haddressed : o.Addressed answer.letter)
    (hwaiting : ∀ letter ∈ o.mailbox.waiting, letter.sender ≠ answer.letter.sender)
    (hhonest : o.Honest answer) : Kept q₀ (o.tell answer) := by
  rcases o.tell_eq answer with heq | ⟨call, hcall, -, heq⟩
  · rwa [heq]
  · obtain ⟨call', hcall', hcommand⟩ := haddressed
    obtain rfl := Option.some.inj (hcall.symm.trans hcall')
    rw [heq]
    refine h.reach hcall (by simp) (.inr hwaiting) fun answer' hanswer' => ?_
    obtain rfl := Option.some.inj hanswer'
    exact ⟨by rw [hcommand], hhonest⟩

/-- Answers are told to calls whose letters do not wait for room. -/
lemma Kept.deliver (h : Kept q₀ o) (hanswers : ∀ answer ∈ answers, o.Addressed answer.letter ∧
      (∀ letter ∈ o.mailbox.waiting, letter.sender ≠ answer.letter.sender) ∧ o.Honest answer) :
    Kept q₀ (o.deliver answers) := by
  induction answers generalizing o with
  | nil => exact h
  | cons answer answers ih =>
    obtain ⟨haddressed, hwaiting, hhonest⟩ := hanswers answer List.mem_cons_self
    refine ih (h.tell haddressed hwaiting hhonest) fun other hother => ?_
    have hrest := hanswers other (List.mem_cons_of_mem _ hother)
    -- telling one answer says nothing about the others
    rcases o.tell_eq answer with heq | ⟨call, hcall, -, heq⟩ <;> rw [heq]
    · exact hrest
    · exact ⟨hrest.1.reach hcall _, hrest.2⟩

/-! ## Moves -/

lemma Kept.sender_ne (h : Kept q₀ o) {other : Letter} (hletter : letter ∈ o.served.map (·.letter))
    (hother : other ∈ o.mailbox.queue ++ o.lost ++ o.mailbox.waiting) :
    letter.sender ≠ other.sender := by
  have hletters : o.letters =
      o.served.map (·.letter) ++ (o.mailbox.queue ++ o.lost ++ o.mailbox.waiting) := by
    simp [letters, order, accepted]
  have hpairwise := List.pairwise_map.mp h.nodup
  rw [hletters, List.pairwise_append] at hpairwise
  exact hpairwise.2.2 letter hletter other hother

/-- A call that has sent nothing has no letter. -/
lemma Kept.sender_ne_of_begun (h : Kept q₀ o) (hcall : o.calls[id]? = some call)
    (hbegun : call.stage = .begun) (hletter : letter ∈ o.letters) : letter.sender ≠ id := by
  rintro rfl
  obtain ⟨call', hcall', -, hnot⟩ := h.known letter hletter
  obtain rfl := Option.some.inj (hcall.symm.trans hcall')
  exact hnot hbegun

/-- A call whose letter waits for room is in the stage that says so. -/
lemma Kept.sender_ne_of_waiting (h : Kept q₀ o) (hcall : o.calls[id]? = some call)
    (hsent : call.stage ≠ .sent) (hletter : letter ∈ o.mailbox.waiting) : letter.sender ≠ id := by
  rintro rfl
  obtain ⟨call', hcall', hstage⟩ := h.waiting letter hletter
  obtain rfl := Option.some.inj (hcall.symm.trans hcall')
  exact hsent hstage

/-- The letter that was served last is the one whose caller is told. -/
lemma Kept.deliver_served (h : Kept q₀ o) (hserved : answer ∈ o.served) :
    Kept q₀ (o.deliver [answer]) := by
  have hletter : answer.letter ∈ o.served.map (·.letter) := List.mem_map_of_mem hserved
  refine h.deliver fun other hother => ?_
  obtain rfl := List.mem_singleton.mp hother
  obtain ⟨call, hcall, hcommand, -⟩ := h.known _
    (List.mem_append_left _ (List.mem_append_left _ (List.mem_append_left _ hletter)))
  refine ⟨⟨call, hcall, hcommand⟩, fun letter hwaiting => ?_, .inl hserved⟩
  exact (h.sender_ne hletter (List.mem_append_right _ hwaiting)).symm

/-- The sequencer is stopped, and everybody who waits is told. -/
lemma Kept.deliver_stopped (h : Kept q₀ o) : Kept q₀ (Office.deliver
    { o with mailbox := o.mailbox.kill.2, lost := o.mailbox.queue ++ o.lost } o.mailbox.kill.1) := by
  refine h.stop.deliver fun answer hanswer => ?_
  -- all of them are letters that were queued or waited for room
  obtain ⟨hmem, hundelivered⟩ : answer.letter ∈ o.mailbox.queue ++ o.lost ++ o.mailbox.waiting ∧
      answer.Undelivered := by
    rcases List.mem_append.mp hanswer with hanswer | hanswer
    · obtain ⟨letter, hletter, rfl⟩ := List.mem_map.mp hanswer
      exact ⟨by simp [hletter], .inr rfl⟩
    · obtain ⟨letter, hletter, rfl⟩ := List.mem_map.mp hanswer
      exact ⟨by simp [hletter], .inl ⟨_, rfl⟩⟩
  have hknown : answer.letter ∈ o.letters := by
    simpa [letters, order, accepted, or_assoc] using Or.inr (by simpa [or_assoc] using hmem)
  obtain ⟨call, hcall, hcommand, -⟩ := h.known _ hknown
  refine ⟨⟨call, hcall, hcommand⟩, nofun, .inr ⟨hundelivered, fun letter hletter => ?_⟩⟩
  rw [accepted, Mailbox.kill, List.append_nil] at hletter
  exact h.sender_ne hletter hmem

/-- Every move keeps the accounts. -/
theorem Kept.step (h : Kept q₀ o) (m : Move) : Kept q₀ (o.step m) := by
  have hstepped := o.stepped_step m
  generalize o.step m = o' at hstepped ⊢
  cases hstepped with
  | idle => exact h
  | cloned | released => exact { h with }
  | called => exact h.begin _ _
  | refused begun stopped =>
    refine h.reach begun (by simp) (.inr fun letter hletter => ?_) fun answer hanswer => ?_
    · exact h.sender_ne_of_begun begun rfl (List.mem_append_right _ hletter)
    · obtain rfl := Option.some.inj hanswer
      refine ⟨rfl, .inr ⟨.inl ⟨_, rfl⟩, fun letter hletter => ?_⟩⟩
      exact h.sender_ne_of_begun begun rfl
        (List.mem_append_left _ (List.mem_append_left _ hletter))
  | sent begun running =>
    rename_i id handle command q
    have hsent : Kept q₀ (o.reach id ⟨handle, command, .begun⟩ .sent) :=
      h.reach begun (by simp) (.inl rfl) nofun
    have hcall : (o.reach id ⟨handle, command, .begun⟩ .sent).calls[id]? =
        some ⟨handle, command, .sent⟩ := by rw [getElem?_reach begun, if_pos rfl]
    have hposted := hsent.post ⟨id, command⟩ hcall rfl rfl
      fun _ => h.sender_ne_of_begun begun rfl
    exact hposted.settle running
  | served running queue =>
    exact ((h.serve running queue rfl).settle rfl).deliver_served
      (List.mem_append_right _ (List.mem_singleton_self _))
  | taken told =>
    refine h.reach told (by simp) (.inr fun _ => h.sender_ne_of_waiting told (by simp)) ?_
    exact fun answer hanswer => h.told _ _ answer told hanswer
  | dropped found underWay =>
    refine (h.withdraw _).reach found (by simp) (.inr fun letter hletter => ?_) nofun
    exact of_decide_eq_true (List.mem_filter.mp hletter).2
  | stopped => exact h.deliver_stopped
  | finished released queue =>
    exact { h with sequencer := nofun, closed := fun _ => queue, lost := fun _ => rfl }

/-! ## Handles -/

/-- A handle is held while a call is under way on it. -/
def Held (o : Office) : Prop :=
  ∀ call ∈ o.calls, call.stage.isOver = false → o.holds call.handle = true

/-- No call is under way when no handle is held. -/
lemma Held.isOver (h : o.Held) (hnone : ∀ held ∈ o.handles, held = false) {call : Call}
    (hcall : call ∈ o.calls) : call.stage.isOver = true := by
  by_contra hunder
  have hholds := of_decide_eq_true (h call hcall (Bool.eq_false_iff.mpr hunder))
  have hfalse := hnone true (List.mem_of_getElem? hholds)
  cases hfalse

lemma Held.of_eq (h : o.Held) {o' : Office} (hcalls : o'.calls = o.calls)
    (hhandles : o'.handles = o.handles) : o'.Held := by
  intro call hcall hunder
  rw [holds, hhandles]
  exact h call (hcalls ▸ hcall) hunder

lemma Held.reach (h : o.Held) (hcall : o.calls[id]? = some call)
    (hunder : call.stage.isOver = false) (stage : Stage) : (o.reach id call stage).Held := by
  intro call' hcall' hunder'
  rcases List.mem_or_eq_of_mem_set hcall' with hmem | rfl
  · exact h call' hmem hunder'
  · exact h call (List.mem_of_getElem? hcall) hunder

lemma Held.deliver (h : o.Held) (answers : List AnsweredLetter) : (o.deliver answers).Held := by
  induction answers generalizing o with
  | nil => exact h
  | cons answer answers ih =>
    refine ih ?_
    rcases o.tell_eq answer with heq | ⟨call, hcall, hsent, heq⟩ <;> rw [heq]
    · exact h
    · exact h.reach hcall (by rw [hsent]; rfl) _

lemma Held.step (h : o.Held) (m : Move) : (o.step m).Held := by
  have hstepped := o.stepped_step m
  generalize o.step m = o' at hstepped ⊢
  cases hstepped with
  | idle | finished => exact h
  | cloned =>
    intro call hcall hunder
    have hholds := of_decide_eq_true (h call hcall hunder)
    refine decide_eq_true ?_
    exact (List.getElem?_append_left (List.getElem?_eq_some_iff.mp hholds).1).trans hholds
  | released free =>
    -- no call is under way on the handle that is released
    intro call hcall hunder
    have hholds := of_decide_eq_true (h call hcall hunder)
    refine decide_eq_true ((List.getElem?_set_ne ?_).trans hholds)
    rintro rfl
    exact List.any_eq_false.mp free call hcall (by simp [hunder])
  | called held =>
    intro call hcall hunder
    rcases List.mem_append.mp hcall with hcall | hcall
    · exact h call hcall hunder
    · obtain rfl := List.mem_singleton.mp hcall
      exact held
  | refused begun stopped => exact h.reach begun rfl _
  | sent begun running => exact h.reach begun rfl _
  | served running queue => exact Held.deliver (h.of_eq (by rfl) (by rfl)) _
  | taken told => exact h.reach told rfl _
  | dropped found underWay => exact (h.reach found underWay _).of_eq rfl rfl
  | stopped => exact Held.deliver (h.of_eq (by rfl) (by rfl)) _

/-- A sequencer that was not stopped has not ended while a handle is held. -/
lemma released_step (h : o.mailbox.sequencer = none → ∀ held ∈ o.handles, held = false) {m : Move}
    (hkill : m ≠ .kill) (hnone : (o.step m).mailbox.sequencer = none) :
    ∀ held ∈ (o.step m).handles, held = false := by
  have hstepped := o.stepped_step m
  generalize o.step m = o' at hstepped hnone ⊢
  cases hstepped with
  | idle | called | refused | taken | dropped => exact h hnone
  | cloned held =>
    have hfalse := h hnone true (List.mem_of_getElem? (of_decide_eq_true held))
    cases hfalse
  | released =>
    intro held hheld
    rcases List.mem_or_eq_of_mem_set hheld with hmem | rfl
    · exact h hnone held hmem
    · rfl
  | sent begun running =>
    rw [Mailbox.settle] at hnone
    cases running.symm.trans hnone
  | served running queue =>
    rw [(deliver_frame ..).1] at hnone
    cases hnone
  | stopped => exact absurd rfl hkill
  | finished released => exact released

/-! ## Runs -/

/-- A fresh office has its accounts in order. -/
lemma kept_start (capacity : Nat) (h : 0 < capacity) (q : Sequencer) :
    Kept q (start capacity h q) where
  history := rfl
  sequencer _ hq := (Option.some.inj hq).symm
  closed := nofun
  lost hne := absurd rfl hne
  nodup := List.nodup_nil
  known := nofun
  waiting := nofun
  told _ _ _ hcall := by simp [start] at hcall

theorem Kept.play (h : Kept q₀ o) (moves : List Move) : Kept q₀ (o.play moves) :=
  List.foldlRecOn moves Office.step h fun _ ho m _ => ho.step m

lemma Held.play (h : o.Held) (moves : List Move) : (o.play moves).Held :=
  List.foldlRecOn moves Office.step h fun _ ho m _ => ho.step m

lemma released_play (h : o.mailbox.sequencer = none → ∀ held ∈ o.handles, held = false)
    {moves : List Move} (hkill : .kill ∉ moves) (hnone : (o.play moves).mailbox.sequencer = none) :
    ∀ held ∈ (o.play moves).handles, held = false := by
  induction moves generalizing o with
  | nil => exact h hnone
  | cons m moves ih =>
    exact ih (released_step h fun heq => hkill (heq ▸ List.mem_cons_self))
      (fun hmem => hkill (List.mem_cons_of_mem _ hmem)) hnone

end SharedLog.Office
