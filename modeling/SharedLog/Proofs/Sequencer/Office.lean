/-
# The sequencer's office

Callers reach the sequencer through handles. A call sends its command to the mailbox, waits there
for room if it must, and then for the answer; the sequencer serves what is queued, one command at a
time. Handles are cloned and released, and a handle is held while a call is under way on it. A
caller may give up at any moment: then a command that was still waiting for room is withdrawn, and
one that is queued stays. The sequencer may be stopped at once, and it ends by itself when no handle
is held any more and nothing is queued.

An office is the mailbox together with the handles, with all calls made so far, and with a record
of what was served and of what was lost. Nothing that is done depends on the record.
-/
import SharedLog.Proofs.Sequencer.History
import SharedLog.Sequencer.Mailbox

namespace SharedLog

/-! ## Calls -/

/-- How far a call has come. -/
inductive Stage
  /-- The call was made, and nothing was sent yet. -/
  | begun
  /-- The command was sent, and the caller waits for room or for the answer. -/
  | sent
  /-- The answer is there, and the caller has not taken it yet. -/
  | told (answer : AnsweredLetter)
  | returned (answer : AnsweredLetter)
  /-- The caller has given up. -/
  | dropped

namespace Stage

/-- Whether nothing more comes of the call. -/
def isOver : Stage → Bool
  | returned _ | dropped => true
  | _ => false

/-- The answer that was delivered. -/
def answer? : Stage → Option AnsweredLetter
  | told answer | returned answer => some answer
  | _ => none

end Stage

/-- A call made on a handle. -/
structure Call where
  handle : Nat
  command : Command
  stage : Stage

/-! ## Offices -/

/-- The mailbox of the sequencer with those who use it. -/
structure Office where
  mailbox : Mailbox
  /-- For each handle whether it is still held. -/
  handles : List Bool
  /-- The calls made so far. The number of a call is its place in the list, and the letter that it
  sends has this number. -/
  calls : List Call
  /-- What was served so far, the last letter at the end. -/
  served : List AnsweredLetter
  /-- What was queued when the sequencer was stopped. -/
  lost : List Letter

namespace Office

/-- What can happen next. -/
inductive Move
  | clone (handle : Nat)
  | release (handle : Nat)
  | call (handle : Nat) (command : Command)
  /-- A call sends its command. -/
  | send (id : Nat)
  /-- The sequencer serves the next command. -/
  | serve
  /-- A caller takes the answer. -/
  | take (id : Nat)
  /-- A caller gives up. -/
  | drop (id : Nat)
  /-- The sequencer is stopped at once. -/
  | kill
  /-- The sequencer ends, since no command can come any more. -/
  | finish
deriving DecidableEq

/-- The office of a sequencer with one handle, before anything was done. -/
def start (capacity : Nat) (h : 0 < capacity) (q : Sequencer) : Office :=
  ⟨.start capacity h q, [true], [], [], []⟩

/-- Whether a handle is held. -/
def holds (o : Office) (handle : Nat) : Bool := o.handles[handle]? = some true

/-- Whether a call is under way on a handle. -/
def isBusy (o : Office) (handle : Nat) : Bool :=
  o.calls.any fun call => call.handle = handle && !call.stage.isOver

/-- A call comes to another stage. -/
def reach (o : Office) (id : Nat) (call : Call) (stage : Stage) : Office :=
  { o with calls := o.calls.set id { call with stage } }

/-- An answer is told to the caller it is for, if he still waits for it. -/
def tell (o : Office) (answer : AnsweredLetter) : Office :=
  match o.calls[answer.letter.sender]? with
  | some ⟨handle, command, .sent⟩ =>
    o.reach answer.letter.sender ⟨handle, command, .sent⟩ (.told answer)
  | _ => o

/-- Some answers are told to the callers they are for. -/
def deliver (o : Office) (answers : List AnsweredLetter) : Office := answers.foldl tell o

/-- The office after a move. A move that cannot be made changes nothing. -/
def step (o : Office) : Move → Office
  | .clone handle => if o.holds handle then { o with handles := o.handles ++ [true] } else o
  | .release handle =>
    if o.isBusy handle then o else { o with handles := o.handles.set handle false }
  | .call handle command =>
    if o.holds handle then { o with calls := o.calls ++ [⟨handle, command, .begun⟩] } else o
  | .send id =>
    match o.calls[id]? with
    | some ⟨handle, command, .begun⟩ =>
      match o.mailbox.send ⟨id, command⟩ with
      | (some refusal, _) => o.reach id ⟨handle, command, .begun⟩ (.returned refusal)
      | (none, mailbox) => { o.reach id ⟨handle, command, .begun⟩ .sent with mailbox }
    | _ => o
  | .serve =>
    match o.mailbox.serveNext? with
    | some (answer, mailbox) =>
      { o with mailbox, served := o.served ++ [answer] }.deliver [answer]
    | none => o
  | .take id =>
    match o.calls[id]? with
    | some ⟨handle, command, .told answer⟩ =>
      o.reach id ⟨handle, command, .told answer⟩ (.returned answer)
    | _ => o
  | .drop id =>
    match o.calls[id]? with
    | some call =>
      if call.stage.isOver then o
      else { o with mailbox := o.mailbox.withdraw id }.reach id call .dropped
    | none => o
  | .kill =>
    let (answers, mailbox) := o.mailbox.kill
    { o with mailbox, lost := o.mailbox.queue ++ o.lost }.deliver answers
  | .finish =>
    if (∀ held ∈ o.handles, held = false) ∧ o.mailbox.queue = [] then
      { o with mailbox.sequencer := none }
    else o

/-- The office after some moves. -/
def play (o : Office) (moves : List Move) : Office := moves.foldl step o

@[simp] lemma play_nil (o : Office) : o.play [] = o := rfl

@[simp] lemma play_cons (o : Office) (m : Move) (moves : List Move) :
    o.play (m :: moves) = (o.step m).play moves := rfl

lemma play_append (o : Office) (moves more : List Move) :
    o.play (moves ++ more) = (o.play moves).play more := List.foldl_append

/-- A call has returned an answer. -/
def Returned (o : Office) (id : Nat) (answer : AnsweredLetter) : Prop :=
  ∃ call, o.calls[id]? = some call ∧ call.stage = .returned answer

/-- The letters that were served or are queued. -/
def accepted (o : Office) : List Letter := o.served.map (·.letter) ++ o.mailbox.queue

/-- The letters that have entered the queue so far, in the order in which they came. -/
def order (o : Office) : List Letter := o.accepted ++ o.lost

end Office

/-! ## What sequencers never answer -/

/-- The service that an answered letter tells of. -/
def AnsweredLetter.service (answer : AnsweredLetter) : Service :=
  ⟨answer.letter.command, answer.result⟩

/-- An answer that the mailbox gives when no sequencer is there to serve the command. -/
def AnsweredLetter.Undelivered (answer : AnsweredLetter) : Prop :=
  (∃ detail, answer.result = .error (.serviceUnavailable detail)) ∨
    answer.result = .error Mailbox.answerLost

namespace Sequencer

/-- A sequencer that serves a command never answers that there is none. -/
lemma not_undelivered {q : Sequencer} {answer : AnsweredLetter}
    (h : answer.result = (q.serve answer.letter.command).1) : ¬ answer.Undelivered := by
  unfold AnsweredLetter.Undelivered Mailbox.answerLost
  rw [h]
  obtain ⟨⟨sender, command⟩, result⟩ := answer
  cases command with
  | allocate request =>
    have hallocated := q.allocated_allocate request
    simp only [serve]
    generalize (q.allocate request).1 = r, (q.allocate request).2 = q' at hallocated
    cases hallocated <;> simp
  | bootstrap request now =>
    have hbootstrapped := q.bootstrapped_bootstrap request now
    simp only [serve]
    generalize (q.bootstrap request now).1 = r, (q.bootstrap request now).2 = q' at hbootstrapped
    cases hbootstrapped with
    | stale | already | applied => simp
    | refused h =>
      rcases reseed_eq_error h with ⟨-, detail, rfl⟩ | ⟨-, stream, p, -, -, rfl⟩ <;> simp
  | metrics => simp [serve]

end Sequencer

/-! ## The mailbox -/

namespace Mailbox

variable {m : Mailbox} {letter : Letter}

/-- Those who wait are let in from the front. -/
lemma exists_settle (m : Mailbox) : ∃ letIn, m.settle.queue = m.queue ++ letIn ∧
    m.waiting = letIn ++ m.settle.waiting ∧ m.settle.sequencer = m.sequencer :=
  ⟨m.waiting.take (m.capacity - m.queue.length), rfl, (List.take_append_drop ..).symm, rfl⟩

/-- Whoever is queued keeps his place when others are let in. -/
lemma getElem?_settle {k : Nat} (h : m.queue[k]? = some letter) :
    m.settle.queue[k]? = some letter := by
  obtain ⟨letIn, hqueue, -⟩ := m.exists_settle
  rw [hqueue, List.getElem?_append_left (List.getElem?_eq_some_iff.mp h).1, h]

/-- Nobody is let in after the sequencer has stopped. -/
lemma send_of_none (h : m.sequencer = none) (letter : Letter) :
    m.send letter = (some ⟨letter, .error shutDown⟩, m) := by
  simp only [send, h]

lemma send_of_some {q : Sequencer} (h : m.sequencer = some q) (letter : Letter) :
    m.send letter = (none, { m with waiting := m.waiting ++ [letter] }.settle) := by
  rw [send, h]

/-- What is served is the first letter of the queue. -/
lemma exists_of_serveNext? {m' : Mailbox} {answer : AnsweredLetter}
    (h : m.serveNext? = some (answer, m')) : ∃ q letter rest, m.sequencer = some q ∧
      m.queue = letter :: rest ∧ answer = ⟨letter, (q.serve letter.command).1⟩ ∧
      m' = { m with sequencer := some (q.serve letter.command).2, queue := rest }.settle := by
  unfold serveNext? at h
  split at h
  · cases h
    exact ⟨_, _, _, ‹_›, ‹_›, rfl, rfl⟩
  · cases h

/-- Nothing is served if nobody is there to serve it, or if nothing is queued. -/
lemma none_of_serveNext? (h : m.serveNext? = none) : m.sequencer = none ∨ m.queue = [] := by
  unfold serveNext? at h
  split at h
  · cases h
  · rename_i hnot
    cases hq : m.sequencer with
    | none => exact .inl rfl
    | some q =>
      cases hqueue : m.queue with
      | nil => exact .inr rfl
      | cons letter rest => exact absurd hqueue (hnot q letter rest hq)

/-- A command that is asked of an idle mailbox is a letter that is sent and served at once. -/
theorem serveNext?_send_of_idle {q : Sequencer} (hq : m.sequencer = some q) (hqueue : m.queue = [])
    (hwaiting : m.waiting = []) (letter : Letter) :
    (m.send letter).2.serveNext? =
      some (⟨letter, (m.ask letter.command).1⟩, (m.ask letter.command).2) := by
  obtain ⟨capacity, hpos, sequencer, queue, waiting⟩ := m
  obtain ⟨rfl, rfl, rfl⟩ : sequencer = some q ∧ queue = [] ∧ waiting = [] := ⟨hq, hqueue, hwaiting⟩
  obtain ⟨room, rfl⟩ := Nat.exists_eq_add_of_lt hpos
  simp [send, settle, serveNext?, ask]

end Mailbox

/-! ## All that a move can do -/

namespace Office

variable {o : Office}

/-- What can become of an office in a move. -/
inductive Stepped (o : Office) : Move → Office → Prop
  /-- The move cannot be made. -/
  | idle {m : Move} (kill : m ≠ .kill)
      (serve : m = .serve → o.mailbox.sequencer = none ∨ o.mailbox.queue = []) : Stepped o m o
  | cloned {handle : Nat} (held : o.holds handle = true) :
      Stepped o (.clone handle) { o with handles := o.handles ++ [true] }
  | released {handle : Nat} (free : o.isBusy handle = false) :
      Stepped o (.release handle) { o with handles := o.handles.set handle false }
  | called {handle : Nat} {command : Command} (held : o.holds handle = true) :
      Stepped o (.call handle command) { o with calls := o.calls ++ [⟨handle, command, .begun⟩] }
  | refused {id handle : Nat} {command : Command}
      (begun : o.calls[id]? = some ⟨handle, command, .begun⟩)
      (stopped : o.mailbox.sequencer = none) :
      Stepped o (.send id) (o.reach id ⟨handle, command, .begun⟩
        (.returned ⟨⟨id, command⟩, .error Mailbox.shutDown⟩))
  | sent {id handle : Nat} {command : Command} {q : Sequencer}
      (begun : o.calls[id]? = some ⟨handle, command, .begun⟩)
      (running : o.mailbox.sequencer = some q) :
      Stepped o (.send id) { o.reach id ⟨handle, command, .begun⟩ .sent with
        mailbox := .settle { o.mailbox with waiting := o.mailbox.waiting ++ [⟨id, command⟩] } }
  | served {q : Sequencer} {letter : Letter} {rest : List Letter}
      (running : o.mailbox.sequencer = some q) (queue : o.mailbox.queue = letter :: rest) :
      Stepped o .serve (deliver
        { o with
          mailbox := .settle { o.mailbox with
            sequencer := some (q.serve letter.command).2, queue := rest }
          served := o.served ++ [⟨letter, (q.serve letter.command).1⟩] }
        [⟨letter, (q.serve letter.command).1⟩])
  | taken {id handle : Nat} {command : Command} {answer : AnsweredLetter}
      (told : o.calls[id]? = some ⟨handle, command, .told answer⟩) :
      Stepped o (.take id) (o.reach id ⟨handle, command, .told answer⟩ (.returned answer))
  | dropped {id : Nat} {call : Call} (found : o.calls[id]? = some call)
      (underWay : call.stage.isOver = false) :
      Stepped o (.drop id)
        (reach { o with mailbox := o.mailbox.withdraw id } id call .dropped)
  | stopped : Stepped o .kill (deliver
      { o with mailbox := o.mailbox.kill.2, lost := o.mailbox.queue ++ o.lost } o.mailbox.kill.1)
  | finished (released : ∀ held ∈ o.handles, held = false) (queue : o.mailbox.queue = []) :
      Stepped o .finish { o with mailbox.sequencer := none }

theorem stepped_step (o : Office) (m : Move) : o.Stepped m (o.step m) := by
  cases m with
  | clone handle =>
    simp only [step]
    split
    · exact .cloned ‹_›
    · exact .idle nofun nofun
  | release handle =>
    simp only [step]
    split
    · exact .idle nofun nofun
    · exact .released (Bool.eq_false_iff.mpr ‹_›)
  | call handle command =>
    simp only [step]
    split
    · exact .called ‹_›
    · exact .idle nofun nofun
  | send id =>
    simp only [step]
    split
    · cases hq : o.mailbox.sequencer with
      | none =>
        rw [Mailbox.send_of_none hq]
        exact .refused ‹_› hq
      | some q =>
        rw [Mailbox.send_of_some hq]
        exact .sent ‹_› hq
    · exact .idle nofun nofun
  | serve =>
    simp only [step]
    split
    · rename_i hserve
      obtain ⟨q, letter, rest, hq, hqueue, rfl, rfl⟩ := Mailbox.exists_of_serveNext? hserve
      exact .served hq hqueue
    · rename_i hserve
      exact .idle nofun fun _ => Mailbox.none_of_serveNext? hserve
  | take id =>
    simp only [step]
    split
    · exact .taken ‹_›
    · exact .idle nofun nofun
  | drop id =>
    simp only [step]
    split
    · split
      · exact .idle nofun nofun
      · exact .dropped ‹_› (Bool.eq_false_iff.mpr ‹_›)
    · exact .idle nofun nofun
  | kill => exact .stopped
  | finish =>
    simp only [step]
    split
    · rename_i hend
      exact .finished hend.1 hend.2
    · exact .idle nofun nofun

/-- An answer changes the stage of a call at most. -/
lemma tell_eq (o : Office) (answer : AnsweredLetter) : o.tell answer = o ∨
    ∃ call, o.calls[answer.letter.sender]? = some call ∧ call.stage = .sent ∧
      o.tell answer = o.reach answer.letter.sender call (.told answer) := by
  unfold tell
  split
  · exact .inr ⟨_, ‹_›, rfl, rfl⟩
  · exact .inl rfl

/-- Telling answers changes nothing but the stages of calls. -/
lemma deliver_frame (o : Office) (answers : List AnsweredLetter) :
    (o.deliver answers).mailbox = o.mailbox ∧ (o.deliver answers).served = o.served ∧
      (o.deliver answers).lost = o.lost ∧ (o.deliver answers).handles = o.handles := by
  induction answers generalizing o with
  | nil => exact ⟨rfl, rfl, rfl, rfl⟩
  | cons answer answers ih =>
    have hcons : o.deliver (answer :: answers) = (o.tell answer).deliver answers := rfl
    rcases o.tell_eq answer with heq | ⟨call, -, -, heq⟩ <;> rw [hcons, heq] <;> exact ih _

lemma getElem?_reach {id : Nat} {call : Call} (hcall : o.calls[id]? = some call) (stage : Stage)
    (j : Nat) : (o.reach id call stage).calls[j]? =
      if id = j then some { call with stage } else o.calls[j]? := by
  have hid := (List.getElem?_eq_some_iff.mp hcall).1
  rw [reach, List.getElem?_set, if_pos hid]

end Office

end SharedLog
