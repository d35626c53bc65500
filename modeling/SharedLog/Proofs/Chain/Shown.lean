/-
# What readers are shown

The tail of the chain shows its value of a position to whoever looks there. Every read that gives a
value was shown it by the tail, in its last look and in no other one. So the values that the tail
has shown to an activity are those that its reads have given, in their order, one for each read.
This is so whatever is answered.
-/
import SharedLog.Proofs.Chain.Operations
import SharedLog.Proofs.World.While

namespace SharedLog

variable {good : List Event → Prop} {rounds : Option Nat} {id : Nat} {c : Chain} {p : Position}
  {v : LogData} {past : List Event} {α ε : Type}

/-- What the unit at a place shows when it is asked for the value of a position. -/
def Action.shown? (place : Nat) : (action : Action) → action.Answer → Option (Position × LogData)
  | .onUnit (.peek i p), .ok (some v) => if i = place then some (p, v) else none
  | _, _ => none

/-- Nothing but a look at the tail shows a value. -/
lemma Action.eq_of_shown? (id : Nat) {place : Nat} {action : Action} {answer : action.Answer}
    {p : Position} {v : LogData} (h : action.shown? place answer = some (p, v)) :
    (⟨id, action, answer⟩ : Event) = ⟨id, .onUnit (.peek place p), .ok (some v)⟩ := by
  unfold shown? at h
  split at h
  · split at h
    · cases h
      subst_vars
      rfl
    · cases h
  · cases h

/-- What the tail of a chain has shown in the course of some events, in order. -/
def Chain.shownIn (c : Chain) (past : List Event) : List (Position × LogData) :=
  past.filterMap fun event => event.action.shown? c.tail event.answer

/-- What the tail of the chain has shown to an activity, in order. -/
def Scene.shown (s : Scene) (id : Nat) : List (Position × LogData) :=
  s.node.chain.shownIn (s.deeds id)

namespace Chain

open ChainProgram (LeadsWhile)

section Events

variable {action : Action} {answer : action.Answer}

lemma shownIn_concat_of_some {x : Position × LogData} (h : action.shown? c.tail answer = some x) :
    c.shownIn (past ++ [⟨id, action, answer⟩]) = c.shownIn past ++ [x] := by
  simp [shownIn, h]

lemma shownIn_concat_of_none (h : action.shown? c.tail answer = none) :
    c.shownIn (past ++ [⟨id, action, answer⟩]) = c.shownIn past := by
  simp [shownIn, h]

end Events

/-! ## What operations are shown -/

/-- The tail has shown nothing more. -/
def ShowsNothing (c : Chain) (past : List Event) (_ : α) (past' : List Event) : Prop :=
  c.shownIn past' = c.shownIn past

/-- What the tail has shown to somebody who looks at a position. -/
def PeekShows (c : Chain) (p : Position) (past : List Event) :
    Except ε SlotState → List Event → Prop
  | .ok (.committed v), past' => c.shownIn past' = c.shownIn past ++ [(p, v)]
  | .ok .pending, past' | .ok .empty, past' | .error _, past' => c.shownIn past' = c.shownIn past

/-- What the tail has shown to somebody who reads a position: the value that the read gives. -/
def ReadShows (c : Chain) (p : Position) (past : List Event) :
    Except ε LogData → List Event → Prop
  | .ok v, past' => c.shownIn past' = c.shownIn past ++ [(p, v)]
  | .error _, past' => c.shownIn past' = c.shownIn past

/-- Before a read the tail may have been asked in vain. -/
lemma ReadShows.of_eq {past₀ past' : List Event} {r : Except ε LogData}
    (h : c.shownIn past = c.shownIn past₀) (hr : c.ReadShows p past r past') :
    c.ReadShows p past₀ r past' := by
  cases r with
  | ok v => exact Eq.trans hr (congrArg (· ++ [(p, v)]) h)
  | error e => exact Eq.trans hr h

/-- In a chain of several units the head is not the tail. -/
lemma head_ne_tail (h : c.length ≠ 1) : head ≠ c.tail := by
  have hpos : 0 < c.length := List.length_pos_iff.mpr c.names_ne_nil
  rw [head, tail]
  omega

lemma leadsWhile_ask {call : UnitCall} {post : call.Answer → List Event → Prop}
    (h : ∀ answer, post answer (past ++ [⟨id, .onUnit call, answer⟩])) :
    LeadsWhile good rounds id post (Program.ask call) past := ⟨_, rfl, fun answer _ => h answer⟩

lemma askWrite_shows {place : Nat} {data : LogData} :
    LeadsWhile good rounds id (c.ShowsNothing past) (askWrite place p data) past :=
  leadsWhile_ask fun _ => shownIn_concat_of_none rfl

lemma askPeek_head_shows (h : c.length ≠ 1) :
    LeadsWhile good rounds id (c.ShowsNothing past) (askPeek head p) past := by
  refine leadsWhile_ask fun answer => shownIn_concat_of_none ?_
  match answer with
  | .error e | .ok none => rfl
  | .ok (some v) => exact if_neg (head_ne_tail h)

/-- A look at the tail is shown what the tail holds. -/
lemma askPeek_tail_shows : LeadsWhile good rounds id (fun (r : Except _ _) past' =>
      c.shownIn past' = c.shownIn past ++ (r.toOption.join.map (p, ·)).toList)
    (askPeek c.tail p) past := by
  refine leadsWhile_ask fun answer => ?_
  match answer with
  | .error e | .ok none => exact (shownIn_concat_of_none rfl).trans (List.append_nil _).symm
  | .ok (some v) => exact shownIn_concat_of_some (if_pos rfl)

/-- A look at a position is shown the value that it finds committed. -/
lemma peek_shows : LeadsWhile good rounds id (c.PeekShows p past) (c.peek p) past := by
  refine askPeek_tail_shows.andThen (fun v? past₁ h => ?_) fun e past₁ h => ?_
  · cases v? with
    | some v => exact h
    | none =>
      have hnone : c.shownIn past₁ = c.shownIn past := h.trans (List.append_nil _)
      dsimp only
      split
      · exact hnone
      · refine (askPeek_head_shows ‹_›).andThen (fun v? past₂ h' => ?_) fun e past₂ h' =>
          h'.trans hnone
        cases v? with
        | some v | none => exact h'.trans hnone
  · exact h.trans (List.append_nil _)

lemma copyTo_shows {data : LogData} {units : List (String × Nat)} :
    LeadsWhile good rounds id (c.ShowsNothing past) (copyTo p data units) past := by
  induction units generalizing past with
  | nil => rfl
  | cons unit units ih =>
    refine askWrite_shows.andThen (fun outcome past₁ h => ?_) fun e past₁ h => h
    cases outcome with
    | written => exact ih.mono fun _ _ h' => h'.trans h
    | conflict existing =>
      dsimp only
      split
      · exact ih.mono fun _ _ h' => h'.trans h
      · exact h

lemma holeFill_shows :
    LeadsWhile good rounds id (c.ShowsNothing past) (c.holeFill p) past := by
  refine askWrite_shows.andThen (fun outcome past₁ h => ?_) fun e past₁ h => h
  cases outcome with
  | written | conflict existing => exact copyTo_shows.mono fun _ _ h' => h'.trans h

lemma looks_shows {n attempts : Nat} {elapsed : Duration}
    (hn : rounds = none ∨ c.policy.GivesUp n attempts elapsed) :
    LeadsWhile good rounds id (c.ReadShows p past)
      (c.policy.looks p (c.peek p) n attempts elapsed) past := by
  induction n generalizing past attempts elapsed with
  | zero => exact hn.resolve_right fun h => h
  | succ n ih =>
    have hlook : LeadsWhile good rounds id (c.PeekShows p past)
        ((c.peek p).mapError PeekError.replication) past := by
      refine (Program.meets_mapError ..).mpr (peek_shows.mono fun r past₁ hr => ?_)
      match r with
      | .ok (.committed v) | .ok .pending | .ok .empty | .error e => exact hr
    refine hlook.andThen (fun state past₁ hstate => ?_) fun e past₁ he => he
    cases state with
    | committed v => exact hstate
    | pending | empty =>
      rw [HoleFillPolicy.GivesUp] at hn
      simp only [SlotState.committed?]
      split
      · rename_i delay hdelay
        rw [hdelay] at hn
        refine fun late => (ih (hn.imp_right fun h => h late)).mono fun r past₂ hr => ?_
        exact hr.of_eq hstate
      · exact hstate

/-- A read is shown the value that it gives, once, and nothing else. -/
theorem read_shows (hpatient : ∀ least ∈ rounds, ∀ n, least ≤ n →
      c.policy.GivesUp n 0 Duration.zero) :
    LeadsWhile good rounds id (c.ReadShows p past) (c.read p) past := by
  have hawait : LeadsWhile good rounds id (c.ReadShows p past)
      (c.policy.awaitCommitted p (c.peek p)) past := by
    intro n hn
    refine looks_shows ?_
    cases hrounds : rounds with
    | none => exact .inl rfl
    | some least => exact .inr (hpatient least hrounds n (hn least hrounds))
  refine hawait.bind fun r past₁ hr => ?_
  match r with
  | .ok v => exact hr
  | .error (.replication e) => exact hr
  | .error (.holeFillRequired signal) =>
    -- the position is shown by the second look, if by any
    refine holeFill_shows.andThen (fun _ past₂ h => ?_) fun e past₂ h => h.trans hr
    have heq : c.shownIn past₂ = c.shownIn past := h.trans hr
    refine peek_shows.andThen (fun state past₃ hstate => ?_) fun e past₃ he => Eq.trans he heq
    cases state with
    | committed v => exact Eq.trans hstate (congrArg (· ++ [(p, v)]) heq)
    | pending | empty => exact Eq.trans hstate heq

end Chain

end SharedLog
