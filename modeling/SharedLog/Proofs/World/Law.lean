/-
# Laws

Activities interleave in more ways than can be looked at one by one. A law splits the work: it says
what holds of every scene, how a later scene may differ from an earlier one, and which actions are
allowed in a scene. That an allowed action keeps the law is shown once, for the law. Of each program
it is shown that it does nothing but what is allowed, whatever others do between its actions, as
long as they keep the law too; from the answers it gets it may then conclude what it returns.

`Law.Meets` is that statement about a program, with a condition on the result. It is a fold over the
program, so that a program is treated in the order of its calls, and programs that run one after the
other are treated one after the other (`Program.meets_bind`).

A law can also be used to show that something ends well. Then only some answers are counted on, and
only cut-offs of loops that are long enough; none of these may be left `unfinished`.
-/
import Mathlib.Tactic.Common
import SharedLog.Proofs.World.Move

namespace SharedLog

/-! ## Scenes that differ in nothing that lasts -/

/-- The clients are numbered in order, and each has an epoch. -/
def Scene.Numbered (s : Scene) : Prop :=
  s.node.clients.length = s.node.epochs.length ∧
    ∀ i (c : Client), s.node.clients[i]? = some c → c.index = i

/-- Nothing was done between two scenes, but units may have been switched, clients may have come,
and the bootstrapper may have changed. -/
structure Scene.Calm (s s' : Scene) : Prop where
  chain : s'.node.chain = s.node.chain
  units : s'.node.units.map (fun u => (u.name, u.slots)) =
    s.node.units.map fun u => (u.name, u.slots)
  mailbox : s'.node.mailbox = s.node.mailbox
  clients : s.node.clients <+: s'.node.clients
  epochs : s.node.epochs <+: s'.node.epochs
  numbered : s.Numbered → s'.Numbered
  trace : s'.trace = s.trace

namespace Scene

variable {s s' : Scene}

lemma calm_refl (s : Scene) : s.Calm s :=
  ⟨rfl, rfl, rfl, List.prefix_rfl, List.prefix_rfl, fun h => h, rfl⟩

lemma calm_switch (s : Scene) (place : Nat) (offline : Bool) : s.Calm (s.switch place offline) where
  chain := rfl
  units := by
    apply List.ext_getElem?
    intro i
    simp only [switch, List.getElem?_map, List.getElem?_modify]
    split <;> cases s.node.units[i]? <;> rfl
  mailbox := rfl
  clients := List.prefix_rfl
  epochs := List.prefix_rfl
  numbered h := h
  trace := rfl

lemma calm_join (s : Scene) (epoch : Epoch) (n : UInt32) : s.Calm (s.join epoch n) where
  chain := rfl
  units := rfl
  mailbox := rfl
  clients := List.prefix_append ..
  epochs := List.prefix_append ..
  numbered h := by
    refine ⟨by simpa [join, Node.addClient] using h.1, fun i c hc => ?_⟩
    simp only [join, Node.addClient, List.getElem?_append] at hc
    split at hc
    · exact h.2 i c hc
    · -- the client that has come
      obtain ⟨hi, rfl⟩ : i - s.node.clients.length = 0 ∧ _ := by
        simpa [List.getElem?_singleton] using hc
      dsimp only
      omega
  trace := rfl

lemma calm_conclude (s : Scene) (job : Job) (result : job.Result) :
    s.Calm { s with node := job.conclude s.node result } := by
  cases job <;> exact ⟨rfl, rfl, rfl, List.prefix_rfl, List.prefix_rfl, id, rfl⟩

lemma Calm.slot (h : s.Calm s') (i : Nat) (p : Position) : s'.slot i p = s.slot i p := by
  have hi := congrArg (fun l => l[i]?.bind fun u => u.2[p]?) h.units
  simpa [Scene.slot, List.getElem?_map, Option.bind_map, Function.comp_def] using hi

lemma Calm.names (h : s.Calm s') :
    s'.node.units.map (·.name) = s.node.units.map (·.name) := by
  have hn := congrArg (List.map Prod.fst) h.units
  simpa [List.map_map, Function.comp_def] using hn

end Scene

/-! ## Laws -/

/-- What everybody keeps to. -/
structure Law where
  /-- What holds of every scene. -/
  holds : Scene → Prop
  /-- How a later scene may differ from an earlier one. -/
  later : Scene → Scene → Prop
  /-- Which actions are allowed in a scene. -/
  allows : Action → Scene → Prop
  /-- Which answers are counted on. -/
  heeds : (action : Action) → action.Answer → Prop
  /-- The least number of rounds after which a loop is cut off, if loops have to end. -/
  rounds : Option Nat
  later_refl : ∀ s, later s s
  later_trans : ∀ {s s₁ s₂}, later s s₁ → later s₁ s₂ → later s s₂
  act_keeps : ∀ {s s' id action answer}, holds s → allows action s → s.Acts id action answer s' →
    later s s' ∧ holds s'
  calm_keeps : ∀ {s s'}, holds s → s.Calm s' → later s s' ∧ holds s'

/-! ## Programs that keep a law -/

namespace Program

variable {Call : Type} {Answer : Call → Type} {α β ε ε' σ : Type}
  {ask : (c : Call) → (Answer c → σ → Prop) → σ → Prop} {rounds : Option Nat}

/-- A program begun in a state ends in a state and with a value of which `post` holds, when `ask`
says what a call must satisfy for something to hold of its answer and of the state after it. The
state is a scene, or whatever else one wants to follow along the program. -/
def Meets (ask : (c : Call) → (Answer c → σ → Prop) → σ → Prop) (rounds : Option Nat)
    (post : α → σ → Prop) : Program Call Answer α → σ → Prop
  | done a, s => post a s
  | call c next, s => ask c (fun r s => (next r).Meets ask rounds post s) s
  | sleep d next, s =>
    ∀ late, (next ((min d Worker.longestSleep).add late)).Meets ask rounds post s
  | unbounded p, s => ∀ n, (∀ least ∈ rounds, least ≤ n) → (p n).Meets ask rounds post s
  | unfinished, _ => rounds = none

@[simp] lemma meets_done (post : α → σ → Prop) (a : α) (s : σ) :
    (done a : Program Call Answer α).Meets ask rounds post s ↔ post a s := Iff.rfl

@[simp] lemma meets_call (post : α → σ → Prop) (c : Call)
    (next : Answer c → Program Call Answer α) (s : σ) :
    (call c next).Meets ask rounds post s ↔
      ask c (fun r s => (next r).Meets ask rounds post s) s := Iff.rfl

@[simp] lemma meets_sleep (post : α → σ → Prop) (d : Duration)
    (next : Duration → Program Call Answer α) (s : σ) :
    (sleep d next).Meets ask rounds post s ↔
      ∀ late, (next ((min d Worker.longestSleep).add late)).Meets ask rounds post s := Iff.rfl

@[simp] lemma meets_unbounded (post : α → σ → Prop) (p : Nat → Program Call Answer α)
    (s : σ) : (unbounded p).Meets ask rounds post s ↔
      ∀ n, (∀ least ∈ rounds, least ≤ n) → (p n).Meets ask rounds post s := Iff.rfl

@[simp] lemma meets_unfinished (post : α → σ → Prop) (s : σ) :
    (unfinished : Program Call Answer α).Meets ask rounds post s ↔ rounds = none := Iff.rfl

/-- Of two programs run one after the other, the first has to end so that the second can begin. -/
theorem meets_bind (post : β → σ → Prop) (p : Program Call Answer α)
    (f : α → Program Call Answer β) (s : σ) :
    (p.bind f).Meets ask rounds post s ↔
      p.Meets ask rounds (fun a s => (f a).Meets ask rounds post s) s := by
  induction p generalizing s with
  | done a => rfl
  | call c next ih => simp only [call_bind, meets_call, ih]
  | sleep d next ih => simp only [sleep_bind, meets_sleep, ih]
  | unbounded p ih => simp only [unbounded_bind, meets_unbounded, ih]
  | unfinished => rfl

lemma meets_mapError (g : ε → ε') (post : Except ε' α → σ → Prop)
    (p : Program Call Answer (Except ε α)) (s : σ) :
    (p.mapError g).Meets ask rounds post s ↔
      p.Meets ask rounds (fun r s => post (r.mapError g) s) s := by
  rw [mapError, meets_bind]
  rfl

/-- A weaker condition on the result is met as well. -/
lemma Meets.mono (hask : ∀ c (P Q : Answer c → σ → Prop) s, (∀ r s, P r s → Q r s) →
      ask c P s → ask c Q s) {post post' : α → σ → Prop}
    (hpost : ∀ a s, post a s → post' a s) {p : Program Call Answer α} {s : σ}
    (h : p.Meets ask rounds post s) : p.Meets ask rounds post' s := by
  induction p generalizing s with
  | done a => exact hpost a s h
  | call c next ih => exact hask c _ _ s (fun r s hr => ih r hr) h
  | sleep d next ih => exact fun late => ih _ (h late)
  | unbounded p ih => exact fun n hn => ih n (h n hn)
  | unfinished => exact h

/-- What every call preserves holds at the end as well. -/
lemma Meets.kept {good : σ → Prop} {post : α → σ → Prop} {p : Program Call Answer α}
    {s : σ} (h : p.Meets ask rounds post s) (hs : good s)
    (hask : ∀ c (P Q : Answer c → σ → Prop) s, (∀ r s, P r s → Q r s) →
      ask c P s → ask c Q s)
    (hgood : ∀ c (P : Answer c → σ → Prop) s, good s → ask c P s →
      ask c (fun r s => P r s ∧ good s) s) :
    p.Meets ask rounds (fun a s => post a s ∧ good s) s := by
  induction p generalizing s with
  | done a => exact ⟨h, hs⟩
  | call c next ih => exact hask c _ _ s (fun r s hr => ih r hr.1 hr.2) (hgood c _ s hs h)
  | sleep d next ih => exact fun late => ih _ (h late) hs
  | unbounded p ih => exact fun n hn => ih n (h n hn) hs
  | unfinished => exact h

end Program

/-- A program of the chain makes the same calls as part of a node's program. -/
lemma NodeProgram.meets_ofChain {α σ : Type} {rounds : Option Nat} {post : α → σ → Prop}
    {ask : (c : NodeCall) → (c.Answer → σ → Prop) → σ → Prop} (p : ChainProgram α) {s : σ} :
    (ofChain p).Meets ask rounds post s ↔
      p.Meets (fun c => ask (.act (.onUnit c))) rounds post s := by
  induction p generalizing s with
  | done a => rfl
  | call c next ih =>
    have hnext : (fun r s => (ofChain (next r)).Meets ask rounds post s) =
        fun r s => (next r).Meets (fun c => ask (.act (.onUnit c))) rounds post s := by
      funext r s
      exact propext (ih r)
    exact iff_of_eq (congrArg (fun P => ask (.act (.onUnit c)) P s) hnext)
  | sleep d next ih => exact forall_congr' fun late => ih _
  | unbounded p ih => exact forall₂_congr fun n _ => ih n
  | unfinished => rfl

namespace Law

variable (L : Law) (id : Nat) {α β ε : Type}

/-- A condition on a result and a scene stays true in later scenes. -/
def Lasting (post : α → Scene → Prop) : Prop :=
  ∀ a s s', post a s → L.later s s' → L.holds s' → post a s'

/-- What an action must satisfy for `post` to hold of its answer: it is allowed whenever its turn
comes, and `post` holds after it. -/
def ask (action : Action) (post : action.Answer → Scene → Prop) (s : Scene) : Prop :=
  ∀ s₁, L.later s s₁ → L.holds s₁ → L.allows action s₁ ∧
    ∀ answer s₂, s₁.Acts id action answer s₂ → L.heeds action answer → post answer s₂

/-- A program of the chain keeps the law, and `post` holds of its result. -/
def ChainMeets (post : α → Scene → Prop) (p : ChainProgram α) (s : Scene) : Prop :=
  p.Meets (fun c => L.ask id (.onUnit c)) L.rounds post s

/-- What a call of a node's program must satisfy for `post` to hold of its answer. Reads that run
together each meet a condition of their own, from which `post` follows. -/
def askNode : (c : NodeCall) → (c.Answer → Scene → Prop) → Scene → Prop
  | .act action, post, s => L.ask id action post s
  | .readTogether reads, post, s =>
    ∃ each : Nat → Except ReplicationError (Position × LogData) → Scene → Prop,
      (∀ i, L.Lasting (each i)) ∧
      (∀ i read, reads[i]? = some read → L.ChainMeets id (each i) read s) ∧
      ∀ s₁, L.later s s₁ → L.holds s₁ →
        (∀ i e, i < reads.length → each i (.error e) s₁ → post (.error e) s₁) ∧
        ∀ values : List (Position × LogData), values.length = reads.length →
          (∀ i v, values[i]? = some v → each i (.ok v) s₁) → post (.ok values) s₁

/-- A program of a node keeps the law, and `post` holds of its result. -/
def Meets (post : α → Scene → Prop) (p : NodeProgram α) (s : Scene) : Prop :=
  Program.Meets (L.askNode id) L.rounds post p s

/-! ## Rules -/

variable {L id} {post : α → Scene → Prop} {s s' : Scene}

/-- To show something of an action one may use that the law is kept up to it and by it. -/
lemma ask_intro {action : Action} {post : action.Answer → Scene → Prop}
    (h : ∀ s₁, L.later s s₁ → L.holds s₁ → L.allows action s₁ ∧
      ∀ answer s₂, s₁.Acts id action answer s₂ → L.heeds action answer →
        L.later s₁ s₂ → L.holds s₂ → post answer s₂) : L.ask id action post s := by
  intro s₁ hlater hholds
  obtain ⟨hallows, hanswer⟩ := h s₁ hlater hholds
  refine ⟨hallows, fun answer s₂ hacts hheeds => ?_⟩
  obtain ⟨hlater', hholds'⟩ := L.act_keeps hholds hallows hacts
  exact hanswer answer s₂ hacts hheeds hlater' hholds'

lemma ask_mono {action : Action} {P Q : action.Answer → Scene → Prop}
    (hPQ : ∀ r s, P r s → Q r s) (h : L.ask id action P s) : L.ask id action Q s := by
  intro s₁ hlater hholds
  obtain ⟨hallows, hanswer⟩ := h s₁ hlater hholds
  refine ⟨hallows, fun r s₂ hacts hheeds => ?_⟩
  exact hPQ r s₂ (hanswer r s₂ hacts hheeds)

lemma ask_kept {action : Action} {post : action.Answer → Scene → Prop} (h : L.ask id action post s')
    (hlater : L.later s s') :
    L.ask id action (fun r s₂ => post r s₂ ∧ L.later s s₂ ∧ L.holds s₂) s' := by
  refine ask_intro fun s₁ hlater₁ hholds₁ => ?_
  obtain ⟨hallows, hanswer⟩ := h s₁ hlater₁ hholds₁
  refine ⟨hallows, fun answer s₂ hacts hheeds hlater₂ hholds₂ => ?_⟩
  have hlater' : L.later s s₂ := L.later_trans hlater (L.later_trans hlater₁ hlater₂)
  exact ⟨hanswer answer s₂ hacts hheeds, hlater', hholds₂⟩

lemma ask_later {action : Action} {post : action.Answer → Scene → Prop}
    (h : L.ask id action post s) (hlater : L.later s s') : L.ask id action post s' :=
  fun s₁ hlater₁ hholds₁ => h s₁ (L.later_trans hlater hlater₁) hholds₁

lemma askNode_mono {c : NodeCall} {P Q : c.Answer → Scene → Prop}
    (hPQ : ∀ r s, P r s → Q r s) (h : L.askNode id c P s) : L.askNode id c Q s := by
  cases c with
  | act action => exact ask_mono hPQ h
  | readTogether reads =>
    obtain ⟨each, hlasting, hreads, hend⟩ := h
    refine ⟨each, hlasting, hreads, fun s₁ hlater hholds => ?_⟩
    obtain ⟨hfail, hdone⟩ := hend s₁ hlater hholds
    refine ⟨fun i e hi he => hPQ _ _ (hfail i e hi he), fun values hlength hvalues => ?_⟩
    exact hPQ _ _ (hdone values hlength hvalues)

/-- What has been shown of a program of the chain stays true while others go on. -/
lemma ChainMeets.later (hpost : L.Lasting post) {p : ChainProgram α}
    (h : L.ChainMeets id post p s) (hlater : L.later s s') (hholds : L.holds s') :
    L.ChainMeets id post p s' := by
  induction p with
  | done a => exact hpost a s s' h hlater hholds
  | call c next _ => exact ask_later h hlater
  | sleep d next ih => exact fun late => ih _ (h late)
  | unbounded p ih => exact fun n hn => ih n (h n hn)
  | unfinished => exact h

/-- What has been shown of a program of a node stays true while others go on. -/
lemma Meets.later (hpost : L.Lasting post) {p : NodeProgram α}
    (h : L.Meets id post p s) (hlater : L.later s s') (hholds : L.holds s') :
    L.Meets id post p s' := by
  induction p with
  | done a => exact hpost a s s' h hlater hholds
  | call c next _ =>
    cases c with
    | act action => exact ask_later h hlater
    | readTogether reads =>
      obtain ⟨each, hlasting, hreads, hend⟩ := h
      exact ⟨each, hlasting, fun i read hi => (hreads i read hi).later (hlasting i) hlater hholds,
        fun s₁ hlater₁ hholds₁ => hend s₁ (L.later_trans hlater hlater₁) hholds₁⟩
  | sleep d next ih => exact fun late => ih _ (h late)
  | unbounded p ih => exact fun n hn => ih n (h n hn)
  | unfinished => exact h

lemma ChainMeets.mono {post' : α → Scene → Prop} {p : ChainProgram α}
    (h : L.ChainMeets id post p s) (hpost : ∀ a s, post a s → post' a s) :
    L.ChainMeets id post' p s := by
  refine Program.Meets.mono (fun c P Q s hPQ hP => ?_) hpost h
  exact ask_mono hPQ hP

lemma Meets.mono {post' : α → Scene → Prop} {p : NodeProgram α}
    (h : L.Meets id post p s) (hpost : ∀ a s, post a s → post' a s) : L.Meets id post' p s := by
  refine Program.Meets.mono (fun c P Q s hPQ hP => ?_) hpost h
  exact askNode_mono hPQ hP

/-- While a program of the chain runs, the law is kept. -/
lemma ChainMeets.kept {p : ChainProgram α} (h : L.ChainMeets id post p s) (hholds : L.holds s) :
    L.ChainMeets id (fun a s₁ => post a s₁ ∧ L.later s s₁ ∧ L.holds s₁) p s := by
  refine Program.Meets.kept h ⟨L.later_refl s, hholds⟩ (fun c P Q s hPQ hP => ask_mono hPQ hP)
    fun c P s₁ hs₁ hP => ?_
  exact ask_kept hP hs₁.1

/-- While a program of a node runs, the law is kept. -/
lemma Meets.kept {p : NodeProgram α} (h : L.Meets id post p s) (hholds : L.holds s) :
    L.Meets id (fun a s₁ => post a s₁ ∧ L.later s s₁ ∧ L.holds s₁) p s := by
  refine Program.Meets.kept h ⟨L.later_refl s, hholds⟩ (fun c P Q s hPQ hP => askNode_mono hPQ hP)
    fun c P s₁ hs₁ hP => ?_
  cases c with
  | act action => exact ask_kept hP hs₁.1
  | readTogether reads =>
    obtain ⟨each, hlasting, hreads, hend⟩ := hP
    refine ⟨each, hlasting, hreads, fun s₂ hlater hholds => ?_⟩
    obtain ⟨hfail, hdone⟩ := hend s₂ hlater hholds
    have hlater' : L.later s s₂ := L.later_trans hs₁.1 hlater
    constructor
    · intro i e hi he
      exact ⟨hfail i e hi he, hlater', hholds⟩
    · intro values hlength hvalues
      exact ⟨hdone values hlength hvalues, hlater', hholds⟩

/-- Of two programs of the chain run one after the other, the second begins in a scene that the
first has led to. -/
lemma ChainMeets.bind {β : Type} {good : α → Scene → Prop} {post : β → Scene → Prop}
    {p : ChainProgram α} {f : α → ChainProgram β} (h : L.ChainMeets id good p s)
    (hholds : L.holds s) (hnext : ∀ a s₁, L.later s s₁ → L.holds s₁ → good a s₁ →
      L.ChainMeets id post (f a) s₁) : L.ChainMeets id post (p.bind f) s := by
  refine (Program.meets_bind post p f s).mpr ((h.kept hholds).mono ?_)
  rintro a s₁ ⟨hgood, hlater, hholds₁⟩
  exact hnext a s₁ hlater hholds₁ hgood

/-- Of two programs of a node run one after the other, the second begins in a scene that the first
has led to. -/
lemma Meets.bind {β : Type} {good : α → Scene → Prop} {post : β → Scene → Prop}
    {p : NodeProgram α} {f : α → NodeProgram β} (h : L.Meets id good p s) (hholds : L.holds s)
    (hnext : ∀ a s₁, L.later s s₁ → L.holds s₁ → good a s₁ → L.Meets id post (f a) s₁) :
    L.Meets id post (p.bind f) s := by
  refine (Program.meets_bind post p f s).mpr ((h.kept hholds).mono ?_)
  rintro a s₁ ⟨hgood, hlater, hholds₁⟩
  exact hnext a s₁ hlater hholds₁ hgood

/-- Of two operations on the chain the second is begun only if the first ends well. -/
lemma ChainMeets.andThen {β ε : Type} {good : Except ε α → Scene → Prop}
    {post : Except ε β → Scene → Prop} {p : ChainProgram (Except ε α)}
    {f : α → ChainProgram (Except ε β)} (h : L.ChainMeets id good p s) (hholds : L.holds s)
    (hok : ∀ a s₁, L.later s s₁ → L.holds s₁ → good (.ok a) s₁ → L.ChainMeets id post (f a) s₁)
    (herror : ∀ e s₁, L.later s s₁ → L.holds s₁ → good (.error e) s₁ → post (.error e) s₁) :
    L.ChainMeets id post (p.andThen f) s := by
  refine h.bind hholds fun r s₁ hlater hholds₁ hgood => ?_
  cases r with
  | ok a => exact hok a s₁ hlater hholds₁ hgood
  | error e => exact herror e s₁ hlater hholds₁ hgood

/-- Of two operations of a node the second is begun only if the first ends well. -/
lemma Meets.andThen {β ε : Type} {good : Except ε α → Scene → Prop}
    {post : Except ε β → Scene → Prop} {p : NodeProgram (Except ε α)}
    {f : α → NodeProgram (Except ε β)} (h : L.Meets id good p s) (hholds : L.holds s)
    (hok : ∀ a s₁, L.later s s₁ → L.holds s₁ → good (.ok a) s₁ → L.Meets id post (f a) s₁)
    (herror : ∀ e s₁, L.later s s₁ → L.holds s₁ → good (.error e) s₁ → post (.error e) s₁) :
    L.Meets id post (p.andThen f) s := by
  refine h.bind hholds fun r s₁ hlater hholds₁ hgood => ?_
  cases r with
  | ok a => exact hok a s₁ hlater hholds₁ hgood
  | error e => exact herror e s₁ hlater hholds₁ hgood

/-- An operation on the chain keeps the law as part of a node's operation. -/
lemma meets_ofChain (p : ChainProgram α) :
    L.Meets id post (.ofChain p) s ↔ L.ChainMeets id post p s := NodeProgram.meets_ofChain p

end Law

end SharedLog
