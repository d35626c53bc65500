/-
# Programs

An operation of the log is a program: a tree of single calls, each of which is one indivisible
action on somebody else, and of sleeps between them. What a call does is not the program's concern,
nor how long a sleep really lasts: it goes on with the answer to the call, or with the time it has
slept. The same program can be run on a virtual clock by answering its calls one after the other, or
be interleaved call by call with other programs.

A loop that nothing in the program bounds is the family of its cut-offs: `unbounded p` stands for a
loop of which `p n` runs the first `n` rounds and then ends in `unfinished`. So a tree is
well-founded although the loop may go on for ever, and whatever happens in finite time happens in
all cut-offs that are long enough.
-/
import SharedLog.Duration

namespace SharedLog

/-- A program that makes calls, each with the type of its answer, and ends with a value. -/
inductive Program (Call : Type) (Answer : Call → Type) (α : Type) : Type
  /-- The program has ended. -/
  | done (value : α)
  /-- The program makes a call and goes on with the answer. -/
  | call (request : Call) (next : Answer request → Program Call Answer α)
  /-- The program waits and goes on with the time it has waited. -/
  | sleep (duration : Duration) (next : Duration → Program Call Answer α)
  /-- The program is in a loop, given by its cut-offs. -/
  | unbounded (cutOff : Nat → Program Call Answer α)
  /-- The loop was cut off here. -/
  | unfinished

namespace Program

variable {Call Call' : Type} {Answer : Call → Type} {Answer' : Call' → Type} {α β γ : Type}

/-- A program followed by another one that uses its value. -/
def bind : Program Call Answer α → (α → Program Call Answer β) → Program Call Answer β
  | done a, f => f a
  | call c next, f => call c fun r => (next r).bind f
  | sleep d next, f => sleep d fun slept => (next slept).bind f
  | unbounded p, f => unbounded fun n => (p n).bind f
  | unfinished, _ => unfinished

instance : Monad (Program Call Answer) where
  pure := done
  bind := bind

/-- The program that makes one call. -/
def ask (c : Call) : Program Call Answer (Answer c) := call c done

/-- A program with each call replaced by a program of other calls. -/
def interpret (f : (c : Call) → Program Call' Answer' (Answer c)) :
    Program Call Answer α → Program Call' Answer' α
  | done a => done a
  | call c next => (f c).bind fun r => (next r).interpret f
  | sleep d next => sleep d fun slept => (next slept).interpret f
  | unbounded p => unbounded fun n => (p n).interpret f
  | unfinished => unfinished

/-! ## Programs that may fail -/

variable {ε ε' : Type}

/-- A program that may fail, followed by another one that uses its value. -/
def andThen (p : Program Call Answer (Except ε α))
    (f : α → Program Call Answer (Except ε β)) : Program Call Answer (Except ε β) :=
  p.bind fun
    | .ok a => f a
    | .error e => done (.error e)

/-- A program whose failure is seen as a failure of another kind. -/
def mapError (g : ε → ε') (p : Program Call Answer (Except ε α)) :
    Program Call Answer (Except ε' α) :=
  p.bind fun r => done (r.mapError g)

@[simp] theorem done_ok_andThen (a : α) (f : α → Program Call Answer (Except ε β)) :
    (done (.ok a)).andThen f = f a := rfl

@[simp] theorem done_error_andThen (e : ε) (f : α → Program Call Answer (Except ε β)) :
    (done (.error e)).andThen f = done (.error e) := rfl

/-! ## Laws of sequencing -/

@[simp] theorem pure_eq (a : α) : (pure a : Program Call Answer α) = done a := rfl

@[simp] theorem bind_eq (p : Program Call Answer α) (f : α → Program Call Answer β) :
    p >>= f = p.bind f := rfl

@[simp] theorem done_bind (a : α) (f : α → Program Call Answer β) : (done a).bind f = f a := rfl

@[simp] theorem call_bind (c : Call) (next : Answer c → Program Call Answer α)
    (f : α → Program Call Answer β) : (call c next).bind f = call c fun r => (next r).bind f := rfl

@[simp] theorem sleep_bind (d : Duration) (next : Duration → Program Call Answer α)
    (f : α → Program Call Answer β) :
    (sleep d next).bind f = sleep d fun slept => (next slept).bind f := rfl

@[simp] theorem unbounded_bind (p : Nat → Program Call Answer α)
    (f : α → Program Call Answer β) : (unbounded p).bind f = unbounded fun n => (p n).bind f := rfl

@[simp] theorem unfinished_bind (f : α → Program Call Answer β) :
    (unfinished : Program Call Answer α).bind f = unfinished := rfl

theorem bind_done (p : Program Call Answer α) : p.bind done = p := by
  induction p <;> simp_all

theorem bind_assoc (p : Program Call Answer α) (f : α → Program Call Answer β)
    (g : β → Program Call Answer γ) : (p.bind f).bind g = p.bind fun a => (f a).bind g := by
  induction p <;> simp_all

instance : LawfulMonad (Program Call Answer) :=
  LawfulMonad.mk' _ bind_done (fun _ _ => rfl) bind_assoc

theorem interpret_ask (t : (c : Call) → Program Call' Answer' (Answer c)) (c : Call) :
    (ask c : Program Call Answer (Answer c)).interpret t = t c := bind_done _

theorem interpret_bind (t : (c : Call) → Program Call' Answer' (Answer c))
    (p : Program Call Answer α) (f : α → Program Call Answer β) :
    (p.bind f).interpret t = (p.interpret t).bind fun a => (f a).interpret t := by
  induction p <;> simp_all [interpret, bind_assoc]

theorem interpret_andThen (t : (c : Call) → Program Call' Answer' (Answer c))
    (p : Program Call Answer (Except ε α)) (f : α → Program Call Answer (Except ε β)) :
    (p.andThen f).interpret t = (p.interpret t).andThen fun a => (f a).interpret t := by
  rw [andThen, interpret_bind, andThen]
  congr 1
  funext r
  cases r <;> rfl

end Program

end SharedLog
