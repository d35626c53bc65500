/-
# Runs of programs

A run of a program lists what happens from its beginning to its end: how its calls were answered,
and how long its sleeps have lasted. Nothing is assumed of the answers here. A program that is put
together from other ones runs like one of them after the other.
-/
import Mathlib.Tactic.Common
import SharedLog.Program

namespace SharedLog

/-- Something that happens while a program runs. -/
inductive Occurrence (Call : Type) (Answer : Call → Type) : Type
  /-- A call has been answered. -/
  | answered (call : Call) (answer : Answer call)
  /-- A sleep that was to be of some length has lasted for some time. -/
  | slept (asked lasted : Duration)

namespace Program

variable {Call : Type} {Answer : Call → Type} {α β ε ε' : Type}
  {trace : List (Occurrence Call Answer)} {a : α} {b : β}

/-- A program can run to its end like this, with these things happening one after the other. -/
inductive Runs : Program Call Answer α → List (Occurrence Call Answer) → α → Prop
  | done (a : α) : Runs (done a) [] a
  | call {c : Call} {next : Answer c → Program Call Answer α} {r : Answer c}
      {trace : List (Occurrence Call Answer)} {a : α} (h : Runs (next r) trace a) :
      Runs (call c next) (.answered c r :: trace) a
  | sleep {d lasted : Duration} {next : Duration → Program Call Answer α}
      {trace : List (Occurrence Call Answer)} {a : α} (h : Runs (next lasted) trace a) :
      Runs (sleep d next) (.slept d lasted :: trace) a
  | unbounded {p : Nat → Program Call Answer α} {n : Nat} {trace : List (Occurrence Call Answer)}
      {a : α} (h : Runs (p n) trace a) : Runs (unbounded p) trace a

@[simp] lemma runs_done_iff {a' : α} : (done a).Runs trace a' ↔ trace = [] ∧ a' = a := by
  constructor
  · rintro ⟨⟩
    exact ⟨rfl, rfl⟩
  · rintro ⟨rfl, rfl⟩
    exact .done a'

lemma runs_ask_iff {c : Call} {r : Answer c} :
    (ask c : Program Call Answer (Answer c)).Runs trace r ↔ trace = [.answered c r] := by
  constructor
  · rintro (_ | ⟨⟨⟩⟩)
    rfl
  · rintro rfl
    exact .call (.done r)

lemma runs_sleep_iff {d : Duration} {next : Duration → Program Call Answer α} :
    (sleep d next).Runs trace a ↔
      ∃ lasted rest, trace = .slept d lasted :: rest ∧ (next lasted).Runs rest a := by
  constructor
  · rintro (_ | _ | h)
    exact ⟨_, _, rfl, h⟩
  · rintro ⟨lasted, rest, rfl, h⟩
    exact .sleep h

/-- A program followed by another one runs like the one and then like the other. -/
theorem runs_bind_iff {p : Program Call Answer α} {f : α → Program Call Answer β} :
    (p.bind f).Runs trace b ↔
      ∃ first a rest, trace = first ++ rest ∧ p.Runs first a ∧ (f a).Runs rest b := by
  constructor
  · intro h
    induction p generalizing trace with
    | done a => exact ⟨[], a, trace, rfl, .done a, h⟩
    | call c next ih =>
      cases h with
      | call h =>
        obtain ⟨first, a, rest, rfl, hp, hf⟩ := ih _ h
        exact ⟨_, a, rest, rfl, .call hp, hf⟩
    | sleep d next ih =>
      cases h with
      | sleep h =>
        obtain ⟨first, a, rest, rfl, hp, hf⟩ := ih _ h
        exact ⟨_, a, rest, rfl, .sleep hp, hf⟩
    | unbounded p ih =>
      cases h with
      | unbounded h =>
        obtain ⟨first, a, rest, rfl, hp, hf⟩ := ih _ h
        exact ⟨first, a, rest, rfl, .unbounded hp, hf⟩
    | unfinished => cases h
  · rintro ⟨first, a, rest, rfl, hp, hf⟩
    induction hp with
    | done => exact hf
    | call _ ih => exact .call (ih hf)
    | sleep _ ih => exact .sleep (ih hf)
    | unbounded _ ih => exact .unbounded (ih hf)

/-- A program that may fail, followed by another one: it fails, or the other one goes on. -/
lemma runs_andThen_iff {p : Program Call Answer (Except ε α)}
    {f : α → Program Call Answer (Except ε β)} {r : Except ε β} :
    (p.andThen f).Runs trace r ↔ (∃ e, r = .error e ∧ p.Runs trace (.error e)) ∨
      ∃ first a rest, trace = first ++ rest ∧ p.Runs first (.ok a) ∧ (f a).Runs rest r := by
  rw [andThen, runs_bind_iff]
  constructor
  · rintro ⟨first, _ | a, rest, rfl, hp, hf⟩
    · obtain ⟨rfl, rfl⟩ := runs_done_iff.mp hf
      exact .inl ⟨_, rfl, (List.append_nil first).symm ▸ hp⟩
    · exact .inr ⟨first, a, rest, rfl, hp, hf⟩
  · rintro (⟨e, rfl, hp⟩ | ⟨first, a, rest, rfl, hp, hf⟩)
    · exact ⟨trace, _, [], (List.append_nil trace).symm, hp, .done _⟩
    · exact ⟨first, _, rest, rfl, hp, hf⟩

lemma runs_mapError_iff {g : ε → ε'} {p : Program Call Answer (Except ε α)} {r : Except ε' α} :
    (p.mapError g).Runs trace r ↔ ∃ r₀ : Except ε α, r = r₀.mapError g ∧ p.Runs trace r₀ := by
  rw [mapError, runs_bind_iff]
  constructor
  · rintro ⟨first, r₀, rest, rfl, hp, hf⟩
    obtain ⟨rfl, rfl⟩ := runs_done_iff.mp hf
    exact ⟨r₀, rfl, (List.append_nil first).symm ▸ hp⟩
  · rintro ⟨r₀, rfl, hp⟩
    exact ⟨trace, r₀, [], (List.append_nil trace).symm, hp, .done _⟩

/-! ## Programs that do not sleep -/

/-- A program never sleeps. -/
def Sleepless (p : Program Call Answer α) : Prop :=
  ∀ trace a, p.Runs trace a → ∀ x ∈ trace, ∃ c r, x = .answered c r

lemma sleepless_done (a : α) : (done a : Program Call Answer α).Sleepless := by
  rintro trace _ ⟨⟩ x ⟨⟩

lemma sleepless_ask (c : Call) : (ask c : Program Call Answer (Answer c)).Sleepless := by
  intro trace r h x hx
  rw [runs_ask_iff.mp h] at hx
  exact ⟨c, r, List.mem_singleton.mp hx⟩

lemma Sleepless.bind {p : Program Call Answer α} {f : α → Program Call Answer β}
    (hp : p.Sleepless) (hf : ∀ a, (f a).Sleepless) : (p.bind f).Sleepless := by
  intro trace b h x hx
  obtain ⟨first, a, rest, rfl, hfirst, hrest⟩ := runs_bind_iff.mp h
  rcases List.mem_append.mp hx with hx | hx
  · exact hp _ _ hfirst x hx
  · exact hf a _ _ hrest x hx

lemma Sleepless.andThen {p : Program Call Answer (Except ε α)}
    {f : α → Program Call Answer (Except ε β)} (hp : p.Sleepless)
    (hf : ∀ a, (f a).Sleepless) : (p.andThen f).Sleepless := by
  refine hp.bind fun r => ?_
  cases r with
  | ok a => exact hf a
  | error e => exact sleepless_done _

lemma Sleepless.mapError {g : ε → ε'} {p : Program Call Answer (Except ε α)}
    (hp : p.Sleepless) : (p.mapError g).Sleepless := hp.bind fun _ => sleepless_done _

end Program

end SharedLog
