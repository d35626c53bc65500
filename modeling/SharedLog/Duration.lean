/-
# Durations

A duration is a whole number of nanoseconds, fewer than `2 ^ 64` seconds long. Products that
leave the range stay at the longest duration; a difference below zero does not exist.

The text of a duration uses the largest unit in which it is at least one, with the exact decimal
fraction and no trailing zeros: `0ns`, `1.5ms`, `1.000000001s`.
-/
namespace SharedLog

/-- A length of time. -/
structure Duration where
  /-- The length in nanoseconds. -/
  nanos : Nat
  /-- Durations last fewer than `2 ^ 64` seconds. -/
  isLt : nanos < UInt64.size * 1_000_000_000
deriving DecidableEq

namespace Duration

@[ext] theorem ext {d e : Duration} (h : d.nanos = e.nanos) : d = e := by
  cases d; cases e; simp_all

/-- No time at all. -/
def zero : Duration := ⟨0, by decide⟩

instance : Inhabited Duration := ⟨zero⟩

/-- The longest duration. -/
def longest : Duration := ⟨UInt64.size * 1_000_000_000 - 1, by decide⟩

/-- The duration of `n` nanoseconds, or the longest one if that is too long. -/
def saturate (n : Nat) : Duration :=
  if h : n < UInt64.size * 1_000_000_000 then ⟨n, h⟩ else longest

/-- The duration of `n` milliseconds. -/
def ofMillis (n : UInt64) : Duration :=
  ⟨n.toNat * 1_000_000, by have := n.toNat_lt; simp only [UInt64.size]; omega⟩

/-- The duration of the given seconds and nanoseconds, if it is in range. -/
def ofParts? (seconds nanos : Nat) : Option Duration :=
  if h : seconds * 1_000_000_000 + nanos < UInt64.size * 1_000_000_000 then some ⟨_, h⟩ else none

/-- The whole seconds of a duration. -/
def seconds (d : Duration) : Nat := d.nanos / 1_000_000_000

/-- What a duration has beyond its whole seconds, in nanoseconds. -/
def subsecond (d : Duration) : Nat := d.nanos % 1_000_000_000

/-- The whole milliseconds of a duration. -/
def millis (d : Duration) : Nat := d.nanos / 1_000_000

instance : LT Duration := ⟨fun d e => d.nanos < e.nanos⟩

instance : LE Duration := ⟨fun d e => d.nanos ≤ e.nanos⟩

instance (d e : Duration) : Decidable (d < e) := inferInstanceAs (Decidable (d.nanos < e.nanos))

instance (d e : Duration) : Decidable (d ≤ e) := inferInstanceAs (Decidable (d.nanos ≤ e.nanos))

instance : Min Duration := ⟨fun d e => if d ≤ e then d else e⟩

/-- Both durations one after the other, cut at the longest duration. -/
def add (d e : Duration) : Duration := saturate (d.nanos + e.nanos)

/-- What is left of `d` after `e`, if `d` is at least as long. -/
def sub? (d e : Duration) : Option Duration :=
  if e ≤ d then some ⟨d.nanos - e.nanos, by have := d.isLt; omega⟩ else none

/-- The shortest whole number of milliseconds that is at least as long, cut at the longest
duration. -/
def roundUpToMillis (d : Duration) : Duration :=
  saturate ((d.nanos + 999_999) / 1_000_000 * 1_000_000)

/-- A duration `k` times over, cut at the longest duration. -/
def scale (d : Duration) (k : Nat) : Duration := saturate (d.nanos * k)

theorem lt_def {d e : Duration} : d < e ↔ d.nanos < e.nanos := Iff.rfl

theorem le_def {d e : Duration} : d ≤ e ↔ d.nanos ≤ e.nanos := Iff.rfl

@[simp] theorem nanos_zero : zero.nanos = 0 := rfl

theorem nanos_saturate (n : Nat) :
    (saturate n).nanos = min n (UInt64.size * 1_000_000_000 - 1) := by
  unfold saturate
  split <;> rename_i h <;> simp only [UInt64.size] at h
  · simp only [UInt64.size]
    omega
  · simp only [longest, UInt64.size]
    omega

@[simp] theorem nanos_ofMillis (n : UInt64) : (ofMillis n).nanos = n.toNat * 1_000_000 := rfl

@[simp] theorem nanos_min (d e : Duration) : (min d e).nanos = min d.nanos e.nanos := by
  change (if d ≤ e then d else e).nanos = _
  split <;> simp_all only [le_def] <;> omega

theorem sub?_eq_some_iff {d e f : Duration} : d.sub? e = some f ↔ d.nanos = e.nanos + f.nanos := by
  unfold sub?
  split <;> rename_i h <;> simp only [le_def] at h
  · simp only [Option.some.injEq]
    constructor
    · rintro rfl
      dsimp only
      omega
    · intro h'
      ext
      dsimp only
      omega
  · simp only [reduceCtorEq, false_iff]
    omega

theorem sub?_eq_none_iff {d e : Duration} : d.sub? e = none ↔ d < e := by
  unfold sub?
  split <;> rename_i h <;> simp only [le_def] at h <;> simp [lt_def] <;> omega

/-! ## Text -/

/-- The decimal digits of a fraction with the given number of places, trailing zeros dropped. -/
def fractionDigits (places n : Nat) : List Char :=
  let digits := Nat.toDigits 10 n
  let padded := List.replicate (places - digits.length) '0' ++ digits
  (padded.reverse.dropWhile (· = '0')).reverse

/-- A number with a fraction of the given number of places; the point goes with a zero fraction. -/
def decimal (whole places fraction : Nat) : String :=
  if fraction = 0 then toString whole
  else toString whole ++ "." ++ String.ofList (fractionDigits places fraction)

/-- The text of a duration, in seconds, milliseconds, microseconds or nanoseconds. -/
def text (d : Duration) : String :=
  let n := d.nanos
  if n ≥ 1_000_000_000 then decimal (n / 1_000_000_000) 9 (n % 1_000_000_000) ++ "s"
  else if n ≥ 1_000_000 then decimal (n / 1_000_000) 6 (n % 1_000_000) ++ "ms"
  else if n ≥ 1_000 then decimal (n / 1_000) 3 (n % 1_000) ++ "µs"
  else decimal n 0 0 ++ "ns"

end Duration

end SharedLog
