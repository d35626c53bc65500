/-
# Positions of the log

A position is a slot in the total order of the shared log: a natural number below `2 ^ 64`.
"No position" (the tail of an empty stream) is `none`, which orders below every position.
Arithmetic that would leave the range gives `none` instead of wrapping around.
-/
import Std.Data.ExtTreeMap

namespace SharedLog

/-- How many positions there are: as many as there are 64-bit numbers. -/
abbrev Position.bound : Nat := UInt64.size

/-- A slot in the total order of the log. -/
structure Position where
  /-- The number of slots before this one. -/
  val : Nat
  /-- Positions are 64-bit numbers. -/
  isLt : val < Position.bound
deriving DecidableEq

namespace Position

@[ext] theorem ext {p q : Position} (h : p.val = q.val) : p = q := by
  cases p; cases q; simp_all

/-- The first position of a fresh log. -/
def zero : Position := ⟨0, by decide⟩

/-- The last position of all, which no tail can follow. -/
def last : Position := ⟨bound - 1, by decide⟩

instance : Inhabited Position := ⟨zero⟩

/-- The position with the given number, if that number is in range. -/
def ofNat? (n : Nat) : Option Position :=
  if h : n < bound then some ⟨n, h⟩ else none

/-- The position `n` slots after this one, or `none` beyond the last position. -/
def add? (p : Position) (n : Nat) : Option Position := ofNat? (p.val + n)

/-- The position right after this one. -/
def next? (p : Position) : Option Position := p.add? 1

/-- The position right before this one, `none` for the first position. -/
def prev? (p : Position) : Option Position :=
  if p.val = 0 then none else some ⟨p.val - 1, by have := p.isLt; omega⟩

instance : LT Position := ⟨fun p q => p.val < q.val⟩

instance : LE Position := ⟨fun p q => p.val ≤ q.val⟩

instance (p q : Position) : Decidable (p < q) := inferInstanceAs (Decidable (p.val < q.val))

instance (p q : Position) : Decidable (p ≤ q) := inferInstanceAs (Decidable (p.val ≤ q.val))

instance : Max Position := ⟨fun p q => if p ≤ q then q else p⟩

instance : Min Position := ⟨fun p q => if p ≤ q then p else q⟩

instance : Ord Position := ⟨compareOn val⟩

instance : Std.TransOrd Position := inferInstanceAs (Std.TransCmp (compareOn val))

instance : Std.LawfulEqOrd Position where
  eq_of_compare h := ext (Nat.compare_eq_eq.mp h)

instance : ToString Position := ⟨fun p => toString p.val⟩

theorem val_lt (p : Position) : p.val < 18_446_744_073_709_551_616 := p.isLt

theorem lt_def {p q : Position} : p < q ↔ p.val < q.val := Iff.rfl

theorem le_def {p q : Position} : p ≤ q ↔ p.val ≤ q.val := Iff.rfl

@[simp] theorem val_zero : zero.val = 0 := rfl

theorem ofNat?_eq_some_iff {n : Nat} {p : Position} : ofNat? n = some p ↔ p.val = n := by
  unfold ofNat?
  split
  · constructor
    · rintro ⟨⟩; rfl
    · rintro rfl; rfl
  · have := p.isLt
    simp only [reduceCtorEq, false_iff]
    omega

theorem ofNat?_eq_none_iff {n : Nat} : ofNat? n = none ↔ bound ≤ n := by
  unfold ofNat?
  split
  · simp only [reduceCtorEq, false_iff]
    omega
  · simp only [true_iff]
    omega

@[simp] theorem ofNat?_val (p : Position) : ofNat? p.val = some p :=
  ofNat?_eq_some_iff.mpr rfl

theorem add?_eq_some_iff {p q : Position} {n : Nat} : p.add? n = some q ↔ q.val = p.val + n :=
  ofNat?_eq_some_iff

theorem add?_eq_none_iff {p : Position} {n : Nat} : p.add? n = none ↔ bound ≤ p.val + n :=
  ofNat?_eq_none_iff

theorem eq_last_iff {p : Position} : p = last ↔ p.val + 1 = bound := by
  constructor
  · rintro rfl
    decide
  · intro h
    ext
    simp only [last]
    omega

theorem next?_eq_none_iff {p : Position} : p.next? = none ↔ p = last := by
  have := p.isLt
  rw [next?, add?_eq_none_iff, eq_last_iff]
  omega

theorem prev?_eq_some_iff {p q : Position} : p.prev? = some q ↔ p.val = q.val + 1 := by
  unfold prev?
  split
  · simp only [reduceCtorEq, false_iff]
    omega
  · simp only [Option.some.injEq]
    constructor
    · rintro rfl
      dsimp only
      omega
    · intro h
      ext
      dsimp only
      omega

theorem prev?_eq_none_iff {p : Position} : p.prev? = none ↔ p.val = 0 := by
  unfold prev?
  split <;> simp_all

@[simp] theorem val_max (p q : Position) : (max p q).val = max p.val q.val := by
  change (if p ≤ q then q else p).val = _
  split <;> simp_all only [le_def] <;> omega

end Position

end SharedLog
