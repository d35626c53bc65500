/-
# Epochs

An epoch numbers a generation of the sequencer. It grows with every layout change, so that a
request made under an older layout can be told from a current one.
-/
namespace SharedLog

/-- How many epochs there are: as many as there are 64-bit numbers. -/
abbrev Epoch.bound : Nat := UInt64.size

/-- A generation of the sequencer. -/
structure Epoch where
  /-- The number of the generation. -/
  val : Nat
  /-- Epochs are 64-bit numbers. -/
  isLt : val < Epoch.bound
deriving DecidableEq

namespace Epoch

@[ext] theorem ext {d e : Epoch} (h : d.val = e.val) : d = e := by
  cases d; cases e; simp_all

/-- The epoch a sequencer starts in unless told otherwise. -/
def zero : Epoch := ⟨0, by decide⟩

instance : Inhabited Epoch := ⟨zero⟩

/-- The epoch with the given number, if that number is in range. -/
def ofNat? (n : Nat) : Option Epoch :=
  if h : n < bound then some ⟨n, h⟩ else none

instance : LT Epoch := ⟨fun d e => d.val < e.val⟩

instance : LE Epoch := ⟨fun d e => d.val ≤ e.val⟩

instance (d e : Epoch) : Decidable (d < e) := inferInstanceAs (Decidable (d.val < e.val))

instance (d e : Epoch) : Decidable (d ≤ e) := inferInstanceAs (Decidable (d.val ≤ e.val))

instance : Max Epoch := ⟨fun d e => if d ≤ e then e else d⟩

instance : Min Epoch := ⟨fun d e => if d ≤ e then d else e⟩

instance : Ord Epoch := ⟨compareOn val⟩

instance : ToString Epoch := ⟨fun e => toString e.val⟩

theorem val_lt (e : Epoch) : e.val < 18_446_744_073_709_551_616 := e.isLt

theorem lt_def {d e : Epoch} : d < e ↔ d.val < e.val := Iff.rfl

theorem le_def {d e : Epoch} : d ≤ e ↔ d.val ≤ e.val := Iff.rfl

theorem ofNat?_eq_some_iff {n : Nat} {e : Epoch} : ofNat? n = some e ↔ e.val = n := by
  unfold ofNat?
  split
  · constructor
    · rintro ⟨⟩; rfl
    · rintro rfl; rfl
  · have := e.isLt
    simp only [reduceCtorEq, false_iff]
    omega

@[simp] theorem ofNat?_val (e : Epoch) : ofNat? e.val = some e :=
  ofNat?_eq_some_iff.mpr rfl

@[simp] theorem val_max (d e : Epoch) : (max d e).val = max d.val e.val := by
  change (if d ≤ e then e else d).val = _
  split <;> simp_all only [le_def] <;> omega

end Epoch

end SharedLog
