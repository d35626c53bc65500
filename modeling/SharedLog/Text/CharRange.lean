/-
# Ranges of characters

A property of characters is kept as the closed ranges of code points that have it. The ranges
ascend, so that a search need not go on behind the first range that reaches far enough.
-/
namespace SharedLog.Text

/-- Whether ranges ascend from a code point on, none of them empty and no two of them touching. -/
def ascendFrom (start : Nat) : List (Nat × Nat) → Bool
  | [] => true
  | (first, last) :: rest => start ≤ first && first ≤ last && ascendFrom (last + 2) rest

/-- Closed ranges of code points in ascending order. -/
structure CharRanges where
  ranges : List (Nat × Nat)
  ascend : ascendFrom 0 ranges = true

/-- Whether a code point lies in the first of some ascending ranges that reaches to it. -/
def liesIn (n : Nat) : List (Nat × Nat) → Bool
  | [] => false
  | (first, last) :: rest => if n ≤ last then first ≤ n else liesIn n rest

/-- All code points of ascending ranges come behind the one from which on they ascend. -/
theorem le_of_ascendFrom {start : Nat} {ranges : List (Nat × Nat)}
    (h : ascendFrom start ranges = true) : ∀ r ∈ ranges, start ≤ r.1 := by
  induction ranges generalizing start with
  | nil => exact fun r hr => nomatch hr
  | cons first rest ih =>
    obtain ⟨first, last⟩ := first
    simp only [ascendFrom, Bool.and_eq_true, decide_eq_true_eq] at h
    intro r hr
    rcases List.mem_cons.mp hr with rfl | hr
    · exact h.1.1
    · have := ih h.2 r hr
      omega

theorem liesIn_eq_true_iff {start n : Nat} {ranges : List (Nat × Nat)}
    (h : ascendFrom start ranges = true) :
    liesIn n ranges = true ↔ ∃ r ∈ ranges, r.1 ≤ n ∧ n ≤ r.2 := by
  induction ranges generalizing start with
  | nil => simp [liesIn]
  | cons first rest ih =>
    obtain ⟨first, last⟩ := first
    simp only [ascendFrom, Bool.and_eq_true, decide_eq_true_eq] at h
    rw [liesIn]
    split
    · rename_i hle
      constructor
      · intro hfirst
        exact ⟨_, List.mem_cons_self, of_decide_eq_true hfirst, hle⟩
      · rintro ⟨r, hr, hge, -⟩
        rcases List.mem_cons.mp hr with rfl | hr
        · exact decide_eq_true hge
        · -- all later ranges begin behind the end of this one
          have := le_of_ascendFrom h.2 r hr
          omega
    · rename_i hgt
      rw [ih h.2]
      constructor
      · rintro ⟨r, hr, hin⟩
        exact ⟨r, List.mem_cons_of_mem _ hr, hin⟩
      · rintro ⟨r, hr, hge, hle⟩
        rcases List.mem_cons.mp hr with rfl | hr
        · exact absurd hle hgt
        · exact ⟨r, hr, hge, hle⟩

namespace CharRanges

/-- Whether a code point lies in one of the ranges. -/
def has (table : CharRanges) (n : Nat) : Bool := liesIn n table.ranges

theorem has_eq_true_iff {table : CharRanges} {n : Nat} :
    table.has n = true ↔ ∃ r ∈ table.ranges, r.1 ≤ n ∧ n ≤ r.2 :=
  liesIn_eq_true_iff table.ascend

/-- No code point before the first range lies in the table. -/
theorem has_eq_false_of_lt {table : CharRanges} {r : Nat × Nat} {n : Nat}
    (hfirst : table.ranges.head? = some r) (h : n < r.1) : table.has n = false := by
  obtain ⟨rest, hranges⟩ := List.head?_eq_some_iff.mp hfirst
  have hascend := table.ascend
  simp only [hranges, ascendFrom, Bool.and_eq_true, decide_eq_true_eq] at hascend
  rw [has, hranges, liesIn, if_pos (by omega)]
  exact decide_eq_false (Nat.not_le.mpr h)

end CharRanges

end SharedLog.Text
