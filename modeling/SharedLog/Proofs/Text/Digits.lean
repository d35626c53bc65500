/-
# Digits read back

The digits that are written for a number are read as that number: hexadecimal ones of a fixed
width, and decimal ones with or without zeros in front.
-/
import Mathlib.Algebra.Group.Nat.Even
import SharedLog.Text.Hex
import SharedLog.Text.Numeral

namespace SharedLog.Text

/-! ## Hexadecimal digits -/

namespace Hex

variable {width n : Nat}

lemma foldlM_digits (h : n < 16 ^ width) (start : Nat) :
    (digits width n).foldlM (fun n c => (value? c).map (16 * n + ·)) start =
      some (16 ^ width * start + n) := by
  induction width generalizing n with
  | zero => simp [digits, Nat.lt_one_iff.mp h]
  | succ width ih =>
    have hfront : n / 16 < 16 ^ width := Nat.div_lt_of_lt_mul (by rwa [pow_succ'] at h)
    have hlast : value? (digit (n % 16)) = some (n % 16) := value?_digit (Nat.mod_lt _ (by decide))
    have hsum : 16 * (16 ^ width * start + n / 16) + n % 16 = 16 ^ (width + 1) * start + n := by
      rw [Nat.mul_add, Nat.add_assoc, Nat.div_add_mod, ← Nat.mul_assoc, ← pow_succ']
    rw [digits, List.foldlM_append, ih hfront]
    simpa [hlast] using hsum

/-- The digits of a number that has no more of them are read as that number. -/
theorem number?_digits (h : n < 16 ^ width) : number? (digits width n) = some n := by
  simpa [number?] using foldlM_digits h 0

/-- A property of the digits in either case. -/
lemma forall_value? {P : Char → Prop} {c : Char} (h : ∀ k : Fin 128,
    (value? (Char.ofNat k)).isSome = true → P (Char.ofNat k)) (hc : value? c = some n) : P c := by
  have hlt : c.toNat < 128 := by
    unfold value? at hc
    simp only [Char.le_def, UInt32.le_iff_toNat_le] at hc
    split_ifs at hc with h h h
    · exact Nat.lt_of_le_of_lt h.2 (by decide)
    · exact Nat.lt_of_le_of_lt h.2 (by decide)
    · exact Nat.lt_of_le_of_lt h.2 (by decide)
  have hchar := h ⟨c.toNat, hlt⟩
  rw [Char.ofNat_toNat] at hchar
  exact hchar (by rw [hc]; rfl)

/-- Whatever begins a number is a digit. -/
lemma exists_of_number?_cons {c : Char} {cs : List Char} (h : number? (c :: cs) = some n) :
    ∃ k, value? c = some k := by
  rw [number?, List.foldlM_cons] at h
  obtain ⟨_, hc, -⟩ := Option.bind_eq_some_iff.mp h
  obtain ⟨k, hk, -⟩ := Option.map_eq_some_iff.mp hc
  exact ⟨k, hk⟩

end Hex

/-! ## Decimal digits -/

namespace Numeral

variable {width n : Nat} {c : Char}

/-- The digits of a number are read as that number. -/
theorem value_toDigits (n : Nat) : value (Nat.toDigits 10 n) = n := Nat.ofDigitChars_ten_toDigits

lemma isDigit_of_mem_toDigits (h : c ∈ Nat.toDigits 10 n) : isDigit c = true := by
  have := Nat.isDigit_of_mem_toDigits (by decide) (Nat.le_refl 10) h
  simpa [Char.isDigit, isDigit, Char.le_def] using this

/-- A number has a first digit. -/
lemma exists_toDigits_eq_cons (n : Nat) :
    ∃ d ds, Nat.toDigits 10 n = d :: ds ∧ isDigit d = true := by
  obtain ⟨d, ds, hdigits⟩ := List.exists_cons_of_ne_nil (Nat.toDigits_ne_nil (n := n) (b := 10))
  exact ⟨d, ds, hdigits, isDigit_of_mem_toDigits (n := n) (hdigits ▸ List.mem_cons_self)⟩

/-- A property of the ten digits. -/
lemma forall_isDigit {P : Char → Prop} (h : ∀ k : Fin 10, P (Nat.digitChar k))
    (hc : isDigit c = true) : P c := by
  have hbounds : 48 ≤ c.toNat ∧ c.toNat ≤ 57 := by
    simpa [isDigit, Char.le_def, UInt32.le_iff_toNat_le] using hc
  have hsame : ∀ k : Fin 10, Char.ofNat (48 + k) = Nat.digitChar k := by decide
  have := h ⟨c.toNat - 48, by omega⟩
  rwa [← hsame, Nat.add_sub_cancel' hbounds.1, Char.ofNat_toNat] at this

/-- Only the number zero begins with a zero. -/
lemma eq_zero_of_head?_toDigits (h : (Nat.toDigits 10 n).head? = some '0') : n = 0 := by
  induction n using Nat.strongRecOn with
  | ind n ih =>
    rcases Nat.lt_or_ge n 10 with hlt | hge
    · rw [Nat.toDigits_of_lt_base hlt] at h
      have : ∀ k : Fin 10, [Nat.digitChar k].head? = some '0' → k.val = 0 := by decide
      exact this ⟨n, hlt⟩ h
    · have hfront : (Nat.toDigits 10 (n / 10)).head? = some '0' := by
        obtain ⟨d, ds, hdigits⟩ := List.exists_cons_of_ne_nil (Nat.toDigits_ne_nil (n := n / 10))
        rw [Nat.toDigits_of_base_le (by decide) hge, hdigits] at h
        rwa [hdigits]
      have := ih (n / 10) (by omega) hfront
      omega

lemma length_padded (hwidth : 0 < width) (h : n < 10 ^ width) :
    (padded width n).length = width := by
  have := (Nat.length_toDigits_le_iff (by decide) hwidth).mpr h
  simp only [padded, List.length_append, List.length_replicate]
  omega

lemma padded_ne_nil (width n : Nat) : padded width n ≠ [] :=
  List.append_ne_nil_of_right_ne_nil _ Nat.toDigits_ne_nil

lemma isDigit_of_mem_padded (width n : Nat) (h : c ∈ padded width n) : isDigit c = true := by
  rcases List.mem_append.mp h with h | h
  · obtain rfl := List.eq_of_mem_replicate h
    rfl
  · exact isDigit_of_mem_toDigits h

lemma exists_padded_eq_cons (width n : Nat) :
    ∃ d ds, padded width n = d :: ds ∧ isDigit d = true := by
  obtain ⟨d, ds, hdigits⟩ := List.exists_cons_of_ne_nil (padded_ne_nil width n)
  exact ⟨d, ds, hdigits, isDigit_of_mem_padded width n (hdigits ▸ List.mem_cons_self)⟩

/-- Zeros in front do not count. -/
theorem value_padded (width n : Nat) : value (padded width n) = n := by
  have : value (padded width n) = Nat.ofDigitChars 10 (padded width n) 0 := rfl
  rw [this, padded, Nat.ofDigitChars_append, Nat.ofDigitChars_replicate_zero, Nat.mul_zero]
  exact value_toDigits n

/-- Zeros behind count. -/
lemma value_append_zeros (digits : List Char) (k : Nat) :
    value (digits ++ List.replicate k '0') = 10 ^ k * value digits := by
  have : ∀ cs, value cs = Nat.ofDigitChars 10 cs 0 := fun _ => rfl
  rw [this, this, Nat.ofDigitChars_append, Nat.ofDigitChars_replicate_zero]

/-- The digits in front of something else are told from it. -/
lemma takeWhile_isDigit {digits : List Char} (hdigits : ∀ c ∈ digits, isDigit c = true)
    (rest : List Char) (hrest : ∀ c ∈ rest.head?, isDigit c = false) :
    (digits ++ rest).takeWhile isDigit = digits := by
  rw [List.takeWhile_append_of_pos hdigits]
  cases rest with
  | nil => simp
  | cons c rest => simp [hrest c rfl]

end Numeral

end SharedLog.Text
