/-
# Texts that write numbers

A text writes a number if it consists of an optional plus sign and of at least one digit, and if the
digits are those of the number in base ten, with any zeros in front. Such texts, and no other ones,
are read as numbers.
-/
import Mathlib.Data.List.Induction
import Mathlib.Data.Nat.Digits.Defs
import SharedLog.Proofs.Text.Digits

namespace SharedLog.Text

/-- A text writes a number, the digits being given by their values. -/
def Writes (text : String) (n : Nat) : Prop :=
  ∃ (sign : List Char) (digits : List Nat), (sign = [] ∨ sign = ['+']) ∧ digits ≠ [] ∧
    (∀ d ∈ digits, d < 10) ∧ text.toList = sign ++ digits.map Nat.digitChar ∧
    n = Nat.ofDigits 10 digits.reverse

namespace Numeral

variable {bound n : Nat} {text : String} {digits : List Nat}

lemma isDigit_digitChar {d : Nat} (hd : d < 10) :
    isDigit (Nat.digitChar d) = true ∧ digitValue (Nat.digitChar d) = d := by
  have : ∀ d : Fin 10, isDigit (Nat.digitChar d) = true ∧ digitValue (Nat.digitChar d) = d := by
    decide
  exact this ⟨d, hd⟩

/-- The value of a list of digits counts the last one once, the one before it ten times and so
on. -/
lemma value_map_digitChar (h : ∀ d ∈ digits, d < 10) :
    value (digits.map Nat.digitChar) = Nat.ofDigits 10 digits.reverse := by
  induction digits using List.reverseRecOn with
  | nil => rfl
  | append_singleton digits d ih =>
    have hfront := ih fun d hd => h d (List.mem_append_left _ hd)
    have hlast := (isDigit_digitChar (h d (by simp))).2
    rw [value] at hfront ⊢
    rw [List.map_append, List.foldl_append, hfront, List.reverse_append]
    simp [Nat.ofDigits_cons, hlast]
    omega

lemma digitChar_digitValue {c : Char} (h : isDigit c = true) :
    Nat.digitChar (digitValue c) = c ∧ digitValue c < 10 :=
  forall_isDigit (P := fun c => Nat.digitChar (digitValue c) = c ∧ digitValue c < 10) (by decide) h

/-- Digits have values. -/
lemma exists_map_digitChar {cs : List Char} (h : ∀ c ∈ cs, isDigit c = true) :
    ∃ digits : List Nat, cs = digits.map Nat.digitChar ∧ ∀ d ∈ digits, d < 10 := by
  refine ⟨cs.map digitValue, ?_, fun d hd => ?_⟩
  · rw [List.map_map]
    have hmap : cs.map (Nat.digitChar ∘ digitValue) = cs.map id :=
      List.map_congr_left fun c hc => (digitChar_digitValue (h c hc)).1
    rw [hmap, List.map_id]
  · obtain ⟨c, hc, rfl⟩ := List.mem_map.mp hd
    exact (digitChar_digitValue (h c hc)).2

/-- A text is read by its characters after a plus sign, or by all of them. -/
lemma exists_unsigned (bound : Nat) (text : String) : ∃ sign cs, text.toList = sign ++ cs ∧
    (sign = [] ∧ cs.head? ≠ some '+' ∨ sign = ['+']) ∧
    ofText? bound text =
      if cs ≠ [] ∧ cs.all isDigit ∧ value cs < bound then some (value cs) else none := by
  by_cases hplus : text.toList.head? = some '+'
  · obtain ⟨cs, hcs⟩ := List.head?_eq_some_iff.mp hplus
    refine ⟨['+'], cs, hcs, .inr rfl, ?_⟩
    simp only [ofText?, hcs]
  · refine ⟨[], text.toList, rfl, .inl ⟨rfl, hplus⟩, ?_⟩
    simp only [ofText?]
    split
    next rest hcs => exact absurd (by rw [hcs]; rfl) hplus
    next => rfl

/-- A text is read as the number that it writes, if that number is in range. -/
theorem ofText?_eq_some_iff : ofText? bound text = some n ↔ Writes text n ∧ n < bound := by
  obtain ⟨sign, cs, htext, hsign, hread⟩ := exists_unsigned bound text
  rw [hread, Option.ite_none_right_eq_some, Option.some.injEq]
  constructor
  · rintro ⟨⟨hne, hdigits, hlt⟩, rfl⟩
    obtain ⟨digits, rfl, hten⟩ := exists_map_digitChar (List.all_eq_true.mp hdigits)
    refine ⟨?_, hlt⟩
    rw [value_map_digitChar hten]
    exact ⟨sign, digits, hsign.imp_left And.left,
      fun hnil => hne (by rw [hnil, List.map_nil]), hten, htext, rfl⟩
  · rintro ⟨⟨sign', digits, hsign', hsome, hten, htext', rfl⟩, hlt⟩
    have hdigit : ∀ c ∈ digits.map Nat.digitChar, isDigit c = true := by
      intro c hc
      obtain ⟨d, hd, rfl⟩ := List.mem_map.mp hc
      exact (isDigit_digitChar (hten d hd)).1
    -- a plus sign is no digit
    obtain rfl : cs = digits.map Nat.digitChar := by
      rw [htext] at htext'
      rcases hsign with ⟨rfl, hplus⟩ | rfl <;> rcases hsign' with rfl | rfl
      · exact htext'
      · rw [List.nil_append] at htext'
        exact absurd (by rw [htext']; rfl) hplus
      · rw [List.nil_append, List.singleton_append] at htext'
        have hplus := hdigit '+' (htext' ▸ List.mem_cons_self)
        cases hplus
      · exact (List.cons.inj htext').2
    rw [value_map_digitChar hten]
    exact ⟨⟨fun hnil => hsome (List.map_eq_nil_iff.mp hnil), List.all_eq_true.mpr hdigit, hlt⟩, rfl⟩

end Numeral

end SharedLog.Text
