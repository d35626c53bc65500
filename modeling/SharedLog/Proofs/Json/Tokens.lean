/-
# The parts of documents

White space, strings, numbers and words: which texts write them, and that the reader takes these and
no others off the front of a text. A string is read up to its closing mark, and a number up to what
would not go on with it (`Ends`).
-/
import SharedLog.Json.Reader
import SharedLog.Proofs.Text.Digits

namespace SharedLog.Json

open Text

variable {cs rest body : List Char} {s : List Glyph} {j : Json}

/-! ## Gaps -/

/-- A text of white space only. -/
def IsGap (gap : List Char) : Prop := ∀ c ∈ gap, isGap c = true

lemma exists_gap (cs : List Char) : ∃ gap, IsGap gap ∧ cs = gap ++ skipGap cs :=
  ⟨cs.takeWhile isGap, List.all_eq_true.mp List.all_takeWhile, List.takeWhile_append_dropWhile.symm⟩

lemma skipGap_append {gap : List Char} (h : IsGap gap) (cs : List Char) :
    skipGap (gap ++ cs) = skipGap cs :=
  List.dropWhile_append_of_pos h

lemma skipGap_cons {c : Char} (h : isGap c = false) (cs : List Char) :
    skipGap (c :: cs) = c :: cs := by
  rw [skipGap, List.dropWhile_cons_of_neg (by simp [h])]

lemma exists_of_skipGap {c : Char} (h : skipGap cs = c :: rest) :
    ∃ gap, IsGap gap ∧ cs = gap ++ c :: rest := by
  obtain ⟨gap, hgap, hcs⟩ := exists_gap cs
  exact ⟨gap, hgap, h ▸ hcs⟩

/-! ## Strings -/

/-- What stands between the marks of a string writes its elements, each half of a pair on its
own. -/
inductive WritesGlyphs : List Char → List Glyph → Prop
  | nil : WritesGlyphs [] []
  | char {c : Char} {cs : List Char} {s : List Glyph} (hquote : c ≠ '"') (hbackslash : c ≠ '\\')
      (h : WritesGlyphs cs s) :
      WritesGlyphs (c :: cs) ((if c.toNat < 0x20 then .control c else .char c) :: s)
  | short {c d : Char} {cs : List Char} {s : List Glyph} (hshort : shortEscape? c = some d)
      (h : WritesGlyphs cs s) : WritesGlyphs ('\\' :: c :: cs) (.char d :: s)
  | code {a b c d : Char} {n : Nat} {cs : List Char} {s : List Glyph}
      (hcode : Hex.number? [a, b, c, d] = some n) (h : WritesGlyphs cs s) :
      WritesGlyphs ('\\' :: 'u' :: a :: b :: c :: d :: cs) (Glyph.ofCode n :: s)

/-- A string is read up to its closing mark. -/
lemma WritesGlyphs.halves? (h : WritesGlyphs body s) (rest : List Char) :
    halves? (body ++ '"' :: rest) = some (s, rest) := by
  induction h with
  | nil => rw [List.nil_append, Json.halves?]
  | char hquote hbackslash _ ih => simp [Json.halves?, hbackslash, ih]
  | @short c _ _ _ hshort _ ih =>
    have hcode : c ≠ 'u' := by
      rintro rfl
      cases hshort
    simp [Json.halves?, hcode, hshort, ih]
  | code hcode _ ih => simp [Json.halves?, hcode, ih]

/-- Nothing else is read as a string. -/
lemma exists_of_halves? (h : halves? cs = some (s, rest)) :
    ∃ body, cs = body ++ '"' :: rest ∧ WritesGlyphs body s := by
  induction cs using halves?.induct generalizing s with
  | case1 => cases h
  | case2 rest' =>
    rw [halves?] at h
    obtain ⟨rfl, rfl⟩ := Prod.mk.inj (Option.some.inj h)
    exact ⟨[], rfl, .nil⟩
  | case3 a b c d rest' ih =>
    rw [halves?] at h
    obtain ⟨n, hcode, h⟩ := Option.bind_eq_some_iff.mp h
    obtain ⟨⟨s', rest'⟩, hrest, ⟨⟩⟩ := Option.bind_eq_some_iff.mp h
    obtain ⟨body, rfl, hbody⟩ := ih hrest
    exact ⟨_, rfl, .code hcode hbody⟩
  | case4 c rest' hcode ih =>
    rw [halves?] at h
    · obtain ⟨d, hshort, h⟩ := Option.bind_eq_some_iff.mp h
      obtain ⟨⟨s', rest'⟩, hrest, ⟨⟩⟩ := Option.bind_eq_some_iff.mp h
      obtain ⟨body, rfl, hbody⟩ := ih hrest
      exact ⟨_, rfl, .short hshort hbody⟩
    · exact hcode
  | case5 c rest' hquote hcode hshort ih =>
    rw [halves?] at h
    · obtain ⟨⟨s', rest'⟩, hrest, ⟨⟩⟩ := Option.bind_eq_some_iff.mp h
      obtain ⟨body, rfl, hbody⟩ := ih hrest
      refine ⟨_, rfl, .char hquote ?_ hbody⟩
      rintro rfl
      -- a backslash is followed by something at least, the closing mark
      cases body with
      | nil => exact hshort _ _ rfl rfl
      | cons c body => exact hshort _ _ rfl rfl
    · exact hquote
    · exact hcode
    · exact hshort

/-! ## Numbers -/

/-- Digits, at least one. -/
def IsDigits (ds : List Char) : Prop := ds ≠ [] ∧ ∀ d ∈ ds, Numeral.isDigit d = true

/-- A fraction, or none. -/
inductive IsFraction : List Char → Prop
  | none : IsFraction []
  | point {ds : List Char} (h : IsDigits ds) : IsFraction ('.' :: ds)

/-- An exponent with a sign or without, or none. -/
inductive IsExponent : List Char → Prop
  | none : IsExponent []
  | unsigned {e : Char} {ds : List Char} (he : e = 'e' ∨ e = 'E') (h : IsDigits ds) :
      IsExponent (e :: ds)
  | signed {e sign : Char} {ds : List Char} (he : e = 'e' ∨ e = 'E')
      (hsign : sign = '+' ∨ sign = '-') (h : IsDigits ds) : IsExponent (e :: sign :: ds)

/-- A text writes a number. Its digits have no zero in front, and it is the natural number that they
write if there is nothing else to it. -/
inductive WritesNumber : List Char → Option Nat → Prop
  | mk {minus digits fraction exponent : List Char} (hminus : minus = [] ∨ minus = ['-'])
      (hdigits : IsDigits digits) (hzero : digits.head? = some '0' → digits.length = 1)
      (hfraction : IsFraction fraction) (hexponent : IsExponent exponent) :
      WritesNumber (minus ++ digits ++ fraction ++ exponent)
        (if minus = [] ∧ fraction = [] ∧ exponent = [] then some (Numeral.value digits) else none)

/-- What may follow a number: nothing that would go on with it. -/
def Ends (rest : List Char) : Prop :=
  ∀ c ∈ rest.head?, Numeral.isDigit c = false ∧ c ≠ '.' ∧ c ≠ 'e' ∧ c ≠ 'E'

lemma ends_cons {c : Char} (h : Numeral.isDigit c = false ∧ c ≠ '.' ∧ c ≠ 'e' ∧ c ≠ 'E')
    (rest : List Char) : Ends (c :: rest) := by
  rintro _ ⟨⟩
  exact h

lemma ends_append {gap : List Char} (h : IsGap gap) (hrest : Ends rest) : Ends (gap ++ rest) := by
  cases gap with
  | nil => exact hrest
  | cons c gap =>
    have hc := h c List.mem_cons_self
    simp only [isGap, decide_eq_true_eq] at hc
    refine ends_cons ?_ (gap ++ rest)
    rcases hc with rfl | rfl | rfl | rfl <;> decide

/-- Digits are read up to something else. -/
lemma readDigits?_eq_some_iff {ds : List Char} : readDigits? cs = some (ds, rest) ↔
    IsDigits ds ∧ (∀ c ∈ rest.head?, Numeral.isDigit c = false) ∧ cs = ds ++ rest := by
  constructor
  · intro h
    rw [readDigits?] at h
    split_ifs at h with hne
    obtain ⟨rfl, rfl⟩ := Prod.mk.inj (Option.some.inj h)
    have hsplit := List.prefix_iff_eq_append.mp (List.takeWhile_prefix Numeral.isDigit (l := cs))
    have hrest := List.append_cancel_left
      (hsplit.trans (List.takeWhile_append_dropWhile (p := Numeral.isDigit) (l := cs)).symm)
    refine ⟨⟨hne, List.all_eq_true.mp List.all_takeWhile⟩, fun c hc => ?_, hsplit.symm⟩
    have hhead := List.head?_dropWhile_not Numeral.isDigit cs
    rwa [← hrest, Option.mem_def.mp hc] at hhead
  · rintro ⟨⟨hne, hdigits⟩, hrest, rfl⟩
    simp [readDigits?, Numeral.takeWhile_isDigit hdigits rest hrest, hne]

lemma IsFraction.readFraction? {fraction : List Char} (h : IsFraction fraction)
    (hrest : ∀ c ∈ rest.head?, Numeral.isDigit c = false ∧ c ≠ '.') :
    readFraction? (fraction ++ rest) = some (decide (fraction ≠ []), rest) := by
  cases h with
  | none =>
    cases rest with
    | nil => rfl
    | cons c rest => simp [Json.readFraction?, (hrest c rfl).2]
  | point hdigits =>
    have hread := readDigits?_eq_some_iff.mpr ⟨hdigits, fun c hc => (hrest c hc).1, rfl⟩
    simp [Json.readFraction?, hread]

lemma exists_of_readFraction? {found : Bool} (h : readFraction? cs = some (found, rest)) :
    ∃ fraction, cs = fraction ++ rest ∧ IsFraction fraction ∧ found = decide (fraction ≠ []) := by
  unfold readFraction? at h
  split at h
  · obtain ⟨⟨ds, rest'⟩, hread, ⟨⟩⟩ := Option.map_eq_some_iff.mp h
    obtain ⟨hdigits, -, rfl⟩ := readDigits?_eq_some_iff.mp hread
    exact ⟨_, rfl, .point hdigits, by simp⟩
  · cases h
    exact ⟨[], rfl, .none, by simp⟩

lemma IsExponent.readExponent? {exponent : List Char} (h : IsExponent exponent)
    (hrest : Ends rest) :
    readExponent? (exponent ++ rest) = some (decide (exponent ≠ []), rest) := by
  have hread {ds : List Char} (hdigits : IsDigits ds) :
      readDigits? (ds ++ rest) = some (ds, rest) :=
    readDigits?_eq_some_iff.mpr ⟨hdigits, fun c hc => (hrest c hc).1, rfl⟩
  cases h with
  | none =>
    cases rest with
    | nil => rfl
    | cons c rest =>
      obtain ⟨-, -, hlower, hupper⟩ := hrest c rfl
      simp [Json.readExponent?, hlower, hupper]
  | unsigned he hdigits =>
    have hread := hread hdigits
    obtain ⟨d, ds, rfl⟩ := List.exists_cons_of_ne_nil hdigits.1
    have hsign : d ≠ '+' ∧ d ≠ '-' := Numeral.forall_isDigit
      (P := fun d => d ≠ '+' ∧ d ≠ '-') (by decide) (hdigits.2 d List.mem_cons_self)
    rw [List.cons_append] at hread
    rcases he with rfl | rfl <;> simp [Json.readExponent?, hread, hsign]
  | signed he hsign hdigits =>
    rcases he with rfl | rfl <;> rcases hsign with rfl | rfl <;>
      simp [Json.readExponent?, hread hdigits]

lemma exists_of_readExponent? {found : Bool} (h : readExponent? cs = some (found, rest)) :
    ∃ exponent, cs = exponent ++ rest ∧ IsExponent exponent ∧
      found = decide (exponent ≠ []) := by
  have hread {cs rest : List Char} {found : Bool}
      (h : ((readDigits? cs).map fun digits => (true, digits.2)) = some (found, rest)) :
      ∃ ds, IsDigits ds ∧ cs = ds ++ rest ∧ found = true := by
    obtain ⟨⟨ds, rest'⟩, hread, ⟨⟩⟩ := Option.map_eq_some_iff.mp h
    obtain ⟨hdigits, -, rfl⟩ := readDigits?_eq_some_iff.mp hread
    exact ⟨ds, hdigits, rfl, rfl⟩
  unfold readExponent? at h
  dsimp only at h
  split at h
  iterate 4
    obtain ⟨ds, hdigits, rfl, rfl⟩ := hread h
    exact ⟨_, rfl, .signed (by decide) (by decide) hdigits, by simp⟩
  iterate 2
    obtain ⟨ds, hdigits, rfl, rfl⟩ := hread h
    exact ⟨_, rfl, .unsigned (by decide) hdigits, by simp⟩
  cases h
  exact ⟨[], rfl, .none, by simp⟩

lemma IsExponent.ends_append {exponent : List Char} (h : IsExponent exponent) (hrest : Ends rest) :
    ∀ c ∈ (exponent ++ rest).head?, Numeral.isDigit c = false ∧ c ≠ '.' := by
  rintro c hc
  cases h with
  | none => exact ⟨(hrest c hc).1, (hrest c hc).2.1⟩
  | unsigned he | signed he => obtain ⟨⟩ := hc; rcases he with rfl | rfl <;> decide

lemma IsFraction.ends_append {fraction : List Char} (h : IsFraction fraction)
    (hrest : ∀ c ∈ rest.head?, Numeral.isDigit c = false) :
    ∀ c ∈ (fraction ++ rest).head?, Numeral.isDigit c = false := by
  rintro c hc
  cases h with
  | none => exact hrest c hc
  | point => obtain ⟨⟩ := hc; decide

/-- A number is read up to what would not go on with it. -/
lemma WritesNumber.readNumber? {n? : Option Nat} (h : WritesNumber body n?) (hrest : Ends rest) :
    readNumber? (body ++ rest) = some (number n?, rest) := by
  obtain @⟨minus, digits, fraction, exponent, hminus, hdigits, hzero, hfraction, hexponent⟩ := h
  have hbehind := hexponent.ends_append hrest
  have hread := readDigits?_eq_some_iff.mpr
    ⟨hdigits, hfraction.ends_append fun c hc => (hbehind c hc).1, rfl⟩
  have hfraction := hfraction.readFraction? hbehind
  have hexponent := hexponent.readExponent? hrest
  obtain ⟨d, ds, rfl⟩ := List.exists_cons_of_ne_nil hdigits.1
  have hzero : ¬(d = '0' ∧ ds ≠ []) := by
    rintro ⟨rfl, hds⟩
    exact hds (by simpa using hzero rfl)
  rcases hminus with rfl | rfl
  · have hminus : d ≠ '-' := Numeral.forall_isDigit (P := fun d => d ≠ '-') (by decide)
      (hdigits.2 d List.mem_cons_self)
    rw [List.cons_append] at hread
    simp [Json.readNumber?, hread, hminus, hzero, hfraction, hexponent]
  · rw [List.cons_append] at hread
    simp [Json.readNumber?, hread, hzero, hfraction, hexponent]

lemma exists_of_readNumber? (h : readNumber? cs = some (j, rest)) :
    ∃ body n?, cs = body ++ rest ∧ WritesNumber body n? ∧ j = number n? := by
  unfold readNumber? at h
  split at h
  rename_i negative cs' hsign
  obtain ⟨minus, rfl, hminus, rfl⟩ : ∃ minus, cs = minus ++ cs' ∧ (minus = [] ∨ minus = ['-']) ∧
      negative = decide (minus ≠ []) := by
    split at hsign <;> cases hsign
    · exact ⟨['-'], rfl, .inr rfl, by simp⟩
    · exact ⟨[], rfl, .inl rfl, by simp⟩
  obtain ⟨⟨digits, cs⟩, hread, h⟩ := Option.bind_eq_some_iff.mp h
  dsimp only at h
  split_ifs at h with hzero
  · cases h
  obtain ⟨⟨_, cs⟩, hread', h⟩ := Option.bind_eq_some_iff.mp h
  obtain ⟨⟨_, cs⟩, hread'', h⟩ := Option.bind_eq_some_iff.mp h
  obtain ⟨rfl, rfl⟩ := Prod.mk.inj (Option.some.inj h)
  obtain ⟨hdigits, -, rfl⟩ := readDigits?_eq_some_iff.mp hread
  obtain ⟨fraction, rfl, hfraction, rfl⟩ := exists_of_readFraction? hread'
  obtain ⟨exponent, rfl, hexponent, rfl⟩ := exists_of_readExponent? hread''
  refine ⟨_, _, ?_, .mk hminus hdigits ?_ hfraction hexponent, ?_⟩
  · simp
  · exact fun hhead => not_not.mp fun hlength => hzero ⟨hhead, hlength⟩
  · simp [and_assoc]

lemma WritesNumber.exists_cons {n? : Option Nat} (h : WritesNumber cs n?) :
    ∃ c cs', cs = c :: cs' ∧ (Numeral.isDigit c = true ∨ c = '-') := by
  obtain ⟨hminus, hdigits, -, -, -⟩ := h
  rcases hminus with rfl | rfl
  · obtain ⟨d, ds, rfl⟩ := List.exists_cons_of_ne_nil hdigits.1
    exact ⟨d, _, rfl, .inl (hdigits.2 d List.mem_cons_self)⟩
  · exact ⟨'-', _, rfl, .inr rfl⟩

/-! ## Words -/

lemma exists_of_readWord? {word : List Char} {j' : Json}
    (h : readWord? word j' cs = some (j, rest)) : cs = word ++ rest ∧ j = j' := by
  rw [readWord?] at h
  split_ifs at h with hword
  cases h
  refine ⟨?_, rfl⟩
  conv_lhs => rw [← List.take_append_drop word.length cs, hword]

end SharedLog.Json
