/-
# Ids and moments read back

A stream's id is read from the forms of its digits and from no other texts
(`StreamId.ofChars?_eq_some_iff`). Of these forms, and of the many that are read for a moment of
time, the one that is written is read as the id and the moment it was written for.
-/
import SharedLog.Proofs.Text.Digits
import SharedLog.Stream.Text
import SharedLog.Timestamp.Text

namespace SharedLog

open Text

/-- A reader goes on with what the part before it gives. -/
lemma bind_eq_some_of_eq {α β : Type} {x : Option α} {a : α} {b : β} {next : α → Option β}
    (h : x = some a) (hnext : next a = some b) : x >>= next = some b :=
  Option.bind_eq_some_iff.mpr ⟨a, h, hnext⟩

/-! ## Stream ids -/

namespace StreamId

/-- A list of characters is the 32 digits of an id, each in either case. -/
def WritesDigits (digits : List Char) (s : StreamId) : Prop :=
  digits.length = 32 ∧ Hex.number? digits = some s.val

/-- The forms of an id with the given digits: they stand alone or in groups with hyphens between
them, and the groups also in braces or behind the scheme of a resource name, in either case. -/
inductive Form (digits : List Char) : List Char → Prop
  | bare : Form digits digits
  | groups : Form digits (hyphenate groupLengths digits)
  | braces : Form digits ('\x7b' :: hyphenate groupLengths digits ++ ['\x7d'])
  | name {scheme : List Char} (h : scheme.map Char.toLower = resourceName) :
      Form digits (scheme ++ hyphenate groupLengths digits)

variable {s : StreamId} {digits cs : List Char}

lemma ofNat?_eq_some_iff {n : Nat} : ofNat? n = some s ↔ n = s.val := by
  unfold ofNat?
  constructor
  · intro h
    split_ifs at h
    cases h
    rfl
  · rintro rfl
    exact dif_pos s.isLt

lemma ofDigits?_eq_some_iff : ofDigits? cs = some s ↔ WritesDigits cs s := by
  unfold ofDigits? WritesDigits
  split_ifs with hlength
  · simp [hlength, Option.bind_eq_some_iff, ofNat?_eq_some_iff]
  · simp [hlength]

/-- Digits are told from their groups with hyphens between them. -/
lemma dehyphenate?_eq_some_iff {lengths : List Nat} (hne : lengths ≠ []) :
    dehyphenate? lengths cs = some digits ↔
      digits.length = lengths.foldr (· + ·) 0 ∧ cs = hyphenate lengths digits := by
  induction lengths generalizing cs digits with
  | nil => exact absurd rfl hne
  | cons n lengths ih =>
    rw [List.foldr_cons]
    cases lengths with
    | nil =>
      have hall : digits.length = n → digits.take n = digits := fun h =>
        List.take_of_length_le (Nat.le_of_eq h)
      constructor
      · intro h
        simp only [dehyphenate?] at h
        split_ifs at h with hlength
        cases h
        exact ⟨hlength, (hall hlength).symm⟩
      · rintro ⟨hlength, rfl⟩
        simp [hyphenate, dehyphenate?, hall hlength, hlength]
    | cons m lengths =>
      constructor
      · intro h
        simp only [dehyphenate?] at h
        split at h
        · rename_i rest hrest
          obtain ⟨more, hmore, rfl⟩ := Option.map_eq_some_iff.mp h
          obtain ⟨hlength, rfl⟩ := (ih (List.cons_ne_nil m lengths)).mp hmore
          have hlt : n < cs.length := by
            by_contra hle
            rw [List.drop_eq_nil_of_le (Nat.le_of_not_lt hle)] at hrest
            cases hrest
          have hgroup : (cs.take n).length = n := List.length_take_of_le (Nat.le_of_lt hlt)
          refine ⟨by rw [List.length_append, hgroup, hlength], ?_⟩
          rw [hyphenate, List.take_left' hgroup, List.drop_left' hgroup, ← hrest,
            List.take_append_drop]
          rintro ⟨⟩
        · cases h
      · rintro ⟨hlength, rfl⟩
        have hgroup : (digits.take n).length = n := by rw [List.length_take, hlength]; omega
        have hmore : (digits.drop n).length = (m :: lengths).foldr (· + ·) 0 := by
          rw [List.length_drop, hlength, Nat.add_sub_cancel_left]
        have hrest := (ih (List.cons_ne_nil m lengths)).mpr ⟨hmore, rfl⟩
        simp [hyphenate, dehyphenate?, List.take_left' hgroup, List.drop_left' hgroup, hrest]

lemma ofHyphenated?_eq_some_iff :
    ofHyphenated? cs = some s ↔
      ∃ digits, WritesDigits digits s ∧ cs = hyphenate groupLengths digits := by
  simp only [ofHyphenated?, Option.bind_eq_some_iff, ofDigits?_eq_some_iff,
    dehyphenate?_eq_some_iff (by decide : groupLengths ≠ [])]
  constructor
  · rintro ⟨digits, ⟨-, hcs⟩, hdigits⟩
    exact ⟨digits, hdigits, hcs⟩
  · rintro ⟨digits, hdigits, hcs⟩
    exact ⟨digits, ⟨hdigits.1, hcs⟩, hdigits⟩

lemma length_hyphenate {lengths : List Nat} {cs : List Char}
    (h : cs.length = lengths.foldr (· + ·) 0) :
    (hyphenate lengths cs).length = cs.length + (lengths.length - 1) := by
  induction lengths generalizing cs with
  | nil => simp_all [hyphenate]
  | cons n lengths ih =>
    rw [List.foldr_cons] at h
    cases lengths with
    | nil => simp_all [hyphenate]
    | cons m lengths =>
      have hlength : (cs.drop n).length = (m :: lengths).foldr (· + ·) 0 := by
        rw [List.length_drop, h, Nat.add_sub_cancel_left]
      have hrest := ih hlength
      simp only [hyphenate, List.length_append, List.length_take, List.length_cons, hrest,
        List.length_drop, h]
      omega

/-- A text that begins with a digit is in no braces and no resource name. -/
lemma unwrap?_of_value? {c : Char} {n : Nat} (h : Hex.value? c = some n) (cs : List Char) :
    unwrap? (c :: cs) = none := by
  obtain ⟨hletter, hbrace⟩ : c.toLower ≠ 'u' ∧ c ≠ '\x7b' :=
    Hex.forall_value? (P := fun c => c.toLower ≠ 'u' ∧ c ≠ '\x7b') (by decide) h
  simp [unwrap?, resourceName, hletter, hbrace]

lemma unwrap?_braces (inner : List Char) : unwrap? ('\x7b' :: inner ++ ['\x7d']) = some inner := by
  have hclose : ('\x7b' :: inner ++ ['\x7d']).getLast? = some '\x7d' := List.getLast?_concat
  rw [unwrap?, if_neg (by simp [resourceName]), if_pos ⟨rfl, hclose⟩]
  simp

lemma exists_of_unwrap? {inner : List Char} (h : unwrap? cs = some inner) :
    cs = '\x7b' :: inner ++ ['\x7d'] ∨
      ∃ scheme, scheme.map Char.toLower = resourceName ∧ cs = scheme ++ inner := by
  unfold unwrap? at h
  split_ifs at h with hname hbraces
  · cases h
    exact .inr ⟨_, hname, (List.take_append_drop ..).symm⟩
  · obtain ⟨hopen, hclose⟩ := hbraces
    obtain ⟨front, rfl⟩ := List.getLast?_eq_some_iff.mp hclose
    cases front with
    | nil => cases hopen
    | cons c front =>
      cases hopen
      cases h
      simp

/-- A text writes an id if it is one of the forms of its digits, and no other text is read. -/
theorem ofChars?_eq_some_iff :
    ofChars? cs = some s ↔ ∃ digits, WritesDigits digits s ∧ Form digits cs := by
  constructor
  · intro h
    unfold ofChars? at h
    split at h
    · rename_i inner hunwrap
      obtain ⟨digits, hdigits, rfl⟩ := ofHyphenated?_eq_some_iff.mp h
      rcases exists_of_unwrap? hunwrap with rfl | ⟨scheme, hscheme, rfl⟩
      · exact ⟨digits, hdigits, .braces⟩
      · exact ⟨digits, hdigits, .name hscheme⟩
    · rcases Option.or_eq_some_iff.mp h with h | ⟨-, h⟩
      · exact ⟨cs, ofDigits?_eq_some_iff.mp h, .bare⟩
      · obtain ⟨digits, hdigits, rfl⟩ := ofHyphenated?_eq_some_iff.mp h
        exact ⟨digits, hdigits, .groups⟩
  · rintro ⟨digits, hdigits, hform⟩
    have hgroups := ofHyphenated?_eq_some_iff.mpr ⟨digits, hdigits, rfl⟩
    -- the first digit tells the forms that are not wrapped from the others
    obtain ⟨c, ds, rfl⟩ := List.exists_cons_of_length_pos
      (by rw [hdigits.1]; decide : 0 < digits.length)
    obtain ⟨n, hc⟩ := Hex.exists_of_number?_cons hdigits.2
    unfold ofChars?
    cases hform with
    | bare =>
      rw [unwrap?_of_value? hc]
      simp only [ofDigits?_eq_some_iff.mpr hdigits, Option.some_or]
    | groups =>
      have hunwrap : unwrap? (hyphenate groupLengths (c :: ds)) = none := by
        simpa only [hyphenate, groupLengths, List.take_succ_cons, List.cons_append] using
          unwrap?_of_value? hc _
      have hbare : ofDigits? (hyphenate groupLengths (c :: ds)) = none := by
        rw [ofDigits?, if_neg]
        rw [length_hyphenate hdigits.1, hdigits.1]
        decide
      rw [hunwrap]
      simp only [hbare, Option.none_or, hgroups]
    | braces =>
      rw [unwrap?_braces]
      exact hgroups
    | @name scheme hscheme =>
      have hlength : scheme.length = resourceName.length := by
        rw [← hscheme, List.length_map]
      rw [unwrap?, List.take_left' hlength, List.drop_left' hlength, if_pos hscheme]
      exact hgroups

/-- The text of an id is read as that id. -/
theorem ofText?_text (s : StreamId) : ofText? s.text = some s := by
  rw [ofText?, text, String.toList_ofList]
  exact ofChars?_eq_some_iff.mpr
    ⟨_, ⟨Hex.length_digits .., Hex.number?_digits (s.isLt : s.val < 16 ^ 32)⟩, .groups⟩

end StreamId

/-! ## Moments -/

lemma Date.day_le_thirtyOne (d : Date) : d.day ≤ 31 := by
  refine Nat.le_trans d.day_le ?_
  unfold daysIn
  split_ifs <;> decide

namespace Timestamp

lemma isBlank_of_isDigit {c : Char} (h : Numeral.isDigit c = true) : isBlank c = false :=
  Numeral.forall_isDigit (P := fun c => isBlank c = false) (by decide) h

lemma trimStart_cons {c : Char} (h : isBlank c = false) (cs : List Char) :
    trimStart (c :: cs) = c :: cs := by
  rw [trimStart, List.dropWhile_cons_of_neg (by simp [h])]

lemma trimStart_padded (width n : Nat) (rest : List Char) :
    trimStart (Numeral.padded width n ++ rest) = Numeral.padded width n ++ rest := by
  obtain ⟨d, ds, hdigits, hd⟩ := Numeral.exists_padded_eq_cons width n
  rw [hdigits, List.cons_append, trimStart_cons (isBlank_of_isDigit hd)]

/-- A number of a fixed width is told from the digits behind it. -/
lemma number?_padded (width : Nat) {n : Nat} (hwidth : 0 < width) (h : n < 10 ^ width)
    (rest : List Char) : number? width (Numeral.padded width n ++ rest) = some (n, rest) := by
  have hlength := Numeral.length_padded hwidth h
  have hdigits := Numeral.takeWhile_isDigit
    (fun _ => Numeral.isDigit_of_mem_padded width n) [] (by simp)
  rw [List.append_nil] at hdigits
  simp only [number?, trimStart_padded, List.take_left' hlength, hdigits,
    if_neg (Numeral.padded_ne_nil width n), Numeral.value_padded, List.drop_left]

lemma mark?_cons {c : Char} (h : isBlank c = false) (rest : List Char) :
    mark? c (c :: rest) = some rest := by
  simp [mark?, trimStart_cons h]

/-- A number of any width goes up to the first other character. -/
lemma number?_padded_of_head? (width n : Nat) {rest : List Char}
    (hrest : ∀ c ∈ rest.head?, Numeral.isDigit c = false) :
    number? (Numeral.padded width n ++ rest).length (Numeral.padded width n ++ rest) =
      some (n, rest) := by
  have hdigits := Numeral.takeWhile_isDigit
    (fun _ => Numeral.isDigit_of_mem_padded width n) rest hrest
  simp only [number?, trimStart_padded, List.take_length, hdigits,
    if_neg (Numeral.padded_ne_nil width n), Numeral.value_padded, List.drop_left]

/-- The year is read up to the hyphen behind it. -/
lemma year?_yearChars (year : Int) (rest : List Char) :
    year? (yearChars year ++ '-' :: rest) = some (year, '-' :: rest) := by
  have hrest : ∀ c ∈ ('-' :: rest).head?, Numeral.isDigit c = false := by rintro _ ⟨⟩; rfl
  unfold yearChars
  split_ifs with hcommon hnegative
  · -- four digits: the hyphen is not needed to tell where the year ends
    have hnumber := number?_padded 4 (by decide)
      (by omega : year.toNat < 10 ^ 4) ('-' :: rest)
    have htrim := trimStart_padded 4 year.toNat ('-' :: rest)
    obtain ⟨d, ds, hdigits, hd⟩ := Numeral.exists_padded_eq_cons 4 year.toNat
    obtain ⟨hminus, hplus⟩ := Numeral.forall_isDigit (P := fun d => d ≠ '-' ∧ d ≠ '+')
      (by decide) hd
    rw [hdigits, List.cons_append] at hnumber htrim ⊢
    simp [year?, htrim, hminus, hplus, hnumber, Int.toNat_of_nonneg hcommon.1]
  · have hnumber := number?_padded_of_head? 4 year.natAbs hrest
    have htrim := trimStart_cons (c := '-') rfl (Numeral.padded 4 year.natAbs ++ '-' :: rest)
    obtain ⟨d, ds, hdigits, hd⟩ := Numeral.exists_padded_eq_cons 4 year.natAbs
    rw [hdigits, List.cons_append] at hnumber htrim ⊢
    simp only [year?, List.cons_append, htrim, hd, if_true, hnumber, Option.map_some]
    rw [Int.ofNat_natAbs_of_nonpos (by omega), Int.neg_neg]
  · have hnumber := number?_padded_of_head? 4 year.natAbs hrest
    have htrim := trimStart_cons (c := '+') rfl (Numeral.padded 4 year.natAbs ++ '-' :: rest)
    obtain ⟨d, ds, hdigits, hd⟩ := Numeral.exists_padded_eq_cons 4 year.natAbs
    rw [hdigits, List.cons_append] at hnumber htrim ⊢
    simp only [year?, List.cons_append, htrim, hd, if_true, hnumber, Option.map_some]
    rw [Int.natAbs_of_nonneg (by omega)]

lemma fraction?_padded {width n nanos : Nat} (hwidth : 0 < width) (hle : width ≤ 9)
    (h : n < 10 ^ width) (hnanos : 10 ^ (9 - width) * n = nanos) (rest : List Char) :
    fraction? ('.' :: Numeral.padded width n ++ 'Z' :: rest) = some (nanos, 'Z' :: rest) := by
  have hlength := Numeral.length_padded hwidth h
  have hdigits := Numeral.takeWhile_isDigit
    (fun _ => Numeral.isDigit_of_mem_padded width n) ('Z' :: rest) (by rintro _ ⟨⟩; rfl)
  have hkept : (Numeral.padded width n).take 9 = Numeral.padded width n :=
    List.take_of_length_le (by omega)
  simp only [fraction?, List.cons_append, hdigits, hkept, if_neg (Numeral.padded_ne_nil width n),
    hlength, Numeral.value_append_zeros, Numeral.value_padded, hnanos, List.drop_left' hlength]

/-- The fraction is read up to the sign for universal time. -/
lemma fraction?_fractionChars {nanos : Nat} (h : nanos < 1_000_000_000) (rest : List Char) :
    fraction? (fractionChars nanos ++ 'Z' :: rest) = some (nanos, 'Z' :: rest) := by
  unfold fractionChars
  split_ifs with hnone hmillis hmicros
  · rw [hnone]
    rfl
  · exact fraction?_padded (by decide) (by decide) (by omega) (by omega) rest
  · exact fraction?_padded (by decide) (by decide) (by omega) (by omega) rest
  · exact fraction?_padded (by decide) (by decide) (by omega) (by omega) rest

/-- A moment at no distance from universal time is its own. -/
lemma minusMinutes_zero (t : Timestamp) : t.minusMinutes 0 = t := by
  obtain ⟨date, hour, minute, second, nanos, hhour, hminute, hsecond, hnanos⟩ := t
  have htotal : ((60 * hour + minute : Int) % 1440).toNat = 60 * hour + minute := by omega
  have hbefore : ¬(60 * hour + minute : Int) < 0 := by omega
  have hafter : ¬(1440 ≤ (60 * hour + minute : Int)) := by omega
  simp only [minusMinutes, Int.sub_zero, if_neg hbefore, if_neg hafter, htotal]
  congr 1 <;> omega

lemma number?_two {n : Nat} (h : n < 100) (rest : List Char) :
    number? 2 (Numeral.padded 2 n ++ rest) = some (n, rest) :=
  number?_padded 2 (by decide) (by omega) rest

/-- The text of a moment is read as that moment, if dates are kept for its year. -/
theorem ofText?_text {t : Timestamp} (h : inCalendar t.date = true) : ofText? t.text = some t := by
  rw [ofText?, text, String.toList_ofList, chars]
  simp only [List.append_assoc, List.cons_append]
  -- the parts in their order, each with the sign in front of it
  refine bind_eq_some_of_eq (year?_yearChars ..) ?_
  refine bind_eq_some_of_eq (mark?_cons rfl _) ?_
  refine bind_eq_some_of_eq (number?_two (Nat.lt_of_le_of_lt t.date.month_le (by decide)) _) ?_
  refine bind_eq_some_of_eq (mark?_cons rfl _) ?_
  refine bind_eq_some_of_eq
    (number?_two (Nat.lt_of_le_of_lt t.date.day_le_thirtyOne (by decide)) _) ?_
  refine bind_eq_some_of_eq rfl ?_
  refine bind_eq_some_of_eq (number?_two (Nat.lt_trans t.hour_lt (by decide)) _) ?_
  refine bind_eq_some_of_eq (mark?_cons rfl _) ?_
  refine bind_eq_some_of_eq (number?_two (Nat.lt_trans t.minute_lt (by decide)) _) ?_
  refine bind_eq_some_of_eq (mark?_cons rfl _) ?_
  refine bind_eq_some_of_eq (number?_two (Nat.lt_of_le_of_lt t.second_le (by decide)) _) ?_
  refine bind_eq_some_of_eq (fraction?_fractionChars t.nanos_lt []) ?_
  refine bind_eq_some_of_eq (a := (0, [])) rfl ?_
  have hdate : Date.of? t.date.year t.date.month t.date.day = some t.date :=
    dif_pos ⟨⟨t.date.month_pos, t.date.month_le⟩, t.date.day_pos, t.date.day_le⟩
  have hcivil : of? t.date t.hour t.minute t.second t.nanos = some t :=
    dif_pos ⟨⟨t.hour_lt, t.minute_lt⟩, t.second_le, t.nanos_lt⟩
  refine bind_eq_some_of_eq hdate (bind_eq_some_of_eq hcivil ?_)
  rw [minusMinutes_zero, if_pos ⟨rfl, h, h⟩]

/-- Dates are kept for the year of every moment that is read. -/
lemma inCalendar_of_ofText? {text : String} {t : Timestamp} (h : ofText? text = some t) :
    inCalendar t.date = true := by
  rw [ofText?, ofChars?] at h
  iterate 5 obtain ⟨_, -, h⟩ := Option.bind_eq_some_iff.mp h
  dsimp only at h
  -- whatever joins date and time, the rest is read in the same way
  split at h
  iterate 3
    iterate 10 obtain ⟨_, -, h⟩ := Option.bind_eq_some_iff.mp h
    split_ifs at h with hkept
    cases h
    exact hkept.2.2
  cases h

end Timestamp

end SharedLog
