/-
# The grammar of documents

Which texts write a document, and which document: gaps stand around values and names, a number has
a fraction and an exponent or not, characters are escaped in any way, and the members of an object
stand in any order, of one name as many as there are. The reader accepts these texts and no others,
and reads what they write (`ofChars?_eq_some_iff`).

That a text which is read belongs to the grammar is shown by induction on the bound of the readers.
The converse goes along the grammar. The bound decreases with each part that is opened and with each
item; since a part takes at least one character of the text and is followed by another one, twice
the number of characters is enough.
-/
import SharedLog.Proofs.Json.Tokens

namespace SharedLog.Json

open Text

variable {cs rest : List Char} {s : List Glyph} {j : Json}

/-! ## The grammar -/

mutual

/-- A text writes a document, with gaps around it or without. -/
inductive Writes : List Char → Json → Prop
  | null : Writes ['n', 'u', 'l', 'l'] null
  | true : Writes ['t', 'r', 'u', 'e'] (bool true)
  | false : Writes ['f', 'a', 'l', 's', 'e'] (bool false)
  | number {cs : List Char} {n? : Option Nat} (h : WritesNumber cs n?) : Writes cs (number n?)
  | string {cs : List Char} {s : List Glyph} (h : WritesGlyphs cs s) :
      Writes ('"' :: cs ++ ['"']) (string (joinHalves s))
  | emptyArray {gap : List Char} (h : IsGap gap) : Writes ('[' :: gap ++ [']']) (array [])
  | array {cs : List Char} {items : List Json} (h : WritesItems cs items) :
      Writes ('[' :: cs ++ [']']) (array items)
  | emptyObject {gap : List Char} (h : IsGap gap) : Writes ('\x7b' :: gap ++ ['\x7d']) (object [])
  | object {cs : List Char} {members : List (List Glyph × Json)} (h : WritesMembers cs members) :
      Writes ('\x7b' :: cs ++ ['\x7d']) (object members)
  | pad {before cs behind : List Char} {j : Json} (hbefore : IsGap before) (h : Writes cs j)
      (hbehind : IsGap behind) : Writes (before ++ cs ++ behind) j

/-- A text writes the items of an array, at least one. -/
inductive WritesItems : List Char → List Json → Prop
  | one {cs : List Char} {item : Json} (h : Writes cs item) : WritesItems cs [item]
  | cons {cs more : List Char} {item : Json} {items : List Json} (h : Writes cs item)
      (hmore : WritesItems more items) : WritesItems (cs ++ ',' :: more) (item :: items)

/-- A text writes the members of an object, at least one. -/
inductive WritesMembers : List Char → List (List Glyph × Json) → Prop
  | one {ns cs : List Char} {name : List Glyph} {value : Json} (hname : Writes ns (string name))
      (h : Writes cs value) : WritesMembers (ns ++ ':' :: cs) [(name, value)]
  | cons {ns cs more : List Char} {name : List Glyph} {value : Json}
      {members : List (List Glyph × Json)} (hname : Writes ns (string name)) (h : Writes cs value)
      (hmore : WritesMembers more members) :
      WritesMembers (ns ++ ':' :: cs ++ ',' :: more) ((name, value) :: members)

end

lemma Writes.append_gap {gap : List Char} (h : Writes cs j) (hgap : IsGap gap) :
    Writes (cs ++ gap) j :=
  .pad (fun _ hc => nomatch hc : IsGap []) h hgap

/-! ## What is read belongs to the grammar -/

/-- What the readers of documents, items and members with some bound take off a text is written by
the characters in front of the rest. -/
structure Sound (n : Nat) : Prop where
  value : ∀ {cs j rest}, readValue? n cs = some (j, rest) →
    ∃ body, cs = body ++ rest ∧ Writes body j
  items : ∀ {cs items rest}, readItems? n cs = some (items, rest) →
    ∃ body, cs = body ++ ']' :: rest ∧ WritesItems body items
  members : ∀ {cs members rest}, readMembers? n cs = some (members, rest) →
    ∃ body, cs = body ++ '\x7d' :: rest ∧ WritesMembers body members

lemma exists_of_readString? (h : readString? cs = some (s, rest)) :
    ∃ body, cs = body ++ '"' :: rest ∧ Writes ('"' :: body ++ ['"']) (string s) := by
  obtain ⟨⟨s, rest⟩, hread, ⟨⟩⟩ := Option.map_eq_some_iff.mp h
  obtain ⟨body, rfl, hbody⟩ := exists_of_halves? hread
  exact ⟨body, rfl, .string hbody⟩

namespace Sound

variable {n : Nat}

lemma exists_value (ih : Sound n) (h : readValue? (n + 1) cs = some (j, rest)) :
    ∃ body, cs = body ++ rest ∧ Writes body j := by
  obtain ⟨gap, hgap, hcs⟩ := exists_gap cs
  suffices hbody : ∃ body, skipGap cs = body ++ rest ∧ Writes body j by
    obtain ⟨body, hskip, hbody⟩ := hbody
    refine ⟨gap ++ body ++ [], ?_, .pad hgap hbody fun _ h => nomatch h⟩
    rw [List.append_nil, List.append_assoc, ← hskip]
    exact hcs
  unfold readValue? at h
  generalize skipGap cs = cs at h ⊢
  split at h
  · obtain ⟨⟨s, rest⟩, hread, ⟨⟩⟩ := Option.map_eq_some_iff.mp h
    obtain ⟨body, rfl, hbody⟩ := exists_of_readString? hread
    exact ⟨_, by simp, hbody⟩
  · split at h
    · rename_i hbracket
      cases h
      obtain ⟨gap, hgap, rfl⟩ := exists_of_skipGap hbracket
      exact ⟨_, by simp, .emptyArray hgap⟩
    · obtain ⟨⟨items, rest⟩, hread, ⟨⟩⟩ := Option.map_eq_some_iff.mp h
      obtain ⟨body, rfl, hbody⟩ := ih.items hread
      exact ⟨_, by simp, .array hbody⟩
  · split at h
    · rename_i hbrace
      cases h
      obtain ⟨gap, hgap, rfl⟩ := exists_of_skipGap hbrace
      exact ⟨_, by simp, .emptyObject hgap⟩
    · obtain ⟨⟨members, rest⟩, hread, ⟨⟩⟩ := Option.map_eq_some_iff.mp h
      obtain ⟨body, rfl, hbody⟩ := ih.members hread
      exact ⟨_, by simp, .object hbody⟩
  · obtain ⟨rfl, rfl⟩ := exists_of_readWord? h
    exact ⟨_, rfl, .null⟩
  · obtain ⟨rfl, rfl⟩ := exists_of_readWord? h
    exact ⟨_, rfl, .true⟩
  · obtain ⟨rfl, rfl⟩ := exists_of_readWord? h
    exact ⟨_, rfl, .false⟩
  · obtain ⟨body, n?, hbody, hnumber, rfl⟩ := exists_of_readNumber? h
    exact ⟨body, hbody, .number hnumber⟩

lemma exists_items (ih : Sound n) {items : List Json}
    (h : readItems? (n + 1) cs = some (items, rest)) :
    ∃ body, cs = body ++ ']' :: rest ∧ WritesItems body items := by
  rw [readItems?] at h
  obtain ⟨⟨item, cs'⟩, hread, hnext⟩ := Option.bind_eq_some_iff.mp h
  clear h
  obtain ⟨body, rfl, hbody⟩ := ih.value hread
  dsimp only at hnext
  split at hnext
  · rename_i hcomma
    obtain ⟨⟨items, rest⟩, hread', ⟨⟩⟩ := Option.bind_eq_some_iff.mp hnext
    obtain ⟨gap, hgap, rfl⟩ := exists_of_skipGap hcomma
    obtain ⟨more, rfl, hmore⟩ := ih.items hread'
    exact ⟨_, by simp, .cons (hbody.append_gap hgap) hmore⟩
  · rename_i hbracket
    cases hnext
    obtain ⟨gap, hgap, rfl⟩ := exists_of_skipGap hbracket
    exact ⟨_, by simp, .one (hbody.append_gap hgap)⟩
  · cases hnext

lemma exists_members (ih : Sound n) {members : List (List Glyph × Json)}
    (h : readMembers? (n + 1) cs = some (members, rest)) :
    ∃ body, cs = body ++ '\x7d' :: rest ∧ WritesMembers body members := by
  rw [readMembers?] at h
  split at h
  · rename_i hquote
    obtain ⟨before, hbefore, rfl⟩ := exists_of_skipGap hquote
    obtain ⟨⟨name, cs'⟩, hread, hcolon⟩ := Option.bind_eq_some_iff.mp h
    obtain ⟨ns, rfl, hname⟩ := exists_of_readString? hread
    dsimp only at hcolon
    split at hcolon
    · rename_i hfound
      obtain ⟨behind, hbehind, rfl⟩ := exists_of_skipGap hfound
      have hname := Writes.pad hbefore hname hbehind
      obtain ⟨⟨value, cs'⟩, hread', hnext⟩ := Option.bind_eq_some_iff.mp hcolon
      obtain ⟨vs, rfl, hvalue⟩ := ih.value hread'
      dsimp only at hnext
      split at hnext
      · rename_i hcomma
        obtain ⟨⟨members, rest⟩, hread'', ⟨⟩⟩ := Option.bind_eq_some_iff.mp hnext
        obtain ⟨gap, hgap, rfl⟩ := exists_of_skipGap hcomma
        obtain ⟨more, rfl, hmore⟩ := ih.members hread''
        exact ⟨_, by simp, .cons hname (hvalue.append_gap hgap) hmore⟩
      · rename_i hbrace
        cases hnext
        obtain ⟨gap, hgap, rfl⟩ := exists_of_skipGap hbrace
        exact ⟨_, by simp, .one hname (hvalue.append_gap hgap)⟩
      · cases hnext
    · cases hcolon
  · cases h

end Sound

lemma sound (n : Nat) : Sound n := by
  induction n with
  | zero => exact ⟨nofun, nofun, nofun⟩
  | succ n ih => exact ⟨ih.exists_value, ih.exists_items, ih.exists_members⟩

/-! ## What belongs to the grammar is read -/

/-- A text that writes a document is read as that document, with whatever may follow a number behind
it. Some of the white space behind it may be left over. -/
def Reads (cs : List Char) (j : Json) : Prop :=
  ∀ (fuel : Nat) (rest : List Char), 2 * cs.length ≤ fuel → Ends rest →
    ∃ rest', skipGap rest' = skipGap rest ∧ readValue? fuel (cs ++ rest) = some (j, rest')

/-- The items of an array are read up to its bracket. -/
def ReadsItems (cs : List Char) (items : List Json) : Prop :=
  ∀ (fuel : Nat) (rest : List Char), 2 * cs.length < fuel →
    readItems? fuel (cs ++ ']' :: rest) = some (items, rest)

/-- The members of an object are read up to its brace. -/
def ReadsMembers (cs : List Char) (members : List (List Glyph × Json)) : Prop :=
  ∀ (fuel : Nat) (rest : List Char), 2 * cs.length < fuel →
    readMembers? fuel (cs ++ '\x7d' :: rest) = some (members, rest)

lemma readValue?_append {gap : List Char} (h : IsGap gap) (n : Nat) (cs : List Char) :
    readValue? n (gap ++ cs) = readValue? n cs := by
  cases n with
  | zero => rfl
  | succ n => simp only [readValue?, skipGap_append h]

/-- A text that begins with a digit or a minus sign is read as a number. -/
lemma readValue?_of_isNumberStart {c : Char} (h : Numeral.isDigit c = true ∨ c = '-') (n : Nat)
    (cs : List Char) : readValue? (n + 1) (c :: cs) = readNumber? (c :: cs) := by
  obtain ⟨hgap, hquote, hbracket, hbrace, hn, ht, hf⟩ : isGap c = false ∧ c ≠ '"' ∧ c ≠ '[' ∧
      c ≠ '\x7b' ∧ c ≠ 'n' ∧ c ≠ 't' ∧ c ≠ 'f' := by
    rcases h with h | rfl
    · exact Numeral.forall_isDigit (P := fun c => isGap c = false ∧ c ≠ '"' ∧ c ≠ '[' ∧
        c ≠ '\x7b' ∧ c ≠ 'n' ∧ c ≠ 't' ∧ c ≠ 'f') (by decide) h
    · decide
  simp [readValue?, skipGap_cons hgap, hquote, hbracket, hbrace, hn, ht, hf]

lemma exists_of_readValue?_string {n : Nat} (h : readValue? n cs = some (string s, rest)) :
    ∃ front, skipGap cs = '"' :: front ∧ readString? front = some (s, rest) := by
  cases n with
  | zero => cases h
  | succ n =>
    unfold readValue? at h
    split at h
    · rename_i front hquote
      obtain ⟨⟨s, rest⟩, hread, ⟨⟩⟩ := Option.map_eq_some_iff.mp h
      exact ⟨front, hquote, hread⟩
    · split at h
      · cases h
      · obtain ⟨_, -, ⟨⟩⟩ := Option.map_eq_some_iff.mp h
    · split at h
      · cases h
      · obtain ⟨_, -, ⟨⟩⟩ := Option.map_eq_some_iff.mp h
    iterate 3 cases (exists_of_readWord? h).2
    obtain ⟨_, _, -, -, ⟨⟩⟩ := exists_of_readNumber? h

/-- No item begins with a closing bracket. -/
lemma readItems?_of_bracket (h : skipGap cs = ']' :: rest) (n : Nat) : readItems? n cs = none := by
  have hvalue : ∀ n, readValue? n cs = none := by
    rintro (_ | n)
    · rfl
    · simp [readValue?, h, readNumber?, readDigits?, Numeral.isDigit]
  cases n with
  | zero => rfl
  | succ n => rw [readItems?, hvalue]; rfl

lemma readMembers?_of_brace (h : skipGap cs = '\x7d' :: rest) (n : Nat) :
    readMembers? n cs = none := by
  cases n with
  | zero => rfl
  | succ n => rw [readMembers?, h]; rfl

namespace Reads

/-- A text has one character at least, so that the readers' bound is not used up. -/
lemma intro {c : Char} (h : ∀ fuel rest, 2 * cs.length ≤ fuel → Ends rest →
    readValue? (fuel + 1) (c :: cs ++ rest) = some (j, rest)) : Reads (c :: cs) j := by
  intro fuel rest hfuel hrest
  cases fuel with
  | zero => cases hfuel
  | succ fuel => exact ⟨rest, rfl, h fuel rest (by simp at hfuel; omega) hrest⟩

lemma pad {before behind : List Char} (h : Reads cs j) (hbefore : IsGap before)
    (hbehind : IsGap behind) : Reads (before ++ cs ++ behind) j := by
  intro fuel rest hfuel hrest
  simp only [List.length_append] at hfuel
  obtain ⟨rest', hskip, hread⟩ := h fuel (behind ++ rest) (by omega) (ends_append hbehind hrest)
  refine ⟨rest', hskip.trans (skipGap_append hbehind rest), ?_⟩
  rw [List.append_assoc, List.append_assoc, readValue?_append hbefore, hread]

lemma string (h : WritesGlyphs cs s) : Reads ('"' :: cs ++ ['"']) (string (joinHalves s)) := by
  refine intro fun fuel rest _ _ => ?_
  simp [readValue?, skipGap, isGap, readString?, h.halves?]

lemma number {n? : Option Nat} (h : WritesNumber cs n?) : Reads cs (number n?) := by
  obtain ⟨c, cs, rfl, hc⟩ := h.exists_cons
  refine intro fun fuel rest _ hrest => ?_
  rw [List.cons_append, readValue?_of_isNumberStart hc, ← List.cons_append, h.readNumber? hrest]

lemma emptyArray {gap : List Char} (h : IsGap gap) : Reads ('[' :: gap ++ [']']) (array []) := by
  refine intro fun fuel rest _ _ => ?_
  have hskip : skipGap (gap ++ ']' :: rest) = ']' :: rest :=
    (skipGap_append h _).trans (skipGap_cons (by decide) rest)
  simp [readValue?, skipGap_cons, isGap, hskip]

lemma array {items : List Json} (h : ReadsItems cs items) :
    Reads ('[' :: cs ++ [']']) (array items) := by
  refine intro fun fuel rest hfuel _ => ?_
  have hlength : 2 * (cs.length + 1) ≤ fuel := by simpa using hfuel
  have hread := h fuel rest (by omega)
  -- a bracket that closes the array at once would leave no items to read
  have hopen : ∀ r, skipGap (cs ++ ']' :: rest) ≠ ']' :: r := fun r hr => by
    rw [readItems?_of_bracket hr] at hread
    cases hread
  simp [readValue?, skipGap_cons, isGap, hread]

lemma emptyObject {gap : List Char} (h : IsGap gap) :
    Reads ('\x7b' :: gap ++ ['\x7d']) (object []) := by
  refine intro fun fuel rest _ _ => ?_
  have hskip : skipGap (gap ++ '\x7d' :: rest) = '\x7d' :: rest :=
    (skipGap_append h _).trans (skipGap_cons (by decide) rest)
  simp [readValue?, skipGap_cons, isGap, hskip]

lemma object {members : List (List Glyph × Json)} (h : ReadsMembers cs members) :
    Reads ('\x7b' :: cs ++ ['\x7d']) (object members) := by
  refine intro fun fuel rest hfuel _ => ?_
  have hlength : 2 * (cs.length + 1) ≤ fuel := by simpa using hfuel
  have hread := h fuel rest (by omega)
  have hopen : ∀ r, skipGap (cs ++ '\x7d' :: rest) ≠ '\x7d' :: r := fun r hr => by
    rw [readMembers?_of_brace hr] at hread
    cases hread
  simp [readValue?, skipGap_cons, isGap, hread]

/-- A string that is read with a colon behind it can be the name of a member. -/
lemma exists_name {name : List Glyph} (h : Reads cs (.string name)) (rest : List Char) :
    ∃ front behind, skipGap (cs ++ ':' :: rest) = '"' :: front ∧
      readString? front = some (name, behind) ∧ skipGap behind = ':' :: rest := by
  obtain ⟨behind, hskip, hread⟩ := h (2 * cs.length) (':' :: rest) (Nat.le_refl _)
    (ends_cons (by decide) rest)
  obtain ⟨front, hquote, hname⟩ := exists_of_readValue?_string hread
  exact ⟨front, behind, hquote, hname, hskip.trans (skipGap_cons (by decide) rest)⟩

end Reads

namespace ReadsItems

variable {more : List Char} {item : Json} {items : List Json}

lemma one (h : Reads cs item) : ReadsItems cs [item] := by
  intro fuel rest hfuel
  obtain ⟨fuel, rfl⟩ : ∃ k, fuel = k + 1 := ⟨fuel - 1, by omega⟩
  obtain ⟨rest', hskip, hread⟩ := h fuel (']' :: rest) (by omega) (ends_cons (by decide) rest)
  rw [skipGap_cons (by decide)] at hskip
  simp [readItems?, hread, hskip]

lemma cons (h : Reads cs item) (hmore : ReadsItems more items) :
    ReadsItems (cs ++ ',' :: more) (item :: items) := by
  intro fuel rest hfuel
  simp only [List.length_append, List.length_cons] at hfuel
  obtain ⟨fuel, rfl⟩ : ∃ k, fuel = k + 1 := ⟨fuel - 1, by omega⟩
  obtain ⟨rest', hskip, hread⟩ := h fuel (',' :: (more ++ ']' :: rest)) (by omega)
    (ends_cons (by decide) _)
  rw [skipGap_cons (by decide)] at hskip
  simp [readItems?, hread, hskip, hmore fuel rest (by omega)]

end ReadsItems

namespace ReadsMembers

variable {ns more : List Char} {name : List Glyph} {value : Json}
  {members : List (List Glyph × Json)}

lemma one (hname : Reads ns (string name)) (h : Reads cs value) :
    ReadsMembers (ns ++ ':' :: cs) [(name, value)] := by
  intro fuel rest hfuel
  simp only [List.length_append, List.length_cons] at hfuel
  obtain ⟨fuel, rfl⟩ : ∃ k, fuel = k + 1 := ⟨fuel - 1, by omega⟩
  obtain ⟨rest', hskip, hread⟩ := h fuel ('\x7d' :: rest) (by omega) (ends_cons (by decide) rest)
  obtain ⟨front, behind, hquote, hstring, hcolon⟩ := hname.exists_name (cs ++ '\x7d' :: rest)
  rw [skipGap_cons (by decide)] at hskip
  simp [readMembers?, hquote, hstring, hcolon, hread, hskip]

lemma cons (hname : Reads ns (string name)) (h : Reads cs value)
    (hmore : ReadsMembers more members) :
    ReadsMembers (ns ++ ':' :: cs ++ ',' :: more) ((name, value) :: members) := by
  intro fuel rest hfuel
  simp only [List.length_append, List.length_cons] at hfuel
  obtain ⟨fuel, rfl⟩ : ∃ k, fuel = k + 1 := ⟨fuel - 1, by omega⟩
  obtain ⟨rest', hskip, hread⟩ := h fuel (',' :: (more ++ '\x7d' :: rest)) (by omega)
    (ends_cons (by decide) _)
  obtain ⟨front, behind, hquote, hstring, hcolon⟩ :=
    hname.exists_name (cs ++ ',' :: (more ++ '\x7d' :: rest))
  rw [skipGap_cons (by decide)] at hskip
  simp [readMembers?, hquote, hstring, hcolon, hread, hskip, hmore fuel rest (by omega)]

end ReadsMembers

mutual

theorem Writes.reads {cs : List Char} {j : Json} (h : Writes cs j) : Reads cs j :=
  match h with
  | .null => .intro fun _ _ _ _ => rfl
  | .true => .intro fun _ _ _ _ => rfl
  | .false => .intro fun _ _ _ _ => rfl
  | .number h => .number h
  | .string h => .string h
  | .emptyArray h => .emptyArray h
  | .array h => .array h.reads
  | .emptyObject h => .emptyObject h
  | .object h => .object h.reads
  | .pad hbefore h hbehind => h.reads.pad hbefore hbehind

theorem WritesItems.reads {cs : List Char} {items : List Json} (h : WritesItems cs items) :
    ReadsItems cs items :=
  match h with
  | .one h => .one h.reads
  | .cons h hmore => .cons h.reads hmore.reads

theorem WritesMembers.reads {cs : List Char} {members : List (List Glyph × Json)}
    (h : WritesMembers cs members) : ReadsMembers cs members :=
  match h with
  | .one hname h => .one hname.reads h.reads
  | .cons hname h hmore => .cons hname.reads h.reads hmore.reads

end

/-- The reader accepts the texts that write a document, and no others, and it reads what they
write. -/
theorem ofChars?_eq_some_iff : ofChars? cs = some j ↔ Writes cs j := by
  constructor
  · intro h
    unfold ofChars? at h
    split at h
    · rename_i j' rest hread
      split_ifs at h with hend
      cases h
      obtain ⟨body, rfl, hbody⟩ := (sound _).value hread
      obtain ⟨gap, hgap, hrest⟩ := exists_gap rest
      rw [hend, List.append_nil] at hrest
      exact hbody.append_gap (hrest ▸ hgap)
    · cases h
  · intro h
    obtain ⟨rest, hend, hread⟩ := h.reads (2 * cs.length + 2) [] (by omega) nofun
    rw [List.append_nil] at hread
    simp only [ofChars?, hread]
    exact if_pos hend

end SharedLog.Json
